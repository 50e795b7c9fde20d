import Mathlib.Data.List.Forall2
import Stencil.Proofs.Generation.Filled
import Stencil.Proofs.Table
import Stencil.Render.State

/-!
# Scopes and frames

The names that a scope of the compiler holds are bound while the program runs: each of its frames has
a frame of the running program at its side, the outermost one has the globals. A name need not be
bound in the frame at its side: an assignment to a name that is bound further out changes it there.

`Held` says so for two runs at once, which differ in their globals only. A name is found in their
frames, or it is a global that both have, with the same value. With the same globals twice it says
of one run that the names are bound.

* `Held.find`: a name that the scope holds is found.
* `Agrees.store`: it stays so when a name is stored and added to the scope.
-/

namespace Stencil

/-! ## Names that are found -/

/-- Two runs find the name in their frames, or have it as a global with the same value. -/
def Sure (g g' : Table Value) (frames : List (Table Value)) (name : String) : Prop :=
  (∃ frame ∈ frames, frame.contains name = true) ∨
    (g.get? name = g'.get? name ∧ g.contains name = true)

/-- The names of the frames of a scope are found, each from the frame at its side outwards. -/
inductive Held (g g' : Table Value) : List NameSet → List (Table Value) → Prop where
  | globals {names : NameSet} (sure : ∀ name, name ∈ names → Sure g g' [] name) : Held g g' [names] []
  | frame {names : NameSet} {outer : List NameSet} {frame : Table Value}
      {frames : List (Table Value)} (sure : ∀ name, name ∈ names → Sure g g' (frame :: frames) name)
      (held : Held g g' outer frames) : Held g g' (names :: outer) (frame :: frames)

/-- Every frame has the names it had, and perhaps more. -/
def Grows : List (Table Value) → List (Table Value) → Prop :=
  List.Forall₂ fun frame frame' => ∀ name, frame.contains name = true → frame'.contains name = true

namespace Sure

variable {g g' : Table Value} {frame : Table Value} {frames frames' : List (Table Value)}
  {name : String}

theorem cons (h : Sure g g' frames name) : Sure g g' (frame :: frames) name := by
  rcases h with ⟨found, hfound, hname⟩ | h
  · exact .inl ⟨found, List.mem_cons_of_mem _ hfound, hname⟩
  · exact .inr h

theorem grows (h : Sure g g' frames name) (hgrows : Grows frames frames') :
    Sure g g' frames' name := by
  rcases h with ⟨found, hfound, hname⟩ | h
  · refine .inl ?_
    induction hgrows with
    | nil => cases hfound
    | cons hsame _ ih =>
      rcases List.mem_cons.1 hfound with rfl | hfound
      · exact ⟨_, List.mem_cons_self, hsame name hname⟩
      · obtain ⟨found, hmem, hname⟩ := ih hfound
        exact ⟨found, List.mem_cons_of_mem _ hmem, hname⟩
  · exact .inr h

/-- A global that both runs store is one with the same value. -/
theorem insert (h : Sure g g' frames name) (key : String) (v : Value) :
    Sure (g.insert key v) (g'.insert key v) frames name := by
  rcases h with h | ⟨hsame, hname⟩
  · exact .inl h
  · refine .inr ⟨?_, Table.contains_insert.2 (.inr hname)⟩
    rw [Table.get?_insert, Table.get?_insert, hsame]

theorem stored (key : String) (v : Value) : Sure (g.insert key v) (g'.insert key v) frames key :=
  .inr ⟨by rw [Table.get?_insert, Table.get?_insert, if_pos rfl, if_pos rfl],
    Table.contains_insert.2 (.inl rfl)⟩

end Sure

theorem Grows.refl (frames : List (Table Value)) : Grows frames frames := by
  induction frames with
  | nil => exact .nil
  | cons frame frames ih => exact .cons (fun _ h => h) ih

/-- Changing a name where it is bound takes nothing away. -/
theorem grows_changeIn {name : String} {v : Value} {frames frames' : List (Table Value)}
    (h : RenderState.changeIn? name v frames = some frames') :
    Grows frames frames' ∧ ∃ frame ∈ frames', frame.contains name = true := by
  induction frames generalizing frames' with
  | nil => cases h
  | cons frame frames ih =>
    rw [RenderState.changeIn?] at h
    split at h
    · obtain rfl := Option.some.inj h
      refine ⟨.cons (fun _ hn => Table.contains_insert.2 (.inr hn)) (Grows.refl _), _,
        List.mem_cons_self,
        Table.contains_insert.2 (.inl rfl)⟩
    · obtain ⟨changed, hchanged, rfl⟩ := Option.map_eq_some_iff.1 h
      obtain ⟨hgrows, found, hfound, hname⟩ := ih hchanged
      exact ⟨.cons (fun _ hn => hn) hgrows, found, List.mem_cons_of_mem _ hfound, hname⟩

/-- A name that cannot be changed is in no frame. -/
theorem not_found_changeIn {name : String} {v : Value} {frames : List (Table Value)}
    (h : RenderState.changeIn? name v frames = none) :
    ∀ frame ∈ frames, frame.contains name = false := by
  induction frames with
  | nil => exact fun _ hframe => absurd hframe List.not_mem_nil
  | cons frame frames ih =>
    rw [RenderState.changeIn?] at h
    split at h
    · cases h
    · next hname =>
      intro found hfound
      rcases List.mem_cons.1 hfound with rfl | hfound
      · simpa using hname
      · exact ih (Option.map_eq_none_iff.1 h) found hfound

namespace Held

variable {g g' : Table Value} {scopes : List NameSet} {frames frames' : List (Table Value)}
  {names : NameSet} {frame : Table Value} {name : String}

/-- A name that the scope holds is found. -/
theorem find (h : Held g g' scopes frames) (hname : ∃ names ∈ scopes, name ∈ names) :
    Sure g g' frames name := by
  obtain ⟨names, hmem, hname⟩ := hname
  induction h with
  | globals sure =>
    obtain rfl := List.mem_singleton.1 hmem
    exact sure name hname
  | frame sure _ ih =>
    rcases List.mem_cons.1 hmem with rfl | hmem
    · exact sure name hname
    · exact (ih hmem).cons

theorem exists_cons (h : Held g g' scopes frames) : ∃ names outer, scopes = names :: outer := by
  cases h <;> exact ⟨_, _, rfl⟩

theorem grows (h : Held g g' scopes frames) (hgrows : Grows frames frames') :
    Held g g' scopes frames' := by
  induction h generalizing frames' with
  | globals sure =>
    cases hgrows
    exact .globals sure
  | frame sure _ ih =>
    cases hgrows with
    | cons hframe hframes =>
      exact .frame (fun name hname => (sure name hname).grows (.cons hframe hframes)) (ih hframes)

theorem insert (h : Held g g' scopes frames) (key : String) (v : Value) :
    Held (g.insert key v) (g'.insert key v) scopes frames := by
  induction h with
  | globals sure => exact .globals fun name hname => (sure name hname).insert key v
  | frame sure _ ih => exact .frame (fun name hname => (sure name hname).insert key v) ih

/-- A name that is found may be added to the innermost frame of the scope. -/
theorem add (h : Held g g' (names :: scopes) frames) (hname : Sure g g' frames name) :
    Held g g' (names.insert name :: scopes) frames := by
  have hall {frames : List (Table Value)} (hsure : ∀ n, n ∈ names → Sure g g' frames n)
      (hname : Sure g g' frames name) : ∀ n, n ∈ names.insert name → Sure g g' frames n := by
    intro n hn
    rcases NameSet.mem_insert.1 hn with rfl | hn
    · exact hname
    · exact hsure n hn
  cases h with
  | globals sure => exact .globals (hall sure hname)
  | frame sure held => exact .frame (hall sure hname) held

/-- A frame for a body, with the names that the body begins with. -/
theorem opened (h : Held g g' scopes frames)
    (hnames : ∀ name, name ∈ names → frame.contains name = true) :
    Held g g' (names :: scopes) (frame :: frames) :=
  .frame (fun name hname => .inl ⟨frame, List.mem_cons_self, hnames name hname⟩) h

/-- The frame of a body is left. -/
theorem closed (h : Held g g' (names :: scopes) frames) (hscopes : scopes ≠ []) :
    Held g g' scopes (frames.drop 1) := by
  cases h with
  | globals => exact absurd rfl hscopes
  | frame _ held => exact held

end Held

/-! ## States -/

/-- Two states differ in their globals only, agree on those in `R`, and the names of a scope are
found in both. -/
structure Agrees (R : String → Prop) (σ : Scope) (s s' : RenderState) : Prop where
  same : s' = { s with globals := s'.globals }
  reads : ∀ name, R name → s.globals.get? name = s'.globals.get? name
  held : Held s.globals s'.globals σ.frames s.frames

theorem Scope.has_iff {σ : Scope} {name : String} :
    σ.has name = true ↔ ∃ names ∈ σ.frames, name ∈ names := by
  simp [Scope.has, List.any_eq_true]

namespace Agrees

variable {R : String → Prop} {σ : Scope} {s s' : RenderState} {name : String}

theorem lookup_frames {frames : List (Table Value)} {frame : Table Value} (hmem : frame ∈ frames)
    (hname : frame.contains name = true) : (RenderState.lookupIn name frames).isSome = true := by
  rw [RenderState.lookupIn, List.findSome?_isSome_iff]
  exact ⟨frame, hmem, hname⟩

/-- Names that the scope holds, and those in `R`, have the same value in both. -/
theorem lookup (h : Agrees R σ s s') (hname : σ.has name = true ∨ R name) :
    s.lookup name = s'.lookup name := by
  rw [h.same, RenderState.lookup, RenderState.lookup]
  dsimp only
  rcases hname with hname | hname
  · rcases h.held.find (Scope.has_iff.1 hname) with ⟨frame, hmem, hframe⟩ | ⟨hsame, _⟩
    · obtain ⟨v, hv⟩ := Option.isSome_iff_exists.1 (lookup_frames hmem hframe)
      rw [hv]
      rfl
    · rw [hsame]
  · rw [h.reads name hname]

/-- Writing a text changes no name. -/
theorem write (h : Agrees R σ s s') (text : String) : Agrees R σ (s.write text) (s'.write text) where
  same := by
    rw [h.same]
    rfl
  reads := h.reads
  held := h.held

/-- Moving to a position changes no name. -/
theorem moved (h : Agrees R σ s s') (pos : Pos) :
    Agrees R σ { s with position := some pos } { s' with position := some pos } where
  same := by rw [h.same]
  reads := h.reads
  held := h.held

/-- A name that is bound in the innermost frame is held from then on. -/
theorem declare (h : Agrees R σ s s') (name : String) (v : Value) :
    Agrees R (σ.add name) (s.declare name v) (s'.declare name v) := by
  obtain ⟨scopes⟩ := σ
  obtain ⟨hsame, hreads, hheld⟩ := h
  generalize s'.globals = g' at hsame hreads hheld
  subst hsame
  obtain ⟨names, outer, rfl⟩ := hheld.exists_cons
  cases hframes : s.frames with
  | nil =>
    rw [hframes] at hheld
    simp only [RenderState.declare, hframes]
    refine ⟨rfl, fun n hn => ?_, hframes ▸ (hheld.insert name v).add (.stored name v)⟩
    rw [Table.get?_insert, Table.get?_insert, hreads n hn]
  | cons frame frames =>
    rw [hframes] at hheld
    have hgrows : Grows (frame :: frames) (frame.insert name v :: frames) :=
      .cons (fun _ hn => Table.contains_insert.2 (.inr hn)) (Grows.refl _)
    simp only [RenderState.declare, hframes]
    exact ⟨rfl, hreads, (hheld.grows hgrows).add
      (.inl ⟨_, List.mem_cons_self, Table.contains_insert.2 (.inl rfl)⟩)⟩

/-- A name that is changed is held from then on. -/
theorem assign (h : Agrees R σ s s') (v : Value)
    (hname : σ.has name = true ∨ s.globals.get? name = s'.globals.get? name) :
    Agrees R (σ.add name) (s.assign name v) (s'.assign name v) := by
  have hdeclared := h.declare name v
  obtain ⟨scopes⟩ := σ
  obtain ⟨hsame, hreads, hheld⟩ := h
  generalize s'.globals = g' at hsame hreads hheld hname
  subst hsame
  obtain ⟨names, outer, rfl⟩ := hheld.exists_cons
  cases hchange : RenderState.changeIn? name v s.frames with
  | some frames =>
    obtain ⟨hgrows, hfound⟩ := grows_changeIn hchange
    simp only [RenderState.assign, hchange]
    exact ⟨rfl, hreads, (hheld.grows hgrows).add (.inl hfound)⟩
  | none =>
    have hglobal : s.globals.get? name = g'.get? name := by
      rcases hname with hname | hglobal
      · rcases hheld.find (Scope.has_iff.1 hname) with ⟨frame, hmem, hframe⟩ | ⟨hglobal, _⟩
        · rw [not_found_changeIn hchange frame hmem] at hframe
          cases hframe
        · exact hglobal
      · exact hglobal
    have hcontains : g'.contains name = s.globals.contains name := by
      rw [Table.contains, Table.contains, hglobal]
    cases hbound : s.globals.contains name with
    | false =>
      simp only [RenderState.assign, hchange, hcontains, hbound, Bool.false_eq_true, if_false]
      exact hdeclared
    | true =>
      simp only [RenderState.assign, hchange, hcontains, hbound, if_true]
      refine ⟨rfl, fun n hn => ?_, (hheld.insert name v).add (.stored name v)⟩
      rw [Table.get?_insert, Table.get?_insert, hreads n hn]

/-- A name that is stored is held from then on. -/
theorem store (h : Agrees R σ s s') (v : Value) {declares : Bool} (hname : declares = false →
    σ.has name = true ∨ s.globals.get? name = s'.globals.get? name) :
    Agrees R (σ.add name) (s.store name v declares) (s'.store name v declares) := by
  cases declares with
  | true => exact h.declare name v
  | false => exact h.assign v (hname rfl)

/-- A body begins in frames of its own. -/
theorem opened (h : Agrees R σ s s') {frame : Table Value} {names : List String}
    (hnames : ∀ name ∈ names, frame.contains name = true) :
    Agrees R (σ.create.addAll names) { s with frames := frame :: s.frames }
      { s' with frames := frame :: s'.frames } where
  same := by
    rw [h.same]
  reads := h.reads
  held := by
    rw [Scope.create, Scope.addAll_frames]
    refine h.held.opened fun name hname => ?_
    rcases NameSet.mem_insertAll.1 hname with hname | hname
    · exact hnames name hname
    · exact absurd hname NameSet.not_mem_empty

/-- The frames of a body are left. -/
theorem closed {names : List String} (h : Agrees R (σ.create.addAll names) s s')
    (hσ : 0 < σ.depth) :
    Agrees R σ { s with frames := s.frames.drop 1 } { s' with frames := s'.frames.drop 1 } where
  same := by
    rw [h.same]
  reads := h.reads
  held := by
    have hheld := h.held
    rw [Scope.create, Scope.addAll_frames] at hheld
    refine hheld.closed fun hnil => ?_
    rw [Scope.depth, hnil] at hσ
    cases hσ

end Agrees

end Stencil
