import Stencil.Inclusion.Flatten

/-!
# Reading the files that a text names

* `Resolving.Ends`: how resolving ends; the files met are known whether it fails or not.
* `Flattener.fetch_ends`: of the files that a text names, those that are not known yet are read, each
  of them once, and kept under their names. If one cannot be read, resolving fails.
* `Flattener.fetch_ok`: so all of them are there once they are fetched, and no file that was there is
  changed.
-/

namespace Stencil

open Text

/-! ## Resolving -/

namespace Resolving

variable {α β : Type} {c c' : Closure}

theorem bind_ok {x : Resolving α} {f : α → Resolving β} {b : β} :
    (x >>= f) c = .ok b c' ↔ ∃ a c₁, x c = .ok a c₁ ∧ f a c₁ = .ok b c' := by
  show EStateM.bind x f c = _ ↔ _
  unfold EStateM.bind
  cases x c with
  | ok a c₁ =>
    constructor
    · intro h
      exact ⟨a, c₁, rfl, h⟩
    · rintro ⟨_, _, h, hf⟩
      cases h
      exact hf
  | error e c₁ => simp

theorem pure_ok {a b : α} : (pure a : Resolving α) c = .ok b c' ↔ a = b ∧ c = c' := by
  show EStateM.Result.ok a c = .ok b c' ↔ _
  simp

theorem get_ok {s : Closure} : (get : Resolving Closure) c = .ok s c' ↔ c = s ∧ c = c' := by
  show EStateM.Result.ok c c = .ok s c' ↔ _
  simp

theorem modify_ok {f : Closure → Closure} {u : Unit} :
    (modify f : Resolving Unit) c = .ok u c' ↔ f c = c' := by
  show EStateM.Result.ok () (f c) = .ok u c' ↔ _
  simp

/-- What came out, if nothing failed. -/
def value? : EStateM.Result Error Closure α → Option α
  | .ok a _ => some a
  | .error _ _ => none

theorem ok_of_map_value? {r : EStateM.Result Error Closure α} {f : α → β} {b : β}
    (h : (value? r).map f = some b) : ∃ a c', r = .ok a c' ∧ f a = b := by
  cases r with
  | ok a c' => exact ⟨a, c', rfl, Option.some.inj h⟩
  | error e c' => cases h

theorem ok_of_value? {x : Resolving α} {a : α} (h : value? (x c) = some a) :
    ∃ c', x c = .ok a c' := by
  obtain ⟨_, c', hx, rfl⟩ := ok_of_map_value? (f := id) (by rw [h]; rfl)
  exact ⟨c', hx⟩

/-- How resolving ends: with a value, or with an error. -/
inductive Ends (done : α → Closure → Prop) (failed : Error → Closure → Prop) :
    EStateM.Result Error Closure α → Prop
  | ok {a : α} {c : Closure} (h : done a c) : Ends done failed (.ok a c)
  | error {e : Error} {c : Closure} (h : failed e c) : Ends done failed (.error e c)

namespace Ends

variable {done done' : α → Closure → Prop} {failed failed' : Error → Closure → Prop}

theorem bind {x : Resolving α} {f : α → Resolving β} {done : β → Closure → Prop}
    (h : Ends (fun a c₁ => Ends done failed (f a c₁)) failed (x c)) :
    Ends done failed ((x >>= f) c) := by
  show Ends done failed (EStateM.bind x f c)
  unfold EStateM.bind
  generalize x c = r at h
  cases h with
  | ok h => exact h
  | error h => exact .error h

theorem mono {r : EStateM.Result Error Closure α} (h : Ends done failed r)
    (hdone : ∀ a c, done a c → done' a c) (hfailed : ∀ e c, failed e c → failed' e c) :
    Ends done' failed' r := by
  cases h with
  | ok h => exact .ok (hdone _ _ h)
  | error h => exact .error (hfailed _ _ h)

theorem of_ok {r : EStateM.Result Error Closure α} {a : α} (h : Ends done failed r)
    (hr : r = .ok a c) : done a c := by
  subst hr
  cases h with
  | ok h => exact h

theorem of_error {r : EStateM.Result Error Closure α} {e : Error} (h : Ends done failed r)
    (hr : r = .error e c) : failed e c := by
  subst hr
  cases h with
  | error h => exact h

end Ends

end Resolving

/-! ## Files only come in -/

/-- Every file of the first table is in the second one, with the same text. -/
def Files.Extends (old new : Files) : Prop :=
  ∀ name text, old.get? name = some text → new.get? name = some text

namespace Files.Extends

variable {a b c : Files}

theorem refl (a : Files) : a.Extends a := fun _ _ h => h

theorem trans (hab : a.Extends b) (hbc : b.Extends c) : a.Extends c :=
  fun name text h => hbc name text (hab name text h)

theorem contains {name : String} (h : a.Extends b) (hname : a.contains name = true) :
    b.contains name = true := by
  obtain ⟨text, htext⟩ := Option.isSome_iff_exists.1 hname
  exact Option.isSome_iff_exists.2 ⟨text, h name text htext⟩

end Files.Extends

/-! ## Files that are read -/

/-- Of the elements with one value of `f`, only the first one is kept. -/
theorem pairwise_eraseDupsBy {α β : Type} [DecidableEq β] (f : α → β) (as : List α) :
    (as.eraseDupsBy (f · == f ·)).Pairwise (f · ≠ f ·) ∧
      (∀ a ∈ as.eraseDupsBy (f · == f ·), a ∈ as) ∧
      ∀ a ∈ as, ∃ b ∈ as.eraseDupsBy (f · == f ·), f b = f a := by
  induction h : as.length using Nat.strongRecOn generalizing as with
  | ind n ih =>
  cases as with
  | nil => simp
  | cons a as =>
    rw [List.eraseDupsBy_cons]
    have hlen : (as.filter fun b => (f b == f a) = false).length < n := by
      have := List.length_filter_le (fun b => (f b == f a) = false) as
      simp only [List.length_cons] at h
      omega
    obtain ⟨hdistinct, hsub, hcover⟩ := ih _ hlen (as.filter fun b => (f b == f a) = false) rfl
    have hother : ∀ b ∈ (as.filter fun b => (f b == f a) = false).eraseDupsBy (f · == f ·),
        b ∈ as ∧ f b ≠ f a := by
      intro b hb
      simpa using hsub b hb
    refine ⟨List.pairwise_cons.2 ⟨fun b hb => (hother b hb).2.symm, hdistinct⟩, ?_, ?_⟩
    · intro b hb
      rcases List.mem_cons.1 hb with rfl | hb
      · exact List.mem_cons_self
      · exact List.mem_cons_of_mem _ (hother b hb).1
    · intro b hb
      by_cases hba : f b = f a
      · exact ⟨a, List.mem_cons_self, hba.symm⟩
      · have hb : b ∈ as := (List.mem_cons.1 hb).resolve_left fun heq => hba (heq ▸ rfl)
        obtain ⟨b', hb', heq⟩ := hcover b (by simp [hb, hba])
        exact ⟨b', List.mem_cons_of_mem _ hb', heq⟩

namespace Flattener

variable {e : Flattener} {file : String} {targets : List Target} {c c' : Closure}

theorem fail_ok {α : Type} {cause : Cause} {d : Directive} {a : α} :
    ¬ fail cause file d c = .ok a c' := by
  intro h
  unfold fail at h
  obtain ⟨s, c₁, _, h⟩ := Resolving.bind_ok.1 h
  cases h

/-- The targets that were not read yet, one for each file. -/
def missing (targets : List Target) (known : Files) : List Target :=
  (targets.filter fun t => !known.contains t.file).eraseDupsBy (·.file == ·.file)

theorem mem_missing {known : Files} {t : Target} (h : t ∈ missing targets known) :
    t ∈ targets ∧ known.get? t.file = none := by
  have h := (pairwise_eraseDupsBy Target.file _).2.1 t h
  simpa [Table.contains] using List.mem_filter.1 h

/-- The closure is as before, but for the files: those of some targets came in. -/
structure Kept (e : Flattener) (targets : List Target) (c c' : Closure) : Prop where
  includes : c'.includes = c.includes
  reads : c'.reads = c.reads
  new : ∀ t ∈ targets, ∃ text, e.store.load t.path = .ok text ∧ c'.files.get? t.file = some text
  old : ∀ name, (∀ t ∈ targets, t.file ≠ name) → c'.files.get? name = c.files.get? name

/-- Some target cannot be read, and the error says so. -/
def Unread (e : Flattener) (targets : List Target) (err : Error) : Prop :=
  ∃ t ∈ targets, ∃ reason, e.store.load t.path = .error reason ∧
    err.cause = .unresolved t.directive.kind.describe (.ofList t.directive.name) reason

/-- What was read for different files is kept, until a file cannot be read. -/
theorem forM_keep_ends (hdistinct : targets.Pairwise (·.file ≠ ·.file)) :
    Resolving.Ends (fun _ => e.Kept targets c)
      (fun err c' => e.Unread targets err ∧ c'.reads = c.reads)
      ((targets.forM fun t => keep file t (e.store.load t.path)) c) := by
  induction targets generalizing c with
  | nil => exact .ok ⟨rfl, rfl, fun t ht => absurd ht List.not_mem_nil, fun _ _ => rfl⟩
  | cons t targets ih =>
    obtain ⟨hother, hdistinct⟩ := List.pairwise_cons.1 hdistinct
    rw [List.forM_eq_forM, List.forM_cons]
    refine .bind ?_
    cases hload : e.store.load t.path with
    | error reason => exact .error ⟨⟨t, List.mem_cons_self, reason, hload, rfl⟩, rfl⟩
    | ok text =>
      refine .ok ((ih hdistinct).mono (fun _ c' hkept => ?_) fun err c' hfailed => ?_)
      · refine ⟨hkept.includes, hkept.reads, fun t' ht' => ?_, fun name hname => ?_⟩
        · rcases List.mem_cons.1 ht' with rfl | ht'
          · refine ⟨text, hload, ?_⟩
            rw [hkept.old _ fun t' ht' => Ne.symm (hother t' ht')]
            exact (Table.get?_insert _ _ _ _).trans (if_pos rfl)
          · exact hkept.new t' ht'
        · rw [List.forall_mem_cons] at hname
          rw [hkept.old name hname.2]
          exact (Table.get?_insert _ _ _ _).trans (if_neg (Ne.symm hname.1))
      · obtain ⟨⟨t', ht', hunread⟩, hreads⟩ := hfailed
        exact ⟨⟨t', List.mem_cons_of_mem _ ht', hunread⟩, hreads⟩

/-- The closure once the targets are fetched. -/
structure Fetched (e : Flattener) (targets : List Target) (c c' : Closure) : Prop where
  includes : c'.includes = c.includes
  reads : c'.reads = c.reads ++ (missing targets c.files).map Target.path
  grown : c.files.Extends c'.files
  /-- A file that came in is one of the targets. -/
  new : ∀ name text, c'.files.get? name = some text → c.files.get? name = some text ∨
    ∃ t ∈ missing targets c.files, t.file = name ∧ e.store.load t.path = .ok text
  there : ∀ t ∈ targets, c'.files.contains t.file = true

/-- The targets that are not known yet are read, each file once, and all of them even if one of them
cannot be read. -/
theorem fetch_ends : Resolving.Ends (fun _ => e.Fetched targets c)
    (fun err c' => e.Unread (missing targets c.files) err ∧
      c'.reads = c.reads ++ (missing targets c.files).map Target.path)
    (e.fetch file targets c) := by
  have hcover := (pairwise_eraseDupsBy Target.file
    (targets.filter fun t => !c.files.contains t.file)).2.2
  have hkeep := @forM_keep_ends e file (missing targets c.files)
    { c with reads := c.reads ++ (missing targets c.files).map Target.path }
    (pairwise_eraseDupsBy Target.file (targets.filter fun t => !c.files.contains t.file)).1
  refine hkeep.mono (fun _ c' hkept => ?_) fun err c' hfailed => hfailed
  refine ⟨hkept.includes, hkept.reads, fun name text hname => ?_, fun name text hname => ?_,
    fun t ht => ?_⟩
  · rw [hkept.old name fun t ht heq => ?_]
    · exact hname
    · have hnone := (mem_missing ht).2
      rw [heq, hname] at hnone
      cases hnone
  · by_cases hmissing : ∃ t ∈ missing targets c.files, t.file = name
    · obtain ⟨t, ht, rfl⟩ := hmissing
      obtain ⟨text', hload, htext'⟩ := hkept.new t ht
      obtain rfl := Option.some.inj (htext'.symm.trans hname)
      exact .inr ⟨t, ht, rfl, hload⟩
    · left
      rw [← hname, hkept.old name fun t ht heq => hmissing ⟨t, ht, heq⟩]
  · cases hold : c.files.get? t.file with
    | some text =>
      refine Option.isSome_iff_exists.2 ⟨text, ?_⟩
      rw [← hold]
      refine hkept.old _ fun t' ht' heq => ?_
      have hnone := (mem_missing ht').2
      rw [heq, hold] at hnone
      cases hnone
    | none =>
      obtain ⟨t', ht', heq⟩ := hcover t (List.mem_filter.2 ⟨ht, by simp [Table.contains, hold]⟩)
      obtain ⟨text, _, htext⟩ := hkept.new t' ht'
      exact Option.isSome_iff_exists.2 ⟨text, heq ▸ htext⟩

/-- The files that a text names are there once they are fetched. -/
theorem fetch_ok {u : Unit} (h : e.fetch file targets c = .ok u c') : e.Fetched targets c c' := by
  exact fetch_ends.of_ok h

end Flattener

end Stencil
