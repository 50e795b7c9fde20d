import Mathlib.Logic.Relation
import Stencil.Inclusion.Flatten
import Stencil.Proofs.Path

/-!
# Where paths lead

A path is resolved by its text alone: components `.` go, and every `..` goes with the nearest name
before it that is still there. What stays are names, and in front of them climbs, components `..`
that found no name. A relative path keeps its climbs; at the root there is nothing to climb.

`Path.normalize` lets climbs cancel each other in pairs, also at the root. So it resolves a path just
when no two climbs meet.

* `Resolves.unique`: a path has one resolution, in whatever order its components are cancelled.
* `parts_normalize`: what a normalized path keeps of it.
* `locate_normalize_iff`, `Passes.normalize`: which normalized paths lead to the place of the path.
* `normalize_resolves`: all of it, and what it means for the names of files.
-/

namespace Stencil

namespace PathPart

/-! ## Resolutions -/

/-- A component `.` goes, or a `..` goes with the name before it. -/
inductive Cancels : List PathPart → List PathPart → Prop where
  | current (before after : List PathPart) :
      Cancels (before ++ .current :: after) (before ++ after)
  | up (before : List PathPart) (text : List Char) (after : List PathPart) :
      Cancels (before ++ .name text :: .up :: after) (before ++ after)

/-- What is left of a path when nothing can be cancelled any more. -/
structure Resolution where
  /-- Whether the path starts at the root. -/
  absolute : Bool := false
  /-- How many components `..` found no name. -/
  climbs : Nat := 0
  /-- The names, latest first. -/
  names : List (List Char) := []
  deriving DecidableEq, Repr

namespace Resolution

/-- The slash in front, if there is one. -/
def front (r : Resolution) : List PathPart := if r.absolute then [.root] else []

/-- The components of the names. -/
def path (r : Resolution) : List PathPart := r.names.reverse.map .name

/-- All components that are left. -/
def left (r : Resolution) : List PathPart := r.front ++ List.replicate r.climbs .up ++ r.path

/-- The resolved components: the climbs of a relative path are kept, those at the root are not. -/
def parts (r : Resolution) : List PathPart :=
  r.front ++ (if r.absolute then [] else List.replicate r.climbs .up) ++ r.path

/-- The components with the climbs cancelled in pairs. -/
def kept (r : Resolution) : List PathPart :=
  r.front ++ List.replicate (r.climbs % 2) .up ++ r.path

/-- No climb is cancelled that counts, and none is kept that does not. -/
def Shallow (r : Resolution) : Prop := if r.absolute then r.climbs % 2 = 0 else r.climbs ≤ 1

/-- One more component. -/
def add (r : Resolution) : PathPart → Resolution
  | .root => { r with absolute := true }
  | .current => r
  | .up =>
    match r.names with
    | [] => { r with climbs := r.climbs + 1 }
    | _ :: names => { r with names }
  | .name text => { r with names := text :: r.names }

end Resolution

/-- The components come to the resolution by cancelling, and nothing of it can be cancelled. -/
def Resolves (parts : List PathPart) (r : Resolution) : Prop :=
  Relation.ReflTransGen Cancels parts r.left

section

variable {parts parts' : List PathPart} {r : Resolution}

theorem Cancels.append (h : Cancels parts parts') (after : List PathPart) :
    Cancels (parts ++ after) (parts' ++ after) := by
  cases h with
  | current before behind => simpa using Cancels.current before (behind ++ after)
  | up before text behind => simpa using Cancels.up before text (behind ++ after)

theorem Resolves.append (h : Resolves parts r) (after : List PathPart) :
    Relation.ReflTransGen Cancels (parts ++ after) (r.left ++ after) :=
  Relation.ReflTransGen.lift (· ++ after) (fun _ _ step => step.append after) _ _ h

namespace Resolution

theorem add_name_up (r : Resolution) (text : List Char) : (r.add (.name text)).add .up = r := rfl

/-- Cancelling does not change what the components add up to. -/
theorem foldl_add_cancels (h : Relation.ReflTransGen Cancels parts parts') (r : Resolution) :
    parts.foldl add r = parts'.foldl add r := by
  induction h with
  | refl => rfl
  | tail _ step ih =>
    rw [ih]
    cases step with
    | current before after =>
      rw [List.foldl_append, List.foldl_append, List.foldl_cons]
      rfl
    | up before text after =>
      rw [List.foldl_append, List.foldl_append, List.foldl_cons, List.foldl_cons, add_name_up]

theorem foldl_add_climbs (absolute : Bool) (before climbs : Nat) :
    (List.replicate climbs .up).foldl add ⟨absolute, before, []⟩ =
      ⟨absolute, before + climbs, []⟩ := by
  induction climbs generalizing before with
  | zero => rfl
  | succ climbs ih =>
    have hadd : add ⟨absolute, before, []⟩ .up = ⟨absolute, before + 1, []⟩ := rfl
    rw [List.replicate_succ, List.foldl_cons, hadd, ih, Nat.add_assoc, Nat.add_comm 1]

theorem foldl_add_names (r : Resolution) (names : List (List Char)) :
    (names.map .name).foldl add r = { r with names := names.reverse ++ r.names } := by
  induction names generalizing r with
  | nil => rfl
  | cons text names ih =>
    rw [List.map_cons, List.foldl_cons, ih]
    simp [add]

/-- What is left adds up to the resolution. -/
theorem foldl_add_left (r : Resolution) : r.left.foldl add {} = r := by
  have hfront : r.front.foldl add {} = ⟨r.absolute, 0, []⟩ := by
    unfold front
    split <;> simp_all [add]
  rw [left, path, List.foldl_append, List.foldl_append, hfront, foldl_add_climbs, foldl_add_names]
  simp

theorem left_add_name (r : Resolution) (text : List Char) :
    (r.add (.name text)).left = r.left ++ [.name text] := by
  simp [left, path, add]
  rfl

/-- With one more component behind it, what is left can be cancelled to what is left then. -/
theorem left_add (r : Resolution) {part : PathPart} (h : part ≠ .root) :
    Relation.ReflTransGen Cancels (r.left ++ [part]) (r.add part).left := by
  cases part with
  | root => exact absurd rfl h
  | current =>
    have hstep := Cancels.current r.left []
    rw [List.append_nil] at hstep
    exact .single hstep
  | name text =>
    rw [left_add_name]
  | up =>
    obtain ⟨absolute, climbs, names⟩ := r
    cases names with
    | nil =>
      have hclimbs : left ⟨absolute, climbs, []⟩ ++ [.up] = left ⟨absolute, climbs + 1, []⟩ := by
        simp [left, path, front, List.replicate_succ']
      rw [hclimbs]
      exact .refl
    | cons text names =>
      have hstep := Cancels.up (left ⟨absolute, climbs, names⟩) text []
      rw [List.append_nil, List.append_cons, ← left_add_name] at hstep
      exact .single hstep

end Resolution

theorem Resolves.foldl_add {after : List PathPart} (h : Resolves parts r)
    (hafter : PathPart.root ∉ after) : Resolves (parts ++ after) (after.foldl Resolution.add r) := by
  induction after generalizing parts r with
  | nil => simpa using h
  | cons part after ih =>
    rw [List.mem_cons, not_or] at hafter
    have hpart : Resolves (parts ++ [part]) (r.add part) :=
      (h.append [part]).trans (r.left_add (Ne.symm hafter.1))
    simpa using ih hpart hafter.2

/-- In whatever order components are cancelled, the same is left. -/
theorem Resolves.unique (h : Resolves parts r) : r = parts.foldl Resolution.add {} := by
  rw [Resolution.foldl_add_cancels h, Resolution.foldl_add_left]

end


/-! ## Places -/

/-- A place in a tree of directories: the names on the way up to the root. -/
abbrev Location := List (List Char)

/-- The place that a component leads to; what is above the root is the root. -/
def follow (here : Location) : PathPart → Location
  | .root => []
  | .current => here
  | .up => here.tail
  | .name text => text :: here

/-- The place that components lead to. -/
def locate (here : Location) (parts : List PathPart) : Location := parts.foldl follow here

/-- All places on the way are there. -/
def Passes (tree : Location → Prop) (here : Location) (parts : List PathPart) : Prop :=
  ∀ before, before <+: parts → tree (locate here before)

section

variable {tree : Location → Prop} {here : Location} {before after parts parts' : List PathPart}
  {r r' : Resolution}

theorem locate_append : locate here (before ++ after) = locate (locate here before) after :=
  List.foldl_append

theorem locate_climbs (here : Location) (climbs : Nat) :
    locate here (List.replicate climbs .up) = here.drop climbs := by
  induction climbs generalizing here with
  | zero => rfl
  | succ climbs ih =>
    rw [List.replicate_succ]
    show locate here.tail _ = _
    rw [ih, List.drop_tail]

theorem locate_names (here : Location) (names : List (List Char)) :
    locate here (names.map .name) = names.reverse ++ here := by
  induction names generalizing here with
  | nil => rfl
  | cons text names ih =>
    show locate (text :: here) _ = _
    rw [ih]
    simp

/-- What leads nowhere can be left out. -/
theorem Passes.drop (mid : List PathPart)
    (hmid : locate (locate here before) mid = locate here before)
    (h : Passes tree here (before ++ mid ++ after)) : Passes tree here (before ++ after) := by
  intro passed hpassed
  obtain ⟨rest, hrest⟩ := hpassed
  rcases List.append_eq_append_iff.1 hrest with ⟨more, hbefore, -⟩ | ⟨more, hpassed, hafter⟩
  · exact h passed ⟨more ++ mid ++ after, by simp [hbefore]⟩
  · have hway := h (before ++ mid ++ more) ⟨rest, by simp [hafter]⟩
    rwa [locate_append, locate_append, hmid, ← locate_append, ← hpassed] at hway

/-- Cancelling leads to the same place, on the same way or a shorter one. -/
theorem Cancels.passes (h : Relation.ReflTransGen Cancels parts parts') :
    locate here parts' = locate here parts ∧
      ∀ {tree}, Passes tree here parts → Passes tree here parts' := by
  induction h with
  | refl => exact ⟨rfl, id⟩
  | tail _ step ih =>
    rw [← ih.1]
    cases step with
    | current before after =>
      refine ⟨by simp [locate_append]; rfl, fun h => ?_⟩
      exact Passes.drop [.current] rfl (by simpa using ih.2 h)
    | up before text after =>
      refine ⟨by simp [locate_append]; rfl, fun h => ?_⟩
      exact Passes.drop [.name text, .up] rfl (by simpa using ih.2 h)

/-- Where components lead that are a slash, climbs and names. -/
theorem locate_front (r : Resolution) (climbs : Nat) :
    locate here (r.front ++ List.replicate climbs .up ++ r.path) =
      r.names ++ (if r.absolute then [] else here.drop climbs) := by
  rw [locate_append, locate_append, locate_climbs, Resolution.path, locate_names,
    List.reverse_reverse, Resolution.front]
  split
  · simp [locate, follow]
  · rfl

theorem locate_left (r : Resolution) :
    locate here r.left = r.names ++ (if r.absolute then [] else here.drop r.climbs) :=
  locate_front r r.climbs

theorem locate_kept (r : Resolution) :
    locate here r.kept = r.names ++ (if r.absolute then [] else here.drop (r.climbs % 2)) :=
  locate_front r (r.climbs % 2)

/-- The resolved components are known from the places that they lead to. -/
theorem Resolution.parts_eq_of_locate (h : ∀ here, locate here r.left = locate here r'.left) :
    r.parts = r'.parts := by
  simp only [locate_left] at h
  -- seen from the root only the names count, and from far below it the climbs as well
  have hnames : r.names = r'.names := by simpa using h []
  have hdrop (here : Location) : (if r.absolute then [] else here.drop r.climbs) =
      (if r'.absolute then [] else here.drop r'.climbs) :=
    List.append_cancel_left (hnames ▸ h here)
  have hlength := congrArg List.length (hdrop (List.replicate (r.climbs + r'.climbs + 1) []))
  obtain ⟨absolute, climbs, names⟩ := r
  obtain ⟨absolute', climbs', names'⟩ := r'
  obtain rfl : names = names' := hnames
  cases absolute <;> cases absolute' <;>
    simp only [Bool.false_eq_true, if_false, if_true, List.length_drop, List.length_replicate,
      List.length_nil] at hlength
  · obtain rfl : climbs = climbs' := by omega
    rfl
  · omega
  · omega
  · rfl

theorem Resolution.kept_eq_parts_iff (r : Resolution) : r.kept = r.parts ↔ r.Shallow := by
  rw [kept, parts, List.append_left_inj, List.append_right_inj, Shallow]
  split
  · simp
  · rw [List.replicate_inj, and_iff_left (.inr rfl)]
    omega

end

end PathPart

/-! ## Normalized paths -/

namespace Path

open PathPart

variable {p q : Path} {r r' : Resolution}

/-- What the components of a path add up to. -/
def resolution (p : Path) : Resolution := p.parts.foldl Resolution.add {}

theorem resolves_resolution (p : Path) : Resolves p.parts p.resolution := by
  obtain ⟨rest, hrest, hparts⟩ := parts_cases p
  have hroot : PathPart.root ∉ rest := fun hmem => hrest _ hmem
  rw [resolution]
  rcases hparts with ⟨_, hparts⟩ | ⟨_, hparts | hparts⟩
  · rw [hparts]
    have hslash : Resolves [.root] ⟨true, 0, []⟩ := .refl
    exact hslash.foldl_add hroot
  · rw [hparts]
    have hhere : Resolves [.current] {} := .single (.current [] [])
    exact hhere.foldl_add hroot
  · rw [hparts]
    have hnone : Resolves [] {} := .refl
    exact hnone.foldl_add hroot

/-- A path has one resolution. -/
theorem resolves_iff : Resolves p.parts r ↔ r = p.resolution :=
  ⟨Resolves.unique, fun h => h ▸ resolves_resolution p⟩

theorem reverse_kept (r : Resolution) : r.kept.reverse =
    r.names.map .name ++ (List.replicate (r.climbs % 2) .up ++ r.front) := by
  have hfront : r.front.reverse = r.front := by
    unfold Resolution.front
    split <;> rfl
  simp [Resolution.kept, Resolution.path, hfront]

/-- One more component is passed. -/
theorem resolve_kept (r : Resolution) {part : PathPart} (h : part.IsProper) :
    resolve r.kept.reverse part = (r.add part).kept.reverse := by
  rw [reverse_kept, reverse_kept]
  cases part with
  | root => exact h.elim
  | current => exact h.elim
  | name text => rw [resolve_name]; rfl
  | up =>
    obtain ⟨absolute, climbs, names⟩ := r
    cases names with
    | cons text names => rfl
    | nil =>
      -- a climb in front is taken back by the next one
      rcases Nat.mod_two_eq_zero_or_one climbs with heven | hodd
      · have hnext : (climbs + 1) % 2 = 1 := by omega
        cases absolute <;> simp [Resolution.add, Resolution.front, heven, hnext, resolve]
      · have hnext : (climbs + 1) % 2 = 0 := by omega
        cases absolute <;> simp [Resolution.add, Resolution.front, hodd, hnext, resolve]

theorem foldl_resolve_kept {rest : List PathPart} (h : ∀ part ∈ rest, part.IsProper)
    (r : Resolution) :
    rest.foldl resolve r.kept.reverse = (rest.foldl Resolution.add r).kept.reverse := by
  induction rest generalizing r with
  | nil => rfl
  | cons part rest ih =>
    rw [List.forall_mem_cons] at h
    rw [List.foldl_cons, resolve_kept r h.1, ih h.2, List.foldl_cons]

/-- A normalized path keeps the names, and one climb of an odd number of them. -/
theorem parts_normalize_eq (p : Path) : p.normalize.parts = p.resolution.kept := by
  obtain ⟨rest, hrest, hparts⟩ := parts_cases p
  rw [parts_normalize, resolution, List.reverse_eq_iff]
  rcases hparts with ⟨_, hparts⟩ | ⟨_, hparts | hparts⟩
  · rw [hparts]
    exact foldl_resolve_kept hrest ⟨true, 0, []⟩
  · rw [hparts, List.foldl_cons, resolve_current]
    exact foldl_resolve_kept hrest {}
  · rw [hparts]
    exact foldl_resolve_kept hrest {}

theorem resolution_normalize (p : Path) : p.normalize.resolution =
    { p.resolution with climbs := p.resolution.climbs % 2 } := by
  rw [resolution, parts_normalize_eq]
  exact Resolution.foldl_add_left { p.resolution with climbs := p.resolution.climbs % 2 }

/-- A path that is normalized already stays as it is. -/
theorem normalize_normalize (p : Path) : p.normalize.normalize = p.normalize := by
  refine (isNormal_normalize _).ext (isNormal_normalize p) ?_
  rw [parts_normalize_eq, resolution_normalize, parts_normalize_eq]
  simp [Resolution.kept, Resolution.front, Resolution.path]

/-- A normalized path leads to the place of the path from everywhere, unless climbs cancelled each
other. -/
theorem locate_normalize_iff (p : Path) :
    (∀ here, locate here p.normalize.parts = locate here p.parts) ↔
      p.resolution.absolute = true ∨ p.resolution.climbs ≤ 1 := by
  have hway (here : Location) : locate here p.resolution.left = locate here p.parts :=
    (Cancels.passes (resolves_resolution p)).1
  simp only [parts_normalize_eq, ← hway, locate_kept, locate_left, List.append_cancel_left_eq]
  constructor
  · intro h
    have hlength := congrArg List.length (h (List.replicate p.resolution.climbs []))
    rcases Bool.eq_false_or_eq_true p.resolution.absolute with habsolute | hrelative
    · exact .inl habsolute
    · simp only [hrelative, Bool.false_eq_true, if_false, List.length_drop,
        List.length_replicate] at hlength
      exact .inr (by omega)
  · rintro (habsolute | hclimbs) here
    · simp [habsolute]
    · rw [Nat.mod_eq_of_lt (by omega)]

/-- Then all places on its way are on that of the path. -/
theorem passes_normalize {tree : Location → Prop} {here : Location}
    (h : p.resolution.absolute = true ∨ p.resolution.climbs ≤ 1) (hp : Passes tree here p.parts) :
    Passes tree here p.normalize.parts := by
  have hleft := (Cancels.passes (resolves_resolution p)).2 hp
  rw [parts_normalize_eq]
  generalize p.resolution = r at h hleft
  rcases h with habsolute | hclimbs
  · -- at the root, climbs lead nowhere
    have hsplit : List.replicate r.climbs PathPart.up =
        List.replicate (r.climbs % 2) .up ++ List.replicate (r.climbs - r.climbs % 2) .up := by
      rw [List.replicate_append_replicate]
      congr 1
      omega
    rw [Resolution.left, hsplit, ← List.append_assoc] at hleft
    refine Passes.drop _ ?_ hleft
    rw [locate_climbs, Resolution.front, if_pos habsolute, locate_append, locate_climbs]
    simp [locate, follow]
  · rwa [Resolution.left, ← Nat.mod_eq_of_lt (show r.climbs < 2 by omega)] at hleft

theorem absolute_resolution (p : Path) : p.resolution.absolute = p.isAbsolute := by
  have hadd (rest : List PathPart) (h : ∀ part ∈ rest, part.IsProper) (r : Resolution) :
      (rest.foldl Resolution.add r).absolute = r.absolute := by
    induction rest generalizing r with
    | nil => rfl
    | cons part rest ih =>
      rw [List.forall_mem_cons] at h
      rw [List.foldl_cons, ih h.2]
      obtain ⟨absolute, climbs, names⟩ := r
      cases part with
      | root => exact h.1.elim
      | current => exact h.1.elim
      | name text => rfl
      | up => cases names <;> rfl
  obtain ⟨rest, hrest, hparts⟩ := parts_cases p
  rw [resolution]
  rcases hparts with ⟨habsolute, hparts⟩ | ⟨hrelative, hparts | hparts⟩
  · rw [hparts, habsolute]
    exact hadd rest hrest ⟨true, 0, []⟩
  · rw [hparts, hrelative]
    exact hadd rest hrest {}
  · rw [hparts, hrelative]
    exact hadd rest hrest {}

/-- Of two spellings of one place, the resolved components are the same. -/
theorem normalize_eq_of_locate (hp : p.resolution.Shallow) (hq : q.resolution.Shallow)
    (h : ∀ here, locate here p.parts = locate here q.parts) : p.normalize = q.normalize := by
  refine (isNormal_normalize p).ext (isNormal_normalize q) ?_
  rw [parts_normalize_eq, parts_normalize_eq, (Resolution.kept_eq_parts_iff _).2 hp,
    (Resolution.kept_eq_parts_iff _).2 hq]
  refine Resolution.parts_eq_of_locate fun here => ?_
  rw [(Cancels.passes (resolves_resolution p)).1, (Cancels.passes (resolves_resolution q)).1, h here]

/-- A path has one resolution, in whatever order its components are cancelled. The normalized path is
the resolved one exactly if no two climbs meet; its climbs are cancelled in pairs, and in any case it
is not changed by normalizing it again. It leads to the place of the path exactly if the path starts at
the root or has at most one climb, and then over places on the way of the path. Two spellings of one
place, in neither of which two climbs meet, are the same file. -/
theorem normalize_resolves (p : Path) :
    ∃ r, (∀ r', Resolves p.parts r' ↔ r' = r) ∧ r.absolute = p.isAbsolute ∧
      p.normalize.parts = r.kept ∧ (p.normalize.parts = r.parts ↔ r.Shallow) ∧
      p.normalize.normalize = p.normalize ∧
      ((∀ here, locate here p.normalize.parts = locate here p.parts) ↔
        r.absolute = true ∨ r.climbs ≤ 1) ∧
      (r.absolute = true ∨ r.climbs ≤ 1 →
        ∀ tree here, Passes tree here p.parts → Passes tree here p.normalize.parts) ∧
      ∀ (q : Path) (r' : Resolution), Resolves q.parts r' → r.Shallow → r'.Shallow →
        (∀ here, locate here p.parts = locate here q.parts) →
        p.normalize = q.normalize ∧
          ∀ folders : Folders, folders.fileName p.normalize = folders.fileName q.normalize := by
  refine ⟨p.resolution, fun r' => resolves_iff, absolute_resolution p, parts_normalize_eq p, ?_,
    normalize_normalize p, locate_normalize_iff p, fun h tree here => passes_normalize h, ?_⟩
  · rw [parts_normalize_eq]
    exact Resolution.kept_eq_parts_iff _
  · intro q r' hr' hp hq hplace
    obtain rfl := resolves_iff.1 hr'
    have hsame := normalize_eq_of_locate hp hq hplace
    exact ⟨hsame, fun folders => by rw [hsame]⟩

/-- Down, up three times, and down again; and the same place in fewer components. -/
theorem normalize_resolves_spellings :
    ∃ r, Resolves (Path.mk "site/./pages/../../../shared/layout").parts r ∧ r.Shallow ∧
      (Path.mk "site/./pages/../../../shared/layout").normalize.parts = r.parts ∧
      ∀ folders : Folders,
        folders.fileName (Path.mk "site/./pages/../../../shared/layout").normalize =
          folders.fileName (Path.mk "./../shared//old/../layout/").normalize := by
  obtain ⟨r, hunique, -, -, hiff, -, -, -, hsame⟩ :=
    normalize_resolves ⟨"site/./pages/../../../shared/layout"⟩
  have hparts : (Path.mk "./../shared//old/../layout/").parts =
      [.current, .up, .name "shared".toList, .name "old".toList, .up, .name "layout".toList] := by
    decide +kernel
  have hparts' : (Path.mk "site/./pages/../../../shared/layout").parts =
      [.name "site".toList, .name "pages".toList, .up, .up, .up, .name "shared".toList,
        .name "layout".toList] := by
    decide +kernel
  obtain rfl : (⟨false, 1, ["layout".toList, "shared".toList]⟩ : Resolution) = r :=
    (hunique _).1 (resolves_iff.2 (by decide +kernel))
  have hshallow : Resolution.Shallow ⟨false, 1, ["layout".toList, "shared".toList]⟩ :=
    Nat.le_refl 1
  refine ⟨_, (hunique _).2 rfl, hshallow, hiff.2 hshallow, ?_⟩
  refine (hsame ⟨"./../shared//old/../layout/"⟩ _ (resolves_iff.2 (by decide +kernel)) hshallow
    hshallow fun here => ?_).2
  rw [hparts, hparts']
  rfl

/-- Two climbs in front of a name are both dropped, so that the path leads elsewhere. -/
theorem climbs_dropped :
    Resolves (Path.mk "../../a").parts ⟨false, 2, [['a']]⟩ ∧
      (Path.mk "../../a").normalize = ⟨"a"⟩ ∧
      (Path.mk "../../a").normalize.parts ≠ Resolution.parts ⟨false, 2, [['a']]⟩ ∧
      locate [['x'], ['y']] (Path.mk "../../a").parts = [['a']] ∧
      locate [['x'], ['y']] (Path.mk "../../a").normalize.parts = [['a'], ['x'], ['y']] :=
  ⟨resolves_iff.2 (by decide +kernel), by decide +kernel, by decide +kernel, by decide +kernel,
    by decide +kernel⟩

end Path

end Stencil
