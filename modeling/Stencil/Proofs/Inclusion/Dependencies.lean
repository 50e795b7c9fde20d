import Stencil.Proofs.Inclusion.Own

/-!
# What is known of the files of a template

While a template is flattened, the texts of the files are kept, what every file includes, and what
was read. When names tell the files apart, all of this is about the same files:

* `Sources.readOnce`: whether flattening fails or not, no file was read twice, and the template never.
* `Sources.flattened_closure`: when it succeeds, the files that are kept are the template and the files
  that it depends on, and these are the files that were read.
-/

namespace Stencil

/-! ## First references -/

/-- The names that a list refers to, each of them once, in the order of the first references. -/
structure FirstReferences (names refs : List String) : Prop where
  nodup : names.Nodup
  mem : ∀ name, name ∈ names ↔ name ∈ refs
  ordered : names.Pairwise fun a b => refs.idxOf a < refs.idxOf b

/-- Leaving out elements does not change which of two others comes first. -/
theorem idxOf_lt_of_filter {p : String → Bool} {a b : String} {as : List String} (ha : p a = true)
    (hb : p b = true) (h : (as.filter p).idxOf a < (as.filter p).idxOf b) :
    as.idxOf a < as.idxOf b := by
  induction as with
  | nil => exact h
  | cons x as ih =>
    by_cases hx : p x = true
    · rw [List.filter_cons_of_pos hx] at h
      have hxb : x ≠ b := by
        rintro rfl
        rw [List.idxOf_cons_self] at h
        exact absurd h (Nat.not_lt_zero _)
      rw [List.idxOf_cons_ne _ hxb] at h ⊢
      by_cases hxa : x = a
      · rw [List.idxOf_cons_eq _ hxa]
        exact Nat.succ_pos _
      · rw [List.idxOf_cons_ne _ hxa] at h ⊢
        exact Nat.succ_lt_succ (ih (Nat.lt_of_succ_lt_succ h))
    · rw [List.filter_cons_of_neg hx] at h
      have hxa : x ≠ a := fun heq => hx (heq ▸ ha)
      have hxb : x ≠ b := fun heq => hx (heq ▸ hb)
      rw [List.idxOf_cons_ne _ hxa, List.idxOf_cons_ne _ hxb]
      exact Nat.succ_lt_succ (ih h)

theorem pairwise_eraseDups (refs : List String) :
    refs.eraseDups.Pairwise fun a b => refs.idxOf a < refs.idxOf b := by
  induction h : refs.length using Nat.strongRecOn generalizing refs with
  | ind n ih =>
  cases refs with
  | nil => exact .nil
  | cons a refs =>
    rw [List.eraseDups_cons]
    have hlen : (refs.filter fun b => !b == a).length < n := by
      have := List.length_filter_le (fun b => !b == a) refs
      simp only [List.length_cons] at h
      omega
    have hne : ∀ b ∈ (refs.filter fun b => !b == a).eraseDups, b ≠ a := by
      intro b hb
      simpa using (List.mem_filter.1 (List.mem_eraseDups.1 hb)).2
    refine List.pairwise_cons.2 ⟨fun b hb => ?_, ?_⟩
    · rw [List.idxOf_cons_self, List.idxOf_cons_ne _ (hne b hb).symm]
      exact Nat.succ_pos _
    · refine (ih _ hlen _ rfl).imp_of_mem fun {b c} hb hc hlt => ?_
      rw [List.idxOf_cons_ne _ (hne b hb).symm, List.idxOf_cons_ne _ (hne c hc).symm]
      exact Nat.succ_lt_succ
        (idxOf_lt_of_filter (by simpa using hne b hb) (by simpa using hne c hc) hlt)

theorem firstReferences_eraseDups (refs : List String) : FirstReferences refs.eraseDups refs where
  nodup := (pairwise_eraseDups refs).imp fun hlt => by
    rintro rfl
    exact absurd hlt (Nat.lt_irrefl _)
  mem name := List.mem_eraseDups
  ordered := pairwise_eraseDups refs

/-! ## Reading -/

/-- The files that are met until resolving ends. -/
def Resolving.closure {α : Type} : EStateM.Result Error Closure α → Closure
  | .ok _ c => c
  | .error _ c => c

namespace Sources

variable {src : Sources} {p : Path} {f : Flattened} {c : Closure}

/-- Whether flattening fails or not, no file was read twice, and the template never. -/
theorem readOnce (hdistinct : src.Distinct) :
    src.ReadOnce (Resolving.closure src.flattened).reads := by
  have hends := flattened_ends hdistinct
  cases h : src.flattened with
  | ok f c => exact (hends.of_ok h).done.met.reads
  | error err c => exact (hends.of_error h).reads

/-! ## Dependencies -/

theorem Closed.mem_dependencies (h : src.Closed f c) (hdistinct : src.Distinct) {name : String} :
    name ∈ f.dependencies ↔ ∃ p, src.DependsOn p ∧ src.name p = name := by
  rw [Flattened.dependencies, NameSet.ofList, NameSet.mem_insertAll, h.includes]
  simp only [NameSet.not_mem_empty, or_false, List.mem_flatten, Table.values, List.mem_map]
  constructor
  · rintro ⟨_, ⟨e, he, rfl⟩, hname⟩
    obtain ⟨-, p, hp, -, hnames⟩ := h.done.met.includes e he
    rw [hnames, List.mem_eraseDups] at hname
    obtain ⟨t, ht, rfl⟩ := List.mem_map.1 hname
    exact ⟨t.path, hp.dependsOn (includes_of_mem ht), (file_of_mem_targets ht).symm⟩
  · rintro ⟨p, hp, rfl⟩
    obtain ⟨q, hq, t, ht, rfl⟩ := Relation.TransGen.tail'_iff.1 hp
    obtain ⟨names, hnames⟩ := Option.isSome_iff_exists.1 (h.done.includes q hq)
    have hentry := Table.mem_of_get? hnames
    obtain ⟨-, q', hq', hname, heq⟩ := h.done.met.includes _ hentry
    obtain rfl := hdistinct q' q hq' hq hname
    refine ⟨_, ⟨_, hentry, rfl⟩, ?_⟩
    rw [heq, List.mem_eraseDups, ← file_of_mem_targets ht]
    exact List.mem_map_of_mem ht

/-- The files that are kept are those of which it is known what they include. -/
theorem Closed.contains_files (h : src.Closed f c) {name : String} :
    f.files.contains name = true ↔ f.includes.contains name = true := by
  rw [h.files, h.includes]
  constructor
  · intro hname
    rcases (h.done.met.known name).1 hname with rfl | hread
    · exact h.done.includes _ .refl
    · obtain ⟨p, hp, rfl⟩ := List.mem_map.1 hread
      exact h.done.includes p (h.done.met.reads.dependsOn p hp).reaches
  · intro hname
    obtain ⟨names, hnames⟩ := Option.isSome_iff_exists.1 hname
    exact (h.done.met.includes _ (Table.mem_of_get? hnames)).1

/-- What a file includes is listed in the order in which it names it first. -/
theorem Closed.firstReferences (h : src.Closed f c) (hdistinct : src.Distinct)
    (hp : src.Reaches p) : ∃ names, f.includes.get? (src.name p) = some names ∧
      FirstReferences names ((src.targets p).map Target.file) := by
  obtain ⟨names, hnames⟩ := Option.isSome_iff_exists.1 (h.done.includes p hp)
  obtain ⟨-, q, hq, hname, heq⟩ := h.done.met.includes _ (Table.mem_of_get? hnames)
  obtain rfl := hdistinct q p hq hp hname
  refine ⟨names, h.includes ▸ hnames, ?_⟩
  rw [show names = _ from heq]
  exact firstReferences_eraseDups _

/-- The files that are kept are the template and those that it depends on. -/
theorem Closed.contains_iff (h : src.Closed f c) (hdistinct : src.Distinct) {name : String} :
    f.files.contains name = true ↔ name = f.root ∨ name ∈ f.dependencies := by
  rw [h.mem_dependencies hdistinct, h.root]
  constructor
  · rw [h.files, h.done.met.known]
    refine Or.imp_right fun hread => ?_
    obtain ⟨p, hp, rfl⟩ := List.mem_map.1 hread
    exact ⟨p, h.done.met.reads.dependsOn p hp, rfl⟩
  · rw [h.contains_files, h.includes]
    rintro (rfl | ⟨p, hp, rfl⟩)
    · exact h.done.includes _ .refl
    · exact h.done.includes p hp.reaches

/-- A template that is flattened does not depend on itself, or there would be a circle. -/
theorem not_dependsOn_root (hdistinct : src.Distinct) (h : src.flattened = .ok f c) :
    ¬ src.DependsOn src.root := fun hroot =>
  not_cyclic_of_expansion (expansion_of_flattened hdistinct h) ⟨_, .refl, hroot⟩

/-- The files that are read are those that the template depends on. -/
theorem Closed.mem_reads (h : src.Closed f c) (hdistinct : src.Distinct)
    (hroot : ¬ src.DependsOn src.root) : p ∈ c.reads ↔ src.DependsOn p := by
  refine ⟨h.done.met.reads.dependsOn p, fun hp => ?_⟩
  have hthere : c.files.contains (src.name p) = true := by
    rw [← h.files, h.contains_files, h.includes]
    exact h.done.includes p hp.reaches
  rcases (h.done.met.known _).1 hthere with hname | hread
  · exact absurd (hdistinct p src.root hp.reaches .refl hname ▸ hp) hroot
  · obtain ⟨q, hq, hname⟩ := List.mem_map.1 hread
    obtain rfl := hdistinct q p (h.done.met.reads.dependsOn q hq).reaches hp.reaches hname
    exact hq

/-- When names tell the files apart, no file is read twice, and the template never. If flattening
succeeds, the template and the files that it depends on are those that are kept, those of which it is
known what they include, and, but for the template, those that are read. -/
theorem flattened_closure (hdistinct : src.Distinct) :
    ((Resolving.closure src.flattened).reads.Nodup ∧
      src.root ∉ (Resolving.closure src.flattened).reads) ∧
    ∀ f c, src.flattened = .ok f c →
      (∀ name, name ∈ f.files.keys ↔ name ∈ f.includes.keys) ∧
      (∀ name, name ∈ f.files.keys ↔ name = f.root ∨ name ∈ f.dependencies) ∧
      f.root ∉ f.dependencies ∧
      (∀ name, name ∈ f.dependencies ↔ ∃ p, src.DependsOn p ∧ src.name p = name) ∧
      (∀ p, p ∈ c.reads ↔ src.DependsOn p) ∧
      ∀ p, src.Reaches p → ∃ names, f.includes.get? (src.name p) = some names ∧
        FirstReferences names ((src.targets p).map Target.file) := by
  have hreads := readOnce hdistinct
  refine ⟨⟨hreads.nodup.of_map, fun hroot => hreads.not_root (List.mem_map_of_mem hroot)⟩, ?_⟩
  intro f c h
  have hclosed := (flattened_ends hdistinct).of_ok h
  have hroot := not_dependsOn_root hdistinct h
  refine ⟨fun name => ?_, fun name => ?_, ?_, fun name => hclosed.mem_dependencies hdistinct,
    fun p => hclosed.mem_reads hdistinct hroot, fun p hp => hclosed.firstReferences hdistinct hp⟩
  · rw [← Table.contains_iff, ← Table.contains_iff]
    exact hclosed.contains_files
  · rw [← Table.contains_iff]
    exact hclosed.contains_iff hdistinct
  · rw [hclosed.mem_dependencies hdistinct, hclosed.root]
    rintro ⟨p, hp, hname⟩
    exact hroot (hdistinct p src.root hp.reaches .refl hname ▸ hp)

/-- A page that includes two parts, which both include a third one. -/
def shared : Sources where
  store := ⟨[(⟨"p/a"⟩, .ok "\x7b% include c %\x7d"), (⟨"p/b"⟩, .ok "\x7b% include c %\x7d"),
    (⟨"p/c"⟩, .ok "c")]⟩
  place := ⟨⟨"p/page"⟩, ⟨"p"⟩, ⟨"p"⟩⟩
  text := "\x7b% include b %\x7d\x7b% include a %\x7d\x7b% include b %\x7d"

theorem flattened_closure_shared : shared.Distinct ∧ ∃ f c, shared.flattened = .ok f c ∧
    (∀ name, name ∈ f.dependencies ↔ ∃ p, shared.DependsOn p ∧ shared.name p = name) ∧
    FirstReferences ["b", "a"] ((shared.targets shared.root).map Target.file) := by
  have hdistinct : shared.Distinct := distinct_of_files
    [⟨"p/page"⟩, ⟨"p/a"⟩, ⟨"p/b"⟩, ⟨"p/c"⟩]
    (by decide +kernel) (by decide +kernel) (by decide +kernel)
  obtain ⟨f, c, hflat, hincludes⟩ : ∃ f c, shared.flattened = .ok f c ∧
      f.includes.get? (shared.name shared.root) = some ["b", "a"] :=
    Resolving.ok_of_map_value? (by decide +kernel)
  obtain ⟨-, -, -, hdependencies, -, hreferences⟩ := (flattened_closure hdistinct).2 f c hflat
  obtain ⟨names, hnames, hfirst⟩ := hreferences shared.root .refl
  obtain rfl := Option.some.inj (hincludes.symm.trans hnames)
  exact ⟨hdistinct, f, c, hflat, hdependencies, hfirst⟩

end Sources

end Stencil
