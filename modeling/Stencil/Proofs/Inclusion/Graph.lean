import Mathlib.Data.List.Chain
import Mathlib.Data.List.Dedup
import Mathlib.Data.List.Perm.Subperm
import Mathlib.Logic.Relation
import Stencil.Proofs.Inclusion.Expansion
import Stencil.Proofs.Path

/-!
# Which files include which

A template and the files that it may include make up a graph: a file includes another one that it
names in a directive. Here files are told apart by their paths; while a template is flattened they go
by their names.

* `Sources.Reaches`: the template includes a file, directly or through others.
* `Sources.Distinct`: the files that the template reaches have different names.
* `Sources.IsTrail`: files include each other in order, from the template on.
* `Sources.cyclic_of_isTrail`: a trail that comes back to one of its files shows a circle.
* `Sources.length_le_of_isTrail`: a trail without repetition is no longer than there are files.
-/

namespace Stencil

/-- A template at its place and the files around it. -/
structure Sources where
  store : FileStore
  place : Place
  text : String

namespace Sources

variable (src : Sources)

/-- The path of the template. -/
def root : Path := src.place.source.normalize

/-- The name by which a file goes. -/
def name (p : Path) : String := src.place.folders.fileName p

/-- The text of a file: that of the template at its own path, elsewhere what the store holds. -/
def text? (p : Path) : Option String :=
  if p = src.root then some src.text else (src.store.load p).toOption

def flattener : Flattener := ⟨src.store, src.place.folders⟩

/-- The files that a file names, in the order of its directives. -/
def targets (p : Path) : List Target :=
  match src.text? p with
  | some text => src.flattener.targets p text
  | none => []

/-- The first file names the second one in a directive. -/
def Includes (p q : Path) : Prop := ∃ t ∈ src.targets p, t.path = q

instance (p q : Path) : Decidable (src.Includes p q) :=
  inferInstanceAs (Decidable (∃ t ∈ src.targets p, t.path = q))

/-- The file is the template, or the template includes it, directly or through others. -/
def Reaches (p : Path) : Prop := Relation.ReflTransGen src.Includes src.root p

/-- The template includes the file, directly or through others. -/
def DependsOn (p : Path) : Prop := Relation.TransGen src.Includes src.root p

/-- Different files that the template reaches have different names. -/
def Distinct : Prop := ∀ p q, src.Reaches p → src.Reaches q → src.name p = src.name q → p = q

/-- Every file that the template reaches can be read. -/
def Complete : Prop := ∀ p, src.Reaches p → (src.text? p).isSome = true

/-- The template reaches a file that includes itself, directly or through others. -/
def Cyclic : Prop := ∃ p, src.Reaches p ∧ Relation.TransGen src.Includes p p

/-- The first file is the template, and each file includes the next one. -/
def IsTrail (ps : List Path) : Prop := ps.head? = some src.root ∧ ps.IsChain src.Includes

/-- What comes of flattening the template. -/
def flattened : EStateM.Result Error Closure Flattened :=
  flatten src.store src.place src.text {}

/-! ## Files -/

variable {src : Sources} {p q : Path} {ps : List Path}

@[simp]
theorem text?_root : src.text? src.root = some src.text := if_pos rfl

theorem text?_of_load {text : String} (hp : p ≠ src.root) (h : src.store.load p = .ok text) :
    src.text? p = some text := by
  rw [text?, if_neg hp, h]
  rfl

theorem targets_eq {text : String} (h : src.text? p = some text) :
    src.targets p = src.flattener.targets p text := by
  rw [targets, h]

theorem file_of_mem_targets {t : Target} (h : t ∈ src.targets p) : t.file = src.name t.path := by
  unfold targets at h
  split at h
  · obtain ⟨d, _, rfl⟩ := List.mem_map.1 h
    rfl
  · cases h

theorem includes_of_mem {t : Target} (h : t ∈ src.targets p) : src.Includes p t.path := ⟨t, h, rfl⟩

theorem Reaches.next (hp : src.Reaches p) (h : src.Includes p q) : src.Reaches q := hp.tail h

theorem DependsOn.reaches (h : src.DependsOn p) : src.Reaches p := h.to_reflTransGen

theorem Reaches.dependsOn (hp : src.Reaches p) (h : src.Includes p q) : src.DependsOn q :=
  Relation.TransGen.tail' hp h

/-- Whatever files include each other from the template on are among some files that contain the
template and all that they include. -/
theorem Reaches.mem {files : List Path} (h : src.Reaches p) (hroot : src.root ∈ files)
    (hclosed : ∀ p ∈ files, ∀ t ∈ src.targets p, t.path ∈ files) : p ∈ files := by
  induction h with
  | refl => exact hroot
  | tail _ hincludes ih =>
    obtain ⟨t, ht, rfl⟩ := hincludes
    exact hclosed _ ih t ht

/-- Names tell apart the files of a list, so they tell apart the files that the template reaches. -/
theorem distinct_of_files (files : List Path) (hroot : src.root ∈ files)
    (hclosed : ∀ p ∈ files, ∀ t ∈ src.targets p, t.path ∈ files)
    (hnames : ∀ p ∈ files, ∀ q ∈ files, src.name p = src.name q → p = q) : src.Distinct :=
  fun p q hp hq => hnames p (hp.mem hroot hclosed) q (hq.mem hroot hclosed)

theorem Reaches.isNormal (h : src.Reaches p) : p.IsNormal := by
  induction h with
  | refl => exact Path.isNormal_normalize _
  | tail _ hincludes _ =>
    obtain ⟨t, ht, rfl⟩ := hincludes
    unfold targets at ht
    split at ht
    · obtain ⟨d, _, rfl⟩ := List.mem_map.1 ht
      exact Path.isNormal_normalize _
    · cases ht

/-! ## Trails -/

theorem isTrail_root : src.IsTrail [src.root] := ⟨rfl, List.isChain_singleton _⟩

theorem IsTrail.next (h : src.IsTrail (ps ++ [p])) (hincludes : src.Includes p q) :
    src.IsTrail (ps ++ [p] ++ [q]) := by
  refine ⟨?_, ?_⟩
  · have hhead := h.1
    cases ps <;> simpa using hhead
  · rw [List.append_assoc, List.singleton_append, List.isChain_split]
    exact ⟨h.2, by simpa using hincludes⟩

theorem IsTrail.reaches (h : src.IsTrail ps) : ∀ p ∈ ps, src.Reaches p := by
  obtain ⟨rest, rfl⟩ := List.head?_eq_some_iff.1 h.1
  have hchain : (src.root :: rest).IsChain (Relation.TransGen src.Includes) :=
    h.2.imp fun _ _ => Relation.TransGen.single
  intro p hp
  rcases List.mem_cons.1 hp with rfl | hp
  · exact Relation.ReflTransGen.refl
  · exact (hchain.rel_cons hp).to_reflTransGen

/-- A trail that comes back to one of its files shows a circle. -/
theorem cyclic_of_isTrail (h : src.IsTrail (ps ++ [p])) (hp : p ∈ ps) : src.Cyclic := by
  refine ⟨p, h.reaches p (by simp), ?_⟩
  obtain ⟨before, after, rfl⟩ := List.append_of_mem hp
  have hchain : (p :: (after ++ [p])).IsChain src.Includes := by
    have := h.2
    rw [List.append_assoc] at this
    exact this.right_of_append
  have hchain := hchain.imp fun _ _ => Relation.TransGen.single
  exact hchain.rel_cons (by simp)

/-- A trail without repetition is no longer than there are files that can be read. -/
theorem length_le_of_isTrail (h : src.IsTrail ps) (hnodup : ps.Nodup)
    (htexts : ∀ p ∈ ps, (src.text? p).isSome = true) :
    ps.length ≤ src.store.files.length + 1 := by
  have hreaches := h.reaches
  obtain ⟨rest, rfl⟩ := List.head?_eq_some_iff.1 h.1
  obtain ⟨hroot, hnodup⟩ := List.nodup_cons.1 hnodup
  have hparts : (rest.map Path.parts).Nodup := by
    refine hnodup.map_on fun p hp q hq heq => ?_
    exact (hreaches p (List.mem_cons_of_mem _ hp)).isNormal.ext
      (hreaches q (List.mem_cons_of_mem _ hq)).isNormal heq
  have hsub : rest.map Path.parts ⊆ src.store.files.map fun file => file.1.parts := by
    intro parts hparts
    obtain ⟨p, hp, rfl⟩ := List.mem_map.1 hparts
    have hne : p ≠ src.root := fun heq => hroot (heq ▸ hp)
    have htext := htexts p (List.mem_cons_of_mem _ hp)
    rw [text?, if_neg hne] at htext
    cases hload : src.store.load p with
    | error reason =>
      rw [hload] at htext
      cases htext
    | ok text =>
      obtain ⟨file, hmem, hsame⟩ := FileStore.exists_file_of_load hload
      exact List.mem_map.2 ⟨file, hmem, by simpa [Path.same] using hsame⟩
  have := (hparts.subperm hsub).length_le
  simp only [List.length_map] at this
  simpa using this

/-! ## Circles -/

/-- Going from file to included file comes to an end. -/
def Grounded (src : Sources) (p : Path) : Prop := Acc (fun q p => src.Includes p q) p

theorem grounded_of_targets {text : String} (htext : src.text? p = some text)
    (h : ∀ d, .directive d ∈ segments text.toList →
      src.Grounded (src.place.folders.target p d).path) : src.Grounded p := by
  refine Acc.intro p fun q hq => ?_
  obtain ⟨t, ht, rfl⟩ := hq
  rw [targets_eq htext] at ht
  obtain ⟨d, hd, rfl⟩ := List.mem_map.1 ht
  obtain ⟨segment, hsegment, hd⟩ := List.mem_filterMap.1 hd
  cases segment with
  | text cs => cases hd
  | directive d' =>
    obtain rfl := Option.some.inj hd
    exact h d' hsegment

/-- The files that are put in when a text is flattened are grounded. -/
theorem grounded_of_expansion {rest : List Segment} {flat : List Char}
    (h : Expansion src.place.folders src.text? p rest flat) :
    ∀ d, .directive d ∈ rest → src.Grounded (src.place.folders.target p d).path := by
  induction h with
  | nil => exact fun d hd => absurd hd List.not_mem_nil
  | text _ ih =>
    intro d hd
    rcases List.mem_cons.1 hd with hd | hd
    · cases hd
    · exact ih d hd
  | directive there _ _ ihinner ih =>
    intro d hd
    rcases List.mem_cons.1 hd with hd | hd
    · cases hd
      exact grounded_of_targets there ihinner
    · exact ih d hd

theorem Grounded.reaches (h : src.Grounded src.root) (hp : src.Reaches p) : src.Grounded p := by
  induction hp with
  | refl => exact h
  | tail _ hincludes ih => exact ih.inv hincludes

theorem Grounded.not_circle (h : src.Grounded p) : ¬ Relation.TransGen src.Includes p p := by
  intro hcircle
  rw [← Relation.transGen_swap] at hcircle
  have hacc := Acc.transGen h
  clear h
  induction hacc with
  | intro p _ ih => exact ih p hcircle hcircle

/-- A template that is flattened reaches no file that includes itself. -/
theorem not_cyclic_of_expansion {flat : List Char}
    (h : Expansion src.place.folders src.text? src.root (segments src.text.toList) flat) :
    ¬ src.Cyclic := by
  rintro ⟨p, hp, hcircle⟩
  have hroot : src.Grounded src.root := grounded_of_targets text?_root (grounded_of_expansion h)
  exact (hroot.reaches hp).not_circle hcircle

end Sources

end Stencil
