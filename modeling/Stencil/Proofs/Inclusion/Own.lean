import Stencil.Proofs.Inclusion.Outcome

/-!
# Every directive gets its own file

Files are kept under their names. A name is the path as seen from the base, or the whole path of a
file that does not lie there; so a file in the base and one elsewhere may have the same name.

* `Sources.name_eq_cases`: of two files with one name, one lies in the base and one does not.
* `Sources.distinct_of_sides`: if all files lie in the base, or none does, names tell them apart.
* `Sources.Closed.expansion`: when names tell the files apart, every directive gives way to what its
  own file is flattened to.
-/

namespace Stencil

open Text

/-! ## Texts without backslashes -/

theorem joinWith_piecesBy_of_notMem {c : Char} {cs : List Char} (h : c ∉ cs) (new : List Char) :
    joinWith new (piecesBy [c] cs) = cs := by
  suffices hfrom : piecesFrom [c] 0 cs = (cs, []) by
    simp [piecesBy, hfrom, joinWith]
  induction cs with
  | nil => rfl
  | cons d cs ih =>
    rw [List.mem_cons, not_or] at h
    have hne : (c == d) = false := by simpa using h.1
    simp [piecesFrom, List.isPrefixOf, hne, ih h.2]

theorem replace_of_notMem {s : String} (h : '\\' ∉ s.toList) : replace s "\\" "/" = s := by
  have hpieces := joinWith_piecesBy_of_notMem h "/".toList
  unfold replace
  rw [show "\\".toList = ['\\'] from rfl, hpieces, String.ofList_toList]

theorem notMem_joinWith {c : Char} {sep : List Char} {pieces : List (List Char)} (hsep : c ∉ sep)
    (h : ∀ piece ∈ pieces, c ∉ piece) : c ∉ joinWith sep pieces := by
  cases pieces with
  | nil => simp [joinWith]
  | cons piece pieces =>
    rw [List.forall_mem_cons] at h
    rw [joinWith_cons, List.mem_append, List.mem_flatMap]
    rintro (hc | ⟨other, hother, hc⟩)
    · exact h.1 hc
    · exact (List.mem_append.1 hc).elim hsep (h.2 other hother)

namespace Path

/-- No component has a backslash. -/
def Forward (p : Path) : Prop := ∀ part ∈ p.parts, '\\' ∉ part.text

theorem notMem_ofParts {parts : List PathPart} (h : ∀ part ∈ parts, '\\' ∉ part.text) :
    '\\' ∉ (ofParts parts).text.toList := by
  have hjoin : ∀ parts' : List PathPart, (∀ part ∈ parts', part ∈ parts) →
      '\\' ∉ joinWith ['/'] (parts'.map PathPart.text) := by
    intro parts' hsub
    refine notMem_joinWith (by decide) fun piece hpiece => ?_
    obtain ⟨part, hpart, rfl⟩ := List.mem_map.1 hpiece
    exact h part (hsub part hpart)
  rw [ofParts, String.toList_ofList]
  unfold writeParts
  split
  · rw [List.mem_cons, not_or]
    exact ⟨by decide, hjoin _ fun part hpart => List.mem_cons_of_mem _ hpart⟩
  · exact hjoin _ fun part hpart => hpart

end Path

/-! ## Names -/

namespace Sources

variable {src : Sources} {p q : Path}

/-- The file lies in the base. -/
def Inside (src : Sources) (p : Path) : Prop := src.place.base.normalize.leadsTo p = true

instance (src : Sources) (p : Path) : Decidable (src.Inside p) :=
  inferInstanceAs (Decidable (_ = true))

/-- The components of a path that its name shows. -/
def shown (src : Sources) (p : Path) : List PathPart :=
  if src.Inside p then p.parts.drop src.place.base.normalize.parts.length else p.parts

theorem shown_suffix : src.shown p <:+ p.parts := by
  unfold shown
  split
  · exact List.drop_suffix _ _
  · exact List.suffix_rfl

theorem relativeTo_base (hp : p.IsNormal) :
    p.relativeTo src.place.base.normalize = Path.ofParts (src.shown p) := by
  rw [shown, Path.relativeTo]
  by_cases h : src.Inside p
  · rw [if_pos h, if_pos (show _ = true from h)]
  · rw [if_neg h, if_neg (show ¬ _ = true from h), hp.written]

/-- A name is written from the components that it shows. -/
theorem name_eq (hp : p.IsNormal) (h : p.Forward) :
    src.name p = (Path.ofParts (src.shown p)).text := by
  unfold name Place.folders Folders.fileName
  rw [relativeTo_base hp, replace_of_notMem]
  exact Path.notMem_ofParts fun part hpart => h part (shown_suffix.subset hpart)

theorem parts_shown (hp : p.IsNormal) : (Path.ofParts (src.shown p)).parts = src.shown p :=
  hp.parts_ofParts_suffix shown_suffix

/-- Of two different files with one name, one lies in the base and one does not. -/
theorem name_eq_cases (hp : p.IsNormal) (hq : q.IsNormal) (hp' : p.Forward) (hq' : q.Forward)
    (h : src.name p = src.name q) : p = q ∨ ¬ (src.Inside p ↔ src.Inside q) := by
  have hshown : src.shown p = src.shown q := by
    rw [name_eq hp hp', name_eq hq hq'] at h
    rw [← parts_shown hp, ← parts_shown hq]
    exact congrArg (fun text => Path.parts ⟨text⟩) h
  by_cases hin : src.Inside p ↔ src.Inside q
  · refine .inl (hp.ext hq ?_)
    unfold shown at hshown
    by_cases hinside : src.Inside p
    · rw [if_pos hinside, if_pos (hin.1 hinside)] at hshown
      obtain ⟨rest, hrest⟩ := List.isPrefixOf_iff_prefix.1 hinside
      obtain ⟨rest', hrest'⟩ := List.isPrefixOf_iff_prefix.1 (hin.1 hinside)
      rw [← hrest, ← hrest', List.drop_left, List.drop_left] at hshown
      rw [← hrest, ← hrest', hshown]
    · rwa [if_neg hinside, if_neg fun hinside' => hinside (hin.2 hinside')] at hshown
  · exact .inr hin

/-- If all files that the template reaches lie in the base, or none does, names tell them apart. -/
theorem distinct_of_sides (hforward : ∀ p, src.Reaches p → p.Forward)
    (hsides : (∀ p, src.Reaches p → src.Inside p) ∨ ∀ p, src.Reaches p → ¬ src.Inside p) :
    src.Distinct := by
  intro p q hp hq hname
  refine (name_eq_cases hp.isNormal hq.isNormal (hforward _ hp) (hforward _ hq)
    hname).resolve_right fun hin => hin ?_
  rcases hsides with hinside | houtside
  · exact iff_of_true (hinside _ hp) (hinside _ hq)
  · exact iff_of_false (houtside _ hp) (houtside _ hq)

/-! ## Texts -/

/-- What is kept under the name of a file is its own text. -/
theorem Closed.get?_name {f : Flattened} {c : Closure} (h : src.Closed f c)
    (hdistinct : src.Distinct) (hp : src.Reaches p) : f.files.get? (src.name p) = src.text? p := by
  have hthere : c.files.contains (src.name p) = true := by
    obtain ⟨names, hnames⟩ := Option.isSome_iff_exists.1 (h.done.includes p hp)
    exact (h.done.met.includes _ (Table.mem_of_get? hnames)).1
  obtain ⟨text, hkept, htext⟩ := h.done.met.own hdistinct hp hthere
  rw [h.files, hkept, htext]

/-- The texts of the files that the template reaches are all that counts when it is expanded. -/
theorem expansion_congr {textOf textOf' : Path → Option String} {rest : List Segment}
    {flat : List Char} (h : Expansion src.place.folders textOf p rest flat) (hp : src.Reaches p)
    (hrest : ∀ d, .directive d ∈ rest → src.place.folders.target p d ∈ src.targets p)
    (htexts : ∀ q, src.Reaches q → textOf q = src.text? q)
    (htexts' : ∀ q, src.Reaches q → textOf' q = src.text? q) :
    Expansion src.place.folders textOf' p rest flat := by
  induction h with
  | nil => exact .nil
  | text behind ih => exact .text (ih hp fun d hd => hrest d (List.mem_cons_of_mem _ hd))
  | directive there inner behind ihinner ih =>
    have hnext := hp.next (includes_of_mem (hrest _ List.mem_cons_self))
    have htext := (htexts _ hnext).symm.trans there
    refine .directive ((htexts' _ hnext).trans htext) (ihinner hnext fun d hd => ?_)
      (ih hp fun d hd => hrest d (List.mem_cons_of_mem _ hd))
    rw [targets_eq htext]
    exact Flattener.mem_targets (e := src.flattener) hd

/-- When names tell the files apart, every directive gives way to what its own file is flattened
to. -/
theorem expansion_of_flattened {f : Flattened} {c : Closure} (hdistinct : src.Distinct)
    (h : src.flattened = .ok f c) :
    Expansion src.place.folders src.text? src.root (segments src.text.toList) f.text.toList := by
  have hclosed := (flattened_ends hdistinct).of_ok h
  obtain ⟨-, -, -, -, hexpansion⟩ := flatten_expansion h
  have hnames := hexpansion (fun p => f.files.get? (src.name p)) fun _ _ _ htext => htext
  refine expansion_congr hnames .refl (fun d hd => ?_)
    (fun q hq => hclosed.get?_name hdistinct hq) fun q hq => rfl
  rw [targets_eq text?_root]
  exact Flattener.mem_targets (e := src.flattener) hd

/-- When names tell the files apart, every directive gives way to what its own file is flattened to,
what is kept under a name is the text of the file, and no two files are taken for a circle. -/
theorem flattened_own (hdistinct : src.Distinct) :
    (∀ f c, src.flattened = .ok f c →
      Expansion src.place.folders src.text? src.root (segments src.text.toList) f.text.toList ∧
      ∀ p, src.Reaches p → f.files.get? (src.name p) = src.text? p) ∧
    ∀ chain context c, src.flattened = .error ⟨.cyclicInclusion chain, context⟩ c →
      src.Cyclic := by
  have hends := flattened_ends hdistinct
  refine ⟨fun f c h => ⟨expansion_of_flattened hdistinct h, fun p hp => ?_⟩,
    fun chain context c h => ?_⟩
  · exact (hends.of_ok h).get?_name hdistinct hp
  · rcases (hends.of_error h).cause with ⟨active, last, _, _, htrail, hlast, _⟩ | hunreadable
    · exact cyclic_of_isTrail htrail hlast
    · obtain ⟨_, _, _, _, _, _, _, hcause⟩ := hunreadable
      cases hcause

/-- A page fills in a layout that lies in the base, and includes a part that lies elsewhere. -/
def scattered : Sources where
  store := ⟨[(⟨"site/shared/layout"⟩, .ok "own"), (⟨"shared/part"⟩, .ok "common")]⟩
  place := ⟨⟨"site/page"⟩, ⟨"site"⟩, ⟨"shared"⟩⟩
  text := "\x7b% extends \"shared/layout\" %\x7d\x7b% include \"part\" %\x7d"

/-- The layout and the part are kept under different names, each with its own text. -/
theorem flattened_own_scattered : scattered.Distinct ∧ ∃ f c, scattered.flattened = .ok f c ∧
    Expansion scattered.place.folders scattered.text? scattered.root
      (segments scattered.text.toList) f.text.toList ∧
    f.files.get? "shared/layout" = some "own" ∧ f.files.get? "shared/part" = some "common" := by
  have hdistinct : scattered.Distinct := distinct_of_files
    [⟨"site/page"⟩, ⟨"site/shared/layout"⟩, ⟨"shared/part"⟩]
    (by decide +kernel) (by decide +kernel) (by decide +kernel)
  obtain ⟨f, c, hflat, hkept⟩ : ∃ f c, scattered.flattened = .ok f c ∧
      [f.files.get? "shared/layout", f.files.get? "shared/part"] = [some "own", some "common"] :=
    Resolving.ok_of_map_value? (by decide +kernel)
  obtain ⟨hexpansion, -⟩ := (flattened_own hdistinct).1 f c hflat
  refine ⟨hdistinct, f, c, hflat, hexpansion, ?_⟩
  simpa using hkept

/-- A page fills in a layout that lies in the base, and includes one that lies elsewhere. -/
def sharing : Sources where
  store := ⟨[(⟨"site/shared/layout"⟩, .ok "own"), (⟨"shared/layout"⟩, .ok "common")]⟩
  place := ⟨⟨"site/page"⟩, ⟨"site"⟩, ⟨"shared"⟩⟩
  text := "\x7b% extends \"shared/layout\" %\x7d\x7b% include \"layout\" %\x7d"

/-- The included layout is never read: the other one has its name. -/
theorem flattened_sharing : ∃ f c, sharing.flattened = .ok f c ∧
    ¬ Expansion sharing.place.folders sharing.text? sharing.root (segments sharing.text.toList)
      f.text.toList := by
  obtain ⟨f, c, hflat, htext⟩ : ∃ f c, sharing.flattened = .ok f c ∧ f.text =
      "\x7b# beg 29 0 shared/layout #\x7down\x7b# end 0 page #\x7d" ++
        "\x7b# beg 22 0 shared/layout #\x7down\x7b# end 0 page #\x7d" :=
    Resolving.ok_of_map_value? (by decide +kernel)
  refine ⟨f, c, hflat, fun hexpansion => ?_⟩
  -- the two directives, and the texts of the two files
  have hpage : segments sharing.text.toList =
      [.directive ⟨⟨.parent, "shared/layout".toList⟩,
        "\x7b% extends \"shared/layout\" %\x7d".toList, 0, []⟩,
      .directive ⟨⟨.part, "layout".toList⟩, "\x7b% include \"layout\" %\x7d".toList, 29, []⟩] := by
    decide +kernel
  have hown : segments "own".toList = [.text "own".toList] := by decide +kernel
  have hcommon : segments "common".toList = [.text "common".toList] := by decide +kernel
  obtain ⟨flat, htrue, hne⟩ : ∃ flat, Expansion sharing.place.folders sharing.text? sharing.root
      (segments sharing.text.toList) flat ∧ String.ofList flat ≠ f.text := by
    rw [hpage, htext]
    exact ⟨_, .directive (show _ = some "own" by decide +kernel) (.of_text hown)
      (.directive (show _ = some "common" by decide +kernel) (.of_text hcommon) .nil),
      by decide +kernel⟩
  rw [← htrue.unique hexpansion, String.ofList_toList] at hne
  exact hne rfl

end Sources

end Stencil
