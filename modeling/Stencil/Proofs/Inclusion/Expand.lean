import Stencil.Proofs.Inclusion.Expansion
import Stencil.Proofs.Inclusion.Layout

/-!
# Flattening lays out the files

A text that is flattened is laid out as `Layout` tells, if no text of a file can be taken for a part
of a marker.

* `Expansion.fits`: what a file expands to is a layout of the file's text;
* `flatten_ok`: so is a whole flattened template.
-/

namespace Stencil

open Text

/-! ## Texts that cannot be taken for markers -/

/-- The text has no marker, and none comes about where a file takes the place of a directive. -/
structure Plain (text : List Char) : Prop where
  noMarker : ¬ ['{', '#'] <:+: text
  noBrace : ∀ before d after, segments text = before ++ .directive d :: after →
    (before.flatMap Segment.source).getLast? ≠ some '{'
  ending : lastInk text ≠ some '{'

/-- What stands before directives can be computed. -/
theorem noBrace_of_cuts {text : List Char}
    (hcuts : ∀ k < (segments text).length, (((segments text)[k]?).bind Segment.directive?).isSome →
      (((segments text).take k).flatMap Segment.source).getLast? ≠ some '{')
    (before : List Segment) (d : Directive) (after : List Segment)
    (hcut : segments text = before ++ .directive d :: after) :
    (before.flatMap Segment.source).getLast? ≠ some '{' := by
  have := hcuts before.length (by simp [hcut]) (by simp [hcut, Segment.directive?])
  simpa [hcut] using this

/-- Whether a text is plain can be computed. -/
theorem Plain.of_cuts {text : List Char} (hmarker : ¬ ['{', '#'] <:+: text)
    (hcuts : ∀ k < (segments text).length, (((segments text)[k]?).bind Segment.directive?).isSome →
      (((segments text).take k).flatMap Segment.source).getLast? ≠ some '{')
    (hending : lastInk text ≠ some '{') : Plain text where
  noMarker := hmarker
  noBrace := noBrace_of_cuts hcuts
  ending := hending

/-- No text of a file can be taken for a part of a marker. -/
def Files.Plain (files : Files) : Prop :=
  ∀ name text, files.get? name = some text → Stencil.Plain text.toList

/-- How the text of a file goes on from `pre` with `ahead` where the flattened text goes on with
`flat`. -/
structure Fits (folders : Folders) (files : Files) (path : Path) (text pre ahead flat : List Char) :
    Prop where
  layout : Layout folders files [] path ahead flat
  head : flat.head? = some '#' → ahead.head? = some '#'
  mark : ['{', '#'] <+: flat → ['{', '#'] <+: ahead ∨
    ∃ before d after, segments text = before ++ .directive d :: after ∧
      before.flatMap Segment.source = pre

namespace Fits

variable {folders : Folders} {files : Files} {path : Path} {whole pre ahead flat : List Char}

theorem nil : Fits folders files path whole pre [] [] :=
  ⟨.done, fun h => h, fun h => .inl h⟩

theorem char {c : Char} (hplain : Plain whole) (hwhole : whole = pre ++ c :: ahead)
    (h : Fits folders files path whole (pre ++ [c]) ahead flat) :
    Fits folders files path whole pre (c :: ahead) (c :: flat) where
  layout := by
    have hsafe : Safe c flat := by
      rintro rfl
      have hnext : ¬ ahead.head? = some '#' := by
        intro hahead
        obtain ⟨back, rfl⟩ := List.head?_eq_some_iff.1 hahead
        exact hplain.noMarker ⟨pre, back, by rw [hwhole]; simp⟩
      refine ⟨fun hflat => hnext (h.head hflat), fun hflat => ?_⟩
      rcases h.mark hflat with ⟨back, hback⟩ | ⟨before, d, after, hcut, hpre⟩
      · exact hplain.noMarker ⟨pre ++ ['{'], back, by rw [hwhole, ← hback]; simp⟩
      · exact hplain.noBrace before d after hcut (by rw [hpre]; simp)
    have : c :: flat = indentedBy [] [c] ++ flat := by simp
    rw [this]
    exact .char hsafe h.layout
  head hc := by simpa using hc
  mark hc := by
    obtain ⟨hbrace, hhash⟩ := List.cons_prefix_cons.1 hc
    rw [List.singleton_prefix_iff_head?_eq_some] at hhash
    refine .inl (List.cons_prefix_cons.2 ⟨hbrace, ?_⟩)
    rw [List.singleton_prefix_iff_head?_eq_some]
    exact h.head hhash

/-- Text between directives stays. -/
theorem text {cs : List Char} (hplain : Plain whole) (hwhole : whole = pre ++ cs ++ ahead)
    (h : Fits folders files path whole (pre ++ cs) ahead flat) :
    Fits folders files path whole pre (cs ++ ahead) (cs ++ flat) := by
  induction cs generalizing pre with
  | nil => simpa using h
  | cons c cs ih =>
    refine char hplain (by simpa using hwhole) (ih ?_ ?_)
    · simpa using hwhole
    · simpa using h

/-- A directive gives way to a file between markers. -/
theorem inclusion {name target : String} {d : Directive} {before after : List Segment}
    {body : List Char} (here : files.get? (folders.fileName path) = some name)
    (hcut : segments name.toList = before ++ .directive d :: after)
    (there : files.get? (folders.target path d).file = some target)
    (inner : Layout folders files d.indent (folders.target path d).path target.toList body)
    (closed : body.getLast? ≠ some '{')
    (h : Fits folders files path name.toList (before.flatMap Segment.source ++ d.source) ahead
      flat) :
    Fits folders files path name.toList (before.flatMap Segment.source) (d.source ++ ahead)
      (beginMarker (byteLength d.source) (byteLength d.indent) (folders.target path d).file ++
        body ++ endMarker (folders.fileName path) ++ flat) where
  layout := .inclusion here (by simp [hcut]) there inner closed h.layout
  head hc := by simp [beginMarker_eq] at hc
  mark _ := .inr ⟨before, d, after, hcut, rfl⟩

end Fits

/-! ## Expansions are layouts -/

theorem Flattener.wrap_eq (body : List Char) (target : Target) (parent : String) :
    wrap body target parent =
      beginMarker (byteLength target.directive.source) (byteLength target.directive.indent)
        target.file ++ indentedBy target.directive.indent (trimRight body) ++ endMarker parent := by
  simp only [wrap, joinWith_lines]

/-- A flattened text ends like the text, or in a marker. -/
theorem Expansion.lastInk_eq {folders : Folders} {textOf : Path → Option String} {path : Path}
    {rest : List Segment} {flat : List Char} (h : Expansion folders textOf path rest flat) :
    lastInk flat = lastInk (rest.flatMap Segment.source) ∨
      lastInk flat = some '}' := by
  induction h with
  | nil => exact .inl rfl
  | text _ ih =>
    rw [List.flatMap_cons, lastInk_append, lastInk_append]
    rcases ih with h | h <;> simp [h, Segment.source]
  | @directive path d target rest body flat _ _ _ _ ih =>
    have hmarker : lastInk (endMarker (folders.fileName path)) = some '}' := by
      rw [lastInk, trimRight_endMarker, endMarker_eq, List.getLast?_append]
      rfl
    rw [Flattener.wrap_eq, List.flatMap_cons, lastInk_append, lastInk_append _ (endMarker _),
      lastInk_append (Segment.source _), hmarker]
    rcases ih with h | h
    · rw [h]
      cases lastInk (rest.flatMap Segment.source) <;> simp
    · simp [h]

/-- A file that does not end in a brace is not flattened to a text that ends in one. -/
theorem Expansion.closed {folders : Folders} {textOf : Path → Option String} {path : Path}
    {text flat : List Char} (h : Expansion folders textOf path (segments text) flat)
    (hending : lastInk text ≠ some '{') : (trimRight flat).getLast? ≠ some '{' := by
  show lastInk flat ≠ some '{'
  rcases h.lastInk_eq with hlast | hlast
  · rw [hlast, source_segments]
    exact hending
  · simp [hlast]

/-- What the segments of a file from some segment on are flattened to fits the text from there on. -/
theorem Expansion.fits {folders : Folders} {files : Files} {path : Path} {rest : List Segment}
    {flat : List Char} (hnamed : files.WellNamed) (hplain : files.Plain)
    (h : Expansion folders (fun p => files.get? (folders.fileName p)) path rest flat) :
    ∀ {name : String} (before : List Segment), files.get? (folders.fileName path) = some name →
      segments name.toList = before ++ rest →
      Fits folders files path name.toList (before.flatMap Segment.source)
        (rest.flatMap Segment.source) flat := by
  induction h with
  | nil =>
    intro name before _ _
    exact .nil
  | @text path cs rest flat behind ih =>
    intro name before hname hcut
    have hwhole : name.toList = before.flatMap Segment.source ++ cs ++
        rest.flatMap Segment.source := by
      rw [← source_segments name.toList, hcut]
      simp [Segment.source]
    have hfits := ih (before ++ [.text cs]) hname (by simpa using hcut)
    rw [List.flatMap_append, List.flatMap_singleton] at hfits
    exact .text (hplain _ _ hname) hwhole hfits
  | @directive path d target rest body flat there inner behind ihinner ih =>
    intro name before hname hcut
    have hfits := ih (before ++ [.directive d]) hname (by simpa using hcut)
    have hbody := ihinner [] there rfl
    rw [List.flatMap_nil, source_segments] at hbody
    have hmargin : IsMargin d.indent := by
      refine isMargin_indent (?_ : .directive d ∈ segments name.toList)
      simp [hcut]
    have hlayout := hbody.layout.trim.indent hnamed (fun _ hc => absurd hc List.not_mem_nil) hmargin
    rw [List.append_nil] at hlayout
    have hclosed := inner.closed (hplain _ _ there).ending
    rw [Flattener.wrap_eq, List.flatMap_cons]
    rw [List.flatMap_append, List.flatMap_singleton] at hfits
    exact .inclusion hname hcut there hlayout (getLast?_indentedBy hmargin hclosed) hfits

/-- A flattened template is laid out as its file tells. -/
theorem flatten_ok {store : FileStore} {place : Place} {text : String} {c c' : Closure}
    {f : Flattened} (h : flatten store place text c = .ok f c') (hnamed : f.files.WellNamed)
    (hplain : f.files.Plain) :
    f.root = place.folders.fileName place.source.normalize ∧
      f.files.get? f.root = some text ∧
      Layout place.folders f.files [] place.source.normalize text.toList f.text.toList := by
  obtain ⟨hroot, _, _, htext, hexpansion⟩ := flatten_expansion h
  have hfits := (hexpansion _ fun _ _ _ htext => htext).fits hnamed hplain [] (hroot ▸ htext) rfl
  rw [source_segments] at hfits
  exact ⟨hroot, htext, hfits.layout⟩

end Stencil
