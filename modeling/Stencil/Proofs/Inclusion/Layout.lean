import Stencil.Inclusion.Flatten
import Stencil.Proofs.Text.Indent

/-!
# The layout of a flattened text

`Layout` tells how a flattened text is made up: of the characters of a file, with the indentation of
the directives around it behind each line feed, and of the files that its directives name, between
markers.

* `Layout.indent`: indenting a flattened text adds to the indentation of everything in it;
* `Layout.trim`: the text of a file may be trimmed behind.
-/

namespace Stencil

open Text

/-! ## Files and their names -/

/-- A name that a marker can hold. -/
def IsFileName (name : String) : Prop :=
  name ≠ "" ∧ ∀ c ∈ name.toList, Inclusion.isBare c = true

instance : DecidablePred IsFileName := fun name =>
  decidable_of_iff (name ≠ "" ∧ name.toList.all Inclusion.isBare = true)
    (and_congr_right fun _ => List.all_eq_true)

/-- Every file goes by a name that a marker can hold. -/
def Files.WellNamed (files : Files) : Prop :=
  ∀ name text, files.get? name = some text → IsFileName name

theorem Files.mem_entries {files : Files} {name text : String}
    (h : files.get? name = some text) : (name, text) ∈ files.entries := by
  obtain ⟨front, back, hentries, _⟩ := List.lookup_eq_some_iff.1 h
  simp [hentries]

theorem Files.wellNamed_of_entries {files : Files} (h : ∀ e ∈ files.entries, IsFileName e.1) :
    files.WellNamed :=
  fun _ _ hfile => h _ (mem_entries hfile)

/-- A character that takes no part in a delimiter and ends no line. -/
def isInert (c : Char) : Bool := c != '{' && c != '}' && c != '%' && c != '#' && c != '\n'

theorem isInert_of_isBare {c : Char} (h : Inclusion.isBare c = true) : isInert c = true := by
  have hne : ∀ d, Inclusion.isBare d = false → c ≠ d := by
    intro d hd hcd
    rw [hcd, hd] at h
    cases h
  simp [isInert, hne '{' (by decide), hne '}' (by decide), hne '%' (by decide),
    hne '#' (by decide), hne '\n' (by decide)]

/-- A text without delimiters and line feeds. -/
def Inert (cs : List Char) : Prop := ∀ c ∈ cs, isInert c = true

theorem Inert.append {a b : List Char} (ha : Inert a) (hb : Inert b) : Inert (a ++ b) := by
  intro c hc
  rcases List.mem_append.1 hc with h | h
  · exact ha c h
  · exact hb c h

theorem inert_of_all {cs : List Char} (h : cs.all isInert = true) : Inert cs :=
  List.all_eq_true.1 h

theorem Inert.notMem {cs : List Char} (h : Inert cs) : '\n' ∉ cs :=
  fun hc => absurd (h _ hc) (by decide)

theorem inert_fileName {name : String} (h : IsFileName name) : Inert name.toList :=
  fun c hc => isInert_of_isBare (h.2 c hc)

theorem isDigit_digits (n : Nat) : ∀ c ∈ digits n, Char.isDigit c = true := by
  intro c hc
  rw [digits, Nat.toString_eq_ofList_toDigits, String.toList_ofList] at hc
  exact Nat.isDigit_of_mem_toDigits (by decide) (by decide) hc

theorem inert_digits (n : Nat) : Inert (digits n) := by
  intro c hc
  exact isInert_of_isBare (by simp [Inclusion.isBare, Char.isAlphanum, isDigit_digits n c hc])

/-! ## Markers -/

/-- What stands between the delimiters of a begin marker. -/
def beginContent (resume indent : Nat) (file : String) : List Char :=
  [' ', 'b', 'e', 'g', ' '] ++ digits resume ++ [' '] ++ digits indent ++ [' '] ++ file.toList ++
    [' ']

/-- What stands between the delimiters of an end marker. -/
def endContent (parent : String) : List Char :=
  [' ', 'e', 'n', 'd', ' ', '0', ' '] ++ parent.toList ++ [' ']

theorem beginMarker_eq (resume indent : Nat) (file : String) :
    beginMarker resume indent file =
      ['{', '#'] ++ beginContent resume indent file ++ ['#', '}'] := by
  have hopen : "\x7b# beg ".toList = ['{', '#', ' ', 'b', 'e', 'g', ' '] := by rfl
  have hclose : " #\x7d".toList = [' ', '#', '}'] := by rfl
  unfold beginMarker beginContent
  rw [hopen, hclose]
  simp

theorem endMarker_eq (parent : String) :
    endMarker parent = ['{', '#'] ++ endContent parent ++ ['#', '}'] := by
  have hopen : "\x7b# end 0 ".toList = ['{', '#', ' ', 'e', 'n', 'd', ' ', '0', ' '] := by rfl
  have hclose : " #\x7d".toList = [' ', '#', '}'] := by rfl
  unfold endMarker endContent
  rw [hopen, hclose]
  simp

theorem inert_beginContent {file : String} (h : IsFileName file) (resume indent : Nat) :
    Inert (beginContent resume indent file) := by
  have hword : Inert [' ', 'b', 'e', 'g', ' '] := inert_of_all rfl
  have hspace : Inert [' '] := inert_of_all rfl
  exact (((((hword.append (inert_digits _)).append hspace).append (inert_digits _)).append
    hspace).append (inert_fileName h)).append hspace

theorem inert_endContent {parent : String} (h : IsFileName parent) :
    Inert (endContent parent) := by
  have hword : Inert [' ', 'e', 'n', 'd', ' ', '0', ' '] := inert_of_all rfl
  have hspace : Inert [' '] := inert_of_all rfl
  exact (hword.append (inert_fileName h)).append hspace

/-- A marker is not indentedBy. -/
theorem indentedBy_beginMarker {file : String} (h : IsFileName file) (margin : List Char)
    (resume indent : Nat) :
    indentedBy margin (beginMarker resume indent file) = beginMarker resume indent file := by
  have hc := (inert_beginContent h resume indent).notMem
  rw [beginMarker_eq]
  exact indentedBy_of_notMem (by simp [hc])

@[inherit_doc indentedBy_beginMarker]
theorem indentedBy_endMarker {parent : String} (h : IsFileName parent) (margin : List Char) :
    indentedBy margin (endMarker parent) = endMarker parent := by
  have hc := (inert_endContent h).notMem
  rw [endMarker_eq]
  exact indentedBy_of_notMem (by simp [hc])

/-- Nothing is trimmed off a marker. -/
theorem trimRight_endMarker (parent : String) :
    trimRight (endMarker parent) = endMarker parent := by
  rw [endMarker_eq, trimRight_append]
  rfl

theorem endMarker_ne_nil (parent : String) : endMarker parent ≠ [] := by simp [endMarker_eq]

/-! ## Directives are on lines that start with a margin -/

theorem Spot.isMargin_past {spot : Spot} (h : IsMargin spot.indent) (opens : Bool) (c : Char) :
    IsMargin (spot.past opens c).indent := by
  unfold Spot.past
  dsimp only
  split
  · exact fun _ hc => absurd hc List.not_mem_nil
  · split
    · next hc =>
      refine h.append fun d hd => ?_
      simp only [List.mem_singleton] at hd
      subst hd
      simpa using (Bool.and_eq_true_iff.1 hc).2
    · exact h

theorem mem_consText {c : Char} {d : Directive} {segments : List Segment}
    (h : .directive d ∈ consText c segments) : .directive d ∈ segments := by
  cases segments with
  | nil => simp [consText] at h
  | cons s rest => cases s <;> simpa [consText] using h

theorem isMargin_segmentsFrom {scan : SegmentScan} {spot : Spot} {cs : List Char} {d : Directive}
    (hs : IsMargin spot.indent) (h : .directive d ∈ segmentsFrom scan spot cs) :
    IsMargin d.indent := by
  fun_induction segmentsFrom scan spot cs with
  | case1 => simp at h
  | case2 count spot c cs ih => exact ih (Spot.isMargin_past hs _ _) h
  | case3 count spot c cs ih => exact ih (Spot.isMargin_past hs _ _) (mem_consText h)
  | case4 scan spot c cs _ _ next _ ih => exact ih (Spot.isMargin_past hs _ _) (mem_consText h)
  | case5 scan spot c cs _ _ next inclusion rest _ count _ ih =>
    exact ih (Spot.isMargin_past hs _ _) (mem_consText h)
  | case6 scan spot c cs _ _ next inclusion rest _ count _ source ih =>
    rcases List.mem_cons.1 h with h | h
    · cases h
      exact hs
    · exact ih (Spot.isMargin_past hs _ _) h

theorem isMargin_indent {text : List Char} {d : Directive} (h : .directive d ∈ segments text) :
    IsMargin d.indent :=
  isMargin_segmentsFrom (by intro c hc; cases hc) h

/-! ## Layouts -/

/-- No marker is opened by a character together with what follows, nor is one hidden by it. -/
def Safe (c : Char) (flat : List Char) : Prop :=
  c = '{' → flat.head? ≠ some '#' ∧ ¬ ['{', '#'] <+: flat

theorem prefix_indentedBy {indent flat : List Char} :
    ['{', '#'] <+: indentedBy indent flat ↔ ['{', '#'] <+: flat := by
  cases flat with
  | nil => rfl
  | cons c cs =>
    rw [indentedBy_cons]
    by_cases hc : c = '\n'
    · subst hc
      simp [indentedBy_lineFeed]
    · rw [indentedBy_singleton hc, List.singleton_append, List.cons_prefix_cons,
        List.cons_prefix_cons, List.singleton_prefix_iff_head?_eq_some,
        List.singleton_prefix_iff_head?_eq_some, head?_indentedBy]

theorem Safe.indent {c : Char} {flat : List Char} (h : Safe c flat) (margin : List Char) :
    Safe c (indentedBy margin flat) := by
  intro hc
  rw [head?_indentedBy, prefix_indentedBy]
  exact h hc

theorem Safe.mono {c : Char} {flat front : List Char} (h : Safe c flat) (hp : front <+: flat) :
    Safe c front := by
  intro hc
  obtain ⟨hhead, hmark⟩ := h hc
  refine ⟨fun hf => hhead ?_, fun hf => hmark (hf.trans hp)⟩
  obtain ⟨back, rfl⟩ := hp
  simp [hf]

variable {folders : Folders} {files : Files}

/-- How the flattened text of a file is made up from some place in the file on: the path of the
file, the indentation that is put behind each of its line feeds, its text from there on and the
flattened text. -/
inductive Layout (folders : Folders) (files : Files) :
    List Char → Path → List Char → List Char → Prop where
  /-- The flattened text is over; blanks of the file may be left out. -/
  | done {indent : List Char} {path : Path} {ahead : List Char} :
      Layout folders files indent path ahead []
  /-- A character of the file. -/
  | char {indent : List Char} {path : Path} {c : Char} {ahead flat : List Char}
      (safe : Safe c flat) (rest : Layout folders files indent path ahead flat) :
      Layout folders files indent path (c :: ahead) (indentedBy indent [c] ++ flat)
  /-- A file in the place of a directive. -/
  | inclusion {indent : List Char} {path : Path} {d : Directive} {text target : String}
      {ahead body flat : List Char}
      (here : files.get? (folders.fileName path) = some text)
      (cut : .directive d ∈ segments text.toList)
      (there : files.get? (folders.target path d).file = some target)
      (inner : Layout folders files (indent ++ d.indent) (folders.target path d).path target.toList
        body)
      (closed : body.getLast? ≠ some '{')
      (rest : Layout folders files indent path ahead flat) :
      Layout folders files indent path (d.source ++ ahead)
        (beginMarker (byteLength d.source) (byteLength d.indent) (folders.target path d).file ++
          body ++ endMarker (folders.fileName path) ++ flat)

namespace Layout

/-- Indenting a flattened text adds to the indentation of everything in it. -/
theorem indent {indent extra ahead flat : List Char} {path : Path}
    (h : Layout folders files indent path ahead flat) (hfiles : files.WellNamed)
    (hindent : IsMargin indent) (hextra : IsMargin extra) :
    Layout folders files (extra ++ indent) path ahead (indentedBy extra flat) := by
  induction h with
  | done => exact done
  | char safe rest ih =>
    rw [indentedBy_append, indentedBy_indentedBy hindent.notMem]
    exact char (safe.indent extra) (ih hindent)
  | inclusion here cut there inner closed rest ihinner ihrest =>
    have hmargin := isMargin_indent cut
    simp only [indentedBy_append, indentedBy_beginMarker (hfiles _ _ there),
      indentedBy_endMarker (hfiles _ _ here)]
    refine inclusion here cut there ?_ (getLast?_indentedBy hextra closed) (ihrest hindent)
    rw [List.append_assoc]
    exact ihinner (hindent.append hmargin)

/-- The text of a file may be trimmed behind. -/
theorem trim {ahead flat : List Char} {path : Path}
    (h : Layout folders files [] path ahead flat) :
    Layout folders files [] path ahead (trimRight flat) := by
  generalize hempty : ([] : List Char) = indent at h
  induction h with
  | done => exact done
  | @char indent path c ahead flat safe rest ih =>
    subst hempty
    rw [indentedBy_empty, List.singleton_append, trimRight_cons]
    split
    · split
      · exact done
      · have : [c] = indentedBy [] [c] ++ [] := by simp
        rw [this]
        exact char (safe.mono List.nil_prefix) done
    · have : c :: trimRight flat = indentedBy [] [c] ++ trimRight flat := by simp
      rw [this]
      exact char (safe.mono (trimRight_front flat)) (ih rfl)
  | inclusion here cut there inner closed rest _ ih =>
    subst hempty
    rw [trimRight_append_ink (trimRight_endMarker _) (endMarker_ne_nil _)]
    exact inclusion here cut there inner closed (ih rfl)

end Layout

end Stencil
