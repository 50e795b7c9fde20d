import Stencil.Text.Blank
import Stencil.Text.Bytes
import Stencil.Text.Search

/-!
# Directives that include files

`{% include "file" %}` and `{% extends "file" %}` name a file whose text takes their place. The name
stands between double quotes, between single quotes, or bare, and either brace may have a dash.

`segments` cuts a text into directives and the texts between them. An `extends` counts only when no
other tag stands before it; elsewhere it is text.

* `source_segments`: the segments make up the text.
-/

namespace Stencil

open Text

/-- How a file takes the place of a directive. -/
inductive DirectiveKind where
  /-- A part, looked up where parts are kept. -/
  | part
  /-- The template that the file fills in, looked up beside the file. -/
  | parent
  deriving DecidableEq, Repr

namespace DirectiveKind

/-- The name of the directive. -/
def keyword : DirectiveKind → List Char
  | part => "include".toList
  | parent => "extends".toList

/-- What the named file is called in messages. -/
def describe : DirectiveKind → String
  | part => "include"
  | parent => "parent template"

end DirectiveKind

/-! ## Reading one directive -/

/-- The content of a directive. -/
structure Inclusion where
  kind : DirectiveKind
  name : List Char
  deriving DecidableEq, Repr

namespace Inclusion

/-- A character of a bare name. -/
def isBare (c : Char) : Bool :=
  c.isAlphanum || c == '_' || c == '-' || c == '.' || c == '/'

/-- Drop a dash in front. -/
def dropDash : List Char → List Char
  | '-' :: cs => cs
  | cs => cs

/-- The kind that a text starts with, and the rest. -/
def kind? (cs : List Char) : Option (DirectiveKind × List Char) :=
  match after? DirectiveKind.part.keyword cs with
  | some rest => some (.part, rest)
  | none => (after? DirectiveKind.parent.keyword cs).map (.parent, ·)

/-- The text up to the next `quote`, and the rest behind it; it must not be empty. -/
def quoted? (quote : Char) (cs : List Char) : Option (List Char × List Char) :=
  match cutAt (· == quote) cs with
  | ([], _) => none
  | (_, []) => none
  | (name, _ :: rest) => some (name, rest)

/-- The name that a text starts with, and the rest. -/
def name? : List Char → Option (List Char × List Char)
  | '"' :: cs => quoted? '"' cs
  | '\'' :: cs => quoted? '\'' cs
  | cs =>
    match cs.span isBare with
    | ([], _) => none
    | found => some found

/-- The directive that a text starts with, and the rest. -/
def read? (cs : List Char) : Option (Inclusion × List Char) := do
  let cs ← after? ['{', '%'] cs
  let (kind, cs) ← kind? (trimLeft (dropDash cs))
  guard (cs.head?.any isBlank)
  let (name, cs) ← name? (trimLeft cs)
  let rest ← after? ['%', '}'] (dropDash (trimLeft cs))
  return (⟨kind, trim name⟩, rest)

end Inclusion

/-! ## Segments -/

/-- A directive in a text. -/
structure Directive extends Inclusion where
  /-- The directive as it is written. -/
  source : List Char
  /-- Where it starts, in bytes. -/
  offset : Nat
  /-- The spaces and tabs that its line starts with. -/
  indent : List Char
  deriving DecidableEq, Repr

/-- A directive, or the text between two. -/
inductive Segment where
  | text (cs : List Char)
  | directive (d : Directive)
  deriving DecidableEq, Repr

namespace Segment

/-- The segment as it is written. -/
def source : Segment → List Char
  | text cs => cs
  | directive d => d.source

/-- The directive, if the segment is one. -/
def directive? : Segment → Option Directive
  | text _ => none
  | directive d => some d

end Segment

/-- What is known about a place in a text from what stands before it. -/
structure Spot where
  offset : Nat := 0
  /-- The spaces and tabs that the line starts with. -/
  indent : List Char := []
  /-- Whether the line has nothing but them so far. -/
  blank : Bool := true
  /-- Whether no tag and no object stands before. -/
  leading : Bool := true
  deriving Repr

namespace Spot

/-- The place behind a character; `opens` tells whether a tag or an object starts there. -/
def past (spot : Spot) (opens : Bool) (c : Char) : Spot :=
  let offset := spot.offset + c.utf8Size
  let leading := spot.leading && !opens
  if c == '\n' then { offset, leading }
  else if spot.blank && (c == ' ' || c == '\t') then
    { spot with offset, leading, indent := spot.indent ++ [c] }
  else { spot with offset, leading, blank := false }

end Spot

/-- Whether a tag or an object starts here. -/
def opensTag (cs : List Char) : Bool :=
  ['{', '%'].isPrefixOf cs || ['{', '{'].isPrefixOf cs

/-- One more character of text in front. -/
def consText (c : Char) : List Segment → List Segment
  | .text cs :: segments => .text (c :: cs) :: segments
  | segments => .text [c] :: segments

/-- What the scan for directives is inside of. -/
inductive SegmentScan where
  /-- Text in which a directive may start. -/
  | text
  /-- An `extends` that does not count; so many characters are left of it. -/
  | ignored (count : Nat)
  /-- A directive; so many characters are left of it. -/
  | directive (count : Nat)
  deriving DecidableEq, Repr

/-- The segments of a text that continues at `spot`. -/
def segmentsFrom : SegmentScan → Spot → List Char → List Segment
  | _, _, [] => []
  | .directive (count + 1), spot, c :: cs =>
    segmentsFrom (.directive count) (spot.past (opensTag (c :: cs)) c) cs
  | .ignored (count + 1), spot, c :: cs =>
    consText c (segmentsFrom (.ignored count) (spot.past (opensTag (c :: cs)) c) cs)
  | _, spot, c :: cs =>
    let next := spot.past (opensTag (c :: cs)) c
    match Inclusion.read? (c :: cs) with
    | none => consText c (segmentsFrom .text next cs)
    | some (inclusion, rest) =>
      let count := cs.length - rest.length
      if inclusion.kind = .parent ∧ !spot.leading then
        consText c (segmentsFrom (.ignored count) next cs)
      else
        let source := c :: cs.take count
        .directive ⟨inclusion, source, spot.offset, spot.indent⟩ ::
          segmentsFrom (.directive count) next cs

/-- The directives of a text and the texts between them. -/
def segments (text : List Char) : List Segment := segmentsFrom .text {} text

/-! ## The segments make up the text -/

theorem source_consText (c : Char) (segments : List Segment) :
    (consText c segments).flatMap Segment.source = c :: segments.flatMap Segment.source := by
  cases segments with
  | nil => rfl
  | cons s rest => cases s <;> rfl

/-- How much of the text a scan has already put into a segment. -/
def SegmentScan.passed : SegmentScan → Nat
  | directive count => count
  | _ => 0

theorem SegmentScan.passed_eq_zero {scan : SegmentScan}
    (h : ∀ count, scan ≠ .directive (count + 1)) : scan.passed = 0 := by
  match scan with
  | .text => rfl
  | .ignored _ => rfl
  | .directive 0 => rfl
  | .directive (count + 1) => exact absurd rfl (h count)

theorem source_segmentsFrom (scan : SegmentScan) (spot : Spot) (cs : List Char) :
    (segmentsFrom scan spot cs).flatMap Segment.source = cs.drop scan.passed := by
  fun_induction segmentsFrom scan spot cs with
  | case1 => simp
  | case2 count spot c cs ih => simpa [SegmentScan.passed] using ih
  | case3 count spot c cs ih => simpa [source_consText, SegmentScan.passed] using ih
  | case4 scan spot c cs hdirective _ next _ ih =>
    rw [SegmentScan.passed_eq_zero hdirective, source_consText, ih]
    rfl
  | case5 scan spot c cs hdirective _ next inclusion rest _ count _ ih =>
    rw [SegmentScan.passed_eq_zero hdirective, source_consText, ih]
    rfl
  | case6 scan spot c cs hdirective _ next inclusion rest _ count _ source ih =>
    rw [SegmentScan.passed_eq_zero hdirective, List.flatMap_cons, ih]
    simp [Segment.source, source, SegmentScan.passed]

theorem source_segments (text : List Char) : (segments text).flatMap Segment.source = text := by
  simp [segments, source_segmentsFrom, SegmentScan.passed]

end Stencil
