import Mathlib.Data.List.Chain
import Stencil.Number.Width
import Stencil.Proofs.Inclusion.Layout

/-!
# Segments that can be put together

Where directives give way to files, the texts between them come to stand beside markers.

* `Joinable`: a text in which no marker is hidden by what stands before it.
* `Alternating`: no two texts meet, and none of them ends in a brace where a directive follows.
* `Joinable.alternating`: the segments of a joinable text are such.
* `trimLast`: the segments of a text that is trimmed behind.
-/

namespace Stencil

open Text

/-- The text has no marker, and no brace hides one that takes the place of a directive. Its length
has 64 bits. -/
structure Joinable (text : List Char) : Prop where
  fits : byteLength text < Number.twoTo 64
  noMarker : ¬ ['{', '#'] <:+: text
  noBrace : ∀ before d after, segments text = before ++ .directive d :: after →
    (before.flatMap Segment.source).getLast? ≠ some '{'

/-- The segments of a file as they are put together. -/
inductive Alternating : List Segment → Prop where
  | nil : Alternating []
  | last {cs : List Char} (plain : ¬ ['{', '#'] <:+: cs) : Alternating [.text cs]
  | text {cs : List Char} {d : Directive} {rest : List Segment} (plain : ¬ ['{', '#'] <:+: cs)
      (closed : cs.getLast? ≠ some '{') (behind : Alternating (.directive d :: rest)) :
      Alternating (.text cs :: .directive d :: rest)
  | directive {d : Directive} {rest : List Segment} (margin : IsMargin d.indent)
      (source : byteLength d.source < Number.twoTo 64)
      (indent : byteLength d.indent < Number.twoTo 64) (behind : Alternating rest) :
      Alternating (.directive d :: rest)

/-! ## The segments of a text -/

theorem infix_source {text : List Char} {s : Segment} (h : s ∈ segments text) :
    s.source <:+: text := by
  obtain ⟨before, after, hcut⟩ := List.append_of_mem h
  refine ⟨before.flatMap Segment.source, after.flatMap Segment.source, ?_⟩
  rw [← source_segments text, hcut]
  simp

theorem byteLength_infix_le {cs ds : List Char} (h : cs <:+: ds) :
    byteLength cs ≤ byteLength ds := by
  obtain ⟨before, after, rfl⟩ := h
  simp only [byteLength_append]
  omega

theorem Spot.byteLength_indent_past (spot : Spot) (opens : Bool) (c : Char) :
    byteLength (spot.past opens c).indent ≤ byteLength spot.indent + c.utf8Size := by
  unfold Spot.past
  dsimp only
  split
  · exact Nat.zero_le _
  · split
    · simp [byteLength]
    · exact Nat.le_add_right _ _

/-- The indentation of a line is a part of the text. -/
theorem byteLength_indent_segmentsFrom {scan : SegmentScan} {spot : Spot} {cs : List Char}
    {d : Directive} (h : .directive d ∈ segmentsFrom scan spot cs) :
    byteLength d.indent ≤ byteLength spot.indent + byteLength cs := by
  have hpast {spot : Spot} {opens : Bool} {c : Char} {cs : List Char}
      (h : byteLength d.indent ≤ byteLength (spot.past opens c).indent + byteLength cs) :
      byteLength d.indent ≤ byteLength spot.indent + byteLength (c :: cs) := by
    have := spot.byteLength_indent_past opens c
    rw [byteLength]
    omega
  fun_induction segmentsFrom scan spot cs with
  | case1 => simp at h
  | case2 count spot c cs ih => exact hpast (ih h)
  | case3 count spot c cs ih => exact hpast (ih (mem_consText h))
  | case4 scan spot c cs _ _ next _ ih => exact hpast (ih (mem_consText h))
  | case5 scan spot c cs _ _ next inclusion rest _ count _ ih => exact hpast (ih (mem_consText h))
  | case6 scan spot c cs _ _ next inclusion rest _ count _ source ih =>
    rcases List.mem_cons.1 h with h | h
    · cases h
      exact Nat.le_add_right _ _
    · exact hpast (ih h)

/-- One of two segments is a directive. -/
def Segment.Apart (s s' : Segment) : Prop := s.directive?.isSome ∨ s'.directive?.isSome

theorem isChain_consText (c : Char) {segments : List Segment} (h : segments.IsChain Segment.Apart) :
    (consText c segments).IsChain Segment.Apart := by
  cases segments with
  | nil => exact .singleton _
  | cons s rest =>
    cases s with
    | text cs =>
      obtain ⟨hapart, hrest⟩ := List.isChain_cons.1 h
      exact List.isChain_cons.2 ⟨hapart, hrest⟩
    | directive d => exact List.isChain_cons_cons.2 ⟨.inr rfl, h⟩

/-- Between two texts there is a directive. -/
theorem isChain_segmentsFrom (scan : SegmentScan) (spot : Spot) (cs : List Char) :
    (segmentsFrom scan spot cs).IsChain Segment.Apart := by
  fun_induction segmentsFrom scan spot cs with
  | case1 => exact .nil
  | case2 count spot c cs ih => exact ih
  | case3 count spot c cs ih => exact isChain_consText c ih
  | case4 scan spot c cs _ _ next _ ih => exact isChain_consText c ih
  | case5 scan spot c cs _ _ next inclusion rest _ count _ ih => exact isChain_consText c ih
  | case6 scan spot c cs _ _ next inclusion rest _ count _ source ih =>
    exact List.isChain_cons.2 ⟨fun _ _ => .inl rfl, ih⟩

/-- The segments of a joinable text from some segment on can be put together. -/
theorem Joinable.alternating_from {text : List Char} (h : Joinable text) {rest : List Segment} :
    ∀ before, segments text = before ++ rest → Alternating rest := by
  induction rest with
  | nil => exact fun _ _ => .nil
  | cons s rest ih =>
    intro before hcut
    have hrest : Alternating rest := ih (before ++ [s]) (by simpa using hcut)
    have hmem : s ∈ segments text := by simp [hcut]
    cases s with
    | directive d =>
      have hindent := byteLength_indent_segmentsFrom hmem
      rw [show byteLength ([] : List Char) = 0 from rfl, Nat.zero_add] at hindent
      exact .directive (isMargin_indent hmem)
        (Nat.lt_of_le_of_lt (byteLength_infix_le (infix_source hmem)) h.fits)
        (Nat.lt_of_le_of_lt hindent h.fits) hrest
    | text cs =>
      have hplain : ¬ ['{', '#'] <:+: cs := fun hmarker =>
        h.noMarker (hmarker.trans (infix_source hmem))
      cases rest with
      | nil => exact .last hplain
      | cons s' rest =>
        cases s' with
        | text cs' =>
          have hchain := isChain_segmentsFrom .text {} text
          rw [show segmentsFrom .text {} text = _ from hcut, List.isChain_append] at hchain
          have hapart := (List.isChain_cons_cons.1 hchain.2.1).1
          rcases hapart with hapart | hapart <;> cases hapart
        | directive d =>
          refine .text hplain (fun hlast => ?_) hrest
          refine h.noBrace (before ++ [.text cs]) d rest (by simpa using hcut) ?_
          rw [List.flatMap_append, List.flatMap_singleton, Segment.source, List.getLast?_append,
            hlast]
          rfl

theorem Joinable.alternating {text : List Char} (h : Joinable text) : Alternating (segments text) :=
  h.alternating_from [] rfl

/-! ## Trimmed segments -/

/-- The segments of a text that is trimmed behind. -/
def trimLast : List Segment → List Segment
  | [] => []
  | [.text cs] => [.text (trimRight cs)]
  | segment :: rest => segment :: trimLast rest

theorem trimLast_directive (d : Directive) (rest : List Segment) :
    trimLast (.directive d :: rest) = .directive d :: trimLast rest := by
  rw [trimLast]
  simp

theorem trimLast_text (cs : List Char) (s : Segment) (rest : List Segment) :
    trimLast (.text cs :: s :: rest) = .text cs :: trimLast (s :: rest) := by
  rw [trimLast]
  simp

end Stencil
