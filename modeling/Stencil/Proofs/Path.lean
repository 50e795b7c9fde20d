import Stencil.Path

/-!
# Normalized paths

A normalized path is determined by its components: it has no components `.`, and a slash in front
only when it is absolute.

* `parts_ofParts`: the components of a path that was written from settled components are those;
* `isNormal_normalize`: a normalized path is written from its components.
-/

namespace Stencil

open Text

namespace PathPart

/-- A component that may stand anywhere in a normalized path. -/
def IsProper : PathPart → Prop
  | up => True
  | name text => text ≠ [] ∧ text ≠ ['.'] ∧ text ≠ ['.', '.'] ∧ '/' ∉ text
  | root | current => False

/-- Components in reverse as they are in a normalized path: the slash in front comes last. -/
def Settled : List PathPart → Prop
  | [] => True
  | [root] => True
  | part :: parts => part.IsProper ∧ Settled parts

theorem settled_cons {part : PathPart} {parts : List PathPart} (hpart : part.IsProper)
    (h : Settled parts) : Settled (part :: parts) := by
  cases part with
  | root => exact hpart.elim
  | current => exact hpart.elim
  | up => exact ⟨hpart, h⟩
  | name text => exact ⟨hpart, h⟩

/-- What is settled are proper components, perhaps behind a slash. -/
theorem Settled.cases {parts : List PathPart} (h : Settled parts) :
    (∀ part ∈ parts, part.IsProper) ∨
      ∃ rest, parts = rest ++ [root] ∧ ∀ part ∈ rest, part.IsProper := by
  induction parts with
  | nil => exact .inl fun part hpart => absurd hpart List.not_mem_nil
  | cons part parts ih =>
    by_cases hroot : part :: parts = [root]
    · exact .inr ⟨[], hroot, fun part hpart => absurd hpart List.not_mem_nil⟩
    · obtain ⟨hpart, hparts⟩ : part.IsProper ∧ Settled parts := by
        cases part <;> cases parts <;> simp_all [Settled]
      rcases ih hparts with hall | ⟨rest, rfl, hall⟩
      · exact .inl (List.forall_mem_cons.2 ⟨hpart, hall⟩)
      · exact .inr ⟨part :: rest, rfl, List.forall_mem_cons.2 ⟨hpart, hall⟩⟩

theorem Settled.of_append {before after : List PathPart}
    (h : Settled (before ++ after)) : Settled before := by
  induction before with
  | nil => trivial
  | cons part before ih =>
    by_cases hroot : part :: (before ++ after) = [.root]
    · obtain ⟨rfl, hnil⟩ := List.cons.inj hroot
      rw [(List.append_eq_nil_iff.1 hnil).1]
      trivial
    · obtain ⟨hpart, hrest⟩ : part.IsProper ∧ Settled (before ++ after) := by
        cases part <;> cases hrest : before ++ after <;> simp_all [Settled]
      exact settled_cons hpart (ih hrest)

theorem isProper_of_ofPiece? {piece : List Char} {part : PathPart} (hslash : '/' ∉ piece)
    (h : ofPiece? piece = some part) : part.IsProper := by
  unfold ofPiece? at h
  split at h
  · cases h
  · next hdot =>
    rw [Bool.or_eq_true, not_or] at hdot
    split at h
    · cases h
      trivial
    · next hup =>
      cases h
      exact ⟨by simpa using hdot.1, by simpa using hdot.2, by simpa using hup, hslash⟩

theorem ofPiece?_text {part : PathPart} (h : part.IsProper) : ofPiece? part.text = some part := by
  cases part with
  | root => exact h.elim
  | current => exact h.elim
  | up => rfl
  | name text => simp [ofPiece?, PathPart.text, h.1, h.2.1, h.2.2.1]

theorem text_ne_nil {part : PathPart} (h : part.IsProper) : part.text ≠ [] := by
  cases part with
  | root => exact h.elim
  | current => exact h.elim
  | up => simp [PathPart.text]
  | name text => exact h.1

theorem text_ne_dot {part : PathPart} (h : part.IsProper) : part.text ≠ ['.'] := by
  cases part with
  | root => exact h.elim
  | current => exact h.elim
  | up => simp [PathPart.text]
  | name text => exact h.2.1

theorem slash_notMem_text {part : PathPart} (h : part.IsProper) : '/' ∉ part.text := by
  cases part with
  | root => exact h.elim
  | current => exact h.elim
  | up => simp [PathPart.text]
  | name text => exact h.2.2.2

end PathPart

/-! ## Pieces between slashes -/

theorem pieces_notMem {p : Char → Bool} {cs : List Char} :
    ∀ piece ∈ (pieces p cs).1 :: (pieces p cs).2, ∀ c ∈ piece, p c = false := by
  induction cs with
  | nil => simp [pieces]
  | cons c cs ih =>
    rw [pieces]
    by_cases hc : p c
    · simpa [hc] using ih
    · simp only [hc, Bool.false_eq_true, if_false, List.forall_mem_cons] at ih ⊢
      exact ⟨⟨by simp, ih.1⟩, ih.2⟩

theorem pieces_append {p : Char → Bool} {cs : List Char} {c : Char} (hc : p c = true)
    (h : ∀ d ∈ cs, p d = false) (rest : List Char) :
    pieces p (cs ++ c :: rest) = (cs, (pieces p rest).1 :: (pieces p rest).2) := by
  induction cs with
  | nil => simp [pieces, hc]
  | cons d cs ih =>
    rw [List.forall_mem_cons] at h
    simp [pieces, h.1, ih h.2]

theorem pieces_of_none {p : Char → Bool} {cs : List Char} (h : ∀ d ∈ cs, p d = false) :
    pieces p cs = (cs, []) := by
  induction cs with
  | nil => rfl
  | cons d cs ih =>
    rw [List.forall_mem_cons] at h
    simp [pieces, h.1, ih h.2]

/-- Pieces without slashes come apart where slashes were put between them. -/
theorem pieces_joinWith {first : List Char} {others : List (List Char)}
    (h : ∀ piece ∈ first :: others, '/' ∉ piece) :
    pieces (· == '/') (joinWith ['/'] (first :: others)) = (first, others) := by
  have hslash {piece : List Char} (hpiece : '/' ∉ piece) : ∀ d ∈ piece, (d == '/') = false := by
    intro d hd
    rw [beq_eq_false_iff_ne]
    rintro rfl
    exact hpiece hd
  induction others generalizing first with
  | nil => exact pieces_of_none (hslash (h first List.mem_cons_self))
  | cons other others ih =>
    rw [List.forall_mem_cons] at h
    have hjoin : joinWith ['/'] (first :: other :: others) =
        first ++ '/' :: joinWith ['/'] (other :: others) := by simp [joinWith]
    rw [hjoin, pieces_append (by rfl) (hslash h.1), ih h.2]

/-! ## Components of written paths -/

namespace Path

theorem filterMap_ofPiece? {parts : List PathPart} (h : ∀ part ∈ parts, part.IsProper) :
    (parts.map PathPart.text).filterMap PathPart.ofPiece? = parts := by
  induction parts with
  | nil => rfl
  | cons part parts ih =>
    rw [List.forall_mem_cons] at h
    rw [List.map_cons, List.filterMap_cons_some (PathPart.ofPiece?_text h.1), ih h.2]

/-- What stands behind a slash in front. -/
theorem filterMap_pieces {parts : List PathPart} (h : ∀ part ∈ parts, part.IsProper) :
    ((pieces (· == '/') (joinWith ['/'] (parts.map PathPart.text))).1 ::
      (pieces (· == '/') (joinWith ['/'] (parts.map PathPart.text))).2).filterMap
        PathPart.ofPiece? = parts := by
  cases parts with
  | nil => rfl
  | cons part parts =>
    have hslash : ∀ piece ∈ part.text :: parts.map PathPart.text, '/' ∉ piece := by
      rw [← List.map_cons]
      intro piece hpiece
      obtain ⟨part', hpart', rfl⟩ := List.mem_map.1 hpiece
      exact PathPart.slash_notMem_text (h part' hpart')
    rw [List.map_cons, pieces_joinWith hslash]
    exact filterMap_ofPiece? h

theorem parts_ofParts_absolute {parts : List PathPart} (h : ∀ part ∈ parts, part.IsProper) :
    (ofParts (.root :: parts)).parts = .root :: parts := by
  have hwrite : (ofParts (.root :: parts)).text.toList =
      '/' :: joinWith ['/'] (parts.map PathPart.text) := String.toList_ofList
  have habsolute : (ofParts (.root :: parts)).isAbsolute = true := by
    simp [isAbsolute, hwrite]
  have hpieces := filterMap_pieces h
  simp only [Path.parts, habsolute, hwrite, if_true]
  rw [← List.nil_append ('/' :: _), pieces_append (by rfl) (by simp)]
  simpa using hpieces

theorem parts_ofParts_relative {parts : List PathPart} (h : ∀ part ∈ parts, part.IsProper) :
    (ofParts parts).parts = parts := by
  cases parts with
  | nil => rfl
  | cons part parts =>
    have hpart := h part List.mem_cons_self
    have hwrite : (ofParts (part :: parts)).text.toList =
        joinWith ['/'] (part.text :: parts.map PathPart.text) := by
      cases part with
      | root => exact hpart.elim
      | current => exact hpart.elim
      | up => exact String.toList_ofList
      | name text => exact String.toList_ofList
    have hslash : ∀ piece ∈ part.text :: parts.map PathPart.text, '/' ∉ piece := by
      rw [← List.map_cons]
      intro piece hpiece
      obtain ⟨part', hpart', rfl⟩ := List.mem_map.1 hpiece
      exact PathPart.slash_notMem_text (h part' hpart')
    have hrelative : (ofParts (part :: parts)).isAbsolute = false := by
      obtain ⟨c, cs, htext⟩ := List.exists_cons_of_ne_nil (PathPart.text_ne_nil hpart)
      have hc : c ≠ '/' := by
        rintro rfl
        exact PathPart.slash_notMem_text hpart (by simp [htext])
      simp [isAbsolute, hwrite, joinWith_cons, htext, hc]
    have hdot : (part.text == ['.']) = false := by simpa using PathPart.text_ne_dot hpart
    simp only [Path.parts, hrelative, hwrite, pieces_joinWith hslash, hdot,
      PathPart.ofPiece?_text hpart, Bool.false_eq_true, if_false]
    have := filterMap_ofPiece? (List.forall_mem_cons.1 h).2
    simpa using this

/-- Settled components come back from the path that is written from them. -/
theorem parts_ofParts {parts : List PathPart} (h : PathPart.Settled parts.reverse) :
    (ofParts parts).parts = parts := by
  rcases h.cases with hall | ⟨rest, hrest, hall⟩
  · exact parts_ofParts_relative fun part hpart => hall part (List.mem_reverse.2 hpart)
  · obtain rfl : parts = .root :: rest.reverse := by
      rw [← List.reverse_reverse parts, hrest]
      simp
    exact parts_ofParts_absolute fun part hpart => hall part (List.mem_reverse.1 hpart)

/-! ## Normalizing -/

theorem resolve_name (passed : List PathPart) (text : List Char) :
    resolve passed (.name text) = .name text :: passed := by
  cases passed <;> rfl

theorem settled_resolve {passed : List PathPart} {part : PathPart} (hpart : part.IsProper)
    (h : PathPart.Settled passed) : PathPart.Settled (resolve passed part) := by
  cases part with
  | root => exact hpart.elim
  | current => exact hpart.elim
  | name text =>
    rw [resolve_name]
    exact PathPart.settled_cons hpart h
  | up =>
    cases passed with
    | nil => exact ⟨trivial, trivial⟩
    | cons last passed =>
      cases last with
      | root => exact PathPart.settled_cons trivial h
      | current => cases passed <;> exact absurd h.1 id
      | up => exact h.2
      | name text => exact h.2

theorem settled_foldl {parts passed : List PathPart} (hparts : ∀ part ∈ parts, part.IsProper)
    (h : PathPart.Settled passed) : PathPart.Settled (parts.foldl resolve passed) := by
  induction parts generalizing passed with
  | nil => exact h
  | cons part parts ih =>
    rw [List.forall_mem_cons] at hparts
    exact ih hparts.2 (settled_resolve hparts.1 h)

/-- The components of a path: a slash or a `.` may stand in front of such as may stand anywhere. -/
theorem parts_cases (p : Path) : ∃ rest, (∀ part ∈ rest, part.IsProper) ∧
    ((p.isAbsolute = true ∧ p.parts = .root :: rest) ∨
      (p.isAbsolute = false ∧ (p.parts = .current :: rest ∨ p.parts = rest))) := by
  have hpieces := @pieces_notMem (· == '/') p.text.toList
  rw [List.forall_mem_cons] at hpieces
  have hslash {piece : List Char} (h : ∀ c ∈ piece, (c == '/') = false) : '/' ∉ piece :=
    fun hmem => absurd (h _ hmem) (by simp)
  have hothers : ∀ part ∈ (pieces (· == '/') p.text.toList).2.filterMap PathPart.ofPiece?,
      part.IsProper := by
    intro part hpart
    obtain ⟨piece, hpiece, hof⟩ := List.mem_filterMap.1 hpart
    exact PathPart.isProper_of_ofPiece? (hslash (hpieces.2 piece hpiece)) hof
  simp only [Path.parts]
  split
  · next habsolute => exact ⟨_, hothers, .inl ⟨habsolute, rfl⟩⟩
  · next hrelative =>
    rw [Bool.not_eq_true] at hrelative
    split
    · exact ⟨_, hothers, .inr ⟨hrelative, .inl rfl⟩⟩
    · refine ⟨_, ?_, .inr ⟨hrelative, .inr rfl⟩⟩
      intro part hpart
      rcases List.mem_append.1 hpart with hfirst | hpart
      · exact PathPart.isProper_of_ofPiece? (hslash hpieces.1) (Option.mem_toList.1 hfirst)
      · exact hothers part hpart

theorem settled_normalize (p : Path) : PathPart.Settled (p.parts.foldl resolve []) := by
  obtain ⟨rest, hrest, ⟨_, hparts⟩ | ⟨_, hparts | hparts⟩⟩ := parts_cases p
  · rw [hparts, List.foldl_cons]
    exact settled_foldl hrest trivial
  · rw [hparts, List.foldl_cons, resolve_current]
    exact settled_foldl hrest trivial
  · rw [hparts]
    exact settled_foldl hrest trivial

/-- A path is as `normalize` writes it. -/
structure IsNormal (p : Path) : Prop where
  settled : PathPart.Settled p.parts.reverse
  written : ofParts p.parts = p

/-- The components of a normalized path are those that are left of the path. -/
theorem parts_normalize (p : Path) : p.normalize.parts = (p.parts.foldl resolve []).reverse :=
  parts_ofParts (by rw [List.reverse_reverse]; exact settled_normalize p)

theorem isNormal_normalize (p : Path) : p.normalize.IsNormal := by
  constructor
  · rw [parts_normalize, List.reverse_reverse]
    exact settled_normalize p
  · rw [parts_normalize, normalize]

/-- Its last components alone are those of the path that is written from them. -/
theorem IsNormal.parts_ofParts_suffix {p : Path} {parts : List PathPart} (hp : p.IsNormal)
    (h : parts <:+ p.parts) : (ofParts parts).parts = parts := by
  obtain ⟨before, hbefore⟩ := h
  have hsettled := hp.settled
  rw [← hbefore, List.reverse_append] at hsettled
  exact parts_ofParts hsettled.of_append

/-- Normalized paths with the same components are the same. -/
theorem IsNormal.ext {p q : Path} (hp : p.IsNormal) (hq : q.IsNormal) (h : p.parts = q.parts) :
    p = q := by
  rw [← hp.written, h, hq.written]

end Path

end Stencil
