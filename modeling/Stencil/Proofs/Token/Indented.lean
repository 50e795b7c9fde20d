import Mathlib.Data.List.TakeDrop
import Stencil.Proofs.Text.Indent
import Stencil.Proofs.Text.Separator
import Stencil.Token.Clause

/-!
# Tokens of indented texts

An indentation behind line feeds changes nothing about the parts of a tag or an object but their
texts: blanks separate nothing that the line feed before them does not separate.

* `trim_indentedBy`, `topPieces_indentedBy`: trimming and cutting commute with indenting.
* `ofContent_indentedBy`, `objectOfContent_indentedBy`: the tag and the object with an indented
  content have indented parts.
-/

namespace Stencil

open Text

variable {margin : List Char}

/-! ## Blanks -/

theorem IsMargin.isBlank (h : IsMargin margin) : ∀ c ∈ margin, isBlank c = true := by
  intro c hc
  rcases h c hc with rfl | rfl <;> decide

theorem indentedBy_eq_nil {cs : List Char} : indentedBy margin cs = [] ↔ cs = [] := by
  cases cs with
  | nil => simp
  | cons c cs => by_cases hc : c = '\n' <;> simp [indentedBy, hc]

/-- A line feed and the margin behind it are blank. -/
theorem isBlank_indentedBy_singleton (h : IsMargin margin) {c : Char} (hc : isBlank c = true) :
    ∀ d ∈ indentedBy margin [c], isBlank d = true := by
  by_cases hfeed : c = '\n'
  · rw [hfeed, indentedBy_lineFeed, List.forall_mem_cons]
    exact ⟨by decide, h.isBlank⟩
  · rw [indentedBy_singleton hfeed]
    simpa using hc

theorem ne_lineFeed_of_not_isBlank {c : Char} (h : isBlank c = false) : c ≠ '\n' := by
  rintro rfl
  exact absurd h (by decide)

theorem trimLeft_indentedBy (h : IsMargin margin) (cs : List Char) :
    trimLeft (indentedBy margin cs) = indentedBy margin (trimLeft cs) := by
  induction cs with
  | nil => rfl
  | cons c cs ih =>
    by_cases hc : isBlank c = true
    · have hleft : trimLeft (c :: cs) = trimLeft cs := List.dropWhile_cons_of_pos hc
      rw [hleft, ← ih, indentedBy_cons]
      exact List.dropWhile_append_of_pos (isBlank_indentedBy_singleton h hc)
    · have hfeed := ne_lineFeed_of_not_isBlank (Bool.not_eq_true _ ▸ hc)
      have hstays (ds : List Char) : trimLeft (c :: ds) = c :: ds := List.dropWhile_cons_of_neg hc
      rw [indentedBy_cons_of_ne hfeed, hstays, hstays, indentedBy_cons_of_ne hfeed]

theorem trimRight_of_all {cs : List Char} (h : ∀ c ∈ cs, isBlank c = true) : trimRight cs = [] :=
  dropRight_eq_nil.2 (List.all_eq_true.2 h)

theorem trimRight_indentedBy (h : IsMargin margin) (cs : List Char) :
    trimRight (indentedBy margin cs) = indentedBy margin (trimRight cs) := by
  induction cs with
  | nil => rfl
  | cons c cs ih =>
    rw [indentedBy_cons, trimRight_append, trimRight_cons, ih]
    by_cases hcs : trimRight cs = []
    · rw [if_pos (indentedBy_eq_nil.2 hcs), if_pos hcs]
      by_cases hc : isBlank c = true
      · rw [if_pos hc, indentedBy_nil]
        exact trimRight_of_all (isBlank_indentedBy_singleton h hc)
      · have hfeed := ne_lineFeed_of_not_isBlank (Bool.not_eq_true _ ▸ hc)
        rw [if_neg hc, indentedBy_singleton hfeed, trimRight_cons, if_pos (by rfl), if_neg hc]
    · rw [if_neg (mt indentedBy_eq_nil.1 hcs), if_neg hcs, ← indentedBy_cons]

theorem trim_indentedBy (h : IsMargin margin) (cs : List Char) :
    trim (indentedBy margin cs) = indentedBy margin (trim cs) := by
  rw [trim, trimLeft_indentedBy h, trimRight_indentedBy h, trim]

/-- The first blank of an indented text is that of the text. -/
theorem cutAt_isBlank_indentedBy (cs : List Char) :
    cutAt isBlank (indentedBy margin cs) =
      ((cutAt isBlank cs).1, indentedBy margin (cutAt isBlank cs).2) := by
  simp only [cutAt, List.span_eq_takeWhile_dropWhile]
  induction cs with
  | nil => rfl
  | cons c cs ih =>
    by_cases hc : isBlank c = true
    · obtain ⟨ds, hds⟩ : ∃ ds, indentedBy margin (c :: cs) = c :: ds :=
        List.head?_eq_some_iff.1 (head?_indentedBy margin (c :: cs))
      have htake (cs : List Char) : (c :: cs).takeWhile (!isBlank ·) = [] :=
        List.takeWhile_cons_of_neg (by simpa using hc)
      have hdrop (cs : List Char) : (c :: cs).dropWhile (!isBlank ·) = c :: cs :=
        List.dropWhile_cons_of_neg (by simpa using hc)
      rw [htake, hdrop, hds, htake, hdrop]
    · have hfeed := ne_lineFeed_of_not_isBlank (Bool.not_eq_true _ ▸ hc)
      rw [indentedBy_cons_of_ne hfeed]
      simpa [hc] using ih

/-! ## Separators -/

namespace Text

/-- A margin behind a line feed changes nothing about what is open. -/
theorem Nesting.Proper.step_margin {n : Nesting} (h : n.Proper) {c : Char}
    (hc : c = ' ' ∨ c = '\t') : (n.step '\n').step c = n.step '\n' := by
  obtain ⟨quote, escaped, depth⟩ := n
  cases quote with
  | none => rcases hc with rfl | rfl <;> rfl
  | some mark =>
    have hmark := h mark rfl
    have hne : ∀ d, isQuoteMark d = false → (d == mark) = false := by
      rintro d hd
      rw [beq_eq_false_iff_ne]
      rintro rfl
      rw [hmark] at hd
      cases hd
    have hfeed := hne '\n' (by decide)
    have hspace := hne ' ' (by decide)
    have htab := hne '\t' (by decide)
    cases escaped <;> rcases hc with rfl | rfl <;> simp [Nesting.step, hfeed, hspace, htab]

/-- A separator is neither a line feed nor in a margin. -/
def IsSeparator (sep : Char) : Prop := sep ≠ '\n' ∧ sep ≠ ' ' ∧ sep ≠ '\t'

instance (sep : Char) : Decidable (IsSeparator sep) :=
  inferInstanceAs (Decidable (_ ∧ _))

end Text

theorem topPieces_margin (hm : IsMargin margin) {sep : Char} (hsep : IsSeparator sep) {n : Nesting}
    (hn : n.Proper) (cs : List Char) :
    topPieces sep (n.step '\n') (margin ++ cs) =
      (margin ++ (topPieces sep (n.step '\n') cs).1, (topPieces sep (n.step '\n') cs).2) := by
  induction margin with
  | nil => rfl
  | cons c margin ih =>
    rw [IsMargin, List.forall_mem_cons] at hm
    have hc : c ≠ sep := by rcases hm.1 with rfl | rfl <;> simp [hsep.2.1.symm, hsep.2.2.symm]
    rw [List.cons_append, topPieces, hn.step_margin hm.1, ih hm.2, separates_eq_false hc]
    rfl

/-- An indented text is cut where the text is. -/
theorem topPieces_indentedBy (hm : IsMargin margin) {sep : Char} (hsep : IsSeparator sep)
    {n : Nesting} (hn : n.Proper) (cs : List Char) :
    topPieces sep n (indentedBy margin cs) =
      (indentedBy margin (topPieces sep n cs).1,
        (topPieces sep n cs).2.map (indentedBy margin)) := by
  induction cs generalizing n with
  | nil => rfl
  | cons c cs ih =>
    by_cases hfeed : c = '\n'
    · subst hfeed
      rw [indentedBy_cons_lineFeed, topPieces, topPieces, topPieces_margin hm hsep hn,
        ih (hn.step _), separates_eq_false hsep.1.symm]
      simp [indentedBy_cons_lineFeed]
    · rw [indentedBy_cons_of_ne hfeed, topPieces, topPieces, ih (hn.step _)]
      cases n.separates sep c <;> simp [indentedBy_cons_of_ne hfeed]

theorem cutTop?_indentedBy (hm : IsMargin margin) {sep : Char} (hsep : IsSeparator sep)
    (cs : List Char) :
    cutTop? sep (indentedBy margin cs) =
      (cutTop? sep cs).map fun (first, rest) =>
        (indentedBy margin first, indentedBy margin rest) := by
  unfold cutTop?
  rw [topPieces_indentedBy hm hsep Nesting.proper_empty]
  rcases topPieces_cases Nesting.reached_empty sep cs with hone | ⟨first, rest, rfl, _, _, _, hcut⟩
  · rw [hone]
    rfl
  · rw [hcut]
    simp [splitTop, indentedBy_cons_of_ne hsep.1]

theorem splitTop_indentedBy (hm : IsMargin margin) {sep : Char} (hsep : IsSeparator sep)
    (cs : List Char) :
    splitTop sep (indentedBy margin cs) = (splitTop sep cs).map (indentedBy margin) := by
  simp [splitTop, topPieces_indentedBy hm hsep Nesting.proper_empty]

/-! ## Tokens -/

/-- A string with an indentation behind every line feed. -/
def indentedString (margin : List Char) (s : String) : String :=
  .ofList (indentedBy margin s.toList)

theorem indentedString_ofList (margin cs : List Char) :
    indentedString margin (.ofList cs) = .ofList (indentedBy margin cs) := by
  rw [indentedString, String.toList_ofList]

/-- The call with indented texts. -/
def FilterCall.indented (margin : List Char) (call : FilterCall) : FilterCall :=
  ⟨indentedString margin call.name, call.args.map (indentedString margin)⟩

/-- The token with indented texts. The name of a tag has no line feed. -/
def Token.indented (margin : List Char) : Token → Token
  | raw text pos => raw (indentedString margin text) pos
  | tag t => tag { t with
      args := indentedString margin t.args
      head := indentedString margin t.head
      filters := t.filters.map (·.indented margin)
      source := indentedString margin t.source }
  | object expression filters source pos =>
    object (indentedString margin expression) (filters.map (·.indented margin))
      (indentedString margin source) pos

/-- No argument becomes empty, and no empty one becomes an argument. -/
theorem args_indentedBy (hm : IsMargin margin) (pieces : List (List Char)) :
    ((pieces.map (indentedBy margin)).map trim).filter (!·.isEmpty) =
      ((pieces.map trim).filter (!·.isEmpty)).map (indentedBy margin) := by
  induction pieces with
  | nil => rfl
  | cons piece pieces ih =>
    simp only [List.map_cons, trim_indentedBy hm, List.filter_cons, ih]
    cases trim piece with
    | nil => rfl
    | cons c cs =>
      have hne : indentedBy margin (c :: cs) ≠ [] := mt indentedBy_eq_nil.1 (List.cons_ne_nil _ _)
      simp [hne]

theorem FilterCall.ofClause_indentedBy (hm : IsMargin margin) (clause : List Char) :
    FilterCall.ofClause (indentedBy margin clause) =
      (FilterCall.ofClause clause).indented margin := by
  have hcolon : IsSeparator ':' := by decide
  have hcomma : IsSeparator ',' := by decide
  unfold FilterCall.ofClause
  simp only [trim_indentedBy hm, cutTop?_indentedBy hm hcolon]
  cases cutTop? ':' (trim clause) with
  | none => simp [FilterCall.indented, indentedString_ofList]
  | some parts =>
    obtain ⟨name, args⟩ := parts
    simp only [Option.map_some, FilterCall.indented, indentedString_ofList, trim_indentedBy hm,
      splitTop_indentedBy hm hcomma, args_indentedBy hm]
    rw [List.map_map, List.map_map]
    congr 1
    exact List.map_congr_left fun arg _ => (indentedString_ofList margin arg).symm

theorem headAndFilters_indentedBy (hm : IsMargin margin) (cs : List Char) :
    headAndFilters (indentedBy margin cs) =
      (indentedString margin (headAndFilters cs).1,
        (headAndFilters cs).2.map (·.indented margin)) := by
  have hbar : IsSeparator '|' := by decide
  simp only [headAndFilters, topPieces_indentedBy hm hbar Nesting.proper_empty, trim_indentedBy hm,
    indentedString_ofList, List.map_map, Prod.mk.injEq, true_and]
  exact List.map_congr_left fun clause _ => FilterCall.ofClause_indentedBy hm clause

/-- The object with an indented content has indented parts. -/
theorem objectOfContent_indentedBy (hm : IsMargin margin) (content source : List Char) (pos : Pos) :
    Token.objectOfContent (indentedBy margin content) (indentedBy margin source) pos =
      (Token.objectOfContent content source pos).indented margin := by
  simp only [Token.objectOfContent, trim_indentedBy hm, headAndFilters_indentedBy hm]
  simp only [Token.indented, indentedString_ofList]

/-- So has the tag. -/
theorem ofContent_indentedBy (hm : IsMargin margin) (content source : List Char) (pos : Pos) :
    Token.tag (Tag.ofContent (indentedBy margin content) (indentedBy margin source) pos) =
      (Token.tag (Tag.ofContent content source pos)).indented margin := by
  simp only [Tag.ofContent, trim_indentedBy hm, cutAt_isBlank_indentedBy,
    headAndFilters_indentedBy hm]
  simp only [Token.indented, indentedString_ofList]

end Stencil
