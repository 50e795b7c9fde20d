import Mathlib.Data.List.Basic
import Stencil.Proofs.Path
import Stencil.Proofs.Text.Indent
import Stencil.Proofs.Text.Separator
import Stencil.Script

/-!
# Comments of scripts

A script is cut at its semicolons before it is cut into lines, and the cut goes by the quotes and the
brackets that are open. The text of a comment takes part in it: a semicolon in a comment ends the
comment, and a quote or a bracket that the comment leaves open reaches the lines behind it.

* `linesFrom_line`: what a line in front of a script adds to what the script holds;
* `readScript_line`: a line without assignments is passed over, whatever follows, exactly when every
  part behind a semicolon of it holds nothing either and it leaves nothing open. Blank lines always
  are.
-/

namespace Stencil

open Text

/-! ## Lines without assignments -/

namespace Statement

variable {line : List Char}

/-- A text of blanks. -/
def IsBlankText (cs : List Char) : Prop := ∀ c ∈ cs, isBlank c = true

theorem trimLeft_append_slash {margin : List Char} (h : IsBlankText margin) (rest : List Char) :
    trimLeft (margin ++ '/' :: rest) = '/' :: rest := by
  rw [trimLeft, List.dropWhile_append_of_pos h]
  rfl

/-- A trimmed text holds no assignment when all of it is blank or behind blanks there is a
comment. -/
theorem isEmptyLine_trim_iff {cs : List Char} :
    isEmptyLine (trim cs) = true ↔
      IsBlankText cs ∨ ∃ margin rest, IsBlankText margin ∧ cs = margin ++ '/' :: '/' :: rest := by
  constructor
  · intro h
    rw [isEmptyLine, Bool.or_eq_true, List.isEmpty_iff, List.isPrefixOf_iff_prefix] at h
    rcases h with hnil | hslashes
    · exact .inl (List.all_eq_true.1 (trim_eq_nil.1 hnil))
    · obtain ⟨rest, hrest⟩ := hslashes.trans (trimRight_front (trimLeft cs))
      have hmargin : IsBlankText (cs.takeWhile isBlank) :=
        List.all_eq_true.1 List.all_takeWhile
      have hcs : cs.takeWhile isBlank ++ trimLeft cs = cs := List.takeWhile_append_dropWhile
      exact .inr ⟨_, rest, hmargin, hcs.symm.trans (by rw [← hrest]; rfl)⟩
  · rintro (hblank | ⟨margin, rest, hmargin, rfl⟩)
    · rw [trim_eq_nil.2 (List.all_eq_true.2 hblank)]
      rfl
    · have hink : trimRight ('/' :: '/' :: rest) = '/' :: '/' :: trimRight rest :=
        trimRight_append_ink (by decide) (List.cons_ne_nil '/' ['/']) [] rest
      rw [trim, trimLeft_append_slash hmargin, hink]
      rfl

/-- What is in front of the first semicolon of a line without assignments holds none. -/
theorem isEmptyLine_first (h : isEmptyLine (trim line) = true) :
    isEmptyLine (trim (topPieces ';' {} line).1) = true := by
  rw [isEmptyLine_trim_iff] at h ⊢
  rcases h with hblank | ⟨margin, rest, hmargin, rfl⟩
  · exact .inl fun c hc => hblank c (mem_of_mem_topPieces (.head _) hc)
  · have hsep : ';' ∉ margin ++ ['/', '/'] := by
      intro hmem
      rcases List.mem_append.1 hmem with hmem | hmem
      · exact absurd (hmargin _ hmem) (by decide)
      · exact absurd hmem (by decide)
    have hstart := topPieces_start hsep {} rest
    simp only [List.append_assoc, List.cons_append, List.nil_append] at hstart
    rw [hstart]
    exact .inr ⟨margin, _, hmargin, rfl⟩

/-! ## What a line adds -/

/-- The trimmed lines of a piece that hold assignments. -/
def linesOfPiece (piece : List Char) : List (List Char) :=
  ((splitAt (· == '\n') piece).map trim).filter (!isEmptyLine ·)

/-- The trimmed lines with assignments in a text behind which something may be open. -/
def linesFrom (n : Nesting) (script : List Char) : List (List Char) :=
  ((topPieces ';' n script).1 :: (topPieces ';' n script).2).flatMap linesOfPiece

theorem linesOfScript_eq (script : List Char) : linesOfScript script = linesFrom {} script := rfl

theorem ne_lineFeed {cs : List Char} (h : '\n' ∉ cs) : ∀ c ∈ cs, (c == '\n') = false := by
  intro c hc
  rw [beq_eq_false_iff_ne]
  rintro rfl
  exact h hc

theorem linesOfPiece_line (h : '\n' ∉ line) :
    linesOfPiece line = [trim line].filter (!isEmptyLine ·) := by
  rw [linesOfPiece, splitAt, pieces_of_none (ne_lineFeed h)]
  rfl

theorem linesOfPiece_append (h : '\n' ∉ line) (rest : List Char) :
    linesOfPiece (line ++ '\n' :: rest) = linesOfPiece line ++ linesOfPiece rest := by
  rw [linesOfPiece_line h, linesOfPiece, splitAt, pieces_append (by rfl) (ne_lineFeed h)]
  exact List.filter_append [trim line] _

/-- A line adds what its own pieces hold, and what is open behind it is open in the rest. -/
theorem linesFrom_line (h : '\n' ∉ line) (n : Nesting) (rest : List Char) :
    linesFrom n (line ++ '\n' :: rest) =
      linesFrom n line ++ linesFrom ((n.after line).step '\n') rest := by
  obtain ⟨before, last, hline, hall⟩ := topPieces_append ';' n line ('\n' :: rest)
  have hlast : '\n' ∉ last := fun hmem => h (mem_of_mem_topPieces
    (by rw [hline]; exact List.mem_append_right _ (.head _)) hmem)
  have hfeed : topPieces ';' (n.after line) ('\n' :: rest) =
      ('\n' :: (topPieces ';' ((n.after line).step '\n') rest).1,
        (topPieces ';' ((n.after line).step '\n') rest).2) := by
    rw [topPieces_cons, separates_eq_false (by decide)]
    rfl
  rw [hfeed] at hall
  rw [linesFrom, linesFrom, linesFrom, hall, hline]
  simp only [List.flatMap_append, List.flatMap_cons, List.flatMap_nil, List.append_nil,
    linesOfPiece_append hlast, List.append_assoc]

/-- The pieces of a line are its lines. -/
theorem linesFrom_eq_filter (h : '\n' ∉ line) (n : Nesting) :
    linesFrom n line = (((topPieces ';' n line).1 :: (topPieces ';' n line).2).map trim).filter
      (!isEmptyLine ·) := by
  have hpieces : ∀ piece ∈ (topPieces ';' n line).1 :: (topPieces ';' n line).2, '\n' ∉ piece :=
    fun piece hpiece hmem => h (mem_of_mem_topPieces hpiece hmem)
  rw [linesFrom]
  generalize (topPieces ';' n line).1 :: (topPieces ';' n line).2 = all at hpieces
  induction all with
  | nil => rfl
  | cons piece all ih =>
    rw [List.forall_mem_cons] at hpieces
    rw [List.flatMap_cons, linesOfPiece_line hpieces.1, ih hpieces.2, List.map_cons,
      ← List.filter_append, List.singleton_append]

/-- A line without assignments in front of its first semicolon has none when there is none behind
it. -/
theorem linesFrom_eq_nil_iff (h : '\n' ∉ line) (hempty : isEmptyLine (trim line) = true) :
    linesFrom {} line = [] ↔
      ∀ piece ∈ (topPieces ';' {} line).2, isEmptyLine (trim piece) = true := by
  rw [linesFrom_eq_filter h, List.filter_eq_nil_iff]
  simp only [List.map_cons, List.forall_mem_cons, List.forall_mem_map, isEmptyLine_first hempty,
    true_and, Bool.not_eq_true', Bool.not_eq_false]

end Statement

/-! ## Reading -/

open Statement in
/-- A line in front of a script is read like the pieces of it, and the script as far as the line
leaves nothing open. -/
theorem readScript_append {line : String} (h : '\n' ∉ line.toList) (script : String) :
    readScript (line ++ "\n" ++ script) = (do
      let before ← (linesFrom {} line.toList).mapM ofLine
      let rest ← (linesFrom ((Nesting.after {} line.toList).step '\n') script.toList).mapM ofLine
      return before ++ rest) := by
  have htext : (line ++ "\n" ++ script).toList = line.toList ++ '\n' :: script.toList := by
    simp
  rw [readScript, linesOfScript_eq, htext, linesFrom_line h, List.mapM_append]

/-- A line that holds nothing and leaves nothing open is passed over. -/
theorem readScript_passed {line : String} (h : '\n' ∉ line.toList)
    (hnone : Statement.linesFrom {} line.toList = [])
    (hclosed : Nesting.after {} line.toList = {}) (script : String) :
    readScript (line ++ "\n" ++ script) = readScript script := by
  have hstep : Nesting.step {} '\n' = {} := rfl
  rw [readScript_append h, hnone, hclosed, hstep, readScript, Statement.linesOfScript_eq,
    List.mapM_nil, pure_bind]
  exact bind_pure _

theorem eq_nil_of_mapM {line : List (List Char)}
    (h : line.mapM Statement.ofLine = .ok []) : line = [] := by
  cases line with
  | nil => rfl
  | cons first line =>
    rw [List.mapM_cons] at h
    cases hfirst : Statement.ofLine first with
    | error fault =>
      rw [hfirst] at h
      cases h
    | ok statement =>
      cases hrest : line.mapM Statement.ofLine with
      | error fault =>
        rw [hfirst, hrest] at h
        cases h
      | ok statements =>
        rw [hfirst, hrest] at h
        cases h

/-- A line is passed over in front of every script only then: an empty script shows what it holds
itself, and a script of two assignments on one line shows what it leaves open. -/
theorem passed_readScript {line : String} (h : '\n' ∉ line.toList)
    (hpassed : ∀ script, readScript (line ++ "\n" ++ script) = readScript script) :
    Statement.linesFrom {} line.toList = [] ∧ Nesting.after {} line.toList = {} := by
  have hnone : Statement.linesFrom {} line.toList = [] := by
    have hread := (readScript_append h "").symm.trans (hpassed "")
    have hread' : (Statement.linesFrom {} line.toList).mapM Statement.ofLine >>=
        (fun before => pure (before ++ [])) = .ok [] := hread
    simp only [List.append_nil, bind_pure] at hread'
    exact eq_nil_of_mapM hread'
  refine ⟨hnone, ?_⟩
  have hreached := (Nesting.reached_after line.toList)
  refine hreached.eq_or_isOpen.resolve_right fun hopen => ?_
  have hfeed : IsPlain '\n' := by decide
  have hall : "x=1;y=2".toList.all (fun c => decide (IsPlain c)) = true := by decide
  have hplain : ∀ c ∈ "x=1;y=2".toList, IsPlain c :=
    fun c hc => of_decide_eq_true (List.all_eq_true.1 hall c hc)
  have hpieces : topPieces ';' ((Nesting.after {} line.toList).step '\n') "x=1;y=2".toList =
      ("x=1;y=2".toList, []) :=
    topPieces_isOpen (hreached.step _) (hreached.isOpen_step hopen hfeed) hplain
  have hread := (readScript_append h "x=1;y=2").symm.trans (hpassed "x=1;y=2")
  rw [hnone, Statement.linesFrom, hpieces] at hread
  exact absurd hread (by decide +kernel)

/-- A line that holds no assignment when it stands alone, a comment or a blank one, is passed over
whatever follows exactly when all that stands behind its semicolons, those outside quotes and
brackets, is blank or a comment again and no quote and no bracket of it is left open. -/
theorem readScript_line {line : String} (h : '\n' ∉ line.toList)
    (hempty : Statement.isEmptyLine (trim line.toList) = true) :
    ((∀ script, readScript (line ++ "\n" ++ script) = readScript script) ↔
      (∀ piece ∈ (topPieces ';' {} line.toList).2, Statement.isEmptyLine (trim piece) = true) ∧
        Nesting.after {} line.toList = {}) ∧
    (Statement.IsBlankText line.toList →
      ∀ script, readScript (line ++ "\n" ++ script) = readScript script) ∧
    ∀ script, readScript (line ++ "\n" ++ script) = (do
      let before ← (Statement.linesFrom {} line.toList).mapM Statement.ofLine
      let rest ← (Statement.linesFrom ((Nesting.after {} line.toList).step '\n')
        script.toList).mapM Statement.ofLine
      return before ++ rest) := by
  have hnil := Statement.linesFrom_eq_nil_iff h hempty
  refine ⟨⟨fun hpassed => ?_, fun hclosed => ?_⟩, fun hblank => ?_, readScript_append h⟩
  · have hline := passed_readScript h hpassed
    exact ⟨hnil.1 hline.1, hline.2⟩
  · exact readScript_passed h (hnil.2 hclosed.1) hclosed.2
  · have hsep : ';' ∉ line.toList := fun hmem => absurd (hblank _ hmem) (by decide)
    have hpieces := topPieces_start hsep {} []
    rw [List.append_nil] at hpieces
    refine readScript_passed h (hnil.2 ?_) (Nesting.after_plain fun c hc => .of_isBlank (hblank c hc))
    rw [hpieces]
    simp [topPieces]

/-- Parentheses around a semicolon in a comment are closed again: the comment is passed over. -/
theorem readScript_line_bracketed :
    '\n' ∉ "// keep (a; b)".toList ∧
    Statement.isEmptyLine (trim "// keep (a; b)".toList) = true ∧
    (∀ script, readScript ("// keep (a; b)" ++ "\n" ++ script) = readScript script) ∧
    readScript ("// old: x = 1; y = 2" ++ "\n" ++ "z = 3") =
      .ok [⟨"y", "2", false⟩, ⟨"z", "3", false⟩] ∧
    readScript "z = 3" = .ok [⟨"z", "3", false⟩] :=
  ⟨by decide, by decide, (readScript_line (by decide) (by decide)).1.2 (by decide),
    ((readScript_line (by decide) (by decide)).2.2 _).trans (by decide +kernel),
    by decide +kernel⟩

/-- The assignment behind a semicolon of a comment is read, and the apostrophe of a comment keeps the
assignments behind it together. -/
theorem readScript_line_leaks :
    readScript ("// old: x = 1; y = 2" ++ "\n" ++ "z = 3") ≠ readScript "z = 3" ∧
    readScript ("// it's" ++ "\n" ++ "x = 1; y = 2") = .ok [⟨"x", "1; y = 2", false⟩] ∧
    readScript "x = 1; y = 2" = .ok [⟨"x", "1", false⟩, ⟨"y", "2", false⟩] := by
  decide +kernel

end Stencil
