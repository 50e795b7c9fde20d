import Stencil.Text.Blank
import Stencil.Text.Search
import Stencil.Text.Separator

/-!
# Laws of cutting at separators

A scan that counts a separator has nothing open there, so what stands behind the separator is read as
if it stood alone, whatever the quotes and the brackets of the text are like.

* `topPieces_append`: the pieces of a text with another behind it;
* `splitTop_cases`: a text is one piece, or one piece, a separator and the pieces of the rest;
* `splitTop_induction`: the induction that goes with it;
* `splitTop_exact`: the pieces with the separator between them are the text, no piece can be cut, and
  two texts with a separator between them are cut there exactly when the first one leaves nothing
  open.
-/

namespace Stencil.Text

variable {sep : Char} {n : Nesting} {cs ds : List Char}

/-! ## What is open -/

/-- A character that neither opens nor closes anything. -/
def IsPlain (c : Char) : Prop := (isQuoteMark c || isOpening c || isClosing c) = false

instance (c : Char) : Decidable (IsPlain c) := inferInstanceAs (Decidable (_ = false))

theorem IsPlain.of_isBlank {c : Char} (h : isBlank c = true) : IsPlain c := by
  have hne (d : Char) (hd : isBlank d = false) : c ≠ d := by
    rintro rfl
    rw [h] at hd
    cases hd
  have hquotes := And.intro (hne '"' (by decide)) (And.intro (hne '\'' (by decide))
    (hne '\x60' (by decide)))
  have hopenings := And.intro (hne '(' (by decide)) (And.intro (hne '[' (by decide))
    (hne '{' (by decide)))
  have hclosings := And.intro (hne ')' (by decide)) (And.intro (hne ']' (by decide))
    (hne '}' (by decide)))
  simp [IsPlain, isQuoteMark, isOpening, isClosing, hquotes, hopenings, hclosings]

namespace Nesting

@[simp] theorem after_cons (n : Nesting) (c : Char) (cs : List Char) :
    n.after (c :: cs) = (n.step c).after cs := rfl

@[simp] theorem after_append (n : Nesting) (cs ds : List Char) :
    n.after (cs ++ ds) = (n.after cs).after ds := List.foldl_append

theorem step_plain {c : Char} (h : IsPlain c) : ({} : Nesting).step c = {} := by
  simp only [IsPlain, Bool.or_eq_false_iff] at h
  simp [step, h]

/-- Nothing is open. -/
theorem after_plain (h : ∀ c ∈ cs, IsPlain c) : ({} : Nesting).after cs = {} := by
  induction cs with
  | nil => rfl
  | cons c cs ih =>
    rw [List.forall_mem_cons] at h
    rw [after_cons, step_plain h.1, ih h.2]

/-- A quote is open only by a mark. -/
def Proper (n : Nesting) : Prop := ∀ mark, n.quote = some mark → isQuoteMark mark = true

theorem proper_empty : Proper {} := fun _ h => by cases h

theorem Proper.step (h : n.Proper) (c : Char) : (n.step c).Proper := by
  intro mark hmark
  unfold Nesting.step at hmark
  split at hmark
  · next quote hquote =>
    repeat' split at hmark
    all_goals first | exact h mark hmark | cases hmark
  · next hquote =>
    split at hmark
    · next hc =>
      cases hmark
      exact hc
    · repeat' split at hmark
      all_goals exact h mark hmark

/-- What a scan can have open: an escape stands inside a quote, and the quote is a mark. -/
structure Reached (n : Nesting) : Prop where
  proper : n.Proper
  escaped : n.quote = none → n.escaped = false

theorem reached_empty : Reached {} := ⟨proper_empty, fun _ => rfl⟩

theorem Reached.step (h : n.Reached) (c : Char) : (n.step c).Reached := by
  refine ⟨h.proper.step c, fun hquote => ?_⟩
  unfold Nesting.step at hquote ⊢
  split
  · next mark hmark =>
    simp only [hmark] at hquote
    repeat' split at hquote
    all_goals simp_all
  · next hnone =>
    simp only [hnone] at hquote
    repeat' split at hquote
    all_goals simp_all [h.escaped hnone]

theorem Reached.after (h : n.Reached) (cs : List Char) : (n.after cs).Reached := by
  induction cs generalizing n with
  | nil => exact h
  | cons c cs ih => exact ih (h.step c)

theorem reached_after (cs : List Char) : (({} : Nesting).after cs).Reached :=
  Reached.after reached_empty cs

/-- A quote or a bracket is open. -/
def IsOpen (n : Nesting) : Prop := n.quote ≠ none ∨ n.depth ≠ 0

instance (n : Nesting) : Decidable n.IsOpen := inferInstanceAs (Decidable (_ ∨ _))

theorem Reached.eq_or_isOpen (h : n.Reached) : n = {} ∨ n.IsOpen := by
  obtain ⟨quote, escaped, depth⟩ := n
  cases quote with
  | some mark => exact .inr (.inl (by simp))
  | none =>
    obtain rfl : escaped = false := h.escaped rfl
    cases depth with
    | zero => exact .inl rfl
    | succ depth => exact .inr (.inr (by simp))

theorem Reached.eq_empty_iff (h : n.Reached) : n = {} ↔ ¬ n.IsOpen := by
  refine ⟨?_, h.eq_or_isOpen.resolve_right⟩
  rintro rfl
  decide

/-- What is open stays open over plain characters. -/
theorem Reached.isOpen_step (h : n.Reached) (hopen : n.IsOpen) {c : Char} (hc : IsPlain c) :
    (n.step c).IsOpen := by
  simp only [IsPlain, Bool.or_eq_false_iff] at hc
  unfold Nesting.step
  split
  · next mark hmark =>
    have hne : (c == mark) = false := by
      rw [beq_eq_false_iff_ne]
      rintro rfl
      rw [h.proper c hmark] at hc
      exact absurd hc.1.1 (by decide)
    refine .inl ?_
    rw [hne]
    repeat' split
    all_goals simp_all
  · simpa [hc] using hopen

theorem Reached.isOpen_after (h : n.Reached) (hopen : n.IsOpen) (hcs : ∀ c ∈ cs, IsPlain c) :
    (n.after cs).IsOpen := by
  induction cs generalizing n with
  | nil => exact hopen
  | cons c cs ih =>
    rw [List.forall_mem_cons] at hcs
    exact ih (h.step c) (h.isOpen_step hopen hcs.1) hcs.2

theorem IsOpen.separates (h : n.IsOpen) (sep c : Char) : n.separates sep c = false := by
  obtain ⟨quote, escaped, depth⟩ := n
  rcases h with h | h
  · cases quote with
    | none => exact absurd rfl h
    | some mark => simp [Nesting.separates]
  · have hdepth : (depth == 0) = false := by simpa using h
    simp [Nesting.separates, hdepth]

/-- A separator counts where nothing is open. -/
theorem Reached.separates_iff (h : n.Reached) {c : Char} :
    n.separates sep c = true ↔ c = sep ∧ IsPlain sep ∧ n = {} := by
  rw [h.eq_empty_iff]
  constructor
  · intro hsep
    have hclosed : ¬ n.IsOpen := fun hopen => by simp [hopen.separates] at hsep
    simp only [separates, Bool.and_eq_true, beq_iff_eq, Bool.not_eq_true'] at hsep
    exact ⟨hsep.1.2, hsep.1.2 ▸ hsep.2, hclosed⟩
  · rintro ⟨rfl, hplain, hclosed⟩
    have hcount : ({} : Nesting).separates c c = !(isQuoteMark c || isOpening c || isClosing c) := by
      simp [separates]
    rw [h.eq_empty_iff.2 hclosed, hcount, hplain]
    rfl

end Nesting

/-! ## Pieces -/

theorem separates_eq_false {c : Char} (h : c ≠ sep) : n.separates sep c = false := by
  simp [Nesting.separates, h]

theorem topPieces_cons (sep : Char) (n : Nesting) (c : Char) (cs : List Char) :
    topPieces sep n (c :: cs) =
      if n.separates sep c then
        ([], (topPieces sep (n.step c) cs).1 :: (topPieces sep (n.step c) cs).2)
      else (c :: (topPieces sep (n.step c) cs).1, (topPieces sep (n.step c) cs).2) := rfl

theorem mem_of_mem_topPieces {piece : List Char} {c : Char}
    (h : piece ∈ (topPieces sep n cs).1 :: (topPieces sep n cs).2) (hc : c ∈ piece) : c ∈ cs := by
  induction cs generalizing n piece with
  | nil => simp_all [topPieces]
  | cons d cs ih =>
    rw [topPieces_cons] at h
    split at h
    · rcases List.mem_cons.1 h with rfl | h
      · cases hc
      · exact .tail _ (ih h hc)
    · rcases List.mem_cons.1 h with rfl | h
      · rcases List.mem_cons.1 hc with rfl | hc
        · exact .head _
        · exact .tail _ (ih (.head _) hc)
      · exact .tail _ (ih (.tail _ h) hc)

/-- A text without separators is the start of the first piece. -/
theorem topPieces_start (h : sep ∉ cs) (n : Nesting) (ds : List Char) :
    topPieces sep n (cs ++ ds) =
      (cs ++ (topPieces sep (n.after cs) ds).1, (topPieces sep (n.after cs) ds).2) := by
  induction cs generalizing n with
  | nil => rfl
  | cons c cs ih =>
    rw [List.mem_cons, not_or] at h
    rw [List.cons_append, topPieces_cons, separates_eq_false (Ne.symm h.1), ih h.2]
    rfl

/-- The last piece of a text and the first piece of the text behind it are one piece. -/
theorem topPieces_append (sep : Char) (n : Nesting) (cs ds : List Char) :
    ∃ before last, (topPieces sep n cs).1 :: (topPieces sep n cs).2 = before ++ [last] ∧
      (topPieces sep n (cs ++ ds)).1 :: (topPieces sep n (cs ++ ds)).2 =
        before ++ (last ++ (topPieces sep (n.after cs) ds).1) ::
          (topPieces sep (n.after cs) ds).2 := by
  induction cs generalizing n with
  | nil => exact ⟨[], [], rfl, rfl⟩
  | cons c cs ih =>
    obtain ⟨before, last, hcs, hall⟩ := ih (n.step c)
    rw [List.cons_append, topPieces_cons, topPieces_cons]
    by_cases hsep : n.separates sep c = true
    · exact ⟨[] :: before, last, by simp [hsep, hcs], by simp [hsep, hall]⟩
    · simp only [hsep, Bool.false_eq_true, if_false]
      cases before with
      | nil =>
        obtain ⟨hfirst, hothers⟩ := List.cons.inj hcs
        obtain ⟨hfirst', hothers'⟩ := List.cons.inj hall
        exact ⟨[], c :: last, by simp [hfirst, hothers], by simp [hfirst', hothers']⟩
      | cons piece before =>
        obtain ⟨hfirst, hothers⟩ := List.cons.inj hcs
        obtain ⟨hfirst', hothers'⟩ := List.cons.inj hall
        exact ⟨(c :: piece) :: before, last, by simp [hfirst, hothers],
          by simp [hfirst', hothers']⟩

/-- A text of plain characters is one piece where something is open. -/
theorem topPieces_isOpen (hn : n.Reached) (hopen : n.IsOpen) (h : ∀ c ∈ cs, IsPlain c) :
    topPieces sep n cs = (cs, []) := by
  induction cs generalizing n with
  | nil => rfl
  | cons c cs ih =>
    rw [List.forall_mem_cons] at h
    rw [topPieces_cons, hopen.separates, ih (hn.step c) (hn.isOpen_step hopen h.1) h.2]
    rfl

/-- A text is one piece, or its first piece is followed by a separator with nothing open, and behind
that the scan begins anew. -/
theorem topPieces_cases (hn : n.Reached) (sep : Char) (cs : List Char) :
    topPieces sep n cs = (cs, []) ∨
    ∃ first rest, cs = first ++ sep :: rest ∧ IsPlain sep ∧ topPieces sep n first = (first, []) ∧
      n.after first = {} ∧ topPieces sep n cs = (first, splitTop sep rest) := by
  induction cs generalizing n with
  | nil => exact .inl rfl
  | cons c cs ih =>
    rw [topPieces_cons]
    by_cases hsep : n.separates sep c = true
    · -- A separator that counts leaves the scan as it started.
      obtain ⟨rfl, hplain, rfl⟩ := hn.separates_iff.1 hsep
      refine .inr ⟨[], cs, rfl, hplain, rfl, rfl, ?_⟩
      rw [if_pos hsep, Nesting.step_plain hplain]
      rfl
    · rw [if_neg hsep]
      rcases ih (hn.step c) with hone | ⟨first, rest, rfl, hplain, hfirst, hclosed, hcut⟩
      · exact .inl (by rw [hone])
      · refine .inr ⟨c :: first, rest, rfl, hplain, ?_, hclosed, by rw [hcut]⟩
        rw [topPieces_cons, if_neg hsep, hfirst]

/-- The first separator stands behind the first piece. -/
theorem firstFrom?_eq (sep : Char) (n : Nesting) (cs : List Char) :
    firstFrom? sep n cs =
      match topPieces sep n cs with
      | (_, []) => none
      | (first, _ :: _) => some (byteLength first) := by
  induction cs generalizing n with
  | nil => rfl
  | cons c cs ih =>
    rw [firstFrom?, topPieces_cons, ih]
    by_cases hsep : n.separates sep c = true
    · rw [if_pos hsep, if_pos hsep]
      rfl
    · rw [if_neg hsep, if_neg hsep]
      obtain ⟨first, others⟩ := topPieces sep (n.step c) cs
      cases others with
      | nil => rfl
      | cons other others => rfl

/-! ## Splitting -/

theorem splitTop_eq (sep : Char) (cs : List Char) :
    splitTop sep cs = (topPieces sep {} cs).1 :: (topPieces sep {} cs).2 := rfl

/-- A text is one piece, or its first piece is followed by a separator with nothing open. -/
theorem splitTop_cases (sep : Char) (cs : List Char) :
    splitTop sep cs = [cs] ∨
    ∃ first rest, cs = first ++ sep :: rest ∧ IsPlain sep ∧ splitTop sep first = [first] ∧
      Nesting.after {} first = {} ∧ splitTop sep cs = first :: splitTop sep rest := by
  rcases topPieces_cases Nesting.reached_empty sep cs with
    hone | ⟨first, rest, hcs, hplain, hfirst, hclosed, hcut⟩
  · exact .inl (by rw [splitTop_eq, hone])
  · exact .inr ⟨first, rest, hcs, hplain, by rw [splitTop_eq, hfirst], hclosed,
      by rw [splitTop_eq, hcut]⟩

/-- Induction over the pieces of a text. -/
theorem splitTop_induction {motive : List Char → Prop} (sep : Char)
    (one : ∀ cs, splitTop sep cs = [cs] → motive cs)
    (cut : ∀ first rest, IsPlain sep → splitTop sep first = [first] →
      Nesting.after {} first = {} → splitTop sep (first ++ sep :: rest) = first :: splitTop sep rest →
      motive rest → motive (first ++ sep :: rest))
    (cs : List Char) : motive cs := by
  rcases splitTop_cases sep cs with hone | ⟨first, rest, hcs, hplain, hfirst, hclosed, hcut⟩
  · exact one cs hone
  · have hshorter : rest.length < cs.length := by
      rw [hcs, List.length_append, List.length_cons]
      omega
    rw [hcs] at hcut ⊢
    exact cut first rest hplain hfirst hclosed hcut (splitTop_induction sep one cut rest)
termination_by cs.length

/-- The pieces with the separator between them are the text. -/
theorem joinWith_splitTop (sep : Char) (cs : List Char) :
    joinWith [sep] (splitTop sep cs) = cs := by
  induction cs using splitTop_induction sep with
  | one cs hone =>
    rw [hone]
    rfl
  | cut first rest _ _ _ hcut ih =>
    rw [splitTop_eq, joinWith_cons] at ih
    rw [hcut, joinWith_cons, splitTop_eq, List.flatMap_cons, List.append_assoc, ih]
    rfl

/-- No piece can be cut. -/
theorem splitTop_piece {piece : List Char} (h : piece ∈ splitTop sep cs) :
    splitTop sep piece = [piece] := by
  induction cs using splitTop_induction sep with
  | one cs hone =>
    rw [hone, List.mem_singleton] at h
    rw [h, hone]
  | cut first rest _ hfirst _ hcut ih =>
    rw [hcut, List.mem_cons] at h
    rcases h with rfl | h
    · exact hfirst
    · exact ih h

/-- A piece with another one behind it leaves nothing open. -/
theorem pairwise_splitTop (sep : Char) (cs : List Char) :
    (splitTop sep cs).Pairwise fun piece _ => Nesting.after {} piece = {} := by
  induction cs using splitTop_induction sep with
  | one cs hone =>
    rw [hone]
    exact List.pairwise_singleton _ _
  | cut first rest _ _ hclosed hcut ih =>
    rw [hcut]
    exact .cons (fun _ _ => hclosed) ih

/-- Two texts with a separator between them are cut there exactly when the first one leaves nothing
open: otherwise the last piece of the first text goes on. -/
theorem splitTop_append_iff :
    splitTop sep (cs ++ sep :: ds) = splitTop sep cs ++ splitTop sep ds ↔
      IsPlain sep ∧ ¬ (Nesting.after {} cs).IsOpen := by
  -- Both sides agree up to the last piece of the first text, where the separator is met.
  obtain ⟨before, last, hcs, hall⟩ := topPieces_append sep {} cs (sep :: ds)
  have hreached := Nesting.reached_after cs
  rw [← hreached.eq_empty_iff]
  rw [splitTop_eq, hall, splitTop_eq sep cs, hcs, splitTop_eq sep ds, List.append_assoc,
    List.append_cancel_left_eq, topPieces_cons, List.singleton_append]
  constructor
  · intro hcut
    by_cases hsep : (Nesting.after {} cs).separates sep sep = true
    · exact (hreached.separates_iff.1 hsep).2
    · rw [if_neg hsep] at hcut
      exact absurd (List.cons.inj hcut).1 (by simp)
  · rintro ⟨hplain, hclosed⟩
    rw [hclosed, if_pos (Nesting.reached_empty.separates_iff.2 ⟨rfl, hplain, rfl⟩),
      Nesting.step_plain hplain, List.append_nil]

theorem splitTop_append (hsep : IsPlain sep) (hclosed : Nesting.after {} cs = {})
    (ds : List Char) : splitTop sep (cs ++ sep :: ds) = splitTop sep cs ++ splitTop sep ds :=
  splitTop_append_iff.2 ⟨hsep, (Nesting.reached_after cs).eq_empty_iff.1 hclosed⟩

/-- A text is one piece when no separator stands in it with nothing open. -/
theorem splitTop_eq_singleton_iff :
    splitTop sep cs = [cs] ↔
      ∀ first rest, cs = first ++ sep :: rest → IsPlain sep → Nesting.after {} first ≠ {} := by
  constructor
  · rintro hone first rest rfl hplain hclosed
    have hlength := congrArg List.length hone
    rw [splitTop_append hplain hclosed, splitTop_eq sep first, splitTop_eq sep rest] at hlength
    simp at hlength
  · intro hnone
    refine (splitTop_cases sep cs).resolve_right ?_
    rintro ⟨first, rest, hcs, hplain, -, hclosed, -⟩
    exact hnone first rest hcs hplain hclosed

/-- Texts that cannot be cut, and of which only the last one may leave something open, are the pieces
of what they are put together to. -/
theorem splitTop_joinWith {pieces : List (List Char)} (hsep : IsPlain sep) (hne : pieces ≠ [])
    (hone : ∀ piece ∈ pieces, splitTop sep piece = [piece])
    (hclosed : pieces.Pairwise fun piece _ => Nesting.after {} piece = {}) :
    splitTop sep (joinWith [sep] pieces) = pieces := by
  induction pieces with
  | nil => exact absurd rfl hne
  | cons piece pieces ih =>
    rw [List.forall_mem_cons] at hone
    cases pieces with
    | nil => exact hone.1
    | cons next pieces =>
      rw [List.pairwise_cons] at hclosed
      have hjoin : joinWith [sep] (piece :: next :: pieces) =
          piece ++ sep :: joinWith [sep] (next :: pieces) := by
        simp [joinWith]
      rw [hjoin, splitTop_append hsep (hclosed.1 next (.head _)), hone.1,
        ih (List.cons_ne_nil _ _) hone.2 hclosed.2, List.singleton_append]

/-! ## Cutting -/

theorem cutTop?_eq (sep : Char) (cs : List Char) :
    cutTop? sep cs =
      match splitTop sep cs with
      | first :: _ :: _ => some (first, cs.drop (first.length + 1))
      | _ => none := by
  rw [cutTop?, splitTop_eq]
  obtain ⟨first, others⟩ := topPieces sep {} cs
  cases others with
  | nil => rfl
  | cons other others => rfl

theorem cutTop?_of_one (h : splitTop sep cs = [cs]) : cutTop? sep cs = none := by
  rw [cutTop?_eq, h]

/-- A text is cut behind its first piece. -/
theorem cutTop?_append {first : List Char} (hsep : IsPlain sep) (hone : splitTop sep first = [first])
    (hclosed : Nesting.after {} first = {}) (rest : List Char) :
    cutTop? sep (first ++ sep :: rest) = some (first, rest) := by
  rw [cutTop?_eq, splitTop_append hsep hclosed, hone, splitTop_eq sep rest]
  simp

/-- A text that is one piece is not cut, and any other one is cut behind its first piece. -/
theorem cutTop?_cases (sep : Char) (cs : List Char) :
    splitTop sep cs = [cs] ∧ cutTop? sep cs = none ∨
    ∃ first rest, cs = first ++ sep :: rest ∧ splitTop sep first = [first] ∧
      Nesting.after {} first = {} ∧ cutTop? sep cs = some (first, rest) := by
  rcases splitTop_cases sep cs with hone | ⟨first, rest, rfl, hplain, hfirst, hclosed, -⟩
  · exact .inl ⟨hone, cutTop?_of_one hone⟩
  · exact .inr ⟨first, rest, rfl, hfirst, hclosed, cutTop?_append hplain hfirst hclosed rest⟩

/-- The first separator stands behind the first piece. -/
theorem firstTop?_eq (sep : Char) (cs : List Char) :
    firstTop? sep cs =
      match splitTop sep cs with
      | first :: _ :: _ => some (byteLength first)
      | _ => none := by
  rw [firstTop?, firstFrom?_eq, splitTop_eq]
  obtain ⟨first, others⟩ := topPieces sep {} cs
  cases others with
  | nil => rfl
  | cons other others => rfl

/-- The pieces of a text between the separators outside quotes and brackets, with the separator
between them, are the text. None of them can be cut again. The first separator stands behind the
first of several pieces. With a separator behind it and another text behind that, a text is cut there,
and both keep their own pieces, exactly when the separator is no quote and no bracket and the text
leaves no quote and no bracket open. -/
theorem splitTop_exact (sep : Char) (cs : List Char) :
    joinWith [sep] (splitTop sep cs) = cs ∧
    (∀ piece ∈ splitTop sep cs, splitTop sep piece = [piece]) ∧
    (firstTop? sep cs =
      match splitTop sep cs with
      | first :: _ :: _ => some (byteLength first)
      | _ => none) ∧
    ∀ ds, splitTop sep (cs ++ sep :: ds) = splitTop sep cs ++ splitTop sep ds ↔
      IsPlain sep ∧ ¬ (Nesting.after {} cs).IsOpen :=
  ⟨joinWith_splitTop sep cs, fun _ => splitTop_piece, firstTop?_eq sep cs,
    fun _ => splitTop_append_iff⟩

/-- A text with a bracket too many, an escaped quote, and a bracket that stays open. -/
theorem splitTop_exact_unclosed :
    "(e,f".toList ∈ splitTop ',' "é),'a,\\'b',[c,d],(e,f".toList ∧
    splitTop ',' "(e,f".toList = ["(e,f".toList] ∧
    firstTop? ',' "é),'a,\\'b',[c,d],(e,f".toList = some 3 ∧
    splitTop ',' ("é),'a,\\'b',[c,d]".toList ++ ',' :: "(e,f".toList) =
      ["é)".toList, "'a,\\'b'".toList, "[c,d]".toList, "(e,f".toList] ∧
    splitTop ',' ("(e,f".toList ++ ',' :: "g".toList) ≠
      splitTop ',' "(e,f".toList ++ splitTop ',' "g".toList := by
  have hall := splitTop_exact ',' "é),'a,\\'b',[c,d],(e,f".toList
  have hmem : "(e,f".toList ∈ splitTop ',' "é),'a,\\'b',[c,d],(e,f".toList := by decide
  refine ⟨hmem, hall.2.1 _ hmem, hall.2.2.1.trans (by decide), ?_, ?_⟩
  · exact (((splitTop_exact ',' _).2.2.2 _).2 (by decide)).trans (by decide)
  · exact mt ((splitTop_exact ',' _).2.2.2 _).1 (by decide)

end Stencil.Text
