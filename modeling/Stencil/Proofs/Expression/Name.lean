import Mathlib.Data.List.Infix
import Stencil.Proofs.Expression.Path

/-!
# Names of variables as expressions

A template may bind a name with dollar signs. In an expression, a dollar sign that does not follow a
letter, a digit or an underscore is written out, and what the expression reads is named by taking one
such writing back. The two are inverse only on some names.

* `read_word`, `read_word_dollar`: a word by itself is a variable, and a dollar sign behind it is a
  fault.
* `NameParts.read`, `NameParts.read_inner`: so a name is read as a variable unless a dollar sign
  stands behind another character.
* `templateName_hideDollars`: the variable read is the name itself for the names that come back, and
  one of those names for all others.
-/

namespace Stencil

open Text

namespace Expression

/-! ## A word by itself -/

/-- Symbols that continue no expression. -/
def Stops (ss : List Symbol) : Prop := ss = [] ∨ ∃ f, ss = [.fault f]

section

variable {r : Reader Expression} {e : Expression} {ss before : List Symbol}

theorem Stops.chain (h : Stops ss)
    {combine? : Symbol → Option (Expression → Expression → Expression)}
    (hfault : ∀ f, combine? (.fault f) = none) (n : Nat) :
    chain combine? r n e ss = .ok (e, ss) := by
  rcases h with rfl | ⟨f, rfl⟩
  · cases n <;> rfl
  · cases n with
    | zero => rfl
    | succ n => rw [Expression.chain, hfault]

theorem Stops.level (h : Stops ss)
    {combine? : Symbol → Option (Expression → Expression → Expression)}
    (hfault : ∀ f, combine? (.fault f) = none) (hr : r before = .ok (e, ss)) :
    level combine? r before = .ok (e, ss) := by
  rw [Expression.level, hr]
  exact h.chain hfault _

theorem Stops.arithmetic (h : Stops ss) (hr : r before = .ok (e, ss)) :
    arithmetic r before = .ok (e, ss) :=
  h.level (fun _ => rfl) <| h.level (fun _ => rfl) <| h.level (fun _ => rfl) <|
    h.level (fun _ => rfl) hr

theorem Stops.comparisons (h : Stops ss) (hr : r before = .ok (e, ss)) :
    comparisons r before = .ok (e, ss) := by
  have hlinks (n : Nat) : links r n ss = .ok ([], ss) := by
    rcases h with rfl | ⟨f, rfl⟩ <;> cases n <;> rfl
  rw [Expression.comparisons, hr]
  show (links r ss.length ss >>= _) = _
  rw [hlinks]
  rfl

theorem negations_of_ne {word : String} (hword : word ≠ "not") :
    negations r (.name word :: ss) = r (.name word :: ss) := by
  unfold negations
  split
  · next h => exact absurd (by injection h with h _; injection h) hword
  · rfl

theorem Stops.unconditional (h : Stops ss) {word : String} (hword : word ≠ "not")
    (hr : r (.name word :: ss) = .ok (e, ss)) :
    unconditional r (.name word :: ss) = .ok (e, ss) := by
  refine h.level (fun _ => rfl) (h.level (fun _ => rfl) ?_)
  rw [negations_of_ne hword]
  exact h.comparisons (h.arithmetic hr)

theorem Stops.operandOf (h : Stops ss) (inner expr plain : Reader Expression) {word : String}
    (hr : primary inner (.name word :: ss) = .ok (e, ss)) :
    operandOf inner expr plain (.name word :: ss) = .ok (e, ss) := by
  have haccesses (n : Nat) : accesses expr plain n e ss = .ok (e, ss) := by
    rcases h with rfl | ⟨f, rfl⟩ <;> cases n <;> rfl
  have hpipes (accessed : Reader Expression) (n : Nat) :
      pipes expr plain accessed n e ss = .ok (e, ss) := by
    rcases h with rfl | ⟨f, rfl⟩ <;> cases n <;> rfl
  have hsigned : signed (primary inner) (.name word :: ss) = .ok (e, ss) := hr
  rw [Expression.operandOf]
  simp only [hsigned, ok_bind, haccesses, hpipes]

/-- A word without a meaning of its own is read as an expression, whatever stops behind it. -/
theorem Stops.expressionAt (h : Stops ss) {word : String} (hword : word ≠ "not")
    (hr : ∀ inner, primary inner (.name word :: ss) = .ok (e, ss)) :
    expressionAt maxNesting (.name word :: ss) = .ok (e, ss) := by
  have hconditionals (operand : Reader Expression) (n : Nat) :
      conditionals operand n e ss = .ok (e, ss) := by
    rcases h with rfl | ⟨f, rfl⟩ <;> cases n <;> rfl
  have hoperand := h.unconditional hword (h.operandOf (Expression.expressionAt 148)
    (Expression.expressionAt 149) (plainAt 149) (hr _))
  show (Expression.unconditional _ _ >>= _) = _
  rw [hoperand]
  exact hconditionals _ _

end

theorem symbols_word {word rest : List Char} (hident : isIdentifier word = true)
    (hrest : ∀ c ∈ rest.head?, inSymbolName c = false) :
    symbols (.ofList (word ++ rest)) =
      .name (.ofList word) :: symbolsFrom (word.length - 1 + rest.length) rest := by
  have hlength : (word ++ rest).length = word.length - 1 + rest.length + 1 := by
    cases word with
    | nil => cases hident
    | cons c cs => simp
  rw [symbols, String.toList_ofList, hlength, symbolsFrom_ident hident hrest]

/-- A word that is no literal is read as a variable. -/
theorem read_word {word : List Char} (hident : isIdentifier word = true)
    (hliteral : literalWord? (.ofList word) = none) (hnot : String.ofList word ≠ "not") :
    read (.ofList word) = .ok (.var (.ofList word)) := by
  have hnil (n : Nat) : symbolsFrom n [] = [] := by cases n <;> rfl
  have hsymbols : symbols (.ofList (word ++ [])) = [.name (.ofList word)] := by
    rw [symbols_word hident (fun _ hc => by cases hc), hnil]
  rw [List.append_nil] at hsymbols
  have hprimary (inner : Reader Expression) : primary inner [.name (.ofList word)] =
      .ok (.var (.ofList word), []) := by
    simp only [primary, hliteral]
  rw [read, hsymbols, Stops.expressionAt (.inl rfl) hnot hprimary]
  rfl

/-- A dollar sign starts no symbol. -/
theorem symbolsFrom_dollar (n : Nat) (rest : List Char) :
    symbolsFrom (n + 1) ('$' :: rest) = [.fault .badSyntax] := by
  have hdouble : rest.head?.bind (doubleMark? '$') = none := by cases rest <;> rfl
  have hgap : isGap '$' = false := rfl
  simp [symbolsFrom, hgap, symbolOf, hdouble, singleMark?, isAsciiDigit, startsSymbolName,
    isAsciiLetter]

/-- A dollar sign behind a word is a fault, whatever the word means. -/
theorem read_word_dollar {word : List Char} (hident : isIdentifier word = true)
    (rest : List Char) : read (.ofList (word ++ '$' :: rest)) = .error .badSyntax := by
  have hsymbols : symbols (.ofList (word ++ '$' :: rest)) =
      [.name (.ofList word), .fault .badSyntax] := by
    rw [symbols_word hident fun c hc => by cases hc; rfl]
    exact congrArg _ (symbolsFrom_dollar _ rest)
  have hstops : Stops [.fault .badSyntax] := .inr ⟨_, rfl⟩
  rw [read, hsymbols]
  by_cases hnot : String.ofList word = "not"
  · rw [hnot]
    rfl
  · obtain ⟨e, he⟩ : ∃ e, ∀ inner : Reader Expression,
        primary inner [.name (.ofList word), .fault .badSyntax] = .ok (e, [.fault .badSyntax]) := by
      cases hliteral : literalWord? (.ofList word) with
      | none => exact ⟨.var (.ofList word), fun inner => by simp only [primary, hliteral]⟩
      | some v => exact ⟨.literal v, fun inner => by simp only [primary, hliteral]⟩
    rw [hstops.expressionAt hnot he]
    rfl

end Expression

/-! ## Names with dollar signs -/

/-- As many dollar signs written out, with a text behind. -/
def writtenOut (count : Nat) (cs : List Char) : List Char :=
  (List.replicate count dollarSign).flatten ++ cs

theorem writtenOut_succ (count : Nat) (cs : List Char) :
    writtenOut (count + 1) cs = dollarSign ++ writtenOut count cs := by
  simp [writtenOut, List.replicate_succ]

/-- Dollar signs in front are all written out. -/
theorem hideDollarsFrom_front (count : Nat) (cs : List Char) :
    hideDollarsFrom {} (List.replicate count '$' ++ cs) =
      writtenOut count (hideDollarsFrom {} cs) := by
  induction count with
  | zero => rfl
  | succ count ih =>
    have hstep : ({} : DollarScan).step '$' = {} := rfl
    rw [List.replicate_succ, List.cons_append, hideDollarsFrom, hstep, ih, writtenOut_succ]
    rfl

theorem inSymbolName_writtenOut {cs : List Char} (h : ∀ c ∈ cs, inSymbolName c = true)
    (count : Nat) : ∀ c ∈ writtenOut count cs, inSymbolName c = true := by
  have hdollar : ∀ c ∈ dollarSign, inSymbolName c = true := List.all_eq_true.1 (by decide)
  induction count with
  | zero => exact h
  | succ count ih =>
    rw [writtenOut_succ, List.forall_mem_append]
    exact ⟨hdollar, ih⟩

/-- Dollar signs written out in front of a word make a name of the expression language. -/
theorem isIdentifier_writtenOut {count : Nat} {cs : List Char}
    (h : ∀ c ∈ cs, inSymbolName c = true)
    (hstarts : count = 0 → ∃ c ds, cs = c :: ds ∧ startsSymbolName c = true) :
    isIdentifier (writtenOut count cs) = true := by
  have hall := inSymbolName_writtenOut h count
  cases hwritten : writtenOut count cs with
  | nil =>
    cases count with
    | zero =>
      obtain ⟨c, ds, rfl, -⟩ := hstarts rfl
      cases hwritten
    | succ count => cases hwritten
  | cons d ds =>
    rw [hwritten, List.forall_mem_cons] at hall
    rw [isIdentifier, Bool.and_eq_true, List.all_eq_true]
    refine ⟨?_, hall.2⟩
    cases count with
    | zero =>
      obtain ⟨c, ds', rfl, hc⟩ := hstarts rfl
      cases hwritten
      exact hc
    | succ count =>
      cases hwritten
      rfl

theorem toNat_symbolName {c : Char} (h : inSymbolName c = true) : c.toNat < 128 := by
  have hbounds := (pathPart_bounds (c := c) (by simp [isPathPart, h])).2
  exact Nat.lt_of_le_of_lt hbounds (by decide)

/-- A name could go on behind a character of a symbol. -/
theorem step_symbolName {s : DollarScan} (hs : s.quote = none) {c : Char}
    (h : inSymbolName c = true) : s.step c = { s with inName := true } := by
  have hname : (isAlphanumeric c || c == '_') = true := by
    have hlt := toNat_symbolName h
    simp only [inSymbolName, startsSymbolName, Bool.or_eq_true] at h
    simp only [isAlphanumeric, isAlphabetic, hlt, if_true, Bool.or_eq_true]
    tauto
  have hquote : (c == '"' || c == '\'') = false := by
    rw [Bool.or_eq_false_iff, beq_eq_false_iff_ne, beq_eq_false_iff_ne]
    constructor <;> rintro rfl <;> exact absurd h (by decide)
  simp only [DollarScan.step, hs, hquote, hname, Bool.false_eq_true, if_false]

/-- The dollar sign behind a name stays. -/
theorem hideDollarsFrom_inner {s : DollarScan} (hs : s.quote = none) {word : List Char}
    (hword : ∀ c ∈ word, inSymbolName c = true) (hname : word = [] → s.inName = true)
    (rest : List Char) :
    ∃ more, hideDollarsFrom s (word ++ '$' :: rest) = word ++ '$' :: more := by
  induction word generalizing s with
  | nil =>
    have hkeeps : ('$' == '$' && s.quote.isNone && !s.inName) = false := by simp [hname rfl]
    exact ⟨hideDollarsFrom (s.step '$') rest, by rw [List.nil_append, hideDollarsFrom, hkeeps]; rfl⟩
  | cons c word ih =>
    rw [List.forall_mem_cons] at hword
    have hstep := step_symbolName hs hword.1
    obtain ⟨more, hmore⟩ := ih (s := s.step c) (by rw [hstep]; exact hs) hword.2
      (fun _ => by rw [hstep])
    have hne : (c == '$') = false := by
      rw [beq_eq_false_iff_ne]
      rintro rfl
      exact absurd hword.1 (by decide)
    exact ⟨more, by rw [List.cons_append, hideDollarsFrom, hmore, hne]; rfl⟩

/-- A dollar sign stands behind another character. -/
def HasInnerDollar (name : String) : Prop := '$' ∈ name.toList.dropWhile (· == '$')

instance (name : String) : Decidable (HasInnerDollar name) := inferInstanceAs (Decidable (_ ∈ _))

/-- The dollar signs in front of a name and what is behind them. -/
structure NameParts (name : String) (count : Nat) (word : List Char) : Prop where
  spelled : name.toList = List.replicate count '$' ++ word
  inner : '$' ∈ word ↔ HasInnerDollar name
  head : word.head? ≠ some '$'
  parts : ∀ c ∈ word, c ≠ '$' → inSymbolName c = true
  starts : count = 0 → ∃ c cs, word = c :: cs ∧ startsSymbolName c = true

theorem dropWhile_dollars (cs : List Char) :
    ∃ count, cs = List.replicate count '$' ++ cs.dropWhile (· == '$') := by
  induction cs with
  | nil => exact ⟨0, rfl⟩
  | cons c cs ih =>
    by_cases hc : c = '$'
    · obtain ⟨count, hcount⟩ := ih
      refine ⟨count + 1, ?_⟩
      rw [hc, List.replicate_succ, List.cons_append, List.dropWhile_cons_of_pos (by rfl), ← hcount]
    · exact ⟨0, by simp [hc]⟩

/-- Of the characters that start a name, only the dollar sign starts no symbol. -/
theorem startsSymbolName_of_isNameStart {c : Char} (h : isNameStart c = true) (hne : c ≠ '$') :
    startsSymbolName c = true := by
  simp only [isNameStart, Bool.or_eq_true, beq_iff_eq] at h
  simp only [startsSymbolName, Bool.or_eq_true, beq_iff_eq]
  obtain (hc | hc) | hc := h
  · exact absurd hc hne
  · exact .inr hc
  · exact .inl hc

theorem NameParts.exists {name : String} (h : isVariableName name = true) :
    ∃ count word, NameParts name count word := by
  obtain ⟨count, hcount⟩ := dropWhile_dollars name.toList
  simp only [isVariableName, Bool.and_eq_true, List.all_eq_true] at h
  obtain ⟨⟨hstarts, hall⟩, -⟩ := h
  have hhead : (name.toList.dropWhile (· == '$')).head? ≠ some '$' := by
    intro hsome
    have := List.head?_dropWhile_not (· == '$') name.toList
    rw [hsome] at this
    exact absurd this (by decide)
  have hpart {c : Char} (hc : isNamePart c = true) (hne : c ≠ '$') : inSymbolName c = true := by
    rw [isNamePart, Bool.or_eq_true] at hc
    rw [inSymbolName, Bool.or_eq_true]
    exact hc.imp_left (startsSymbolName_of_isNameStart · hne)
  refine ⟨count, _, hcount, Iff.rfl, hhead, ?_, ?_⟩
  · exact fun c hc hne => hpart (hall c (List.dropWhile_subset _ hc)) hne
  · rintro rfl
    rw [List.replicate_zero, List.nil_append] at hcount
    rw [← hcount] at hhead ⊢
    rw [startsLikeName] at hstarts
    cases hname : name.toList with
    | nil => rw [hname] at hstarts; cases hstarts
    | cons c cs =>
      rw [hname] at hstarts hhead
      have hne : c ≠ '$' := fun hc => hhead (by rw [hc]; rfl)
      exact ⟨c, cs, rfl, startsSymbolName_of_isNameStart hstarts hne⟩

namespace NameParts

variable {name : String} {count : Nat} {word : List Char}

theorem hideDollars_eq (h : NameParts name count word) (hinner : ¬ HasInnerDollar name) :
    hideDollars name = .ofList (writtenOut count word) := by
  rw [hideDollars, h.spelled, hideDollarsFrom_front,
    hideDollarsFrom_of_not_mem _ (mt h.inner.1 hinner)]

/-- Words with a meaning of their own are reserved, and none of them starts like a dollar sign that is
written out. -/
theorem reserved_of_meaning {word : String}
    (h : Expression.literalWord? word ≠ none ∨ word = "not") :
    word ∈ reservedWords ∧ word.toList.head? ≠ some '_' := by
  have hcases : word ∈ ["true", "True", "false", "False", "none", "None", "not"] := by
    unfold Expression.literalWord? at h
    rcases h with h | rfl
    · repeat' split at h
      all_goals simp_all
      all_goals tauto
    · decide
  clear h
  revert word
  decide

/-- The expression of a name without inner dollar signs is a variable. -/
theorem read (h : NameParts name count word) (hname : isVariableName name = true)
    (hinner : ¬ HasInnerDollar name) :
    Expression.read (.ofList (writtenOut count word)) =
      .ok (.var (.ofList (writtenOut count word))) := by
  have hword : ∀ c ∈ word, inSymbolName c = true := fun c hc =>
    h.parts c hc (by rintro rfl; exact hinner (h.inner.1 hc))
  have hmeaning : ¬ (Expression.literalWord? (.ofList (writtenOut count word)) ≠ none ∨
      String.ofList (writtenOut count word) = "not") := by
    intro hmeaning
    obtain ⟨hreserved, hhead⟩ := reserved_of_meaning hmeaning
    cases count with
    | zero =>
      have hsame : String.ofList (writtenOut 0 word) = name := by
        rw [← String.ofList_toList (s := name), h.spelled]
        rfl
      rw [hsame] at hreserved
      simp [isVariableName, hreserved] at hname
    | succ count => exact hhead (by rw [String.toList_ofList]; rfl)
  rw [not_or, not_not] at hmeaning
  exact Expression.read_word (isIdentifier_writtenOut hword h.starts) hmeaning.1 hmeaning.2

/-- With an inner dollar sign it is none. -/
theorem read_inner (h : NameParts name count word) (hinner : HasInnerDollar name) :
    Expression.read (hideDollars name) = .error .badSyntax := by
  obtain ⟨front, rest, rfl, hfront⟩ := List.eq_append_cons_of_mem (h.inner.2 hinner)
  have hne : front ≠ [] := by
    rintro rfl
    exact h.head rfl
  have hword : ∀ c ∈ front, inSymbolName c = true := fun c hc =>
    h.parts c (List.mem_append_left _ hc) (by rintro rfl; exact hfront hc)
  have hstarts : count = 0 → ∃ c ds, front = c :: ds ∧ startsSymbolName c = true := by
    intro hcount
    obtain ⟨c, cs, hcs, hc⟩ := h.starts hcount
    obtain ⟨d, ds, rfl⟩ := List.exists_cons_of_ne_nil hne
    obtain ⟨rfl, -⟩ := List.cons.inj hcs
    exact ⟨d, ds, rfl, hc⟩
  obtain ⟨more, hmore⟩ := hideDollarsFrom_inner (s := {}) rfl hword (absurd · hne) rest
  have hwritten : hideDollars name = .ofList (writtenOut count front ++ '$' :: more) := by
    rw [hideDollars, h.spelled, hideDollarsFrom_front, hmore, writtenOut, writtenOut,
      List.append_assoc]
  rw [hwritten]
  exact Expression.read_word_dollar (isIdentifier_writtenOut hword hstarts) more

end NameParts

/-! ## Names that come back -/

/-- The expression of the name reads the variable of that name: a dollar sign stands only in front,
and the name does not start like a dollar sign that is written out. -/
def ComesBack (name : String) : Prop := '$' ∉ name.toList.tail ∧ ¬ dollarSign <+: name.toList

instance (name : String) : Decidable (ComesBack name) := inferInstanceAs (Decidable (_ ∧ _))

theorem ComesBack.not_hasInnerDollar {name : String} (h : ComesBack name) :
    ¬ HasInnerDollar name := by
  intro hinner
  unfold HasInnerDollar at hinner
  cases hname : name.toList with
  | nil => simp [hname] at hinner
  | cons c cs =>
    have htail := h.1
    rw [hname] at hinner htail
    by_cases hc : c = '$'
    · rw [hc, List.dropWhile_cons_of_pos (by rfl)] at hinner
      exact htail (List.dropWhile_subset _ hinner)
    · rw [List.dropWhile_cons_of_neg (by simpa using hc)] at hinner
      rcases List.mem_cons.1 hinner with heq | hmem
      · exact hc heq.symm
      · exact htail hmem

theorem dollarSign_eq : dollarSign = '_' :: "_dollar_".toList := by decide

theorem templateName_append (cs : List Char) :
    templateName (.ofList (dollarSign ++ cs)) = .ofList ('$' :: cs) := by
  rw [templateName, String.toList_ofList, after?, if_pos (by simp), List.drop_left]

/-- A dollar sign and characters of a name make a name that comes back. -/
theorem comesBack_dollar {cs : List Char} (h : ∀ c ∈ cs, inSymbolName c = true) :
    isVariableName (.ofList ('$' :: cs)) = true ∧ ComesBack (.ofList ('$' :: cs)) := by
  have hreserved : String.ofList ('$' :: cs) ∉ reservedWords := by
    have hheads : ∀ w ∈ reservedWords, w.toList.head? ≠ some '$' := by decide
    exact fun hmem => hheads _ hmem (by rw [String.toList_ofList]; rfl)
  have hparts : ∀ c ∈ '$' :: cs, isNamePart c = true :=
    List.forall_mem_cons.2 ⟨by decide, fun c hc => isNamePart_symbol (h c hc)⟩
  constructor
  · rw [isVariableName, Bool.and_eq_true, Bool.and_eq_true, startsLikeName, String.toList_ofList]
    exact ⟨⟨rfl, List.all_eq_true.2 hparts⟩, by simpa using hreserved⟩
  · rw [ComesBack, String.toList_ofList]
    refine ⟨fun hmem => absurd (h _ hmem) (by decide), fun hprefix => ?_⟩
    exact absurd (List.cons_prefix_cons.1 hprefix).1 (by decide)

/-- The variable that the expression of a name reads: the name itself when it comes back, and
otherwise another name, which does. -/
theorem templateName_hideDollars {name : String} (h : isVariableName name = true)
    (hinner : ¬ HasInnerDollar name) :
    (ComesBack name ∧ templateName (hideDollars name) = name) ∨
      ¬ ComesBack name ∧ templateName (hideDollars name) ≠ name ∧
        isVariableName (templateName (hideDollars name)) = true ∧
        ComesBack (templateName (hideDollars name)) := by
  obtain ⟨count, word, hparts⟩ := NameParts.exists h
  have hplain : '$' ∉ word := mt hparts.inner.1 hinner
  have hword : ∀ c ∈ word, inSymbolName c = true := fun c hc =>
    hparts.parts c hc (by rintro rfl; exact hplain hc)
  have hspelled := hparts.spelled
  rw [hparts.hideDollars_eq hinner]
  obtain rfl : name = .ofList (List.replicate count '$' ++ word) := by
    rw [← hspelled, String.ofList_toList]
  match count with
  | 0 =>
    have hfront : '$' ∉ word.tail := fun hmem => hplain (List.mem_of_mem_tail hmem)
    by_cases hstart : dollarSign <+: word
    · obtain ⟨rest, rfl⟩ := hstart
      rw [List.forall_mem_append] at hword
      refine .inr ⟨fun hback => hback.2 (by simp), ?_⟩
      rw [show writtenOut 0 (dollarSign ++ rest) = dollarSign ++ rest from rfl, templateName_append]
      refine ⟨fun heq => ?_, comesBack_dollar hword.2⟩
      have heads := congrArg List.head? (String.ofList_injective heq)
      rw [dollarSign_eq] at heads
      cases heads
    · refine .inl ⟨⟨by simpa using hfront, by simpa using hstart⟩, ?_⟩
      have hafter : after? dollarSign word = none := by
        rw [after?, if_neg (by simpa using hstart)]
      have hwritten : writtenOut 0 word = word := rfl
      simp only [templateName, hwritten, String.toList_ofList, hafter, List.replicate_zero,
        List.nil_append]
  | 1 =>
    rw [writtenOut_succ, templateName_append]
    exact .inl ⟨(comesBack_dollar hword).2, rfl⟩
  | count + 2 =>
    rw [writtenOut_succ, templateName_append]
    refine .inr ⟨fun hback => hback.1 ?_, fun heq => ?_,
      comesBack_dollar (inSymbolName_writtenOut hword (count + 1))⟩
    · rw [String.toList_ofList]
      exact .head _
    · have heads := congrArg (List.head? ∘ List.tail) (String.ofList_injective heq)
      rw [writtenOut_succ, dollarSign_eq] at heads
      cases heads

/-! ## What the expression of a name reads -/

/-- Evaluating the text succeeds, and of all names it looks up one. -/
structure ReadsJust (text name : String) : Prop where
  names : ∃ e, Expression.ofTemplate text = .ok e ∧ e.templateNames.toList = [name]
  checked : Evaluator.standard.check text = .ok ()
  value : ∀ lookup : String → Option Value,
    Evaluator.standard.evaluate text lookup = .ok ((lookup name).getD .undefined)

theorem readsJust_name {name : String} (h : isVariableName name = true)
    (hinner : ¬ HasInnerDollar name) : ReadsJust name (templateName (hideDollars name)) := by
  obtain ⟨count, word, hparts⟩ := NameParts.exists h
  have hread : Expression.ofTemplate name = .ok (.var (hideDollars name)) := by
    rw [Expression.ofTemplate, hparts.hideDollars_eq hinner]
    exact hparts.read h hinner
  refine ⟨⟨_, hread, rfl⟩, ?_, fun lookup => ?_⟩
  · simp only [Evaluator.standard, hread]
    rfl
  · have hknown : hideDollars name ∈ (Expression.var (hideDollars name)).freeNames :=
      NameSet.mem_insert.2 (.inl rfl)
    rw [evaluate_standard, hread, Expression.ok_bind]
    simp only [Expression.evaluateIn, Expression.evaluate, hknown, if_true]
    rfl

/-- A name that comes back reads itself. -/
theorem ComesBack.readsJust {name : String} (hcomes : ComesBack name)
    (h : isVariableName name = true) : ReadsJust name name := by
  have hreads := readsJust_name h hcomes.not_hasInnerDollar
  rcases templateName_hideDollars h hcomes.not_hasInnerDollar with ⟨-, heq⟩ | ⟨hnot, -⟩
  · rwa [heq] at hreads
  · exact absurd hcomes hnot

/-- Reading just one name determines it. -/
theorem ReadsJust.unique {text name name' : String} (h : ReadsJust text name)
    (h' : ReadsJust text name') : name = name' := by
  obtain ⟨e, he, hnames⟩ := h.names
  obtain ⟨e', he', hnames'⟩ := h'.names
  obtain rfl := Except.ok.inj (he.symm.trans he')
  exact List.singleton_inj.1 (hnames.symm.trans hnames')

/-- The expression of a name with an inner dollar sign is refused. -/
theorem evaluate_inner {name : String} (h : isVariableName name = true)
    (hinner : HasInnerDollar name) :
    Evaluator.standard.check name = .error "syntax error" ∧
      ∀ lookup, Evaluator.standard.evaluate name lookup = .error "syntax error" := by
  obtain ⟨count, word, hparts⟩ := NameParts.exists h
  have hread : Expression.ofTemplate name = .error .badSyntax := hparts.read_inner hinner
  refine ⟨?_, fun lookup => ?_⟩
  · simp only [Evaluator.standard, hread]
    rfl
  · rw [evaluate_standard, hread]
    rfl

end Stencil
