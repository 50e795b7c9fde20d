import Mathlib.Data.List.TakeDrop
import Mathlib.Data.List.TakeWhile
import Stencil.Evaluator
import Stencil.Variable

/-!
# Dotted paths

A dotted path is names with points between them. The expression language reads it as accesses to
members of the first name, so that its value depends on that variable alone.

* `symbolsFrom_path`: how a path is cut into symbols.
* `Consumes`: the operators that may follow an operand find nothing behind a path.
* `evaluate_path`: two lookups that agree on the head of a path give it the same value.
-/

namespace Stencil

open Text

/-! ## Paths -/

/-- A name of the expression language. -/
def isIdentifier : List Char → Bool
  | [] => false
  | c :: cs => startsSymbolName c && cs.all inSymbolName

/-- Names with points between them; the first name is the head. -/
inductive DottedPath : List Char → List Char → Prop where
  | name {word : List Char} (ident : isIdentifier word = true) : DottedPath word word
  | member {word head rest : List Char} (ident : isIdentifier word = true)
      (path : DottedPath head rest) : DottedPath word (word ++ '.' :: rest)

theorem DottedPath.ident {head text : List Char} (h : DottedPath head text) :
    isIdentifier head = true := by
  cases h with
  | name ident => exact ident
  | member ident => exact ident

theorem isIdentifier_all {word : List Char} (h : isIdentifier word = true) :
    ∀ c ∈ word, inSymbolName c = true := by
  cases word with
  | nil => cases h
  | cons c cs =>
    rw [isIdentifier, Bool.and_eq_true, List.all_eq_true] at h
    intro d hd
    rcases List.mem_cons.1 hd with rfl | hd
    · simp [inSymbolName, h.1]
    · exact h.2 d hd

/-- A character of a path. -/
def isPathPart (c : Char) : Bool := inSymbolName c || c == '.'

theorem DottedPath.exists_cons {head text : List Char} (h : DottedPath head text) :
    ∃ c cs, text = c :: cs ∧ startsSymbolName c = true := by
  have hident := h.ident
  have hcons {word : List Char} (hword : isIdentifier word = true) :
      ∃ c cs, word = c :: cs ∧ startsSymbolName c = true := by
    cases word with
    | nil => cases hword
    | cons c cs =>
      rw [isIdentifier, Bool.and_eq_true] at hword
      exact ⟨c, cs, rfl, hword.1⟩
  obtain ⟨c, cs, rfl, hc⟩ := hcons hident
  cases h with
  | name => exact ⟨c, cs, rfl, hc⟩
  | member => exact ⟨c, _, rfl, hc⟩

theorem DottedPath.all {head text : List Char} (h : DottedPath head text) :
    ∀ c ∈ text, isPathPart c = true := by
  induction h with
  | name ident => exact fun c hc => by simp [isPathPart, isIdentifier_all ident c hc]
  | member ident _ ih =>
    intro c hc
    rcases List.mem_append.1 hc with hc | hc
    · simp [isPathPart, isIdentifier_all ident c hc]
    · rcases List.mem_cons.1 hc with rfl | hc
      · rfl
      · exact ih c hc

theorem DottedPath.no_dollar {head text : List Char} (h : DottedPath head text) : '$' ∉ text :=
  fun hmem => absurd (h.all _ hmem) (by decide)

/-- What stands in front of the first point is the head. -/
theorem DottedPath.span_head {head text : List Char} (h : DottedPath head text) (p : Char → Bool)
    (hident : ∀ c, inSymbolName c = true → p c = true) (hdot : p '.' = false) :
    (text.span p).1 = head := by
  rw [List.span_eq_takeWhile_dropWhile]
  cases h with
  | name ident =>
    rw [List.takeWhile_eq_self_iff]
    exact fun c hc => hident c (isIdentifier_all ident c hc)
  | member ident _ =>
    rw [List.takeWhile_append_of_pos fun c hc => hident c (isIdentifier_all ident c hc)]
    simp [hdot]

/-! ## Symbols -/

/-- The symbols of accesses to members. -/
def memberSymbols : List String → List Symbol
  | [] => []
  | name :: names => .mark .dot :: .name name :: memberSymbols names

theorem not_digit {c : Char} (hc : startsSymbolName c = true) : isAsciiDigit c = false := by
  cases hd : isAsciiDigit c with
  | false => rfl
  | true =>
    simp only [startsSymbolName, isAsciiLetter, isAsciiDigit, Bool.or_eq_true, Bool.and_eq_true,
      decide_eq_true_eq, beq_iff_eq, Char.le_def, UInt32.le_iff_toNat_le] at hc hd
    have h9 : '9'.val.toNat = 57 := rfl
    have ha : 'a'.val.toNat = 97 := rfl
    have hA : 'A'.val.toNat = 65 := rfl
    rcases hc with (hc | hc) | rfl
    · omega
    · omega
    · exact absurd hd.2 (by decide)

/-- A character that starts a name starts no other symbol. -/
theorem symbolOf_name {c : Char} (hc : startsSymbolName c = true) (cs : List Char) :
    symbolOf c cs = (.name (.ofList ((c :: cs).span inSymbolName).1), ((c :: cs).span inSymbolName).2) := by
  have hdouble : cs.head?.bind (doubleMark? c) = none := by
    cases cs with
    | nil => rfl
    | cons d ds =>
      show doubleMark? c d = none
      unfold doubleMark?
      split <;> first | rfl | exact absurd hc (by decide)
  have hsingle : singleMark? c = none := by
    unfold singleMark?
    split <;> first | rfl | exact absurd hc (by decide)
  have hquote : (c == '"' || c == '\'') = false := by
    rw [Bool.or_eq_false_iff, beq_eq_false_iff_ne, beq_eq_false_iff_ne]
    constructor <;> rintro rfl <;> exact absurd hc (by decide)
  simp [symbolOf, hdouble, hsingle, hquote, not_digit hc, hc]

theorem isGap_name {c : Char} (hc : startsSymbolName c = true) : isGap c = false := by
  cases hg : isGap c with
  | false => rfl
  | true =>
    simp only [isGap, Bool.or_eq_true, beq_iff_eq] at hg
    rcases hg with (((rfl | rfl) | rfl) | rfl) | rfl <;> exact absurd hc (by decide)

/-- A name ends where a point, or nothing, follows. -/
theorem span_ident {word rest : List Char} (hword : isIdentifier word = true)
    (hrest : ∀ c ∈ rest.head?, inSymbolName c = false) :
    (word ++ rest).span inSymbolName = (word, rest) := by
  have hall := isIdentifier_all hword
  have hstops : rest.takeWhile inSymbolName = [] ∧ rest.dropWhile inSymbolName = rest := by
    cases rest with
    | nil => exact ⟨rfl, rfl⟩
    | cons c cs =>
      have hc : inSymbolName c = false := hrest c rfl
      simp [hc]
  rw [List.span_eq_takeWhile_dropWhile, List.takeWhile_append_of_pos hall,
    List.dropWhile_append_of_pos hall, hstops.1, hstops.2, List.append_nil]

theorem symbolsFrom_ident {word rest : List Char} (hword : isIdentifier word = true)
    (hrest : ∀ c ∈ rest.head?, inSymbolName c = false) (fuel : Nat) :
    symbolsFrom (fuel + 1) (word ++ rest) = .name (.ofList word) :: symbolsFrom fuel rest := by
  have hspan := span_ident hword hrest
  cases word with
  | nil => cases hword
  | cons c cs =>
    rw [isIdentifier, Bool.and_eq_true] at hword
    rw [List.cons_append] at hspan ⊢
    simp only [symbolsFrom, isGap_name hword.1, Bool.false_eq_true, if_false,
      symbolOf_name hword.1, hspan]

theorem symbolsFrom_dot (fuel : Nat) (rest : List Char) :
    symbolsFrom (fuel + 1) ('.' :: rest) = .mark .dot :: symbolsFrom fuel rest := by
  have hdouble : rest.head?.bind (doubleMark? '.') = none := by cases rest <;> rfl
  have hgap : isGap '.' = false := rfl
  simp [symbolsFrom, hgap, symbolOf, hdouble, singleMark?]

/-- A path is cut into its names and the points between them. -/
theorem symbolsFrom_path {head text : List Char} (h : DottedPath head text) (fuel : Nat)
    (hfuel : text.length ≤ fuel) :
    ∃ names, symbolsFrom fuel text = .name (.ofList head) :: memberSymbols names := by
  induction h generalizing fuel with
  | @name word ident =>
    obtain ⟨n, rfl⟩ : ∃ n, fuel = n + 1 := by
      cases word with
      | nil => cases ident
      | cons c cs => exact ⟨fuel - 1, by simp only [List.length_cons] at hfuel; omega⟩
    refine ⟨[], ?_⟩
    have hcut : symbolsFrom (n + 1) (word ++ []) = .name (.ofList word) :: symbolsFrom n [] :=
      symbolsFrom_ident ident (fun _ hc => by cases hc) n
    rw [List.append_nil] at hcut
    rw [hcut]
    cases n <;> rfl
  | @member word head rest ident path ih =>
    rw [List.length_append, List.length_cons] at hfuel
    obtain ⟨n, rfl⟩ : ∃ n, fuel = n + 2 := by
      cases word with
      | nil => cases ident
      | cons c cs => exact ⟨fuel - 2, by simp only [List.length_cons] at hfuel; omega⟩
    have hlength : rest.length ≤ n := by
      cases word with
      | nil => cases ident
      | cons c cs => simp only [List.length_cons] at hfuel; omega
    obtain ⟨names, hnames⟩ := ih n hlength
    refine ⟨.ofList head :: names, ?_⟩
    rw [symbolsFrom_ident ident (fun c hc => by cases hc; rfl), symbolsFrom_dot, hnames]
    rfl

/-! ## Reading -/

theorem ok_of_bind {ε α β : Type} {x : Except ε α} {f : α → Except ε β} {b : β}
    (h : x >>= f = .ok b) : ∃ a, x = .ok a ∧ f a = .ok b := by
  cases x with
  | error e => cases h
  | ok a => exact ⟨a, rfl, h⟩

theorem ok_of_map {ε α β : Type} {x : Except ε α} {f : α → β} {b : β} (h : x.map f = .ok b) :
    ∃ a, x = .ok a ∧ f a = b := by
  cases x with
  | error e => cases h
  | ok a => exact ⟨a, rfl, Except.ok.inj h⟩

namespace Expression

/-- Whatever the reader gives for these symbols is the whole of them, and satisfies `P`. -/
def Consumes (P : Expression → Prop) (r : Reader Expression) (ss : List Symbol) : Prop :=
  ∀ e rest, r ss = .ok (e, rest) → rest = [] ∧ P e

section

variable {P : Expression → Prop} {r : Reader Expression} {ss : List Symbol}

theorem ok_bind {α β : Type} (a : α) (f : α → Except ExpressionFault β) : (.ok a >>= f) = f a := rfl

theorem Consumes.level (h : Consumes P r ss)
    (combine? : Symbol → Option (Expression → Expression → Expression)) :
    Consumes P (level combine? r) ss := by
  intro e rest he
  obtain ⟨⟨left, behind⟩, hleft, hchain⟩ := ok_of_bind he
  obtain ⟨rfl, hP⟩ := h left behind hleft
  obtain ⟨rfl, rfl⟩ := Prod.mk.inj (Except.ok.inj hchain)
  exact ⟨rfl, hP⟩

theorem Consumes.arithmetic (h : Consumes P r ss) : Consumes P (arithmetic r) ss :=
  (((h.level _).level _).level _).level _

theorem Consumes.comparisons (h : Consumes P r ss) : Consumes P (comparisons r) ss := by
  intro e rest he
  obtain ⟨⟨first, behind⟩, hfirst, hlinks⟩ := ok_of_bind he
  obtain ⟨rfl, hP⟩ := h first behind hfirst
  obtain ⟨rfl, rfl⟩ := Prod.mk.inj (Except.ok.inj hlinks)
  exact ⟨rfl, hP⟩

/-- A `not` needs an operand of its own. -/
theorem Consumes.negations {word : String} (h : Consumes P r (.name word :: ss))
    (hnone : word = "not" → Consumes (fun _ => False) r ss)
    (hss : ∀ rest, ss ≠ .name "not" :: rest) :
    Consumes (fun e => P e ∧ word ≠ "not") (negations r) (.name word :: ss) := by
  by_cases hword : word = "not"
  · subst hword
    intro e rest he
    have hoperand : Expression.negations r ss = r ss := by
      unfold Expression.negations
      split
      · exact absurd rfl (hss _)
      · rfl
    obtain ⟨⟨operand, behind⟩, hnegated, _⟩ := ok_of_bind he
    rw [hoperand] at hnegated
    exact (hnone rfl operand behind hnegated).2.elim
  · have heq : Expression.negations r (.name word :: ss) = r (.name word :: ss) := by
      unfold Expression.negations
      split
      · next h => exact absurd (by injection h with h _; injection h) hword
      · rfl
    intro e rest he
    rw [heq] at he
    obtain ⟨hrest, hP⟩ := h e rest he
    exact ⟨hrest, hP, hword⟩

theorem memberSymbols_ne_name (names : List String) (word : String) (rest : List Symbol) :
    memberSymbols names ≠ .name word :: rest := by
  cases names <;> simp [memberSymbols]

theorem Consumes.unconditional {word : String} {names : List String}
    (h : Consumes P r (.name word :: memberSymbols names))
    (hnone : Consumes (fun _ => False) r (memberSymbols names)) :
    Consumes (fun e => P e ∧ word ≠ "not") (unconditional r) (.name word :: memberSymbols names) := by
  refine ((Consumes.negations h.arithmetic.comparisons ?_ ?_).level _).level _
  · exact fun _ => hnone.arithmetic.comparisons
  · exact fun rest => memberSymbols_ne_name names "not" rest

/-- The accesses to members behind an expression. -/
theorem accesses_members (expr plain : Reader Expression) (names : List String) (fuel : Nat)
    (hfuel : names.length ≤ fuel) (e : Expression) :
    accesses expr plain fuel e (memberSymbols names) = .ok (names.foldl .member e, []) := by
  induction names generalizing fuel e with
  | nil => cases fuel <;> rfl
  | cons name names ih =>
    obtain ⟨n, rfl⟩ : ∃ n, fuel = n + 1 := ⟨fuel - 1, by simp only [List.length_cons] at hfuel; omega⟩
    exact ih n (by simp only [List.length_cons] at hfuel; omega) (.member e name)

theorem length_memberSymbols (names : List String) : names.length ≤ (memberSymbols names).length := by
  induction names with
  | nil => exact Nat.le_refl _
  | cons name names ih =>
    simp only [memberSymbols, List.length_cons]
    omega

/-- The names of the variables of accesses to members are those of the first expression. -/
theorem freeNames_members (names : List String) (e : Expression) :
    (names.foldl .member e).freeNames = e.freeNames := by
  induction names generalizing e with
  | nil => rfl
  | cons name names ih => exact ih (.member e name)

/-- A path with such a head reads no variable. -/
def readsNothing (word : String) : Bool := (literalWord? word).isSome || word == "not"

/-- The variable that a word reads, unless it is a literal. -/
def ReadsOnly (word : String) (e : Expression) : Prop :=
  ∀ name, name ∈ e.freeNames → name = word ∧ literalWord? word = none

theorem operandOf_path (inner expr plain : Reader Expression) (word : String) (names : List String) :
    Consumes (ReadsOnly word) (operandOf inner expr plain) (.name word :: memberSymbols names) := by
  intro e rest he
  obtain ⟨⟨accessed, behind⟩, haccessed, hpipes⟩ := ok_of_bind he
  obtain ⟨⟨atom, members⟩, hatom, hmembers⟩ := ok_of_bind haccessed
  have hprimary : members = memberSymbols names ∧ ReadsOnly word atom := by
    have hsigned : primary inner (.name word :: memberSymbols names) = .ok (atom, members) := hatom
    unfold primary at hsigned
    dsimp only at hsigned
    split at hsigned
    · obtain ⟨rfl, rfl⟩ := Prod.mk.inj (Except.ok.inj hsigned)
      exact ⟨rfl, fun name hname => absurd hname NameSet.not_mem_empty⟩
    · next hliteral =>
      obtain ⟨rfl, rfl⟩ := Prod.mk.inj (Except.ok.inj hsigned)
      refine ⟨rfl, fun name hname => ⟨?_, hliteral⟩⟩
      rcases NameSet.mem_insert.1 hname with hname | hname
      · exact hname
      · exact absurd hname NameSet.not_mem_empty
  obtain ⟨rfl, hreads⟩ := hprimary
  dsimp only at hmembers
  rw [accesses_members _ _ _ _ (length_memberSymbols names)] at hmembers
  obtain ⟨rfl, rfl⟩ := Prod.mk.inj (Except.ok.inj hmembers)
  obtain ⟨rfl, rfl⟩ := Prod.mk.inj (Except.ok.inj hpipes)
  refine ⟨rfl, fun name hname => ?_⟩
  rw [freeNames_members] at hname
  exact hreads name hname

/-- Accesses to members need something in front of them. -/
theorem operandOf_members (inner expr plain : Reader Expression) (names : List String) :
    Consumes (fun _ => False) (operandOf inner expr plain) (memberSymbols names) := by
  intro e rest he
  obtain ⟨⟨accessed, behind⟩, haccessed, _⟩ := ok_of_bind he
  obtain ⟨⟨atom, members⟩, hatom, _⟩ := ok_of_bind haccessed
  cases names <;> cases hatom

/-- A path is read as accesses to members of its head. -/
theorem read_path {head text : List Char} (h : DottedPath head text) {e : Expression}
    (he : read (.ofList text) = .ok e) : ReadsOnly (.ofList head) e ∧ String.ofList head ≠ "not" := by
  obtain ⟨names, hnames⟩ := symbolsFrom_path h text.length (Nat.le_refl _)
  obtain ⟨⟨e', rest⟩, hread, hrest⟩ := ok_of_bind he
  have hsymbols : symbols (.ofList text) = .name (.ofList head) :: memberSymbols names := by
    rw [symbols, String.toList_ofList, hnames]
  rw [hsymbols] at hread
  obtain ⟨⟨operand, behind⟩, hoperand, hconditionals⟩ := ok_of_bind hread
  obtain ⟨rfl, hreads⟩ := (operandOf_path _ _ _ _ _).unconditional (operandOf_members _ _ _ _)
    operand behind hoperand
  obtain ⟨rfl, rfl⟩ := Prod.mk.inj (Except.ok.inj hconditionals)
  obtain rfl := Except.ok.inj hrest
  exact hreads

end

end Expression

/-! ## Values -/

theorem hideDollarsFrom_of_not_mem (s : DollarScan) {cs : List Char} (h : '$' ∉ cs) :
    hideDollarsFrom s cs = cs := by
  induction cs generalizing s with
  | nil => rfl
  | cons c cs ih =>
    rw [List.mem_cons, not_or] at h
    have hc : (c == '$') = false := by simpa using Ne.symm h.1
    simp [hideDollarsFrom, hc, ih _ h.2]

theorem evaluate_standard (text : String) (lookup : String → Option Value) :
    Evaluator.standard.evaluate text lookup =
      (Expression.ofTemplate text >>= Expression.evaluateIn lookup).mapError
        ExpressionFault.describe := by
  simp only [Evaluator.standard]

/-- The value of a path depends on its head alone, and on nothing when that is no variable. -/
theorem evaluate_path {head text : List Char} (h : DottedPath head text)
    (hplain : after? dollarSign head = none) {lookup lookup' : String → Option Value}
    (hlookup : Expression.readsNothing (.ofList head) = false →
      lookup (.ofList head) = lookup' (.ofList head)) :
    Evaluator.standard.evaluate (.ofList text) lookup =
      Evaluator.standard.evaluate (.ofList text) lookup' := by
  have htext : hideDollars (.ofList text) = .ofList text := by
    rw [hideDollars, String.toList_ofList, hideDollarsFrom_of_not_mem _ h.no_dollar]
  have htemplate : templateName (.ofList head) = .ofList head := by
    rw [templateName, String.toList_ofList, hplain]
  rw [evaluate_standard, evaluate_standard]
  cases hread : Expression.ofTemplate (.ofList text) with
  | error e => rfl
  | ok e =>
    rw [Expression.ofTemplate, htext] at hread
    obtain ⟨hreads, hnot⟩ := Expression.read_path h hread
    have hseen : (fun name => if name ∈ e.freeNames then lookup (templateName name) else none) =
        fun name => if name ∈ e.freeNames then lookup' (templateName name) else none := by
      funext name
      split
      · next hname =>
        obtain ⟨rfl, hliteral⟩ := hreads name hname
        rw [htemplate, hlookup (by simp [Expression.readsNothing, hliteral, hnot])]
      · rfl
    have hsame : e.evaluateIn lookup = e.evaluateIn lookup' := by
      dsimp only [Expression.evaluateIn]
      rw [hseen]
    rw [Expression.ok_bind, Expression.ok_bind, hsame]

/-! ## The variable of a path -/

theorem pathPart_bounds {c : Char} (hc : isPathPart c = true) :
    46 ≤ c.val.toNat ∧ c.val.toNat ≤ 122 := by
  simp only [isPathPart, inSymbolName, startsSymbolName, isAsciiLetter, isAsciiDigit,
    Bool.or_eq_true, Bool.and_eq_true, decide_eq_true_eq, beq_iff_eq, Char.le_def,
    UInt32.le_iff_toNat_le] at hc
  have h0 : '0'.val.toNat = 48 := rfl
  have h9 : '9'.val.toNat = 57 := rfl
  have ha : 'a'.val.toNat = 97 := rfl
  have hz : 'z'.val.toNat = 122 := rfl
  have hA : 'A'.val.toNat = 65 := rfl
  have hZ : 'Z'.val.toNat = 90 := rfl
  rcases hc with (((hc | hc) | rfl) | hc) | rfl
  · omega
  · omega
  · decide
  · omega
  · decide

theorem isBlank_pathPart {c : Char} (hc : isPathPart c = true) : isBlank c = false := by
  obtain ⟨hlow, hhigh⟩ := pathPart_bounds hc
  have ne {d : Char} (hd : d.val.toNat < 46) : c ≠ d := by
    rintro rfl
    omega
  have off {n : UInt32} (hn : 122 < n.toNat) : c.val ≠ n := by
    intro h
    rw [h] at hhigh
    omega
  have hr : '\r'.val.toNat = 13 := rfl
  have hspace : (0x2000 : UInt32).toNat = 8192 := rfl
  simp only [isBlank, Bool.or_eq_false_iff, Bool.and_eq_false_iff, beq_eq_false_iff_ne,
    decide_eq_false_iff_not, Char.le_def, UInt32.le_iff_toNat_le]
  refine ⟨⟨⟨⟨⟨⟨⟨⟨⟨⟨ne (by decide), .inr ?_⟩, off (by decide)⟩, off (by decide)⟩, off (by decide)⟩,
    .inl ?_⟩, off (by decide)⟩, off (by decide)⟩, off (by decide)⟩, off (by decide)⟩, off (by decide)⟩
  · omega
  · omega

theorem trimLeft_of_no_blank {cs : List Char} (h : ∀ c ∈ cs, isBlank c = false) :
    trimLeft cs = cs := by
  cases cs with
  | nil => rfl
  | cons c cs => simp [trimLeft, h c List.mem_cons_self]

theorem trim_of_no_blank {cs : List Char} (h : ∀ c ∈ cs, isBlank c = false) : trim cs = cs := by
  have hright : dropRight isBlank cs = cs := by
    induction cs with
    | nil => rfl
    | cons c cs ih =>
      rw [dropRight, ih fun d hd => h d (List.mem_cons_of_mem _ hd)]
      cases cs with
      | nil => simp [h c List.mem_cons_self]
      | cons d ds => rfl
  rw [trim, trimRight, trimLeft_of_no_blank h, hright]

theorem DottedPath.trim_eq {head text : List Char} (h : DottedPath head text) : trim text = text :=
  trim_of_no_blank fun c hc => isBlank_pathPart (h.all c hc)

/-- What does not end with a parenthesis is no call. -/
theorem callArgument?_of_last {cs : List Char} (h : cs.getLast? ≠ some ')') :
    callArgument? cs = none := by
  unfold callArgument?
  split
  · next rest hreverse =>
    refine absurd ?_ h
    rw [← List.head?_reverse, hreverse, List.head?_cons]
  · rfl

theorem peel_of_none {cs : List Char} (h : callArgument? cs = none) : peel cs = cs := by
  rw [peel]
  split
  · rfl
  · next hsome =>
    rw [h] at hsome
    cases hsome

/-- No call stands around a path. -/
theorem DottedPath.peel_eq {head text : List Char} (h : DottedPath head text) : peel text = text :=
  peel_of_none (callArgument?_of_last fun hlast =>
    absurd (h.all _ (List.mem_of_getLast? hlast)) (by decide))

theorem DottedPath.pathStart_eq {head text : List Char} (h : DottedPath head text) :
    pathStart (.ofList text) = .ofList head := by
  have hcut : (cutAt (fun c => c == '.' || c == '[') text).1 = head := by
    refine h.span_head _ (fun c hc => ?_) (by decide)
    rw [Bool.not_eq_true', Bool.or_eq_false_iff, beq_eq_false_iff_ne, beq_eq_false_iff_ne]
    constructor <;> rintro rfl <;> exact absurd hc (by decide)
  rw [pathStart, String.toList_ofList, hcut, trim_of_no_blank]
  intro c hc
  refine isBlank_pathPart ?_
  simp [isPathPart, isIdentifier_all h.ident c hc]

theorem isNameStart_symbol {c : Char} (hc : startsSymbolName c = true) : isNameStart c = true := by
  simp only [startsSymbolName, Bool.or_eq_true] at hc
  simp only [isNameStart, Bool.or_eq_true]
  rcases hc with hletter | hunderscore
  · exact .inr hletter
  · exact .inl (.inr hunderscore)

theorem isNamePart_symbol {c : Char} (hc : inSymbolName c = true) : isNamePart c = true := by
  simp only [inSymbolName, Bool.or_eq_true] at hc
  simp only [isNamePart, Bool.or_eq_true]
  exact hc.imp_left isNameStart_symbol

theorem isVariableName_all {name : String} (h : isVariableName name = true) :
    ∀ c ∈ name.toList, isNamePart c = true := by
  simp only [isVariableName, Bool.and_eq_true, List.all_eq_true] at h
  exact h.1.2

theorem isPathPart_or_dollar {c : Char} (h : isNamePart c = true) : c = '$' ∨ isPathPart c = true := by
  simp only [isNamePart, isNameStart, Bool.or_eq_true, beq_iff_eq] at h
  simp only [isPathPart, inSymbolName, startsSymbolName, Bool.or_eq_true, beq_iff_eq]
  rcases h with ((hdollar | hunderscore) | hletter) | hdigit
  · exact .inl hdollar
  · exact .inr (.inl (.inl (.inr hunderscore)))
  · exact .inr (.inl (.inl (.inl hletter)))
  · exact .inr (.inl (.inr hdigit))

theorem isBlank_namePart {c : Char} (h : isNamePart c = true) : isBlank c = false := by
  rcases isPathPart_or_dollar h with rfl | hpath
  · decide
  · exact isBlank_pathPart hpath

theorem isVariableName_ident {word : List Char} (h : isIdentifier word = true) :
    isVariableName (.ofList word) = !reservedWords.contains (.ofList word) := by
  have hall : word.all isNamePart = true :=
    List.all_eq_true.2 fun c hc => isNamePart_symbol (isIdentifier_all h c hc)
  have hstarts : startsLikeName (.ofList word) = true := by
    rw [startsLikeName, String.toList_ofList]
    cases word with
    | nil => cases h
    | cons c cs =>
      rw [isIdentifier, Bool.and_eq_true] at h
      exact isNameStart_symbol h.1
  rw [isVariableName, hstarts, String.toList_ofList, hall]
  rfl

/-- The variable of a path is its head, unless that is reserved. -/
theorem DottedPath.access_eq {head text : List Char} (h : DottedPath head text) :
    Access.ofExpression? (.ofList text) =
      if reservedWords.contains (.ofList head) then none else some ⟨.ofList text, .ofList head⟩ := by
  have hpeel : peelCalls (.ofList text) = .ofList text := by
    rw [peelCalls, String.toList_ofList, h.trim_eq, h.peel_eq]
  rw [Access.ofExpression?, hpeel, h.pathStart_eq, isVariableName_ident h.ident]
  cases reservedWords.contains (.ofList head) <;> rfl

end Stencil
