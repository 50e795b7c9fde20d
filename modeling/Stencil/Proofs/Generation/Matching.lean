import Stencil.Proofs.Generation.Sites

/-!
# The search for closing tags

The search for the tag that closes a block is a search for a matching bracket. Verbatim blocks are
left out; the tags that open blocks and the tags that close them are the brackets; and what a search
has behind it is a word in which some blocks are still open.

* `Pending`: such a word, with the closing tags that it waits for.
* `pending_iff`: reading a word token by token with a stack recognizes it.
* `closingFrom_pending`: the search goes on behind such a word with that stack.
* `exists_of_foldlM_eq_none`: where the stack does not fit, there is a closing tag.
* `findTag_exact`: so which tag is found, and what is wrong when none is.
-/

namespace Stencil

/-! ## Words with open blocks -/

/-- The word opens blocks that it does not close; the closing tag of the innermost one comes first. -/
inductive Pending (kinds : TagKinds) : List String → List Token → Prop where
  | nested {word : List Token} (nested : Nested kinds word) : Pending kinds [] word
  | opened {stack : List String} {word inner : List Token} {opener : Tag}
      (pending : Pending kinds stack word) (opens : kinds.isBlock opener.name = true)
      (inside : Nested kinds inner) :
      Pending kinds (closerOf opener.name :: stack) (word ++ .tag opener :: inner)

/-- The closing tags that have to come behind a token, unless it is one that does not come next. -/
def TagKinds.awaited (kinds : TagKinds) (stack : List String) : Token → Option (List String)
  | .tag tag =>
    if kinds.isBlock tag.name then some (closerOf tag.name :: stack)
    else if isCloser tag.name then
      match stack with
      | [] => none
      | closer :: stack => if closer = tag.name then some stack else none
    else some stack
  | _ => some stack

section Words

variable {kinds : TagKinds} {stack : List String} {word inner : List Token} {tag : Tag}

theorem Nested.append (h : Nested kinds word) (hinner : Nested kinds inner) :
    Nested kinds (word ++ inner) := by
  induction h with
  | nil => exact hinner
  | plain plain _ ih => exact .plain plain ih
  | block opens inside closes _ _ ih =>
    rw [List.append_assoc, List.cons_append]
    exact .block opens inside closes ih

/-- What is nested can stand behind the last opener. -/
theorem Pending.append (h : Pending kinds stack word) (hinner : Nested kinds inner) :
    Pending kinds stack (word ++ inner) := by
  cases h with
  | nested nested => exact .nested (nested.append hinner)
  | opened pending opens inside =>
    rw [List.append_assoc, List.cons_append]
    exact .opened pending opens (inside.append hinner)

/-- The closing tag that comes next closes the innermost block. -/
theorem Pending.close {closer : String} (h : Pending kinds (closer :: stack) word)
    (hcloses : tag.name = closer) : Pending kinds stack (word ++ [.tag tag]) := by
  cases h with
  | @opened _ word inner opener pending opens inside =>
    have hblock : Nested kinds (.tag opener :: inner ++ .tag tag :: []) :=
      .block opens inside hcloses .nil
    have := pending.append hblock
    simpa using this

theorem awaited_plain {token : Token} (h : token.IsPlain kinds) :
    kinds.awaited stack token = some stack := by
  cases token with
  | raw | object => rfl
  | tag tag =>
    obtain ⟨hblock, hcloser⟩ := h tag rfl
    simp [TagKinds.awaited, hblock, hcloser]

theorem awaited_opener (h : kinds.isBlock tag.name = true) :
    kinds.awaited stack (.tag tag) = some (closerOf tag.name :: stack) := by
  simp [TagKinds.awaited, h]

theorem awaited_closer (h : kinds.isBlock tag.name = false) (hcloser : isCloser tag.name = true) :
    kinds.awaited (tag.name :: stack) (.tag tag) = some stack := by
  simp [TagKinds.awaited, h, hcloser]

/-- Nothing more is awaited behind a nested word than before it. -/
theorem Nested.awaited (hcloser : ∀ name, isCloser name = true → kinds.isBlock name = false)
    (h : Nested kinds word) (stack : List String) : word.foldlM kinds.awaited stack = some stack := by
  induction h generalizing stack with
  | nil => rfl
  | plain plain _ ih =>
    rw [List.foldlM_cons, awaited_plain plain]
    exact ih stack
  | @block opener closer inner rest opens _ closes _ ihinner ih =>
    have hend : isCloser closer.name = true := by
      rw [closes]
      exact isCloser_closerOf _
    rw [List.cons_append, List.foldlM_cons, awaited_opener opens]
    show (inner ++ .tag closer :: rest).foldlM kinds.awaited (closerOf opener.name :: stack) = _
    rw [List.foldlM_append, ihinner]
    show (Token.tag closer :: rest).foldlM kinds.awaited (closerOf opener.name :: stack) = _
    rw [List.foldlM_cons, ← closes, awaited_closer (hcloser _ hend) hend]
    exact ih stack

theorem Pending.awaited (hcloser : ∀ name, isCloser name = true → kinds.isBlock name = false)
    (h : Pending kinds stack word) : word.foldlM kinds.awaited [] = some stack := by
  induction h with
  | nested nested => exact nested.awaited hcloser []
  | @opened stack word inner opener _ opens inside ih =>
    rw [List.foldlM_append, ih]
    show (Token.tag opener :: inner).foldlM kinds.awaited stack = _
    rw [List.foldlM_cons, awaited_opener opens]
    exact inside.awaited hcloser _

/-- One more token, as long as it fits. -/
theorem Pending.snoc {stack' : List String} {token : Token} (h : Pending kinds stack word)
    (hnext : kinds.awaited stack token = some stack') : Pending kinds stack' (word ++ [token]) := by
  cases token with
  | raw | object =>
    cases hnext
    exact h.append (.plain (fun _ heq => by cases heq) .nil)
  | tag tag =>
    simp only [TagKinds.awaited] at hnext
    split at hnext
    · next hblock =>
      cases hnext
      exact .opened h hblock .nil
    · next hblock =>
      split at hnext
      · split at hnext
        · cases hnext
        · split at hnext
          · next heq =>
            cases hnext
            exact h.close heq.symm
          · cases hnext
      · next hcloser =>
        cases hnext
        refine h.append (.plain ?_ .nil)
        rintro _ ⟨rfl⟩
        exact ⟨by simpa using hblock, by simpa using hcloser⟩

/-- More tokens, as long as they fit. -/
theorem Pending.run {stack' : List String} (h : Pending kinds stack word)
    (hrun : inner.foldlM kinds.awaited stack = some stack') :
    Pending kinds stack' (word ++ inner) := by
  induction inner generalizing stack word with
  | nil =>
    cases hrun
    rwa [List.append_nil]
  | cons token inner ih =>
    rw [List.foldlM_cons] at hrun
    obtain ⟨next, hnext, hrun⟩ := Option.bind_eq_some_iff.1 hrun
    rw [List.append_cons]
    exact ih (h.snoc hnext) hrun

/-- Reading a word with a stack recognizes which blocks are open behind it. -/
theorem pending_iff (hcloser : ∀ name, isCloser name = true → kinds.isBlock name = false) :
    Pending kinds stack word ↔ word.foldlM kinds.awaited [] = some stack :=
  ⟨Pending.awaited hcloser, (Pending.nested .nil).run⟩

/-- What does not fit is a closing tag that does not come next. -/
theorem awaited_eq_none : kinds.awaited stack (.tag tag) = none ↔
    kinds.isBlock tag.name = false ∧ isCloser tag.name = true ∧ stack.head? ≠ some tag.name := by
  cases hblock : kinds.isBlock tag.name with
  | true => simp [TagKinds.awaited, hblock]
  | false =>
    cases hcloser : isCloser tag.name with
    | false => simp [TagKinds.awaited, hblock, hcloser]
    | true => cases stack <;> simp [TagKinds.awaited, hblock, hcloser]

end Words

/-! ## The search -/

/-- No tag that opens a block has the name of a closing tag. -/
structure TagKinds.Apart (kinds : TagKinds) : Prop where
  block : ∀ name, isCloser name = true → kinds.isBlock name = false
  verbatim : ∀ name, isCloser name = true → kinds.isVerbatim name = false

theorem TagKinds.Proper.apart {kinds : TagKinds} (h : kinds.Proper) : kinds.Apart :=
  ⟨h.closer, fun name hname => h.looked_of_isBlock (h.closer name hname)⟩

section Search

variable {kinds : TagKinds} {name : String} {mode : Option Tag} {stack stack' : List String}
  {word rest tokens : List Token} {tag : Tag} {idx : Nat}

/-- A tag that fits changes what is awaited. -/
theorem closingFrom_fits (hname : isCloser name = true) (hkinds : kinds.Apart)
    (hlooked : kinds.isVerbatim tag.name = false)
    (h : kinds.awaited stack (.tag tag) = some stack') :
    closingFrom kinds name none stack idx (.tag tag :: rest) =
      closingFrom kinds name none stack' (idx + 1) rest := by
  have hgoesOn : (tag.name = name && stack.isEmpty) = false := by
    rw [Bool.and_eq_false_iff]
    by_cases heq : tag.name = name
    · -- a closing tag does not fit where none is awaited
      right
      cases stack with
      | nil =>
        have hcloser : isCloser tag.name = true := by rwa [heq]
        rw [awaited_eq_none.2 ⟨hkinds.block _ hcloser, hcloser, fun hhead => by cases hhead⟩] at h
        cases h
      | cons => rfl
    · exact .inl (decide_eq_false heq)
  simp only [TagKinds.awaited] at h
  simp only [closingFrom, hgoesOn, hlooked, Bool.false_eq_true, if_false]
  split at h
  · next hblock =>
    cases h
    rw [if_pos hblock]
  · next hblock =>
    rw [if_neg hblock]
    split at h
    · next hcloser =>
      rw [if_pos hcloser]
      split at h
      · cases h
      · split at h
        · next heq =>
          cases h
          exact if_pos heq
        · cases h
    · next hcloser =>
      cases h
      rw [if_neg hcloser]

/-- A tag that does not fit ends the search. -/
theorem closingFrom_stuck (hlooked : kinds.isVerbatim tag.name = false)
    (h : kinds.awaited stack (.tag tag) = none) :
    closingFrom kinds name none stack idx (.tag tag :: rest) =
      if stack = [] ∧ tag.name = name then .ok idx
      else .error (.mismatch (stack.headD name) tag) := by
  obtain ⟨hblock, hcloser, hhead⟩ := awaited_eq_none.1 h
  simp only [closingFrom, hlooked, hblock, hcloser, Bool.false_eq_true, if_false, if_true]
  cases stack with
  | nil => by_cases heq : tag.name = name <;> simp [heq]
  | cons closer stack =>
    have hne : closer ≠ tag.name := fun heq => hhead (congrArg some heq)
    simp [hne]

/-- The search goes on behind a word with what is awaited then. -/
theorem closingFrom_awaited (hname : isCloser name = true) (hkinds : kinds.Apart)
    (h : (withoutVerbatim kinds mode word).foldlM kinds.awaited stack = some stack') (idx : Nat)
    (rest : List Token) :
    closingFrom kinds name mode stack idx (word ++ rest) =
      closingFrom kinds name (word.foldl kinds.behind mode) stack' (idx + word.length) rest := by
  induction word generalizing mode stack idx with
  | nil =>
    cases h
    rfl
  | cons token word ih =>
    rw [List.cons_append, List.foldl_cons, List.length_cons, Nat.add_comm word.length,
      ← Nat.add_assoc]
    cases mode with
    | some opener =>
      simp only [closingFrom, TagKinds.behind, withoutVerbatim] at h ⊢
      split at h
      · next hends =>
        rw [if_pos hends, if_pos hends]
        exact ih h _
      · next hstays =>
        rw [if_neg hstays, if_neg hstays]
        exact ih h _
    | none =>
      cases token with
      | raw | object => exact ih h _
      | tag tag =>
        cases hverbatim : kinds.isVerbatim tag.name with
        | true =>
          have hne : tag.name ≠ name := by
            rintro rfl
            rw [hkinds.verbatim _ hname] at hverbatim
            cases hverbatim
          simp only [withoutVerbatim, hverbatim, if_true] at h
          simp only [closingFrom, TagKinds.behind, hne, hverbatim, decide_false, Bool.false_and,
            Bool.false_eq_true, if_false, if_true]
          exact ih h _
        | false =>
          simp only [withoutVerbatim, hverbatim, Bool.false_eq_true, if_false,
            List.foldlM_cons] at h
          obtain ⟨next, hnext, h⟩ := Option.bind_eq_some_iff.1 h
          rw [closingFrom_fits hname hkinds hverbatim hnext, ih h]
          simp [TagKinds.behind, hverbatim]

/-- A token is left out when it is in a verbatim block, opens one or closes one. -/
theorem withoutVerbatim_cons (kinds : TagKinds) (mode : Option Tag) (token : Token)
    (tokens : List Token) :
    withoutVerbatim kinds mode (token :: tokens) =
      if mode = none ∧ kinds.behind mode token = none then token :: withoutVerbatim kinds none tokens
      else withoutVerbatim kinds (kinds.behind mode token) tokens := by
  cases mode with
  | some opener =>
    by_cases hends : token.isTag (closerOf opener.name) = true <;>
      simp [withoutVerbatim, TagKinds.behind, hends]
  | none =>
    cases token with
    | raw | object => rfl
    | tag tag =>
      by_cases hverbatim : kinds.isVerbatim tag.name = true <;>
        simp [withoutVerbatim, TagKinds.behind, hverbatim]

/-- When not all tokens fit, there is a first one outside verbatim blocks that does not. -/
theorem exists_of_foldlM_eq_none
    (h : (withoutVerbatim kinds mode tokens).foldlM kinds.awaited stack = none) :
    ∃ word tag rest stack', tokens = word ++ .tag tag :: rest ∧
      word.foldl kinds.behind mode = none ∧ kinds.isVerbatim tag.name = false ∧
      (withoutVerbatim kinds mode word).foldlM kinds.awaited stack = some stack' ∧
      kinds.awaited stack' (.tag tag) = none := by
  induction tokens generalizing mode stack with
  | nil => cases h
  | cons token tokens ih =>
    rw [withoutVerbatim_cons] at h
    by_cases hout : mode = none ∧ kinds.behind mode token = none
    · rw [if_pos hout, List.foldlM_cons] at h
      obtain ⟨rfl, hbehind⟩ := hout
      cases hnext : kinds.awaited stack token with
      | none =>
        cases token with
        | raw | object => cases hnext
        | tag tag =>
          have hlooked : kinds.isVerbatim tag.name = false := by
            cases hverbatim : kinds.isVerbatim tag.name with
            | false => rfl
            | true => simp [TagKinds.behind, hverbatim] at hbehind
          exact ⟨[], tag, tokens, stack, rfl, rfl, hlooked, rfl, hnext⟩
      | some next =>
        rw [hnext] at h
        obtain ⟨word, tag, rest, stack', rfl, hmode, hlooked, hrun, hstuck⟩ := ih h
        refine ⟨token :: word, tag, rest, stack', rfl, ?_, hlooked, ?_, hstuck⟩
        · rw [List.foldl_cons, hbehind, hmode]
        · rw [withoutVerbatim_cons, if_pos ⟨rfl, hbehind⟩, List.foldlM_cons, hnext]
          exact hrun
    · rw [if_neg hout] at h
      obtain ⟨word, tag, rest, stack', rfl, hmode, hlooked, hrun, hstuck⟩ := ih h
      refine ⟨token :: word, tag, rest, stack', rfl, hmode, hlooked, ?_, hstuck⟩
      rw [withoutVerbatim_cons, if_neg hout]
      exact hrun

end Search

/-! ## What a search finds -/

section Outcomes

variable {kinds : TagKinds} {tokens word : List Token} {name expected : String} {i j : Nat}
  {tag : Tag}

/-- A search that starts behind `i` comes to the tag at `j`, which is in no verbatim block; in front
of it, verbatim blocks left out, stands the word. -/
structure ComesTo (kinds : TagKinds) (tokens : List Token) (i j : Nat) (tag : Tag)
    (word : List Token) : Prop where
  lt : i < j
  here : tokens[j]? = some (.tag tag)
  outside : (between tokens (i + 1) j).foldl kinds.behind none = none
  word : withoutVerbatim kinds none (between tokens (i + 1) j) = word

/-- Blocks are opened and closed in order up to a tag of the name that is looked for. -/
def ClosesAt (kinds : TagKinds) (tokens : List Token) (name : String) (i j : Nat) : Prop :=
  ∃ tag word, ComesTo kinds tokens i j tag word ∧ Nested kinds word ∧ tag.name = name

/-- A closing tag is not the one that comes next: the one of the innermost block, and the name that
is looked for where no block is open. -/
def ClashesAt (kinds : TagKinds) (tokens : List Token) (name : String) (i j : Nat)
    (expected : String) (tag : Tag) : Prop :=
  ∃ word stack, ComesTo kinds tokens i j tag word ∧ Pending kinds stack word ∧
    stack.headD name = expected ∧ isCloser tag.name = true ∧ tag.name ≠ expected

/-- The tokens end first: outside verbatim blocks, every closing tag up to the end closes the innermost
block. The end may be in a verbatim block. -/
def RunsOut (kinds : TagKinds) (tokens : List Token) (i : Nat) : Prop :=
  ∃ stack, Pending kinds stack (withoutVerbatim kinds none (tokens.drop (i + 1)))

/-- The fault when the tokens end, in a verbatim block or outside of any. -/
def TagKinds.endFault (kinds : TagKinds) (tokens : List Token) (i : Nat) : MatchFault :=
  match (tokens.drop (i + 1)).foldl kinds.behind none with
  | some opener => .verbatimOpen opener
  | none => .missing

theorem ComesTo.drop_eq (h : ComesTo kinds tokens i j tag word) :
    tokens.drop (i + 1) = between tokens (i + 1) j ++ .tag tag :: tokens.drop (j + 1) := by
  obtain ⟨hlt, htoken⟩ := List.getElem?_eq_some_iff.1 h.here
  rw [drop_eq_between h.lt (Nat.le_of_lt hlt), List.drop_eq_getElem_cons hlt, htoken]

theorem comesTo_of_drop {rest : List Token} (h : tokens.drop (i + 1) = word ++ .tag tag :: rest)
    (houtside : word.foldl kinds.behind none = none) :
    ComesTo kinds tokens i (i + 1 + word.length) tag (withoutVerbatim kinds none word) := by
  have hbetween := between_eq_of_drop h
  refine ⟨by omega, getElem?_of_drop h, ?_, ?_⟩
  · rw [hbetween, houtside]
  · rw [hbetween]

section

variable (hkinds : kinds.Apart) (hname : isCloser name = true)

include hkinds hname

/-- Behind what it comes to, a search meets a tag that does not fit. -/
theorem ComesTo.closingTag_eq {stack : List String} (h : ComesTo kinds tokens i j tag word)
    (hword : Pending kinds stack word) (hcloser : isCloser tag.name = true)
    (hhead : stack.head? ≠ some tag.name) :
    closingTag kinds tokens name i =
      if stack = [] ∧ tag.name = name then .ok j else .error (.mismatch (stack.headD name) tag) := by
  have hrun := hword.awaited hkinds.block
  rw [← h.word] at hrun
  obtain ⟨hlt, -⟩ := List.getElem?_eq_some_iff.1 h.here
  have hindex : i + 1 + (between tokens (i + 1) j).length = j := by
    have := h.lt
    rw [length_between (Nat.le_of_lt hlt)]
    omega
  rw [closingTag, h.drop_eq, closingFrom_awaited hname hkinds hrun, h.outside, hindex,
    closingFrom_stuck (hkinds.verbatim _ hcloser)
      (awaited_eq_none.2 ⟨hkinds.block _ hcloser, hcloser, hhead⟩)]

theorem ClosesAt.closingTag_eq (h : ClosesAt kinds tokens name i j) :
    closingTag kinds tokens name i = .ok j := by
  obtain ⟨tag, word, hcomes, hnested, rfl⟩ := h
  rw [hcomes.closingTag_eq hkinds hname (.nested hnested) hname (fun hhead => by cases hhead),
    if_pos ⟨rfl, rfl⟩]

theorem ClashesAt.closingTag_eq (h : ClashesAt kinds tokens name i j expected tag) :
    closingTag kinds tokens name i = .error (.mismatch expected tag) := by
  obtain ⟨word, stack, hcomes, hpending, rfl, hcloser, hne⟩ := h
  have hhead : stack.head? ≠ some tag.name := by
    intro hhead
    rw [List.headD_eq_head?_getD, hhead] at hne
    exact hne rfl
  rw [hcomes.closingTag_eq hkinds hname hpending hcloser hhead, if_neg]
  rintro ⟨rfl, heq⟩
  exact hne heq

theorem RunsOut.closingTag_eq (h : RunsOut kinds tokens i) :
    closingTag kinds tokens name i = .error (kinds.endFault tokens i) := by
  obtain ⟨stack, hpending⟩ := h
  have hrun := closingFrom_awaited hname hkinds (hpending.awaited hkinds.block) (i + 1) []
  rw [List.append_nil] at hrun
  rw [closingTag, hrun, TagKinds.endFault]
  cases (tokens.drop (i + 1)).foldl kinds.behind none <;> rfl

omit hname

/-- One of the three it is. -/
theorem closes_or_clashes_or_runsOut (tokens : List Token) (name : String) (i : Nat) :
    (∃ j, ClosesAt kinds tokens name i j) ∨
      (∃ j expected tag, ClashesAt kinds tokens name i j expected tag) ∨ RunsOut kinds tokens i := by
  cases hrun : (withoutVerbatim kinds none (tokens.drop (i + 1))).foldlM kinds.awaited [] with
  | some stack => exact .inr (.inr ⟨stack, (pending_iff hkinds.block).2 hrun⟩)
  | none =>
    obtain ⟨word, tag, rest, stack, htokens, houtside, -, hword, hstuck⟩ :=
      exists_of_foldlM_eq_none hrun
    have hcomes := comesTo_of_drop htokens houtside
    have hpending := (pending_iff hkinds.block).2 hword
    obtain ⟨-, hcloser, hhead⟩ := awaited_eq_none.1 hstuck
    by_cases heq : tag.name = stack.headD name
    · -- the name that is looked for, with no block open
      cases stack with
      | nil =>
        cases hpending with
        | nested nested => exact .inl ⟨_, tag, _, hcomes, nested, heq⟩
      | cons closer stack => exact absurd (congrArg some heq.symm) hhead
    · exact .inr (.inl ⟨_, _, tag, _, stack, hcomes, hpending, rfl, hcloser, heq⟩)

end

end Outcomes

section

variable {env : DraftEnv} {d : Draft} {name expected : String} {j : Nat} {tag : Tag}
  (hkinds : env.kinds.Apart) (hname : isCloser name = true)

include hkinds hname

theorem ClosesAt.findTag_eq (h : ClosesAt env.kinds env.tokens name d.idx j) :
    env.findTag d name = .ok j := by
  rw [DraftEnv.findTag, h.closingTag_eq hkinds hname]
  rfl

theorem ClashesAt.findTag_eq (h : ClashesAt env.kinds env.tokens name d.idx j expected tag) :
    env.findTag d name =
      .error (.nestingAt (.unexpected expected tag.source) env.files tag.pos) := by
  rw [DraftEnv.findTag, h.closingTag_eq hkinds hname]
  rfl

/-- The error names the block that the tokens end in: a verbatim one, or the one looked at. -/
theorem RunsOut.findTag_eq (h : RunsOut env.kinds env.tokens d.idx) :
    ∃ source pos, env.findTag d name = .error (.atPos (.tagNotClosed source) env.files pos) := by
  rw [DraftEnv.findTag, h.closingTag_eq hkinds hname, TagKinds.endFault]
  cases (env.tokens.drop (d.idx + 1)).foldl env.kinds.behind none with
  | some opener => exact ⟨opener.source, opener.pos, rfl⟩
  | none => exact ⟨_, env.posOf d, rfl⟩

end

/-- The search for the closing tag of a block is a search for the matching bracket, for kinds of tags
where no closing tag opens a block. It finds the first tag of the name with a nested word in front of
it. It reports the nesting, at the tag it is about, exactly when a closing tag comes before that one
which closes neither the innermost open block nor, where none is open, the block itself. And it
reports a tag that is not closed exactly when the tokens end first. -/
theorem findTag_exact {env : DraftEnv} (hkinds : env.kinds.Apart) (d : Draft) (block : String) :
    (∀ j, env.findTag d (closerOf block) = .ok j ↔
      ClosesAt env.kinds env.tokens (closerOf block) d.idx j ∧
        ∀ k, ClosesAt env.kinds env.tokens (closerOf block) d.idx k → j ≤ k) ∧
    ((∃ fault context, env.findTag d (closerOf block) = .error ⟨.nesting fault, context⟩) ↔
      ∃ j expected tag, ClashesAt env.kinds env.tokens (closerOf block) d.idx j expected tag ∧
        ∀ k, ClosesAt env.kinds env.tokens (closerOf block) d.idx k → j < k) ∧
    (∀ j expected tag, ClashesAt env.kinds env.tokens (closerOf block) d.idx j expected tag →
      env.findTag d (closerOf block) =
        .error (.nestingAt (.unexpected expected tag.source) env.files tag.pos)) ∧
    ((∃ source context, env.findTag d (closerOf block) = .error ⟨.tagNotClosed source, context⟩) ↔
      RunsOut env.kinds env.tokens d.idx) := by
  have hname := isCloser_closerOf block
  have hcloses (j : Nat) (h : ClosesAt env.kinds env.tokens (closerOf block) d.idx j) :
      env.findTag d (closerOf block) = .ok j := h.findTag_eq hkinds hname
  have hclashes (j : Nat) (expected : String) (tag : Tag)
      (h : ClashesAt env.kinds env.tokens (closerOf block) d.idx j expected tag) :
      env.findTag d (closerOf block) =
        .error (.nestingAt (.unexpected expected tag.source) env.files tag.pos) :=
    h.findTag_eq hkinds hname
  have hrunsOut := RunsOut.findTag_eq (d := d) hkinds hname
  have houtcome := closes_or_clashes_or_runsOut hkinds env.tokens (closerOf block) d.idx
  refine ⟨fun j => ⟨fun hfound => ?_, fun h => hcloses j h.1⟩, ⟨?_, ?_⟩, hclashes, ⟨?_, ?_⟩⟩
  · have hsame : ∀ k, ClosesAt env.kinds env.tokens (closerOf block) d.idx k → k = j := fun k h =>
      Except.ok.inj ((hcloses k h).symm.trans hfound)
    obtain ⟨k, h⟩ | ⟨k, expected, tag, h⟩ | h := houtcome
    · obtain rfl := hsame k h
      exact ⟨h, fun l hl => Nat.le_of_eq (hsame l hl).symm⟩
    · cases (hclashes k expected tag h).symm.trans hfound
    · obtain ⟨source, pos, h⟩ := hrunsOut h
      cases h.symm.trans hfound
  · rintro ⟨fault, context, hfailed⟩
    obtain ⟨k, h⟩ | ⟨k, expected, tag, h⟩ | h := houtcome
    · cases (hcloses k h).symm.trans hfailed
    · exact ⟨k, expected, tag, h, fun l hl => by cases (hcloses l hl).symm.trans hfailed⟩
    · obtain ⟨source, pos, h⟩ := hrunsOut h
      cases h.symm.trans hfailed
  · rintro ⟨j, expected, tag, h, -⟩
    exact ⟨_, _, hclashes j expected tag h⟩
  · rintro ⟨source, context, hfailed⟩
    obtain ⟨k, h⟩ | ⟨k, expected, tag, h⟩ | h := houtcome
    · cases (hcloses k h).symm.trans hfailed
    · cases (hclashes k expected tag h).symm.trans hfailed
    · exact h
  · intro h
    obtain ⟨source, pos, h⟩ := hrunsOut h
    exact ⟨source, _, h⟩

/-- An `if` with a verbatim block and a loop in it; what the verbatim block holds closes no block. -/
def strayInVerbatim : DraftEnv where
  tokens := ["if", "raw", "endfor", "endraw", "for", "endfor", "endif"].map fun name =>
    .tag ⟨name, "", "", [], name, default⟩
  files := {}
  kinds := TagRegistry.builtin.kinds
  positions := true
  sites := {}

theorem findTag_exact_strayInVerbatim : strayInVerbatim.kinds.Apart ∧
    ClosesAt strayInVerbatim.kinds strayInVerbatim.tokens (closerOf "if") 0 6 := by
  have hkinds : strayInVerbatim.kinds.Apart := builtin_proper.apart
  obtain ⟨hfound, -⟩ := findTag_exact hkinds {} "if"
  exact ⟨hkinds, ((hfound 6).1 (by decide)).1⟩

end Stencil
