import Mathlib.Tactic.ByContra
import Stencil.Generation.Builtin

/-!
# Nested tags

`WellNested` tells of a list of tokens that its blocks are closed in order, verbatim blocks being
passed over as a whole.

* `WellNested.nested`: without the verbatim blocks, the tags that are left are properly nested.
* `closingFrom_append`: the search for a closing tag passes over what is well nested.
* `wellNested_of_closingTag`: what stands before the tag that it finds is well nested.
* `closer_eq`: the first closing tag behind a well-nested part of a block is the one that was found.
-/

namespace Stencil

/-! ## Proper nesting -/

/-- The tokens outside verbatim blocks; the mode is the opener of a verbatim block whose end has not
come yet. -/
def withoutVerbatim (kinds : TagKinds) : Option Tag → List Token → List Token
  | _, [] => []
  | some opener, token :: rest =>
    if token.isTag (closerOf opener.name) then withoutVerbatim kinds none rest
    else withoutVerbatim kinds (some opener) rest
  | none, .tag tag :: rest =>
    if kinds.isVerbatim tag.name then withoutVerbatim kinds (some tag) rest
    else .tag tag :: withoutVerbatim kinds none rest
  | none, token :: rest => token :: withoutVerbatim kinds none rest

/-- The token neither opens nor closes a block. -/
def Token.IsPlain (kinds : TagKinds) (token : Token) : Prop :=
  ∀ tag, token = .tag tag → kinds.isBlock tag.name = false ∧ isCloser tag.name = false

/-- Every tag that opens a block is closed by its own closing tag, in order. -/
inductive Nested (kinds : TagKinds) : List Token → Prop where
  | nil : Nested kinds []
  | plain {token : Token} {rest : List Token} (plain : token.IsPlain kinds)
      (nested : Nested kinds rest) : Nested kinds (token :: rest)
  | block {opener closer : Tag} {inner rest : List Token} (opens : kinds.isBlock opener.name = true)
      (inside : Nested kinds inner) (closes : closer.name = closerOf opener.name)
      (nested : Nested kinds rest) : Nested kinds (.tag opener :: inner ++ .tag closer :: rest)

/-- Blocks are closed in order, and what stands in a verbatim block does not matter. -/
inductive WellNested (kinds : TagKinds) : List Token → Prop where
  | nil : WellNested kinds []
  | plain {token : Token} {rest : List Token} (plain : token.IsPlain kinds)
      (nested : WellNested kinds rest) : WellNested kinds (token :: rest)
  | verbatim {opener : Tag} {closer : Token} {content rest : List Token}
      (opens : kinds.isVerbatim opener.name = true)
      (inside : ∀ token ∈ content, token.isTag (closerOf opener.name) = false)
      (closes : closer.isTag (closerOf opener.name) = true) (nested : WellNested kinds rest) :
      WellNested kinds (.tag opener :: content ++ closer :: rest)
  | block {opener closer : Tag} {inner rest : List Token} (opens : kinds.isBlock opener.name = true)
      (looked : kinds.isVerbatim opener.name = false) (inside : WellNested kinds inner)
      (closes : closer.name = closerOf opener.name) (nested : WellNested kinds rest) :
      WellNested kinds (.tag opener :: inner ++ .tag closer :: rest)

/-- Verbatim blocks are blocks, and no closing tag opens one. -/
structure TagKinds.Proper (kinds : TagKinds) : Prop where
  verbatim : ∀ name, kinds.isVerbatim name = true → kinds.isBlock name = true
  closer : ∀ name, isCloser name = true → kinds.isBlock name = false

theorem isCloser_closerOf (name : String) : isCloser (closerOf name) = true := by
  simp [isCloser, closerOf, String.toList_append]

namespace TagKinds.Proper

variable {kinds : TagKinds}

theorem looked_of_isBlock (h : kinds.Proper) {name : String} (hb : kinds.isBlock name = false) :
    kinds.isVerbatim name = false := by
  cases hv : kinds.isVerbatim name with
  | false => rfl
  | true => rw [h.verbatim name hv] at hb; cases hb

theorem not_closer (h : kinds.Proper) {name : String} (hb : kinds.isBlock name = true) :
    isCloser name = false := by
  cases hc : isCloser name with
  | false => rfl
  | true => rw [h.closer name hc] at hb; cases hb

theorem closerOf_isBlock (h : kinds.Proper) (name : String) :
    kinds.isBlock (closerOf name) = false := h.closer _ (isCloser_closerOf name)

end TagKinds.Proper

theorem mem_blockTags {name : String} :
    TagRegistry.builtin.kinds.isBlock name = true ↔ name ∈ blockTags := by
  simp [TagRegistry.builtin, TagKinds.isBlock, NameSet.ofList, NameSet.mem_insertAll]

theorem mem_verbatimTags {name : String} :
    TagRegistry.builtin.kinds.isVerbatim name = true ↔ name ∈ verbatimTags := by
  simp [TagRegistry.builtin, TagKinds.isVerbatim, NameSet.ofList, NameSet.mem_insertAll]

theorem builtin_proper : TagRegistry.builtin.kinds.Proper where
  verbatim name h := by
    rw [mem_verbatimTags] at h
    exact mem_blockTags.2 (List.mem_append_right _ h)
  closer name h := by
    cases hb : TagRegistry.builtin.kinds.isBlock name with
    | false => rfl
    | true =>
      have hall : ∀ name ∈ blockTags, isCloser name = false := by decide
      rw [hall name (mem_blockTags.1 hb)] at h
      cases h

namespace WellNested

variable {kinds : TagKinds} {word rest : List Token}

theorem append (h : WellNested kinds word) (hrest : WellNested kinds rest) :
    WellNested kinds (word ++ rest) := by
  induction h with
  | nil => exact hrest
  | plain plain _ ih => exact .plain plain ih
  | verbatim opens inside closes _ ih =>
    simp only [List.append_assoc, List.cons_append]
    exact .verbatim opens inside closes ih
  | block opens looked inside closes _ _ ih =>
    simp only [List.append_assoc, List.cons_append]
    exact .block opens looked inside closes ih

theorem singleton {token : Token} (h : token.IsPlain kinds) : WellNested kinds [token] :=
  .plain h .nil

/-! ## Leaving out verbatim blocks -/

theorem withoutVerbatim_content {opener : Tag} {content : List Token} {closer : Token}
    (inside : ∀ token ∈ content, token.isTag (closerOf opener.name) = false)
    (closes : closer.isTag (closerOf opener.name) = true) :
    withoutVerbatim kinds (some opener) (content ++ closer :: rest) =
      withoutVerbatim kinds none rest := by
  induction content with
  | nil => simp [withoutVerbatim, closes]
  | cons token content ih =>
    rw [List.cons_append, withoutVerbatim, inside token List.mem_cons_self]
    exact ih fun t ht => inside t (List.mem_cons_of_mem _ ht)

theorem withoutVerbatim_plain (hk : kinds.Proper) {token : Token} (h : token.IsPlain kinds) :
    withoutVerbatim kinds none (token :: rest) = token :: withoutVerbatim kinds none rest := by
  cases token with
  | raw => rfl
  | object => rfl
  | tag tag => simp [withoutVerbatim, hk.looked_of_isBlock (h tag rfl).1]

theorem withoutVerbatim_append (hk : kinds.Proper) (h : WellNested kinds word) (more : List Token) :
    withoutVerbatim kinds none (word ++ more) =
      withoutVerbatim kinds none word ++ withoutVerbatim kinds none more := by
  induction h generalizing more with
  | nil => rfl
  | plain plain _ ih =>
    rw [List.cons_append, withoutVerbatim_plain hk plain, withoutVerbatim_plain hk plain, ih]
    rfl
  | verbatim opens inside closes _ ih =>
    simp only [List.append_assoc, List.cons_append, withoutVerbatim, opens, if_true]
    rw [withoutVerbatim_content inside closes, withoutVerbatim_content inside closes, ih]
  | @block opener closer inner rest opens looked inside closes _ ihinner ih =>
    have hcloser : kinds.isVerbatim closer.name = false := by
      rw [closes]
      exact hk.looked_of_isBlock (hk.closerOf_isBlock _)
    simp only [List.append_assoc, List.cons_append, withoutVerbatim, looked, Bool.false_eq_true,
      if_false]
    rw [ihinner, ihinner]
    simp [withoutVerbatim, hcloser, ih]

/-- Without the verbatim blocks, the tags that are left are properly nested. -/
theorem nested (hk : kinds.Proper) (h : WellNested kinds word) :
    Nested kinds (withoutVerbatim kinds none word) := by
  induction h with
  | nil => exact .nil
  | plain plain _ ih =>
    rw [withoutVerbatim_plain hk plain]
    exact .plain plain ih
  | verbatim opens inside closes _ ih =>
    simp only [List.cons_append, withoutVerbatim, opens, if_true]
    rw [withoutVerbatim_content inside closes]
    exact ih
  | @block opener closer inner rest opens looked inside closes _ ihinner ih =>
    have hcloser : kinds.isVerbatim closer.name = false := by
      rw [closes]
      exact hk.looked_of_isBlock (hk.closerOf_isBlock _)
    simp only [List.cons_append, withoutVerbatim, looked, Bool.false_eq_true, if_false]
    rw [withoutVerbatim_append hk inside]
    simp only [withoutVerbatim, hcloser, Bool.false_eq_true, if_false]
    exact .block opens ihinner closes ih

end WellNested

/-! ## The search for closing tags -/

section Search

variable {kinds : TagKinds} {name : String}

theorem closingFrom_content {opener : Tag} {content rest : List Token} {closer : Token}
    {stack : List String} {idx : Nat}
    (inside : ∀ token ∈ content, token.isTag (closerOf opener.name) = false)
    (closes : closer.isTag (closerOf opener.name) = true) :
    closingFrom kinds name (some opener) stack idx (content ++ closer :: rest) =
      closingFrom kinds name none stack (idx + (content.length + 1)) rest := by
  induction content generalizing idx with
  | nil => simp [closingFrom, closes]
  | cons token content ih =>
    rw [List.cons_append, closingFrom, inside token List.mem_cons_self]
    rw [if_neg (by decide), ih fun t ht => inside t (List.mem_cons_of_mem _ ht)]
    rw [List.length_cons]
    congr 1
    omega

theorem closingFrom_plain (hk : kinds.Proper) (hname : isCloser name = true) {token : Token}
    (h : token.IsPlain kinds) {stack : List String} {idx : Nat} {rest : List Token} :
    closingFrom kinds name none stack idx (token :: rest) =
      closingFrom kinds name none stack (idx + 1) rest := by
  cases token with
  | raw => rfl
  | object => rfl
  | tag tag =>
    obtain ⟨hblock, hcloser⟩ := h tag rfl
    have hne : tag.name ≠ name := by
      intro heq
      rw [heq, hname] at hcloser
      cases hcloser
    simp [closingFrom, hne, hblock, hcloser, hk.looked_of_isBlock hblock]

/-- The search for a closing tag passes over what is well nested. -/
theorem closingFrom_append (hk : kinds.Proper) (hname : isCloser name = true) {word : List Token}
    (h : WellNested kinds word) (stack : List String) (idx : Nat) (rest : List Token) :
    closingFrom kinds name none stack idx (word ++ rest) =
      closingFrom kinds name none stack (idx + word.length) rest := by
  induction h generalizing stack idx rest with
  | nil => simp
  | plain plain _ ih =>
    rw [List.cons_append, closingFrom_plain hk hname plain, ih, List.length_cons]
    congr 1
    omega
  | @verbatim opener closer content more opens inside closes _ ih =>
    have hne : opener.name ≠ name := by
      rintro rfl
      rw [hk.not_closer (hk.verbatim _ opens)] at hname
      cases hname
    simp only [List.append_assoc, List.cons_append, closingFrom, hne, opens, decide_false,
      Bool.false_and, Bool.false_eq_true, if_false, if_true]
    rw [closingFrom_content inside closes, ih]
    congr 1
    simp only [List.length_cons, List.length_append]
    omega
  | @block opener closer inner more opens looked inside closes _ ihinner ih =>
    have hne : opener.name ≠ name := by
      rintro rfl
      rw [hk.not_closer opens] at hname
      cases hname
    have hcloser := hk.closerOf_isBlock opener.name
    simp only [List.append_assoc, List.cons_append, closingFrom, hne, opens, looked, decide_false,
      Bool.false_and, Bool.false_eq_true, if_false, if_true]
    rw [ihinner]
    simp only [closingFrom, List.isEmpty_cons, Bool.and_false, Bool.false_eq_true, if_false, closes,
      hk.looked_of_isBlock hcloser, hcloser, isCloser_closerOf, if_true]
    rw [ih]
    congr 1
    simp only [List.length_cons, List.length_append]
    omega

/-- The word closes the blocks of a stack in order. -/
inductive Unwinds (kinds : TagKinds) : List String → List Token → Prop where
  | done {word : List Token} (nested : WellNested kinds word) : Unwinds kinds [] word
  | close {closer : String} {stack : List String} {tag : Tag} {word rest : List Token}
      (nested : WellNested kinds word) (closes : tag.name = closer)
      (unwinds : Unwinds kinds stack rest) :
      Unwinds kinds (closer :: stack) (word ++ .tag tag :: rest)

namespace Unwinds

variable {stack : List String} {word rest : List Token}

theorem prepend (hword : WellNested kinds word) (h : Unwinds kinds stack rest) :
    Unwinds kinds stack (word ++ rest) := by
  cases h with
  | done nested => exact .done (hword.append nested)
  | close nested closes unwinds =>
    rw [← List.append_assoc]
    exact .close (hword.append nested) closes unwinds

/-- A block that is opened is the first one to be closed. -/
theorem opened {opener : Tag} (opens : kinds.isBlock opener.name = true)
    (looked : kinds.isVerbatim opener.name = false)
    (h : Unwinds kinds (closerOf opener.name :: stack) rest) :
    Unwinds kinds stack (.tag opener :: rest) := by
  cases h with
  | @close _ _ tag word rest nested closes unwinds =>
    have hblock : WellNested kinds (.tag opener :: word ++ [.tag tag]) :=
      .block opens looked nested closes .nil
    have := unwinds.prepend hblock
    simpa using this

end Unwinds

/-- What stands before the tag that is found: the end of a verbatim block, if the search starts in
one, and the closing tags of the blocks that were open. -/
def Leads (kinds : TagKinds) (name : String) (mode : Option Tag) (stack : List String) (idx : Nat)
    (tokens : List Token) (found : Nat) : Prop :=
  ∃ content word tag rest, tokens = content ++ word ++ .tag tag :: rest ∧
    found = idx + content.length + word.length ∧ tag.name = name ∧ Unwinds kinds stack word ∧
    match mode with
    | none => content = []
    | some opener => ∃ body closer, content = body ++ [closer] ∧
      (∀ token ∈ body, token.isTag (closerOf opener.name) = false) ∧
      closer.isTag (closerOf opener.name) = true

theorem Leads.step {stack stack' : List String} {idx found : Nat} {token : Token}
    {rest : List Token} (h : Leads kinds name none stack' (idx + 1) rest found)
    (hunwinds : ∀ word, Unwinds kinds stack' word → Unwinds kinds stack (token :: word)) :
    Leads kinds name none stack idx (token :: rest) found := by
  obtain ⟨content, word, tag, more, htokens, hfound, hname, hword, hcontent⟩ := h
  dsimp only at hcontent
  subst hcontent
  refine ⟨[], token :: word, tag, more, by simp [htokens], ?_, hname, hunwinds word hword, rfl⟩
  simp only [List.length_cons, List.length_nil] at hfound ⊢
  omega

theorem leads_of_closingFrom {mode : Option Tag} {stack : List String}
    {idx found : Nat} {tokens : List Token}
    (h : closingFrom kinds name mode stack idx tokens = .ok found) :
    Leads kinds name mode stack idx tokens found := by
  fun_induction closingFrom kinds name mode stack idx tokens with
  | case1 => cases h
  | case2 => cases h
  | case3 opener stack idx token rest hcloser ih =>
    obtain ⟨content, word, tag, more, htokens, hfound, hname, hunwinds, hmode⟩ := ih h
    dsimp only at hmode
    subst hmode
    refine ⟨[token], word, tag, more, by simp [htokens], ?_, hname, hunwinds, [], token, rfl, ?_,
      hcloser⟩
    · simp only [List.length_nil, List.length_singleton] at hfound ⊢
      omega
    · exact fun t ht => absurd ht List.not_mem_nil
  | case4 opener stack idx token rest hcloser ih =>
    obtain ⟨content, word, tag, more, htokens, hfound, hname, hunwinds, body, closer, hcontent,
      hbody, hcloses⟩ := ih h
    refine ⟨token :: content, word, tag, more, by simp [htokens], ?_, hname, hunwinds,
      token :: body, closer, by simp [hcontent], ?_, hcloses⟩
    · simp only [List.length_cons] at hfound ⊢
      omega
    · intro t ht
      rcases List.mem_cons.1 ht with rfl | ht
      · simpa using hcloser
      · exact hbody t ht
  | case5 stack idx tag rest hfound =>
    rw [Bool.and_eq_true, decide_eq_true_eq, List.isEmpty_iff] at hfound
    obtain ⟨hname, rfl⟩ := hfound
    obtain rfl := Except.ok.inj h
    exact ⟨[], [], tag, rest, rfl, rfl, hname, .done .nil, rfl⟩
  | case6 stack idx tag rest _ hverbatim ih =>
    obtain ⟨content, word, found, more, htokens, hfound, hname, hunwinds, body, closer, hcontent,
      hbody, hcloses⟩ := ih h
    have hblock : WellNested kinds (.tag tag :: body ++ [closer]) :=
      .verbatim hverbatim hbody hcloses .nil
    refine ⟨[], .tag tag :: content ++ word, found, more, by simp [htokens], ?_, hname, ?_, rfl⟩
    · simp only [List.length_cons, List.length_append, List.length_nil] at hfound ⊢
      omega
    · have := hunwinds.prepend hblock
      simpa [hcontent] using this
  | case7 stack idx tag rest _ hverbatim hblock ih =>
    exact (ih h).step fun _ hw => hw.opened hblock (by simpa using hverbatim)
  | case8 => cases h
  | case9 idx tag rest _ _ _ _ stack ih => exact (ih h).step fun _ hw => .close .nil rfl hw
  | case10 => cases h
  | case11 stack idx tag rest _ hverbatim hblock hcloser ih =>
    have hplain : Token.IsPlain kinds (.tag tag) := by
      rintro _ ⟨rfl⟩
      exact ⟨by simpa using hblock, by simpa using hcloser⟩
    exact (ih h).step fun _ hw => hw.prepend (.singleton hplain)
  | case12 stack idx token rest hne ih =>
    have hplain : Token.IsPlain kinds token := fun tag htag => absurd htag (hne tag)
    exact (ih h).step fun _ hw => hw.prepend (.singleton hplain)

end Search

/-! ## Ranges of tokens -/

/-- The tokens from one index up to another. -/
def between (tokens : List Token) (start stop : Nat) : List Token := (tokens.take stop).drop start

section Ranges

variable {kinds : TagKinds} {tokens : List Token} {start i j stop : Nat}

theorem between_self (tokens : List Token) (i : Nat) : between tokens i i = [] := by
  simp [between]

theorem between_append (hstart : start ≤ i) (hi : i ≤ j) :
    between tokens start i ++ between tokens i j = between tokens start j := by
  simp only [between, List.drop_take]
  rw [show j - start = (i - start) + (j - i) by omega, List.take_add, List.drop_drop,
    show start + (i - start) = i by omega]

theorem between_succ {token : Token} (h : tokens[i]? = some token) :
    between tokens i (i + 1) = [token] := by
  obtain ⟨hlt, htoken⟩ := List.getElem?_eq_some_iff.1 h
  simp only [between, List.drop_take, Nat.add_sub_cancel_left]
  rw [List.drop_eq_getElem_cons hlt, htoken]
  rfl

theorem length_between (h : stop ≤ tokens.length) :
    (between tokens start stop).length = stop - start := by
  simp only [between, List.length_drop, List.length_take]
  omega

theorem drop_eq_between (h : start ≤ i) (hi : i ≤ tokens.length) :
    tokens.drop start = between tokens start i ++ tokens.drop i := by
  have : tokens = tokens.take i ++ tokens.drop i := (List.take_append_drop i tokens).symm
  conv => lhs; rw [this]
  rw [List.drop_append_of_le_length (by simp only [List.length_take]; omega)]
  rfl

theorem between_eq_of_drop {word rest : List Token} (h : tokens.drop start = word ++ rest) :
    between tokens start (start + word.length) = word := by
  simp only [between, List.drop_take, Nat.add_sub_cancel_left]
  rw [h, List.take_left]

theorem getElem?_of_drop {word rest : List Token} {token : Token}
    (h : tokens.drop start = word ++ token :: rest) :
    tokens[start + word.length]? = some token := by
  rw [← List.getElem?_drop, h]
  simp

/-- What stands before the closing tag of a block is well nested. -/
theorem wellNested_of_closingTag {name : String} (h : closingTag kinds tokens name i = .ok stop) :
    WellNested kinds (between tokens (i + 1) stop) ∧
      ∃ tag, tokens[stop]? = some (.tag tag) ∧ tag.name = name := by
  obtain ⟨content, word, tag, rest, htokens, rfl, hname, hunwinds, hcontent⟩ :=
    leads_of_closingFrom h
  dsimp only at hcontent
  subst hcontent
  rw [List.nil_append] at htokens
  cases hunwinds with
  | done nested =>
    refine ⟨?_, tag, ?_, hname⟩
    · rw [List.length_nil, Nat.add_zero, between_eq_of_drop htokens]
      exact nested
    · rw [List.length_nil, Nat.add_zero]
      exact getElem?_of_drop htokens

/-- A block is well nested, from its opener to its closing tag. -/
theorem wellNested_block {opener : Tag} (hopener : tokens[i]? = some (.tag opener))
    (hblock : kinds.isBlock opener.name = true) (hlooked : kinds.isVerbatim opener.name = false)
    (h : closingTag kinds tokens (closerOf opener.name) i = .ok stop) :
    WellNested kinds (between tokens i (stop + 1)) := by
  obtain ⟨hinner, closer, hcloser, hname⟩ := wellNested_of_closingTag h
  have hlt := lt_of_closingTag h
  rw [← between_append (Nat.le_succ i) (by omega : i + 1 ≤ stop + 1),
    ← between_append (by omega : i + 1 ≤ stop) (Nat.le_succ stop), between_succ hopener,
    between_succ hcloser]
  exact .block hblock hlooked hinner hname .nil

/-- A verbatim block ends at the first tag that closes it. -/
theorem verbatimEnd?_eq_some {opener : String} (h : verbatimEnd? tokens opener i = some stop) :
    i < stop ∧ (∃ closer, tokens[stop]? = some closer ∧ closer.isTag (closerOf opener) = true) ∧
      ∀ token ∈ between tokens (i + 1) stop, token.isTag (closerOf opener) = false := by
  obtain ⟨k, hk, rfl⟩ := Option.map_eq_some_iff.1 h
  obtain ⟨hlt, hcloser, hbefore⟩ := List.findIdx?_eq_some_iff_getElem.1 hk
  refine ⟨by omega, ⟨(tokens.drop (i + 1))[k], ?_, hcloser⟩, fun token ht => ?_⟩
  · rw [← List.getElem?_drop]
    exact List.getElem?_eq_getElem hlt
  · simp only [between, List.drop_take, Nat.add_sub_cancel_left] at ht
    obtain ⟨m, hm, rfl⟩ := List.getElem_of_mem ht
    simp only [List.length_take] at hm
    rw [List.getElem_take]
    simpa using hbefore m (by omega)

theorem wellNested_verbatim {opener : Tag} (hopener : tokens[i]? = some (.tag opener))
    (hverbatim : kinds.isVerbatim opener.name = true)
    (h : verbatimEnd? tokens opener.name i = some stop) :
    WellNested kinds (between tokens i (stop + 1)) := by
  obtain ⟨hlt, ⟨closer, hcloser, hcloses⟩, hinside⟩ := verbatimEnd?_eq_some h
  rw [← between_append (Nat.le_succ i) (by omega : i + 1 ≤ stop + 1),
    ← between_append (by omega : i + 1 ≤ stop) (Nat.le_succ stop), between_succ hopener,
    between_succ hcloser]
  exact .verbatim hverbatim hinside hcloses .nil

/-- The search for the closing tag of a block goes on behind what is well nested. -/
theorem closingFrom_between (hk : kinds.Proper) {name : String} (hname : isCloser name = true)
    (h : closingTag kinds tokens name start = .ok stop) (hstart : start + 1 ≤ i)
    (hi : i ≤ tokens.length) (hnested : WellNested kinds (between tokens (start + 1) i)) :
    closingFrom kinds name none [] i (tokens.drop i) = .ok stop := by
  rw [← h, closingTag, drop_eq_between hstart hi, closingFrom_append hk hname hnested,
    length_between hi]
  congr 1
  omega

/-- The first closing tag behind a well-nested part of a block is the one that was found. -/
theorem closer_eq (hk : kinds.Proper) {name : String} (hname : isCloser name = true)
    (h : closingTag kinds tokens name start = .ok stop) (hstart : start + 1 ≤ i)
    (hnested : WellNested kinds (between tokens (start + 1) i)) {tag : Tag}
    (htag : tokens[i]? = some (.tag tag)) (hcloser : isCloser tag.name = true) :
    tag.name = name ∧ stop = i := by
  obtain ⟨hlt, htoken⟩ := List.getElem?_eq_some_iff.1 htag
  have hrest := closingFrom_between hk hname h hstart (Nat.le_of_lt hlt) hnested
  have hblock := hk.closer _ hcloser
  rw [List.drop_eq_getElem_cons hlt, htoken] at hrest
  by_cases heq : tag.name = name
  · simp only [closingFrom, heq, decide_true, List.isEmpty_nil, Bool.and_self, if_true] at hrest
    exact ⟨heq, (Except.ok.inj hrest).symm⟩
  · simp [closingFrom, heq, hk.looked_of_isBlock hblock, hblock, hcloser] at hrest

/-- A block that is open does not end with the tokens. -/
theorem lt_length_of_open (hk : kinds.Proper) {name : String} (hname : isCloser name = true)
    (h : closingTag kinds tokens name start = .ok stop) (hstart : start + 1 ≤ i)
    (hi : i ≤ tokens.length) (hnested : WellNested kinds (between tokens (start + 1) i)) :
    i < tokens.length := by
  by_contra hlt
  have hrest := closingFrom_between hk hname h hstart hi hnested
  rw [List.drop_eq_nil_of_le (by omega)] at hrest
  cases hrest

end Ranges

end Stencil
