import Stencil.Proofs.Generation.Filled
import Stencil.Proofs.Render.Twin

/-!
# Templates of dotted paths

A token is lexical when every expression of it is a dotted path, no filter of it has arguments, and
it is an object, an assignment, or the tag of a loop or of a condition without `elseif`.

* `Makes.confined`: the pipeline of a path reads what the scope holds, a variable that is listed, or
  one of the words that are never listed.
* `Filled.confined`: so do all pipelines of a body that is made of lexical tokens.
-/

namespace Stencil

open Text

/-! ## Lexical tokens -/

/-- Words that are not listed as variables, though the expression language looks them up. -/
def unlistedWords : List String := reservedWords.filter (!Expression.readsNothing ·)

/-- The expression is a dotted path with a head that stands for itself. -/
def IsPath (head : List Char) (expression : String) : Prop :=
  ∃ text, expression = .ofList text ∧ DottedPath head text ∧ after? dollarSign head = none

/-- The tags of lexical tokens. -/
def lexicalTags : List String :=
  ["assign", "if", "unless", "else", "for", "endif", "endunless", "endfor"]

namespace Token

/-- The expressions of a lexical token. -/
def expressions : Token → List String
  | raw .. => []
  | object expression .. => [expression]
  | tag t =>
    if t.name = "assign" then (AssignmentHead.ofHead? t.head).toList.map (·.value)
    else if t.name = "for" then (LoopHead.ofHead? t.head).toList.map (·.iterable)
    else if t.name = "if" ∨ t.name = "unless" then [t.head]
    else []

/-- The filters of a lexical token; the bounds of a loop are none. -/
def calls : Token → List FilterCall
  | raw .. => []
  | object _ calls .. => calls
  | tag t => if t.name = "for" then t.filters.filter (!Handler.isLoopBound ·) else t.filters

/-- The token starts one of its paths with a word. -/
def StartsWith (token : Token) (word : List Char) : Prop := ∃ e ∈ token.expressions, IsPath word e

/-- All that the token computes are dotted paths. -/
structure IsLexical (token : Token) : Prop where
  tags : ∀ t, token = .tag t → t.name ∈ lexicalTags
  sets : ∀ t head, token = .tag t → t.name = "assign" →
    AssignmentHead.ofHead? t.head = some head → head.op = .set
  paths : ∀ e ∈ token.expressions, ∃ word, IsPath word e
  plain : ∀ call ∈ token.calls, call.args = []

/-- The token is lexical, and `R` has the unlisted words that it reads. -/
def Covered (R : String → Prop) (token : Token) : Prop :=
  token.IsLexical ∧
    ∀ word, token.StartsWith word → .ofList word ∈ unlistedWords → R (.ofList word)

end Token

/-! ## Confined bodies -/

section

variable {R : String → Prop} {σ : Scope}

theorem confinedBody_append {body more : List Instruction} (h : confinedBody R σ body)
    (hmore : confinedBody R (σ.behind body) more) : confinedBody R σ (body ++ more) := by
  induction body generalizing σ with
  | nil => exact hmore
  | cons i is ih =>
    have hbehind : σ.behind (i :: is) = (σ.behind [i]).behind is := Scope.behind_append σ [i] is
    rw [hbehind] at hmore
    exact ⟨h.1, ih h.2 hmore⟩

theorem confinedBody_left {body more : List Instruction} (h : confinedBody R σ (body ++ more)) :
    confinedBody R σ body := by
  induction body generalizing σ with
  | nil => trivial
  | cons i is ih => exact ⟨h.1, ih h.2⟩

theorem confinedBody_singleton {i : Instruction} (h : confined R σ i) : confinedBody R σ [i] :=
  ⟨h, trivial⟩

/-- Noting a position keeps a body confined. -/
theorem confinedBody_mark {found : List Instruction} (h : confinedBody R σ found.reverse) (pos : Pos) :
    confinedBody R σ (Draft.markIn pos found).reverse := by
  have hpos (σ : Scope) : confinedBody R σ [.position pos] := ⟨trivial, trivial⟩
  unfold Draft.markIn
  split
  · rw [List.reverse_cons] at h ⊢
    exact confinedBody_append (confinedBody_left h) (hpos _)
  · rw [List.reverse_cons]
    exact confinedBody_append h (hpos _)

theorem confinedBranches_iff {branches : List Branch} : confinedBranches R σ branches ↔
    ∀ p negated body, .mk p negated body ∈ branches →
      p.Confined R σ ∧ confinedBody R σ.create body := by
  induction branches with
  | nil => exact ⟨fun _ _ _ _ h => absurd h List.not_mem_nil, fun _ => trivial⟩
  | cons b bs ih =>
    obtain ⟨condition, negated, body⟩ := b
    constructor
    · rintro ⟨hcondition, hbody, hrest⟩ p _ inner hmem
      rcases List.mem_cons.1 hmem with heq | hmem
      · cases heq
        exact ⟨hcondition, hbody⟩
      · exact ih.1 hrest p _ inner hmem
    · intro h
      obtain ⟨hcondition, hbody⟩ := h _ _ _ List.mem_cons_self
      exact ⟨hcondition, hbody, ih.2 fun p _ inner hmem => h p _ inner (List.mem_cons_of_mem _ hmem)⟩

theorem confinedBranches_reverse {branches : List Branch} (h : confinedBranches R σ branches) :
    confinedBranches R σ branches.reverse :=
  confinedBranches_iff.2 fun p negated body hmem =>
    confinedBranches_iff.1 h p negated body (List.mem_reverse.1 hmem)

end

/-- What is known of an open block has been confined to the scope around it. -/
def OpenKind.Confined (R : String → Prop) (σ : Scope) : OpenKind → Prop
  | root => True
  | condition _ branches current =>
    confinedBranches R σ branches ∧ ∀ p negated, current = some (p, negated) → p.Confined R σ
  | case .. => False
  | loop _ iterable _ _ => ∃ p, iterable = .pipeline p ∧ p.Confined R σ

/-- A block with confined parts is a confined instruction. -/
theorem OpenKind.Confined.complete {R : String → Prop} {σ : Scope} {kind : OpenKind}
    {content : List Instruction} {i : Instruction} (h : kind.Confined R σ)
    (hbody : confinedBody R (kind.scope σ) content.reverse) (hi : kind.complete? content = some i) :
    confined R σ i := by
  cases kind with
  | root => cases hi
  | condition kind branches current =>
    obtain ⟨hbranches, hcurrent⟩ := h
    cases current with
    | none =>
      cases hi
      exact ⟨confinedBranches_reverse hbranches, hbody⟩
    | some current =>
      cases hi
      exact ⟨confinedBranches_reverse ⟨hcurrent _ _ rfl, hbody, hbranches⟩, trivial⟩
  | case => exact h.elim
  | loop binding iterable offset limit =>
    obtain ⟨p, rfl, hp⟩ := h
    cases hi
    exact ⟨hp, hbody⟩

/-! ## Paths are no ranges -/

/-- No two points follow each other in a path. -/
theorem DottedPath.drop_ne {head text : List Char} (h : DottedPath head text) (n : Nat)
    (rest : List Char) : text.drop n ≠ '.' :: '.' :: rest := by
  have hno {word : List Char} (hword : isIdentifier word = true) (n : Nat) (rest : List Char) :
      word.drop n ≠ '.' :: rest := by
    intro hdrop
    have hmem : '.' ∈ word := List.mem_of_mem_drop (hdrop ▸ List.mem_cons_self)
    exact absurd (isIdentifier_all hword _ hmem) (by decide)
  induction h generalizing n with
  | name ident => exact hno ident n _
  | @member word head tail ident path ih =>
    obtain ⟨c, cs, rfl, hc⟩ := path.exists_cons
    intro hdrop
    rw [List.drop_append] at hdrop
    cases hword : word.drop n with
    | cons d ds =>
      rw [hword] at hdrop
      injection hdrop with hd _
      exact hno ident n ds (hd ▸ hword)
    | nil =>
      rw [hword, List.nil_append] at hdrop
      cases hk : n - word.length with
      | zero =>
        rw [hk] at hdrop
        injection hdrop with _ hdrop
        injection hdrop with hd _
        rw [hd] at hc
        exact absurd hc (by decide)
      | succ k =>
        rw [hk] at hdrop
        exact ih k hdrop

theorem isBoundPart_pathPart {c : Char} (hc : isPathPart c = true) : isBoundPart c = true := by
  have hascii : c.toNat < 128 := by
    have := (pathPart_bounds hc).2
    show c.val.toNat < 128
    omega
  simp only [isPathPart, inSymbolName, startsSymbolName, Bool.or_eq_true] at hc
  simp only [isBoundPart, isWord, isAlphabetic, hascii, if_true, Bool.or_eq_true]
  rcases hc with ((hletter | hunderscore) | hdigit) | hdot
  · exact .inr (.inl hletter)
  · exact .inr (.inr (.inr hunderscore))
  · exact .inr (.inr (.inl hdigit))
  · exact .inl (.inr hdot)

/-- A path is not taken for a range. -/
theorem DottedPath.rangeBounds_eq {head text : List Char} (h : DottedPath head text) :
    rangeBounds? (.ofList text) = none := by
  have hblank : ∀ c ∈ text, isBlank c = false := fun c hc => isBlank_pathPart (h.all c hc)
  have hsecond (n : Nat) : secondBound? (text.drop n ++ []) = none := by
    rw [List.append_nil, secondBound?,
      trimLeft_of_no_blank fun c hc => hblank c (List.mem_of_mem_drop hc)]
    split
    · next rest hrest => exact absurd hrest (h.drop_ne n rest)
    · rfl
  have hbounds (size : Nat) : boundsFrom [] text [] size = none := by
    induction size with
    | zero => rfl
    | succ size ih => rw [boundsFrom, hsecond, ih]
  have hspan : text.span isBoundPart = (text, []) := by
    have hall : ∀ c ∈ text, isBoundPart c = true := fun c hc => isBoundPart_pathPart (h.all c hc)
    rw [List.span_eq_takeWhile_dropWhile, List.takeWhile_eq_self_iff.2 hall,
      List.dropWhile_eq_nil_iff.2 hall]
  obtain ⟨c, cs, rfl, hc⟩ := h.exists_cons
  have hparen : c ≠ '(' := by
    rintro rfl
    exact absurd hc (by decide)
  have hminus : c ≠ '-' := by
    rintro rfl
    exact absurd hc (by decide)
  have hcut : boundSpan (c :: cs) = ([], c :: cs, []) := by
    unfold boundSpan
    split
    next sign rest heq =>
      split at heq
      · next hcons => exact absurd (List.cons.inj hcons).1 hminus
      · obtain ⟨rfl, rfl⟩ := Prod.mk.inj heq
        rw [hspan]
  unfold rangeBounds?
  rw [String.toList_ofList]
  split
  · next hcons => exact absurd (List.cons.inj hcons).1 hparen
  · dsimp only
    rw [trimLeft_of_no_blank hblank, hcut]
    exact hbounds _

/-! ## Bodies of lexical tokens -/

section

variable {R L : String → Prop} {σ : Scope}

/-- The pipeline of a path reads a name of the scope, or one in `R`. -/
theorem Makes.confined (hL : ∀ name, L name → R name) {base : String} {calls : List FilterCall}
    {p : Pipeline} (h : Makes L σ base calls p) {word : List Char} (hpath : IsPath word base)
    (hword : .ofList word ∈ unlistedWords → R (.ofList word))
    (hcalls : ∀ call ∈ calls, call.args = []) : p.Confined R σ := by
  obtain ⟨text, rfl, hdotted, hplain⟩ := hpath
  have hmade := h.made
  dsimp only [Pipeline.ofExpression] at hmade
  subst hmade
  refine ⟨⟨word, text, ?_, hdotted, hplain, fun hreads => ?_⟩, fun name hname => ?_, hcalls⟩
  · rw [Text.trimmed, String.toList_ofList, hdotted.trim_eq]
  · cases hreserved : reservedWords.contains (.ofList word) with
    | true =>
      refine .inr (hword (List.mem_filter.2 ⟨List.contains_iff_mem.1 hreserved, ?_⟩))
      rw [hreads]
      rfl
    | false =>
      cases hhas : σ.has (.ofList word) with
      | true => exact .inl rfl
      | false =>
        refine .inr (hL _ (h.known _ ?_))
        have haccess := hdotted.access_eq
        rw [hreserved] at haccess
        simp [Scope.needed, haccess, hhas]
  · exact hL name (h.known name hname)

end

section

variable {env : DraftEnv} {R L : String → Prop} {A : Nat → Scope → Prop} {σ : Scope} {i : Nat}

theorem Token.Covered.tag_mem {tag : Tag} (h : Token.Covered R (.tag tag)) :
    tag.name ∈ lexicalTags := h.1.tags tag rfl

/-- An expression of a covered token is confined. -/
theorem Makes.covered (hL : ∀ name, L name → R name) {token : Token} (h : token.Covered R)
    {base : String} {calls : List FilterCall} {p : Pipeline} (makes : Makes L σ base calls p)
    (hbase : base ∈ token.expressions) (hcalls : calls = token.calls) : p.Confined R σ := by
  obtain ⟨word, hpath⟩ := h.1.paths base hbase
  exact makes.confined hL hpath (h.2 word ⟨base, hbase, hpath⟩) (hcalls ▸ h.1.plain)

/-- A token that opens no verbatim block is not left out. -/
theorem withoutVerbatim_token {tokens : List Token} {token : Token} {j : Nat}
    (here : tokens[i]? = some token) (hlt : i < j)
    (looked : ∀ tag, token = .tag tag → tag.name ∉ verbatimTags) :
    withoutVerbatim TagRegistry.builtin.kinds none (between tokens i j) =
      token :: withoutVerbatim TagRegistry.builtin.kinds none (between tokens (i + 1) j) := by
  rw [← between_append (Nat.le_succ i) hlt, between_succ here]
  cases token with
  | raw => rfl
  | object => rfl
  | tag tag =>
    have hlooked : TagRegistry.builtin.kinds.isVerbatim tag.name = false := by
      simpa [← mem_verbatimTags] using looked tag rfl
    rw [List.singleton_append, withoutVerbatim, hlooked]
    rfl

theorem mem_withoutVerbatim {tokens : List Token} {token : Token} {j : Nat}
    (here : tokens[i]? = some token) (hlt : i < j)
    (looked : ∀ tag, token = .tag tag → tag.name ∉ verbatimTags) :
    token ∈ withoutVerbatim TagRegistry.builtin.kinds none (between tokens i j) := by
  rw [withoutVerbatim_token here hlt looked]
  exact List.mem_cons_self

/-- What a covered token adds to a body is confined. -/
theorem Leaf.confined (hkinds : env.kinds = TagRegistry.builtin.kinds)
    (hL : ∀ name, L name → R name) {added : List Instruction} {j : Nat}
    (h : Leaf env L σ i added j)
    (hcovered : ∀ token ∈ withoutVerbatim TagRegistry.builtin.kinds none (between env.tokens i j),
      token.Covered R) : confinedBody R σ added := by
  have hlt := (h.wellNested hkinds).1
  have covered {token : Token} (here : env.token? i = some token)
      (looked : ∀ tag, token = .tag tag → tag.name ∉ verbatimTags) : token.Covered R :=
    hcovered token (mem_withoutVerbatim here hlt looked)
  have coveredTag {tag : Tag} {name : String} (here : env.token? i = some (.tag tag))
      (hname : tag.name = name) (looked : name ∉ verbatimTags) :
      name ∈ lexicalTags ∧ Token.Covered R (.tag tag) := by
    have htag := covered here fun _ heq => by cases heq; exact hname ▸ looked
    exact ⟨hname ▸ htag.tag_mem, htag⟩
  cases h with
  | text =>
    split
    · trivial
    · exact confinedBody_singleton trivial
  | raw =>
    split
    · trivial
    · exact confinedBody_singleton trivial
  | comment => trivial
  | object here makes =>
    have htoken := covered here fun _ heq => by cases heq
    exact confinedBody_singleton (makes.covered hL htoken (List.mem_singleton_self _) rfl)
  | @assign tag head p here name reads valid makes =>
    obtain ⟨_, htoken⟩ := coveredTag here name (by decide)
    have hset : head.op = .set := htoken.1.sets tag head rfl name reads
    have hcalls : tag.filters = Token.calls (.tag tag) := by
      simp [Token.calls, name]
    have hvalue : head.value ∈ Token.expressions (.tag tag) := by
      simp [Token.expressions, name, reads]
    refine confinedBody_singleton ⟨hset, makes.covered hL htoken hvalue hcalls, fun hdeclares => ?_⟩
    simpa [hset] using hdeclares
  | capture => exact confinedBody_singleton fun hdeclares => by simpa using hdeclares
  | script here name => exact absurd (coveredTag here name (by decide)).1 (by decide)
  | «break» here name => exact absurd (coveredTag here name (by decide)).1 (by decide)
  | «continue» here name => exact absurd (coveredTag here name (by decide)).1 (by decide)
  | mixin here name => exact absurd (coveredTag here name (by decide)).1 (by decide)
  | block here name => exact absurd (coveredTag here name (by decide)).1 (by decide)
  | trim here name => exact absurd (coveredTag here name (by decide)).1 (by decide)
  | @callMixin tag _ here name =>
    have hhead := head_of_handlerName name
    have hall : ∀ name ∈ lexicalTags ++ verbatimTags, name.toList.head? ≠ some '+' := by decide
    refine absurd hhead (hall _ (List.mem_append_left _ (coveredTag here rfl fun hmem => ?_).1))
    exact hall _ (List.mem_append_right _ hmem) hhead

/-- A block that a covered token opens is confined. -/
theorem Opens.confined (hL : ∀ name, L name → R name) {kind : OpenKind}
    (h : Opens env L σ i kind) (hcovered : ∀ token, env.token? i = some token → token.Covered R) :
    kind.Confined R σ := by
  cases h with
  | @condition tag kind p here name makes =>
    have htoken := hcovered _ here
    have hne : tag.name ≠ "assign" ∧ tag.name ≠ "for" := by
      rw [name]
      cases kind <;> decide
    have hcalls : tag.filters = Token.calls (.tag tag) := by simp [Token.calls, hne.2]
    have hhead : tag.head ∈ Token.expressions (.tag tag) := by
      rw [Token.expressions, if_neg hne.1, if_neg hne.2, if_pos]
      · exact List.mem_singleton_self _
      · rw [name]
        cases kind <;> decide
    refine ⟨trivial, fun q negated heq => ?_⟩
    obtain ⟨rfl, _⟩ := Prod.mk.inj (Option.some.inj heq)
    exact makes.covered hL htoken hhead hcalls
  | case here name =>
    have hmem := (hcovered _ here).tag_mem
    rw [name] at hmem
    exact absurd hmem (by decide)
  | @loop tag head binding iterable offset limit here name reads bound offsets limits runs =>
    have htoken := hcovered _ here
    have hcalls : tag.filters.filter (!Handler.isLoopBound ·) = Token.calls (.tag tag) := by
      simp [Token.calls, name]
    have hhead : head.iterable ∈ Token.expressions (.tag tag) := by
      simp [Token.expressions, name, reads]
    cases runs with
    | pipeline _ makes => exact ⟨_, rfl, makes.covered hL htoken hhead hcalls⟩
    | range range =>
      obtain ⟨_, text, htext, hdotted, _⟩ := htoken.1.paths _ hhead
      rw [htext, hdotted.rangeBounds_eq] at range
      split at range <;> cases range

/-- A branch that a covered token completes is confined, and so is the block around it. -/
theorem Turns.confined {τ : Scope} {found : List Instruction} {kind next : OpenKind}
    (h : Turns env L σ i found kind next) (hkind : kind.Confined R τ)
    (hbody : confinedBody R (kind.scope τ) found.reverse)
    (hcovered : ∀ tag, env.token? i = some (.tag tag) → tag.name ∉ verbatimTags →
      Token.Covered R (.tag tag)) : next.Confined R τ := by
  cases h with
  | elseIf here name =>
    have hall : ∀ name ∈ ["elseif", "elsif"], name ∉ verbatimTags ∧ name ∉ lexicalTags := by decide
    obtain ⟨hlooked, hlexical⟩ := hall _ (by simpa using name)
    exact absurd (hcovered _ here hlooked).tag_mem hlexical
  | otherwise =>
    obtain ⟨hbranches, hcurrent⟩ := hkind
    exact ⟨⟨hcurrent _ _ rfl, hbody, hbranches⟩, fun _ _ heq => by cases heq⟩
  | firstArm => exact hkind.elim
  | arm => exact hkind.elim

/-- A body that is made of covered tokens is confined. -/
theorem Filled.confined (hkinds : env.kinds = TagRegistry.builtin.kinds)
    (hL : ∀ name, L name → R name) {start : Nat} {kind : OpenKind} {found : List Instruction}
    (h : Filled env L A σ start kind found i) (hstart : start ≤ env.tokens.length)
    (hopener : kind ≠ .root → ∀ token, env.token? (start - 1) = some token → token.Covered R)
    (hcovered : ∀ token ∈ withoutVerbatim TagRegistry.builtin.kinds none
      (between env.tokens start i), token.Covered R) :
    kind.Confined R σ ∧ confinedBody R (kind.scope σ) found.reverse := by
  -- What covers some tokens covers their well-nested beginning and what follows it.
  have split {start i j : Nat} (hle : start ≤ i) (hlt : i ≤ j)
      (hnested : WellNested TagRegistry.builtin.kinds (between env.tokens start i))
      (hcovered : ∀ token ∈ withoutVerbatim TagRegistry.builtin.kinds none
        (between env.tokens start j), token.Covered R) :
      (∀ token ∈ withoutVerbatim TagRegistry.builtin.kinds none (between env.tokens start i),
        token.Covered R) ∧
      ∀ token ∈ withoutVerbatim TagRegistry.builtin.kinds none (between env.tokens i j),
        token.Covered R := by
    rw [← between_append hle hlt, WellNested.withoutVerbatim_append builtin_proper hnested]
      at hcovered
    exact ⟨fun token hmem => hcovered token (List.mem_append_left _ hmem),
      fun token hmem => hcovered token (List.mem_append_right _ hmem)⟩
  induction h with
  | root => exact ⟨trivial, trivial⟩
  | @opened σ i kind opens _ =>
    refine ⟨opens.confined hL (hopener ?_), trivial⟩
    rintro rfl
    cases opens
  | mark _ _ _ ih =>
    obtain ⟨hkind, hbody⟩ := ih hstart hopener hcovered
    exact ⟨hkind, confinedBody_mark hbody _⟩
  | leaf filled leaf _ ih =>
    obtain ⟨hle, _, hnested⟩ := filled.wellNested hkinds hstart
    have hlt := (leaf.wellNested hkinds).1
    obtain ⟨hbefore, hadded⟩ := split hle (Nat.le_of_lt hlt) hnested hcovered
    obtain ⟨hkind, hbody⟩ := ih hstart hopener hbefore
    rw [List.reverse_append, List.reverse_reverse]
    exact ⟨hkind, confinedBody_append hbody (leaf.confined hkinds hL hadded)⟩
  | @nested σ start i stop kind inner found content tag instruction filled here opener closes body
      complete ih ihbody =>
    obtain ⟨hle, _, hnested⟩ := filled.wellNested hkinds hstart
    obtain ⟨hi, _⟩ := List.getElem?_eq_some_iff.1 here
    have hlt := lt_of_closingTag closes
    have hopens := inner.opener_mem (by rintro rfl; cases complete)
    have hlooked : ∀ t, Token.tag tag = .tag t → t.name ∉ verbatimTags := by
      rintro t ⟨rfl⟩
      exact opener ▸ hopens.2
    obtain ⟨hbefore, hblock⟩ := split hle (by omega : i ≤ stop + 1) hnested hcovered
    rw [withoutVerbatim_token here (by omega) hlooked] at hblock
    have htag := hblock _ List.mem_cons_self
    obtain ⟨hinner, _, hcontent⟩ := body.wellNested hkinds hi
    obtain ⟨hinside, _⟩ := split hinner (Nat.le_succ stop) hcontent
      fun token hmem => hblock token (List.mem_cons_of_mem _ hmem)
    obtain ⟨hkind, hbody⟩ := ih hstart hopener hbefore
    obtain ⟨hopened, hfilled⟩ := ihbody hi (fun _ token htoken => by
      rw [Nat.add_sub_cancel, here] at htoken
      exact Option.some.inj htoken ▸ htag) hinside
    rw [List.reverse_cons]
    exact ⟨hkind, confinedBody_append hbody
      (confinedBody_singleton (hopened.complete hfilled complete))⟩
  | turn filled turns _ ih =>
    obtain ⟨hle, _, hnested⟩ := filled.wellNested hkinds hstart
    obtain ⟨hbefore, hturn⟩ := split hle (Nat.le_succ _) hnested hcovered
    obtain ⟨hkind, hbody⟩ := ih hstart (fun _ => hopener (by rintro rfl; cases turns)) hbefore
    refine ⟨turns.confined hkind hbody fun tag here hlooked => ?_, trivial⟩
    exact hturn _ (mem_withoutVerbatim here (Nat.lt_succ_self _)
      fun _ heq => by cases heq; exact hlooked)

end

end Stencil
