import Stencil.Proofs.Generation.Lasting

/-!
# Conditions behind the first one

The condition of `elseif` is compiled while the branch before it is still open: its scope is not the
one around the `if`, but the one behind that branch. The branches before have been closed by then.

* `Scope.needed_opened`: which variables a condition needs in such a scope.
* `followsLasting`: a condition stays right behind the branch before it.
* `Change.follows`: an `elseif` puts its condition behind the branch that it completes.
* `generate_chains`: so each condition is in the program, and needs a variable exactly if neither the
  scope around the `if` nor the branch right before binds it.
-/

namespace Stencil

/-! ## Scopes of conditions -/

namespace Scope

variable {σ : Scope} {expression name : String}

/-- The variable that an expression reads, wherever it stands. -/
def variableIn? (expression : String) : Option String :=
  (Access.ofExpression? expression).map Access.variableName

theorem needed_eq_some : σ.needed expression = some name ↔
    variableIn? expression = some name ∧ σ.has name = false := by
  unfold needed variableIn?
  cases Access.ofExpression? expression with
  | none => simp
  | some access =>
    simp only [Option.bind_some, Option.map_some, Option.some.injEq]
    constructor
    · intro h
      split at h
      · cases h
      · next hfree =>
        obtain rfl := Option.some.inj h
        exact ⟨rfl, Bool.not_eq_true _ ▸ hfree⟩
    · rintro ⟨rfl, hfree⟩
      simp [hfree]

/-- Behind a body with a frame of its own, the names that it binds are known besides those around. -/
theorem needed_opened (body : List Instruction) :
    (σ.create.behind body).needed expression = some name ↔ variableIn? expression = some name ∧
      σ.has name = false ∧ name ∉ body.flatMap Instruction.binds := by
  rw [needed_eq_some, ← Bool.not_eq_true, behind, has_opened, ← Bool.not_eq_true, not_or]
  simp only [and_comm]

end Scope

theorem Pipeline.needed_ofExpression (σ : Scope) (base : String) (calls : List FilterCall) :
    (ofExpression σ base calls).needed = σ.needed base := by
  simp only [ofExpression]

/-! ## Neighbours -/

/-- A condition that is not negated stands right behind a branch. -/
def OpenKind.Follows (q : Pipeline) (b : Branch) : OpenKind → Prop
  | condition _ branches current =>
    (current = some (q, false) ∧ branches.head? = some b) ∨
      ∃ body, [.mk q false body, b] <:+: branches
  | _ => False

/-- It does so in a condition that is complete. -/
def Instruction.Follows (q : Pipeline) (b : Branch) : Instruction → Prop
  | choose branches _ => ∃ body, [b, .mk q false body] <:+: branches
  | _ => False

section

variable {env : DraftEnv} {L : String → Prop} {A : Nat → Scope → Prop} {σ σ' : Scope} {i j : Nat}
  {kind next : OpenKind} {found : List Instruction}

/-- When the branch of the condition is complete, both are. -/
theorem OpenKind.Follows.completes {q p : Pipeline} {b : Branch} {k : ConditionKind} {negated : Bool}
    {branches : List Branch} (h : (condition k branches (some (p, negated))).Follows q b)
    (body : List Instruction) :
    ∃ inside, [.mk q false inside, b] <:+: .mk p negated body :: branches := by
  obtain ⟨hcurrent, hhead⟩ | ⟨inside, hinfix⟩ := h
  · obtain ⟨rfl, rfl⟩ := Prod.mk.inj (Option.some.inj hcurrent)
    obtain ⟨rest, rfl⟩ := List.head?_eq_some_iff.1 hhead
    exact ⟨body, [], rest, rfl⟩
  · exact ⟨inside, List.infix_cons hinfix⟩

theorem followsLasting (q : Pipeline) (b : Branch) : Lasting (·.Follows q b) (·.Follows q b) where
  inner h hroot := by
    subst hroot
    exact h
  turns hturns h := by
    cases hturns with
    | elseIf | otherwise => exact .inr (h.completes _)
    | firstArm | arm => exact h
  complete {kind content x} hcomplete h := by
    cases kind with
    | root | case | loop => exact h.elim
    | condition kind branches current =>
      cases current with
      | some current =>
        cases hcomplete
        obtain ⟨body, hinfix⟩ := h.completes content.reverse
        exact ⟨body, List.reverse_infix.2 hinfix⟩
      | none =>
        cases hcomplete
        obtain ⟨hcurrent, _⟩ | ⟨body, hinfix⟩ := h
        · cases hcurrent
        · exact ⟨body, List.reverse_infix.2 hinfix⟩
  written {x} h := by
    cases x <;> first | rfl | exact h.elim

/-! ## Branches that are completed -/

/-- A block was opened in its scope by a tag that was generated there. -/
theorem Filled.opened_held {start : Nat} (h : Filled env L A σ start kind found i)
    (hinner : kind ≠ .root) : ∃ k, start = k + 1 ∧ A k σ := by
  induction h with
  | root => exact absurd rfl hinner
  | opened _ held => exact ⟨_, rfl, held⟩
  | mark _ _ _ ih | leaf _ _ _ ih => exact ih hinner
  | nested _ _ _ _ _ _ ih => exact ih hinner
  | turn _ turns _ ih => exact ih fun hroot => by subst hroot; cases turns

/-- The innermost block is an `if` that was opened in the scope `σ₀`, and its branch `b` has just been
completed; the scope `σ` is the one behind it. -/
structure Completes (env : DraftEnv) (A : Nat → Scope → Prop) (σ : Scope) (i : Nat) (k : Nat)
    (σ₀ : Scope) (b : Branch) : Prop where
  opener : ∃ tag, env.token? k = some (.tag tag) ∧ tag.name = "if"
  held : A k σ₀
  lt : k < i
  nested : WellNested TagRegistry.builtin.kinds (between env.tokens (k + 1) i)
  scope : σ = conditionScope σ₀ (some b)

/-- An `elseif` completes a branch, and puts its condition behind it. -/
theorem Change.follows {tag : Tag} {τ : Scope} {start : Nat} {below stack stack' : List OpenBlock}
    (hkinds : env.kinds = TagRegistry.builtin.kinds) (here : env.token? i = some (.tag tag))
    (hname : tag.name = "elseif" ∨ tag.name = "elsif")
    (hstacked : Stacked env L A τ start below stack σ i)
    (h : Change env L σ i stack stack' σ' j) :
    ∃ k σ₀ b q, Completes env A σ i k σ₀ b ∧ Makes L σ tag.head tag.filters q ∧
      Holding (·.Follows q b) (·.Follows q b) stack' := by
  have hpart : (Token.tag tag).blockTag? = some "if" := by
    rcases hname with hname | hname <;> simp [Token.blockTag?, hname]
  have same {other : Tag} (hother : env.token? i = some (.tag other)) : other = tag :=
    Token.tag.inj (Option.some.inj (hother.symm.trans here))
  cases h with
  | leaf leaf => rw [leaf.whole here] at hpart; cases hpart
  | @opens _ kind other _ here' opener opens =>
    obtain rfl := same here'
    have hblock := (kind.opener_mem (by rintro rfl; cases opens)).1
    rw [Token.opener_whole (opener ▸ hblock)] at hpart
    cases hpart
  | @closes kind _ _ _ _ other _ here' closer =>
    obtain rfl := same here'
    rw [Token.closer_whole (closer ▸ isCloser_closerOf _)] at hpart
    cases hpart
  | @turns _ _ found _ turns =>
    have label {l : ArmLabel} (hl : Labels env L σ i l) : False := by
      cases hl with
      | values here' name | default here' name =>
        obtain rfl := same here'
        simp [name] at hname
    cases turns with
    | firstArm _ labels | arm labels => exact (label labels).elim
    | otherwise here' name =>
      obtain rfl := same here'
      simp [name] at hname
    | @elseIf _ branches p q negated here' _ makes =>
      obtain rfl := same here'
      cases hstacked with
      | @block _ σ₀ _ _ k _ _ opening _ inner hopening opener _ filled =>
        obtain ⟨_, hk, held⟩ := filled.opened_held inner
        obtain rfl := Nat.succ.inj hk
        obtain ⟨hle, _, hnested⟩ :=
          filled.wellNested hkinds (List.getElem?_eq_some_iff.1 hopening).1
        refine ⟨k, σ₀, .mk p negated found.reverse, q, ⟨⟨opening, hopening, opener⟩, held, hle,
          hnested, rfl⟩, makes, ?_⟩
        exact holding_cons.2 (.inl (.inl (.inl ⟨rfl, rfl⟩)))

end

/-! ## The theorem -/

/-- The condition of every `elseif` that is generated stands in the program, right behind the branch
that it completes. It needs a variable, which then is among those that the program reads, exactly if
the scope around the `if` does not bind it, nor does this branch. -/
theorem generate_chains (tokens : List Token) (files : Files) (positions : Bool) (made : Generated)
    (hmade : generate tokens files .builtin positions = .ok made) :
    ∃ sites, blockSites TagRegistry.builtin.kinds tokens = .ok sites ∧
      let g := builtinGenerator tokens files positions sites
      ∀ i σ tag, g.HeldAt i σ → tokens[i]? = some (.tag tag) →
        tag.name = "elseif" ∨ tag.name = "elsif" →
        ∃ k σ₀ p negated body q inside branches otherwise,
          Completes g.env g.HeldAt σ i k σ₀ (.mk p negated body) ∧
          made.program.Holds (.choose branches otherwise) ∧
          [.mk p negated body, .mk q false inside] <:+: branches ∧
          Makes (· ∈ made.locals) σ tag.head tag.filters q ∧
          ∀ name, q.needed = some name ↔ Scope.variableIn? tag.head = some name ∧
            σ₀.has name = false ∧ name ∉ body.flatMap Instruction.binds := by
  obtain ⟨sites, hsites, _⟩ := (generate_settles tokens files positions).get hmade
  refine ⟨sites, hsites, ?_⟩
  intro g i σ tag held here hname
  have hg : g.IsBuiltin := ⟨rfl, rfl⟩
  rw [generate_eq hsites] at hmade
  obtain ⟨_, stacked, change, lasts⟩ := held.leaves hg hmade
  obtain ⟨k, σ₀, ⟨p, negated, body⟩, q, completes, makes, hholding⟩ :=
    change.follows hg.kinds here hname stacked
  obtain ⟨x, hfollows, holds⟩ := lasts (followsLasting _ _) hholding
  cases x with
  | choose branches otherwise =>
    obtain ⟨inside, hinfix⟩ := hfollows
    refine ⟨k, σ₀, p, negated, body, q, inside, branches, otherwise, completes, holds, hinfix, makes,
      ?_⟩
    intro name
    have hscope : σ = σ₀.create.behind body := completes.scope
    rw [makes.made, Pipeline.needed_ofExpression, hscope]
    exact Scope.needed_opened body
  | _ => exact hfollows.elim

/-- A condition that reads what the branch before it binds, and one that does not. -/
def readsBranch : List Token :=
  [tagAt 0 "if" "a" "\x7b% if a %\x7d", tagAt 10 "assign" "y = 1" "\x7b% assign y = 1 %\x7d",
    tagAt 28 "elseif" "y" "\x7b% elseif y %\x7d", .raw "x" ⟨stringFile, 42⟩,
    tagAt 43 "elseif" "z" "\x7b% elseif z %\x7d", tagAt 57 "endif" "" "\x7b% endif %\x7d"]

theorem generate_chains_readsBranch :
    ∃ made σ, generate readsBranch {} .builtin false = .ok made ∧
      (builtinGenerator readsBranch {} false {}).HeldAt 2 σ ∧
      ∃ b q inside branches otherwise, made.program.Holds (.choose branches otherwise) ∧
        [b, .mk q false inside] <:+: branches ∧ q = .ofExpression σ "y" [] := by
  have hcomputed : (generate readsBranch {} .builtin false).isOk = true := by decide +kernel
  have hreached : ((builtinGenerator readsBranch {} false {}).generateRange 2 {}).toOption.map
      Draft.idx = some 2 := by decide +kernel
  have hsites : blockSites TagRegistry.builtin.kinds readsBranch = .ok {} := by rfl
  obtain ⟨σ, held⟩ := Generator.heldAt_of_idx (by decide) hreached
  cases hmade : generate readsBranch {} .builtin false with
  | error e =>
    rw [hmade] at hcomputed
    cases hcomputed
  | ok made =>
    obtain ⟨sites, hsites', hchains⟩ := generate_chains readsBranch {} false made hmade
    obtain rfl := Except.ok.inj (hsites.symm.trans hsites')
    obtain ⟨_, _, p, negated, body, q, inside, branches, otherwise, _, holds, hinfix, makes, _⟩ :=
      hchains 2 σ _ held rfl (.inl rfl)
    exact ⟨made, σ, rfl, held, .mk p negated body, q, inside, branches, otherwise, holds, hinfix,
      makes.made⟩

/-- The condition that reads what the branch before it binds has no check, and its variable is not
among those that the program reads, though no scope around the `if` binds it. -/
theorem elseIf_unchecked :
    ∃ made x p, generate readsBranch {} .builtin false = .ok made ∧
      (builtinGenerator readsBranch {} false {}).HeldAt 0 {} ∧ ({} : Scope).has "y" = false ∧
      Scope.variableIn? "y" = some "y" ∧ made.program.Holds x ∧ p ∈ x.pipelines ∧ p.base = "y" ∧
      p.needed = none ∧ made.locals.toList = ["a", "z"] := by
  have hcomputed : (generate readsBranch {} .builtin false).toOption.map
      (fun made => (made.program.body.flatMap Instruction.pipelines, made.locals.toList)) =
        some ([⟨"a", [], some "a"⟩, ⟨"y", [], none⟩, ⟨"z", [], some "z"⟩], ["a", "z"]) := by
    decide +kernel
  obtain ⟨made, hmade, hboth⟩ := ok_of_toOption_map hcomputed
  obtain ⟨hpipelines, hlocals⟩ := Prod.mk.inj hboth
  have hmem : ⟨"y", [], none⟩ ∈ made.program.body.flatMap Instruction.pipelines := by
    rw [hpipelines]
    exact List.mem_cons_of_mem _ List.mem_cons_self
  obtain ⟨x, hx, hp⟩ := List.mem_flatMap.1 hmem
  exact ⟨made, x, _, hmade, .main (by decide) (.here _ _), by decide, by decide +kernel,
    .body (.here hx), hp, rfl, rfl, hlocals⟩

end Stencil
