import Stencil.Proofs.Generation.Filled

/-!
# The stack of open blocks

While a program is made, `Stacked` holds of the open blocks: each of them is filled up to the opener of
the next one, the innermost one up to the present token, and the scope is that of the innermost one.

* `Change` tells what a handler may do to the stack, to the scope and to the index.
* `Stacked.change`: a change keeps the stack right. A block that closes has the closing tag that was
  searched for when it was opened.
* `Stacked.closer`: so a closing tag always belongs to the innermost block.
-/

namespace Stencil

/-! ## Positions and completed blocks bind nothing -/

theorem binds_of_complete {kind : OpenKind} {found : List Instruction} {i : Instruction}
    (h : kind.complete? found = some i) : i.binds = [] := by
  cases kind with
  | root => cases h
  | condition kind branches current => cases current <;> (cases h; rfl)
  | case subject arms current =>
    cases current with
    | none => cases h
    | some label => cases h; rfl
  | loop => cases h; rfl

theorem binds_markIn (pos : Pos) (found : List Instruction) :
    (Draft.markIn pos found).reverse.flatMap Instruction.binds =
      found.reverse.flatMap Instruction.binds := by
  unfold Draft.markIn
  split <;> simp [Instruction.binds]

theorem Scope.behind_markIn (σ : Scope) (pos : Pos) (found : List Instruction) :
    σ.behind (Draft.markIn pos found).reverse = σ.behind found.reverse := by
  rw [Scope.behind, Scope.behind, binds_markIn]

theorem Scope.behind_complete {σ : Scope} {kind : OpenKind} {found content : List Instruction}
    {i : Instruction} (h : kind.complete? content = some i) :
    σ.behind (i :: found).reverse = σ.behind found.reverse := by
  rw [List.reverse_cons, behind_append, behind_singleton (binds_of_complete h)]

/-- An open block adds one frame to the scope around it. -/
theorem OpenKind.scope_eq {kind : OpenKind} (h : kind ≠ .root) (σ : Scope) :
    ∃ names, kind.scope σ = σ.create.addAll names := by
  cases kind with
  | root => exact absurd rfl h
  | condition => exact ⟨[], rfl⟩
  | case subject arms current => exact ⟨_, rfl⟩
  | loop binding => exact ⟨_, rfl⟩

theorem OpenKind.destroy_behind {kind : OpenKind} (h : kind ≠ .root) {σ : Scope} (hσ : 0 < σ.depth)
    (body : List Instruction) : ((kind.scope σ).behind body).destroy = σ := by
  obtain ⟨names, hscope⟩ := kind.scope_eq h σ
  rw [hscope, Scope.behind, ← Scope.addAll_append, Scope.destroy_addAll_create hσ]

/-! ## Changes -/

/-- What turning to the next branch or arm does to the scope. -/
def OpenKind.turnScope (σ : Scope) : OpenKind → Scope
  | condition .. => σ.destroy.create
  | _ => σ

theorem binds_of_isBlankBody {found : List Instruction} (h : Handler.isBlankBody found = true) :
    found.reverse.flatMap Instruction.binds = [] := by
  rw [List.flatMap_eq_nil_iff]
  intro i hi
  have hblank := List.all_eq_true.1 h i (List.mem_reverse.1 hi)
  cases i <;> first | rfl | cases hblank

/-- The branches of a block have frames of their own, its arms share one. -/
theorem Turns.scope_eq {env : DraftEnv} {L : String → Prop} {σ σ₀ : Scope} {i : Nat}
    {found : List Instruction} {kind next : OpenKind} (hσ₀ : 0 < σ₀.depth)
    (h : Turns env L σ i found kind next) :
    next.scope σ₀ = kind.turnScope ((kind.scope σ₀).behind found.reverse) := by
  cases h with
  | elseIf =>
    rw [OpenKind.turnScope, OpenKind.destroy_behind (fun h => by cases h) hσ₀]
    rfl
  | otherwise =>
    rw [OpenKind.turnScope, OpenKind.destroy_behind (fun h => by cases h) hσ₀]
    rfl
  | @firstArm subject arms label blank =>
    show _ = ((OpenKind.case subject arms none).scope σ₀).behind found.reverse
    rw [Scope.behind, binds_of_isBlankBody blank]
    rfl
  | @arm subject arms label next =>
    show _ = ((OpenKind.case subject arms (some label)).scope σ₀).behind found.reverse
    rw [OpenKind.scope, OpenKind.scope, Scope.behind, ← Scope.addAll_append, List.reverse_cons,
      List.flatMap_append]
    simp

/-- What a handler does at an index to the stack of open blocks, the scope and the index. -/
inductive Change (env : DraftEnv) (L : String → Prop) (σ : Scope) (i : Nat) :
    List OpenBlock → List OpenBlock → Scope → Nat → Prop where
  | leaf {kind : OpenKind} {found added : List Instruction} {outer : List OpenBlock} {j : Nat}
      (leaf : Leaf env L σ i added j) :
      Change env L σ i (⟨kind, found⟩ :: outer) (⟨kind, added.reverse ++ found⟩ :: outer)
        (σ.behind added) j
  | opens {stack : List OpenBlock} {kind : OpenKind} {tag : Tag} {stop : Nat}
      (here : env.token? i = some (.tag tag)) (opener : tag.name = kind.opener)
      (opens : Opens env L σ i kind)
      (closes : closingTag env.kinds env.tokens (closerOf kind.opener) i = .ok stop) :
      Change env L σ i stack (⟨kind, []⟩ :: stack) (kind.scope σ) (i + 1)
  | turns {kind next : OpenKind} {found : List Instruction} {outer : List OpenBlock}
      (turns : Turns env L σ i found kind next) :
      Change env L σ i (⟨kind, found⟩ :: outer) (⟨next, []⟩ :: outer) (kind.turnScope σ) (i + 1)
  | closes {kind around : OpenKind} {found content : List Instruction} {outer : List OpenBlock}
      {tag : Tag} {instruction : Instruction} (here : env.token? i = some (.tag tag))
      (closer : tag.name = closerOf kind.opener)
      (complete : kind.complete? content = some instruction) :
      Change env L σ i (⟨kind, content⟩ :: ⟨around, found⟩ :: outer)
        (⟨around, instruction :: found⟩ :: outer) σ.destroy (i + 1)

/-- A handler moves on. -/
theorem Change.lt {env : DraftEnv} {L : String → Prop} {σ σ' : Scope} {i j : Nat}
    {stack stack' : List OpenBlock} (hkinds : env.kinds = TagRegistry.builtin.kinds)
    (h : Change env L σ i stack stack' σ' j) : i < j := by
  cases h with
  | leaf leaf => exact (leaf.wellNested hkinds).1
  | opens | turns | closes => exact Nat.lt_succ_self i

/-! ## The stack -/

/-- The open blocks, innermost first, above the blocks `below`. The outermost of them was opened in
the scope `τ` before the token `start`. -/
inductive Stacked (env : DraftEnv) (L : String → Prop) (A : Nat → Scope → Prop) (τ : Scope)
    (start : Nat) (below : List OpenBlock) : List OpenBlock → Scope → Nat → Prop where
  | ground {found : List Instruction} {i : Nat} (filled : Filled env L A τ start .root found i) :
      Stacked env L A τ start below (⟨.root, found⟩ :: below) (τ.behind found.reverse) i
  | block {outer : List OpenBlock} {σ : Scope} {kind : OpenKind} {found : List Instruction}
      {k i stop : Nat} {tag : Tag} (around : Stacked env L A τ start below outer σ k)
      (inner : kind ≠ .root) (here : env.token? k = some (.tag tag))
      (opener : tag.name = kind.opener)
      (closes : closingTag env.kinds env.tokens (closerOf kind.opener) k = .ok stop)
      (filled : Filled env L A σ (k + 1) kind found i) :
      Stacked env L A τ start below (⟨kind, found⟩ :: outer) ((kind.scope σ).behind found.reverse) i

namespace Stacked

variable {env : DraftEnv} {L L' : String → Prop} {A : Nat → Scope → Prop} {τ σ σ' : Scope}
  {start i j : Nat} {below stack stack' : List OpenBlock}

theorem mono (h : Stacked env L A τ start below stack σ i) (hL : ∀ name, L name → L' name) :
    Stacked env L' A τ start below stack σ i := by
  induction h with
  | ground filled => exact .ground (filled.mono hL)
  | block _ inner here opener closes filled ih =>
    exact .block ih inner here opener closes (filled.mono hL)

theorem depth_pos (hτ : 0 < τ.depth) (h : Stacked env L A τ start below stack σ i) : 0 < σ.depth := by
  induction h with
  | ground => rwa [Scope.depth_behind]
  | @block _ σ kind _ _ _ _ _ _ inner _ _ _ _ ih =>
    obtain ⟨names, hscope⟩ := kind.scope_eq inner σ
    rw [Scope.depth_behind, hscope, Scope.depth_addAll, Scope.depth_create]
    exact Nat.succ_pos _

/-- The instructions of the innermost block may change as its filling goes on. -/
theorem refill {kind : OpenKind} {found found' : List Instruction} {outer : List OpenBlock}
    (h : Stacked env L A τ start below (⟨kind, found⟩ :: outer) σ i)
    (hfill : ∀ σ₀ k, σ = (kind.scope σ₀).behind found.reverse → Filled env L A σ₀ k kind found i →
      Filled env L A σ₀ k kind found' j ∧ (kind.scope σ₀).behind found'.reverse = σ') :
    Stacked env L A τ start below (⟨kind, found'⟩ :: outer) σ' j := by
  cases h with
  | ground filled =>
    obtain ⟨hfilled, rfl⟩ := hfill _ _ rfl filled
    exact .ground hfilled
  | block around inner here opener closes filled =>
    obtain ⟨hfilled, rfl⟩ := hfill _ _ rfl filled
    exact .block around inner here opener closes hfilled

/-- A position leaves everything else as it is. -/
theorem mark {kind : OpenKind} {found : List Instruction} {outer : List OpenBlock} {token : Token}
    (h : Stacked env L A τ start below (⟨kind, found⟩ :: outer) σ i)
    (here : env.token? i = some token) (held : A i σ) :
    Stacked env L A τ start below (⟨kind, Draft.markIn token.pos found⟩ :: outer) σ i := by
  refine h.refill fun σ₀ k hσ filled => ⟨filled.mark here (hσ ▸ held), ?_⟩
  rw [Scope.behind_markIn, hσ]

theorem leaf {kind : OpenKind} {found added : List Instruction} {outer : List OpenBlock}
    (h : Stacked env L A τ start below (⟨kind, found⟩ :: outer) σ i) (leaf : Leaf env L σ i added j)
    (held : A i σ) :
    Stacked env L A τ start below (⟨kind, added.reverse ++ found⟩ :: outer) (σ.behind added) j := by
  refine h.refill fun σ₀ k hσ filled => ⟨.leaf filled (hσ ▸ leaf) (hσ ▸ held), ?_⟩
  rw [List.reverse_append, List.reverse_reverse, Scope.behind_append, hσ]

theorem bound (hkinds : env.kinds = TagRegistry.builtin.kinds) (hstart : start ≤ env.tokens.length)
    (h : Stacked env L A τ start below stack σ i) : i ≤ env.tokens.length := by
  cases h with
  | ground filled => exact (filled.wellNested hkinds hstart).2.1
  | block _ _ here _ _ filled =>
    exact (filled.wellNested hkinds (List.getElem?_eq_some_iff.1 here).1).2.1

/-- A closing tag closes the innermost block, and is the tag that was searched for. -/
theorem closer {kind : OpenKind} {found : List Instruction} {k stop : Nat}
    {opener : Tag} {tag : Tag} (hkinds : env.kinds = TagRegistry.builtin.kinds)
    (hopener : env.token? k = some (.tag opener))
    (closes : closingTag env.kinds env.tokens (closerOf kind.opener) k = .ok stop)
    (filled : Filled env L A σ (k + 1) kind found i) (here : env.token? i = some (.tag tag))
    (hcloser : isCloser tag.name = true) : tag.name = closerOf kind.opener ∧ stop = i := by
  obtain ⟨hle, hi, hnested⟩ := filled.wellNested hkinds (List.getElem?_eq_some_iff.1 hopener).1
  rw [hkinds] at closes
  exact closer_eq builtin_proper (isCloser_closerOf _) closes hle hnested here hcloser

/-- What stands in a block is well nested up to its closing tag at most. -/
theorem le_closingTag {name : String} {k stop : Nat} (hkinds : env.kinds = TagRegistry.builtin.kinds)
    (closes : closingTag env.kinds env.tokens (closerOf name) k = .ok stop) (hle : k + 1 ≤ i)
    (hi : i ≤ env.tokens.length)
    (hnested : WellNested TagRegistry.builtin.kinds (between env.tokens (k + 1) i)) : i ≤ stop := by
  rw [hkinds] at closes
  exact le_of_closingFrom
    (closingFrom_between builtin_proper (isCloser_closerOf _) closes hle hi hnested)

/-- Everything that was opened behind an opener ends before its closing tag. -/
theorem within {name : String} {k stop : Nat} (hkinds : env.kinds = TagRegistry.builtin.kinds)
    (closes : closingTag env.kinds env.tokens (closerOf name) k = .ok stop)
    (hk : k + 1 ≤ env.tokens.length) (h : Stacked env L A τ (k + 1) below stack σ i) (hij : i ≤ j)
    (hj : j ≤ env.tokens.length)
    (hnested : WellNested TagRegistry.builtin.kinds (between env.tokens i j)) :
    j ≤ stop ∧ (j < stop ∨ ∃ found, stack = ⟨.root, found⟩ :: below) := by
  induction h generalizing j with
  | ground filled =>
    obtain ⟨hle, _, hfilled⟩ := filled.wellNested hkinds hk
    have hall := hfilled.append hnested
    rw [between_append hle hij] at hall
    exact ⟨le_closingTag hkinds closes (by omega) hj hall, .inr ⟨_, rfl⟩⟩
  | @block outer σ kind found m i stop' tag around inner here opener closes' filled ih =>
    obtain ⟨hm, _⟩ := List.getElem?_eq_some_iff.1 here
    obtain ⟨hle, _, hfilled⟩ := filled.wellNested hkinds hm
    have hall := hfilled.append hnested
    rw [between_append hle hij] at hall
    have hinside := le_closingTag hkinds closes' (by omega) hj hall
    obtain ⟨hblock, hlooked⟩ := kind.opener_mem inner
    obtain ⟨hlt, hlength, hregion⟩ :=
      wellNested_region hkinds here opener hblock hlooked closes'
    obtain ⟨hstop, _⟩ := ih (Nat.le_of_lt hlt) hlength hregion
    exact ⟨by omega, .inl (by omega)⟩

/-- A completed block is one more instruction of the block around it. -/
theorem nested {around kind : OpenKind} {found content : List Instruction} {outer : List OpenBlock}
    {tag : Tag} {stop : Nat} {instruction : Instruction}
    (h : Stacked env L A τ start below (⟨around, found⟩ :: outer) σ i)
    (here : env.token? i = some (.tag tag)) (opener : tag.name = kind.opener)
    (closes : closingTag env.kinds env.tokens (closerOf kind.opener) i = .ok stop)
    (body : Filled env L A σ (i + 1) kind content stop)
    (complete : kind.complete? content = some instruction) :
    Stacked env L A τ start below (⟨around, instruction :: found⟩ :: outer) σ (stop + 1) := by
  refine h.refill fun σ₀ k hσ filled => ⟨?_, ?_⟩
  · exact .nested filled here opener closes (hσ ▸ body) complete
  · rw [Scope.behind_complete complete, hσ]

/-- A change of the stack keeps it right. -/
theorem change (hkinds : env.kinds = TagRegistry.builtin.kinds) (hτ : 0 < τ.depth)
    (hL : ∀ name, L name → L' name) (h : Stacked env L A τ start below stack σ i)
    (hchange : Change env L' σ i stack stack' σ' j) (held : A i σ) :
    Stacked env L' A τ start below stack' σ' j := by
  replace h := h.mono hL
  cases hchange with
  | leaf leaf => exact h.leaf leaf held
  | opens here opener opens closes =>
    exact .block h (fun hroot => by subst hroot; cases opens) here opener closes (.opened opens held)
  | @turns kind next found outer turns =>
    cases h with
    | ground => cases turns
    | block around inner here opener closes filled =>
      have hopener : next.opener = kind.opener ∧ next ≠ .root := by
        cases turns <;> exact ⟨rfl, fun h => by cases h⟩
      rw [← turns.scope_eq (around.depth_pos hτ)]
      exact .block around hopener.2 here (opener.trans hopener.1.symm) (hopener.1 ▸ closes)
        (.turn filled turns held)
  | closes here closer complete =>
    cases h with
    | ground => cases complete
    | block around inner opened opener closes filled =>
      obtain ⟨_, rfl⟩ := Stacked.closer hkinds opened closes filled here
        (closer ▸ isCloser_closerOf _)
      rw [OpenKind.destroy_behind inner (around.depth_pos hτ)]
      exact around.nested opened opener closes filled complete

end Stacked

end Stencil
