import Stencil.Proofs.Generation.Owned
import Stencil.Proofs.Generation.Kept
import Stencil.Proofs.Program.CallCount

/-!
# Blocks that are placed

A block is called where the first tag of its name stands, so it is called in one place at most, and
in none if nothing is generated there.

* `Change.callCount`: a tag that is no block tag adds no call.
* `Generator.generateRange_calls`: a body calls a block once, if the first tag of its name is reached
  in the body, and otherwise never.
* `Generator.generateDeferred_placed`: a tag belongs to one body, so among all bodies there is one call
  if the first tag has been generated, and none before.
* `block_placed`: a block of a program is called exactly once, if its first tag is generated.
-/

namespace Stencil

/-! ## Counting calls -/

/-- How often the complete branches or arms of an open block call a block. -/
def OpenKind.callCount (name : String) : OpenKind → Nat
  | condition _ branches _ => branchCallCount name branches
  | case _ arms _ => armCallCount name arms
  | _ => 0

/-- How often open blocks call a block. -/
def stackCallCount (name : String) (stack : List OpenBlock) : Nat :=
  (stack.map fun b => b.kind.callCount name + bodyCallCount name b.found).sum

section

variable (name : String)

/-- A position calls nothing. -/
theorem bodyCallCount_markIn (pos : Pos) (found : List Instruction) :
    bodyCallCount name (Draft.markIn pos found) = bodyCallCount name found := by
  unfold Draft.markIn
  split <;> simp [bodyCallCount, Instruction.callCount]

/-- A complete block calls what its branches or arms and its last body call. -/
theorem OpenKind.callCount_complete {kind : OpenKind} {content : List Instruction} {i : Instruction}
    (h : kind.complete? content = some i) :
    i.callCount name = kind.callCount name + bodyCallCount name content := by
  cases kind with
  | root => cases h
  | condition kind branches current =>
    cases current with
    | none =>
      cases h
      rw [Instruction.callCount, branchCallCount_reverse, otherwiseCallCount, bodyCallCount_reverse,
        callCount]
    | some current =>
      cases h
      rw [Instruction.callCount, branchCallCount_reverse, otherwiseCallCount, branchCallCount,
        bodyCallCount_reverse, callCount]
      omega
  | case subject arms current =>
    cases current with
    | none => cases h
    | some label =>
      cases h
      rw [Instruction.callCount, armCallCount_reverse, armCallCount, bodyCallCount_reverse, callCount]
      omega
  | loop =>
    cases h
    simp only [Instruction.callCount, bodyCallCount_reverse, callCount, Nat.zero_add]

section

variable {env : DraftEnv} {L : String → Prop} {σ σ' : Scope} {i j : Nat}

theorem Leaf.callCount {added : List Instruction} (h : Leaf env L σ i added j)
    (hblock : ∀ tag, env.token? i = some (.tag tag) → tag.name ≠ "block") :
    bodyCallCount name added = 0 := by
  cases h with
  | text | raw => split <;> rfl
  | block here hname => exact absurd hname (hblock _ here)
  | _ => rfl

theorem Opens.callCount {kind : OpenKind} (h : Opens env L σ i kind) : kind.callCount name = 0 := by
  cases h <;> rfl

theorem Turns.callCount {found : List Instruction} {kind next : OpenKind}
    (h : Turns env L σ i found kind next) :
    next.callCount name = kind.callCount name + bodyCallCount name found := by
  cases h with
  | elseIf | otherwise =>
    simp only [OpenKind.callCount, branchCallCount, bodyCallCount_reverse]
    omega
  | arm =>
    simp only [OpenKind.callCount, armCallCount, bodyCallCount_reverse]
    omega
  | @firstArm subject arms label blank =>
    have hnone : bodyCallCount name found = 0 := by
      rw [bodyCallCount_eq, List.sum_eq_zero_iff_forall_eq_nat]
      intro n hn
      obtain ⟨i, hi, rfl⟩ := List.mem_map.1 hn
      have hblank := List.all_eq_true.1 blank i hi
      cases i <;> first | rfl | cases hblank
    simp only [OpenKind.callCount, hnone, Nat.add_zero]

/-- A tag that is no block tag adds no call. -/
theorem Change.callCount {stack stack' : List OpenBlock} (h : Change env L σ i stack stack' σ' j)
    (hblock : ∀ tag, env.token? i = some (.tag tag) → tag.name ≠ "block") :
    stackCallCount name stack' = stackCallCount name stack := by
  unfold stackCallCount
  cases h with
  | leaf leaf =>
    simp only [List.map_cons, List.sum_cons, bodyCallCount_append, bodyCallCount_reverse,
      leaf.callCount name hblock, Nat.zero_add]
  | opens here opener opens closes =>
    simp only [List.map_cons, List.sum_cons, opens.callCount name, bodyCallCount, Nat.zero_add]
  | turns turns =>
    simp only [List.map_cons, List.sum_cons, turns.callCount name, bodyCallCount, Nat.add_zero]
  | closes here closer complete =>
    simp only [List.map_cons, List.sum_cons, bodyCallCount,
      OpenKind.callCount_complete name complete]
    omega

end

/-! ## Counted calls -/

section

variable {name : String}

mutual

theorem occurs_of_callCount : ∀ i : Instruction, 0 < i.callCount name → Occurs (.callBlock name) [i]
  | .callBlock called, h => by
    rw [Instruction.callCount] at h
    split at h
    · next heq => exact heq ▸ .here List.mem_cons_self
    · exact absurd h (Nat.lt_irrefl 0)
  | .choose branches otherwise, h => by
    have hsum : 0 < branchCallCount name branches + otherwiseCallCount name otherwise := h
    by_cases hbranches : 0 < branchCallCount name branches
    · obtain ⟨inner, hmem, hocc⟩ := occurs_of_branchCallCount branches hbranches
      exact .inside List.mem_cons_self (List.mem_append_left _ hmem) hocc
    · obtain ⟨inner, hmem, hocc⟩ := occurs_of_otherwiseCallCount otherwise (by omega)
      exact .inside List.mem_cons_self (List.mem_append_right _ hmem) hocc
  | .switch _ arms, h => by
    obtain ⟨inner, hmem, hocc⟩ := occurs_of_armCallCount arms h
    exact .inside List.mem_cons_self hmem hocc
  | .loop _ _ _ _ body, h =>
    .inside List.mem_cons_self List.mem_cons_self (occurs_of_bodyCallCount body h)
  | .position _, h | .text _, h | .emit _, h | .assign .., h | .capture .., h | .break, h
  | .continue, h | .callMixin .., h | .script _, h => absurd h (Nat.lt_irrefl 0)
termination_by structural i => i

/-- A block that is called in a body, has its call somewhere in it. -/
theorem occurs_of_bodyCallCount : ∀ body : List Instruction, 0 < bodyCallCount name body →
    Occurs (.callBlock name) body
  | [], h => absurd h (Nat.lt_irrefl 0)
  | i :: is, h => by
    have hsum : 0 < i.callCount name + bodyCallCount name is := h
    by_cases hfirst : 0 < i.callCount name
    · exact (occurs_of_callCount i hfirst).mono fun y hy =>
        List.mem_singleton.1 hy ▸ List.mem_cons_self
    · exact (occurs_of_bodyCallCount is (by omega)).mono fun y hy => List.mem_cons_of_mem i hy
termination_by structural body => body

theorem occurs_of_branchCallCount : ∀ branches : List Branch, 0 < branchCallCount name branches →
    ∃ inner ∈ branches.map (fun | .mk _ _ body => body), Occurs (.callBlock name) inner
  | [], h => absurd h (Nat.lt_irrefl 0)
  | .mk _ _ body :: bs, h => by
    have hsum : 0 < bodyCallCount name body + branchCallCount name bs := h
    by_cases hfirst : 0 < bodyCallCount name body
    · exact ⟨body, List.mem_cons_self, occurs_of_bodyCallCount body hfirst⟩
    · obtain ⟨inner, hmem, hocc⟩ := occurs_of_branchCallCount bs (by omega)
      exact ⟨inner, List.mem_cons_of_mem _ hmem, hocc⟩
termination_by structural branches => branches

theorem occurs_of_otherwiseCallCount : ∀ otherwise : Option (List Instruction),
    0 < otherwiseCallCount name otherwise →
    ∃ inner ∈ otherwise.toList, Occurs (.callBlock name) inner
  | none, h => absurd h (Nat.lt_irrefl 0)
  | some body, h => ⟨body, List.mem_cons_self, occurs_of_bodyCallCount body h⟩
termination_by structural otherwise => otherwise

theorem occurs_of_armCallCount : ∀ arms : List Arm, 0 < armCallCount name arms →
    ∃ inner ∈ arms.map (fun | .mk _ body => body), Occurs (.callBlock name) inner
  | [], h => absurd h (Nat.lt_irrefl 0)
  | .mk _ body :: as, h => by
    have hsum : 0 < bodyCallCount name body + armCallCount name as := h
    by_cases hfirst : 0 < bodyCallCount name body
    · exact ⟨body, List.mem_cons_self, occurs_of_bodyCallCount body hfirst⟩
    · obtain ⟨inner, hmem, hocc⟩ := occurs_of_armCallCount as (by omega)
      exact ⟨inner, List.mem_cons_of_mem _ hmem, hocc⟩
termination_by structural arms => arms

end

/-- A block that a program calls has its call somewhere in the program. -/
theorem Program.holds_of_callCount {program : Program} (h : 0 < program.callCount name) :
    program.Holds (.callBlock name) := by
  unfold callCount calledCallCount at h
  have hsum : 0 < bodyCallCount name program.body ∨
      0 < (program.mixins.entries.map fun e => bodyCallCount name e.2.body).sum ∨
      0 < (program.blocks.entries.map fun e => bodyCallCount name e.2).sum := by omega
  rcases hsum with hbody | hmixin | hblock
  · exact .body (occurs_of_bodyCallCount _ hbody)
  · obtain ⟨_, hmem, hpos⟩ := List.sum_pos_iff_exists_pos_nat.1 hmixin
    obtain ⟨e, he, rfl⟩ := List.mem_map.1 hmem
    exact .mixin he (occurs_of_bodyCallCount _ hpos)
  · obtain ⟨_, hmem, hpos⟩ := List.sum_pos_iff_exists_pos_nat.1 hblock
    obtain ⟨e, he, rfl⟩ := List.mem_map.1 hmem
    exact .block he (occurs_of_bodyCallCount _ hpos)

end

/-! ## Calls in a body -/

theorem Draft.callCount_emit (d : Draft) (i : Instruction) :
    stackCallCount name (d.emit i).stack = stackCallCount name d.stack + i.callCount name := by
  conv => rhs; rw [stack_eq]
  rw [emit, stack_setTop]
  simp only [stackCallCount, List.map_cons, List.sum_cons, bodyCallCount]
  omega

theorem Draft.callCount_mark (d : Draft) (env : DraftEnv) (pos : Pos) :
    stackCallCount name (d.mark env pos).stack = stackCallCount name d.stack := by
  unfold mark
  split
  · conv => rhs; rw [stack_eq]
    rw [stack_setTop]
    simp only [stackCallCount, List.map_cons, List.sum_cons, bodyCallCount_markIn]
  · rfl

/-- The tag of a block adds a call of the block, if it is the first one of its name. -/
theorem Handler.block_callCount {env : DraftEnv} {tag : Tag} {d : Draft} :
    Settles (fun d' => ∃ called, blockName? tag = some called ∧
      stackCallCount name d'.stack = stackCallCount name d.stack +
        if called = name ∧ ((env.sites.get? called).getD (d.idx, d.idx)).1 = d.idx then 1 else 0)
      (block env tag d) := by
  unfold block
  split
  · exact misuse_settles ..
  · next called hcalled =>
    refine .bind (findTag_settles env d "endblock") fun stop _ => ?_
    generalize hsite : (env.sites.get? called).getD (d.idx, d.idx) = site
    dsimp only
    -- Leaving the body behind opens no block.
    have hemitted : stackCallCount name
        (if d.idx = site.1 then d.emit (.callBlock called) else d).stack =
        stackCallCount name d.stack + if called = name ∧ site.1 = d.idx then 1 else 0 := by
      by_cases hidx : d.idx = site.1
      · simp [hidx, Draft.callCount_emit, Instruction.callCount]
      · simp [hidx, Ne.symm hidx]
    split
    · exact .ok ⟨called, hcalled, hsite ▸ hemitted⟩
    · exact .ok ⟨called, hcalled, hsite ▸ hemitted⟩

end

namespace Generator

variable {g : Generator} {d d₀ : Draft} {τ σ : Scope} {start stop : Nat} {below : List OpenBlock}
  {name : String} {first last : Nat}

/-- A token adds a call of a block, if it is the first tag of the block. -/
theorem step_callCount {token : Token} {next : Draft} (hg : g.IsBuiltin)
    (hsites : blockSites g.env.kinds g.env.tokens = .ok g.env.sites)
    (hsite : g.env.sites.get? name = some (first, last)) (hends : Ends g.env start below stop)
    (h : Going g.env d₀ (fun _ _ => True) τ start below d) (hlt : d.idx < stop)
    (here : g.env.token? d.idx = some token) (hstep : g.step token d = .ok next) :
    stackCallCount name next.stack =
      stackCallCount name d.stack + if d.idx = first then 1 else 0 := by
  obtain ⟨_, firstTag, hfirst, hname, hnamed⟩ := DraftEnv.first_site hg.kinds hsites hsite
  have hmarked : stackCallCount name ({ d with trimNext := false }.mark g.env token.pos).stack =
      stackCallCount name d.stack := Draft.callCount_mark ..
  rw [← hmarked]
  by_cases hblock : ∃ tag, token = .tag tag ∧ tag.name = "block"
  · obtain ⟨tag, rfl, htag⟩ := hblock
    unfold step handle at hstep
    dsimp only at hstep
    rw [hg.registry, htag] at hstep
    obtain ⟨called, hcalled, hcount⟩ := (Handler.block_callCount name).get hstep
    rw [hcount, Draft.idx_mark]
    congr 1
    refine if_congr ⟨?_, ?_⟩ rfl rfl
    · rintro ⟨rfl, hidx⟩
      rw [hsite] at hidx
      exact hidx.symm
    · rintro rfl
      obtain rfl := Token.tag.inj (Option.some.inj (here.symm.trans hfirst))
      obtain rfl : called = name := by rw [← hnamed, hcalled]; rfl
      exact ⟨rfl, by rw [hsite]; rfl⟩
  · have hchange := ((step_effect hg hends h hlt here trivial).get hstep).change
    have hne : d.idx ≠ first := by
      rintro rfl
      exact hblock ⟨firstTag, Option.some.inj (here.symm.trans hfirst), hname⟩
    rw [Draft.idx_mark] at hchange
    rw [if_neg hne, hchange.callCount name fun tag htag hname =>
      hblock ⟨tag, Option.some.inj (here.symm.trans htag), hname⟩]
    rfl

/-- A body calls a block once, if the first tag of the block is reached in the body, and otherwise
never. -/
theorem generateRange_calls (hg : g.IsBuiltin)
    (hsites : blockSites g.env.kinds g.env.tokens = .ok g.env.sites)
    (hsite : g.env.sites.get? name = some (first, last)) (hτ : 0 < τ.depth)
    (hends : Ends g.env start below stop) (h : Going g.env d₀ (fun _ _ => True) τ start below d)
    {d' : Draft} (hrange : g.generateRange stop d = .ok d') :
    (stackCallCount name d'.stack = stackCallCount name d.stack ∧
      ∀ σ, first < stop → ¬ g.Reaches d first σ) ∨
    (stackCallCount name d'.stack = stackCallCount name d.stack + 1 ∧ first < stop ∧
      ∃ σ, g.Reaches d first σ) := by
  fun_induction generateRange g stop d with
  | case1 d hlt hnone =>
    obtain rfl := Except.ok.inj hrange
    refine .inl ⟨rfl, fun σ _ hreaches => ?_⟩
    obtain ⟨_, tag, hfirst, _⟩ := DraftEnv.first_site hg.kinds hsites hsite
    have hlength := (List.getElem?_eq_some_iff.1 hfirst).1
    have hend := List.getElem?_eq_none_iff.1 hnone
    have := hreaches.le
    omega
  | case2 | case4 => cases hrange
  | case3 d hlt token here next hstep hnext ih =>
    have hgoing := (step_settles hg hτ hends h hlt here trivial).get hstep
    have hcount := step_callCount hg hsites hsite hends h hlt here hstep
    rcases ih hgoing hrange with ⟨hsame, hnot⟩ | ⟨hmore, hstop, σ, hreaches⟩
    · by_cases hfirst : d.idx = first
      · rw [if_pos hfirst] at hcount
        exact .inr ⟨by rw [hsame, hcount], hfirst ▸ hlt, d.scope, hfirst ▸ .here g d⟩
      · rw [if_neg hfirst] at hcount
        exact .inl ⟨by rw [hsame, hcount, Nat.add_zero], fun σ hstop hreaches =>
          hnot σ hstop (hreaches.next here hstep hnext hfirst)⟩
    · have hpassed := hreaches.le
      rw [if_neg (by omega)] at hcount
      exact .inr ⟨by rw [hmore, hcount], hstop, σ, hreaches.step here hstep hnext⟩
  | case5 d hlt =>
    obtain rfl := Except.ok.inj hrange
    refine .inl ⟨rfl, fun σ hstop hreaches => ?_⟩
    have := hreaches.le
    omega

/-- So does a body that was left behind. -/
theorem generateBody_calls {A : Nat → Scope → Prop} {found instructions : List Instruction}
    {opener key : String} {k : Nat} {tag : Tag} {body : Deferred} {d' : Draft} (hg : g.IsBuiltin)
    (hsites : blockSites g.env.kinds g.env.tokens = .ok g.env.sites)
    (hsite : g.env.sites.get? name = some (first, last)) (h : Resting g.env A found d)
    (defers : Defers g.env opener k tag key body)
    (hbody : g.generateBody body d = .ok (instructions, d')) :
    (bodyCallCount name instructions = 0 ∧
      ∀ σ, first < body.stop → ¬ g.Reaches (d.begin body) first σ) ∨
    (bodyCallCount name instructions = 1 ∧ first < body.stop ∧
      ∃ σ, g.Reaches (d.begin body) first σ) := by
  obtain ⟨d₁, hrange, _, block, outer, hinner, rfl, _⟩ := generateBody_ok hbody
  have hτ := Scope.depth_opened_pos (Scope.behind {} found.reverse) body.params
  have hgoing := h.opened (fun _ _ _ => trivial : ∀ k σ, A k σ → True) body
  obtain ⟨hgoing₁, hstop⟩ := (generateRange_settles hg hτ (.deferred defers) hgoing
    fun _ _ _ _ => trivial).get hrange
  obtain ⟨inside, hstack, _⟩ := hgoing₁.rests hg.kinds (.deferred defers) hstop
  obtain ⟨hinside, _⟩ :=
    Draft.stack_append (show d₁.stack = [⟨.root, inside⟩] ++ [d.root] from hstack)
  obtain ⟨rfl, _⟩ := List.cons.inj (hinner.symm.trans hinside)
  have hbegin : (d.begin body).stack = ⟨.root, []⟩ :: [d.root] := by
    show (⟨.root, []⟩ :: d.inner) ++ [d.root] = _
    rw [h.inner_root.1]
    rfl
  have hcalls := generateRange_calls hg hsites hsite hτ (.deferred defers) hgoing hrange
  have hcount : stackCallCount name d₁.stack = bodyCallCount name (OpenBlock.body ⟨.root, inside⟩) +
      stackCallCount name (d.begin body).stack := by
    rw [hstack, hbegin, OpenBlock.body, bodyCallCount_reverse]
    simp [stackCallCount, OpenKind.callCount, bodyCallCount]
  rw [hcount] at hcalls
  rcases hcalls with ⟨hsame, hnot⟩ | ⟨hmore, hreaches⟩
  · exact .inl ⟨by omega, hnot⟩
  · exact .inr ⟨by omega, hreaches⟩

end Generator

/-! ## Calls in a program -/

/-- The body of a mixin or a block is in a program. -/
def Program.HasBody (program : Program) (opener key : String) : Prop :=
  (opener = "mixin" ∧ key ∈ program.mixins.keys) ∨ (opener = "block" ∧ key ∈ program.blocks.keys)

/-- The body that is generated next is not in a program yet, and the round puts it there. -/
theorem Between.next_adds {g : Generator} {A : Nat → Scope → Prop} {found : List Instruction}
    {d : Draft} {program : Program} {body : Deferred} (h : Between g.env A found d program)
    (hnext : d.next? program = some body) :
    ∃ opener key k tag σ, Defers g.env opener k tag key body ∧ opener ∈ ["mixin", "block"] ∧
      A k σ ∧ ¬ program.HasBody opener key ∧
      ∀ d' program', g.round d program = some (.ok (d', program')) →
        ∃ instructions, g.generateBody body d = .ok (instructions, d') ∧
          program'.HasBody opener key ∧ (∀ o n, program.HasBody o n → program'.HasBody o n) ∧
          ∀ name, program'.calledCallCount name =
            program.calledCallCount name + bodyCallCount name instructions := by
  obtain ⟨⟨key, body⟩, hentry, rfl⟩ := Option.map_eq_some_iff.1 hnext
  rcases Option.or_eq_some_iff.1 hentry with hentry | ⟨hmixins, hentry⟩
  · obtain ⟨k, tag, σ, defers, hk⟩ := h.resting.mixins _ (List.mem_of_getElem? hentry)
    have hnew := (Table.next_not_mem h.mixins h.mixins_nodup hentry).1
    refine ⟨"mixin", key, k, tag, σ, defers, by decide, hk, ?_, fun d' program' hround => ?_⟩
    · rintro (⟨_, hold⟩ | ⟨hblock, _⟩)
      · exact hnew hold
      · exact absurd hblock (by decide)
    · obtain ⟨_, instructions, hnext', hbody, ⟨_, hentry', rfl⟩ | ⟨hnone, _⟩⟩ := Generator.round_ok hround
      · obtain ⟨rfl, rfl⟩ := Prod.mk.inj (Option.some.inj (hentry.symm.trans hentry'))
        have hkeys := Table.keys_insert_of_not_mem hnew (⟨body.params, instructions⟩ : Mixin)
        refine ⟨instructions, hbody, .inl ⟨rfl, ?_⟩, ?_, fun name => ?_⟩
        · rw [hkeys]
          exact List.mem_append_right _ List.mem_cons_self
        · rintro o n (⟨ho, hold⟩ | hold)
          · exact .inl ⟨ho, by rw [hkeys]; exact List.mem_append_left _ hold⟩
          · exact .inr hold
        · simp only [Program.calledCallCount, Table.entries_insert hnew, List.map_append,
            List.sum_append, List.map_singleton, List.sum_singleton]
          omega
      · rw [hentry] at hnone
        cases hnone
  · obtain ⟨k, tag, σ, defers, hk⟩ := h.resting.blocks _ (List.mem_of_getElem? hentry)
    have hnew := (Table.next_not_mem h.blocks h.blocks_nodup hentry).1
    refine ⟨"block", key, k, tag, σ, defers, by decide, hk, ?_, fun d' program' hround => ?_⟩
    · rintro (⟨hmixin, _⟩ | ⟨_, hold⟩)
      · exact absurd hmixin (by decide)
      · exact hnew hold
    · obtain ⟨_, instructions, hnext', hbody, ⟨_, hsome, _⟩ | ⟨_, _, hentry', rfl⟩⟩ :=
        Generator.round_ok hround
      · rw [hmixins] at hsome
        cases hsome
      · obtain ⟨rfl, rfl⟩ := Prod.mk.inj (Option.some.inj (hentry.symm.trans hentry'))
        have hkeys := Table.keys_insert_of_not_mem hnew instructions
        refine ⟨instructions, hbody, .inr ⟨rfl, ?_⟩, ?_, fun name => ?_⟩
        · rw [hkeys]
          exact List.mem_append_right _ List.mem_cons_self
        · rintro o n (hold | ⟨ho, hold⟩)
          · exact .inl hold
          · exact .inr ⟨ho, by rw [hkeys]; exact List.mem_append_left _ hold⟩
        · simp only [Program.calledCallCount, Table.entries_insert hnew, List.map_append,
            List.sum_append, List.map_singleton, List.sum_singleton]
          omega

/-- The token is generated in the main body, or in one of some rounds. -/
inductive Generator.HeldWithin (g : Generator) (main : Draft) (rounds k : Nat) (σ : Scope) : Prop where
  | main (lt : k < g.env.tokens.length) (reaches : g.Reaches {} k σ)
  | deferred {d : Draft} {program : Program} {round : Nat} {body : Deferred} (before : round < rounds)
      (done : g.generateDeferred round main {} = .ok (d, program))
      (next : d.next? program = some body) (lt : k < body.stop)
      (reaches : g.Reaches (d.begin body) k σ)

/-- A body that does not end before a token has been generated: it is the main one, or in a program. -/
inductive Begun (env : DraftEnv) (program : Program) (j : Nat) : Nat → Prop where
  | main : Begun env program j 0
  | deferred {opener key : String} {k : Nat} {tag : Tag} {body : Deferred}
      (defers : Defers env opener k tag key body) (opener_mem : opener ∈ ["mixin", "block"])
      (outside : Outside env.kinds env.tokens k) (le : j ≤ body.stop)
      (done : program.HasBody opener key) : Begun env program j body.start

theorem Begun.mono {env : DraftEnv} {program program' : Program} {j start : Nat}
    (h : Begun env program j start)
    (keeps : ∀ opener key, program.HasBody opener key → program'.HasBody opener key) :
    Begun env program' j start := by
  cases h with
  | main => exact .main
  | deferred defers opener_mem outside le done =>
    exact .deferred defers opener_mem outside le (keeps _ _ done)

/-- After some rounds, a block is called once if its first tag has been generated, in the body that the
tag belongs to, and otherwise never. -/
inductive Generator.Placed (g : Generator) (name : String) (first : Nat) (main : Draft) (rounds : Nat)
    (d : Draft) (program : Program) : Prop where
  | never (none : stackCallCount name d.stack + program.calledCallCount name = 0)
      (not_held : ∀ σ, ¬ g.HeldWithin main rounds first σ)
  | once {σ : Scope} {start : Nat}
      (one : stackCallCount name d.stack + program.calledCallCount name = 1)
      (held : g.HeldWithin main rounds first σ) (owned : Owned g.env start first)
      (begun : Begun g.env program first start)

namespace Generator

variable {g : Generator} {name : String} {first last rounds k : Nat} {main d d' : Draft} {σ : Scope}
  {program program' : Program}

theorem HeldWithin.succ (h : g.HeldWithin main rounds k σ) : g.HeldWithin main (rounds + 1) k σ := by
  cases h with
  | main lt reaches => exact .main lt reaches
  | deferred before done next lt reaches =>
    exact .deferred (Nat.lt_succ_of_lt before) done next lt reaches

/-- What is generated within one round more is generated in that round, if not before. -/
theorem HeldWithin.of_succ (h : g.HeldWithin main (rounds + 1) k σ)
    (hdone : g.generateDeferred rounds main {} = .ok (d, program)) :
    g.HeldWithin main rounds k σ ∨ ∃ body, d.next? program = some body ∧ k < body.stop ∧
      g.Reaches (d.begin body) k σ := by
  cases h with
  | main lt reaches => exact .inl (.main lt reaches)
  | @deferred _ _ round body before done next lt reaches =>
    obtain rfl | hbefore := Nat.eq_or_lt_of_le (Nat.le_of_lt_succ before)
    · obtain ⟨rfl, rfl⟩ := Prod.mk.inj (Except.ok.inj (done.symm.trans hdone))
      exact .inr ⟨body, next, lt, reaches⟩
    · exact .inl (.deferred hbefore done next lt reaches)

/-- Within all rounds, everything is generated. -/
theorem heldWithin_iff (hg : g.IsBuiltin) (hmain : g.generateMain = .ok main) :
    g.HeldWithin main (g.env.tokens.length + 1) k σ ↔ g.HeldAt k σ := by
  constructor
  · intro h
    cases h with
    | main lt reaches => exact .main lt reaches
    | deferred _ done next lt reaches => exact .deferred hmain done next lt reaches
  · intro h
    cases h with
    | main lt reaches => exact .main lt reaches
    | deferred hfirst done next lt reaches =>
      obtain rfl := Except.ok.inj (hmain.symm.trans hfirst)
      exact .deferred (Nat.lt_succ_of_lt (rounds_lt hg hmain done next)) done next lt reaches

/-- A body that was left behind is in a program, if the body that has been begun around its tokens is
the one that they belong to. -/
theorem hasBody_of_begun {start : Nat} {opener key : String} {k first : Nat} {tag : Tag} {body : Deferred}
    (howned : Owned g.env start first) (hbegun : Begun g.env program first start)
    (hbody : Owned g.env body.start first) (hopener : opener ∈ ["mixin", "block"])
    (defers : Defers g.env opener k tag key body) (hout : Outside g.env.kinds g.env.tokens k)
    (hstop : first ≤ body.stop) : program.HasBody opener key := by
  have hle := howned.start_le hopener defers hout hbody.le hstop
  have hstart := defers.start
  cases hbegun with
  | main => omega
  | @deferred opener' key' k' tag' body' defers' hopener' hout' hstop' done =>
    have hle' := hbody.start_le hopener' defers' hout' howned.le hstop'
    have hstart' := defers'.start
    obtain rfl : k = k' := by omega
    obtain rfl := Token.tag.inj (Option.some.inj (defers.here.symm.trans defers'.here))
    obtain rfl := defers.tag_name.symm.trans defers'.tag_name
    obtain rfl := Option.some.inj (defers.named.symm.trans defers'.named)
    exact done

/-- Behind the main body, a block is called if its first tag has been reached. -/
theorem generateMain_placed (hg : g.IsBuiltin)
    (hsites : blockSites g.env.kinds g.env.tokens = .ok g.env.sites)
    (hsite : g.env.sites.get? name = some (first, last)) (hmain : g.generateMain = .ok main) :
    g.Placed name first main 0 main {} := by
  have hdepth : 0 < ({} : Scope).depth := Nat.succ_pos 0
  have hgoing := Going.begins g.env fun _ _ => True
  have hzero : Program.calledCallCount name {} = 0 := rfl
  have hempty : stackCallCount name ({} : Draft).stack = 0 := rfl
  have hcalls := generateRange_calls hg hsites hsite hdepth .main hgoing (generateMain_ok hmain)
  rw [hempty] at hcalls
  rcases hcalls with ⟨hnone, hnot⟩ | ⟨hone, hlt, σ, hreaches⟩
  · refine .never (by omega) fun σ hheld => ?_
    cases hheld with
    | main lt reaches => exact hnot σ lt reaches
    | deferred before => omega
  · have howned := hreaches.owned hg hdepth .main (Nat.zero_le _) (.zero _ _) hgoing
      (Nat.le_of_lt hlt)
    exact .once (by omega) (.main hlt hreaches) howned .main

/-- A round keeps this. -/
theorem round_placed {found : List Instruction} (hg : g.IsBuiltin)
    (hsites : blockSites g.env.kinds g.env.tokens = .ok g.env.sites)
    (hsite : g.env.sites.get? name = some (first, last))
    (hbetween : Between g.env (fun k _ => Outside g.env.kinds g.env.tokens k) found d program)
    (hdone : g.generateDeferred rounds main {} = .ok (d, program))
    (h : g.Placed name first main rounds d program)
    (hround : g.round d program = some (.ok (d', program'))) :
    g.Placed name first main (rounds + 1) d' program' := by
  obtain ⟨body, _, hnext, _⟩ := round_ok hround
  obtain ⟨opener, key, k, tag, σ, defers, hopener, hout, hnew, hadds⟩ := hbetween.next_adds hnext
  obtain ⟨instructions, hbody, hhas, hkeeps, hcount⟩ := hadds d' program' hround
  have hstack : d'.stack = d.stack := by
    have hbetween' := ((round_settles hg hbetween (fun body hnext _ _ hk =>
      Reaches.outside_next hg hbetween hnext hk) hround).get rfl).1
    rw [hbetween'.resting.stack, hbetween.resting.stack]
  have hlooked : ∀ opener ∈ ["mixin", "block"], opener ∉ verbatimTags := by decide
  have hτ := Scope.depth_opened_pos (Scope.behind {} found.reverse) body.params
  rcases generateBody_calls hg hsites hsite hbetween.resting defers hbody with
    ⟨hzero, hnot⟩ | ⟨hone, hlt, τ, hreaches⟩
  · -- The body does not reach the tag, so that nothing changes.
    cases h with
    | never none not_held =>
      refine .never (by rw [hstack, hcount, hzero]; exact none) fun σ hheld => ?_
      rcases hheld.of_succ hdone with hheld | ⟨body', hnext', hlt, hreaches⟩
      · exact not_held σ hheld
      · obtain rfl := Option.some.inj (hnext.symm.trans hnext')
        exact hnot σ hlt hreaches
    | once one held owned begun =>
      exact .once (by rw [hstack, hcount, hzero]; exact one) held.succ owned (begun.mono hkeeps)
  · -- The tag belongs to the body, so that no body before has reached it.
    have howned := hreaches.owned hg hτ (.deferred defers) defers.start_le
      (defers.outside hg.kinds (hlooked opener hopener) hout)
      (hbetween.resting.opened (fun _ _ _ => trivial) body) (Nat.le_of_lt hlt)
    cases h with
    | never none not_held =>
      exact .once (by rw [hstack, hcount, hone]; omega)
        (.deferred (Nat.lt_succ_self _) hdone hnext hlt hreaches) howned
        (.deferred defers hopener hout (Nat.le_of_lt hlt) hhas)
    | once one held owned begun =>
      exact absurd
        (hasBody_of_begun owned begun howned hopener defers hout (Nat.le_of_lt hlt)) hnew

/-- So it holds after all rounds. -/
theorem generateDeferred_placed (hg : g.IsBuiltin)
    (hsites : blockSites g.env.kinds g.env.tokens = .ok g.env.sites)
    (hsite : g.env.sites.get? name = some (first, last)) (hmain : g.generateMain = .ok main)
    (hdone : g.generateDeferred rounds main {} = .ok (d, program)) :
    g.Placed name first main rounds d program := by
  induction rounds generalizing d program with
  | zero =>
    cases hdone
    exact generateMain_placed hg hsites hsite hmain
  | succ rounds ih =>
    obtain ⟨d₀, program₀, hbefore, hcases⟩ := generateDeferred_last hdone
    have hplaced := ih hbefore
    obtain ⟨hround, rfl, rfl⟩ | hround := hcases
    · have hlast := round_eq_none.1 hround
      cases hplaced with
      | never none not_held =>
        refine .never none fun σ hheld => ?_
        rcases hheld.of_succ hbefore with hheld | ⟨_, hnext, _⟩
        · exact not_held σ hheld
        · rw [hlast] at hnext
          cases hnext
      | once one held owned begun => exact .once one held.succ owned begun
    · obtain ⟨found, hfirst⟩ := (generateMain_outside hg).get hmain
      have hbetween := (generateDeferred_outside hg hfirst rounds).get hbefore
      exact round_placed hg hsites hsite hbetween hbefore hplaced hround

/-- A program calls a block once, if the first tag of the block is generated, and otherwise never. -/
theorem generate_placed {made : Generated} (hg : g.IsBuiltin)
    (hsites : blockSites g.env.kinds g.env.tokens = .ok g.env.sites)
    (hsite : g.env.sites.get? name = some (first, last)) (hmade : g.generate = .ok made) :
    (made.program.callCount name = 0 ∧ ∀ σ, ¬ g.HeldAt first σ) ∨
      (made.program.callCount name = 1 ∧ ∃ σ, g.HeldAt first σ) := by
  obtain ⟨main, d, program, hmain, hdone, _, hprogram⟩ := generate_ok hmade
  have hplaced := generateDeferred_placed hg hsites hsite hmain hdone
  obtain ⟨found, hfirst⟩ := (generateMain_outside hg).get hmain
  have hbetween := (generateDeferred_outside hg hfirst _).get hdone
  have hcount : made.program.callCount name =
      stackCallCount name d.stack + program.calledCallCount name := by
    rw [hprogram, hbetween.resting.stack]
    unfold Program.callCount
    dsimp only
    rw [hbetween.resting.inner_root.2, OpenBlock.body, bodyCallCount_reverse]
    simp [stackCallCount, OpenKind.callCount, Program.calledCallCount]
  rw [hcount]
  cases hplaced with
  | never none not_held =>
    exact .inl ⟨none, fun σ hheld => not_held σ ((heldWithin_iff hg hmain).2 hheld)⟩
  | once one held => exact .inr ⟨one, _, (heldWithin_iff hg hmain).1 held⟩

end Generator

/-- A block of a program is called in one place at most: exactly once if the first tag of its name is
generated, which it is if no tag around it drops it. -/
theorem block_placed (tokens : List Token) (files : Files) (positions : Bool) (made : Generated)
    (hmade : generate tokens files .builtin positions = .ok made) (name : String)
    (hname : made.program.blocks.contains name = true) :
    ∃ sites first last, blockSites TagRegistry.builtin.kinds tokens = .ok sites ∧
      sites.get? name = some (first, last) ∧
      let g := builtinGenerator tokens files positions sites
      made.program.callCount name ≤ 1 ∧
      (made.program.callCount name = 1 ↔ ∃ σ, g.HeldAt first σ) ∧
      (Kept g.env first → made.program.callCount name = 1) := by
  obtain ⟨sites, hsites, hprogram⟩ := (generate_settles tokens files positions).get hmade
  let g := builtinGenerator tokens files positions sites
  have hg : g.IsBuiltin := ⟨rfl, rfl⟩
  have hgenerate : g.generate = .ok made := (generate_eq hsites).symm.trans hmade
  -- The body was left behind at a tag of the block, so that there is a first one.
  obtain ⟨e, he, rfl⟩ := List.mem_map.1 (Table.contains_iff.1 hname)
  obtain ⟨_, ⟨k, _, τ, defers, hk⟩, _⟩ := hprogram.calls.blocks e he
  obtain ⟨first, last, hsite, _⟩ := @DraftEnv.site_found g.env _ _ _ rfl hsites (hk.outside hg)
    defers.here defers.tag_name defers.named
  have hplaced := g.generate_placed hg hsites hsite hgenerate
  have hiff : made.program.callCount e.1 = 1 ↔ ∃ σ, g.HeldAt first σ := by
    rcases hplaced with ⟨hnone, hnot⟩ | ⟨hone, hheld⟩
    · exact ⟨fun hone => by omega, fun ⟨σ, hheld⟩ => absurd hheld (hnot σ)⟩
    · exact ⟨fun _ => hheld, fun _ => hone⟩
  refine ⟨sites, first, last, hsites, hsite, ?_, hiff, fun hkept => hiff.2 ?_⟩
  · rcases hplaced with ⟨hnone, _⟩ | ⟨hone, _⟩
    · omega
    · omega
  · obtain ⟨hout, tag, here, hblock, _⟩ := @DraftEnv.first_site g.env e.1 rfl hsites first last hsite
    obtain ⟨found, _, filled⟩ := hprogram.body
    have hcloser : ∀ tag', g.env.token? first = some (.tag tag') → isCloser tag'.name = false := by
      intro tag' here'
      obtain rfl := Token.tag.inj (Option.some.inj (here.symm.trans here'))
      rw [hblock]
      decide
    exact Generator.heldAt_of_filled hg hgenerate hsites hprogram hcloser hout hkept filled
      (Nat.zero_le _) (Nat.zero_le _) (List.getElem?_eq_some_iff.1 here).1

theorem block_placed_writtenTwice :
    ∃ made sites, generate writtenTwice {} .builtin false = .ok made ∧
      made.program.blocks.contains "a" = true ∧ made.program.callCount "a" = 1 ∧
      ∃ σ, (builtinGenerator writtenTwice {} false sites).HeldAt 0 σ := by
  have hcomputed : (generate writtenTwice {} .builtin false).toOption.map
      (·.program.blocks.contains "a") = some true := by decide +kernel
  have hfound : (blockSites TagRegistry.builtin.kinds writtenTwice).toOption.map
      (fun sites => (sites.get? "a").map Prod.fst) = some (some 0) := by decide +kernel
  obtain ⟨made, hmade, hcontains⟩ := ok_of_toOption_map hcomputed
  obtain ⟨sites, first, last, hsites, hsite, _, hiff, hkept⟩ :=
    block_placed writtenTwice {} false made hmade "a" hcontains
  obtain rfl : first = 0 := by
    simpa [hsites, Except.toOption, hsite] using hfound
  -- Nothing stands before the first tag.
  have hone := hkept fun k _ _ hk => absurd hk (Nat.not_lt_zero k)
  exact ⟨made, sites, hmade, hcontains, hone, hiff.1 hone⟩

/-- A block whose first tag stands in the body of another block that is written again behind. -/
def droppedFirst : List Token :=
  [tagAt 0 "block" "a" "\x7b% block a %\x7d", tagAt 13 "block" "b" "\x7b% block b %\x7d",
    .raw "1" ⟨stringFile, 26⟩, tagAt 27 "endblock" "" "\x7b% endblock %\x7d",
    tagAt 41 "endblock" "" "\x7b% endblock %\x7d", tagAt 55 "block" "a" "\x7b% block a %\x7d",
    tagAt 68 "block" "b" "\x7b% block b %\x7d", .raw "2" ⟨stringFile, 81⟩,
    tagAt 82 "endblock" "" "\x7b% endblock %\x7d", tagAt 96 "endblock" "" "\x7b% endblock %\x7d"]

/-- It has a body, but is called nowhere. -/
theorem block_not_placed : ∃ made, generate droppedFirst {} .builtin false = .ok made ∧
    made.program.blocks.contains "b" = true ∧ made.program.callCount "b" = 0 := by
  have hcomputed : (generate droppedFirst {} .builtin false).toOption.map
      (fun made => (made.program.blocks.contains "b", made.program.callCount "b")) =
        some (true, 0) := by decide +kernel
  obtain ⟨made, hmade, hboth⟩ := ok_of_toOption_map hcomputed
  obtain ⟨hcontains, hnone⟩ := Prod.mk.inj hboth
  exact ⟨made, hmade, hcontains, hnone⟩

end Stencil
