import Stencil.Proofs.Generation.Points

/-!
# What tokens leave in a program

What a token puts into the open blocks is in the program in the end. The header of a block keeps it as
the block turns to further branches and arms, and a block that is complete goes into the block around
it with all that it holds; only blanks in front of the first arm of a case are dropped.

* `Lasting`: what is kept of open blocks, and what it comes to in their instructions.
* `Holding.change`: a handler drops none of it.
* `Generator.generateRange_holding`: so it is still there where the body ends.
* `Generator.Begins.ends`: a body that is begun is in the program.
* `Generator.HeldAt.leaves`: so what a token leaves in the open blocks is in the program.
-/

namespace Stencil

/-! ## Bodies are kept -/

theorem isBlankBody_eq_all (body : List Instruction) :
    Handler.isBlankBody body = body.all fun x => Handler.isBlankBody [x] := by
  simp [Handler.isBlankBody]

theorem isBlankBody_of_isBlock {x : Instruction} (h : x.isBlock = true) :
    Handler.isBlankBody [x] = false := by
  cases x <;> first | rfl | cases h

namespace Occurs

variable {x : Instruction} {body : List Instruction}

/-- A body with an instruction other than blanks is not blank. -/
theorem not_blank (h : Occurs x body) (hx : Handler.isBlankBody [x] = false) :
    Handler.isBlankBody body = false := by
  rw [isBlankBody_eq_all, List.all_eq_false]
  cases h with
  | here mem => exact ⟨x, mem, by rw [hx]; exact Bool.false_ne_true⟩
  | @inside _ _ y mem within =>
    refine ⟨y, mem, ?_⟩
    by_cases hy : y.isBlock = true
    · rw [isBlankBody_of_isBlock hy]
      exact Bool.false_ne_true
    · rw [Instruction.bodies_eq_nil (Bool.not_eq_true _ ▸ hy)] at within
      exact absurd within List.not_mem_nil

/-- A position in front takes no instruction away but another position. -/
theorem markIn (h : Occurs x body) (hx : Handler.isBlankBody [x] = false) (pos : Pos) :
    Occurs x (Draft.markIn pos body) := by
  unfold Draft.markIn
  split
  · next old rest =>
    rcases (show Occurs x ([.position old] ++ rest) from h).append with hold | hrest
    · cases hold.not_blank hx
    · exact hrest.mono fun _ => List.mem_cons_of_mem _
  · exact h.mono fun _ => List.mem_cons_of_mem _

end Occurs

section

variable {env : DraftEnv} {L : String → Prop} {σ σ' : Scope} {i j : Nat}
  {found inner : List Instruction} {kind next : OpenKind}

theorem Turns.bodies_subset (h : Turns env L σ i found kind next) (hinner : inner ∈ kind.bodies) :
    inner ∈ next.bodies := by
  cases h with
  | elseIf | otherwise | arm => exact List.mem_cons_of_mem _ hinner
  | firstArm => exact hinner

/-- Turning to the next branch or arm keeps the body before, but for blanks in front of all arms. -/
theorem Turns.body_mem (h : Turns env L σ i found kind next) :
    found.reverse ∈ next.bodies ∨ Handler.isBlankBody found = true := by
  cases h with
  | elseIf | otherwise | arm => exact .inl List.mem_cons_self
  | firstArm blank => exact .inr blank

theorem Change.mono {L' : String → Prop} {stack stack' : List OpenBlock}
    (h : Change env L σ i stack stack' σ' j) (hL : ∀ name, L name → L' name) :
    Change env L' σ i stack stack' σ' j := by
  cases h with
  | leaf leaf => exact .leaf (leaf.mono hL)
  | opens here opener opens closes => exact .opens here opener (opens.mono hL) closes
  | turns turns => exact .turns (turns.mono hL)
  | closes here closer complete => exact .closes here closer complete

/-! ## What lasts -/

/-- `K` of an open block holds until the block is complete, and `Q` of its instruction from then
on. -/
structure Lasting (K : OpenKind → Prop) (Q : Instruction → Prop) : Prop where
  inner : ∀ {kind}, K kind → kind ≠ .root
  turns : ∀ {env L σ i found kind next}, Turns env L σ i found kind next → K kind → K next
  complete : ∀ {kind content x}, kind.complete? content = some x → K kind → Q x
  written : ∀ {x}, Q x → Handler.isBlankBody [x] = false

/-- `K` holds of an open block, or `Q` of an instruction that stands in it. -/
def OpenBlock.Has (K : OpenKind → Prop) (Q : Instruction → Prop) (b : OpenBlock) : Prop :=
  K b.kind ∨ ∃ x, Q x ∧ (Occurs x b.found ∨ ∃ inner ∈ b.kind.bodies, Occurs x inner)

/-- It does so for one of the open blocks. -/
def Holding (K : OpenKind → Prop) (Q : Instruction → Prop) (stack : List OpenBlock) : Prop :=
  ∃ b ∈ stack, b.Has K Q

variable {K : OpenKind → Prop} {Q : Instruction → Prop} {content : List Instruction}

theorem holding_cons {b : OpenBlock} {outer : List OpenBlock} :
    Holding K Q (b :: outer) ↔ b.Has K Q ∨ Holding K Q outer :=
  List.exists_mem_cons_iff ..

namespace OpenBlock.Has

theorem mono {found' : List Instruction} (h : (⟨kind, found⟩ : OpenBlock).Has K Q)
    (hsub : ∀ x, Q x → Occurs x found → Occurs x found') : (⟨kind, found'⟩ : OpenBlock).Has K Q :=
  h.imp_right fun ⟨x, hx, hin⟩ => ⟨x, hx, hin.imp_left (hsub x hx)⟩

theorem turns (hlasting : Lasting K Q) (h : (⟨kind, found⟩ : OpenBlock).Has K Q)
    (hturns : Turns env L σ i found kind next) : (⟨next, []⟩ : OpenBlock).Has K Q := by
  obtain hkind | ⟨x, hx, hocc | ⟨inner, hinner, hocc⟩⟩ := h
  · exact .inl (hlasting.turns hturns hkind)
  · rcases hturns.body_mem with hbody | hblank
    · exact .inr ⟨x, hx, .inr ⟨_, hbody, hocc.mono fun _ => List.mem_reverse.2⟩⟩
    · rw [hocc.not_blank (hlasting.written hx)] at hblank
      cases hblank
  · exact .inr ⟨x, hx, .inr ⟨inner, hturns.bodies_subset hinner, hocc⟩⟩

theorem complete {instruction : Instruction} (hlasting : Lasting K Q)
    (h : (⟨kind, content⟩ : OpenBlock).Has K Q) (hcomplete : kind.complete? content = some instruction) :
    (⟨next, instruction :: found⟩ : OpenBlock).Has K Q := by
  have within {x : Instruction} (hx : Q x) {inner : List Instruction}
      (hinner : inner ∈ kind.bodies ∨ inner = content.reverse) (hocc : Occurs x inner) :
      (⟨next, instruction :: found⟩ : OpenBlock).Has K Q :=
    .inr ⟨x, hx, .inl (.inside List.mem_cons_self ((OpenKind.mem_bodies hcomplete).2 hinner) hocc)⟩
  obtain hkind | ⟨x, hx, hocc | ⟨inner, hinner, hocc⟩⟩ := h
  · exact .inr ⟨_, hlasting.complete hcomplete hkind, .inl (.here List.mem_cons_self)⟩
  · exact within hx (.inr rfl) (hocc.mono fun _ => List.mem_reverse.2)
  · exact within hx (.inl hinner) hocc

end OpenBlock.Has

/-- A handler drops nothing that lasts. -/
theorem Holding.change {stack stack' : List OpenBlock} (hlasting : Lasting K Q)
    (h : Holding K Q stack) (hchange : Change env L σ i stack stack' σ' j) :
    Holding K Q stack' := by
  cases hchange with
  | leaf =>
    rw [holding_cons] at h ⊢
    exact h.imp_left fun hhas => hhas.mono fun _ _ hocc => hocc.mono fun _ => List.mem_append_right _
  | opens => exact holding_cons.2 (.inr h)
  | turns turns =>
    rw [holding_cons] at h ⊢
    exact h.imp_left (·.turns hlasting turns)
  | closes _ _ complete =>
    rw [holding_cons, holding_cons] at h
    rw [holding_cons]
    obtain hinner | haround | houter := h
    · exact .inl (hinner.complete hlasting complete)
    · exact .inl (haround.mono fun _ _ hocc => hocc.mono fun _ => List.mem_cons_of_mem _)
    · exact .inr houter

/-- Nor does a position. -/
theorem Holding.mark {d : Draft} (hlasting : Lasting K Q) (h : Holding K Q d.stack) (pos : Pos) :
    Holding K Q (d.mark env pos).stack := by
  by_cases hpositions : env.positions = true
  · rw [Draft.stack_mark hpositions]
    rw [Draft.stack_eq, holding_cons] at h
    rw [holding_cons]
    exact h.imp_left fun hhas => hhas.mono fun x hx hocc => hocc.markIn (hlasting.written hx) pos
  · rwa [Draft.mark, if_neg hpositions]

end

/-! ## Bodies last -/

namespace Generator

variable {g : Generator} {K : OpenKind → Prop} {Q : Instruction → Prop} {d₀ d d' main last : Draft}
  {A : Nat → Scope → Prop} {τ σ : Scope} {start stop rounds k : Nat} {below : List OpenBlock}
  {program program' : Program} {before : List Nat} {made : Generated}

theorem step_holding {token : Token} (hg : g.IsBuiltin) (hlasting : Lasting K Q)
    (hends : Ends g.env start below stop) (h : Going g.env d₀ A τ start below d)
    (hlt : d.idx < stop) (here : g.env.token? d.idx = some token) (held : A d.idx d.scope)
    (hstep : g.step token d = .ok d') (hholding : Holding K Q d.stack) : Holding K Q d'.stack := by
  have hchange := ((step_effect hg hends h hlt here held).get hstep).change
  have hmark : Holding K Q ({ d with trimNext := false }.mark g.env token.pos).stack :=
    Holding.mark (d := { d with trimNext := false }) hlasting hholding token.pos
  exact hmark.change hlasting hchange

/-- What lasts is still there where a body ends. -/
theorem generateRange_holding (hg : g.IsBuiltin) (hlasting : Lasting K Q) (hτ : 0 < τ.depth)
    (hends : Ends g.env start below stop) (h : Going g.env d₀ A τ start below d)
    (held : ∀ k σ, k < stop → g.Reaches d k σ → A k σ) (hrange : g.generateRange stop d = .ok d')
    (hholding : Holding K Q d.stack) : Holding K Q d'.stack := by
  fun_induction generateRange g stop d with
  | case1 | case5 =>
    obtain rfl := Except.ok.inj hrange
    exact hholding
  | case2 | case4 => cases hrange
  | case3 d hlt token here next hstep hnext ih =>
    have hnow := held _ _ hlt (.here g d)
    have hgoing := (step_settles hg hτ hends h hlt here hnow).get hstep
    exact ih hgoing (fun k σ hk hreaches => held k σ hk (hreaches.step here hstep hnext)) hrange
      (step_holding hg hlasting hends h hlt here hnow hstep hholding)

/-! ## Bodies are in the program -/

/-- A round adds a body to a program and takes none away. -/
theorem round_keeps {found : List Instruction} (h : Between g.env A found d program)
    (hround : g.round d program = some (.ok (d', program'))) :
    (∀ e ∈ program.mixins.entries, e ∈ program'.mixins.entries) ∧
      ∀ e ∈ program.blocks.entries, e ∈ program'.blocks.entries := by
  obtain ⟨body, instructions, _, _, ⟨name, hentry, rfl⟩ | ⟨_, name, hentry, rfl⟩⟩ := round_ok hround
  · have hnew := (Table.next_not_mem h.mixins h.mixins_nodup hentry).1
    refine ⟨fun e he => ?_, fun _ he => he⟩
    rw [Table.entries_insert hnew]
    exact List.mem_append_left _ he
  · have hnew := (Table.next_not_mem h.blocks h.blocks_nodup hentry).1
    refine ⟨fun _ he => he, fun e he => ?_⟩
    rw [Table.entries_insert hnew]
    exact List.mem_append_left _ he

/-- Nor do more rounds. -/
theorem generateDeferred_keeps {found : List Instruction} (hg : g.IsBuiltin)
    (h : Between g.env (fun _ _ => True) found d program)
    (hdone : g.generateDeferred rounds d program = .ok (d', program')) :
    (∀ e ∈ program.mixins.entries, e ∈ program'.mixins.entries) ∧
      ∀ e ∈ program.blocks.entries, e ∈ program'.blocks.entries := by
  induction rounds generalizing d program with
  | zero =>
    cases hdone
    exact ⟨fun _ he => he, fun _ he => he⟩
  | succ rounds ih =>
    rw [generateDeferred_succ] at hdone
    cases hround : g.round d program with
    | none =>
      rw [hround] at hdone
      cases hdone
      exact ⟨fun _ he => he, fun _ he => he⟩
    | some x =>
      rw [hround] at hdone
      cases x with
      | error e => cases hdone
      | ok made =>
        obtain ⟨hmixins, hblocks⟩ := round_keeps h hround
        have hnow := ((round_settles hg h (fun _ _ _ _ _ _ => trivial) hround).get rfl).1
        obtain ⟨hmixins', hblocks'⟩ := ih hnow hdone
        exact ⟨fun e he => hmixins' e (hmixins e he), fun e he => hblocks' e (hblocks e he)⟩

/-- A body that is begun is generated to its end, and what it holds then is in the program. -/
theorem Begins.ends (hg : g.IsBuiltin) (h : g.Begins before start stop d)
    (hmade : g.generate = .ok made) :
    ∃ d', g.generateRange stop d = .ok d' ∧ (∀ name, name ∈ d'.locals → name ∈ made.locals) ∧
      ∀ b ∈ d'.stack, b.kind = .root ∧ ∀ x, Occurs x b.found → made.program.Holds x := by
  obtain ⟨main, last, program, hmain, hlast, _⟩ := generate_ok hmade
  obtain rfl := Except.ok.inj (hmade.symm.trans (generate_of_rounds hmain hlast))
  obtain ⟨found, hbetween⟩ := (generateMain_settles (A := fun _ _ => True) hg
    fun _ _ _ _ => trivial).get hmain
  have rounds {d d' : Draft} {p p' : Program} {n : Nat}
      (h : Between g.env (fun _ _ => True) found d p)
      (hdone : g.generateDeferred n d p = .ok (d', p')) :
      Between g.env (fun _ _ => True) found d' p' ∧ d.Grows d' := by
    obtain ⟨hbetween, hgrows, _⟩ :=
      (generateDeferred_settles hg h n fun _ _ _ _ _ _ _ _ _ _ _ => trivial).get hdone
    exact ⟨hbetween, hgrows⟩
  obtain ⟨hend, hgrows⟩ := rounds hbetween hlast
  -- The main body stays as it is in all rounds.
  have hmainBody (x : Instruction) (hx : Occurs x found) :
      ({ program with body := last.root.body } : Program).Holds x := by
    refine .body ?_
    rw [hend.resting.inner_root.2]
    exact hx.mono fun _ => List.mem_reverse.2
  cases h with
  | main =>
    refine ⟨main, generateMain_ok hmain, hgrows.locals, fun b hb => ?_⟩
    rw [hbetween.resting.stack] at hb
    obtain rfl := List.mem_singleton.1 hb
    exact ⟨rfl, hmainBody⟩
  | @deferred main' d program₀ n body first done next =>
    obtain rfl : main = main' := Except.ok.inj (hmain.symm.trans first)
    obtain ⟨d₁, program₁, more, hround, hrest⟩ := round_of_next hg hmain done next hlast
    obtain ⟨body', instructions, hnext, hbody, hput⟩ := round_ok hround
    obtain rfl := Option.some.inj (next.symm.trans hnext)
    obtain ⟨d₂, hrange, hgrows₂, block, outer, hinner, rfl, _⟩ := generateBody_ok hbody
    have hnow := (rounds hbetween done).1
    have hafter := ((round_settles hg hnow (fun _ _ _ _ _ _ => trivial) hround).get rfl).1
    obtain ⟨_, _, _, _, _, _, defers, _⟩ := hnow.resting.next next
    obtain ⟨hgoing, hstop⟩ := (generateRange_settles hg (Scope.depth_opened_pos _ _)
      (.deferred defers) (hnow.resting.opened (fun _ _ h => h) body)
      fun _ _ _ _ => trivial).get hrange
    obtain ⟨inside, hstack, _⟩ := hgoing.rests hg.kinds (.deferred defers) hstop
    obtain ⟨hinside, _⟩ :=
      Draft.stack_append (show d₂.stack = [⟨.root, inside⟩] ++ [d.root] from hstack)
    obtain ⟨rfl, _⟩ := List.cons.inj (hinner.symm.trans hinside)
    obtain ⟨hmixins, hblocks⟩ := generateDeferred_keeps hg hafter hrest
    refine ⟨d₂, hrange, fun name hname =>
      (rounds hafter hrest).2.locals name (hgrows₂.locals name hname), fun b hb => ?_⟩
    rw [hstack, hnow.resting.inner_root.2, List.mem_cons, List.mem_singleton] at hb
    rcases hb with rfl | rfl
    · refine ⟨rfl, fun x hx => ?_⟩
      replace hx : Occurs x (OpenBlock.body ⟨.root, inside⟩) :=
        hx.mono fun _ => List.mem_reverse.2
      rcases hput with ⟨name, _, rfl⟩ | ⟨_, name, _, rfl⟩
      · exact .mixin (hmixins _ (Table.mem_insert_self ..)) hx
      · exact .block (hblocks _ (Table.mem_insert_self ..)) hx
    · exact ⟨rfl, hmainBody⟩

/-! ## What tokens leave -/

theorem HeldAt.begins (h : g.HeldAt k σ) :
    ∃ before start stop d, g.Begins before start stop d ∧ k < stop ∧ g.Reaches d k σ := by
  cases h with
  | main lt reaches => exact ⟨_, _, _, _, .main, lt, reaches⟩
  | deferred first done next lt reaches =>
    exact ⟨_, _, _, _, .deferred first done next, lt, reaches⟩

/-- A token is generated where the main body comes to it. -/
theorem heldAt_of_idx (hk : k < g.env.tokens.length)
    (h : (g.generateRange k {}).toOption.map Draft.idx = some k) : ∃ σ, g.HeldAt k σ := by
  obtain ⟨d, hrange, hidx⟩ := ok_of_toOption_map h
  exact ⟨d.scope, .main hk ⟨d, hrange, hidx, rfl⟩⟩

/-- A body begins with the invariant, for the tokens that are generated. -/
theorem Begins.held (hg : g.IsBuiltin) (h : g.Begins before start stop d) :
    ∃ τ below, 0 < τ.depth ∧ Ends g.env start below stop ∧ stop ≤ g.env.tokens.length ∧
      Going g.env d g.HeldAt τ start below d ∧
      ∀ k σ, k < stop → g.Reaches d k σ → g.HeldAt k σ := by
  cases h with
  | main =>
    exact ⟨{}, [], Nat.succ_pos 0, .main, Nat.le_refl _, (Going.begins g.env _).rebase,
      fun _ _ => .main⟩
  | @deferred main d program n body first done next =>
    obtain ⟨found, hbetween⟩ := (generateMain_settles hg fun _ _ => HeldAt.main).get first
    have hnow := ((generateDeferred_settles hg hbetween n
      fun _ _ _ _ _ hdone hnext _ _ => .deferred first hdone hnext).get done).1
    obtain ⟨_, _, _, _, _, _, defers, _⟩ := hnow.resting.next next
    exact ⟨_, _, Scope.depth_opened_pos _ _, .deferred defers, Nat.le_of_lt defers.stop_lt,
      (hnow.resting.opened (fun _ _ h => h) body).rebase, fun _ _ => .deferred first done next⟩

/-- The token at an index changes the open blocks, and what lasts of them then is in the program. -/
inductive Leaves (g : Generator) (made : Generated) (k : Nat) (σ : Scope) : Prop where
  | mk {τ σ' : Scope} {start j : Nat} {below stack stack' : List OpenBlock} (depth : 0 < τ.depth)
      (stacked : Stacked g.env (· ∈ made.locals) g.HeldAt τ start below stack σ k)
      (change : Change g.env (· ∈ made.locals) σ k stack stack' σ' j)
      (lasts : ∀ {K : OpenKind → Prop} {Q : Instruction → Prop}, Lasting K Q →
        Holding K Q stack' → ∃ x, Q x ∧ made.program.Holds x)

/-- So it is with every token that is generated. -/
theorem HeldAt.leaves (hg : g.IsBuiltin) (h : g.HeldAt k σ) (hmade : g.generate = .ok made) :
    g.Leaves made k σ := by
  obtain ⟨before, start, stop, d, hbegins, hk, hreaches⟩ := h.begins
  obtain ⟨τ, below, hτ, hends, hstop, hgoing, hheld⟩ := hbegins.held hg
  obtain ⟨d', hrange, hlocals, hin⟩ := hbegins.ends hg hmade
  obtain ⟨mid, rfl, rfl, hmid, hheld', heq⟩ :=
    hreaches.going hg hτ hends hgoing hheld (Nat.le_of_lt hk)
  have here : g.env.token? mid.idx = some g.env.tokens[mid.idx] :=
    List.getElem?_eq_getElem (Nat.lt_of_lt_of_le hk hstop)
  rw [heq] at hrange
  obtain ⟨next, hstep, hnext, hrest⟩ := generateRange_cases hk here hrange
  have heffect := (step_effect hg hends hmid hk here h).get hstep
  have hmarked := hmid.mark here h
  have hgoing' := (step_settles hg hτ hends hmid hk here h).get hstep
  have hheld'' (k : Nat) (σ : Scope) (hk : k < stop) (hreaches : g.Reaches next k σ) :=
    hheld' k σ hk (hreaches.step here hstep hnext)
  have hknown (name : String) (hname : name ∈ next.locals) : name ∈ made.locals :=
    hlocals name (((generateRange_settles hg hτ hends hgoing'.rebase hheld'').get
      hrest).1.grows.locals name hname)
  have hstacked := hmarked.stacked.mono fun name hname => hknown name (heffect.grows.locals name hname)
  have hchange := heffect.change.mono hknown
  rw [Draft.idx_mark, Draft.scope_mark] at hstacked hchange
  refine .mk hτ hstacked hchange fun hlasting hholding => ?_
  obtain ⟨b, hb, hhas⟩ :=
    generateRange_holding hg hlasting hτ hends hgoing' hheld'' hrest hholding
  obtain ⟨hroot, holds⟩ := hin b hb
  obtain hkind | ⟨x, hx, hocc | ⟨inner, hinner, _⟩⟩ := hhas
  · exact absurd hroot (hlasting.inner hkind)
  · exact ⟨x, hx, holds x hocc⟩
  · rw [hroot] at hinner
    exact absurd hinner List.not_mem_nil

end Generator

end Stencil
