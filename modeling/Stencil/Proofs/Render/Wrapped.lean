import Stencil.Proofs.Generation.Unbound
import Stencil.Proofs.Render.Checked
import Stencil.Proofs.Render.Padded
import Stencil.Proofs.Render.Terminates
import Stencil.Proofs.Render.Unmarked

/-!
# Blocks around tokens

The tags of a block around some tokens change nothing, as long as the expressions of the tokens read the
same variables behind the main body, where the body of the block is compiled.

* `Program.Folds.accepts`: with the block, a program is accepted if it is accepted without it.
* `Program.Folds.renders`: both render the same.
* `block_transparent`: so templates with and without the block act alike.
* `block_reads_behind`: they need not, if an expression reads a variable that a tag behind it binds.
-/

namespace Stencil

/-! ## Programs -/

namespace Program.Folds

variable {name : String} {added : List Instruction} {program program' : Program} {x : Instruction}

/-- What stands for an instruction of the second program, stands in the first one; those of the block
are left out. -/
theorem holds (h : program.Folds name added program') (hmixins : program'.mixins.keys.Nodup)
    (hblocks : program'.blocks.keys.Nodup) (hx : program'.Holds x) :
    (∀ y ∈ x.inlined (foldOne name added), program.Holds y) ∨ Occurs x added := by
  cases hx with
  | body occurs =>
    refine .inl fun y hy => .body ?_
    rw [h.body]
    exact occurs.inlined y hy
  | @mixin e mem occurs =>
    have hrel := h.mixins e.1
    rw [Table.get?_of_mem hmixins mem] at hrel
    cases hget : program.mixins.get? e.1 with
    | none =>
      rw [hget] at hrel
      cases hrel
    | some mixin =>
      rw [hget] at hrel
      cases hrel with
      | some hboth =>
        refine .inl fun y hy => .mixin (Table.mem_of_get? hget) ?_
        rw [hboth.2]
        exact occurs.inlined y hy
  | @block e mem occurs =>
    have hfound := Table.get?_of_mem hblocks mem
    by_cases hname : e.1 = name
    · refine .inr ?_
      rw [← h.named, ← hname, hfound]
      exact occurs
    · have hrel := h.blocks e.1 hname
      rw [hfound] at hrel
      cases hget : program.blocks.get? e.1 with
      | none =>
        rw [hget] at hrel
        cases hrel
      | some body =>
        rw [hget] at hrel
        cases hrel with
        | some heq =>
          refine .inl fun y hy => .block (Table.mem_of_get? hget) ?_
          rw [heq]
          exact occurs.inlined y hy

/-- If the block is called, its instructions stand in the first program. -/
theorem holds_added (h : program.Folds name added program') (hmixins : program'.mixins.keys.Nodup)
    (hblocks : program'.blocks.keys.Nodup) (hcalm : Calm added)
    (hcalled : added = [] ∨ program'.Holds (.callBlock name)) (hx : Occurs x added) :
    program.Holds x := by
  have hall : ∀ y ∈ added, program.Holds y := by
    rcases hcalled with rfl | hcalled
    · exact fun y hy => absurd hy List.not_mem_nil
    · rcases h.holds hmixins hblocks hcalled with hall | hocc
      · simpa [Instruction.inlined, foldOne] using hall
      · exact absurd (hcalm _ hocc) Bool.false_ne_true
  cases hx with
  | here mem => exact hall x mem
  | inside mem within occurs => exact (hall _ mem).deeper within occurs

/-- So the second program is accepted if the first one is. -/
theorem accepts (h : program.Folds name added program') (hmixins : program'.mixins.keys.Nodup)
    (hblocks : program'.blocks.keys.Nodup) (hcalm : Calm added)
    (hcalled : added = [] ∨ program'.Holds (.callBlock name)) {E : Evaluator}
    (haccepts : ∀ i, program.Holds i → E.Accepts i) : ∀ i, program'.Holds i → E.Accepts i := by
  intro i hi
  rcases h.holds hmixins hblocks hi with hall | hocc
  · cases hblock : i.isBlock with
    | true =>
      obtain ⟨j, hj, hblock', hpipelines⟩ :=
        Instruction.inlined_block (foldOne name added) hblock
      have hfirst := haccepts j (hall j (hj ▸ List.mem_cons_self))
      rw [Evaluator.accepts_block hblock', hpipelines] at hfirst
      exact (Evaluator.accepts_block hblock).2 hfirst
    | false =>
      by_cases hcall : ∃ key, i = .callBlock key
      · obtain ⟨key, rfl⟩ := hcall
        exact ⟨fun x hx => absurd hx List.not_mem_nil, fun source heq => nomatch heq⟩
      · have hself : i.inlined (foldOne name added) = [i] :=
          Instruction.inlined_leaf hblock fun key heq => hcall ⟨key, heq⟩
        exact haccepts i (hall i (hself ▸ List.mem_cons_self))
  · exact haccepts i (h.holds_added hmixins hblocks hcalm hcalled hocc)

end Program.Folds

/-! ## Renderings -/

/-- The second program has the same variables and paths as the first one. It is accepted if the first
one is, and then it renders the same text, or fails for the same cause. -/
structure Generated.ActsLike (made made' : Generated) (files files' : Files) : Prop where
  locals : made'.locals = made.locals
  paths : made'.paths = made.paths
  renders : ∀ chosen t, Template.produce made.program files chosen = .ok t →
    ∃ t', Template.produce made'.program files' chosen = .ok t' ∧ ∀ bindings toolbox,
      (t'.renderWith bindings toolbox).mapError Error.cause =
        (t.renderWith bindings toolbox).mapError Error.cause

/-- Programs that differ in the calls of a calm block render the same text, or fail for the same
cause. -/
theorem Program.Folds.renders {name : String} {added : List Instruction} {program program' : Program}
    {rank rank' : String → Nat} (h : program.Folds name added program') (hcalm : Calm added)
    (hranked : program.Ranked rank) (hranked' : program'.Ranked rank') (files files' : Files)
    (toolbox : Toolbox) (s : RenderState) :
    (Template.written (RenderEnv.run ⟨program', files', toolbox⟩ s)).mapError Error.cause =
      (Template.written (RenderEnv.run ⟨program, files, toolbox⟩ s)).mapError Error.cause := by
  let env : RenderEnv := ⟨program, files, toolbox⟩
  let env' : RenderEnv := ⟨program', files', toolbox⟩
  -- The second program calls a block more, so that it is given twice as many calls.
  let calls := 2 * env.callBound + env'.callBound
  have hpaired : (padded []).Paired (env.runCalled env.callBound program.body)
      (env'.runCalled calls program'.body) := by
    rw [h.body]
    exact @padded_called name added env env' rfl h hcalm _ _ (Nat.le_add_right _ _) _ solid_nil _
  have hout := hpaired s s ⟨rfl, rfl, rfl, .same _⟩
  have hends := (env.run_eq_runCalled hranked (Nat.le_refl _) s).2
  rw [(env'.run_eq_runCalled hranked' (Nat.le_add_left _ _) s).1] at hout
  change (padded []).Outcome (env.run s) (env'.run s) at hout
  show (Template.written (env'.run s)).mapError _ = (Template.written (env.run s)).mapError _
  generalize env.run s = r at hout hends
  generalize env'.run s = r' at hout
  cases hout with
  | ok flow state => exact congrArg Except.ok state.output
  | error failure => exact congrArg Except.error failure
  | escape escape => exact absurd escape (hends _ _ rfl)

namespace Wrapping

variable {w : Wrapping} {g g' : Generator}

/-- Without positions, the block is transparent: programs with and without it are made alike, accepted
alike, and render alike. -/
theorem plain_transparent {made : Generated} (hw : w.Generates g g') (hmade : g.generate = .ok made)
    (hreads : w.ReadsAlike g made.program.scope) (files files' : Files) :
    ∃ made', g'.generate = .ok made' ∧ made.ActsLike made' files files' := by
  obtain ⟨made', hmade', hlocals, hpaths, added, hfolds⟩ := generate_folds hw hmade hreads
  have hcalm : Calm added := hfolds.named ▸ calm_named hw hmade'
  have hsettled := (Generator.generate_settles hw.builtin).get hmade
  have hsettled' := (Generator.generate_settles hw.builtin').get hmade'
  obtain ⟨hmixins, hblocks⟩ := Generator.generate_nodup hw.builtin' hmade'
  refine ⟨made', hmade', hlocals, hpaths, fun chosen t hproduced => ?_⟩
  have hcalled : added = [] ∨ made'.program.Holds (.callBlock w.name) := by
    rcases Generator.generate_placed hw.builtin' hw.sites' (opener_site hw) hmade' with
      ⟨_, hnot⟩ | ⟨hone, _⟩
    · refine .inl ?_
      rw [← hfolds.named]
      cases hget : made'.program.blocks.get? w.name with
      | none => rfl
      | some body =>
        obtain ⟨σ, _, _, held, _⟩ := named_filled hw hmade' hget
        exact absurd held (hnot σ)
    · exact .inr (Program.holds_of_callCount (by omega))
  have haccepts := hfolds.accepts hmixins hblocks hcalm hcalled
    ((produce_decides made.program files chosen).passes.1 ⟨t, hproduced⟩)
  obtain ⟨t', hproduced'⟩ := (produce_decides made'.program files' chosen).passes.2 haccepts
  refine ⟨t', hproduced', fun bindings toolbox => ?_⟩
  obtain rfl := Template.eq_of_produce hproduced
  obtain rfl := Template.eq_of_produce hproduced'
  have hranked := hsettled.ranked hw.builtin.kinds hw.sites fun k σ hk => hk.outside hw.builtin
  have hranked' := hsettled'.ranked hw.builtin'.kinds hw.sites' fun k σ hk => hk.outside hw.builtin'
  rw [Template.renderWith_eq, Template.renderWith_eq]
  cases Template.globalsOf bindings with
  | error e => rfl
  | ok globals =>
    exact hfolds.renders hcalm hranked hranked' files files' toolbox { globals }

end Wrapping

/-! ## Positions -/

theorem Instruction.binds_unmarked (i : Instruction) : i.unmarked.binds = i.binds := by
  cases i <;> rfl

/-- Positions bind nothing. -/
theorem Scope.behind_unmarked (σ : Scope) (body : List Instruction) :
    σ.behind (unmarkedBody body) = σ.behind body := by
  unfold behind
  congr 1
  induction body with
  | nil => rfl
  | cons i is ih =>
    rw [unmarkedBody, List.flatMap_cons]
    cases hi : i.isPosition with
    | true =>
      cases i with
      | position => exact ih
      | _ => cases hi
    | false =>
      rw [← ih, ← i.binds_unmarked]
      rfl

/-- If programs act alike without positions, they do so with them. -/
theorem Generated.ActsLike.of_unmarked {made made' : Generated} {files files' : Files}
    (h : made.unmarked.ActsLike made'.unmarked files files') : made.ActsLike made' files files' where
  locals := h.locals
  paths := h.paths
  renders chosen t hproduced := by
    obtain ⟨t₀, hproduced₀⟩ :=
      (Template.produce_unmarked_iff made.program files chosen).2 ⟨t, hproduced⟩
    obtain ⟨t₀', hproduced₀', hrenders⟩ := h.renders chosen t₀ hproduced₀
    obtain ⟨t', hproduced'⟩ :=
      (Template.produce_unmarked_iff made'.program files' chosen).1 ⟨t₀', hproduced₀'⟩
    refine ⟨t', hproduced', fun bindings toolbox => ?_⟩
    obtain rfl := Template.eq_of_produce hproduced
    obtain rfl := Template.eq_of_produce hproduced'
    obtain rfl := Template.eq_of_produce hproduced₀
    obtain rfl := Template.eq_of_produce hproduced₀'
    rw [← Template.renderWith_unmarked, ← Template.renderWith_unmarked (Template.mk made.program ..)]
    exact hrenders bindings toolbox

/-- A block is transparent: putting its tags around a properly nested run of tokens that binds nothing,
jumps nowhere, trims nothing and leaves no body behind makes a template with the same variables that
renders alike, if the expressions of the run need the same variables in the scope behind the main body,
where the body of the block is compiled, as where they stand. -/
theorem block_transparent (w : Wrapping) (files files' : Files) (positions : Bool) (made : Generated)
    (hmade : generate w.tokens files .builtin positions = .ok made) (htrims : w.TrimsWithin)
    (hreads : ∀ sites, blockSites TagRegistry.builtin.kinds w.tokens = .ok sites →
      w.ReadsAlike (builtinGenerator w.tokens files false sites) made.program.scope) :
    ∃ made', generate w.wrapped files' .builtin positions = .ok made' ∧
      made.ActsLike made' files files' := by
  obtain ⟨sites, hsites, _⟩ := (generate_settles w.tokens files positions).get hmade
  obtain ⟨sites', hsites', _⟩ := Wrapping.sites_across hsites
  have hw : w.Generates (builtinGenerator w.tokens files false sites)
      (builtinGenerator w.wrapped files' false sites') :=
    ⟨⟨rfl, rfl⟩, ⟨rfl, rfl⟩, rfl, rfl, rfl, rfl, htrims, hsites, hsites'⟩
  have hgenerate : generate w.tokens files .builtin false = _ := generate_eq hsites
  have hgenerate' : generate w.wrapped files' .builtin false = _ := generate_eq hsites'
  cases positions with
  | false =>
    rw [hgenerate] at hmade
    rw [hgenerate']
    exact Wrapping.plain_transparent hw hmade (hreads sites hsites) files files'
  | true =>
    -- Without positions, the programs are the same less the positions.
    have hplain : generate w.tokens files .builtin false = .ok made.unmarked := by
      rw [unmarked_generate, hmade]
      rfl
    have hscope : made.unmarked.program.scope = made.program.scope := Scope.behind_unmarked {} _
    rw [hgenerate] at hplain
    obtain ⟨made', hmade', hacts⟩ :=
      Wrapping.plain_transparent hw hplain (hscope ▸ hreads sites hsites) files files'
    rw [← hgenerate', unmarked_generate] at hmade'
    cases hwrapped : generate w.wrapped files' .builtin true with
    | error e =>
      rw [hwrapped] at hmade'
      cases hmade'
    | ok made₁ =>
      rw [hwrapped] at hmade'
      obtain rfl := Except.ok.inj hmade'
      exact ⟨made₁, rfl, hacts.of_unmarked⟩

/-- An expression in a loop, before an assignment of `x`, and a block around the expression. -/
def readInLoop (expression : String) : Wrapping where
  name := "b"
  before := [tagAt 0 "for" "i in xs" "\x7b% for i in xs %\x7d"]
  word := [.object expression [] ("\x7b\x7b " ++ expression ++ " \x7d\x7d") ⟨stringFile, 17⟩]
  after := [tagAt 24 "endfor" "" "\x7b% endfor %\x7d",
    tagAt 36 "assign" "x = 1" "\x7b% assign x = 1 %\x7d"]
  before' := [tagAt 0 "for" "i in xs" "\x7b% for i in xs %\x7d"]
  word' := [.object expression [] ("\x7b\x7b " ++ expression ++ " \x7d\x7d") ⟨stringFile, 30⟩]
  after' := [tagAt 51 "endfor" "" "\x7b% endfor %\x7d",
    tagAt 63 "assign" "x = 1" "\x7b% assign x = 1 %\x7d"]
  opener := ⟨"block", "b", "b", [], "\x7b% block b %\x7d", ⟨stringFile, 17⟩⟩
  closer := ⟨"endblock", "", "", [], "\x7b% endblock %\x7d", ⟨stringFile, 37⟩⟩
  before_alike := .cons ⟨_, rfl⟩ .nil
  word_alike := .cons ⟨⟨stringFile, 30⟩, rfl⟩ .nil
  after_alike := .cons ⟨⟨stringFile, 51⟩, rfl⟩ (.cons ⟨⟨stringFile, 63⟩, rfl⟩ .nil)
  opens := rfl
  named := by decide
  closes := rfl
  word_sealed := .plain (fun _ h => nomatch h) (fun _ _ => rfl) .nil
  word_quiet token hmem _ _ := by
    rw [List.mem_singleton.1 hmem]
    rfl
  outside := rfl
  fresh tag hmem hname := by
    simp [tagAt] at hmem
    rcases hmem with rfl | rfl | rfl <;> exact absurd hname (by decide)
  free k tag stop hk _ here hname := by
    obtain rfl : k = 0 := Nat.lt_one_iff.1 hk
    cases here
    exact absurd hname (by decide)
  armed k tag hk _ here hname := by
    obtain rfl : k = 0 := Nat.lt_one_iff.1 hk
    cases here
    exact absurd hname (by decide)
  untrimmed token hlast := by
    cases hlast
    rfl

theorem block_transparent_readInLoop :
    ∃ made made' t, generate (readInLoop "y").tokens {} .builtin false = .ok made ∧
      Template.produce made.program {} none = .ok t ∧
      generate (readInLoop "y").wrapped {} .builtin false = .ok made' ∧ made.ActsLike made' {} {} := by
  have hcomputed : (generate (readInLoop "y").tokens {} .builtin false).toOption.map
      (fun made => (Template.produce made.program {} none).isOk) = some true := by decide +kernel
  obtain ⟨made, hmade, hisOk⟩ := ok_of_toOption_map hcomputed
  obtain ⟨t, hproduced⟩ : ∃ t, Template.produce made.program {} none = .ok t := by
    cases hproduced : Template.produce made.program {} none with
    | ok t => exact ⟨t, rfl⟩
    | error e =>
      rw [hproduced] at hisOk
      cases hisOk
  have hnot_bound : ∀ access ∈ Access.ofExpression? "y", ∀ other ∈ (readInLoop "y").tokens,
      other.mayBind access.variableName = false := by decide +kernel
  have htrims : (readInLoop "y").TrimsWithin := by
    have hnone : ∀ token ∈ (readInLoop "y").tokens, token.isTag "trim" = false := by decide +kernel
    intro k token _ here htrim
    rw [hnone token (List.mem_of_getElem? here)] at htrim
    cases htrim
  obtain ⟨made', hmade', hacts⟩ := block_transparent (readInLoop "y") {} {} false made hmade htrims
    fun sites hsites => Wrapping.readsAlike_of_unbound ⟨rfl, rfl⟩ rfl
      ((generate_eq hsites).symm.trans hmade) fun token hmem base hbase => by
        rw [List.mem_singleton.1 hmem] at hbase
        rw [List.mem_singleton.1 hbase]
        exact hnot_bound
  exact ⟨made, made', t, hmade, hproduced, hmade', hacts⟩

/-- What a program renders, or why it fails, if it is accepted. -/
def Generated.rendered (made : Generated) (bindings : Value) : Except Cause (Except Cause String) := do
  let t ← (Template.produce made.program {} none).mapError Error.cause
  return (t.renderWith bindings default).mapError Error.cause

/-- In its block, the expression is compiled behind the assignment, so that `x` is no longer needed, and
that it is missing is no longer an error. -/
theorem block_reads_behind :
    let bindings : Value := .map [(.str "xs", .seq [.int 1])]
    ∃ made made', generate (readInLoop "x").tokens {} .builtin false = .ok made ∧
      generate (readInLoop "x").wrapped {} .builtin false = .ok made' ∧
      made.locals.toList = ["x", "xs"] ∧ made'.locals.toList = ["xs"] ∧
      made.rendered bindings = .ok (.error (.undefinedVariable "x")) ∧
      made'.rendered bindings = .ok (.ok "undefined") := by
  intro bindings
  have hcomputed : (generate (readInLoop "x").tokens {} .builtin false).toOption.map
      (fun made => (made.locals.toList, made.rendered bindings)) =
        some (["x", "xs"], .ok (.error (.undefinedVariable "x"))) := by decide +kernel
  have hwrapped : (generate (readInLoop "x").wrapped {} .builtin false).toOption.map
      (fun made => (made.locals.toList, made.rendered bindings)) =
        some (["xs"], .ok (.ok "undefined")) := by decide +kernel
  obtain ⟨made, hmade, hresult⟩ := ok_of_toOption_map hcomputed
  obtain ⟨made', hmade', hresult'⟩ := ok_of_toOption_map hwrapped
  obtain ⟨hlocals, hrendered⟩ := Prod.mk.inj hresult
  obtain ⟨hlocals', hrendered'⟩ := Prod.mk.inj hresult'
  exact ⟨made, made', hmade, hmade', hlocals, hlocals', hrendered, hrendered'⟩

end Stencil
