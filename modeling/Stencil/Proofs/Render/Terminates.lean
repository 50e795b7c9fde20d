import Mathlib.Data.List.Count
import Mathlib.Logic.Relation
import Stencil.Proofs.Generation.Sites
import Stencil.Proofs.Render.Same

/-!
# Rendering comes to an end

Nothing counts how deep calls of blocks nest. They cannot go in a circle because a block is called
where its first tag stands and has the body behind its last one, so that all blocks which the body
calls have later last tags.

* `Made.ranked`: a block calls only blocks with a later last tag.
* `RenderEnv.same_calls`: with ranked blocks, more calls than `need` change nothing.
* `run_terminates`: so it is in all programs that are generated.
-/

namespace Stencil

/-- The body of a block has a call of another block in it, however deep. -/
def Program.CallsBlock (program : Program) (a b : String) : Prop :=
  ∃ body, program.blocks.get? a = some body ∧ Occurs (.callBlock b) body

/-! ## Ranks -/

/-- Blocks call only blocks of higher rank. -/
def Program.Ranked (program : Program) (rank : String → Nat) : Prop :=
  ∀ a b, program.CallsBlock a b → rank a < rank b

/-- Ranked blocks do not call each other in a circle. -/
theorem Program.Ranked.acyclic {program : Program} {rank : String → Nat} (h : program.Ranked rank)
    (a : String) : ¬ Relation.TransGen program.CallsBlock a a := by
  have rises (b : String) (hcalls : Relation.TransGen program.CallsBlock a b) : rank a < rank b := by
    induction hcalls with
    | single hcall => exact h _ _ hcall
    | tail _ hcall ih => exact Nat.lt_trans ih (h _ _ hcall)
  intro hcalls
  exact Nat.lt_irrefl _ (rises a hcalls)

section

variable {env : DraftEnv} {L : String → Prop} {A : Nat → Scope → Prop} {program : Program}

/-- A block calls only blocks whose last tags stand behind its own. -/
theorem Made.ranked (hkinds : env.kinds = TagRegistry.builtin.kinds)
    (hsites : blockSites env.kinds env.tokens = .ok env.sites)
    (houtside : ∀ k σ, A k σ → Outside env.kinds env.tokens k) (h : Made env L A program) :
    program.Ranked env.lastSite := by
  rintro a b ⟨instructions, hget, hoccurs⟩
  obtain ⟨body, ⟨k, tag, σ, defers, hk⟩, found, rfl, filled⟩ :=
    h.calls.blocks _ (Table.mem_of_get? hget)
  have hlast := defers.lastSite_eq hkinds hsites (houtside k σ hk)
  -- The call was made by a tag inside the body, behind the last tag of the calling block.
  obtain ⟨m, τ, tag', hle, _, hm, here, hblock, hname⟩ :=
    (filled.arises hkinds defers.start_le (.inl hoccurs.of_reverse)).callBlock
  obtain ⟨_, last, hsite, _, hbefore⟩ :=
    DraftEnv.site_found hkinds hsites (houtside m τ hm) here hblock hname
  rw [hlast, DraftEnv.lastSite_of_get? hsite]
  have := defers.start
  omega

end

/-! ## Calls -/

namespace Program

variable {program : Program} {rank : String → Nat}

/-- How many blocks are of higher rank than a block. -/
def level (program : Program) (rank : String → Nat) (name : String) : Nat :=
  program.blocks.keys.countP fun other => rank name < rank other

/-- There are fewer levels than blocks. -/
theorem level_lt_size {name : String} (h : name ∈ program.blocks.keys) :
    program.level rank name < program.blocks.size := by
  rw [← Table.length_keys]
  exact List.countP_lt_length_iff.2 ⟨name, h, by simp⟩

/-- A block of higher rank is on a lower level. -/
theorem level_lt {a b : String} (h : rank a < rank b) (hb : b ∈ program.blocks.keys) :
    program.level rank b < program.level rank a := by
  let above := program.blocks.keys.filter fun other => rank a < rank other
  have hfilter : program.level rank b = above.countP fun other => rank b < rank other := by
    rw [level, List.countP_filter]
    refine List.countP_congr fun other _ => ?_
    simp only [Bool.and_eq_true, decide_eq_true_eq]
    omega
  have hlength : program.level rank a = above.length := List.countP_eq_length_filter
  have habove : b ∈ above := List.mem_filter.2 ⟨hb, by simpa using h⟩
  rw [hfilter, hlength]
  exact List.countP_lt_length_iff.2 ⟨b, habove, by simp⟩

end Program

namespace RenderEnv

variable {env : RenderEnv} {rank : String → Nat}

/-- How many calls may be open at once above `n` calls of mixins, if only blocks below a level are
called before the next mixin. -/
def need (env : RenderEnv) (n level : Nat) : Nat :=
  (maxMixinDepth - n) * (env.program.blocks.size + 1) + level + 1

/-- In the body of a mixin all blocks may be called. -/
theorem need_mixin {n : Nat} (h : n < maxMixinDepth) (level : Nat) :
    env.need (n + 1) env.program.blocks.size + 1 ≤ env.need n level := by
  have hsplit : maxMixinDepth - n = (maxMixinDepth - (n + 1)) + 1 := by omega
  rw [need, need, hsplit, Nat.succ_mul]
  omega

/-- The calls that are allowed are enough. -/
theorem need_le_callBound (n : Nat) : env.need n env.program.blocks.size ≤ env.callBound := by
  have hmul := Nat.mul_le_mul_right (env.program.blocks.size + 1) (Nat.sub_le maxMixinDepth n)
  rw [need, callBound, Nat.succ_mul]
  omega

/-- A body that calls only blocks below a level does the same with any number of calls that is
enough, and does not fail because blocks call each other without end. -/
theorem same_calls (hranked : env.program.Ranked rank) {n level calls calls' : Nat}
    {body : List Instruction} (hcalls : env.need n level ≤ calls)
    (hcalls' : env.need n level ≤ calls')
    (hbody : ∀ name, Occurs (.callBlock name) body → name ∈ env.program.blocks.keys →
      env.program.level rank name < level) :
    Same (· ≠ .endlessBlocks) n (env.runCalled calls body) (env.runCalled calls' body) := by
  induction calls generalizing n level calls' body with
  | zero => exact absurd hcalls (by simp [need])
  | succ calls ih =>
    obtain _ | calls' := calls'
    · exact absurd hcalls' (by simp [need])
    refine same_body (fun _ h => h) ⟨rfl, rfl, rfl, rfl⟩ body fun x hx => ⟨fun _ _ _ _ => rfl, ?_, ?_⟩
    · rintro name args mixin rfl _ hdepth
      have hneed := env.need_mixin hdepth level
      exact ih (by omega) (by omega) fun other _ hother => Program.level_lt_size hother
    · rintro name inner rfl hblock
      have hkey : name ∈ env.program.blocks.keys :=
        List.mem_map_of_mem (Table.mem_of_get? hblock)
      have hlevel := hbody name hx hkey
      -- A call uses up a level, because the body of a block calls only blocks of higher rank.
      have hneed : env.need n (env.program.level rank name) + 1 ≤ env.need n level := by
        unfold need
        omega
      exact ih (by omega) (by omega) fun other hocc hother =>
        Program.level_lt (hranked name other ⟨inner, hblock, hocc⟩) hother

/-- A program with ranked blocks does the same with any number of calls from `callBound` on. -/
theorem run_eq_runCalled (hranked : env.program.Ranked rank) {calls : Nat}
    (hcalls : env.callBound ≤ calls) (s : RenderState) :
    env.runCalled calls env.program.body s = env.run s ∧
      ∀ e s', env.run s = .error e s' → e.cause ≠ .endlessBlocks := by
  have hneed := env.need_le_callBound s.depth
  obtain ⟨heq, hclosing⟩ := same_calls hranked hneed (Nat.le_trans hneed hcalls)
    (fun _ _ hkey => Program.level_lt_size hkey) s rfl
  refine ⟨heq.symm, fun e s' herror => ?_⟩
  unfold run at herror
  rw [herror] at hclosing
  exact hclosing

end RenderEnv

/-! ## Programs -/

/-- In a program that is generated, blocks never call each other in a circle. So it comes to an end:
no matter how many calls of mixins and blocks may be open at once, from `callBound` on, the program
does the same, and it does not fail because there are too many. -/
theorem run_terminates (tokens : List Token) (files : Files) (positions : Bool) (made : Generated)
    (hmade : generate tokens files .builtin positions = .ok made) :
    (∀ name, ¬ Relation.TransGen made.program.CallsBlock name name) ∧
    ∀ (shown : Files) (toolbox : Toolbox) (s : RenderState) (calls : Nat),
      let env : RenderEnv := ⟨made.program, shown, toolbox⟩
      env.callBound ≤ calls → env.runCalled calls made.program.body s = env.run s ∧
        ∀ e s', env.run s = .error e s' → e.cause ≠ .endlessBlocks := by
  obtain ⟨sites, hsites, h⟩ := (generate_settles tokens files positions).get hmade
  have hranked := h.ranked rfl hsites fun k σ hk => hk.outside ⟨rfl, rfl⟩
  refine ⟨hranked.acyclic, fun shown toolbox s calls => ?_⟩
  intro env hcalls
  exact env.run_eq_runCalled hranked hcalls s

/-- A mixin with a block that calls the mixin, and another block that has both. -/
def mixinInBlocks : List Token :=
  [tagAt 0 "mixin" "m" "\x7b% mixin m %\x7d", tagAt 13 "block" "b" "\x7b% block b %\x7d",
    tagAt 26 "+m" "" "\x7b% +m %\x7d", tagAt 34 "endblock" "" "\x7b% endblock %\x7d",
    tagAt 48 "endmixin" "" "\x7b% endmixin %\x7d", tagAt 62 "block" "a" "\x7b% block a %\x7d",
    tagAt 75 "+m" "" "\x7b% +m %\x7d", tagAt 83 "block" "b" "\x7b% block b %\x7d",
    tagAt 96 "+m" "" "\x7b% +m %\x7d", tagAt 104 "endblock" "" "\x7b% endblock %\x7d",
    tagAt 118 "endblock" "" "\x7b% endblock %\x7d"]

theorem run_terminates_mixinInBlocks :
    ∃ made, generate mixinInBlocks {} .builtin true = .ok made ∧ made.program.blocks.size = 2 ∧
      (∀ name, ¬ Relation.TransGen made.program.CallsBlock name name) ∧
      let env : RenderEnv := ⟨made.program, {}, default⟩
      env.runCalled (env.callBound + 1) made.program.body { globals := .empty } =
          env.run { globals := .empty } ∧
        ∀ e s', env.run { globals := .empty } = .error e s' → e.cause ≠ .endlessBlocks := by
  have hcomputed : (generate mixinInBlocks {} .builtin true).toOption.map
      (·.program.blocks.size) = some 2 := by decide +kernel
  obtain ⟨made, hmade, hsize⟩ := ok_of_toOption_map hcomputed
  obtain ⟨hacyclic, hends⟩ := run_terminates mixinInBlocks {} true made hmade
  exact ⟨made, hmade, hsize, hacyclic, hends {} default { globals := .empty } _ (Nat.le_succ _)⟩

end Stencil
