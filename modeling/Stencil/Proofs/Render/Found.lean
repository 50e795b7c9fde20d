import Stencil.Proofs.Render.Visits

/-!
# Names that are found

A pipeline whose variable is held by the compiler is evaluated without asking whether the variable is
there. `held_found` tells when it is: a name that was held when a token was generated is found when
the program comes to what was generated from the token, unless the run has passed over the tags that
bind it. It passes over the arms of a case before the one that matches; and a mixin or a block is
called before the tags of the main body behind the call, in whose scope its body was generated.
-/

namespace Stencil

/-- A step that is visited comes from a token, which was generated in the scope that is held. -/
theorem Visits.comesFrom {tokens : List Token} {files : Files} {positions : Bool} {made : Generated}
    {sites : Sites} (hmade : generate tokens files .builtin positions = .ok made)
    (hsites : blockSites TagRegistry.builtin.kinds tokens = .ok sites) {shown : Files}
    {toolbox : Toolbox} {globals : Table Value} {n : Nat} {e : Step} {m : Moment}
    (h : Visits ⟨made.program, shown, toolbox⟩ n (.body made.program.body) (.start globals) e m) :
    ComesFrom (builtinEnv tokens files positions sites) (· ∈ made.locals)
      (builtinGenerator tokens files positions sites).HeldAt (e, m.held) := by
  obtain ⟨sites', hsites', hprogram⟩ := (generate_settles tokens files positions).get hmade
  obtain rfl := Except.ok.inj (hsites.symm.trans hsites')
  exact hprogram.steps (List.mem_append.2 h.steps)

/-- Whenever a program runs what was generated from a token, every name is found that was held when
the token was generated, but for the names of tags that the run has passed over. -/
theorem held_found (tokens : List Token) (files : Files) (positions : Bool) (made : Generated)
    (hmade : generate tokens files .builtin positions = .ok made) (shown : Files)
    (toolbox : Toolbox) (globals : Table Value) (n : Nat) (e : Step) (m : Moment)
    (h : Visits ⟨made.program, shown, toolbox⟩ n (.body made.program.body) (.start globals) e m) :
    ∃ sites, blockSites TagRegistry.builtin.kinds tokens = .ok sites ∧
      (∃ k, (builtinGenerator tokens files positions sites).HeldAt k m.held ∧
        Yields (builtinEnv tokens files positions sites) (· ∈ made.locals) m.held k e) ∧
      ∀ name, m.held.has name = true →
        (m.state.lookup name).isSome = true ∨ (m.bound.has name = false ∧ name ∈ m.skipped) := by
  obtain ⟨sites, hsites, _⟩ := (generate_settles tokens files positions).get hmade
  have hsound := h.sound (.start globals)
  refine ⟨sites, hsites, h.comesFrom hmade hsites, fun name hname => ?_⟩
  cases hbound : m.bound.has name with
  | true => exact .inl (hsound.bound.find hbound)
  | false => exact .inr ⟨rfl, (hsound.held name hname).resolve_left (by simp [hbound])⟩

/-- A block that is called between two assignments. -/
def calledBetween : List Token :=
  [tagAt 0 "assign" "z = 1" "\x7b% assign z = 1 %\x7d", tagAt 18 "block" "a" "\x7b% block a %\x7d",
    .object "z" [] "\x7b\x7b z \x7d\x7d" ⟨stringFile, 31⟩,
    tagAt 38 "endblock" "" "\x7b% endblock %\x7d",
    tagAt 52 "assign" "y = 2" "\x7b% assign y = 2 %\x7d"]

/-- The first instruction of a program runs to its end, the next one calls a block. -/
def callsSecond (made : Generated) : Bool :=
  match made.program.body with
  | first :: .callBlock name :: _ =>
    let env : RenderEnv := ⟨made.program, {}, default⟩
    match env.runInstruction (env.runCalled 1) first {}, made.program.blocks.get? name with
    | .ok .normal _, some (.emit _ :: _) => true
    | _, _ => false
  | _ => false

theorem held_found_calledBetween :
    ∃ made e m, generate calledBetween {} .builtin false = .ok made ∧
      Visits ⟨made.program, {}, default⟩ 1 (.body made.program.body) (.start {}) e m ∧
      m.held.has "y" = true ∧ m.held.has "z" = true ∧
      ∀ name, m.held.has name = true →
        (m.state.lookup name).isSome = true ∨ (m.bound.has name = false ∧ name ∈ m.skipped) := by
  have hcomputed : (generate calledBetween {} .builtin false).toOption.map (fun made =>
      (callsSecond made, made.program.scope.create.has "y", made.program.scope.create.has "z")) =
      some (true, true, true) := by decide +kernel
  obtain ⟨made, hmade, hall⟩ := ok_of_toOption_map hcomputed
  obtain ⟨hcalls, hheld⟩ := Prod.mk.inj hall
  obtain ⟨hy, hz⟩ := Prod.mk.inj hheld
  unfold callsSecond at hcalls
  split at hcalls
  · next first name rest hbody =>
    dsimp only at hcalls
    split at hcalls
    · next s p is hfirst hblock =>
      have hvisits : Visits ⟨made.program, {}, default⟩ 1 (.body made.program.body) (.start {})
          (.run (.emit p)) (((Moment.start {}).behind [first] s).called made.program [] {} s) := by
        rw [hbody]
        exact .behind hfirst (.block hblock (.here rfl))
      obtain ⟨_, _, _, hfound⟩ := held_found calledBetween {} false made hmade {} default {} 1 _ _
        hvisits
      exact ⟨made, _, _, hmade, hvisits, hy, hz, hfound⟩
    · cases hcalls
  · cases hcalls

/-- A case whose second arm reads what only its first arm assigns. -/
def readsSkippedArm : List Token :=
  [tagAt 0 "case" "x" "\x7b% case x %\x7d", tagAt 12 "when" "1" "\x7b% when 1 %\x7d",
    tagAt 24 "assign" "y = 1" "\x7b% assign y = 1 %\x7d", tagAt 42 "break" "" "\x7b% break %\x7d",
    tagAt 53 "when" "2" "\x7b% when 2 %\x7d", .object "y" [] "\x7b\x7b y \x7d\x7d" ⟨stringFile, 65⟩,
    tagAt 72 "endcase" "" "\x7b% endcase %\x7d"]

/-- With the globals the second arm of the case runs, where the name is held but not found. -/
def readsUnbound (globals : Table Value) (name : String) (made : Generated) : Bool :=
  match made.program.body with
  | [.switch subject [.mk l before, .mk l' (.emit p :: is)]] =>
    let env : RenderEnv := ⟨made.program, {}, default⟩
    match env.eval subject { globals } with
    | .ok v s =>
      match env.firstArm v [.mk l before, .mk l' (.emit p :: is)] s with
      | .ok (some 1) s =>
        (Scope.create {} |>.behind before).has name &&
          (RenderState.lookup { s with frames := {} :: s.frames } name).isNone
      | _ => false
    | _ => false
  | _ => false

theorem held_not_found :
    ∃ made sites e m, generate readsSkippedArm {} .builtin false = .ok made ∧
      blockSites TagRegistry.builtin.kinds readsSkippedArm = .ok sites ∧
      Visits ⟨made.program, {}, default⟩ 0 (.body made.program.body)
        (.start (.ofList [("x", .int 2)])) e m ∧
      ComesFrom (builtinEnv readsSkippedArm {} false sites) (· ∈ made.locals)
        (builtinGenerator readsSkippedArm {} false sites).HeldAt (e, m.held) ∧
      m.held.has "y" = true ∧ m.state.lookup "y" = none := by
  have hcomputed : (generate readsSkippedArm {} .builtin false).toOption.map
      (readsUnbound (.ofList [("x", .int 2)]) "y") = some true := by decide +kernel
  obtain ⟨made, hmade, hreads⟩ := ok_of_toOption_map hcomputed
  obtain ⟨sites, hsites, _⟩ := (generate_settles readsSkippedArm {} false).get hmade
  unfold readsUnbound at hreads
  split at hreads
  · next subject l before l' p is hbody =>
    dsimp only at hreads
    split at hreads
    · next v s hsubject =>
      split at hreads
      · next s' hfirst =>
        rw [Bool.and_eq_true, Option.isNone_iff_eq_none] at hreads
        have hvisits : Visits ⟨made.program, {}, default⟩ 0 (.body made.program.body)
            (.start (.ofList [("x", .int 2)])) (.run (.emit p))
            (((Moment.start (.ofList [("x", .int 2)])).opened [] {} s').passed before) := by
          rw [hbody]
          exact .switch hsubject hfirst (.skip (.arm (.here rfl)))
        exact ⟨made, sites, _, _, hmade, hsites, hvisits, hvisits.comesFrom hmade hsites, hreads⟩
      · cases hreads
    · cases hreads
  · cases hreads

end Stencil
