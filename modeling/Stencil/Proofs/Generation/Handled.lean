import Stencil.Proofs.Generation.Aside
import Stencil.Proofs.Generation.Placed
import Stencil.Template

/-!
# The tokens that are handled

The generator hands tokens to handlers in the main body, and then in the bodies that were left behind.
`Generator.handled` lists their indices in the order of handling, whether or not all goes well.

* `Generator.step_moves`: a handler moves forward, and not out of the body.
* `Generator.Tracks`: what every handler does to a draft, all handlers together do (`Tracks.within`).
* `Generator.nodup_handledWithin`: no token is handled twice: it belongs to one body, and no body is
  generated twice.
* `Generator.generate_forall`: every body of a program is what the tokens of a body leave.
* `generate_handles`: no handler goes back or out of its body, no token is handled twice, and generating
  ends because nothing is left.
-/

namespace Stencil

/-- The blocks below a body are those below its outermost block. -/
theorem Stacked.below_eq {env : DraftEnv} {L : String → Prop} {A : Nat → Scope → Prop} {τ σ : Scope}
    {start i : Nat} {below rest : List OpenBlock} {found : List Instruction}
    (h : Stacked env L A τ start below (⟨.root, found⟩ :: rest) σ i) : rest = below := by
  cases h with
  | ground => rfl
  | block _ inner => exact absurd rfl inner

namespace Generator

/-! ## Traces -/

/-- The tokens before `stop` that are handled, the last one perhaps without success. -/
def handledIn (g : Generator) (stop : Nat) (d : Draft) : List Nat :=
  if _h : d.idx < stop then
    match g.env.token? d.idx with
    | none => []
    | some token =>
      match g.step token d with
      | .error _ => [d.idx]
      | .ok next => if _h : d.idx < next.idx then d.idx :: handledIn g stop next else [d.idx]
  else []
termination_by stop - d.idx

/-- The tokens that are handled in some rounds. -/
def handledLater (g : Generator) : Nat → Draft → Program → List Nat
  | 0, _, _ => []
  | rounds + 1, d, program =>
    match d.next? program with
    | none => []
    | some body =>
      g.handledIn body.stop (d.begin body) ++
        match g.round d program with
        | some (.ok (d, program)) => handledLater g rounds d program
        | _ => []

/-- The tokens that are handled in the main body and in some rounds. -/
def handledWithin (g : Generator) (rounds : Nat) : List Nat :=
  g.handledIn g.env.tokens.length {} ++
    match g.generateMain with
    | .ok main => g.handledLater rounds main {}
    | .error _ => []

/-- The tokens that are handled. -/
def handled (g : Generator) : List Nat := g.handledWithin (g.env.tokens.length + 1)

section

variable {g : Generator} {stop k : Nat} {d d' : Draft}

/-- A token that is reached is the one that the draft is at, or reached behind it. -/
theorem Reaches.here_or_next {token : Token} {σ : Scope} (here : g.env.token? d.idx = some token)
    (h : g.Reaches d k σ) :
    k = d.idx ∨ ∃ next, g.step token d = .ok next ∧ d.idx < next.idx ∧ g.Reaches next k σ := by
  by_cases hk : k = d.idx
  · exact .inl hk
  · have hlt : d.idx < k := Nat.lt_of_le_of_ne h.le (Ne.symm hk)
    obtain ⟨d', hrange, hidx, hscope⟩ := h
    rw [generateRange, dif_pos hlt] at hrange
    simp only [here] at hrange
    split at hrange
    · cases hrange
    · next next hstep =>
      split at hrange
      · next hnext => exact .inr ⟨next, hstep, hnext, d', hrange, hidx, hscope⟩
      · cases hrange

/-- What is handled is what is reached. -/
theorem mem_handledIn_iff : k ∈ g.handledIn stop d ↔
    k < stop ∧ k < g.env.tokens.length ∧ ∃ σ, g.Reaches d k σ := by
  fun_induction handledIn g stop d with
  | case1 d hlt hnone =>
    have hend := List.getElem?_eq_none_iff.1 hnone
    refine ⟨fun h => absurd h List.not_mem_nil, fun ⟨_, hk, σ, hreaches⟩ => ?_⟩
    have := hreaches.le
    omega
  | case2 d hlt token here e hstep =>
    rw [List.mem_singleton]
    constructor
    · rintro rfl
      exact ⟨hlt, (List.getElem?_eq_some_iff.1 here).1, _, .here g d⟩
    · rintro ⟨_, _, σ, hreaches⟩
      refine (hreaches.here_or_next here).resolve_right ?_
      rintro ⟨next, hnext, _⟩
      rw [hstep] at hnext
      cases hnext
  | case3 d hlt token here next hstep hnext ih =>
    rw [List.mem_cons, ih]
    constructor
    · rintro (rfl | ⟨hk, hlength, σ, hreaches⟩)
      · exact ⟨hlt, (List.getElem?_eq_some_iff.1 here).1, _, .here g d⟩
      · exact ⟨hk, hlength, σ, hreaches.step here hstep hnext⟩
    · rintro ⟨hk, hlength, σ, hreaches⟩
      refine (hreaches.here_or_next here).imp_right ?_
      rintro ⟨next', hstep', _, hreaches'⟩
      obtain rfl := Except.ok.inj (hstep.symm.trans hstep')
      exact ⟨hk, hlength, σ, hreaches'⟩
  | case4 d hlt token here next hstep hnext =>
    rw [List.mem_singleton]
    constructor
    · rintro rfl
      exact ⟨hlt, (List.getElem?_eq_some_iff.1 here).1, _, .here g d⟩
    · rintro ⟨_, _, σ, hreaches⟩
      refine (hreaches.here_or_next here).resolve_right ?_
      rintro ⟨next', hstep', hnext', _⟩
      obtain rfl := Except.ok.inj (hstep.symm.trans hstep')
      exact hnext hnext'
  | case5 d hlt =>
    refine ⟨fun h => absurd h List.not_mem_nil, fun ⟨hk, _, σ, hreaches⟩ => ?_⟩
    have := hreaches.le
    omega

/-- In a body, tokens are handled from left to right. -/
theorem pairwise_handledIn (g : Generator) (stop : Nat) (d : Draft) :
    (g.handledIn stop d).Pairwise (· < ·) := by
  fun_induction handledIn g stop d with
  | case1 | case5 => exact .nil
  | case2 | case4 => exact List.pairwise_singleton _ _
  | case3 d hlt token here next hstep hnext ih =>
    refine .cons (fun k hk => ?_) ih
    obtain ⟨_, _, σ, hreaches⟩ := mem_handledIn_iff.1 hk
    exact Nat.lt_of_lt_of_le hnext hreaches.le

/-! ## What all handlers do -/

/-- When some tokens have been handled, `P` holds of the draft: each of them keeps it up, and it is
only about what bodies leave aside. -/
structure Tracks (g : Generator) (P : List Nat → Draft → Prop) : Prop where
  aside : ∀ {before d d'}, d.Aside d' → P before d → P before d'
  step : ∀ {before d d' token}, g.env.token? d.idx = some token → g.step token d = .ok d' →
    P before d → P (before ++ [d.idx]) d'

namespace Tracks

variable {P : List Nat → Draft → Prop} {before : List Nat} {program program' : Program}
  {rounds : Nat} {first : Draft}

/-- What the handlers keep up holds behind a body. -/
theorem range (hP : g.Tracks P) (h : P before d) (hrange : g.generateRange stop d = .ok d') :
    P (before ++ g.handledIn stop d) d' := by
  fun_induction generateRange g stop d generalizing before with
  | case1 d hlt hnone =>
    obtain rfl := Except.ok.inj hrange
    rw [handledIn, dif_pos hlt]
    simpa only [hnone, List.append_nil] using h
  | case2 | case4 => cases hrange
  | case3 d hlt token here next hstep hnext ih =>
    have hnow := ih (hP.step here hstep h) hrange
    rw [handledIn, dif_pos hlt]
    simpa only [here, hstep, dif_pos hnext, List.append_assoc, List.singleton_append] using hnow
  | case5 d hlt =>
    obtain rfl := Except.ok.inj hrange
    rw [handledIn, dif_neg hlt, List.append_nil]
    exact h

theorem body (hP : g.Tracks P) {body : Deferred} {instructions : List Instruction} (h : P before d)
    (hbody : g.generateBody body d = .ok (instructions, d')) :
    P (before ++ g.handledIn body.stop (d.begin body)) d' := by
  obtain ⟨d₁, hrange, _, block, outer, hinner, _, rfl⟩ := generateBody_ok hbody
  have hclose : d₁.Aside { d₁.withScope Scope.destroy with inner := outer } :=
    ((Draft.Aside.refl d₁).withScope Scope.destroy).drops hinner
  exact hP.aside hclose (hP.range (hP.aside ((Draft.Aside.refl d).begin body) h) hrange)

/-- So it does behind some rounds. -/
theorem deferred (hP : g.Tracks P) (h : P before d)
    (hdone : g.generateDeferred rounds d program = .ok (d', program')) :
    P (before ++ g.handledLater rounds d program) d' := by
  induction rounds generalizing d program before with
  | zero =>
    cases hdone
    rw [handledLater, List.append_nil]
    exact h
  | succ rounds ih =>
    rw [generateDeferred_succ] at hdone
    rw [handledLater]
    cases hround : g.round d program with
    | none =>
      rw [hround] at hdone
      cases hdone
      rw [round_eq_none.1 hround, List.append_nil]
      exact h
    | some x =>
      rw [hround] at hdone
      cases x with
      | error e => cases hdone
      | ok made =>
        obtain ⟨body, instructions, hnext, hbody, _⟩ := round_ok hround
        have hnow := ih (hP.body h hbody) hdone
        rw [hnext]
        rwa [List.append_assoc] at hnow

/-- It holds when the main body and some rounds are done. -/
theorem within (hP : g.Tracks P) (h : P [] {}) (hmain : g.generateMain = .ok first)
    (hdone : g.generateDeferred rounds first {} = .ok (d, program)) :
    P (g.handledWithin rounds) d := by
  have hfirst := hP.range h (generateMain_ok hmain)
  rw [handledWithin, hmain]
  exact hP.deferred hfirst hdone

end Tracks

/-- Rounds may be counted in two parts. -/
theorem handledLater_add (rounds more : Nat) {program program' : Program}
    (hdone : g.generateDeferred rounds d program = .ok (d', program')) :
    g.handledLater (rounds + more) d program =
      g.handledLater rounds d program ++ g.handledLater more d' program' := by
  induction rounds generalizing d program with
  | zero =>
    cases hdone
    rw [Nat.zero_add, handledLater, List.nil_append]
  | succ rounds ih =>
    rw [generateDeferred_succ] at hdone
    rw [Nat.succ_add, handledLater, handledLater]
    cases hround : g.round d program with
    | none =>
      rw [hround] at hdone
      cases hdone
      rw [round_eq_none.1 hround, List.nil_append]
      cases more with
      | zero => rfl
      | succ more => rw [handledLater, round_eq_none.1 hround]
    | some x =>
      rw [hround] at hdone
      cases x with
      | error e => cases hdone
      | ok made =>
        obtain ⟨body, _, hnext, _⟩ := round_ok hround
        rw [hnext, List.append_assoc]
        exact congrArg _ (ih hdone)

theorem handledWithin_add {rounds : Nat} (more : Nat) {main : Draft} {program : Program}
    (hmain : g.generateMain = .ok main)
    (hdone : g.generateDeferred rounds main {} = .ok (d, program)) :
    g.handledWithin (rounds + more) = g.handledWithin rounds ++ g.handledLater more d program := by
  rw [handledWithin, handledWithin, hmain, List.append_assoc]
  exact congrArg _ (handledLater_add rounds more hdone)

/-! ## No token is handled twice -/

/-- The token belongs to a body that has been begun. -/
def Taken (g : Generator) (program : Program) (k : Nat) : Prop :=
  ∃ start, Owned g.env start k ∧ Begun g.env program k start

theorem nodup_handledIn (g : Generator) (stop : Nat) (d : Draft) : (g.handledIn stop d).Nodup :=
  (pairwise_handledIn g stop d).imp Nat.ne_of_lt

/-- What the main body handles, belongs to it. -/
theorem taken_main (hg : g.IsBuiltin) (hk : k ∈ g.handledIn g.env.tokens.length {}) :
    g.Taken {} k := by
  obtain ⟨hlt, _, σ, hreaches⟩ := mem_handledIn_iff.1 hk
  have hdepth : 0 < ({} : Scope).depth := Nat.succ_pos 0
  exact ⟨0, hreaches.owned hg hdepth .main (Nat.zero_le _) (.zero _ _) (Going.begins g.env _)
    (Nat.le_of_lt hlt), .main⟩

/-- The rounds handle no token that has been handled before, and none twice. -/
theorem nodup_handledLater {found : List Instruction} {program : Program} {before : List Nat}
    (hg : g.IsBuiltin)
    (h : Between g.env (fun k _ => Outside g.env.kinds g.env.tokens k) found d program)
    (hnodup : before.Nodup) (htaken : ∀ k ∈ before, g.Taken program k) (rounds : Nat) :
    (before ++ g.handledLater rounds d program).Nodup := by
  induction rounds generalizing d program before with
  | zero => rwa [handledLater, List.append_nil]
  | succ rounds ih =>
    rw [handledLater]
    cases hnext : d.next? program with
    | none => rwa [List.append_nil]
    | some body =>
      obtain ⟨opener, key, k, tag, σ, defers, hopener, hout, hnew, hadds⟩ := h.next_adds hnext
      have hlooked : ∀ opener ∈ ["mixin", "block"], opener ∉ verbatimTags := by decide
      have hτ := Scope.depth_opened_pos (Scope.behind {} found.reverse) body.params
      have howned : ∀ j ∈ g.handledIn body.stop (d.begin body),
          Owned g.env body.start j ∧ j ≤ body.stop := by
        intro j hj
        obtain ⟨hlt, _, τ, hreaches⟩ := mem_handledIn_iff.1 hj
        exact ⟨hreaches.owned hg hτ (.deferred defers) defers.start_le
          (defers.outside hg.kinds (hlooked opener hopener) hout)
          (h.resting.opened (fun _ _ _ => trivial) body) (Nat.le_of_lt hlt), Nat.le_of_lt hlt⟩
      -- A token that has been handled belongs to a body that is in the program.
      have hapart : (before ++ g.handledIn body.stop (d.begin body)).Nodup := by
        refine List.nodup_append.2 ⟨hnodup, nodup_handledIn g _ _, fun j hj j' hj' hjj => ?_⟩
        subst hjj
        obtain ⟨start, hbelongs, hbegun⟩ := htaken j hj
        obtain ⟨hbelongs', hstop⟩ := howned j hj'
        exact hnew (hasBody_of_begun hbelongs hbegun hbelongs' hopener defers hout hstop)
      rw [← List.append_assoc]
      split
      · next d' program' hround =>
        obtain ⟨_, _, hhas, hkeeps, _⟩ := hadds d' program' hround
        have hbetween' := ((round_settles hg h (fun body hnext _ _ hk =>
          Reaches.outside_next hg h hnext hk) hround).get rfl).1
        refine ih hbetween' hapart fun j hj => ?_
        rcases List.mem_append.1 hj with hj | hj
        · obtain ⟨start, hbelongs, hbegun⟩ := htaken j hj
          exact ⟨start, hbelongs, hbegun.mono hkeeps⟩
        · obtain ⟨hbelongs, hstop⟩ := howned j hj
          exact ⟨body.start, hbelongs, .deferred defers hopener hout hstop hhas⟩
      · rwa [List.append_nil]

/-- No token is handled twice. -/
theorem nodup_handledWithin (hg : g.IsBuiltin) (rounds : Nat) : (g.handledWithin rounds).Nodup := by
  have hmainNodup := nodup_handledIn g g.env.tokens.length {}
  unfold handledWithin
  split
  · next main hmain =>
    obtain ⟨found, hbetween⟩ := (generateMain_outside hg).get hmain
    exact nodup_handledLater hg hbetween hmainNodup (fun k hk => taken_main hg hk) rounds
  · rwa [List.append_nil]

/-! ## Bodies -/

/-- The generator begins with the tokens from `start` to `stop` when it has handled some others. -/
inductive Begins (g : Generator) : List Nat → Nat → Nat → Draft → Prop where
  | main : g.Begins [] 0 g.env.tokens.length {}
  | deferred {main d : Draft} {program : Program} {rounds : Nat} {body : Deferred}
      (first : g.generateMain = .ok main)
      (done : g.generateDeferred rounds main {} = .ok (d, program))
      (next : d.next? program = some body) :
      g.Begins (g.handledWithin rounds) body.start body.stop (d.begin body)

/-- A body begins with the invariant. -/
theorem Begins.going {before : List Nat} {start : Nat} (hg : g.IsBuiltin)
    (h : g.Begins before start stop d) : ∃ τ below, 0 < τ.depth ∧ Ends g.env start below stop ∧
      stop ≤ g.env.tokens.length ∧ d.idx = start ∧
      Going g.env d (fun _ _ => True) τ start below d := by
  cases h with
  | main =>
    exact ⟨{}, [], Nat.succ_pos 0, .main, Nat.le_refl _, rfl, (Going.begins g.env _).rebase⟩
  | @deferred main d program rounds body first done next =>
    obtain ⟨found, hbetween⟩ := (generateMain_outside hg).get first
    have hnow := (generateDeferred_outside hg hbetween rounds).get done
    obtain ⟨_, _, _, _, _, _, defers, _⟩ := hnow.resting.next next
    exact ⟨_, _, Scope.depth_opened_pos _ _, .deferred defers, Nat.le_of_lt defers.stop_lt, rfl,
      (hnow.resting.opened (fun _ _ _ => trivial) body).rebase⟩

/-- A body ends with its tokens. Only its outermost block is open there, above the blocks around. -/
theorem Begins.rests {before : List Nat} {start : Nat} (hg : g.IsBuiltin)
    (h : g.Begins before start stop d) (hrange : g.generateRange stop d = .ok d') :
    d'.idx = stop ∧ ∃ found rest, d.stack = ⟨.root, []⟩ :: rest ∧ d'.stack = ⟨.root, found⟩ :: rest := by
  obtain ⟨τ, below, hτ, hends, _, _, hgoing⟩ := h.going hg
  have hstack : ∃ rest, d.stack = ⟨.root, []⟩ :: rest := by cases h <;> exact ⟨_, rfl⟩
  obtain ⟨rest, hstack⟩ := hstack
  have hstacked := hgoing.stacked
  rw [hstack] at hstacked
  obtain rfl := hstacked.below_eq
  obtain ⟨hgoing', hstop⟩ := (generateRange_settles hg hτ hends hgoing
    fun _ _ _ _ => trivial).get hrange
  obtain ⟨found, hstack', _⟩ := hgoing'.rests hg.kinds hends hstop
  exact ⟨hgoing'.ends_at hg.kinds hends hstop, found, rest, hstack, hstack'⟩

/-- What all bodies are that are generated in some rounds, all bodies of the program are. -/
theorem generateDeferred_forall {P : List Instruction → Prop} {main last : Draft}
    {program : Program} {rounds : Nat}
    (hdone : g.generateDeferred rounds main {} = .ok (last, program))
    (hP : ∀ n d before body instructions d', g.generateDeferred n main {} = .ok (d, before) →
      d.next? before = some body → g.generateBody body d = .ok (instructions, d') →
      P instructions) :
    (∀ e ∈ program.mixins.entries, P e.2.body) ∧ ∀ e ∈ program.blocks.entries, P e.2 := by
  induction rounds generalizing last program with
  | zero =>
    cases hdone
    exact ⟨fun _ h => absurd h List.not_mem_nil, fun _ h => absurd h List.not_mem_nil⟩
  | succ rounds ih =>
    obtain ⟨d, before, hbefore, ⟨_, rfl, rfl⟩ | hround⟩ := generateDeferred_last hdone
    · exact ih hbefore
    · obtain ⟨hmixins, hblocks⟩ := ih hbefore
      obtain ⟨body, instructions, hnext, hbody, hadds⟩ := round_ok hround
      have hnew := hP rounds d before body instructions last hbefore hnext hbody
      rcases hadds with ⟨name, _, rfl⟩ | ⟨_, name, _, rfl⟩
      · refine ⟨fun e he => ?_, hblocks⟩
        rcases Table.mem_insert he with rfl | he
        · exact hnew
        · exact hmixins e he
      · refine ⟨hmixins, fun e he => ?_⟩
        rcases Table.mem_insert he with rfl | he
        · exact hnew
        · exact hblocks e he

/-- Every body of a program is what is left in the outermost block where the tokens of a body end. -/
theorem generate_forall {P : List Instruction → Prop} {made : Generated} (hg : g.IsBuiltin)
    (h : g.generate = .ok made)
    (hP : ∀ before start stop d d' found rest, g.Begins before start stop d →
      g.generateRange stop d = .ok d' → d.stack = ⟨.root, []⟩ :: rest →
      d'.stack = ⟨.root, found⟩ :: rest → P found.reverse) :
    ∀ body ∈ Checker.bodiesOf made.program, P body := by
  obtain ⟨main, last, program, hmain, hlast, _, hprogram⟩ := generate_ok h
  obtain ⟨found, hbetween⟩ := (generateMain_outside hg).get hmain
  -- The main body is what it was when the rounds began.
  have hroot := ((generateDeferred_outside hg hbetween _).get hlast).resting.inner_root.2
  have hmainBody : P made.program.body := by
    rw [hprogram]
    show P last.root.found.reverse
    rw [hroot]
    exact hP _ _ _ _ _ found [] .main (generateMain_ok hmain) rfl hbetween.resting.stack
  obtain ⟨hmixins, hblocks⟩ := generateDeferred_forall hlast
    fun n d before body instructions d' hdone hnext hbody => by
      have hbegins := Begins.deferred hmain hdone hnext
      obtain ⟨d₁, hrange, _, block, outer, hinner, rfl, _⟩ := generateBody_ok hbody
      obtain ⟨_, inside, rest, hstack, hstack'⟩ := hbegins.rests hg hrange
      have hinside := hP _ _ _ _ _ inside rest hbegins hrange hstack hstack'
      rw [Draft.stack, hinner, List.cons_append] at hstack'
      rwa [(List.cons.inj hstack').1]
  rw [hprogram] at hmainBody ⊢
  exact Checker.forall_mem_bodiesOf.2 ⟨hmainBody, hmixins, hblocks⟩

/-- Where a body begins, what the handlers keep up holds. -/
theorem Begins.tracks {P : List Nat → Draft → Prop} {before : List Nat} {start : Nat}
    (h : g.Begins before start stop d) (hP : g.Tracks P) (hstart : P [] {}) : P before d := by
  cases h with
  | main => exact hstart
  | deferred first done =>
    exact hP.aside ((Draft.Aside.refl _).begin _) (hP.within hstart first done)

/-- A round handles the tokens of the body that is next when it begins. -/
theorem mem_handledLater_iff {rounds : Nat} {program : Program} :
    k ∈ g.handledLater rounds d program ↔ ∃ n < rounds, ∃ d' program' body,
      g.generateDeferred n d program = .ok (d', program') ∧ d'.next? program' = some body ∧
        k ∈ g.handledIn body.stop (d'.begin body) := by
  constructor
  · intro hk
    induction rounds generalizing d program with
    | zero => exact absurd hk List.not_mem_nil
    | succ rounds ih =>
      rw [handledLater] at hk
      cases hnext : d.next? program with
      | none =>
        rw [hnext] at hk
        exact absurd hk List.not_mem_nil
      | some body =>
        rw [hnext] at hk
        rcases List.mem_append.1 hk with hk | hk
        · exact ⟨0, Nat.succ_pos _, d, program, body, rfl, hnext, hk⟩
        · split at hk
          · next d₁ program₁ hround =>
            obtain ⟨n, hn, d', program', body', hdone, hnext', hk⟩ := ih hk
            refine ⟨n + 1, Nat.succ_lt_succ hn, d', program', body', ?_, hnext', hk⟩
            rw [generateDeferred_succ, hround]
            exact hdone
          · exact absurd hk List.not_mem_nil
  · rintro ⟨n, hn, d', program', body, hdone, hnext, hk⟩
    obtain ⟨more, rfl⟩ := Nat.exists_eq_add_of_lt hn
    rw [Nat.add_assoc, handledLater_add n (more + 1) hdone, handledLater, hnext]
    exact List.mem_append_right _ (List.mem_append_left _ hk)

/-- What is handled, in whatever body, has been generated there. -/
theorem mem_handled_iff (hg : g.IsBuiltin) : k ∈ g.handled ↔ ∃ σ, g.HeldAt k σ := by
  rw [handled, handledWithin, List.mem_append]
  constructor
  · rintro (hk | hk)
    · obtain ⟨hlt, _, σ, hreaches⟩ := mem_handledIn_iff.1 hk
      exact ⟨σ, .main hlt hreaches⟩
    · split at hk
      · next main hmain =>
        obtain ⟨n, _, d', program', body, hdone, hnext, hk⟩ := mem_handledLater_iff.1 hk
        obtain ⟨hlt, _, σ, hreaches⟩ := mem_handledIn_iff.1 hk
        exact ⟨σ, .deferred hmain hdone hnext hlt hreaches⟩
      · exact absurd hk List.not_mem_nil
  · rintro ⟨σ, hheld⟩
    cases hheld with
    | main lt reaches => exact .inl (mem_handledIn_iff.2 ⟨lt, lt, σ, reaches⟩)
    | @deferred main d' program' rounds body first done next lt reaches =>
      obtain ⟨_, _, _, _, hstop, _⟩ := (Begins.deferred first done next).going hg
      have hlength := Nat.lt_of_lt_of_le lt hstop
      rw [first]
      refine .inr (mem_handledLater_iff.2 ⟨rounds, ?_, d', program', body, done, next, ?_⟩)
      · exact Nat.lt_succ_of_lt (rounds_lt hg first done next)
      · exact mem_handledIn_iff.2 ⟨lt, hlength, σ, reaches⟩

end

end Generator

/-! ## The theorem -/

/-- Handlers move forward and stay in the body that is being generated, so a body that is generated
ends where its tokens end; there are bodies to generate only as long as there are rounds for them; and
in all of them together no token is handled twice. -/
theorem generate_handles (tokens : List Token) (files : Files) (positions : Bool) (sites : Sites) :
    let g := builtinGenerator tokens files positions sites
    (blockSites TagRegistry.builtin.kinds tokens = .ok sites →
      generate tokens files .builtin positions = g.generate) ∧
    (∀ before start stop d, g.Begins before start stop d →
      (∀ mid next token, g.generateRange mid.idx d = .ok mid → mid.idx < stop →
        g.env.token? mid.idx = some token → g.step token mid = .ok next →
        mid.idx < next.idx ∧ next.idx ≤ stop) ∧
      ∀ d', g.generateRange stop d = .ok d' → d'.idx = stop) ∧
    (∀ main last program, g.generateMain = .ok main →
      g.generateDeferred (tokens.length + 1) main {} = .ok (last, program) →
      last.next? program = none) ∧
    g.handled.Nodup ∧ ∀ k, k ∈ g.handled ↔ ∃ σ, g.HeldAt k σ := by
  intro g
  have hg : g.IsBuiltin := ⟨rfl, rfl⟩
  refine ⟨fun hsites => generate_eq hsites, fun before start stop d hbegins => ?_,
    fun main last program hmain hlast => Generator.generateDeferred_exhausts hg hmain hlast,
    Generator.nodup_handledWithin hg _, fun k => Generator.mem_handled_iff hg⟩
  obtain ⟨τ, below, hτ, hends, _, _, hgoing⟩ := hbegins.going hg
  constructor
  · intro mid next token hmid hlt here hstep
    have hmoving := (Generator.generateRange_going hg hτ hends hgoing (fun _ _ _ _ => trivial)
      (Nat.le_of_lt hlt) hmid).1
    exact Generator.step_moves hg hτ hends hmoving hlt here trivial hstep
  · intro d' hrange
    obtain ⟨hgoing', hstop⟩ := (Generator.generateRange_settles hg hτ hends hgoing
      fun _ _ _ _ => trivial).get hrange
    exact hgoing'.ends_at hg.kinds hends hstop

end Stencil
