import Stencil.Proofs.Render.InTurn
import Stencil.Proofs.Render.Twin

/-!
# Loops

The iterations of a loop are taken in turn, in a frame of their own each.

* `contains_frameOf_iff`: that frame has the names of the binding, and no others.
* `loop_congr`: what a loop does depends on what it runs over only by keys and items.
* `loop_iterations`: which iterations are run, what they find bound, and that a range is as good as
  the sequence of its integers.
-/

namespace Stencil

open RenderEnv

/-! ## The frame of an iteration -/

/-- The frame of an iteration has exactly the names of the binding. -/
theorem contains_frameOf_iff (binding : LoopBinding) (key v : Value) (isMap : Bool) (name : String) :
    (frameOf binding key v isMap).contains name = true ↔ name ∈ binding.names := by
  constructor
  · intro h
    cases binding with
    | item n =>
      obtain ⟨pair, hpair, rfl⟩ := Table.contains_ofList.1 h
      rw [List.mem_singleton.1 hpair]
      exact List.mem_cons_self
    | keyed k n =>
      obtain ⟨pair, hpair, rfl⟩ := Table.contains_ofList.1 h
      rcases List.mem_cons.1 hpair with rfl | hpair
      · exact List.mem_cons_self
      · rw [List.mem_singleton.1 hpair]
        exact List.mem_cons_of_mem _ List.mem_cons_self
    | places names =>
      obtain ⟨pair, hpair, rfl⟩ := Table.contains_ofList.1 h
      obtain ⟨place, hplace, hsome⟩ := List.mem_filterMap.1 hpair
      obtain ⟨i, hi, rfl⟩ := List.mem_mapIdx.1 hplace
      obtain ⟨n, hn, rfl⟩ := Option.map_eq_some_iff.1 hsome
      exact List.mem_filterMap.2 ⟨some n, hn ▸ List.getElem_mem hi, rfl⟩
    | members names =>
      obtain ⟨pair, hpair, rfl⟩ := Table.contains_ofList.1 h
      obtain ⟨n, hn, rfl⟩ := List.mem_map.1 hpair
      cases v <;> exact hn
  · exact contains_frameOf binding key v isMap name

/-- An iteration over a key and an item, in a frame of its own. The index does not matter to it. -/
def RenderEnv.iteration (env : RenderEnv) (call : List Instruction → RenderM Flow)
    (binding : LoopBinding) (isMap : Bool) (body : List Instruction)
    (item : (Value × Value) × Nat) : RenderM Flow :=
  .within (frameOf binding item.1.1 item.1.2 isMap) (env.runBody call body)

/-! ## What a loop runs over -/

section

variable {env : RenderEnv} {call : List Instruction → RenderM Flow} {s t : RenderState}

/-- A loop depends on what it runs over only by keys and items. -/
theorem loop_congr {iterable iterable' : Iterable}
    (h : env.entriesOf iterable s = env.entriesOf iterable' s) (binding : LoopBinding)
    (offset limit : Option Int) (body : List Instruction) :
    env.runInstruction call (.loop binding iterable offset limit body) s =
      env.runInstruction call (.loop binding iterable' offset limit body) s := by
  rw [runInstruction, runInstruction]
  show EStateM.bind (env.entriesOf iterable) _ s = EStateM.bind (env.entriesOf iterable') _ s
  unfold EStateM.bind
  rw [h]

theorem entriesOf_range {start stop : Pipeline} {a b : Int} (hstart : env.bound start s = .ok a s)
    (hstop : env.bound stop s = .ok b s) :
    env.entriesOf (.range start stop) s = .ok (indexed (integers a b), false) s := by
  show (env.bound start >>= _) s = _
  rw [bind_of_ok hstart, bind_of_ok hstop]
  rfl

theorem entriesOf_seq {p : Pipeline} {items : List Value} (hp : env.eval p s = .ok (.seq items) s) :
    env.entriesOf (.pipeline p) s = .ok (indexed items, false) s := by
  show (env.eval p >>= _) s = _
  rw [bind_of_ok hp]
  rfl

/-- The integers of a range, one by one. -/
theorem getElem?_integers (a b : Int) (i : Nat) :
    (integers a b)[i]? = if a + i ≤ b then some (.int (a + i)) else none := by
  unfold integers
  by_cases hi : a + i ≤ b
  · rw [if_pos hi, List.getElem?_map, List.getElem?_range (by omega)]
    rfl
  · rw [if_neg hi, List.getElem?_eq_none]
    simp only [List.length_map, List.length_range]
    omega

/-- What comes of the iterations of a loop comes of the loop. -/
theorem loop_inTurn (call : List Instruction → RenderM Flow) (binding : LoopBinding)
    (offset limit : Option Int) (body : List Instruction) {iterable : Iterable}
    {entries : List (Value × Value)} {isMap : Bool}
    (h : env.entriesOf iterable s = .ok (entries, isMap) s) :
    ∃ trace r, InTurn (env.iteration call binding isMap body) (· == .break)
        (entries.zipIdx.filter fun item => inBounds offset limit item.2) s trace r ∧
      env.runInstruction call (.loop binding iterable offset limit body) s =
        match r with
        | .ok _ t => .ok .normal t
        | .error e t => .error e t := by
  obtain ⟨trace, r, hturns, hruns⟩ := inTurn_iterate (inBounds offset limit)
    (fun entry => RenderM.within (frameOf binding entry.1 entry.2 isMap) (env.runBody call body))
    entries 0 s
  refine ⟨trace, r, hturns, ?_⟩
  rw [runInstruction, bind_of_ok h]
  dsimp only
  cases r with
  | ok flow t => rw [bind_of_ok hruns]; rfl
  | error e t => rw [bind_of_error hruns]

end

/-! ## The iterations of a loop -/

/-- A loop runs the iterations whose indices are in its bounds, from the first one on, until one
ends in `break` or fails. Each of them begins in a frame that has exactly the names of the binding,
and all other tables bind the names that they bound before the loop, then as well as behind the loop.
Over a range, a loop does what it does over the sequence of the integers of the range. -/
theorem loop_iterations (env : RenderEnv) (calls : Nat) (binding : LoopBinding)
    (offset limit : Option Int) (body : List Instruction) (s : RenderState) :
    (∀ iterable entries isMap t, env.entriesOf iterable s = .ok (entries, isMap) t →
      let items := entries.zipIdx.filter fun item =>
        offset.all (· ≤ (item.2 : Int)) && limit.all ((item.2 : Int) ≤ ·)
      let step := env.iteration (env.runCalled calls) binding isMap body
      let loop := env.runInstruction (env.runCalled calls) (.loop binding iterable offset limit body)
      ∃ trace r, InTurn step (· == .break) items s trace r ∧
        (loop s = match r with
          | .ok _ u => .ok .normal u
          | .error e u => .error e u) ∧
        (trace.map fun turn => turn.1.2) <+: ((List.range entries.length).filter fun i : Nat =>
          offset.all (· ≤ (i : Int)) && limit.all ((i : Int) ≤ ·)) ∧
        (∀ turn ∈ trace.dropLast, Passes step (· == .break) turn) ∧
        ((∀ turn ∈ trace, Passes step (· == .break) turn) → trace.map Prod.fst = items) ∧
        (∀ turn ∈ trace, entries[turn.1.2]? = some turn.1.1 ∧ SameTables s.tables turn.2.tables ∧
          ∀ name, (frameOf binding turn.1.1.1 turn.1.1.2 isMap).contains name = true ↔
            name ∈ binding.names) ∧
        SameTables s.tables (loop.final s).tables) ∧
    ∀ start stop p a b items, env.bound start s = .ok a s → env.bound stop s = .ok b s →
      (∀ i : Nat, items[i]? = if a + i ≤ b then some (.int (a + i)) else none) →
      env.eval p s = .ok (.seq items) s →
      env.runInstruction (env.runCalled calls) (.loop binding (.range start stop) offset limit body) s =
        env.runInstruction (env.runCalled calls) (.loop binding (.pipeline p) offset limit body) s := by
  constructor
  · intro iterable entries isMap t hentries items step loop
    obtain rfl : t = s := (final_of_ok hentries).symm.trans (unmoved_entriesOf iterable s)
    have hbody : Relates Neutral (env.runBody (env.runCalled calls) body) :=
      relates_body neutral (relates_called neutral calls) body
    have hstep (item : (Value × Value) × Nat) : Relates (Levels SameTables) (step item) :=
      hbody.closed fun _ _ => Neutral.closed
    obtain ⟨trace, r, hturns, hloop⟩ :=
      loop_inTurn (env.runCalled calls) binding offset limit body hentries
    have hindices : items.map Prod.snd = (List.range entries.length).filter fun i : Nat =>
        offset.all (· ≤ (i : Int)) && limit.all ((i : Int) ≤ ·) := by
      rw [List.range_eq_range', ← List.zipIdx_map_snd, List.filter_map]
      rfl
    obtain ⟨hbegins, hends⟩ :=
      hturns.related Levels.same_refl (Levels.trans sameTables_trans) hstep
    refine ⟨trace, r, hturns, hloop, ?_, hturns.passes_dropLast, hturns.complete,
      fun turn hturn => ⟨?_, (hbegins turn hturn).names, contains_frameOf_iff binding _ _ isMap⟩, ?_⟩
    · have hprefix : (trace.map Prod.fst).map Prod.snd <+: items.map Prod.snd :=
        hturns.isPrefix.map Prod.snd
      rwa [hindices, List.map_map] at hprefix
    · have hmem : turn.1 ∈ items := hturns.isPrefix.subset (List.mem_map_of_mem hturn)
      exact List.mem_zipIdx_iff_getElem?.1 (List.mem_filter.1 hmem).1
    · cases r with
      | ok flow u =>
        rw [final_of_ok hloop]
        exact (hends u (.inl ⟨flow, rfl⟩)).names
      | error e u =>
        rw [final_of_error hloop]
        exact (hends u (.inr ⟨e, rfl⟩)).names
  · intro start stop p a b items hstart hstop hitems hp
    have hsame : items = integers a b := by
      apply List.ext_getElem?
      intro i
      rw [hitems, getElem?_integers]
    apply loop_congr
    rw [entriesOf_range hstart hstop, entriesOf_seq hp, hsame]

theorem loop_iterations_window :
    let env : RenderEnv := ⟨{}, {}, default⟩
    let s : RenderState := { globals := .ofList [("xs", .seq [.int 2, .int 3])] }
    let body : List Instruction := [.assign "xs" .set (.ofBase "x") true]
    let loop (iterable : Iterable) : Instruction := .loop (.item "x") iterable (some 1) (some 4) body
    (∃ trace : List (((Value × Value) × Nat) × RenderState),
      (trace.map fun turn => turn.1.2) = [1] ∧
        ∀ turn ∈ trace, SameTables s.tables turn.2.tables) ∧
      env.runInstruction (env.runCalled 0) (loop (.range (.ofBase "2") (.ofBase "3"))) s =
        env.runInstruction (env.runCalled 0) (loop (.pipeline (.ofBase "xs"))) s := by
  intro env s body loop
  have hstart : env.bound (.ofBase "2") s = .ok 2 s :=
    (unmoved_bound _).ok_of_value? (by decide +kernel)
  have hstop : env.bound (.ofBase "3") s = .ok 3 s :=
    (unmoved_bound _).ok_of_value? (by decide +kernel)
  have hxs : env.eval (.ofBase "xs") s = .ok (.seq [.int 2, .int 3]) s :=
    (unmoved_eval _).ok_of_value? (by rfl)
  obtain ⟨hiterations, hranges⟩ := loop_iterations env 0 (.item "x") (some 1) (some 4) body s
  constructor
  · obtain ⟨trace, _, _, _, hindices, _, hcomplete, hturns, _⟩ :=
      hiterations (.pipeline (.ofBase "xs")) _ _ s (entriesOf_seq hxs)
    refine ⟨trace, ?_, fun turn hturn => (hturns turn hturn).2.1⟩
    have hone : (trace.map fun turn => turn.1.2) <+: [1] := hindices
    rcases List.prefix_cons_iff.1 hone with hnone | ⟨rest, hall, hrest⟩
    · rw [List.map_eq_nil_iff.1 hnone] at hcomplete
      cases hcomplete nofun
    · rwa [List.prefix_nil.1 hrest] at hall
  · refine hranges _ _ _ 2 3 _ hstart hstop (fun i => ?_) hxs
    rcases i with _ | _ | i
    · rfl
    · rfl
    · rw [if_neg (by omega)]
      rfl

end Stencil
