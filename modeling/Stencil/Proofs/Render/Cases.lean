import Stencil.Proofs.Render.InTurn

/-!
# Cases

A case looks for an arm to begin with, and takes the arms from there in turn, all in one frame.

* `matchingArm_of_values`: the first arm that has a value equal to the subject is found, and nothing
  behind that value is evaluated.
* `firstArm_behind`: what stands behind the first equal value does not matter to the search.
* `switch_arms`: which arms are run, in which frame, and what becomes of their jumps.
-/

namespace Stencil

open RenderEnv

/-! ## The arm to begin with -/

/-- The values of some arms, in the order in which they are compared with the subject. -/
def armValues (arms : List Arm) : List Pipeline :=
  arms.flatMap fun arm => Checker.labelPipelines arm.label

theorem armValues_append (arms arms' : List Arm) :
    armValues (arms ++ arms') = armValues arms ++ armValues arms' :=
  List.flatMap_append

theorem armValues_values (ps : List Pipeline) (body : List Instruction) (arms : List Arm) :
    armValues (.mk (.values ps) body :: arms) = ps ++ armValues arms := rfl

/-- Whether a pipeline has a value that equals the subject. -/
def RenderEnv.hits (env : RenderEnv) (s : RenderState) (subject : Value) (p : Pipeline) : Bool :=
  ((env.eval p).value? s).any (· == subject)

/-- Whether an arm has a value that equals the subject. -/
def RenderEnv.hitsArm (env : RenderEnv) (s : RenderState) (subject : Value) (arm : Arm) : Bool :=
  (Checker.labelPipelines arm.label).any (env.hits s subject)

theorem RenderEnv.hitsArm_values (env : RenderEnv) (s : RenderState) (subject : Value)
    (ps : List Pipeline) (body : List Instruction) :
    env.hitsArm s subject (.mk (.values ps) body) = ps.any (env.hits s subject) := rfl

/-- The pipelines have values as far as they are compared with the subject. -/
def RenderEnv.Comparable (env : RenderEnv) (s : RenderState) (subject : Value)
    (ps : List Pipeline) : Prop :=
  ∀ p ∈ ps.takeWhile (!env.hits s subject ·), ((env.eval p).value? s).isSome = true

section

variable {env : RenderEnv} {s : RenderState} {subject : Value}

namespace RenderEnv.Comparable

theorem left {ps qs : List Pipeline} (h : env.Comparable s subject (ps ++ qs)) :
    env.Comparable s subject ps := by
  intro p hp
  apply h p
  rw [List.takeWhile_append]
  split
  · exact List.mem_append_left _ ((List.takeWhile_prefix _).subset hp)
  · exact hp

/-- If none of the first pipelines equals the subject, the others are compared with it. -/
theorem right {ps qs : List Pipeline} (h : env.Comparable s subject (ps ++ qs))
    (hps : ps.any (env.hits s subject) = false) : env.Comparable s subject qs := by
  intro p hp
  apply h p
  rw [List.takeWhile_append_of_pos fun q hq => by simpa using List.any_eq_false.1 hps q hq]
  exact List.mem_append_right ps hp

/-- Nothing is compared with the subject behind a pipeline that equals it. -/
theorem append {ps : List Pipeline} {p : Pipeline} (h : env.Comparable s subject ps)
    (hp : env.hits s subject p = true) (qs : List Pipeline) :
    env.Comparable s subject (ps ++ p :: qs) := by
  intro q hq
  apply h q
  rw [List.takeWhile_append, List.takeWhile_cons_of_neg (by simp [hp]), List.append_nil] at hq
  split at hq
  · next hall => rwa [(List.takeWhile_prefix _).eq_of_length hall]
  · exact hq

end RenderEnv.Comparable

theorem anyEqual_of_values {ps : List Pipeline} (h : env.Comparable s subject ps) :
    env.anyEqual subject ps s = .ok (ps.any (env.hits s subject)) s := by
  induction ps with
  | nil => rfl
  | cons p ps ih =>
    have hrest : env.hits s subject p = false → env.Comparable s subject ps := by
      intro hmiss
      have hcons : env.Comparable s subject ([p] ++ ps) := h
      apply hcons.right
      simp [hmiss]
    rw [RenderEnv.anyEqual, List.any_cons]
    cases hvalue : (env.eval p).value? s with
    | none =>
      have hmiss : env.hits s subject p = false := by simp [hits, hvalue]
      have hsome := h p (by simp [hmiss])
      simp [hvalue] at hsome
    | some w =>
      have hhits : env.hits s subject p = (w == subject) := by simp [hits, hvalue]
      rw [bind_of_ok ((unmoved_eval p).ok_of_value? hvalue), hhits]
      by_cases hequal : (w == subject) = true
      · rw [if_pos hequal, hequal, Bool.true_or]
        rfl
      · rw [if_neg hequal]
        rw [Bool.not_eq_true] at hequal
        rw [hequal, Bool.false_or]
        exact ih (hrest (hhits.trans hequal))

/-- The first arm that has an equal value is found. -/
theorem matchingArm_of_values {arms : List Arm} (h : env.Comparable s subject (armValues arms))
    (index : Nat) :
    env.matchingArm subject index arms s =
      .ok ((arms.findIdx? (env.hitsArm s subject)).map (· + index)) s := by
  induction arms generalizing index with
  | nil => rfl
  | cons arm arms ih =>
    obtain ⟨label, body⟩ := arm
    have hmiss : env.hitsArm s subject (.mk label body) = false →
        env.matchingArm subject (index + 1) arms s =
          .ok (((Arm.mk label body :: arms).findIdx? (env.hitsArm s subject)).map (· + index))
            s := by
      intro hnone
      rw [ih (h.right hnone), List.findIdx?_cons, hnone, if_neg Bool.false_ne_true, Option.map_map]
      congr 2
      funext i
      simp only [Function.comp_apply]
      omega
    cases label with
    | default => exact hmiss rfl
    | values ps =>
      have hlabel : env.Comparable s subject ps := h.left
      rw [RenderEnv.matchingArm, bind_of_ok (anyEqual_of_values hlabel)]
      by_cases hps : ps.any (env.hits s subject) = true
      · have harm : env.hitsArm s subject (.mk (.values ps) body) = true := hps
        rw [if_pos hps, List.findIdx?_cons, harm, if_pos rfl, Option.map_some, Nat.zero_add]
        rfl
      · rw [if_neg hps]
        exact hmiss (Bool.not_eq_true _ ▸ hps)

/-- The arm to begin with is the one that has the first equal value, and the first default if there
is no such arm. -/
theorem firstArm_of_values {arms : List Arm} (h : env.Comparable s subject (armValues arms)) :
    env.firstArm subject arms s =
      .ok ((arms.findIdx? (env.hitsArm s subject)).or (arms.findIdx? isDefault)) s := by
  unfold RenderEnv.firstArm
  rw [bind_of_ok (matchingArm_of_values h 0)]
  cases arms.findIdx? (env.hitsArm s subject) <;> rfl

/-- What stands behind the first equal value does not matter to the search. -/
theorem firstArm_behind {front : List Arm} {before : List Pipeline} {p : Pipeline}
    (h : env.Comparable s subject (armValues front ++ before))
    (hmiss : (armValues front ++ before).any (env.hits s subject) = false)
    (hp : env.hits s subject p = true) (rest : List Pipeline) (body : List Instruction)
    (back : List Arm) :
    env.firstArm subject (front ++ .mk (.values (before ++ p :: rest)) body :: back) s =
      .ok (some front.length) s := by
  have hvalues : armValues (front ++ .mk (.values (before ++ p :: rest)) body :: back) =
      (armValues front ++ before) ++ p :: (rest ++ armValues back) := by
    simp [armValues_append, armValues_values]
  have hfront : front.findIdx? (env.hitsArm s subject) = none := by
    rw [List.any_append, Bool.or_eq_false_iff, armValues, List.any_flatMap] at hmiss
    apply List.findIdx?_eq_none_iff.2
    intro arm harm
    exact (Bool.not_eq_true _).mp (List.any_eq_false.1 hmiss.1 arm harm)
  have harm : env.hitsArm s subject (.mk (.values (before ++ p :: rest)) body) = true := by
    simp [hitsArm_values, hp]
  rw [firstArm_of_values (hvalues ▸ h.append hp _), List.findIdx?_append, hfront, List.findIdx?_cons,
    harm]
  simp

end

/-! ## The arms that run -/

section

variable {env : RenderEnv} {call : List Instruction → RenderM Flow} {s : RenderState}

/-- The labels do not matter once an arm to begin with is found. -/
theorem runArms_congr {arms arms' : List Arm} (h : arms'.map Arm.body = arms.map Arm.body)
    (skip : Nat) : env.runArms call skip arms' = env.runArms call skip arms := by
  induction arms generalizing arms' skip with
  | nil => rw [List.map_eq_nil_iff.1 h]
  | cons arm arms ih =>
    obtain ⟨arm', more', rfl, hbody, hmore⟩ := List.map_eq_cons_iff.1 h
    obtain ⟨label, body⟩ := arm
    obtain ⟨label', body'⟩ := arm'
    obtain rfl : body' = body := hbody
    cases skip with
    | succ skip => exact ih hmore skip
    | zero =>
      rw [runArms, runArms]
      apply bind_congr
      intro flow
      cases flow with
      | normal => exact ih hmore 0
      | «break» => rfl
      | «continue» => rfl

/-- What comes of the arms of a case comes of the case, but for its `break`. -/
theorem switch_inTurn (call : List Instruction → RenderM Flow) {subject : Pipeline}
    {arms : List Arm} {v : Value} {i : Nat} (hsubject : env.eval subject s = .ok v s)
    (hfirst : env.firstArm v arms s = .ok (some i) s) :
    ∃ trace r, InTurn (fun arm : Arm => env.runBody call arm.body) (· != .normal) (arms.drop i)
        { s with frames := {} :: s.frames } trace r ∧
      env.runInstruction call (.switch subject arms) s =
        match r with
        | .ok flow t => .ok (if flow = .break then .normal else flow)
            { t with frames := t.frames.drop 1 }
        | .error e t => .error e { t with frames := t.frames.drop 1 } := by
  obtain ⟨trace, hturns⟩ := inTurn_arms env call i arms { s with frames := {} :: s.frames }
  refine ⟨trace, _, hturns, ?_⟩
  rw [runInstruction, bind_of_ok hsubject, bind_of_ok hfirst]
  dsimp only
  cases hruns : env.runArms call i arms { s with frames := {} :: s.frames } with
  | ok flow t =>
    rw [bind_of_ok (within_of_ok hruns)]
    rfl
  | error e t => rw [bind_of_error (within_of_error hruns)]

/-- Nothing comes of a case without an arm to begin with. -/
theorem switch_none {subject : Pipeline} {arms : List Arm} {v : Value}
    (hsubject : env.eval subject s = .ok v s) (hfirst : env.firstArm v arms s = .ok none s) :
    env.runInstruction call (.switch subject arms) s = .ok .normal s := by
  rw [runInstruction, bind_of_ok hsubject, bind_of_ok hfirst]
  rfl

/-- A jump out of a case ends the body in which the case is. -/
theorem body_of_switch {subject : Pipeline} {arms : List Arm} {flow : Flow} {t : RenderState}
    (h : env.runInstruction call (.switch subject arms) s = .ok flow t)
    (behind : List Instruction) :
    env.runBody call (.switch subject arms :: behind) s =
      match flow with
      | .normal => env.runBody call behind t
      | flow => .ok flow t := by
  rw [runBody, bind_of_ok h]
  cases flow <;> rfl

/-- A case is run alike whatever values and labels stand behind the first equal value. -/
theorem switch_behind {subject : Pipeline} {v : Value} {front back back' : List Arm}
    {before : List Pipeline} {p : Pipeline} (hsubject : env.eval subject s = .ok v s)
    (h : env.Comparable s v (armValues front ++ before))
    (hmiss : (armValues front ++ before).any (env.hits s v) = false) (hp : env.hits s v p = true)
    (rest rest' : List Pipeline) (body : List Instruction)
    (hback : back'.map Arm.body = back.map Arm.body) :
    env.runInstruction call
        (.switch subject (front ++ .mk (.values (before ++ p :: rest')) body :: back')) s =
      env.runInstruction call
        (.switch subject (front ++ .mk (.values (before ++ p :: rest)) body :: back)) s := by
  have hbodies : (front ++ .mk (.values (before ++ p :: rest')) body :: back').map Arm.body =
      (front ++ .mk (.values (before ++ p :: rest)) body :: back).map Arm.body := by
    simp [hback, Arm.body]
  rw [runInstruction, runInstruction, bind_of_ok hsubject, bind_of_ok hsubject,
    bind_of_ok (firstArm_behind h hmiss hp rest body back),
    bind_of_ok (firstArm_behind h hmiss hp rest' body back')]
  dsimp only
  rw [runArms_congr hbodies]

end

/-! ## Cases -/

/-- A case begins with the first arm that has a value equal to the subject, wherever the defaults
are, and with the first default if there is no such arm; without either, nothing happens. From there
on the arms are run in turn, until one ends in a jump or fails, all of them in one frame of the case
that is gone behind it. A `break` goes no further than that, and a `continue` ends the body in which
the case is. What stands behind the first equal value is not evaluated and might be anything. -/
theorem switch_arms (env : RenderEnv) (calls : Nat) (subject : Pipeline) (arms : List Arm)
    (s : RenderState) (v : Value) (hsubject : (env.eval subject).value? s = some v)
    (hvalues : env.Comparable s v (armValues arms)) :
    let call := env.runCalled calls
    let switch (arms : List Arm) := env.runInstruction call (.switch subject arms)
    let body (behind : List Instruction) := env.runBody call (.switch subject arms :: behind)
    let step (arm : Arm) := env.runBody call arm.body
    let inner : RenderState := { s with frames := {} :: s.frames }
    let first := (arms.findIdx? (env.hitsArm s v)).or (arms.findIdx? isDefault)
    (first = none → ∀ behind, body behind s = env.runBody call behind s) ∧
    (∀ i, first = some i → ∃ trace r, InTurn step (· != .normal) (arms.drop i) inner trace r ∧
      (∀ behind, body behind s = match r with
        | .ok .continue t => .ok .continue { t with frames := t.frames.drop 1 }
        | .ok _ t => env.runBody call behind { t with frames := t.frames.drop 1 }
        | .error e t => .error e { t with frames := t.frames.drop 1 }) ∧
      trace.head? = arms[i]?.map (·, inner) ∧
      (trace.map Prod.fst) <+: arms.drop i ∧
      (∀ turn ∈ trace.dropLast, Passes step (· != .normal) turn) ∧
      ((∀ turn ∈ trace, Passes step (· != .normal) turn) → trace.map Prod.fst = arms.drop i) ∧
      (∀ turn ∈ trace, SameTables s.tables turn.2.tables.tail) ∧
      SameTables s.tables ((switch arms).final s).tables) ∧
    ∀ front before p rest armBody back,
      arms = front ++ .mk (.values (before ++ p :: rest)) armBody :: back →
      (armValues front ++ before).any (env.hits s v) = false → env.hits s v p = true →
      ∀ rest' back', back'.map Arm.body = back.map Arm.body →
        switch (front ++ .mk (.values (before ++ p :: rest')) armBody :: back') s =
          switch arms s := by
  intro call switch body step inner first
  have hsubject : env.eval subject s = .ok v s := (unmoved_eval subject).ok_of_value? hsubject
  have hfirst : env.firstArm v arms s = .ok first s := firstArm_of_values hvalues
  refine ⟨fun hnone behind => ?_, fun i hi => ?_, ?_⟩
  · rw [hnone] at hfirst
    exact body_of_switch (switch_none hsubject hfirst) behind
  · rw [hi] at hfirst
    obtain ⟨trace, r, hturns, hswitch⟩ := switch_inTurn call hsubject hfirst
    obtain ⟨hbegins, hends⟩ := hturns.related neutral.refl neutral.trans fun arm : Arm =>
      relates_body neutral (relates_called neutral calls) arm.body
    refine ⟨trace, r, hturns, fun behind => ?_, ?_, hturns.isPrefix, hturns.passes_dropLast,
      hturns.complete, fun turn hturn => (hbegins turn hturn).names.tail, ?_⟩
    · cases r with
      | ok flow t =>
        apply (body_of_switch hswitch behind).trans
        cases flow <;> rfl
      | error e t => exact bind_of_error hswitch
    · rw [hturns.head?, List.head?_drop]
    · cases r with
      | ok flow t =>
        rw [final_of_ok hswitch]
        exact (hends t (.inl ⟨flow, rfl⟩)).closed.names
      | error e t =>
        rw [final_of_error hswitch]
        exact (hends t (.inr ⟨e, rfl⟩)).closed.names
  · rintro front before p rest armBody back rfl hmiss hp rest' back' hback
    have hcompared : env.Comparable s v (armValues front ++ before) := by
      rw [armValues_append, armValues_values, ← List.append_assoc, ← List.append_assoc] at hvalues
      exact hvalues.left.left
    exact switch_behind hsubject hcompared hmiss hp rest rest' armBody hback

/-- Arms that begin with a default, and have some value behind an equal one. -/
def earlyDefault (behind : Pipeline) : List Arm :=
  [.mk .default [.text "d"], .mk (.values [.ofBase "1", .ofBase "2", behind]) [.text "a"],
    .mk (.values [.ofBase "3"]) [.text "b", .break], .mk (.values [.ofBase "4"]) [.text "c"]]

theorem switch_arms_earlyDefault :
    let env : RenderEnv := ⟨{}, {}, default⟩
    let s : RenderState := {}
    let arms := earlyDefault (.ofBase "missing")
    ((arms.findIdx? (env.hitsArm s (.int 2))).or (arms.findIdx? isDefault) = some 1 ∧
      ∃ trace : List (Arm × RenderState), (trace.map Prod.fst) <+: arms.drop 1 ∧
        trace.head? = arms[1]?.map (·, { s with frames := {} :: s.frames })) ∧
      env.runInstruction (env.runCalled 0) (.switch (.ofBase "2") (earlyDefault (.ofBase "5"))) s =
        env.runInstruction (env.runCalled 0) (.switch (.ofBase "2") arms) s := by
  intro env s arms
  have hone : (env.eval (.ofBase "1")).value? s = some (.int 1) := by rfl
  have htwo : (env.eval (.ofBase "2")).value? s = some (.int 2) := by rfl
  have hmiss : env.hits s (.int 2) (.ofBase "1") = false := by rfl
  have hhit : env.hits s (.int 2) (.ofBase "2") = true := by rfl
  have hcompared : env.Comparable s (.int 2) [.ofBase "1"] := by
    intro p hp
    have hp : p ∈ [Pipeline.ofBase "1"] := (List.takeWhile_prefix _).subset hp
    rw [List.mem_singleton.1 hp, hone]
    rfl
  have hvalues : env.Comparable s (.int 2) (armValues arms) := hcompared.append hhit _
  obtain ⟨_, hruns, hbehind⟩ := switch_arms env 0 (.ofBase "2") arms s (.int 2) htwo hvalues
  have hfirst : (arms.findIdx? (env.hitsArm s (.int 2))).or (arms.findIdx? isDefault) = some 1 := by
    rfl
  obtain ⟨trace, _, _, _, hhead, hprefix, _⟩ := hruns 1 hfirst
  exact ⟨⟨hfirst, trace, hprefix, hhead⟩,
    hbehind [.mk .default [.text "d"]] [.ofBase "1"] (.ofBase "2") [.ofBase "missing"] [.text "a"]
      _ rfl (by simp [armValues, Arm.label, Checker.labelPipelines, hmiss]) hhit [.ofBase "5"] _ rfl⟩

end Stencil
