import Stencil.Proofs.Generation.Abreast

/-!
# Tokens that keep drafts abreast

* `Facing`: what stands behind an index of one list of tokens stands behind an index of another, as far
  as the handler of the tag there looks.
* `Handler.*_abreast`: every handler keeps drafts abreast that are at such indices.
* `Generator.step_abreast`: so does every token.
-/

namespace Stencil

/-! ## Places -/

/-- What the handler of a token finds behind the token at an index, it finds behind the other index.
`M` relates the indices of tokens. -/
structure Facing (M : Nat → Nat → Prop) (env env' : DraftEnv) (i i' : Nat) : Prop where
  here : (∀ tag, env.token? i = some (.tag tag) → tag.name ∉ ["js", "mixin", "block"] ++ verbatimTags) →
    M i i'
  closes : ∀ tag stop, env.token? i = some (.tag tag) → env.kinds.isBlock tag.name = true →
    env.kinds.isVerbatim tag.name = false →
    closingTag env.kinds env.tokens (closerOf tag.name) i = .ok stop →
    ∃ stop', closingTag env'.kinds env'.tokens (closerOf tag.name) i' = .ok stop' ∧
      (tag.name ∈ ["js", "mixin", "block"] → M stop stop') ∧
      (tag.name = "js" → env'.sourceBetween (i' + 1) stop' = env.sourceBetween (i + 1) stop)
  ends : ∀ tag stop, env.token? i = some (.tag tag) → env.kinds.isVerbatim tag.name = true →
    verbatimEnd? env.tokens tag.name i = some stop →
    ∃ stop', verbatimEnd? env'.tokens tag.name i' = some stop' ∧ M stop stop' ∧
      env'.sourceBetween (i' + 1) stop' = env.sourceBetween (i + 1) stop

/-- The drafts are abreast behind tokens that are related. -/
def Bench.Leads (b : Bench) (M : Nat → Nat → Prop) (k : Nat) (d d' : Draft) : Prop :=
  Abreast b k d d' ∧ ∃ j j', M j j' ∧ d.idx = j + 1 ∧ d'.idx = j' + 1

/-- The scopes stay related when a name is bound, and agree on whether it is new. -/
def Bench.Binds (b : Bench) (k : Nat) : Prop :=
  ∀ σ σ', b.scopes k σ σ' → ∀ name, σ'.has name = σ.has name ∧ b.scopes k (σ.add name) (σ'.add name)

namespace Handler

variable {b : Bench} {M : Nat → Nat → Prop} {k : Nat} {d d' : Draft} {env env' : DraftEnv} {tag : Tag}
  {pos : Pos}

/-! ## Checks -/

theorem findTag_follows {name : String} {R : Nat → Nat → Prop}
    (h : ∀ stop, closingTag env.kinds env.tokens name d.idx = .ok stop →
      ∃ stop', closingTag env'.kinds env'.tokens name d'.idx = .ok stop' ∧ R stop stop') :
    Follows R (env.findTag d name) (env'.findTag d' name) := by
  intro stop hstop
  obtain ⟨stop', hstop', hrel⟩ := h stop ((findTag_settles env d name).get hstop)
  exact ⟨stop', by rw [DraftEnv.findTag, hstop']; rfl, hrel⟩

theorem verbatimEnd_follows {R : Nat → Nat → Prop}
    (h : ∀ stop, verbatimEnd? env.tokens tag.name d.idx = some stop →
      ∃ stop', verbatimEnd? env'.tokens tag.name d'.idx = some stop' ∧ R stop stop') :
    Follows R (env.verbatimEnd d tag) (env'.verbatimEnd d' { tag with pos }) := by
  intro stop hstop
  obtain ⟨stop', hstop', hrel⟩ := h stop ((verbatimEnd_settles env d tag).get hstop)
  refine ⟨stop', ?_, hrel⟩
  unfold DraftEnv.verbatimEnd
  simp only [hstop']

theorem requireHead_follows (reason : String) :
    Follows (fun _ _ => True) (requireHead env tag reason)
      (requireHead env' { tag with pos } reason) := by
  unfold requireHead
  split
  · exact .error
  · exact .ok trivial

theorem loopBound_follows (word : String) :
    Follows Eq (loopBound env tag word) (loopBound env' { tag with pos } word) := by
  have hsame : ({ tag with pos } : Tag).filterArg? word = tag.filterArg? word := rfl
  unfold loopBound
  rw [hsame]
  split
  · exact .ok rfl
  · split
    · exact .ok rfl
    · exact .error

theorem loopBinding_follows (text : String) :
    Follows Eq (loopBinding env tag text) (loopBinding env' { tag with pos } text) := by
  unfold loopBinding
  split
  · exact .ok rfl
  · exact .error
  · exact .error

/-! ## Names and texts -/

section

variable (h : Abreast b k d d') (face : Facing M env env' d.idx d'.idx)
include h face

theorem raw_abreast (here : env.token? d.idx = some (.tag tag))
    (verbatim : env.kinds.isVerbatim tag.name = true) :
    Follows (b.Leads M k) (raw env tag d) (raw env' { tag with pos } d') := by
  refine (verbatimEnd_follows (face.ends tag · here verbatim)).bind ?_
  rintro stop stop' ⟨hM, hsource⟩
  refine .ok ?_
  rw [hsource]
  split
  · exact ⟨h.skips _ _, stop, stop', hM, rfl, rfl⟩
  · exact ⟨(h.emits rfl).skips _ _, stop, stop', hM, rfl, rfl⟩

theorem comment_abreast (here : env.token? d.idx = some (.tag tag))
    (verbatim : env.kinds.isVerbatim tag.name = true) :
    Follows (b.Leads M k) (comment env tag d) (comment env' { tag with pos } d') := by
  refine (verbatimEnd_follows (face.ends tag · here verbatim)).bind ?_
  rintro stop stop' ⟨hM, _⟩
  exact .ok ⟨h.skips _ _, stop, stop', hM, rfl, rfl⟩

end

theorem assign_abreast (hb : b.Lasting) (h : Abreast b k d d') (hM : M d.idx d'.idx)
    (binds : b.Binds k) (name : tag.name = "assign")
    (needs : ∀ base ∈ (Token.tag tag).operands, d'.scope.needed base = d.scope.needed base) :
    Follows (b.Leads M k) (assign env tag d) (assign env' { tag with pos } d') := by
  unfold assign
  dsimp only
  cases reads : AssignmentHead.ofHead? tag.head with
  | none => exact .error
  | some head =>
    refine .guard fun _ => ?_
    have hneeded : d'.scope.needed head.value = d.scope.needed head.value :=
      needs _ (by simp [Token.operands, name, reads])
    obtain ⟨p, e, e', hp, hp', habreast, hnotes, hnotes'⟩ :=
      h.pipeline env env' hb tag.filters hneeded
    obtain ⟨hhas, hadd⟩ := binds e.scope e'.scope habreast.scopes head.name
    rw [hp, hp']
    dsimp only [Draft.declare]
    rw [hhas]
    have hbound : Abreast b k (e.withScope (·.add head.name)) (e'.withScope (·.add head.name)) :=
      { habreast with scopes := hadd }
    rw [Draft.advance_emit, Draft.advance_emit]
    refine .ok ⟨(hbound.emits rfl).skips _ _, d.idx, d'.idx, hM, ?_, ?_⟩
    · exact congrArg (· + 1) hnotes.idx
    · exact congrArg (· + 1) hnotes'.idx

section

variable (h : Abreast b k d d') (face : Facing M env env' d.idx d'.idx) (binds : b.Binds k)
include h face binds

theorem capture_abreast (here : env.token? d.idx = some (.tag tag))
    (verbatim : env.kinds.isVerbatim tag.name = true) :
    Follows (b.Leads M k) (capture env tag d) (capture env' { tag with pos } d') := by
  unfold capture
  dsimp only
  refine .guard fun _ => ?_
  refine (verbatimEnd_follows (face.ends tag · here verbatim)).bind ?_
  rintro stop stop' ⟨hM, hsource⟩
  obtain ⟨hhas, hadd⟩ := binds d.scope d'.scope h.scopes tag.head
  dsimp only [Draft.declare]
  rw [hsource, hhas]
  have hbound : Abreast b k (d.withScope (·.add tag.head)) (d'.withScope (·.add tag.head)) :=
    { h with scopes := hadd }
  exact .ok ⟨(hbound.emits rfl).skips _ _, stop, stop', hM, rfl, rfl⟩

theorem script_abreast (here : env.token? d.idx = some (.tag tag)) (name : tag.name = "js")
    (block : env.kinds.isBlock tag.name = true) (looked : env.kinds.isVerbatim tag.name = false) :
    Follows (b.Leads M k) (script env tag d) (script env' { tag with pos } d') := by
  have hcloser : closerOf tag.name = "endjs" := by rw [name]; rfl
  have hadd (names : List String) {σ σ' : Scope} (hσ : b.scopes k σ σ') :
      b.scopes k (σ.addAll names) (σ'.addAll names) := by
    induction names generalizing σ σ' with
    | nil => exact hσ
    | cons name names ih => exact ih (binds σ σ' hσ name).2
  have closes := (face.closes tag · here block looked)
  rw [hcloser] at closes
  refine (findTag_follows closes).bind ?_
  rintro stop stop' ⟨hM, hsource⟩
  dsimp only
  rw [hsource name]
  have hbound (names : List String) : Abreast b k (d.withScope (·.addAll names))
      (d'.withScope (·.addAll names)) := { h with scopes := hadd names h.scopes }
  exact .ok ⟨((hbound _).emits rfl).skips _ _, stop, stop', hM (by simp [name]), rfl, rfl⟩

end

/-! ## Blocks that are opened -/

/-- Both loops run over the same. -/
theorem loopIterable_abreast (env env' : DraftEnv) (hb : b.Lasting) (h : Abreast b k d d')
    {text : String} (calls : List FilterCall)
    (needs : ∀ base ∈ loopOperands calls text, d'.scope.needed base = d.scope.needed base) :
    ∃ iterable e e', loopIterable env d text calls = (iterable, e) ∧
      loopIterable env' d' text calls = (iterable, e') ∧ Abreast b k e e' ∧ d.Notes e ∧
        d'.Notes e' := by
  unfold loopOperands at needs
  unfold loopIterable
  cases hbounds : (if calls.isEmpty then rangeBounds? text else none) with
  | some bounds =>
    obtain ⟨first, last⟩ := bounds
    rw [hbounds] at needs
    obtain ⟨start, e, e', hp, hp', habreast, hnotes, hnotes'⟩ :=
      h.pipeline env env' hb [] (needs first List.mem_cons_self)
    have hlast : e'.scope.needed last = e.scope.needed last := by
      rw [hnotes.scope, hnotes'.scope]
      exact needs last (List.mem_cons_of_mem _ List.mem_cons_self)
    obtain ⟨stop, f, f', hq, hq', habreast', hmore, hmore'⟩ :=
      habreast.pipeline env env' hb [] hlast
    refine ⟨.range start stop, f, f', ?_, ?_, habreast', hnotes.trans hmore, hnotes'.trans hmore'⟩
    · simp only [hp, hq]
    · simp only [hp', hq']
  | none =>
    rw [hbounds] at needs
    obtain ⟨p, e, e', hp, hp', habreast, hnotes, hnotes'⟩ :=
      h.pipeline env env' hb calls (needs text List.mem_cons_self)
    exact ⟨.pipeline p, e, e', by simp only [hp], by simp only [hp'], habreast, hnotes, hnotes'⟩

section

variable (hb : b.Lasting) (h : Abreast b k d d') (face : Facing M env env' d.idx d'.idx)
  (hM : M d.idx d'.idx)
include hb h face hM

theorem openCondition_abreast {kind : ConditionKind} (here : env.token? d.idx = some (.tag tag))
    (name : tag.name = kind.opener) (block : env.kinds.isBlock tag.name = true)
    (looked : env.kinds.isVerbatim tag.name = false)
    (needs : ∀ base ∈ (Token.tag tag).operands, d'.scope.needed base = d.scope.needed base) :
    Follows (b.Leads M (k + 1)) (openCondition kind env tag d)
      (openCondition kind env' { tag with pos } d') := by
  have closes := (face.closes tag · here block looked)
  rw [name] at closes
  have hneeded : d'.scope.needed tag.head = d.scope.needed tag.head :=
    needs _ (by cases kind <;> simp [Token.operands, name, ConditionKind.opener])
  refine (findTag_follows closes).bind fun _ _ _ => (requireHead_follows _).bind fun _ _ _ => ?_
  obtain ⟨p, e, e', hp, hp', habreast, hnotes, hnotes'⟩ :=
    h.pipeline env env' hb tag.filters hneeded
  rw [hp, hp']
  exact .ok ⟨habreast.opens hb rfl [] _ _, d.idx, d'.idx, hM, congrArg (· + 1) hnotes.idx,
    congrArg (· + 1) hnotes'.idx⟩

theorem openCase_abreast (here : env.token? d.idx = some (.tag tag)) (name : tag.name = "case")
    (block : env.kinds.isBlock tag.name = true) (looked : env.kinds.isVerbatim tag.name = false)
    (needs : ∀ base ∈ (Token.tag tag).operands, d'.scope.needed base = d.scope.needed base) :
    Follows (b.Leads M (k + 1)) (openCase env tag d) (openCase env' { tag with pos } d') := by
  have closes := (face.closes tag · here block looked)
  rw [name] at closes
  have hneeded : d'.scope.needed tag.head = d.scope.needed tag.head :=
    needs _ (by simp [Token.operands, name])
  refine (findTag_follows closes).bind fun _ _ _ => (requireHead_follows _).bind fun _ _ _ => ?_
  obtain ⟨p, e, e', hp, hp', habreast, hnotes, hnotes'⟩ :=
    h.pipeline env env' hb tag.filters hneeded
  rw [hp, hp']
  exact .ok ⟨habreast.opens hb rfl [] _ _, d.idx, d'.idx, hM, congrArg (· + 1) hnotes.idx,
    congrArg (· + 1) hnotes'.idx⟩

theorem openLoop_abreast (here : env.token? d.idx = some (.tag tag)) (name : tag.name = "for")
    (block : env.kinds.isBlock tag.name = true) (looked : env.kinds.isVerbatim tag.name = false)
    (needs : ∀ base ∈ (Token.tag tag).operands, d'.scope.needed base = d.scope.needed base) :
    Follows (b.Leads M (k + 1)) (openLoop env tag d) (openLoop env' { tag with pos } d') := by
  have closes := (face.closes tag · here block looked)
  rw [name] at closes
  unfold openLoop
  refine (findTag_follows closes).bind fun _ _ _ => ?_
  dsimp only
  cases reads : LoopHead.ofHead? tag.head with
  | none => exact .error
  | some head =>
    refine .guard fun _ => ?_
    refine (loopBinding_follows head.binding).bind fun binding _ hbinding => ?_
    refine (loopBound_follows "offset").bind fun offset _ hoffset => ?_
    refine (loopBound_follows "limit").bind fun limit _ hlimit => ?_
    subst hbinding hoffset hlimit
    have hneeds := needs
    simp only [Token.operands, name, reads] at hneeds
    obtain ⟨iterable, e, e', hp, hp', habreast, hnotes, hnotes'⟩ :=
      loopIterable_abreast env env' hb h (tag.filters.filter (!isLoopBound ·)) hneeds
    rw [hp, hp']
    exact .ok ⟨habreast.opens hb rfl _ _ _, d.idx, d'.idx, hM, congrArg (· + 1) hnotes.idx,
      congrArg (· + 1) hnotes'.idx⟩

end

/-! ## Blocks that turn and close -/

section

variable (h : Abreast b k d d') (hM : M d.idx d'.idx) (hk : k ≠ 0 ∨ b.base.kind = .root)
include h hM hk

/-- The next branch is started in both drafts. -/
theorem nextBranch_abreast (hb : b.Lasting) (next : Option (Pipeline × Bool))
    (allowed : List ConditionKind) :
    Follows (b.Leads M k) (nextBranch env tag next allowed d)
      (nextBranch env' { tag with pos } next allowed d') := by
  obtain _ | k := k
  · -- A body of its own is no condition.
    obtain ⟨found, hstack⟩ := h.ground
    rw [hk.resolve_left (fun h => h rfl)] at hstack
    unfold nextBranch
    split
    · next hinner =>
      rw [Draft.stack, hinner] at hstack
      cases hstack
    · exact .error
  · obtain ⟨⟨kind, found⟩, outer, outer', hinner, hinner', _, houter⟩ := h.top
    unfold nextBranch
    rw [hinner, hinner']
    cases kind with
    | condition kind branches current =>
      dsimp only [OpenBlock.inlined, OpenKind.inlined]
      split
      · exact .error
      · cases current with
        | none => exact .error
        | some current =>
          obtain ⟨p, negated⟩ := current
          have hturned := houter.opened
            (.condition kind (.mk p negated found.reverse :: branches) next)
          rw [OpenKind.inlined, List.map_cons, Branch.inlined, ← reverse_inlinedFound] at hturned
          exact .ok ⟨{ h with
            stack := hturned
            scopes := hb.create (hb.destroy h.scopes) }, d.idx, d'.idx, hM, rfl, rfl⟩
    | _ => exact .error

theorem otherwise_abreast (hb : b.Lasting) :
    Follows (b.Leads M k) (otherwise env tag d) (otherwise env' { tag with pos } d') :=
  nextBranch_abreast h hM hk hb none _

theorem elseIf_abreast (hb : b.Lasting) (name : tag.name = "elseif" ∨ tag.name = "elsif")
    (needs : ∀ base ∈ (Token.tag tag).operands, d'.scope.needed base = d.scope.needed base) :
    Follows (b.Leads M k) (elseIf env tag d) (elseIf env' { tag with pos } d') := by
  have hneeded : d'.scope.needed tag.head = d.scope.needed tag.head :=
    needs _ (by rcases name with name | name <;> simp [Token.operands, name])
  refine (requireHead_follows _).bind fun _ _ _ => ?_
  obtain ⟨p, e, e', hp, hp', habreast, hnotes, hnotes'⟩ :=
    h.pipeline env env' hb tag.filters hneeded
  rw [hp, hp']
  rw [← hnotes.idx, ← hnotes'.idx] at hM
  exact nextBranch_abreast habreast hM hk hb _ _

/-- The next arm is started in both drafts. -/
theorem nextArm_abreast (next : ArmLabel) :
    Follows (fun e e' => b.Leads M k e.advance e'.advance) (nextArm env tag next d)
      (nextArm env' { tag with pos } next d') := by
  obtain _ | k := k
  · obtain ⟨found, hstack⟩ := h.ground
    rw [hk.resolve_left (fun h => h rfl)] at hstack
    unfold nextArm
    split
    · next hinner =>
      rw [Draft.stack, hinner] at hstack
      cases hstack
    · exact .error
  · obtain ⟨⟨kind, found⟩, outer, outer', hinner, hinner', hblank, houter⟩ := h.top
    unfold nextArm
    rw [hinner, hinner']
    cases kind with
    | case subject arms current =>
      dsimp only [OpenBlock.inlined, OpenKind.inlined]
      cases current with
      | some label =>
        have hturned := houter.opened (.case subject (.mk label found.reverse :: arms) (some next))
        rw [OpenKind.inlined, List.map_cons, Arm.inlined, ← reverse_inlinedFound] at hturned
        exact .ok ⟨{ h with stack := hturned }, d.idx, d'.idx, hM, rfl, rfl⟩
      | none =>
        dsimp only
        by_cases hfirst : isBlankBody (inlinedFound b.fold found) = true
        · have hfirst' : isBlankBody found = true := hblank subject arms rfl hfirst
          rw [hfirst, hfirst']
          simp only [Bool.not_true, Bool.false_eq_true, if_false]
          split
          · exact .error
          · have hturned := houter.opened (.case subject arms (some next))
            exact .ok ⟨{ h with stack := hturned }, d.idx, d'.idx, hM, rfl, rfl⟩
        · rw [if_pos (by simpa using hfirst)]
          exact .error
    | _ => exact .error

theorem armWhen_abreast (hb : b.Lasting) (name : tag.name = "when")
    (needs : ∀ base ∈ (Token.tag tag).operands, d'.scope.needed base = d.scope.needed base) :
    Follows (b.Leads M k) (armWhen env tag d) (armWhen env' { tag with pos } d') := by
  have hneeded : ∀ base ∈ partsOf ',' tag.head, d'.scope.needed base = d.scope.needed base :=
    fun base hbase => needs base (by simpa [Token.operands, name] using hbase)
  unfold armWhen
  obtain ⟨values, e, e', hp, hp', habreast, hnotes, hnotes'⟩ :=
    h.pipelines env env' hb hneeded
  dsimp only
  rw [hp, hp']
  rw [← hnotes.idx, ← hnotes'.idx] at hM
  exact .guard fun _ => (nextArm_abreast habreast hM hk _).bind fun _ _ hleads => .ok hleads

theorem armDefault_abreast :
    Follows (b.Leads M k) (armDefault env tag d) (armDefault env' { tag with pos } d') :=
  (nextArm_abreast h hM hk .default).bind fun _ _ hleads => .ok hleads

end

/-- At the base there is no block that a tag could close. -/
theorem close_ground (h : Abreast b 0 d d') (hroot : b.base.kind = .root) {block : OpenBlock}
    {e : Draft}
    (hclose : close env tag d = .ok (block, e)) : block.kind = .root := by
  obtain ⟨found, hstack⟩ := h.ground
  rw [hroot] at hstack
  unfold close Draft.closeBlock? at hclose
  cases hinner : d.inner with
  | nil =>
    rw [hinner] at hclose
    cases hclose
  | cons first outer =>
    rw [hinner] at hclose
    rw [Draft.stack, hinner] at hstack
    cases hclose
    obtain ⟨rfl, _⟩ := List.cons.inj hstack
    rfl

/-- The innermost block is taken off both drafts. -/
theorem close_abreast (env env' : DraftEnv) (tag : Tag) (pos : Pos) (h : Abreast b (k + 1) d d') :
    ∃ block outer outer',
    close env tag d = .ok (block.inlined b.fold, { d with inner := outer }) ∧
      close env' { tag with pos } d' = .ok (block, { d' with inner := outer' }) ∧
        b.Stacks k (outer ++ [d.root]) (outer' ++ [d'.root]) := by
  obtain ⟨block, outer, outer', hinner, hinner', _, houter⟩ := h.top
  refine ⟨block, outer, outer', ?_, ?_, houter⟩
  · rw [close, Draft.closeBlock?, hinner]
  · rw [close, Draft.closeBlock?, hinner']

/-- Behind the closing tag of the innermost block. -/
theorem closes_leads (kind : OpenKind) (hb : b.Lasting) (h : Abreast b (k + 1) d d')
    (hM : M d.idx d'.idx)
    {outer outer' : List OpenBlock}
    (houter : b.Stacks k (outer ++ [d.root]) (outer' ++ [d'.root]))
    {found : List Instruction} {i j : Instruction} (hi : kind.complete? found = some i)
    (hj : (kind.inlined b.fold).complete? (inlinedFound b.fold found) = some j) :
    b.Leads M k (({ d with inner := outer }.withScope Scope.destroy).emit j).advance
      (({ d' with inner := outer' }.withScope Scope.destroy).emit i).advance := by
  rw [Draft.advance_emit, Draft.advance_emit]
  exact ⟨(h.closes hb houter hi hj).skips _ _, d.idx, d'.idx, hM, rfl, rfl⟩

section

variable (hb : b.Lasting) (h : Abreast b k d d') (hM : M d.idx d'.idx)
  (hk : k ≠ 0 ∨ b.base.kind = .root)
include h hk

/-- What is done with a block that is closed is done in both drafts. -/
theorem closing_abreast {finish finish' : OpenBlock × Draft → Except Error Draft}
    (hroot : ∀ found e e', finish (⟨.root, found⟩, e) ≠ .ok e')
    (hfinish : ∀ j block outer outer', k = j + 1 →
      b.Stacks j (outer ++ [d.root]) (outer' ++ [d'.root]) →
      Follows (b.Leads M j) (finish (block.inlined b.fold, { d with inner := outer }))
        (finish' (block, { d' with inner := outer' }))) :
    Follows (b.Leads M (k - 1)) (close env tag d >>= finish)
      (close env' { tag with pos } d' >>= finish') := by
  obtain _ | k := k
  · intro e he
    cases hclose : close env tag d with
    | error _ =>
      rw [hclose] at he
      cases he
    | ok closed =>
      obtain ⟨⟨kind, found⟩, rest⟩ := closed
      obtain rfl := close_ground h (hk.resolve_left (fun h => h rfl)) hclose
      rw [hclose] at he
      exact absurd he (hroot found rest e)
  · obtain ⟨block, outer, outer', hclose, hclose', houter⟩ :=
      close_abreast env env' tag pos h
    rw [hclose, hclose']
    exact hfinish k block outer outer' rfl houter

include hb hM

theorem closeCondition_abreast :
    Follows (b.Leads M (k - 1)) (closeCondition env tag d)
      (closeCondition env' { tag with pos } d') := by
  refine closing_abreast h hk (fun _ _ _ h => by cases h) ?_
  rintro j ⟨kind, found⟩ outer outer' rfl houter
  cases kind with
  | condition kind branches current =>
    show Follows _ (if kind.closer ≠ tag.name then _ else _) (if kind.closer ≠ tag.name then _ else _)
    split
    · exact .error
    · cases current with
      | none =>
        exact .ok (closes_leads (.condition kind branches none) hb h hM houter rfl rfl)
      | some current =>
        exact .ok (closes_leads (.condition kind branches (some current)) hb h hM houter rfl rfl)
  | _ => exact .error

theorem closeCase_abreast :
    Follows (b.Leads M (k - 1)) (closeCase env tag d) (closeCase env' { tag with pos } d') := by
  refine closing_abreast h hk (fun _ _ _ h => by cases h) ?_
  rintro j ⟨kind, found⟩ outer outer' rfl houter
  cases kind with
  | case subject arms current =>
    cases current with
    | none => exact .error
    | some label =>
      exact .ok (closes_leads (.case subject arms (some label)) hb h hM houter rfl rfl)
  | _ => exact .error

theorem closeLoop_abreast :
    Follows (b.Leads M (k - 1)) (closeLoop env tag d) (closeLoop env' { tag with pos } d') := by
  refine closing_abreast h hk (fun _ _ _ h => by cases h) ?_
  rintro j ⟨kind, found⟩ outer outer' rfl houter
  cases kind with
  | loop binding iterable offset limit =>
    exact .ok (closes_leads (.loop binding iterable offset limit) hb h hM houter rfl rfl)
  | _ => exact .error

end

/-! ## Jumps and calls -/

section

variable (h : Abreast b k d d') (hM : M d.idx d'.idx)
include h hM

/-- A jump that is allowed inside some blocks. -/
theorem jump_abreast {p : OpenKind → Bool} (inside : d'.inside p = d.inside p) {i : Instruction}
    (hi : i.inlined b.fold = [i]) (reason : String) :
    Follows (b.Leads M k)
      (do
        if !d.inside p then misuse env tag reason
        return (d.emit i).advance)
      (do
        if !d'.inside p then misuse env' { tag with pos } reason
        return (d'.emit i).advance) := by
  dsimp only
  rw [inside]
  refine .guard fun _ => ?_
  rw [Draft.advance_emit, Draft.advance_emit]
  exact .ok ⟨(h.emits hi).skips _ _, d.idx, d'.idx, hM, rfl, rfl⟩

theorem callMixin_abreast (hb : b.Lasting) (name : TagRegistry.handlerName tag.name = "+")
    (needs : ∀ base ∈ (Token.tag tag).operands, d'.scope.needed base = d.scope.needed base) :
    Follows (b.Leads M k) (callMixin env tag d) (callMixin env' { tag with pos } d') := by
  rw [Token.operands_call name] at needs
  unfold callMixin
  obtain ⟨args, e, e', hp, hp', habreast, hnotes, hnotes'⟩ :=
    h.pipelines env env' hb needs
  dsimp only
  rw [hp, hp']
  have hcalled (calls calls' : List (String × Pos)) :
      Abreast b k { e with calls } { e' with calls := calls' } := { habreast with }
  dsimp only
  rw [Draft.advance_emit, Draft.advance_emit]
  exact .ok ⟨((hcalled _ _).emits rfl).skips _ _, d.idx, d'.idx, hM, congrArg (· + 1) hnotes.idx,
    congrArg (· + 1) hnotes'.idx⟩

end

end Handler

/-! ## Tokens -/

/-- The tags that go on with another branch or arm of an open block. -/
def turningTags : List String := ["elseif", "elsif", "else", "when", "default"]

/-- How many blocks are open behind a tag. -/
def Tag.depthBehind (tag : Tag) (k : Nat) : Nat :=
  if tag.name ∈ ["if", "unless", "case", "for"] then k + 1
  else if isCloser tag.name then k - 1
  else k

def Token.depthBehind (k : Nat) : Token → Nat
  | tag t => t.depthBehind k
  | _ => k

/-- What a tag needs to keep drafts abreast. -/
structure Suited (b : Bench) (M : Nat → Nat → Prop) (env env' : DraftEnv) (k : Nat) (d d' : Draft)
    (tag : Tag) (pos : Pos) : Prop where
  turns : isCloser tag.name = true ∨ tag.name ∈ turningTags → k ≠ 0 ∨ b.base.kind = .root
  binds : tag.name ∈ ["assign", "capture", "js"] → b.Binds k
  inside : tag.name ∈ ["break", "continue"] →
    ∀ p, (∀ kind, p (OpenKind.inlined b.fold kind) = p kind) → d'.inside p = d.inside p
  mixin : tag.name = "mixin" → Follows (b.Leads M k) (Handler.mixin env tag d)
    (Handler.mixin env' { tag with pos } d')
  block : tag.name = "block" → Follows (b.Leads M k) (Handler.block env tag d)
    (Handler.block env' { tag with pos } d')

namespace Handler

variable {b : Bench} {M : Nat → Nat → Prop} {k : Nat} {d d' : Draft} {env env' : DraftEnv} {tag : Tag}
  {pos : Pos}

/-- A call of a mixin leaves as many blocks open as before. -/
theorem depthBehind_plus (h : TagRegistry.handlerName tag.name = "+") : tag.depthBehind k = k := by
  have hne (word : String) (hword : TagRegistry.handlerName word ≠ "+") : tag.name ≠ word :=
    fun hname => hword (hname ▸ h)
  have hcloser : isCloser tag.name = false := by
    unfold TagRegistry.handlerName at h
    unfold isCloser
    split at h
    · next heq => rw [heq]; rfl
    · rw [h]; rfl
  rw [Tag.depthBehind, hcloser]
  simp only [List.mem_cons, List.not_mem_nil, hne "if" (by decide), hne "unless" (by decide),
    hne "case" (by decide), hne "for" (by decide), or_self, if_false, Bool.false_eq_true]

/-- Every built-in handler keeps drafts abreast. -/
theorem builtins_abreast (hb : b.Lasting) (h : Abreast b k d d')
    (hkinds : env.kinds = TagRegistry.builtin.kinds) (face : Facing M env env' d.idx d'.idx)
    (here : env.token? d.idx = some (.tag tag)) (suited : Suited b M env env' k d d' tag pos)
    (needs : ∀ base ∈ (Token.tag tag).operands, d'.scope.needed base = d.scope.needed base)
    (trim : tag.name ≠ "trim") : ∀ entry ∈ builtins, TagRegistry.handlerName tag.name = entry.1 →
      Follows (b.Leads M (tag.depthBehind k)) (entry.2 env tag d)
        (entry.2 env' { tag with pos } d') := by
  -- What is known of a tag by its name.
  have block {word : String} (h : tag.name = word) (hword : word ∈ blockTags) :
      env.kinds.isBlock tag.name = true := by
    rw [hkinds, h]
    exact mem_blockTags.2 hword
  have looked {word : String} (h : tag.name = word) (hword : word ∉ verbatimTags) :
      env.kinds.isVerbatim tag.name = false := by
    rw [hkinds, h]
    exact not_isVerbatim hword
  have verbatim {word : String} (h : tag.name = word) (hword : word ∈ verbatimTags) :
      env.kinds.isVerbatim tag.name = true := by
    rw [hkinds, h]
    exact mem_verbatimTags.2 hword
  have hM {word : String} (h : tag.name = word)
      (hword : word ∉ ["js", "mixin", "block"] ++ verbatimTags) : M d.idx d'.idx :=
    face.here fun other hother => by
      obtain rfl := Token.tag.inj (Option.some.inj (here.symm.trans hother))
      rw [h]
      exact hword
  have turning {word : String} (h : tag.name = word) (hword : word ∈ turningTags) :
      k ≠ 0 ∨ b.base.kind = .root := suited.turns (.inr (h ▸ hword))
  have closing {word : String} (h : tag.name = word) (hword : isCloser word = true) :
      k ≠ 0 ∨ b.base.kind = .root := suited.turns (.inl (h ▸ hword))
  have named {word : String} {n : Nat} {x y : Except Error Draft} (hplus : word ≠ "+")
      (hdepth : (if word ∈ ["if", "unless", "case", "for"] then k + 1
        else if isCloser word then k - 1 else k) = n)
      (hx : tag.name = word → Follows (b.Leads M n) x y)
      (h : TagRegistry.handlerName tag.name = word) :
      Follows (b.Leads M (tag.depthBehind k)) x y := by
    have name := handlerName_eq h hplus
    rw [Tag.depthBehind, name, hdepth]
    exact hx name
  have plus {x y : Except Error Draft} (hx : M d.idx d'.idx →
      TagRegistry.handlerName tag.name = "+" → Follows (b.Leads M k) x y)
      (h : TagRegistry.handlerName tag.name = "+") :
      Follows (b.Leads M (tag.depthBehind k)) x y := by
    have hnone : ∀ word ∈ ["js", "mixin", "block"] ++ verbatimTags,
        TagRegistry.handlerName word ≠ "+" := by decide
    rw [depthBehind_plus h]
    exact hx (hM rfl fun hmem => hnone _ hmem h) h
  simp only [builtins, List.forall_mem_cons]
  exact ⟨named (by decide) rfl fun name =>
      assign_abreast hb h (hM name (by decide)) (suited.binds (by simp [name])) name needs,
    named (by decide) rfl fun name =>
      capture_abreast h face (suited.binds (by simp [name])) here (verbatim name (by decide)),
    named (by decide) rfl fun name => raw_abreast h face here (verbatim name (by decide)),
    named (by decide) rfl fun name => comment_abreast h face here (verbatim name (by decide)),
    named (by decide) rfl fun name =>
      script_abreast h face (suited.binds (by simp [name])) here name (block name (by decide))
        (looked name (by decide)),
    named (by decide) rfl fun name =>
      openCondition_abreast hb h face (hM name (by decide)) here name (block name (by decide))
        (looked name (by decide)) needs,
    named (by decide) rfl fun name =>
      openCondition_abreast hb h face (hM name (by decide)) here name (block name (by decide))
        (looked name (by decide)) needs,
    named (by decide) rfl fun name =>
      elseIf_abreast h (hM name (by decide)) (turning name (by decide)) hb (.inl name) needs,
    named (by decide) rfl fun name =>
      elseIf_abreast h (hM name (by decide)) (turning name (by decide)) hb (.inr name) needs,
    named (by decide) rfl fun name =>
      otherwise_abreast h (hM name (by decide)) (turning name (by decide)) hb,
    named (by decide) rfl fun name =>
      closeCondition_abreast hb h (hM name (by decide)) (closing name rfl),
    named (by decide) rfl fun name =>
      closeCondition_abreast hb h (hM name (by decide)) (closing name rfl),
    named (by decide) rfl fun name =>
      openCase_abreast hb h face (hM name (by decide)) here name (block name (by decide))
        (looked name (by decide)) needs,
    named (by decide) rfl fun name =>
      armWhen_abreast h (hM name (by decide)) (turning name (by decide)) hb name needs,
    named (by decide) rfl fun name =>
      armDefault_abreast h (hM name (by decide)) (turning name (by decide)),
    named (by decide) rfl fun name =>
      closeCase_abreast hb h (hM name (by decide)) (closing name rfl),
    named (by decide) rfl fun name =>
      openLoop_abreast hb h face (hM name (by decide)) here name (block name (by decide))
        (looked name (by decide)) needs,
    named (by decide) rfl fun name =>
      closeLoop_abreast hb h (hM name (by decide)) (closing name rfl),
    named (by decide) rfl fun name =>
      jump_abreast h (hM name (by decide))
        (suited.inside (by simp [name]) _ fun kind => by cases kind <;> rfl) rfl _,
    named (by decide) rfl fun name =>
      jump_abreast h (hM name (by decide))
        (suited.inside (by simp [name]) _ fun kind => by cases kind <;> rfl) rfl _,
    named (by decide) rfl suited.mixin,
    plus fun hM name => callMixin_abreast h hM hb name needs,
    named (by decide) rfl suited.block,
    named (by decide) rfl fun name => absurd name trim,
    fun _ => .error,
    fun _ => .error,
    fun _ h' => by cases h'⟩

end Handler

/-- The draft with no trim pending. -/
def Draft.still (d : Draft) : Draft := { d with trimNext := false }

namespace Generator

variable {g g' : Generator} {b : Bench} {M : Nat → Nat → Prop} {k : Nat} {d d' : Draft}

/-- A token other than a trim keeps drafts abreast. -/
theorem handle_abreast {token : Token} {pos : Pos} (hg : g.IsBuiltin) (hg' : g'.IsBuiltin)
    (hb : b.Lasting) (h : Abreast b k d d') (face : Facing M g.env g'.env d.idx d'.idx)
    (here : g.env.token? d.idx = some token) (trim : Bool) (htrim : token.isTag "trim" = false)
    (suited : ∀ tag, token = .tag tag → Suited b M g.env g'.env k d d' tag pos)
    (needs : ∀ base ∈ token.operands, d'.scope.needed base = d.scope.needed base) :
    Follows (b.Leads M (token.depthBehind k)) (g.handle token trim d)
      (g'.handle (token.movedTo pos) trim d') := by
  have hM (hplain : ∀ tag, token ≠ .tag tag) : M d.idx d'.idx := face.here fun tag htag =>
    absurd (Option.some.inj (here.symm.trans htag)) (hplain tag)
  cases token with
  | raw text _ =>
    refine .ok ?_
    generalize (if trim then String.ofList (Text.trimLeft text.toList) else text) = written
    split
    · exact ⟨h.skips _ _, d.idx, d'.idx, hM nofun, rfl, rfl⟩
    · rw [Draft.advance_emit, Draft.advance_emit]
      exact ⟨(h.emits rfl).skips _ _, d.idx, d'.idx, hM nofun, rfl, rfl⟩
  | object expression calls source _ =>
    obtain ⟨p, e, e', hp, hp', habreast, hnotes, hnotes'⟩ :=
      h.pipeline g.env g'.env hb calls (needs expression List.mem_cons_self)
    unfold handle Token.movedTo
    dsimp only
    rw [hp, hp']
    dsimp only
    rw [Draft.advance_emit, Draft.advance_emit]
    exact .ok ⟨(habreast.emits rfl).skips _ _, d.idx, d'.idx, hM nofun,
      congrArg (· + 1) hnotes.idx, congrArg (· + 1) hnotes'.idx⟩
  | tag tag =>
    unfold handle Token.movedTo
    dsimp only
    rw [hg.registry, hg'.registry]
    cases hhandler : TagRegistry.builtin.get? tag.name with
    | none => exact .error
    | some handler =>
      obtain ⟨before, after, heq, _⟩ := List.lookup_eq_some_iff.1 hhandler
      have hmem : (TagRegistry.handlerName tag.name, handler) ∈ Handler.builtins := by
        rw [show Handler.builtins = before ++ (_, handler) :: after from heq]
        exact List.mem_append_right _ List.mem_cons_self
      have hname : tag.name ≠ "trim" := by simpa [Token.isTag] using htrim
      exact Handler.builtins_abreast hb h hg.kinds face here (suited tag rfl) needs hname _ hmem rfl

/-- A token keeps drafts abreast that are made without positions. Behind a trim, and only there, both
are about to trim a text. -/
theorem step_abreast {token : Token} {pos : Pos} (hg : g.IsBuiltin) (hg' : g'.IsBuiltin)
    (hplain : g.env.positions = false) (hplain' : g'.env.positions = false) (hb : b.Lasting)
    (h : Abreast b k d.still d'.still) (htrim : d'.trimNext = d.trimNext)
    (face : Facing M g.env g'.env d.idx d'.idx) (here : g.env.token? d.idx = some token)
    (suited : ∀ tag, token = .tag tag → Suited b M g.env g'.env k d.still d'.still tag pos)
    (needs : ∀ base ∈ token.operands, d'.scope.needed base = d.scope.needed base) :
    Follows (fun e e' => b.Leads M (token.depthBehind k) e.still e'.still ∧
      e.trimNext = token.isTag "trim" ∧ e'.trimNext = token.isTag "trim")
      (g.step token d) (g'.step (token.movedTo pos) d') := by
  have hmark {env : DraftEnv} (henv : env.positions = false) (d : Draft) (pos : Pos) :
      d.mark env pos = d := by
    rw [Draft.mark, henv]
    rfl
  unfold step
  rw [hmark hplain, hmark hplain', htrim]
  cases hname : token.isTag "trim" with
  | false =>
    refine (handle_abreast hg hg' hb h face here d.trimNext hname suited needs).mono ?_
    rintro e e' ⟨habreast, hidx⟩
    have hstill {d : Draft} (hd : d.trimNext = false) : d.still = d := by
      rw [Draft.still, ← hd]
    rw [hstill habreast.still, hstill habreast.still']
    exact ⟨⟨habreast, hidx⟩, habreast.still, habreast.still'⟩
  | true =>
    cases token with
    | raw | object => cases hname
    | tag tag =>
      have hname : tag.name = "trim" := by simpa [Token.isTag] using hname
      have hM : M d.idx d'.idx := face.here fun other hother => by
        obtain rfl := Token.tag.inj (Option.some.inj (here.symm.trans hother))
        rw [hname]
        decide
      have hdepth : Token.depthBehind k (.tag tag) = k := by
        rw [Token.depthBehind, Tag.depthBehind, hname]
        rfl
      unfold handle Token.movedTo
      dsimp only
      rw [hg.registry, hg'.registry, hname, hdepth]
      exact .ok ⟨⟨h.skips _ _, d.idx, d'.idx, hM, rfl, rfl⟩, rfl, rfl⟩

end Generator

end Stencil
