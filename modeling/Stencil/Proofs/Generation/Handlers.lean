import Stencil.Proofs.Generation.Effect

/-!
# What the built-in handlers do

* `Handler.*_settles`: every built-in handler has an effect (`Effect`) or fails for a reason of its
  own. The closing tags have to know that they close the innermost block.
* `builtin_settles`: so has whatever handler the built-in registry gives for a tag.
-/

namespace Stencil

namespace Handler

variable {env : DraftEnv} {tag : Tag} {d : Draft}

/-! ## Names and texts -/

theorem assign_settles (here : env.token? d.idx = some (.tag tag)) (name : tag.name = "assign") :
    Settles (Effect env d) (assign env tag d) := by
  unfold assign
  cases reads : AssignmentHead.ofHead? tag.head with
  | none => exact misuse_settles ..
  | some head =>
    refine .guard (fun _ => refuse_settles rfl env tag) fun hvalid => ?_
    have hvalid : isVariableName head.name = true := by simpa using hvalid
    obtain ⟨p, d₁, hp, hnotes, hmakes, _⟩ := Draft.pipeline_notes env d head.value tag.filters
    have heffect := Effect.declares (f := (·.add head.name)) hnotes
      (.assign here name reads hvalid hmakes) rfl
    rw [hp]
    dsimp only [Draft.declare]
    rw [hnotes.scope, Draft.advance_emit]
    exact .ok (hnotes.idx ▸ heffect)

theorem capture_settles (here : env.token? d.idx = some (.tag tag)) (name : tag.name = "capture") :
    Settles (Effect env d) (capture env tag d) := by
  unfold capture
  refine .guard (fun _ => refuse_settles rfl env tag) fun hvalid => ?_
  refine .bind (verbatimEnd_settles env d tag) fun stop hstop => ?_
  have hvalid : isVariableName tag.head = true := by simpa using hvalid
  exact .ok (Effect.declares (.refl d) (.capture here name hvalid hstop) rfl)

theorem raw_settles (here : env.token? d.idx = some (.tag tag)) (name : tag.name = "raw") :
    Settles (Effect env d) (raw env tag d) := by
  unfold raw
  refine .bind (verbatimEnd_settles env d tag) fun stop hstop => ?_
  have hleaf := Leaf.raw (L := (· ∈ d.locals)) (σ := d.scope) here name hstop
  by_cases hempty : (env.sourceBetween (d.idx + 1) stop).isEmpty = true
  · rw [if_pos hempty] at hleaf
    dsimp only
    rw [if_pos hempty]
    exact .ok (Effect.skips (.refl d) hleaf)
  · rw [if_neg hempty] at hleaf
    dsimp only
    rw [if_neg hempty]
    exact .ok (Effect.emits (.refl d) hleaf rfl)

theorem comment_settles (here : env.token? d.idx = some (.tag tag)) (name : tag.name = "comment") :
    Settles (Effect env d) (comment env tag d) := by
  unfold comment
  refine .bind (verbatimEnd_settles env d tag) fun stop hstop => ?_
  exact .ok (Effect.skips (.refl d) (.comment here name hstop))

theorem script_settles (here : env.token? d.idx = some (.tag tag)) (name : tag.name = "js") :
    Settles (Effect env d) (script env tag d) := by
  unfold script
  refine .bind (findTag_settles env d "endjs") fun stop hstop => ?_
  refine .ok (Effect.declares (.refl d) (.script here name hstop) ?_)
  simp [Scope.behind, Instruction.binds]

/-! ## Conditions -/

theorem openCondition_settles {kind : ConditionKind} (here : env.token? d.idx = some (.tag tag))
    (name : tag.name = kind.opener) : Settles (Effect env d) (openCondition kind env tag d) := by
  unfold openCondition
  refine .bind (findTag_settles env d kind.closer) fun stop hstop => ?_
  refine .bind (requireHead_settles env tag _) fun _ _ => ?_
  obtain ⟨p, d₁, hp, hnotes, hmakes, _⟩ := Draft.pipeline_notes env d tag.head tag.filters
  rw [hp]
  exact .ok (Effect.opens hnotes here name (.condition here name hmakes) hstop rfl)

/-- The next branch is started, whatever was noted before. -/
theorem nextBranch_settles {d₁ : Draft} {next : Option (Pipeline × Bool)}
    {allowed : List ConditionKind} (h : d.Notes d₁)
    (turns : ∀ found kind branches p negated, kind ∈ allowed →
      Turns env (· ∈ d₁.locals) d.scope d.idx found (.condition kind branches (some (p, negated)))
        (.condition kind (.mk p negated found.reverse :: branches) next)) :
    Settles (Effect env d) (nextBranch env tag next allowed d₁) := by
  unfold nextBranch
  split
  · next kind branches current found outer hinner =>
    split
    · exact misplaced_settles rfl env d₁
    · next hallowed =>
      have hkind : kind ∈ allowed := by simpa using hallowed
      split
      · exact misplaced_settles rfl env d₁
      · exact .ok (Effect.turns h hinner (turns _ _ _ _ _ hkind) rfl)
  · exact misplaced_settles rfl env d₁

theorem elseIf_settles (here : env.token? d.idx = some (.tag tag))
    (name : tag.name = "elseif" ∨ tag.name = "elsif") :
    Settles (Effect env d) (elseIf env tag d) := by
  unfold elseIf
  refine .bind (requireHead_settles env tag "a condition is required") fun _ _ => ?_
  obtain ⟨p, d₁, hp, hnotes, hmakes, _⟩ := Draft.pipeline_notes env d tag.head tag.filters
  rw [hp]
  dsimp only
  refine nextBranch_settles hnotes fun found kind branches p negated hkind => ?_
  obtain rfl : kind = .ifTrue := by simpa using hkind
  exact .elseIf here name hmakes

theorem otherwise_settles (here : env.token? d.idx = some (.tag tag)) (name : tag.name = "else") :
    Settles (Effect env d) (otherwise env tag d) :=
  nextBranch_settles (.refl d) fun _ _ _ _ _ _ => .otherwise here name

/-! ## Cases -/

theorem openCase_settles (here : env.token? d.idx = some (.tag tag)) (name : tag.name = "case") :
    Settles (Effect env d) (openCase env tag d) := by
  unfold openCase
  refine .bind (findTag_settles env d "endcase") fun stop hstop => ?_
  refine .bind (requireHead_settles env tag _) fun _ _ => ?_
  obtain ⟨p, d₁, hp, hnotes, hmakes, _⟩ := Draft.pipeline_notes env d tag.head tag.filters
  rw [hp]
  exact .ok (Effect.opens hnotes here name (.case here name hmakes) hstop rfl)

/-- The next arm is started, whatever was noted before. -/
theorem nextArm_settles {d₁ : Draft} {next : ArmLabel} (h : d.Notes d₁)
    (labels : Labels env (· ∈ d₁.locals) d.scope d.idx next) :
    Settles (fun d' => Effect env d d'.advance) (nextArm env tag next d₁) := by
  unfold nextArm
  split
  · next subject arms current found outer hinner =>
    split
    · exact .ok (Effect.turns (f := id) h hinner (.arm labels) rfl)
    · split
      · exact misplaced_settles rfl env d₁
      · next hblank =>
        have hblank : isBlankBody found = true := by simpa using hblank
        split
        · exact misplaced_settles rfl env d₁
        · exact .ok (Effect.turns (f := id) h hinner (.firstArm hblank labels) rfl)
  · exact misplaced_settles rfl env d₁

theorem armWhen_settles (here : env.token? d.idx = some (.tag tag)) (name : tag.name = "when") :
    Settles (Effect env d) (armWhen env tag d) := by
  unfold armWhen
  obtain ⟨values, d₁, hvalues, hnotes, hmakes⟩ :=
    Draft.pipelines_notes env d (partsOf ',' tag.head)
  rw [hvalues]
  refine .guard (fun _ => misuse_settles ..) fun hsome => ?_
  have hsome : values.isEmpty = false := by simpa using hsome
  exact .bind (nextArm_settles hnotes (.values here name hmakes hsome)) fun _ hd => .ok hd

theorem armDefault_settles (here : env.token? d.idx = some (.tag tag))
    (name : tag.name = "default") : Settles (Effect env d) (armDefault env tag d) := by
  unfold armDefault
  exact .bind (nextArm_settles (.refl d) (.default here name)) fun _ hd => .ok hd

/-! ## Loops -/

theorem loopBound_settles (env : DraftEnv) (tag : Tag) (word : String) :
    Settles (fun bound => loopBound env tag word = .ok bound) (loopBound env tag word) := by
  unfold loopBound
  split
  · exact .ok rfl
  · split
    · exact .ok rfl
    · exact refuse_settles rfl env tag

theorem loopBinding_settles (env : DraftEnv) (tag : Tag) (text : String) :
    Settles (fun binding => LoopBinding.ofText text = .ok binding) (loopBinding env tag text) := by
  unfold loopBinding
  split
  · next h => exact .ok h
  · exact refuse_settles rfl env tag
  · exact refuse_settles rfl env tag

theorem loopIterable_notes (env : DraftEnv) (d : Draft) (text : String) (calls : List FilterCall) :
    ∃ iterable d', loopIterable env d text calls = (iterable, d') ∧ d.Notes d' ∧
      RunsOver (· ∈ d'.locals) d.scope text calls iterable := by
  unfold loopIterable
  split
  · next first second hbounds =>
    obtain ⟨start, d₁, hfirst, hnotes, hstart, _⟩ := Draft.pipeline_notes env d first []
    obtain ⟨stop, d₂, hsecond, hnotes', hstop, _⟩ := Draft.pipeline_notes env d₁ second []
    rw [hnotes.scope] at hstop
    refine ⟨.range start stop, d₂, by simp only [hfirst, hsecond], hnotes.trans hnotes', ?_⟩
    exact .range hbounds (hstart.mono hnotes'.locals) hstop
  · next hbounds =>
    obtain ⟨p, d₁, hp, hnotes, hmakes, _⟩ := Draft.pipeline_notes env d text calls
    exact ⟨.pipeline p, d₁, by rw [hp], hnotes, .pipeline hbounds hmakes⟩

theorem openLoop_settles (here : env.token? d.idx = some (.tag tag)) (name : tag.name = "for") :
    Settles (Effect env d) (openLoop env tag d) := by
  unfold openLoop
  refine .bind (findTag_settles env d "endfor") fun stop hstop => ?_
  cases reads : LoopHead.ofHead? tag.head with
  | none => exact refuse_settles rfl env tag
  | some head =>
    refine .guard (fun _ => refuse_settles rfl env tag) fun _ => ?_
    refine .bind (loopBinding_settles env tag head.binding) fun binding hbinding => ?_
    refine .bind (loopBound_settles env tag "offset") fun offset hoffset => ?_
    refine .bind (loopBound_settles env tag "limit") fun limit hlimit => ?_
    obtain ⟨iterable, d₁, hiterable, hnotes, hover⟩ := loopIterable_notes env d head.iterable
      (tag.filters.filter (!isLoopBound ·))
    dsimp only
    rw [hiterable]
    exact .ok (Effect.opens hnotes here name
      (.loop here name reads hbinding hoffset hlimit hover) hstop rfl)

theorem breakOut_settles (here : env.token? d.idx = some (.tag tag)) (name : tag.name = "break") :
    Settles (Effect env d) (breakOut env tag d) := by
  unfold breakOut
  refine .guard (fun _ => misuse_settles ..) fun _ => ?_
  rw [Draft.advance_emit]
  exact .ok (Effect.emits (.refl d) (.break here name) rfl)

theorem goOn_settles (here : env.token? d.idx = some (.tag tag)) (name : tag.name = "continue") :
    Settles (Effect env d) (goOn env tag d) := by
  unfold goOn
  refine .guard (fun _ => misuse_settles ..) fun _ => ?_
  rw [Draft.advance_emit]
  exact .ok (Effect.emits (.refl d) (.continue here name) rfl)

/-! ## Mixins and blocks -/

theorem mixin_settles (here : env.token? d.idx = some (.tag tag)) (name : tag.name = "mixin") :
    Settles (Effect env d) (mixin env tag d) := by
  unfold mixin
  split
  · exact misuse_settles ..
  · next called texts hwords =>
    refine .guard (fun _ => refuse_settles rfl env tag) fun _ => ?_
    dsimp only
    split
    · exact refuse_settles rfl env tag
    · refine .bind (findTag_settles env d "endmixin") fun stop hstop => .ok ?_
      exact (Effect.skips (.refl d) (.mixin here name hstop)).defersMixin
        ⟨here, name, by rw [blockName?, hwords, List.head?_cons], rfl, hstop, .inl rfl, .inl rfl⟩

theorem callMixin_settles (here : env.token? d.idx = some (.tag tag))
    (name : TagRegistry.handlerName tag.name = "+") :
    Settles (Effect env d) (callMixin env tag d) := by
  unfold callMixin
  obtain ⟨args, d₁, hargs, hnotes, hmakes⟩ := Draft.pipelines_notes env d (partsOf ' ' tag.head)
  rw [hargs]
  dsimp only
  rw [Draft.advance_emit]
  have hnotes' : d.Notes
      { d₁ with calls := (.ofList (tag.name.toList.drop 1), tag.pos) :: d₁.calls } :=
    hnotes.trans ⟨rfl, rfl, rfl, rfl, rfl, rfl, fun _ h => h, fun _ h => h⟩
  have heffect := Effect.emits hnotes' (.callMixin here name hmakes) rfl
  exact .ok (hnotes.idx ▸ heffect)

theorem block_settles (here : env.token? d.idx = some (.tag tag)) (name : tag.name = "block") :
    Settles (Effect env d) (block env tag d) := by
  unfold block
  split
  · exact misuse_settles ..
  · next called reads =>
    refine .bind (findTag_settles env d "endblock") fun stop hstop => ?_
    generalize hsite : (env.sites.get? called).getD (d.idx, d.idx) = site
    obtain ⟨first, last⟩ := site
    have heffect : Effect env d
        ((if d.idx = first then d.emit (.callBlock called) else d).skipTo (stop + 1)) := by
      split
      · exact .emits (.refl d) (.block here name reads (.inr rfl) hstop) rfl
      · exact .skips (.refl d) (.block here name reads (.inl rfl) hstop)
    dsimp only
    split
    · next hlast =>
      have hlast : ((env.sites.get? called).getD (d.idx, d.idx)).2 = d.idx := by
        rw [hsite]
        exact hlast.symm
      exact .ok (heffect.defersBlock
        ⟨here, name, reads, rfl, hstop, .inr rfl, .inr hlast⟩)
    · exact .ok heffect

theorem trim_settles (here : env.token? d.idx = some (.tag tag)) (name : tag.name = "trim") :
    Settles (Effect env d) (trim env tag d) := by
  have hnotes : d.Notes { d with trimNext := true } :=
    ⟨rfl, rfl, rfl, rfl, rfl, rfl, fun _ h => h, fun _ h => h⟩
  exact .ok (Effect.skips hnotes (.trim here name))

/-! ## Closing tags -/

/-- The tag closes the innermost block if it is a closing tag. -/
def Closes (tag : Tag) (d : Draft) : Prop :=
  ∀ block outer, d.inner = block :: outer → tag.name = closerOf block.kind.opener

/-- A closing tag closes the innermost block, or nothing is open. -/
theorem close_settles (closes : Closes tag d) (hname : tag.name ≠ "end") :
    Settles (fun (block, d') => ∃ outer, d.inner = block :: outer ∧ d' = { d with inner := outer } ∧
      tag.name = closerOf block.kind.opener) (close env tag d) := by
  unfold close Draft.closeBlock?
  cases hinner : d.inner with
  | nil =>
    refine misplaced_settles ?_ env d
    simpa [NestingFault.isLate] using hname
  | cons block outer => exact .ok ⟨outer, rfl, rfl, closes block outer hinner⟩

theorem closeCondition_settles (here : env.token? d.idx = some (.tag tag)) (closes : Closes tag d)
    (name : tag.name = "endif" ∨ tag.name = "endunless") :
    Settles (Effect env d) (closeCondition env tag d) := by
  unfold closeCondition
  refine .bind (close_settles closes (by rcases name with h | h <;> rw [h] <;> decide)) ?_
  rintro ⟨⟨kind, content⟩, d'⟩ ⟨outer, hinner, rfl, hcloser⟩
  cases kind with
  | condition kind branches current =>
    have hkind : kind.closer = tag.name := hcloser.symm
    dsimp only
    rw [if_neg (not_not_intro hkind)]
    cases current with
    | none => exact .ok (Effect.closes hinner here hcloser rfl)
    | some current => exact .ok (Effect.closes hinner here hcloser rfl)
  | root => rcases name with h | h <;> simp [h, closerOf, OpenKind.opener] at hcloser
  | case => rcases name with h | h <;> simp [h, closerOf, OpenKind.opener] at hcloser
  | loop => rcases name with h | h <;> simp [h, closerOf, OpenKind.opener] at hcloser

theorem closeCase_settles (here : env.token? d.idx = some (.tag tag)) (closes : Closes tag d)
    (name : tag.name = "endcase") : Settles (Effect env d) (closeCase env tag d) := by
  unfold closeCase
  refine .bind (close_settles closes (by rw [name]; decide)) ?_
  rintro ⟨⟨kind, content⟩, d'⟩ ⟨outer, hinner, rfl, hcloser⟩
  cases kind with
  | case subject arms current =>
    cases current with
    | none => exact misplaced_settles rfl env _
    | some label => exact .ok (Effect.closes hinner here hcloser rfl)
  | root => simp [name, closerOf, OpenKind.opener] at hcloser
  | condition kind =>
    cases kind <;> simp [name, closerOf, OpenKind.opener, ConditionKind.opener] at hcloser
  | loop => simp [name, closerOf, OpenKind.opener] at hcloser

theorem closeLoop_settles (here : env.token? d.idx = some (.tag tag)) (closes : Closes tag d)
    (name : tag.name = "endfor") : Settles (Effect env d) (closeLoop env tag d) := by
  unfold closeLoop
  refine .bind (close_settles closes (by rw [name]; decide)) ?_
  rintro ⟨⟨kind, content⟩, d'⟩ ⟨outer, hinner, rfl, hcloser⟩
  cases kind with
  | loop => exact .ok (Effect.closes hinner here hcloser rfl)
  | root => simp [name, closerOf, OpenKind.opener] at hcloser
  | condition kind =>
    cases kind <;> simp [name, closerOf, OpenKind.opener, ConditionKind.opener] at hcloser
  | case => simp [name, closerOf, OpenKind.opener] at hcloser

/-! ## The registry -/

theorem handlerName_eq {name word : String} (h : TagRegistry.handlerName name = word)
    (hword : word ≠ "+") : name = word := by
  unfold TagRegistry.handlerName at h
  split at h
  · exact absurd h.symm hword
  · exact h

/-- Every built-in handler has an effect on the draft at its tag. -/
theorem builtins_settle (here : env.token? d.idx = some (.tag tag))
    (closes : isCloser tag.name = true → Closes tag d) :
    ∀ entry ∈ builtins, TagRegistry.handlerName tag.name = entry.1 →
      Settles (Effect env d) (entry.2 env tag d) := by
  have named {word : String} (hword : word ≠ "+") (h : TagRegistry.handlerName tag.name = word) :
      tag.name = word := handlerName_eq h hword
  have closing {word : String} (hword : isCloser word = true) (h : tag.name = word) :
      Closes tag d := closes (h ▸ hword)
  simp only [builtins, List.forall_mem_cons]
  exact ⟨fun h => assign_settles here (named (by decide) h),
    fun h => capture_settles here (named (by decide) h),
    fun h => raw_settles here (named (by decide) h),
    fun h => comment_settles here (named (by decide) h),
    fun h => script_settles here (named (by decide) h),
    fun h => openCondition_settles here (named (by decide) h),
    fun h => openCondition_settles here (named (by decide) h),
    fun h => elseIf_settles here (.inl (named (by decide) h)),
    fun h => elseIf_settles here (.inr (named (by decide) h)),
    fun h => otherwise_settles here (named (by decide) h),
    fun h => have h := named (by decide) h
      closeCondition_settles here (closing rfl h) (.inl h),
    fun h => have h := named (by decide) h
      closeCondition_settles here (closing rfl h) (.inr h),
    fun h => openCase_settles here (named (by decide) h),
    fun h => armWhen_settles here (named (by decide) h),
    fun h => armDefault_settles here (named (by decide) h),
    fun h => have h := named (by decide) h
      closeCase_settles here (closing rfl h) h,
    fun h => openLoop_settles here (named (by decide) h),
    fun h => have h := named (by decide) h
      closeLoop_settles here (closing rfl h) h,
    fun h => breakOut_settles here (named (by decide) h),
    fun h => goOn_settles here (named (by decide) h),
    fun h => mixin_settles here (named (by decide) h),
    fun h => callMixin_settles here h,
    fun h => block_settles here (named (by decide) h),
    fun h => trim_settles here (named (by decide) h),
    fun _ => misuse_settles ..,
    fun _ => misuse_settles ..,
    fun _ h => by cases h⟩

end Handler

/-- Whatever handler the built-in registry gives for a tag has an effect on the draft there. -/
theorem builtin_settles {env : DraftEnv} {tag : Tag} {d : Draft} {handler : TagHandler}
    (here : env.token? d.idx = some (.tag tag))
    (closes : isCloser tag.name = true → Handler.Closes tag d)
    (h : TagRegistry.builtin.get? tag.name = some handler) :
    Settles (Effect env d) (handler env tag d) := by
  have hmem : (TagRegistry.handlerName tag.name, handler) ∈ Handler.builtins := by
    obtain ⟨before, after, heq, _⟩ := List.lookup_eq_some_iff.1 h
    have heq : Handler.builtins = before ++ (TagRegistry.handlerName tag.name, handler) :: after := heq
    rw [heq]
    exact List.mem_append_right _ List.mem_cons_self
  exact Handler.builtins_settle here closes _ hmem rfl

end Stencil
