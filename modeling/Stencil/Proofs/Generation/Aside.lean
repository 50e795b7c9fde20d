import Stencil.Proofs.Generation.Noted

/-!
# What tokens leave aside

A draft keeps the calls of mixins, the definitions of mixins, the warnings and whether the next text
is trimmed, each for one kind of tags only. Every other token leaves them as they are
(`Draft.Aside`), and none of them depends on the stack or on the scope.

* `Handler.Works.aside`: noting and moving leave them alone, so only three of the built-in handlers do
  not.
* `Generator.step_learns`: what a token makes of them (`Learns`).
-/

namespace Stencil

/-! ## Calls of mixins -/

/-- The mixin is called in a body, however deep. -/
def CallsMixin (name : String) (body : List Instruction) : Prop :=
  ∃ args, Occurs (.callMixin name args) body

/-- The mixin is called in an open block: where it is being filled, or in a body that is complete. -/
inductive OpenBlock.CallsMixin (b : OpenBlock) (name : String) : Prop where
  | found (calls : Stencil.CallsMixin name b.found)
  | inside {inner : List Instruction} (mem : inner ∈ b.kind.bodies)
      (calls : Stencil.CallsMixin name inner)

/-- The mixin is called in one of the open blocks. -/
def Draft.CallsMixin (d : Draft) (name : String) : Prop := ∃ b ∈ d.stack, b.CallsMixin name

section

variable {name : String} {body more : List Instruction} {i : Instruction} {kind next : OpenKind}
  {found : List Instruction} {d : Draft}

theorem CallsMixin.not_nil : ¬ CallsMixin name [] := by
  rintro ⟨_, hoccurs⟩
  cases hoccurs with
  | here mem | inside mem => exact List.not_mem_nil mem

theorem CallsMixin.cons (h : CallsMixin name (i :: body)) :
    CallsMixin name [i] ∨ CallsMixin name body := by
  obtain ⟨args, hoccurs⟩ := h
  have hparts : Occurs (.callMixin name args) ([i] ++ body) := hoccurs
  exact hparts.append.imp (⟨args, ·⟩) (⟨args, ·⟩)

theorem CallsMixin.of_reverse (h : CallsMixin name body.reverse) : CallsMixin name body := by
  obtain ⟨args, hoccurs⟩ := h
  exact ⟨args, hoccurs.of_reverse⟩

theorem Instruction.not_calls (h : i.isSilent = true) : ¬ CallsMixin name [i] := by
  have hblock : i.isBlock = false := by cases i <;> first | rfl | cases h
  rintro ⟨args, hoccurs⟩
  cases hoccurs with
  | here mem =>
    obtain rfl := List.mem_singleton.1 mem
    cases h
  | inside mem within =>
    obtain rfl := List.mem_singleton.1 mem
    rw [Instruction.bodies_eq_nil hblock] at within
    exact List.not_mem_nil within

theorem CallsMixin.of_callMixin {called : String} {args : List Pipeline}
    (h : CallsMixin name [.callMixin called args]) : name = called := by
  obtain ⟨_, hoccurs⟩ := h
  cases hoccurs with
  | here mem => exact (Instruction.callMixin.inj (List.mem_singleton.1 mem)).1
  | inside mem within =>
    obtain rfl := List.mem_singleton.1 mem
    exact absurd within List.not_mem_nil

/-- A position calls nothing. -/
theorem CallsMixin.of_markIn {pos : Pos} (h : CallsMixin name (Draft.markIn pos body)) :
    CallsMixin name body := by
  unfold Draft.markIn at h
  split at h
  · obtain ⟨args, hoccurs⟩ := h.cons.resolve_left (Instruction.not_calls rfl)
    exact ⟨args, hoccurs.mono fun _ hy => List.mem_cons_of_mem _ hy⟩
  · exact h.cons.resolve_left (Instruction.not_calls rfl)

/-- What is called in a block that is complete, was called in it before. -/
theorem OpenKind.calls_complete (h : kind.complete? found = some i) (hcalls : CallsMixin name [i]) :
    (OpenBlock.mk kind found).CallsMixin name := by
  obtain ⟨args, hoccurs⟩ := hcalls
  cases hoccurs with
  | here mem =>
    obtain rfl := List.mem_singleton.1 mem
    unfold OpenKind.complete? at h
    split at h <;> cases h
  | inside mem within occurs =>
    obtain rfl := List.mem_singleton.1 mem
    rcases (OpenKind.mem_bodies h).1 within with hinner | rfl
    · exact .inside hinner ⟨args, occurs⟩
    · exact .found ⟨args, occurs.of_reverse⟩

theorem Draft.callsMixin_iff :
    d.CallsMixin name ↔ d.top.CallsMixin name ∨ ∃ b ∈ d.stack.tail, b.CallsMixin name := by
  unfold Draft.CallsMixin
  conv => lhs; rw [d.stack_eq]
  exact List.exists_mem_cons_iff ..

theorem Draft.callsMixin_setTop {b : OpenBlock} : (d.setTop b).CallsMixin name ↔
    b.CallsMixin name ∨ ∃ b ∈ d.stack.tail, b.CallsMixin name := by
  unfold Draft.CallsMixin
  rw [Draft.stack_setTop]
  exact List.exists_mem_cons_iff ..

/-- An instruction adds its own calls. -/
theorem Draft.CallsMixin.of_emit (h : (d.emit i).CallsMixin name) :
    Stencil.CallsMixin name [i] ∨ d.CallsMixin name := by
  rcases Draft.callsMixin_setTop.1 h with htop | hrest
  · cases htop with
    | found calls =>
      exact calls.cons.imp_right fun hcalls => Draft.callsMixin_iff.2 (.inl (.found hcalls))
    | inside mem calls => exact .inr (Draft.callsMixin_iff.2 (.inl (.inside mem calls)))
  · exact .inr (Draft.callsMixin_iff.2 (.inr hrest))

/-- The next branch or arm of a block calls what was called in the one before. -/
theorem Draft.callsMixin_turns {outer : List OpenBlock} (hinner : d.inner = ⟨kind, found⟩ :: outer)
    (hnext : ∀ inner ∈ next.bodies, inner ∈ kind.bodies ∨ inner = found.reverse)
    (h : Draft.CallsMixin { d with inner := ⟨next, []⟩ :: outer } name) : d.CallsMixin name := by
  unfold Draft.CallsMixin Draft.stack
  rw [hinner]
  rcases List.exists_mem_cons_iff .. |>.1 h with hblock | ⟨b, hb, hcalls⟩
  · refine ⟨_, List.mem_cons_self, ?_⟩
    cases hblock with
    | found calls => exact absurd calls CallsMixin.not_nil
    | inside mem calls =>
      rcases hnext _ mem with hinner | rfl
      · exact .inside hinner calls
      · exact .found calls.of_reverse
  · exact ⟨b, List.mem_cons_of_mem _ hb, hcalls⟩

end

/-! ## Drafts -/

namespace Draft

/-- Calls, definitions of mixins, warnings and the trim of the next text are as before, and so are the
calls in open blocks. -/
structure Aside (d d' : Draft) : Prop where
  calls : d'.calls = d.calls
  mixins : d'.mixins = d.mixins
  warnings : d'.warnings = d.warnings
  trimNext : d'.trimNext = d.trimNext
  called : ∀ name, d'.CallsMixin name → d.CallsMixin name

theorem setTop_eq (d : Draft) (b : OpenBlock) : (d.setTop b).calls = d.calls ∧
    (d.setTop b).mixins = d.mixins ∧ (d.setTop b).warnings = d.warnings ∧
    (d.setTop b).trimNext = d.trimNext := by
  unfold setTop
  split <;> exact ⟨rfl, rfl, rfl, rfl⟩

namespace Aside

variable {d d₁ d₂ : Draft} {kind next : OpenKind} {found : List Instruction}
  {outer : List OpenBlock} {i : Instruction}

theorem refl (d : Draft) : d.Aside d := ⟨rfl, rfl, rfl, rfl, fun _ h => h⟩

theorem trans (h : d.Aside d₁) (h' : d₁.Aside d₂) : d.Aside d₂ :=
  ⟨h'.calls.trans h.calls, h'.mixins.trans h.mixins, h'.warnings.trans h.warnings,
    h'.trimNext.trans h.trimNext, fun name hname => h.called name (h'.called name hname)⟩

theorem skipTo (h : d.Aside d₁) (idx : Nat) : d.Aside (d₁.skipTo idx) :=
  ⟨h.calls, h.mixins, h.warnings, h.trimNext, h.called⟩

theorem advance (h : d.Aside d₁) : d.Aside d₁.advance := h.skipTo _

theorem withScope (h : d.Aside d₁) (f : Scope → Scope) : d.Aside (d₁.withScope f) :=
  ⟨h.calls, h.mixins, h.warnings, h.trimNext, h.called⟩

theorem blocks (h : d.Aside d₁) (blocks : Table Deferred) : d.Aside { d₁ with blocks } :=
  ⟨h.calls, h.mixins, h.warnings, h.trimNext, h.called⟩

theorem setTop (h : d.Aside d₁) {b : OpenBlock}
    (hb : ∀ name, (d₁.setTop b).CallsMixin name → d.CallsMixin name) : d.Aside (d₁.setTop b) := by
  obtain ⟨hcalls, hmixins, hwarnings, htrim⟩ := setTop_eq d₁ b
  exact ⟨hcalls.trans h.calls, hmixins.trans h.mixins, hwarnings.trans h.warnings,
    htrim.trans h.trimNext, hb⟩

/-- An instruction is added that calls nothing new. -/
theorem emit (h : d.Aside d₁) (hi : ∀ name, Stencil.CallsMixin name [i] → d.CallsMixin name) :
    d.Aside (d₁.emit i) :=
  h.setTop fun name hname => (CallsMixin.of_emit hname).elim (hi name) (h.called name)

theorem emits (h : d.Aside d₁) (hi : i.isSilent = true) : d.Aside (d₁.emit i) :=
  h.emit fun _ hname => absurd hname (Instruction.not_calls hi)

theorem mark (h : d.Aside d₁) (env : DraftEnv) (pos : Pos) : d.Aside (d₁.mark env pos) := by
  unfold Draft.mark
  split
  · refine h.setTop fun name hname => h.called name (callsMixin_iff.2 ?_)
    refine (callsMixin_setTop.1 hname).imp_left fun htop => ?_
    cases htop with
    | found calls => exact .found calls.of_markIn
    | inside mem calls => exact .inside mem calls
  · exact h

/-- A block is opened. -/
theorem openBlock (h : d.Aside d₁) (hkind : kind.bodies = []) : d.Aside (d₁.openBlock kind) := by
  refine ⟨h.calls, h.mixins, h.warnings, h.trimNext, fun name hname => h.called name ?_⟩
  rcases List.exists_mem_cons_iff .. |>.1 hname with hblock | houter
  · cases hblock with
    | found calls => exact absurd calls CallsMixin.not_nil
    | inside mem =>
      rw [hkind] at mem
      exact absurd mem List.not_mem_nil
  · exact houter

/-- The next branch or arm of the innermost block is started. -/
theorem turns (h : d.Aside d₁) (hinner : d₁.inner = ⟨kind, found⟩ :: outer)
    (hnext : ∀ inner ∈ next.bodies, inner ∈ kind.bodies ∨ inner = found.reverse) :
    d.Aside { d₁ with inner := ⟨next, []⟩ :: outer } :=
  ⟨h.calls, h.mixins, h.warnings, h.trimNext, fun name hname =>
    h.called name (callsMixin_turns hinner hnext hname)⟩

/-- The innermost block is dropped. -/
theorem drops {b : OpenBlock} (h : d.Aside d₁) (hinner : d₁.inner = b :: outer) :
    d.Aside { d₁ with inner := outer } := by
  refine ⟨h.calls, h.mixins, h.warnings, h.trimNext, fun name ⟨b, hb, hcalls⟩ => h.called name ?_⟩
  refine ⟨b, ?_, hcalls⟩
  rw [Draft.stack, hinner]
  exact List.mem_cons_of_mem _ hb

/-- The innermost block is closed. -/
theorem closes (h : d.Aside d₁) (hinner : d₁.inner = ⟨kind, found⟩ :: outer)
    (f : Scope → Scope) (complete : kind.complete? found = some i) :
    d.Aside (({ d₁ with inner := outer }.withScope f).emit i) := by
  refine ((h.drops hinner).withScope f).emit fun name hname => h.called name ⟨_, ?_,
    OpenKind.calls_complete complete hname⟩
  rw [Draft.stack, hinner]
  exact List.mem_cons_self

theorem begin (h : d.Aside d₁) (body : Deferred) : d.Aside (d₁.begin body) :=
  ((h.openBlock rfl).withScope _).skipTo _

end Aside

theorem addLocal_aside (d : Draft) (base : String) :
    ∃ needed d', d.addLocal base = (needed, d') ∧ d.Aside d' := by
  unfold addLocal
  split
  · exact ⟨_, d, rfl, .refl d⟩
  · split
    · exact ⟨_, d, rfl, .refl d⟩
    · exact ⟨_, _, rfl, rfl, rfl, rfl, rfl, fun _ h => h⟩

theorem pipeline_aside (env : DraftEnv) (d : Draft) (base : String) (calls : List FilterCall) :
    ∃ p d', d.pipeline env base calls = (p, d') ∧ d.Aside d' := by
  unfold pipeline
  dsimp only
  generalize calls.foldl (fun t call => t.insertNew call.name (env.posOf d)) d.filters = filters
  obtain ⟨needed, d', hadd, haside⟩ := addLocal_aside { d with filters } base
  rw [hadd]
  exact ⟨_, d', rfl, haside.calls, haside.mixins, haside.warnings, haside.trimNext, haside.called⟩

theorem Noted.aside {env : DraftEnv} {d d' : Draft} {bases : List String} {calls : List FilterCall}
    (h : d.Noted env bases calls d') : d.Aside d' := by
  induction h with
  | nil => exact .refl _
  | @cons d _ _ _ base _ calls _ first _ ih =>
    obtain ⟨p, d₁, hp, haside⟩ := pipeline_aside env d base calls
    obtain ⟨rfl, rfl⟩ := Prod.mk.inj (first.symm.trans hp)
    exact haside.trans ih

end Draft

/-- No move changes any of that. -/
theorem Draft.Moves.aside {d d' : Draft} (h : d.Moves d') : d.Aside d' := by
  induction h with
  | refl => exact .refl d
  | skipTo _ idx ih => exact ih.skipTo idx
  | withScope _ f ih => exact ih.withScope f
  | blocks _ blocks ih => exact ih.blocks blocks
  | emits _ silent ih => exact ih.emits silent
  | openBlock _ empty ih => exact ih.openBlock empty
  | turns _ inner keeps ih => exact ih.turns inner keeps
  | closes _ inner f complete ih => exact ih.closes inner f complete

/-- What a handler notes and moves leaves all of that aside. -/
theorem Handler.Works.aside {env : DraftEnv} {d : Draft} {bases : List String}
    {calls : List FilterCall} {x : Except Error Draft} (h : Works env d bases calls x) :
    Gives d.Aside x :=
  h.mono fun _ ⟨_, hnoted, hmoves⟩ => hnoted.aside.trans hmoves.aside

/-! ## Tokens -/

namespace Token

/-- The mixins that a token calls, with the place of the call. -/
def mixinCalls : Token → List (String × Pos)
  | tag t =>
    if TagRegistry.handlerName t.name = "+" then [(.ofList (t.name.toList.drop 1), t.pos)] else []
  | _ => []

/-- Whether a token trims the text behind it. -/
def isTrim : Token → Bool
  | tag t => t.name == "trim"
  | _ => false

end Token

/-- What a draft makes of a token apart from instructions and names: it notes the mixin that is
called, or leaves the body of the one that is defined behind, and the next text is trimmed behind
`trim` only. No other mixin is called in open blocks than before. -/
structure Learns (env : DraftEnv) (token : Token) (d d' : Draft) : Prop where
  calls : d'.calls = token.mixinCalls ++ d.calls
  warnings : d'.warnings = d.warnings
  trimNext : d'.trimNext = token.isTrim
  defined : ∀ name, token.defines? = some ("mixin", name) →
    ∃ tag body, Defers env "mixin" d.idx tag name body ∧ d'.mixins = d.mixins.insert name body
  kept : (∀ name, token.defines? ≠ some ("mixin", name)) → d'.mixins = d.mixins
  called : ∀ name, d'.CallsMixin name → d.CallsMixin name ∨ ∃ pos, (name, pos) ∈ token.mixinCalls

/-- A token that does not define a mixin, keeps what was left behind under its name. -/
theorem Learns.get?_mixins {env : DraftEnv} {token : Token} {d d' : Draft} {name : String}
    (h : Learns env token d d') (hname : token.defines? ≠ some ("mixin", name)) :
    d'.mixins.get? name = d.mixins.get? name := by
  by_cases hdefines : ∃ other, token.defines? = some ("mixin", other)
  · obtain ⟨other, hother⟩ := hdefines
    obtain ⟨tag, body, _, hmixins⟩ := h.defined other hother
    rw [hmixins, Table.get?_insert, if_neg]
    rintro rfl
    exact hname hother
  · rw [h.kept (not_exists.1 hdefines)]

namespace Handler

variable {env : DraftEnv} {tag : Tag} {d : Draft}

theorem mixin_learns (here : env.token? d.idx = some (.tag tag)) (name : tag.name = "mixin")
    (htrim : d.trimNext = false) : Gives (Learns env (.tag tag) d) (mixin env tag d) := by
  unfold mixin
  split
  · exact .error _
  · next called texts hwords =>
    refine .guard ?_
    dsimp only
    split
    · exact .error _
    · refine (findTag_settles env d "endmixin").gives.bind fun stop hstop => .ok ?_
      have hnamed : blockName? tag = some called := by rw [blockName?, hwords, List.head?_cons]
      have hdefines : Token.defines? (.tag tag) = some ("mixin", called) := by
        rw [Token.defines?, hnamed, name]
        rfl
      refine ⟨?_, rfl, ?_, fun other hother => ?_, fun hnone => absurd hdefines (hnone called),
        fun _ => .inl⟩
      · rw [Token.mixinCalls, name]
        rfl
      · rw [Token.isTrim, name]
        exact htrim
      · obtain rfl : called = other := by simpa [hdefines] using hother
        refine ⟨tag, ⟨d.idx + 1, stop, paramsOf texts⟩, ?_, rfl⟩
        exact ⟨here, name, hnamed, rfl, hstop, .inl rfl, .inl rfl⟩

theorem callMixin_learns (name : TagRegistry.handlerName tag.name = "+")
    (htrim : d.trimNext = false) : Gives (Learns env (.tag tag) d) (callMixin env tag d) := by
  have hhead := head_of_handlerName name
  unfold callMixin
  obtain ⟨args, d₁, hargs, hnoted⟩ := Draft.pipelines_noted env d (partsOf ' ' tag.head)
  have haside := hnoted.aside
  rw [hargs]
  obtain ⟨hcalls, hmixins, hwarnings, htrims⟩ := Draft.setTop_eq { d₁ with
    calls := (.ofList (tag.name.toList.drop 1), tag.pos) :: d₁.calls } ⟨d₁.top.kind,
      .callMixin (.ofList (tag.name.toList.drop 1)) args :: d₁.top.found⟩
  refine .ok ⟨?_, hwarnings.trans haside.warnings, ?_, fun other hother => ?_,
    fun _ => hmixins.trans haside.mixins, fun other hother => ?_⟩
  · rw [Token.mixinCalls, if_pos name, ← haside.calls]
    exact hcalls
  · have hnot : (tag.name == "trim") = false := by
      refine beq_eq_false_iff_ne.2 fun htag => ?_
      rw [htag] at hhead
      exact absurd hhead (by decide)
    rw [Token.isTrim, hnot]
    exact (htrims.trans haside.trimNext).trans htrim
  · obtain ⟨_, _, heq⟩ := Option.map_eq_some_iff.1 hother
    rw [(Prod.mk.inj heq).1] at hhead
    exact absurd hhead (by decide)
  · refine (Draft.CallsMixin.of_emit hother).symm.imp (haside.called other) fun hcall => ?_
    rw [hcall.of_callMixin, Token.mixinCalls, if_pos name]
    exact ⟨tag.pos, List.mem_cons_self⟩

theorem trim_learns (name : tag.name = "trim") : Gives (Learns env (.tag tag) d) (trim env tag d) := by
  refine .ok ⟨?_, rfl, ?_, fun other hother => ?_, fun _ => rfl, fun _ => .inl⟩
  · rw [Token.mixinCalls, name]
    rfl
  · rw [Token.isTrim, name]
    rfl
  · obtain ⟨_, _, heq⟩ := Option.map_eq_some_iff.1 hother
    rw [name] at heq
    exact absurd (Prod.mk.inj heq).1 (by decide)

end Handler

/-- A token for none of these things leaves them aside. -/
theorem Draft.Aside.learns {env : DraftEnv} {token : Token} {d d' : Draft} (h : d.Aside d')
    (htrim : d.trimNext = false) (hcalls : token.mixinCalls = []) (htoken : token.isTrim = false)
    (hdefines : ∀ name, token.defines? ≠ some ("mixin", name)) : Learns env token d d' where
  calls := by rw [hcalls]; exact h.calls
  warnings := h.warnings
  trimNext := by rw [htoken, ← htrim]; exact h.trimNext
  defined name hname := absurd hname (hdefines name)
  kept _ := h.mixins
  called name hname := .inl (h.called name hname)

/-- Whatever handler the built-in registry gives for a tag, the draft learns what the tag is for. -/
theorem Handler.builtin_learns {env : DraftEnv} {tag : Tag} {d : Draft} {handler : TagHandler}
    (here : env.token? d.idx = some (.tag tag)) (htrim : d.trimNext = false)
    (h : TagRegistry.builtin.get? tag.name = some handler) :
    Gives (Learns env (.tag tag) d) (handler env tag d) := by
  by_cases hmixin : tag.name = "mixin"
  · obtain rfl : mixin = handler := registered h (by rw [hmixin]) rfl
    exact mixin_learns here hmixin htrim
  by_cases hcall : TagRegistry.handlerName tag.name = "+"
  · obtain rfl : callMixin = handler := registered h hcall rfl
    exact callMixin_learns hcall htrim
  by_cases hname : tag.name = "trim"
  · obtain rfl : trim = handler := registered h (by rw [hname]) rfl
    exact trim_learns hname
  · have hmem : (TagRegistry.handlerName tag.name, handler) ∈ builtins := Table.mem_of_get? h
    have hnone : TagRegistry.handlerName tag.name ∉ specialTags := by
      simp only [specialTags, List.mem_cons, List.not_mem_nil, or_false, not_or]
      exact ⟨fun h => hmixin (handlerName_eq h (by decide)), hcall,
        fun h => hname (handlerName_eq h (by decide))⟩
    refine (builtins_work env tag d _ hmem hnone rfl).aside.mono fun d' h => h.learns htrim ?_ ?_ ?_
    · exact if_neg hcall
    · exact beq_eq_false_iff_ne.2 hname
    · intro other hother
      obtain ⟨_, _, heq⟩ := Option.map_eq_some_iff.1 hother
      exact hmixin (Prod.mk.inj heq).1

namespace Generator

variable {g : Generator} {d d' : Draft}

/-- The handler of a tag is the built-in one; other tokens have none. -/
def HasBuiltin (g : Generator) (token : Token) : Prop :=
  ∀ tag handler, token = .tag tag → g.registry.get? tag.name = some handler →
    TagRegistry.builtin.get? tag.name = some handler

theorem IsBuiltin.hasBuiltin (hg : g.IsBuiltin) (token : Token) : g.HasBuiltin token := by
  intro tag handler _ hhandler
  rwa [hg.registry] at hhandler

/-- What is handled teaches the draft what it is for. -/
theorem handle_learns {token : Token} (htoken : g.HasBuiltin token) (trim : Bool)
    (here : g.env.token? d.idx = some token) (htrim : d.trimNext = false) :
    Gives (Learns g.env token d) (g.handle token trim d) := by
  cases token with
  | raw text pos =>
    exact (handle_raw g d text pos trim).mono fun d' h => h.aside.learns htrim rfl rfl nofun
  | object expression calls source pos =>
    exact (handle_object g d expression calls source pos trim).aside.mono fun d' h =>
      h.learns htrim rfl rfl nofun
  | tag tag =>
    unfold handle
    dsimp only
    split
    · exact .error _
    · next handler hhandler =>
      exact Handler.builtin_learns here htrim (htoken tag handler rfl hhandler)

/-- Before a token is handled, its position is marked. -/
theorem mark_aside (g : Generator) (token : Token) (d : Draft) :
    ({ d with trimNext := false } : Draft).Aside ({ d with trimNext := false }.mark g.env token.pos) :=
  (Draft.Aside.refl _).mark _ _

/-- A token teaches the draft that is at it what it is for. -/
theorem step_learns {token : Token} (htoken : g.HasBuiltin token)
    (here : g.env.token? d.idx = some token) (h : g.step token d = .ok d') :
    Learns g.env token d d' := by
  have haside := mark_aside g token d
  have hidx : ({ d with trimNext := false }.mark g.env token.pos).idx = d.idx := Draft.idx_mark ..
  rw [← hidx] at here
  have hlearns := (handle_learns htoken d.trimNext here haside.trimNext).get h
  refine ⟨?_, ?_, hlearns.trimNext, fun name hname => ?_, fun hnone => ?_, fun name hname => ?_⟩
  · rw [hlearns.calls, haside.calls]
  · rw [hlearns.warnings, haside.warnings]
  · obtain ⟨tag, body, defers, hmixins⟩ := hlearns.defined name hname
    rw [hidx] at defers
    exact ⟨tag, body, defers, by rw [hmixins, haside.mixins]⟩
  · rw [hlearns.kept hnone, haside.mixins]
  · exact (hlearns.called name hname).imp_left (haside.called name)

end Generator

end Stencil
