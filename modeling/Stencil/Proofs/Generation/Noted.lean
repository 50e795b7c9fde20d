import Stencil.Proofs.Generation.Filters

/-!
# What handlers note, and how they move

A built-in handler notes the expressions of its tag, and then it works on the open blocks. What it
notes is what the token reads (`Token.operands`) with its filters (`Token.uses`), and the work is done
in a few kinds of moves. Whatever each of them keeps, all handlers keep.

* `Draft.Noted`: expressions are noted, one behind the other.
* `Draft.Moves`: the scope, the place and the open blocks are changed, and nothing else.
* `Handler.builtins_work`: a handler notes first and then moves; those of mixins and of `trim` do
  something besides.
* `generate_uses`: every filter that a program applies, however deep, has been noted.
-/

namespace Stencil

/-! ## Outcomes -/

/-- The outcome satisfies `P`, or is an error. -/
inductive Gives {α : Type} (P : α → Prop) : Except Error α → Prop where
  | ok {a : α} (h : P a) : Gives P (.ok a)
  | error (e : Error) : Gives P (.error e)

namespace Gives

variable {α β : Type} {P : β → Prop} {Q : α → Prop}

theorem any (x : Except Error α) : Gives (fun _ => True) x := by
  cases x with
  | ok => exact .ok trivial
  | error e => exact .error e

theorem bind {x : Except Error α} {f : α → Except Error β} (hx : Gives Q x)
    (hf : ∀ a, Q a → Gives P (f a)) : Gives P (x >>= f) := by
  cases hx with
  | ok h => exact hf _ h
  | error e => exact .error e

theorem mono {x : Except Error α} {P : α → Prop} (hx : Gives Q x) (h : ∀ a, Q a → P a) :
    Gives P x := by
  cases hx with
  | ok ha => exact .ok (h _ ha)
  | error e => exact .error e

theorem get {a : α} {x : Except Error α} (hx : Gives Q x) (h : x = .ok a) : Q a := by
  subst h
  cases hx with
  | ok h => exact h

/-- A check that fails ends the work; otherwise it goes on. -/
theorem guard {c : Prop} [Decidable c] {e : Error} {f : α → Except Error β} {y : Except Error β}
    (hy : Gives P y) : Gives P (if c then .error e >>= f else y) := by
  split
  · exact .error e
  · exact hy

end Gives

theorem Settles.gives {α : Type} {P : α → Prop} {x : Except Error α} (h : Settles P x) :
    Gives P x := by
  cases h with
  | ok h => exact .ok h
  | error => exact .error _

/-! ## Noting -/

namespace Draft

/-- Some expressions are noted, one behind the other; `calls` are the filters of all of them. -/
inductive Noted (env : DraftEnv) : Draft → List String → List FilterCall → Draft → Prop where
  | nil {d : Draft} : Noted env d [] [] d
  | cons {d d₁ d' : Draft} {p : Pipeline} {base : String} {bases : List String}
      {calls more : List FilterCall} (first : d.pipeline env base calls = (p, d₁))
      (rest : Noted env d₁ bases more d') : Noted env d (base :: bases) (calls ++ more) d'

theorem pipeline_noted (env : DraftEnv) (d : Draft) (base : String) (calls : List FilterCall) :
    ∃ p d', d.pipeline env base calls = (p, d') ∧ d.Noted env [base] calls d' := by
  obtain ⟨p, d', hp⟩ : ∃ p d', d.pipeline env base calls = (p, d') := ⟨_, _, rfl⟩
  have hone : d.Noted env [base] (calls ++ []) d' := .cons hp .nil
  rw [List.append_nil] at hone
  exact ⟨p, d', hp, hone⟩

theorem pipelines_noted (env : DraftEnv) (d : Draft) (bases : List String) :
    ∃ ps d', d.pipelines env bases = (ps, d') ∧ d.Noted env bases [] d' := by
  induction bases generalizing d with
  | nil => exact ⟨[], d, rfl, .nil⟩
  | cons base bases ih =>
    obtain ⟨p, d₁, hp⟩ : ∃ p d', d.pipeline env base [] = (p, d') := ⟨_, _, rfl⟩
    obtain ⟨ps, d', hps, hnoted⟩ := ih d₁
    exact ⟨p :: ps, d', by simp only [pipelines, hp, hps], .cons hp hnoted⟩

/-- What was known before is still known, and the filters are known. -/
theorem Noted.notes {env : DraftEnv} {d d' : Draft} {bases : List String} {calls : List FilterCall}
    (h : d.Noted env bases calls d') :
    d.Notes d' ∧ ∀ call ∈ calls, d'.filters.contains call.name = true := by
  induction h with
  | nil => exact ⟨.refl _, fun _ hcall => absurd hcall List.not_mem_nil⟩
  | @cons d d₁ d' p base bases calls more first _ ih =>
    obtain ⟨q, d₂, hq, hnotes, _, hknown⟩ := pipeline_notes env d base calls
    obtain ⟨rfl, rfl⟩ := Prod.mk.inj (first.symm.trans hq)
    refine ⟨hnotes.trans ih.1, fun call hcall => ?_⟩
    rcases List.mem_append.1 hcall with hcall | hcall
    · exact ih.1.filters _ (hknown call hcall)
    · exact ih.2 call hcall

end Draft

/-! ## Moving -/

/-- The instruction is no call of a mixin, and none stands in it. -/
def Instruction.isSilent : Instruction → Bool
  | callMixin .. => false
  | i => !i.isBlock

namespace Draft

/-- The second draft is made of the first one by work on the open blocks. What is put into them is
silent, and what is complete in them stays. -/
inductive Moves (d : Draft) : Draft → Prop where
  | refl : Moves d d
  | skipTo {d' : Draft} (h : Moves d d') (idx : Nat) : Moves d (d'.skipTo idx)
  | withScope {d' : Draft} (h : Moves d d') (f : Scope → Scope) : Moves d (d'.withScope f)
  | blocks {d' : Draft} (h : Moves d d') (blocks : Table Deferred) : Moves d { d' with blocks }
  | emits {d' : Draft} {i : Instruction} (h : Moves d d') (silent : i.isSilent = true) :
      Moves d (d'.emit i)
  | openBlock {d' : Draft} {kind : OpenKind} (h : Moves d d') (empty : kind.bodies = []) :
      Moves d (d'.openBlock kind)
  | turns {d' : Draft} {kind next : OpenKind} {found : List Instruction} {outer : List OpenBlock}
      (h : Moves d d') (inner : d'.inner = ⟨kind, found⟩ :: outer)
      (keeps : ∀ body ∈ next.bodies, body ∈ kind.bodies ∨ body = found.reverse) :
      Moves d { d' with inner := ⟨next, []⟩ :: outer }
  | closes {d' : Draft} {kind : OpenKind} {found : List Instruction} {outer : List OpenBlock}
      {i : Instruction} (h : Moves d d') (inner : d'.inner = ⟨kind, found⟩ :: outer)
      (f : Scope → Scope) (complete : kind.complete? found = some i) :
      Moves d (({ d' with inner := outer }.withScope f).emit i)

namespace Moves

variable {d d' : Draft}

theorem advance (h : d.Moves d') : d.Moves d'.advance := h.skipTo _

/-- No move notes anything. -/
theorem keeps (h : d.Moves d') :
    d'.locals = d.locals ∧ d'.paths = d.paths ∧ d'.filters = d.filters := by
  have setTop {d₁ : Draft} (b : OpenBlock)
      (h : d₁.locals = d.locals ∧ d₁.paths = d.paths ∧ d₁.filters = d.filters) :
      (d₁.setTop b).locals = d.locals ∧ (d₁.setTop b).paths = d.paths ∧
        (d₁.setTop b).filters = d.filters := by
    unfold Draft.setTop
    split <;> exact h
  induction h with
  | refl => exact ⟨rfl, rfl, rfl⟩
  | skipTo _ _ ih | withScope _ _ ih | blocks _ _ ih | openBlock _ _ ih | turns _ _ _ ih => exact ih
  | emits _ _ ih | closes _ _ _ _ ih => exact setTop _ ih

end Moves

end Draft

/-! ## Handlers -/

namespace Handler

section

variable (env : DraftEnv) (tag : Tag) (d : Draft)

/-- The outcome is a draft in which some expressions have been noted before it was moved. -/
abbrev Works (bases : List String) (calls : List FilterCall) : Except Error Draft → Prop :=
  Gives fun d' => ∃ d₁, d.Noted env bases calls d₁ ∧ d₁.Moves d'

theorem Works.of_moves {x : Except Error Draft} (h : Gives d.Moves x) : Works env d [] [] x :=
  h.mono fun _ hmoves => ⟨d, .nil, hmoves⟩

theorem assign_works :
    Works env d ((AssignmentHead.ofHead? tag.head).map AssignmentHead.value).toList tag.filters
      (assign env tag d) := by
  unfold assign
  cases AssignmentHead.ofHead? tag.head with
  | none => exact .error _
  | some head =>
    obtain ⟨p, d₁, hp, hnoted⟩ := Draft.pipeline_noted env d head.value tag.filters
    dsimp only
    rw [hp]
    exact .guard (.ok ⟨d₁, hnoted, ((Draft.Moves.refl.withScope _).emits rfl).advance⟩)

theorem capture_moves : Gives d.Moves (capture env tag d) := by
  unfold capture
  refine .guard (.bind (.any _) fun stop _ => .ok ?_)
  exact ((Draft.Moves.refl.withScope _).emits rfl).skipTo _

theorem raw_moves : Gives d.Moves (raw env tag d) := by
  unfold raw
  refine .bind (.any _) fun stop _ => .ok (.skipTo ?_ _)
  split
  · exact .refl
  · exact Draft.Moves.refl.emits rfl

theorem comment_moves : Gives d.Moves (comment env tag d) := by
  unfold comment
  exact .bind (.any _) fun stop _ => .ok (Draft.Moves.refl.skipTo _)

theorem script_moves : Gives d.Moves (script env tag d) := by
  unfold script
  refine .bind (.any _) fun stop _ => .ok ?_
  exact ((Draft.Moves.refl.withScope _).emits rfl).skipTo _

theorem openCondition_works (kind : ConditionKind) :
    Works env d [tag.head] tag.filters (openCondition kind env tag d) := by
  unfold openCondition
  obtain ⟨p, d₁, hp, hnoted⟩ := Draft.pipeline_noted env d tag.head tag.filters
  refine .bind (.any _) fun stop _ => .bind (.any _) fun _ _ => ?_
  rw [hp]
  exact .ok ⟨d₁, hnoted, ((Draft.Moves.refl.openBlock rfl).withScope _).advance⟩

theorem nextBranch_moves (next : Option (Pipeline × Bool)) (allowed : List ConditionKind) :
    Gives d.Moves (nextBranch env tag next allowed d) := by
  unfold nextBranch
  split
  · next kind branches current found outer hinner =>
    split
    · exact .error _
    · split
      · exact .error _
      · exact .ok ((Draft.Moves.refl.turns hinner fun body hmem =>
          (List.mem_cons.1 hmem).symm).withScope _).advance
  · exact .error _

theorem elseIf_works : Works env d [tag.head] tag.filters (elseIf env tag d) := by
  unfold elseIf
  obtain ⟨p, d₁, hp, hnoted⟩ := Draft.pipeline_noted env d tag.head tag.filters
  refine .bind (.any _) fun _ _ => ?_
  rw [hp]
  exact (nextBranch_moves env tag d₁ _ _).mono fun d' hmoves => ⟨d₁, hnoted, hmoves⟩

theorem close_gives : Gives (fun closed => ∃ outer, d.inner = closed.1 :: outer ∧
    closed.2 = { d with inner := outer }) (close env tag d) := by
  unfold close Draft.closeBlock?
  cases hinner : d.inner with
  | nil => exact .error _
  | cons block outer => exact .ok ⟨outer, rfl, rfl⟩

theorem closeCondition_moves : Gives d.Moves (closeCondition env tag d) := by
  unfold closeCondition
  refine (close_gives env tag d).bind ?_
  rintro ⟨⟨kind, found⟩, _⟩ ⟨outer, hinner, rfl⟩
  dsimp only
  split
  · next condition branches current =>
    split
    · exact .error _
    · refine .ok (Draft.Moves.refl.closes hinner _ ?_).advance
      cases current <;> rfl
  · exact .error _

theorem openCase_works : Works env d [tag.head] tag.filters (openCase env tag d) := by
  unfold openCase
  obtain ⟨p, d₁, hp, hnoted⟩ := Draft.pipeline_noted env d tag.head tag.filters
  refine .bind (.any _) fun stop _ => .bind (.any _) fun _ _ => ?_
  rw [hp]
  exact .ok ⟨d₁, hnoted, ((Draft.Moves.refl.openBlock rfl).withScope _).advance⟩

theorem nextArm_moves (next : ArmLabel) : Gives d.Moves (nextArm env tag next d) := by
  unfold nextArm
  split
  · next subject arms current found outer hinner =>
    split
    · exact .ok (Draft.Moves.refl.turns hinner fun body hmem => (List.mem_cons.1 hmem).symm)
    · split
      · exact .error _
      · split
        · exact .error _
        · exact .ok (Draft.Moves.refl.turns hinner fun body hmem => .inl hmem)
  · exact .error _

theorem armWhen_works (name : tag.name = "when") :
    Works env d (Token.tag tag).operands (Token.tag tag).uses (armWhen env tag d) := by
  have hoperands : (Token.tag tag).operands = partsOf ',' tag.head := by simp [Token.operands, name]
  rw [hoperands, Token.uses_eq_nil (by rw [name]; decide)]
  unfold armWhen
  obtain ⟨values, d₁, hvalues, hnoted⟩ := Draft.pipelines_noted env d (partsOf ',' tag.head)
  rw [hvalues]
  refine .guard ((nextArm_moves env tag d₁ _).bind fun d' hmoves => ?_)
  exact .ok ⟨d₁, hnoted, hmoves.advance⟩

theorem armDefault_moves : Gives d.Moves (armDefault env tag d) := by
  unfold armDefault
  exact (nextArm_moves env tag d _).bind fun d' hmoves => .ok hmoves.advance

theorem closeCase_moves : Gives d.Moves (closeCase env tag d) := by
  unfold closeCase
  refine (close_gives env tag d).bind ?_
  rintro ⟨⟨kind, found⟩, _⟩ ⟨outer, hinner, rfl⟩
  dsimp only
  split
  · exact .ok (Draft.Moves.refl.closes hinner _ rfl).advance
  · exact .error _
  · exact .error _

theorem loopIterable_noted (text : String) (calls : List FilterCall) :
    ∃ iterable d', loopIterable env d text calls = (iterable, d') ∧
      d.Noted env (loopOperands calls text) calls d' := by
  unfold loopIterable loopOperands
  cases hbounds : (if calls.isEmpty then rangeBounds? text else none) with
  | some bounds =>
    -- A range is read only where no filters follow.
    have hnil : calls = [] := by
      by_contra hcalls
      rw [if_neg (by simpa using hcalls)] at hbounds
      cases hbounds
    obtain ⟨first, last⟩ := bounds
    obtain ⟨start, d₁, hstart⟩ : ∃ p d', d.pipeline env first [] = (p, d') := ⟨_, _, rfl⟩
    obtain ⟨stop, d₂, hstop, hnoted⟩ := Draft.pipeline_noted env d₁ last []
    rw [hnil]
    exact ⟨.range start stop, d₂, by simp only [hstart, hstop], .cons hstart hnoted⟩
  | none =>
    obtain ⟨p, d₁, hp, hnoted⟩ := Draft.pipeline_noted env d text calls
    exact ⟨.pipeline p, d₁, by simp only [hp], hnoted⟩

theorem openLoop_works (name : tag.name = "for") :
    Works env d (Token.tag tag).operands (Token.tag tag).uses (openLoop env tag d) := by
  have huses : (Token.tag tag).uses = tag.filters.filter (!isLoopBound ·) := by
    simp [Token.uses, name, filteringTags]
  rw [huses]
  unfold openLoop
  refine .bind (.any _) fun stop _ => ?_
  cases hhead : LoopHead.ofHead? tag.head with
  | none => exact .error _
  | some head =>
    have hoperands : (Token.tag tag).operands =
        loopOperands (tag.filters.filter (!isLoopBound ·)) head.iterable := by
      simp [Token.operands, name, hhead]
    obtain ⟨iterable, d₁, hiterable, hnoted⟩ := loopIterable_noted env d head.iterable
      (tag.filters.filter (!isLoopBound ·))
    refine .guard (.bind (.any _) fun _ _ => .bind (.any _) fun _ _ => .bind (.any _) fun _ _ => ?_)
    dsimp only
    rw [hiterable, hoperands]
    exact .ok ⟨d₁, hnoted, ((Draft.Moves.refl.openBlock rfl).withScope _).advance⟩

theorem closeLoop_moves : Gives d.Moves (closeLoop env tag d) := by
  unfold closeLoop
  refine (close_gives env tag d).bind ?_
  rintro ⟨⟨kind, found⟩, _⟩ ⟨outer, hinner, rfl⟩
  dsimp only
  split
  · exact .ok (Draft.Moves.refl.closes hinner _ rfl).advance
  · exact .error _

theorem breakOut_moves : Gives d.Moves (breakOut env tag d) := by
  unfold breakOut
  exact .guard (.ok (Draft.Moves.refl.emits rfl).advance)

theorem goOn_moves : Gives d.Moves (goOn env tag d) := by
  unfold goOn
  exact .guard (.ok (Draft.Moves.refl.emits rfl).advance)

theorem block_moves : Gives d.Moves (block env tag d) := by
  unfold block
  split
  · exact .error _
  · next called _ =>
    refine .bind (.any _) fun stop _ => ?_
    generalize (env.sites.get? called).getD (d.idx, d.idx) = site
    have hemitted : d.Moves (if d.idx = site.1 then d.emit (.callBlock called) else d) := by
      split
      · exact Draft.Moves.refl.emits rfl
      · exact .refl
    dsimp only
    split
    · exact .ok ((hemitted.blocks _).skipTo _)
    · exact .ok (hemitted.skipTo _)

/-- The handlers that do something besides. -/
def specialTags : List String := ["mixin", "+", "trim"]

/-- Every other built-in handler notes the expressions of its token and their filters, and then it
moves. -/
theorem builtins_work : ∀ entry ∈ builtins, entry.1 ∉ specialTags →
    TagRegistry.handlerName tag.name = entry.1 →
    Works env d (Token.tag tag).operands (Token.tag tag).uses (entry.2 env tag d) := by
  have reading {word : String} {bases : List String} {x : Except Error Draft}
      (hword : word ∈ filteringTags) (hfor : word ≠ "for")
      (hbases : tag.name = word → (Token.tag tag).operands = bases)
      (hx : Works env d bases tag.filters x) (_ : word ∉ specialTags)
      (h : TagRegistry.handlerName tag.name = word) :
      Works env d (Token.tag tag).operands (Token.tag tag).uses x := by
    obtain rfl : tag.name = word := handlerName_eq h fun hplus => absurd (hplus ▸ hword) (by decide)
    rw [hbases rfl, Token.uses_eq_filters hword hfor]
    exact hx
  have silent {word : String} {x : Except Error Draft} (hword : word ∉ "+" :: Token.readingTags)
      (hx : Gives d.Moves x) (_ : word ∉ specialTags)
      (h : TagRegistry.handlerName tag.name = word) :
      Works env d (Token.tag tag).operands (Token.tag tag).uses x := by
    rw [List.mem_cons, not_or] at hword
    obtain rfl : tag.name = word := handlerName_eq h hword.1
    rw [Token.operands_eq_nil hword.2 fun hplus => hword.1 (h.symm.trans hplus),
      Token.uses_eq_nil fun hmem => hword.2 (filteringTags_subset hmem)]
    exact .of_moves env d hx
  simp only [builtins, List.forall_mem_cons]
  exact ⟨reading (by decide) (by decide) (fun name => by simp [Token.operands, name])
      (assign_works env tag d),
    silent (by decide) (capture_moves env tag d),
    silent (by decide) (raw_moves env tag d),
    silent (by decide) (comment_moves env tag d),
    silent (by decide) (script_moves env tag d),
    reading (by decide) (by decide) (fun name => by simp [Token.operands, name])
      (openCondition_works env tag d .ifTrue),
    reading (by decide) (by decide) (fun name => by simp [Token.operands, name])
      (openCondition_works env tag d .ifFalse),
    reading (by decide) (by decide) (fun name => by simp [Token.operands, name])
      (elseIf_works env tag d),
    reading (by decide) (by decide) (fun name => by simp [Token.operands, name])
      (elseIf_works env tag d),
    silent (by decide) (nextBranch_moves env tag d none _),
    silent (by decide) (closeCondition_moves env tag d),
    silent (by decide) (closeCondition_moves env tag d),
    reading (by decide) (by decide) (fun name => by simp [Token.operands, name])
      (openCase_works env tag d),
    fun _ h => armWhen_works env tag d (handlerName_eq h (by decide)),
    silent (by decide) (armDefault_moves env tag d),
    silent (by decide) (closeCase_moves env tag d),
    fun _ h => openLoop_works env tag d (handlerName_eq h (by decide)),
    silent (by decide) (closeLoop_moves env tag d),
    silent (by decide) (breakOut_moves env tag d),
    silent (by decide) (goOn_moves env tag d),
    fun h => absurd (by decide) h,
    fun h => absurd (by decide) h,
    silent (by decide) (block_moves env tag d),
    fun h => absurd (by decide) h,
    fun _ _ => .error _,
    fun _ _ => .error _,
    fun _ h => absurd h List.not_mem_nil⟩

end

/-- The handler of a tag is the one that the registry keeps under its name. -/
theorem registered {tag : Tag} {word : String} {handler other : TagHandler}
    (h : TagRegistry.builtin.get? tag.name = some handler)
    (hword : TagRegistry.handlerName tag.name = word)
    (hother : TagRegistry.builtin.handlers.get? word = some other) : other = handler := by
  rw [TagRegistry.get?, hword, hother] at h
  exact Option.some.inj h

end Handler

/-! ## Tokens -/

namespace Generator

variable {g : Generator} {d d' : Draft} {token : Token}

theorem handle_raw (g : Generator) (d : Draft) (text : String) (pos : Pos) (trim : Bool) :
    Gives d.Moves (g.handle (.raw text pos) trim d) := by
  refine .ok (Draft.Moves.advance ?_)
  generalize (if trim then .ofList (Text.trimLeft text.toList) else text) = written
  split
  · exact .refl
  · exact Draft.Moves.refl.emits rfl

theorem handle_object (g : Generator) (d : Draft) (expression : String) (calls : List FilterCall)
    (source : String) (pos : Pos) (trim : Bool) :
    Handler.Works g.env d [expression] calls
      (g.handle (.object expression calls source pos) trim d) := by
  unfold handle
  obtain ⟨p, d₁, hp, hnoted⟩ := Draft.pipeline_noted g.env d expression calls
  dsimp only
  rw [hp]
  exact .ok ⟨d₁, hnoted, (Draft.Moves.refl.emits rfl).advance⟩

/-- Whatever handler the built-in registry gives for a tag, it notes the filters of the tag. -/
theorem builtin_uses {env : DraftEnv} {tag : Tag} {handler : TagHandler}
    (h : TagRegistry.builtin.get? tag.name = some handler) (hmade : handler env tag d = .ok d') :
    ∀ call ∈ (Token.tag tag).uses, d'.filters.contains call.name = true := by
  by_cases hname : tag.name ∈ filteringTags
  · have hspecial : ∀ name ∈ filteringTags, TagRegistry.handlerName name ∉ Handler.specialTags := by
      decide
    obtain ⟨d₁, hnoted, hmoves⟩ := (Handler.builtins_work env tag d _ (Table.mem_of_get? h)
      (hspecial _ hname) rfl).get hmade
    rw [hmoves.keeps.2.2]
    exact hnoted.notes.2
  · rw [Token.uses_eq_nil hname]
    exact fun _ hcall => absurd hcall List.not_mem_nil

/-- Generating a token notes its filters. -/
theorem step_uses (hg : g.IsBuiltin) (h : g.step token d = .ok d') :
    ∀ call ∈ token.uses, d'.filters.contains call.name = true := by
  unfold step at h
  cases token with
  | raw => exact fun _ hcall => absurd hcall List.not_mem_nil
  | object expression calls source pos =>
    obtain ⟨d₁, hnoted, hmoves⟩ := (handle_object g _ expression calls source pos _).get h
    rw [hmoves.keeps.2.2]
    exact hnoted.notes.2
  | tag tag =>
    unfold handle at h
    dsimp only at h
    split at h
    · cases h
    · next handler hhandler =>
      rw [hg.registry] at hhandler
      exact builtin_uses hhandler h

end Generator

/-- Every filter that a program applies, however deep, has been noted. -/
theorem generate_uses {tokens : List Token} {files : Files} {positions : Bool} {made : Generated}
    (hmade : generate tokens files .builtin positions = .ok made) {x : Instruction}
    (holds : made.program.Holds x) {p : Pipeline} (hp : p ∈ x.pipelines) {call : FilterCall}
    (hcall : call ∈ p.filters) : made.filters.contains call.name = true := by
  obtain ⟨sites, hsites, hprogram⟩ := (generate_settles tokens files positions).get hmade
  obtain ⟨k, σ, token, held, here, hwrites⟩ := (hprogram.arises rfl holds).writes hp
  have hg : (builtinGenerator tokens files positions sites).IsBuiltin := ⟨rfl, rfl⟩
  rw [generate_eq hsites] at hmade
  obtain ⟨main, last, program, hmain, hlast, hfilters, _⟩ := Generator.generate_ok hmade
  rw [hfilters]
  refine held.outcome (P := (·.filters.contains call.name = true)) hg
    (fun d d' hgrows => hgrows.filters call.name) ?_ hmain hlast
  intro d d' token' _ _ here' hstep
  obtain rfl := Option.some.inj (here.symm.trans here')
  exact Generator.step_uses hg hstep call (hwrites.filters call hcall)

end Stencil
