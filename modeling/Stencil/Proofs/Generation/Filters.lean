import Stencil.Proofs.Generation.Blocks
import Stencil.Template

/-!
# The pipelines of programs

Every pipeline of a program is that of an expression of some token. `Token.operands` are the
expressions that a token reads, and `Token.uses` the filters that it puts into the program.

* `Arises.writes`: a pipeline in a program comes from a token that was generated.
-/

namespace Stencil

/-! ## Pipelines -/

/-- The texts of a filter call. -/
def FilterCall.texts (call : FilterCall) : List String := call.name :: call.args

/-- The texts that a pipeline is written with. -/
def Pipeline.texts (p : Pipeline) : List String := p.base :: p.filters.flatMap FilterCall.texts

/-- The pipelines that an instruction evaluates itself; those of its bodies are left out. -/
def Instruction.pipelines : Instruction → List Pipeline
  | emit p => [p]
  | assign _ _ p _ => [p]
  | choose branches _ => branches.map fun | .mk p _ _ => p
  | switch subject arms => subject :: arms.flatMap fun | .mk label _ => Checker.labelPipelines label
  | loop _ iterable _ _ _ => Checker.pipelinesOf iterable
  | callMixin _ args => args
  | _ => []

/-- The pipelines in the header of an open block. -/
def OpenKind.pipelines : OpenKind → List Pipeline
  | root => []
  | condition _ branches current =>
    current.toList.map Prod.fst ++ branches.map fun | .mk p _ _ => p
  | case subject arms current =>
    subject :: (current.toList.flatMap Checker.labelPipelines ++
      arms.flatMap fun | .mk label _ => Checker.labelPipelines label)
  | loop _ iterable _ _ => Checker.pipelinesOf iterable

theorem OpenKind.mem_pipelines {kind : OpenKind} {content : List Instruction} {x : Instruction}
    {p : Pipeline} (h : kind.complete? content = some x) (hp : p ∈ x.pipelines) :
    p ∈ kind.pipelines := by
  cases kind with
  | root => cases h
  | condition kind branches current =>
    cases current with
    | none =>
      cases h
      simpa [Instruction.pipelines, pipelines] using hp
    | some current =>
      cases h
      simpa [Instruction.pipelines, pipelines, or_comm] using hp
  | case subject arms current =>
    cases current with
    | none => cases h
    | some label =>
      cases h
      simpa [Instruction.pipelines, pipelines, or_comm] using hp
  | loop =>
    cases h
    exact hp

/-! ## Expressions of tokens -/

/-- The expressions that a loop reads: both ends of a range, or the one that it runs over. -/
def Handler.loopOperands (calls : List FilterCall) (text : String) : List String :=
  match if calls.isEmpty then rangeBounds? text else none with
  | some (first, last) => [first, last]
  | none => [text]

/-- The expressions that a token reads. -/
def Token.operands : Token → List String
  | raw .. => []
  | object expression .. => [expression]
  | tag t =>
    if t.name = "assign" then ((AssignmentHead.ofHead? t.head).map AssignmentHead.value).toList
    else if t.name ∈ ["if", "unless", "elseif", "elsif", "case"] then [t.head]
    else if t.name = "when" then Handler.partsOf ',' t.head
    else if t.name = "for" then
      match LoopHead.ofHead? t.head with
      | none => []
      | some head =>
        Handler.loopOperands (t.filters.filter (!Handler.isLoopBound ·)) head.iterable
    else if TagRegistry.handlerName t.name = "+" then Handler.partsOf ' ' t.head
    else []

namespace Token

variable {t : Tag}

/-- A call of a mixin reads its arguments. -/
theorem operands_call (h : TagRegistry.handlerName t.name = "+") :
    (tag t).operands = Handler.partsOf ' ' t.head := by
  have hne (word : String) (hword : TagRegistry.handlerName word ≠ "+") : t.name ≠ word :=
    fun hname => hword (hname ▸ h)
  simp only [operands, List.mem_cons, List.not_mem_nil, hne "assign" (by decide),
    hne "if" (by decide), hne "unless" (by decide), hne "elseif" (by decide),
    hne "elsif" (by decide), hne "case" (by decide), hne "when" (by decide), hne "for" (by decide),
    h, or_self, if_true, if_false]

/-- The tags that read expressions, besides calls of mixins. -/
def readingTags : List String :=
  ["assign", "if", "unless", "elseif", "elsif", "case", "when", "for"]

/-- All other tags read none. -/
theorem operands_eq_nil (h : t.name ∉ readingTags) (hplus : TagRegistry.handlerName t.name ≠ "+") :
    (tag t).operands = [] := by
  simp only [readingTags, List.mem_cons, List.not_mem_nil, or_false, not_or] at h
  simp [operands, h, hplus]

end Token

/-! ## Where pipelines come from -/

/-- Tags whose filters belong to their expression. -/
def filteringTags : List String := ["assign", "if", "unless", "elseif", "elsif", "case", "for"]

/-- The filters that a token puts into the program; the bounds of a loop are none. -/
def Token.uses : Token → List FilterCall
  | .raw .. => []
  | .object _ calls .. => calls
  | .tag t =>
    if t.name ∈ filteringTags then t.filters.filter fun c => t.name != "for" || !Handler.isLoopBound c
    else []

/-- Other tags put no filters into the program. -/
theorem Token.uses_eq_nil {t : Tag} (h : t.name ∉ filteringTags) : (Token.tag t).uses = [] := by
  simp [uses, h]

theorem filteringTags_subset : filteringTags ⊆ Token.readingTags := by decide

/-- The filters of a tag other than that of a loop. -/
theorem Token.uses_eq_filters {t : Tag} (hname : t.name ∈ filteringTags) (hfor : t.name ≠ "for") :
    (Token.tag t).uses = t.filters := by
  simp [uses, hname, hfor]

theorem Token.mem_uses {t : Tag} {call : FilterCall} (hname : t.name ∈ filteringTags)
    (hfor : t.name ≠ "for") (hcall : call ∈ t.filters) : call ∈ (Token.tag t).uses := by
  rwa [uses_eq_filters hname hfor]

/-- The pipeline is that of an expression of the token, and its filters are the token's. -/
structure Token.Writes (token : Token) (p : Pipeline) : Prop where
  base : ∃ base ∈ token.operands, p.base = Text.trimmed base
  filters : ∀ call ∈ p.filters, call ∈ token.uses

section

variable {env : DraftEnv} {L : String → Prop} {A : Nat → Scope → Prop} {σ : Scope} {i : Nat}
  {p : Pipeline} {token : Token}

theorem Makes.writes {base : String} {calls : List FilterCall} (h : Makes L σ base calls p)
    (hbase : base ∈ token.operands) (hcalls : ∀ call ∈ calls, call ∈ token.uses) :
    token.Writes p := by
  rw [h.made]
  exact ⟨⟨base, hbase, rfl⟩, hcalls⟩

theorem MakesAll.writes {bases : List String} {ps : List Pipeline} (h : MakesAll L σ bases ps)
    (hbases : ∀ base ∈ bases, base ∈ token.operands) (hp : p ∈ ps) : token.Writes p := by
  induction h with
  | nil => exact absurd hp List.not_mem_nil
  | cons hmakes _ ih =>
    rw [List.forall_mem_cons] at hbases
    rcases List.mem_cons.1 hp with rfl | hp
    · exact hmakes.writes hbases.1 fun _ hcall => absurd hcall List.not_mem_nil
    · exact ih hbases.2 hp

theorem RunsOver.writes {text : String} {calls : List FilterCall} {iterable : Iterable}
    (h : RunsOver L σ text calls iterable)
    (hbases : ∀ base ∈ Handler.loopOperands calls text, base ∈ token.operands)
    (hcalls : ∀ call ∈ calls, call ∈ token.uses) (hp : p ∈ Checker.pipelinesOf iterable) :
    token.Writes p := by
  unfold Handler.loopOperands at hbases
  cases h with
  | range reads starts stops =>
    rw [reads] at hbases
    simp only [Checker.pipelinesOf, List.mem_cons, List.not_mem_nil, or_false] at hp
    rcases hp with rfl | rfl
    · exact starts.writes (hbases _ List.mem_cons_self) fun _ hcall => absurd hcall List.not_mem_nil
    · exact stops.writes (hbases _ (List.mem_cons_of_mem _ List.mem_cons_self))
        fun _ hcall => absurd hcall List.not_mem_nil
  | pipeline reads makes =>
    rw [reads] at hbases
    obtain rfl := List.mem_singleton.1 hp
    exact makes.writes (hbases _ List.mem_cons_self) hcalls

theorem Leaf.writes {j : Nat} {added : List Instruction} {x : Instruction}
    (h : Leaf env L σ i added j) (hx : x ∈ added) (hp : p ∈ x.pipelines) :
    ∃ token, env.token? i = some token ∧ token.Writes p := by
  have one {y : Instruction} (hx : x ∈ [y]) (hy : y.pipelines = []) : False := by
    obtain rfl := List.mem_singleton.1 hx
    rw [hy] at hp
    exact List.not_mem_nil hp
  cases h with
  | text | raw =>
    split at hx
    · exact absurd hx List.not_mem_nil
    · exact (one hx rfl).elim
  | comment | mixin | trim => exact absurd hx List.not_mem_nil
  | capture | script | «break» | «continue» => exact (one hx rfl).elim
  | block _ _ _ adds =>
    rcases adds with rfl | rfl
    · exact absurd hx List.not_mem_nil
    · exact (one hx rfl).elim
  | object here makes =>
    obtain rfl := List.mem_singleton.1 hx
    obtain rfl := List.mem_singleton.1 hp
    exact ⟨_, here, makes.writes List.mem_cons_self fun _ hcall => hcall⟩
  | assign here name reads _ makes =>
    obtain rfl := List.mem_singleton.1 hx
    obtain rfl := List.mem_singleton.1 hp
    exact ⟨_, here, makes.writes (by simp [Token.operands, name, reads]) fun _ hcall =>
      Token.mem_uses (by rw [name]; decide) (by rw [name]; decide) hcall⟩
  | callMixin here name makes =>
    obtain rfl := List.mem_singleton.1 hx
    refine ⟨_, here, makes.writes (fun base hbase => ?_) hp⟩
    rw [Token.operands_call name]
    exact hbase

theorem Opens.writes {kind : OpenKind} (h : Opens env L σ i kind) (hp : p ∈ kind.pipelines) :
    ∃ token, env.token? i = some token ∧ token.Writes p := by
  cases h with
  | @condition tag kind _ here name makes =>
    obtain rfl := List.mem_singleton.1 hp
    refine ⟨_, here, makes.writes ?_ fun _ hcall => Token.mem_uses ?_ ?_ hcall⟩
    · cases kind <;> simp [Token.operands, name, ConditionKind.opener]
    all_goals rw [name]; cases kind <;> decide
  | case here name makes =>
    obtain rfl := List.mem_singleton.1 hp
    exact ⟨_, here, makes.writes (by simp [Token.operands, name]) fun _ hcall =>
      Token.mem_uses (by rw [name]; decide) (by rw [name]; decide) hcall⟩
  | loop here name reads _ _ _ runs =>
    have hmem : "for" ∈ filteringTags := by decide
    refine ⟨_, here, runs.writes (fun base hbase => ?_) (fun call hcall => ?_) hp⟩
    · simpa [Token.operands, name, reads] using hbase
    · simpa [Token.uses, name, hmem] using hcall

/-- The next header has the pipelines of the one before, and those of the token. -/
theorem Turns.writes {kind next : OpenKind} {found : List Instruction}
    (h : Turns env L σ i found kind next) (hp : p ∈ next.pipelines) :
    p ∈ kind.pipelines ∨ ∃ token, env.token? i = some token ∧ token.Writes p := by
  have labels {label : ArmLabel} (h : Labels env L σ i label)
      (hp : p ∈ Checker.labelPipelines label) :
      ∃ token, env.token? i = some token ∧ token.Writes p := by
    cases h with
    | values here name makes =>
      exact ⟨_, here, makes.writes (fun _ hbase => by simpa [Token.operands, name] using hbase) hp⟩
    | default => exact absurd hp List.not_mem_nil
  cases h with
  | @elseIf tag branches q _ negated here name makes =>
    simp only [OpenKind.pipelines, Option.toList_some, List.map_cons, List.map_nil,
      List.cons_append, List.nil_append, List.mem_cons] at hp
    rcases hp with rfl | hp
    · refine .inr ⟨_, here, makes.writes ?_ fun _ hcall => Token.mem_uses ?_ ?_ hcall⟩
      · rcases name with name | name <;> simp [Token.operands, name]
      all_goals rcases name with name | name <;> rw [name] <;> decide
    · exact .inl (by simpa [OpenKind.pipelines] using hp)
  | otherwise => exact .inl (by simpa [OpenKind.pipelines] using hp)
  | firstArm _ hlabels =>
    simp only [OpenKind.pipelines, Option.toList_some, List.flatMap_cons, List.flatMap_nil,
      List.append_nil, List.mem_cons, List.mem_append] at hp
    rcases hp with rfl | hp | hp
    · exact .inl List.mem_cons_self
    · exact .inr (labels hlabels hp)
    · exact .inl (List.mem_cons_of_mem _ hp)
  | arm hlabels =>
    simp only [OpenKind.pipelines, Option.toList_some, List.flatMap_cons, List.flatMap_nil,
      List.append_nil, List.mem_cons, List.mem_append] at hp
    rcases hp with rfl | hp | hp
    · exact .inl List.mem_cons_self
    · exact .inr (labels hlabels hp)
    · exact .inl (by simpa [OpenKind.pipelines] using Or.inr hp)

/-- The pipelines in the header of a block come from tokens that were generated. -/
theorem Filled.writes {start : Nat} {kind : OpenKind} {found : List Instruction}
    (h : Filled env L A σ start kind found i) (hp : p ∈ kind.pipelines) :
    ∃ k σ token, A k σ ∧ env.token? k = some token ∧ token.Writes p := by
  induction h with
  | root => exact absurd hp List.not_mem_nil
  | opened opens held =>
    obtain ⟨token, here, hwrites⟩ := opens.writes hp
    exact ⟨_, _, token, held, here, hwrites⟩
  | mark _ _ _ ih | leaf _ _ _ ih => exact ih hp
  | nested _ _ _ _ _ _ ih => exact ih hp
  | turn _ turns held ih =>
    rcases turns.writes hp with hp | ⟨token, here, hwrites⟩
    · exact ih hp
    · exact ⟨_, _, token, held, here, hwrites⟩

/-- A pipeline of an instruction comes from a token that was generated. -/
theorem Arises.writes {start stop : Nat} {x : Instruction} (h : Arises env L A start stop x)
    (hp : p ∈ x.pipelines) : ∃ k σ token, A k σ ∧ env.token? k = some token ∧ token.Writes p := by
  cases h with
  | position eq =>
    subst eq
    exact absurd hp List.not_mem_nil
  | leaf leaf held mem =>
    obtain ⟨token, here, hwrites⟩ := leaf.writes mem hp
    exact ⟨_, _, token, held, here, hwrites⟩
  | block spans =>
    obtain ⟨_, _, _, filled, complete⟩ := spans
    exact filled.writes (OpenKind.mem_pipelines complete hp)

end

end Stencil
