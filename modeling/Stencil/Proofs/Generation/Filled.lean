import Mathlib.Data.List.Forall2
import Stencil.Generation.Generate
import Stencil.Proofs.Generation.Nesting

/-!
# What programs are made of

The tokens of a body determine its instructions, up to positions and to the blanks that `trim` drops.
`Filled` says so token by token: it relates an open block and the scope around it to the instructions
that the tokens up to some index have put into the block.

* `Leaf` is what a token, or a verbatim block, adds by itself;
* `Opens` and `Turns` tell how blocks begin and how their branches and arms follow each other;
* `Filled.nested` completes a block with the tokens between its opener and its closing tag.

The scope behind some instructions is computed from the names they bind (`Scope.behind`), so that it
is known at every place of a program. Variables that have to be bound are among the names in `L`.
-/

namespace Stencil

/-! ## Scopes -/

/-- The names that an instruction binds where it stands. -/
def Instruction.binds : Instruction → List String
  | .assign name .. => [name]
  | .capture name .. => [name]
  | .script source => Handler.declaredNames source
  | _ => []

namespace Scope

/-- The scope behind some instructions. -/
def behind (σ : Scope) (body : List Instruction) : Scope := σ.addAll (body.flatMap Instruction.binds)

theorem addAll_append (σ : Scope) (names more : List String) :
    σ.addAll (names ++ more) = (σ.addAll names).addAll more := by
  simp [addAll]

theorem behind_append (σ : Scope) (body more : List Instruction) :
    σ.behind (body ++ more) = (σ.behind body).behind more := by
  rw [behind, List.flatMap_append, addAll_append]
  rfl

/-- An instruction that binds no name leaves the scope as it is. -/
theorem behind_singleton {σ : Scope} {i : Instruction} (h : i.binds = []) : σ.behind [i] = σ := by
  simp [behind, h, addAll]

@[simp]
theorem depth_addAll (σ : Scope) (names : List String) : (σ.addAll names).depth = σ.depth := by
  induction names generalizing σ with
  | nil => rfl
  | cons name names ih =>
    show ((σ.add name).addAll names).depth = _
    rw [ih, depth_add]

@[simp]
theorem depth_behind (σ : Scope) (body : List Instruction) : (σ.behind body).depth = σ.depth :=
  depth_addAll σ _

/-- Names are added to the innermost frame. -/
theorem addAll_frames (frame : NameSet) (frames : List NameSet) (names : List String) :
    (⟨frame :: frames⟩ : Scope).addAll names = ⟨frame.insertAll names :: frames⟩ := by
  induction names generalizing frame with
  | nil => rfl
  | cons name names ih => exact ih (frame.insert name)

theorem depth_opened_pos (σ : Scope) (names : List String) :
    0 < (σ.create.addAll names).depth := by
  rw [depth_addAll, depth_create]
  exact Nat.succ_pos _

/-- Closing a frame takes back opening it and all that was bound in it. -/
theorem destroy_addAll_create {σ : Scope} (h : 0 < σ.depth) (names : List String) :
    (σ.create.addAll names).destroy = σ := by
  obtain ⟨frames⟩ := σ
  cases frames with
  | nil => simp [depth] at h
  | cons frame frames =>
    rw [create, addAll_frames]
    rfl

section

variable {σ : Scope} {name : String}

theorem has_create : σ.create.has name = σ.has name := by
  simp [create, has]

theorem has_add (hσ : 0 < σ.depth) {x : String} :
    (σ.add x).has name = true ↔ name = x ∨ σ.has name = true := by
  obtain ⟨frames⟩ := σ
  cases frames with
  | nil => cases hσ
  | cons frame outer => simp [add, has, or_assoc]

theorem has_addAll (hσ : 0 < σ.depth) {names : List String} :
    (σ.addAll names).has name = true ↔ name ∈ names ∨ σ.has name = true := by
  induction names generalizing σ with
  | nil => simp [addAll]
  | cons x names ih =>
    have hadd : 0 < (σ.add x).depth := by rwa [depth_add]
    show ((σ.add x).addAll names).has name = true ↔ _
    rw [ih hadd, has_add hσ, List.mem_cons, or_assoc]
    exact or_left_comm

theorem has_opened {names : List String} :
    (σ.create.addAll names).has name = true ↔ name ∈ names ∨ σ.has name = true := by
  rw [has_addAll (by rw [depth_create]; exact Nat.succ_pos _), has_create]

end

end Scope

/-! ## Pipelines -/

/-- The variable that an expression reads, unless the template binds it. -/
def Scope.needed (σ : Scope) (expression : String) : Option String :=
  (Access.ofExpression? expression).bind fun access =>
    if σ.has access.variableName then none else some access.variableName

/-- The pipeline of an expression and its filters. -/
def Pipeline.ofExpression (σ : Scope) (base : String) (calls : List FilterCall) : Pipeline :=
  ⟨Text.trimmed base, calls, σ.needed base⟩

/-- A pipeline is that of an expression, and the variable it needs is a known one. -/
structure Makes (L : String → Prop) (σ : Scope) (base : String) (calls : List FilterCall)
    (p : Pipeline) : Prop where
  made : p = .ofExpression σ base calls
  known : ∀ name, p.needed = some name → L name

/-- Some pipelines are those of expressions without filters. -/
def MakesAll (L : String → Prop) (σ : Scope) (bases : List String) (ps : List Pipeline) : Prop :=
  List.Forall₂ (fun base p => Makes L σ base [] p) bases ps

/-! ## Tokens and blocks -/

section

variable (env : DraftEnv) (L : String → Prop)

/-- What the token at an index adds to a body, with the index behind it and behind its content. -/
inductive Leaf (σ : Scope) (i : Nat) : List Instruction → Nat → Prop where
  | text {text written : String} {pos : Pos} (here : env.token? i = some (.raw text pos))
      (written_eq : written = text ∨ written = .ofList (Text.trimLeft text.toList)) :
      Leaf σ i (if written.isEmpty then [] else [.text written]) (i + 1)
  | object {expression source : String} {calls : List FilterCall} {pos : Pos} {p : Pipeline}
      (here : env.token? i = some (.object expression calls source pos))
      (makes : Makes L σ expression calls p) : Leaf σ i [.emit p] (i + 1)
  | assign {tag : Tag} {head : AssignmentHead} {p : Pipeline}
      (here : env.token? i = some (.tag tag)) (name : tag.name = "assign")
      (reads : AssignmentHead.ofHead? tag.head = some head)
      (valid : isVariableName head.name = true) (makes : Makes L σ head.value tag.filters p) :
      Leaf σ i [.assign head.name head.op p (!σ.has head.name && decide (head.op = .set))] (i + 1)
  | capture {tag : Tag} {stop : Nat} (here : env.token? i = some (.tag tag))
      (name : tag.name = "capture") (valid : isVariableName tag.head = true)
      (ends : verbatimEnd? env.tokens tag.name i = some stop) :
      Leaf σ i [.capture tag.head (env.sourceBetween (i + 1) stop) (!σ.has tag.head)] (stop + 1)
  | raw {tag : Tag} {stop : Nat} (here : env.token? i = some (.tag tag)) (name : tag.name = "raw")
      (ends : verbatimEnd? env.tokens tag.name i = some stop) :
      Leaf σ i (if (env.sourceBetween (i + 1) stop).isEmpty then []
        else [.text (env.sourceBetween (i + 1) stop)]) (stop + 1)
  | comment {tag : Tag} {stop : Nat} (here : env.token? i = some (.tag tag))
      (name : tag.name = "comment") (ends : verbatimEnd? env.tokens tag.name i = some stop) :
      Leaf σ i [] (stop + 1)
  | script {tag : Tag} {stop : Nat} (here : env.token? i = some (.tag tag)) (name : tag.name = "js")
      (closes : closingTag env.kinds env.tokens "endjs" i = .ok stop) :
      Leaf σ i [.script (env.sourceBetween (i + 1) stop)] (stop + 1)
  | break {tag : Tag} (here : env.token? i = some (.tag tag)) (name : tag.name = "break") :
      Leaf σ i [.break] (i + 1)
  | continue {tag : Tag} (here : env.token? i = some (.tag tag)) (name : tag.name = "continue") :
      Leaf σ i [.continue] (i + 1)
  | mixin {tag : Tag} {stop : Nat} (here : env.token? i = some (.tag tag))
      (name : tag.name = "mixin")
      (closes : closingTag env.kinds env.tokens "endmixin" i = .ok stop) : Leaf σ i [] (stop + 1)
  | callMixin {tag : Tag} {args : List Pipeline} (here : env.token? i = some (.tag tag))
      (name : TagRegistry.handlerName tag.name = "+")
      (makes : MakesAll L σ (Handler.partsOf ' ' tag.head) args) :
      Leaf σ i [.callMixin (.ofList (tag.name.toList.drop 1)) args] (i + 1)
  | block {tag : Tag} {stop : Nat} {called : String} {found : List Instruction}
      (here : env.token? i = some (.tag tag)) (name : tag.name = "block")
      (reads : blockName? tag = some called) (adds : found = [] ∨ found = [.callBlock called])
      (closes : closingTag env.kinds env.tokens "endblock" i = .ok stop) :
      Leaf σ i found (stop + 1)
  | trim {tag : Tag} (here : env.token? i = some (.tag tag)) (name : tag.name = "trim") :
      Leaf σ i [] (i + 1)

/-- What a loop runs over. -/
inductive RunsOver (σ : Scope) (text : String) (calls : List FilterCall) : Iterable → Prop where
  | range {first second : String} {start stop : Pipeline}
      (reads : (if calls.isEmpty then rangeBounds? text else none) = some (first, second))
      (starts : Makes L σ first [] start) (stops : Makes L σ second [] stop) :
      RunsOver σ text calls (.range start stop)
  | pipeline {p : Pipeline} (reads : (if calls.isEmpty then rangeBounds? text else none) = none)
      (makes : Makes L σ text calls p) : RunsOver σ text calls (.pipeline p)

/-- The token at an index opens a block. -/
inductive Opens (σ : Scope) (i : Nat) : OpenKind → Prop where
  | condition {tag : Tag} {kind : ConditionKind} {p : Pipeline}
      (here : env.token? i = some (.tag tag)) (name : tag.name = kind.opener)
      (makes : Makes L σ tag.head tag.filters p) :
      Opens σ i (.condition kind [] (some (p, kind = .ifFalse)))
  | case {tag : Tag} {p : Pipeline} (here : env.token? i = some (.tag tag))
      (name : tag.name = "case") (makes : Makes L σ tag.head tag.filters p) :
      Opens σ i (.case p [] none)
  | loop {tag : Tag} {head : LoopHead} {binding : LoopBinding} {iterable : Iterable}
      {offset limit : Option Int} (here : env.token? i = some (.tag tag)) (name : tag.name = "for")
      (reads : LoopHead.ofHead? tag.head = some head)
      (bound : LoopBinding.ofText head.binding = .ok binding)
      (offsets : Handler.loopBound env tag "offset" = .ok offset)
      (limits : Handler.loopBound env tag "limit" = .ok limit)
      (runs : RunsOver L σ head.iterable (tag.filters.filter (!Handler.isLoopBound ·)) iterable) :
      Opens σ i (.loop binding iterable offset limit)

/-- The token at an index starts an arm with a label. -/
inductive Labels (σ : Scope) (i : Nat) : ArmLabel → Prop where
  | values {tag : Tag} {values : List Pipeline} (here : env.token? i = some (.tag tag))
      (name : tag.name = "when") (makes : MakesAll L σ (Handler.partsOf ',' tag.head) values)
      (some : values.isEmpty = false) : Labels σ i (.values values)
  | default {tag : Tag} (here : env.token? i = some (.tag tag)) (name : tag.name = "default") :
      Labels σ i .default

/-- The token at an index completes a branch or an arm of an open block, whose instructions are
kept latest first, and starts the next one. -/
inductive Turns (σ : Scope) (i : Nat) (found : List Instruction) : OpenKind → OpenKind → Prop where
  | elseIf {tag : Tag} {branches : List Branch} {p next : Pipeline} {negated : Bool}
      (here : env.token? i = some (.tag tag)) (name : tag.name = "elseif" ∨ tag.name = "elsif")
      (makes : Makes L σ tag.head tag.filters next) :
      Turns σ i found (.condition .ifTrue branches (some (p, negated)))
        (.condition .ifTrue (.mk p negated found.reverse :: branches) (some (next, false)))
  | otherwise {tag : Tag} {kind : ConditionKind} {branches : List Branch} {p : Pipeline}
      {negated : Bool} (here : env.token? i = some (.tag tag)) (name : tag.name = "else") :
      Turns σ i found (.condition kind branches (some (p, negated)))
        (.condition kind (.mk p negated found.reverse :: branches) none)
  | firstArm {subject : Pipeline} {arms : List Arm} {label : ArmLabel}
      (blank : Handler.isBlankBody found = true) (labels : Labels env L σ i label) :
      Turns σ i found (.case subject arms none) (.case subject arms (some label))
  | arm {subject : Pipeline} {arms : List Arm} {label next : ArmLabel}
      (labels : Labels env L σ i next) :
      Turns σ i found (.case subject arms (some label))
        (.case subject (.mk label found.reverse :: arms) (some next))

end

namespace OpenKind

/-- The tag that opens a block. -/
def opener : OpenKind → String
  | root => ""
  | condition kind _ _ => kind.opener
  | case .. => "case"
  | loop .. => "for"

/-- The scope where the branch or the arm of a block that is being filled begins. The arms of a case
share one frame. -/
def scope (σ : Scope) : OpenKind → Scope
  | root => σ
  | condition .. => σ.create
  | case _ arms _ => σ.create.addAll (arms.reverse.flatMap fun
      | .mk _ body => body.flatMap Instruction.binds)
  | loop binding .. => σ.create.addAll binding.names

/-- The instruction of a block with all its instructions, which are kept latest first. -/
def complete? (found : List Instruction) : OpenKind → Option Instruction
  | root => none
  | condition _ branches (some (p, negated)) =>
    some (.choose (.mk p negated found.reverse :: branches).reverse none)
  | condition _ branches none => some (.choose branches.reverse (some found.reverse))
  | case subject arms (some label) =>
    some (.switch subject (.mk label found.reverse :: arms).reverse)
  | case _ _ none => none
  | loop binding iterable offset limit =>
    some (.loop binding iterable offset limit found.reverse)

end OpenKind

/-- The tokens from `start` up to an index have filled a block of a kind, opened in the scope `σ`,
with instructions, which are kept latest first. `A` tells in which scopes tokens are generated. -/
inductive Filled (env : DraftEnv) (L : String → Prop) (A : Nat → Scope → Prop) :
    Scope → Nat → OpenKind → List Instruction → Nat → Prop where
  | root {σ : Scope} {start : Nat} : Filled env L A σ start .root [] start
  | opened {σ : Scope} {i : Nat} {kind : OpenKind} (opens : Opens env L σ i kind) (held : A i σ) :
      Filled env L A σ (i + 1) kind [] (i + 1)
  | mark {σ : Scope} {start i : Nat} {kind : OpenKind} {found : List Instruction} {token : Token}
      (filled : Filled env L A σ start kind found i) (here : env.token? i = some token)
      (held : A i ((kind.scope σ).behind found.reverse)) :
      Filled env L A σ start kind (Draft.markIn token.pos found) i
  | leaf {σ : Scope} {start i j : Nat} {kind : OpenKind} {found added : List Instruction}
      (filled : Filled env L A σ start kind found i)
      (leaf : Leaf env L ((kind.scope σ).behind found.reverse) i added j)
      (held : A i ((kind.scope σ).behind found.reverse)) :
      Filled env L A σ start kind (added.reverse ++ found) j
  | nested {σ : Scope} {start i stop : Nat} {kind inner : OpenKind}
      {found content : List Instruction} {tag : Tag} {instruction : Instruction}
      (filled : Filled env L A σ start kind found i) (here : env.token? i = some (.tag tag))
      (opener : tag.name = inner.opener)
      (closes : closingTag env.kinds env.tokens (closerOf inner.opener) i = .ok stop)
      (body : Filled env L A ((kind.scope σ).behind found.reverse) (i + 1) inner content stop)
      (complete : inner.complete? content = some instruction) :
      Filled env L A σ start kind (instruction :: found) (stop + 1)
  | turn {σ : Scope} {start i : Nat} {kind next : OpenKind} {found : List Instruction}
      (filled : Filled env L A σ start kind found i)
      (turns : Turns env L ((kind.scope σ).behind found.reverse) i found kind next)
      (held : A i ((kind.scope σ).behind found.reverse)) :
      Filled env L A σ start next [] (i + 1)

/-! ## More known variables -/

section

variable {env : DraftEnv} {L L' : String → Prop} {A : Nat → Scope → Prop} {σ : Scope} {i : Nat}

theorem Makes.mono {base : String} {calls : List FilterCall} {p : Pipeline}
    (h : Makes L σ base calls p) (hL : ∀ name, L name → L' name) : Makes L' σ base calls p :=
  ⟨h.made, fun name hname => hL name (h.known name hname)⟩

theorem MakesAll.mono {bases : List String} {ps : List Pipeline} (h : MakesAll L σ bases ps)
    (hL : ∀ name, L name → L' name) : MakesAll L' σ bases ps :=
  List.Forall₂.imp (fun _ _ hp => Makes.mono hp hL) h

theorem Leaf.mono {found : List Instruction} {j : Nat} (h : Leaf env L σ i found j)
    (hL : ∀ name, L name → L' name) : Leaf env L' σ i found j := by
  cases h with
  | text here written_eq => exact .text here written_eq
  | object here makes => exact .object here (makes.mono hL)
  | assign here name reads valid makes => exact .assign here name reads valid (makes.mono hL)
  | capture here name valid ends => exact .capture here name valid ends
  | raw here name ends => exact .raw here name ends
  | comment here name ends => exact .comment here name ends
  | script here name closes => exact .script here name closes
  | «break» here name => exact .break here name
  | «continue» here name => exact .continue here name
  | mixin here name closes => exact .mixin here name closes
  | callMixin here name makes => exact .callMixin here name (makes.mono hL)
  | block here name reads adds closes => exact .block here name reads adds closes
  | trim here name => exact .trim here name

theorem RunsOver.mono {text : String} {calls : List FilterCall} {iterable : Iterable}
    (h : RunsOver L σ text calls iterable) (hL : ∀ name, L name → L' name) :
    RunsOver L' σ text calls iterable := by
  cases h with
  | range reads starts stops => exact .range reads (starts.mono hL) (stops.mono hL)
  | pipeline reads makes => exact .pipeline reads (makes.mono hL)

theorem Opens.mono {kind : OpenKind} (h : Opens env L σ i kind) (hL : ∀ name, L name → L' name) :
    Opens env L' σ i kind := by
  cases h with
  | condition here name makes => exact .condition here name (makes.mono hL)
  | case here name makes => exact .case here name (makes.mono hL)
  | loop here name reads bound offsets limits runs =>
    exact .loop here name reads bound offsets limits (runs.mono hL)

theorem Labels.mono {label : ArmLabel} (h : Labels env L σ i label)
    (hL : ∀ name, L name → L' name) : Labels env L' σ i label := by
  cases h with
  | values here name makes some => exact .values here name (makes.mono hL) some
  | default here name => exact .default here name

theorem Turns.mono {found : List Instruction} {kind next : OpenKind}
    (h : Turns env L σ i found kind next) (hL : ∀ name, L name → L' name) :
    Turns env L' σ i found kind next := by
  cases h with
  | elseIf here name makes => exact .elseIf here name (makes.mono hL)
  | otherwise here name => exact .otherwise here name
  | firstArm blank labels => exact .firstArm blank (labels.mono hL)
  | arm labels => exact .arm (labels.mono hL)

theorem Filled.mono {start : Nat} {kind : OpenKind} {found : List Instruction}
    (h : Filled env L A σ start kind found i) (hL : ∀ name, L name → L' name) :
    Filled env L' A σ start kind found i := by
  induction h with
  | root => exact .root
  | opened opens held => exact .opened (opens.mono hL) held
  | mark _ here held ih => exact .mark ih here held
  | leaf _ leaf held ih => exact .leaf ih (leaf.mono hL) held
  | nested _ here opener closes _ complete ih ihbody =>
    exact .nested ih here opener closes ihbody complete
  | turn _ turns held ih => exact .turn ih (turns.mono hL) held

end

/-! ## Tokens are well nested -/

section

variable {env : DraftEnv} {L : String → Prop} {A : Nat → Scope → Prop} {σ : Scope} {i : Nat}

theorem isPlain_tag {tag : Tag} (hblock : tag.name ∉ blockTags) (hcloser : isCloser tag.name = false) :
    Token.IsPlain TagRegistry.builtin.kinds (.tag tag) := by
  rintro _ ⟨rfl⟩
  exact ⟨by simpa [← mem_blockTags] using hblock, hcloser⟩

theorem isPlain_of_name {tag : Tag} {name : String} (h : tag.name = name)
    (hblock : name ∉ blockTags) (hcloser : isCloser name = false) :
    Token.IsPlain TagRegistry.builtin.kinds (.tag tag) :=
  isPlain_tag (h ▸ hblock) (h ▸ hcloser)

theorem head_of_handlerName {name : String} (h : TagRegistry.handlerName name = "+") :
    name.toList.head? = some '+' := by
  unfold TagRegistry.handlerName at h
  split at h
  · next hname => rw [hname]; rfl
  · rw [h]; rfl

/-- The call of a mixin is no block tag. -/
theorem isPlain_call {tag : Tag} (h : TagRegistry.handlerName tag.name = "+") :
    Token.IsPlain TagRegistry.builtin.kinds (.tag tag) := by
  have hhead := head_of_handlerName h
  refine isPlain_tag (fun hmem => ?_) ?_
  · have hall : ∀ name ∈ blockTags, name.toList.head? ≠ some '+' := by decide
    exact hall _ hmem hhead
  · obtain ⟨rest, hname⟩ := List.head?_eq_some_iff.1 hhead
    rw [isCloser, hname]
    rfl

theorem wellNested_token {token : Token} (here : env.token? i = some token)
    (plain : token.IsPlain TagRegistry.builtin.kinds) :
    i < i + 1 ∧ i + 1 ≤ env.tokens.length ∧
      WellNested TagRegistry.builtin.kinds (between env.tokens i (i + 1)) := by
  obtain ⟨hlt, _⟩ := List.getElem?_eq_some_iff.1 here
  rw [between_succ here]
  exact ⟨Nat.lt_succ_self i, hlt, .singleton plain⟩

theorem wellNested_region {tag : Tag} {name : String} {stop : Nat} (hkinds : env.kinds =
    TagRegistry.builtin.kinds) (here : env.token? i = some (.tag tag)) (hname : tag.name = name)
    (hblock : name ∈ blockTags) (hlooked : name ∉ verbatimTags)
    (closes : closingTag env.kinds env.tokens (closerOf name) i = .ok stop) :
    i < stop + 1 ∧ stop + 1 ≤ env.tokens.length ∧
      WellNested TagRegistry.builtin.kinds (between env.tokens i (stop + 1)) := by
  subst hname
  rw [hkinds] at closes
  obtain ⟨_, closer, hcloser, _⟩ := wellNested_of_closingTag closes
  obtain ⟨hlt, _⟩ := List.getElem?_eq_some_iff.1 hcloser
  refine ⟨by have := lt_of_closingTag closes; omega, hlt, ?_⟩
  exact wellNested_block here (mem_blockTags.2 hblock)
    (by simpa [← mem_verbatimTags] using hlooked) closes

theorem wellNested_kept {tag : Tag} {name : String} {stop : Nat}
    (here : env.token? i = some (.tag tag)) (hname : tag.name = name)
    (hverbatim : name ∈ verbatimTags) (ends : verbatimEnd? env.tokens tag.name i = some stop) :
    i < stop + 1 ∧ stop + 1 ≤ env.tokens.length ∧
      WellNested TagRegistry.builtin.kinds (between env.tokens i (stop + 1)) := by
  subst hname
  obtain ⟨hlt, ⟨closer, hcloser, _⟩, _⟩ := verbatimEnd?_eq_some ends
  obtain ⟨hstop, _⟩ := List.getElem?_eq_some_iff.1 hcloser
  exact ⟨by omega, hstop, wellNested_verbatim here (mem_verbatimTags.2 hverbatim) ends⟩

/-- What a token takes with it is well nested. -/
theorem Leaf.wellNested (hkinds : env.kinds = TagRegistry.builtin.kinds)
    {found : List Instruction} {j : Nat} (h : Leaf env L σ i found j) :
    i < j ∧ j ≤ env.tokens.length ∧
      WellNested TagRegistry.builtin.kinds (between env.tokens i j) := by
  cases h with
  | text here => exact wellNested_token here fun _ h => by cases h
  | object here => exact wellNested_token here fun _ h => by cases h
  | assign here name => exact wellNested_token here (isPlain_of_name name (by decide) rfl)
  | capture here name _ ends => exact wellNested_kept here name (by decide) ends
  | raw here name ends => exact wellNested_kept here name (by decide) ends
  | comment here name ends => exact wellNested_kept here name (by decide) ends
  | script here name closes =>
    exact wellNested_region hkinds here name (by decide) (by decide) closes
  | «break» here name => exact wellNested_token here (isPlain_of_name name (by decide) rfl)
  | «continue» here name => exact wellNested_token here (isPlain_of_name name (by decide) rfl)
  | mixin here name closes =>
    exact wellNested_region hkinds here name (by decide) (by decide) closes
  | callMixin here name => exact wellNested_token here (isPlain_call name)
  | block here name _ _ closes =>
    exact wellNested_region hkinds here name (by decide) (by decide) closes
  | trim here name => exact wellNested_token here (isPlain_of_name name (by decide) rfl)

theorem Opens.lt {kind : OpenKind} (h : Opens env L σ i kind) : i < env.tokens.length := by
  cases h with
  | condition here => exact (List.getElem?_eq_some_iff.1 here).1
  | case here => exact (List.getElem?_eq_some_iff.1 here).1
  | loop here => exact (List.getElem?_eq_some_iff.1 here).1

theorem Labels.wellNested {label : ArmLabel} (h : Labels env L σ i label) :
    i < i + 1 ∧ i + 1 ≤ env.tokens.length ∧
      WellNested TagRegistry.builtin.kinds (between env.tokens i (i + 1)) := by
  cases h with
  | values here name => exact wellNested_token here (isPlain_of_name name (by decide) rfl)
  | default here name => exact wellNested_token here (isPlain_of_name name (by decide) rfl)

theorem Turns.wellNested {found : List Instruction} {kind next : OpenKind}
    (h : Turns env L σ i found kind next) :
    i < i + 1 ∧ i + 1 ≤ env.tokens.length ∧
      WellNested TagRegistry.builtin.kinds (between env.tokens i (i + 1)) := by
  cases h with
  | elseIf here name =>
    rcases name with name | name
    · exact wellNested_token here (isPlain_of_name name (by decide) rfl)
    · exact wellNested_token here (isPlain_of_name name (by decide) rfl)
  | otherwise here name => exact wellNested_token here (isPlain_of_name name (by decide) rfl)
  | firstArm _ labels => exact labels.wellNested
  | arm labels => exact labels.wellNested

/-- Open blocks are not verbatim. -/
theorem OpenKind.opener_mem (kind : OpenKind) (h : kind ≠ .root) :
    kind.opener ∈ blockTags ∧ kind.opener ∉ verbatimTags := by
  cases kind with
  | root => exact absurd rfl h
  | condition kind =>
    cases kind with
    | ifTrue => exact (by decide : "if" ∈ blockTags ∧ "if" ∉ verbatimTags)
    | ifFalse => exact (by decide : "unless" ∈ blockTags ∧ "unless" ∉ verbatimTags)
  | case => exact (by decide : "case" ∈ blockTags ∧ "case" ∉ verbatimTags)
  | loop => exact (by decide : "for" ∈ blockTags ∧ "for" ∉ verbatimTags)

/-- The tokens that have filled a block are well nested. -/
theorem Filled.wellNested (hkinds : env.kinds = TagRegistry.builtin.kinds) {start : Nat}
    {kind : OpenKind} {found : List Instruction} (h : Filled env L A σ start kind found i)
    (hstart : start ≤ env.tokens.length) :
    start ≤ i ∧ i ≤ env.tokens.length ∧
      WellNested TagRegistry.builtin.kinds (between env.tokens start i) := by
  induction h with
  | root => exact ⟨Nat.le_refl _, hstart, by rw [between_self]; exact .nil⟩
  | opened opens => exact ⟨Nat.le_refl _, opens.lt, by rw [between_self]; exact .nil⟩
  | mark _ _ _ ih => exact ih hstart
  | leaf _ leaf _ ih =>
    obtain ⟨hle, _, hnested⟩ := ih hstart
    obtain ⟨hlt, hj, hleaf⟩ := leaf.wellNested hkinds
    refine ⟨by omega, hj, ?_⟩
    rw [← between_append hle (Nat.le_of_lt hlt)]
    exact hnested.append hleaf
  | @nested _ _ _ _ _ inner _ _ _ _ _ here opener closes _ complete ih _ =>
    obtain ⟨hle, _, hnested⟩ := ih hstart
    have hopener := inner.opener_mem (by rintro rfl; cases complete)
    obtain ⟨hlt, hj, hblock⟩ :=
      wellNested_region hkinds here opener hopener.1 hopener.2 closes
    refine ⟨by omega, hj, ?_⟩
    rw [← between_append hle (Nat.le_of_lt hlt)]
    exact hnested.append hblock
  | turn _ turns _ ih =>
    obtain ⟨hle, _, hnested⟩ := ih hstart
    obtain ⟨hlt, hj, hturn⟩ := turns.wellNested
    refine ⟨by omega, hj, ?_⟩
    rw [← between_append hle (Nat.le_of_lt hlt)]
    exact hnested.append hturn

end

end Stencil
