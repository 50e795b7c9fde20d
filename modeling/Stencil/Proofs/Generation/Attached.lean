import Stencil.Proofs.Generation.Lasting
import Stencil.Proofs.Generation.Noted

/-!
# Where filter chains go

The filter chain of a tag is read before the tag is handled, and it is up to the handler to put it
into the program. `Tag.pipelines` are the pipelines that a tag makes of its head and its chain.

* `Opens.parts`, `Turns.parts`, `Leaf.parts`: a handler adds them, as one part, to a header or to the
  body.
* `partsLasting`: a part of a header becomes a part of the instruction.
* `generate_attaches`: so every tag that is generated has its pipelines in the program. They apply the
  whole chain, but for the values of `when` and the arguments of a mixin, which drop it.
-/

namespace Stencil

/-! ## Pipelines of tags -/

/-- The handlers that evaluate what stands in the head of a tag. -/
def evaluatingTags : List String := "when" :: "+" :: filteringTags

namespace Tag

/-- The filters behind the head of a tag. The bounds of a loop are none. -/
def chain (tag : Tag) : List FilterCall :=
  tag.filters.filter fun call => tag.name != "for" || !Handler.isLoopBound call

/-- What a loop evaluates before it runs: its two bounds, or what it runs over. -/
def loopPipelines (σ : Scope) (iterable : String) (calls : List FilterCall) : List Pipeline :=
  match if calls.isEmpty then rangeBounds? iterable else none with
  | some (first, second) => [.ofExpression σ first [], .ofExpression σ second []]
  | none => [.ofExpression σ iterable calls]

/-- What a tag evaluates, when it is generated in a scope. The values of `when` and the arguments of
a mixin stand without filters. -/
def pipelines (σ : Scope) (tag : Tag) : List Pipeline :=
  match TagRegistry.handlerName tag.name with
  | "assign" =>
    (AssignmentHead.ofHead? tag.head).toList.map fun head => .ofExpression σ head.value tag.chain
  | "for" =>
    (LoopHead.ofHead? tag.head).toList.flatMap fun head => loopPipelines σ head.iterable tag.chain
  | "when" => (Handler.partsOf ',' tag.head).map fun value => .ofExpression σ value []
  | "+" => (Handler.partsOf ' ' tag.head).map fun argument => .ofExpression σ argument []
  | "if" | "unless" | "elseif" | "elsif" | "case" => [.ofExpression σ tag.head tag.chain]
  | _ => []

variable {tag : Tag} {σ : Scope}

theorem chain_eq (h : tag.name ≠ "for") : tag.chain = tag.filters := by
  simp [chain, h]

theorem chain_for (h : tag.name = "for") :
    tag.chain = tag.filters.filter (!Handler.isLoopBound ·) := by
  simp [chain, h]

theorem filters_loopPipelines {iterable : String} {calls : List FilterCall} {p : Pipeline}
    (h : p ∈ loopPipelines σ iterable calls) : p.filters = calls := by
  unfold loopPipelines at h
  split at h
  · next heq =>
    -- A range is read only where there are no filters.
    split at heq
    · next hempty =>
      rw [List.isEmpty_iff.1 hempty]
      simp only [List.mem_cons, List.not_mem_nil, or_false] at h
      rcases h with rfl | rfl <;> rfl
    · cases heq
  · rw [List.mem_singleton.1 h]
    rfl

/-- The tags that evaluate one expression apply the whole chain to it. -/
theorem filters_pipelines (h : tag.name ∈ filteringTags) {p : Pipeline}
    (hp : p ∈ tag.pipelines σ) : p.filters = tag.chain := by
  simp only [filteringTags, List.mem_cons, List.not_mem_nil, or_false] at h
  rcases h with h | h | h | h | h | h | h <;> rw [pipelines, h] at hp
  · obtain ⟨head, _, rfl⟩ := List.mem_map.1 hp
    rfl
  iterate 5
    · obtain rfl := List.mem_singleton.1 hp
      rfl
  · obtain ⟨head, _, hp⟩ := List.mem_flatMap.1 hp
    exact filters_loopPipelines hp

/-- The others apply no filter. -/
theorem filters_pipelines_dropped (hname : TagRegistry.handlerName tag.name ∈ evaluatingTags)
    (h : tag.name ∉ filteringTags) {p : Pipeline} (hp : p ∈ tag.pipelines σ) : p.filters = [] := by
  rw [evaluatingTags, List.mem_cons, List.mem_cons] at hname
  rcases hname with hname | hname | hname
  · rw [pipelines, hname] at hp
    obtain ⟨value, _, rfl⟩ := List.mem_map.1 hp
    rfl
  · rw [pipelines, hname] at hp
    obtain ⟨argument, _, rfl⟩ := List.mem_map.1 hp
    rfl
  · have hplain : TagRegistry.handlerName tag.name ≠ "+" := by
      intro hplus
      rw [hplus] at hname
      exact absurd hname (by decide)
    exact absurd (Handler.handlerName_eq rfl hplain ▸ hname) h

end Tag

/-! ## Parts of headers -/

/-- The pipelines of an instruction, part by part: a part comes from one tag. -/
def Instruction.parts : Instruction → List (List Pipeline)
  | emit p => [[p]]
  | assign _ _ p _ => [[p]]
  | choose branches _ => branches.map fun | .mk p _ _ => [p]
  | switch subject arms => [subject] :: arms.map fun | .mk label _ => Checker.labelPipelines label
  | loop _ iterable _ _ _ => [Checker.pipelinesOf iterable]
  | callMixin _ args => [args]
  | _ => []

/-- The parts of the header of an open block. -/
def OpenKind.parts : OpenKind → List (List Pipeline)
  | root => []
  | condition _ branches current =>
    current.toList.map (fun c => [c.1]) ++ branches.map fun | .mk p _ _ => [p]
  | case subject arms current =>
    [subject] :: (current.toList.map Checker.labelPipelines ++
      arms.map fun | .mk label _ => Checker.labelPipelines label)
  | loop _ iterable _ _ => [Checker.pipelinesOf iterable]

/-- The parts are all that an instruction evaluates. -/
theorem Instruction.flatten_parts (x : Instruction) : x.parts.flatten = x.pipelines := by
  cases x with
  | choose branches _ =>
    induction branches with
    | nil => rfl
    | cons b bs ih =>
      obtain ⟨p, negated, body⟩ := b
      exact congrArg (p :: ·) ih
  | switch subject arms => exact congrArg (subject :: ·) (List.flatMap_def ..).symm
  | loop => exact List.append_nil _
  | callMixin => exact List.append_nil _
  | _ => rfl

section

variable {env : DraftEnv} {L : String → Prop} {σ : Scope} {i : Nat} {tag : Tag}
  {kind next : OpenKind} {found content : List Instruction} {ps : List Pipeline}

/-- The parts of a header become those of the instruction. -/
theorem OpenKind.parts_complete {x : Instruction} (h : kind.complete? content = some x)
    (hps : ps ∈ kind.parts) : ps ∈ x.parts := by
  cases kind with
  | root => cases h
  | condition kind branches current =>
    cases current <;> cases h <;> simpa [Instruction.parts, parts, or_comm] using hps
  | case subject arms current =>
    cases current with
    | none => cases h
    | some label =>
      cases h
      simpa [Instruction.parts, parts, or_comm] using hps
  | loop =>
    cases h
    exact hps

/-- A block that turns keeps the parts of its header. -/
theorem Turns.parts_subset (h : Turns env L σ i found kind next) (hps : ps ∈ kind.parts) :
    ps ∈ next.parts := by
  cases h with
  | elseIf => exact List.mem_cons_of_mem _ hps
  | otherwise => exact hps
  | firstArm =>
    simp only [OpenKind.parts, Option.toList_none, List.map_nil, List.nil_append, List.mem_cons,
      Option.toList_some, List.map_cons, List.cons_append] at hps ⊢
    exact hps.imp_right .inr
  | arm =>
    simp only [OpenKind.parts, List.map_nil, List.nil_append, List.mem_cons, Option.toList_some,
      List.map_cons, List.cons_append] at hps ⊢
    exact hps.imp_right .inr

theorem partsLasting (ps : List Pipeline) : Lasting (ps ∈ ·.parts) (ps ∈ ·.parts) where
  inner h hroot := by
    subst hroot
    exact List.not_mem_nil h
  turns h := h.parts_subset
  complete h := OpenKind.parts_complete h
  written {x} h := by
    cases x <;> first | rfl | exact absurd h List.not_mem_nil

/-! ## What handlers add -/

theorem MakesAll.eq_map {bases : List String} (h : MakesAll L σ bases ps) :
    ps = bases.map fun base => .ofExpression σ base [] := by
  induction h with
  | nil => rfl
  | cons makes _ ih => rw [List.map_cons, makes.made, ih]

theorem RunsOver.eq_pipelines {text : String} {calls : List FilterCall} {iterable : Iterable}
    (h : RunsOver L σ text calls iterable) :
    Checker.pipelinesOf iterable = Tag.loopPipelines σ text calls := by
  cases h with
  | range reads starts stops =>
    rw [Tag.loopPipelines, reads, Checker.pipelinesOf, starts.made, stops.made]
  | pipeline reads makes => rw [Tag.loopPipelines, reads, Checker.pipelinesOf, makes.made]

theorem pipelinesOf_ne_nil (iterable : Iterable) : Checker.pipelinesOf iterable ≠ [] := by
  cases iterable <;> exact List.cons_ne_nil _ _

/-- The head of a block evaluates what its tag makes. -/
theorem Opens.parts (here : env.token? i = some (.tag tag)) (h : Opens env L σ i kind) :
    tag.pipelines σ ∈ kind.parts ∧ tag.pipelines σ ≠ [] := by
  cases h with
  | @condition _ kind p here' name makes =>
    obtain rfl := Token.tag.inj (Option.some.inj (here.symm.trans here'))
    have hp : tag.pipelines σ = [p] := by
      rw [makes.made, Tag.pipelines]
      cases kind <;> rw [name, ← Tag.chain_eq (by rw [name]; decide)] <;> rfl
    rw [hp]
    exact ⟨List.mem_cons_self, List.cons_ne_nil _ _⟩
  | @case _ p here' name makes =>
    obtain rfl := Token.tag.inj (Option.some.inj (here.symm.trans here'))
    have hp : tag.pipelines σ = [p] := by
      rw [makes.made, Tag.pipelines, name, ← Tag.chain_eq (by rw [name]; decide)]
      rfl
    rw [hp]
    exact ⟨List.mem_cons_self, List.cons_ne_nil _ _⟩
  | @loop _ head _ iterable _ _ here' name reads _ _ _ runs =>
    obtain rfl := Token.tag.inj (Option.some.inj (here.symm.trans here'))
    have hps : tag.pipelines σ = Checker.pipelinesOf iterable := by
      rw [← Tag.chain_for name] at runs
      rw [runs.eq_pipelines, Tag.pipelines, name, reads]
      exact List.append_nil _
    rw [hps]
    exact ⟨List.mem_cons_self, pipelinesOf_ne_nil iterable⟩

/-- The label of an arm evaluates what its tag makes. -/
theorem Labels.parts {label : ArmLabel} (here : env.token? i = some (.tag tag))
    (hname : TagRegistry.handlerName tag.name ∈ evaluatingTags) (h : Labels env L σ i label) :
    tag.pipelines σ = Checker.labelPipelines label ∧ tag.pipelines σ ≠ [] := by
  cases h with
  | @values _ values here' name makes some =>
    obtain rfl := Token.tag.inj (Option.some.inj (here.symm.trans here'))
    have hps : tag.pipelines σ = values := by
      rw [makes.eq_map, Tag.pipelines, name]
      rfl
    exact ⟨hps, fun hnil => by rw [← hps, hnil] at some; cases some⟩
  | default here' name =>
    obtain rfl := Token.tag.inj (Option.some.inj (here.symm.trans here'))
    rw [name] at hname
    exact absurd hname (by decide)

/-- A branch or an arm that is started has the part that its tag makes. -/
theorem Turns.parts (here : env.token? i = some (.tag tag))
    (hname : TagRegistry.handlerName tag.name ∈ evaluatingTags)
    (h : Turns env L σ i found kind next) :
    tag.pipelines σ ∈ next.parts ∧ tag.pipelines σ ≠ [] := by
  cases h with
  | @elseIf _ _ _ p _ here' name makes =>
    obtain rfl := Token.tag.inj (Option.some.inj (here.symm.trans here'))
    have hp : tag.pipelines σ = [p] := by
      rw [makes.made, Tag.pipelines]
      rcases name with name | name <;> rw [name, ← Tag.chain_eq (by rw [name]; decide)] <;> rfl
    rw [hp]
    exact ⟨List.mem_cons_self, List.cons_ne_nil _ _⟩
  | otherwise here' name =>
    obtain rfl := Token.tag.inj (Option.some.inj (here.symm.trans here'))
    rw [name] at hname
    exact absurd hname (by decide)
  | firstArm _ labels | arm labels =>
    obtain ⟨hps, hne⟩ := labels.parts here hname
    exact ⟨hps ▸ List.mem_cons_of_mem _ List.mem_cons_self, hne⟩

/-- A tag that adds an instruction by itself adds one that evaluates what it makes. Only a mixin may
be called with nothing. -/
theorem Leaf.parts {j : Nat} {added : List Instruction} (here : env.token? i = some (.tag tag))
    (hname : TagRegistry.handlerName tag.name ∈ evaluatingTags) (h : Leaf env L σ i added j) :
    (∃ x ∈ added, tag.pipelines σ ∈ x.parts) ∧
      (TagRegistry.handlerName tag.name ≠ "+" → tag.pipelines σ ≠ []) := by
  have other {other : Tag} {name : String} (here' : env.token? i = some (.tag other))
      (hother : other.name = name) (hnot : TagRegistry.handlerName name ∉ evaluatingTags) : False := by
    obtain rfl := Token.tag.inj (Option.some.inj (here.symm.trans here'))
    exact hnot (hother ▸ hname)
  cases h with
  | text here' | object here' => cases here.symm.trans here'
  | @assign _ head p here' name reads valid makes =>
    obtain rfl := Token.tag.inj (Option.some.inj (here.symm.trans here'))
    have hp : tag.pipelines σ = [p] := by
      rw [Tag.pipelines, name, reads, makes.made, Tag.chain_eq (by rw [name]; decide)]
      rfl
    rw [hp]
    exact ⟨⟨_, List.mem_cons_self, List.mem_cons_self⟩, fun _ => List.cons_ne_nil _ _⟩
  | callMixin here' name makes =>
    obtain rfl := Token.tag.inj (Option.some.inj (here.symm.trans here'))
    refine ⟨⟨_, List.mem_cons_self, List.mem_singleton.2 ?_⟩, fun hne => absurd name hne⟩
    rw [makes.eq_map, Tag.pipelines, name]
    rfl
  | capture here' name | raw here' name | comment here' name | script here' name
  | «break» here' name | «continue» here' name | mixin here' name | block here' name
  | trim here' name => exact (other here' name (by decide)).elim

/-- A handler puts what its tag makes into the open blocks. -/
theorem Change.parts {σ' : Scope} {j : Nat} {stack stack' : List OpenBlock}
    (here : env.token? i = some (.tag tag))
    (hname : TagRegistry.handlerName tag.name ∈ evaluatingTags)
    (h : Change env L σ i stack stack' σ' j) :
    Holding (tag.pipelines σ ∈ ·.parts) (tag.pipelines σ ∈ ·.parts) stack' ∧
      (TagRegistry.handlerName tag.name ≠ "+" → tag.pipelines σ ≠ []) := by
  cases h with
  | leaf leaf =>
    obtain ⟨⟨x, hx, hparts⟩, hne⟩ := leaf.parts here hname
    refine ⟨holding_cons.2 (.inl (.inr ⟨x, hparts, .inl (.here ?_)⟩)), hne⟩
    exact List.mem_append_left _ (List.mem_reverse.2 hx)
  | opens _ _ opens =>
    obtain ⟨hparts, hne⟩ := opens.parts here
    exact ⟨holding_cons.2 (.inl (.inl hparts)), fun _ => hne⟩
  | turns turns =>
    obtain ⟨hparts, hne⟩ := turns.parts here hname
    exact ⟨holding_cons.2 (.inl (.inl hparts)), fun _ => hne⟩
  | @closes kind _ _ _ _ _ _ here' closer complete =>
    obtain rfl := Token.tag.inj (Option.some.inj (here.symm.trans here'))
    have hnone : ∀ name ∈ blockTags, TagRegistry.handlerName (closerOf name) ∉ evaluatingTags := by
      decide
    have hblock := (kind.opener_mem (by rintro rfl; cases complete)).1
    exact absurd (closer ▸ hname) (hnone _ hblock)

end

/-! ## The theorem -/

/-- Every tag that evaluates what stands in its head has its pipelines in the program, as one part of
an instruction. All of them apply the whole chain of the tag, in its order, but the chain of `when` and
of the call of a mixin is dropped. -/
theorem generate_attaches (tokens : List Token) (files : Files) (positions : Bool) (made : Generated)
    (hmade : generate tokens files .builtin positions = .ok made) :
    ∃ sites, blockSites TagRegistry.builtin.kinds tokens = .ok sites ∧
      ∀ k σ tag, (builtinGenerator tokens files positions sites).HeldAt k σ →
        tokens[k]? = some (.tag tag) → TagRegistry.handlerName tag.name ∈ evaluatingTags →
        (∃ x, made.program.Holds x ∧ tag.pipelines σ ∈ x.parts ∧
          ∀ p ∈ tag.pipelines σ, p ∈ x.pipelines) ∧
        (TagRegistry.handlerName tag.name ≠ "+" → tag.pipelines σ ≠ []) ∧
        (tag.name ∈ filteringTags → ∀ p ∈ tag.pipelines σ, p.filters = tag.chain) ∧
        (tag.name ∉ filteringTags → ∀ p ∈ tag.pipelines σ, p.filters = []) := by
  obtain ⟨sites, hsites, _⟩ := (generate_settles tokens files positions).get hmade
  refine ⟨sites, hsites, ?_⟩
  intro k σ tag held here hname
  have hg : (builtinGenerator tokens files positions sites).IsBuiltin := ⟨rfl, rfl⟩
  replace here : (builtinGenerator tokens files positions sites).env.token? k = some (.tag tag) := here
  rw [generate_eq hsites] at hmade
  obtain ⟨_, _, change, lasts⟩ := held.leaves hg hmade
  obtain ⟨hholding, hne⟩ := change.parts here hname
  obtain ⟨x, hparts, holds⟩ := lasts (partsLasting _) hholding
  refine ⟨⟨x, holds, hparts, ?_⟩, hne, ?_, ?_⟩
  · intro p hp
    rw [← x.flatten_parts]
    exact List.mem_flatten.2 ⟨_, hparts, hp⟩
  · intro hfiltering p hp
    exact Tag.filters_pipelines hfiltering hp
  · intro hother p hp
    exact Tag.filters_pipelines_dropped hname hother hp

/-- A case with filters behind its subject and behind the value of its arm. -/
def filteredCase : List Token :=
  [.tag ⟨"case", "x | downcase", "x", [⟨"downcase", []⟩], "\x7b% case x | downcase %\x7d",
      ⟨stringFile, 0⟩⟩,
    .tag ⟨"when", "'a' | upcase", "'a'", [⟨"upcase", []⟩], "\x7b% when 'a' | upcase %\x7d",
      ⟨stringFile, 25⟩⟩,
    .raw "hit" ⟨stringFile, 50⟩, tagAt 53 "endcase" "" "\x7b% endcase %\x7d"]

theorem generate_attaches_filteredCase :
    ∃ made, generate filteredCase {} .builtin false = .ok made ∧
      (∃ x, made.program.Holds x ∧ ∃ p ∈ x.pipelines, p.filters = [⟨"downcase", []⟩]) ∧
      ∃ x, made.program.Holds x ∧ ∃ p ∈ x.pipelines, p.base = "'a'" ∧ p.filters = [] := by
  have hcomputed : (generate filteredCase {} .builtin false).isOk = true := by decide +kernel
  have hreached : ((builtinGenerator filteredCase {} false {}).generateRange 1 {}).toOption.map
      Draft.idx = some 1 := by decide +kernel
  have hsites : blockSites TagRegistry.builtin.kinds filteredCase = .ok {} := by rfl
  cases hmade : generate filteredCase {} .builtin false with
  | error e =>
    rw [hmade] at hcomputed
    cases hcomputed
  | ok made =>
    obtain ⟨sites, hsites', hattached⟩ := generate_attaches filteredCase {} false made hmade
    obtain rfl := Except.ok.inj (hsites.symm.trans hsites')
    refine ⟨made, rfl, ?_, ?_⟩
    · -- The subject has its filter.
      have held : (builtinGenerator filteredCase {} false {}).HeldAt 0 {} :=
        .main (by decide) (.here _ _)
      obtain ⟨⟨x, holds, _, hmem⟩, _, hfilters, _⟩ := hattached 0 {} _ held rfl (by decide)
      exact ⟨x, holds, _, hmem _ List.mem_cons_self, hfilters (by decide) _ List.mem_cons_self⟩
    · obtain ⟨σ, held⟩ := Generator.heldAt_of_idx (by decide) hreached
      obtain ⟨⟨x, holds, _, hmem⟩, _, _, hfilters⟩ := hattached 1 σ _ held rfl (by decide)
      exact ⟨x, holds, _, hmem (.ofExpression σ "'a'" []) List.mem_cons_self, by rfl, rfl⟩

/-- The filter of the value is applied nowhere, though its tag is generated. -/
theorem when_filter_dropped :
    ∃ made tag, generate filteredCase {} .builtin false = .ok made ∧
      filteredCase[1]? = some (.tag tag) ∧ tag.name = "when" ∧ tag.filters = [⟨"upcase", []⟩] ∧
      (∃ σ, (builtinGenerator filteredCase {} false {}).HeldAt 1 σ) ∧
      ∀ x, made.program.Holds x → ∀ p ∈ x.pipelines, ⟨"upcase", []⟩ ∉ p.filters := by
  have hcomputed : (generate filteredCase {} .builtin false).toOption.map
      (·.filters.contains "upcase") = some false := by decide +kernel
  have hreached : ((builtinGenerator filteredCase {} false {}).generateRange 1 {}).toOption.map
      Draft.idx = some 1 := by decide +kernel
  obtain ⟨made, hmade, hnone⟩ := ok_of_toOption_map hcomputed
  refine ⟨made, _, hmade, rfl, rfl, rfl, Generator.heldAt_of_idx (by decide) hreached, ?_⟩
  intro x holds p hp hcall
  have huses := generate_uses hmade holds hp hcall
  rw [hnone] at huses
  cases huses

end Stencil
