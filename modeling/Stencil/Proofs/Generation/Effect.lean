import Stencil.Proofs.Generation.Stacked
import Stencil.Proofs.Table

/-!
# Effects on drafts

`Settles P x` says that `x` gives something that satisfies `P`, or fails for a reason of its own: the
checks that only find what the search for closing tags has already ruled out (`Cause.isLate`) stay
silent.

`Effect` is what a handler does to a draft: a change of the stack, and more knowledge. There is a
lemma for each way in which handlers build the next draft: with an instruction (`Effect.emits`), with
a name that is bound (`Effect.declares`), without instructions (`Effect.skips`), with a block that
opens, turns or closes.
-/

namespace Stencil

/-! ## Outcomes -/

/-- The fault is found by a check of the open blocks themselves. -/
def NestingFault.isLate : NestingFault → Bool
  | closesOther .. | closesCondition .. | stillOpen _ => true
  | nothingOpen closer => closer == "end"
  | _ => false

/-- The error comes from a check of the open blocks themselves. -/
def Cause.isLate : Cause → Bool
  | nesting fault => fault.isLate
  | _ => false

/-- The outcome satisfies `P`, or is no late error. -/
inductive Settles {α : Type} (P : α → Prop) : Except Error α → Prop where
  | ok {a : α} (h : P a) : Settles P (.ok a)
  | error {e : Error} (h : e.cause.isLate = false) : Settles P (.error e)

namespace Settles

variable {α β : Type} {P : β → Prop} {Q : α → Prop}

theorem bind {x : Except Error α} {f : α → Except Error β} (hx : Settles Q x)
    (hf : ∀ a, Q a → Settles P (f a)) : Settles P (x >>= f) := by
  cases hx with
  | ok h => exact hf _ h
  | error h => exact .error h

theorem mono {x : Except Error α} {P : α → Prop} (hx : Settles Q x) (h : ∀ a, Q a → P a) :
    Settles P x := by
  cases hx with
  | ok ha => exact .ok (h _ ha)
  | error he => exact .error he

theorem get {a : α} {x : Except Error α} (hx : Settles Q x) (h : x = .ok a) : Q a := by
  subst h
  cases hx with
  | ok h => exact h

/-- What is known of an outcome may mention how it came about. -/
theorem origin {x : Except Error α} (hx : Settles Q x) : Settles (fun a => x = .ok a ∧ Q a) x := by
  cases hx with
  | ok h => exact .ok ⟨rfl, h⟩
  | error h => exact .error h

/-- A check that fails ends the work; otherwise it goes on. -/
theorem guard {c : Prop} [Decidable c] {x : Except Error α} {f : α → Except Error β}
    {y : Except Error β} (hx : c → Settles (fun _ => False) x) (hy : ¬ c → Settles P y) :
    Settles P (if c then x >>= f else y) := by
  split
  · next hc => exact (hx hc).bind fun _ h => h.elim
  · next hc => exact hy hc

end Settles

namespace Handler

variable {α : Type} {P : α → Prop}

theorem refuse_settles {cause : Cause} (h : cause.isLate = false) (env : DraftEnv) (tag : Tag) :
    Settles P (refuse env tag cause) := .error h

theorem misuse_settles (env : DraftEnv) (tag : Tag) (reason : String) :
    Settles P (misuse env tag reason) := .error rfl

theorem misplaced_settles {fault : NestingFault} (h : fault.isLate = false) (env : DraftEnv)
    (d : Draft) : Settles P (misplaced env d fault) := .error h

theorem requireHead_settles (env : DraftEnv) (tag : Tag) (reason : String) :
    Settles (fun _ => True) (requireHead env tag reason) := by
  unfold requireHead
  split
  · exact misuse_settles env tag reason
  · exact .ok trivial

theorem findTag_settles (env : DraftEnv) (d : Draft) (name : String) :
    Settles (fun stop => closingTag env.kinds env.tokens name d.idx = .ok stop)
      (env.findTag d name) := by
  unfold DraftEnv.findTag
  cases closingTag env.kinds env.tokens name d.idx with
  | ok stop => exact .ok rfl
  | error fault => cases fault <;> exact .error rfl

theorem verbatimEnd_settles (env : DraftEnv) (d : Draft) (tag : Tag) :
    Settles (fun stop => verbatimEnd? env.tokens tag.name d.idx = some stop)
      (env.verbatimEnd d tag) := by
  unfold DraftEnv.verbatimEnd
  split
  · next h => exact .ok h
  · exact .error rfl

end Handler

/-! ## Drafts -/

namespace Draft

/-- The open blocks, innermost first. -/
def stack (d : Draft) : List OpenBlock := d.inner ++ [d.root]

theorem stack_eq (d : Draft) : d.stack = ⟨d.top.kind, d.top.found⟩ :: d.stack.tail := by
  unfold stack top
  cases d.inner <;> rfl

section

variable (d : Draft) (b : OpenBlock)

theorem stack_setTop : (d.setTop b).stack = b :: d.stack.tail := by
  unfold stack setTop
  cases d.inner <;> simp

theorem idx_setTop : (d.setTop b).idx = d.idx := by
  unfold setTop
  split <;> rfl

theorem scope_setTop : (d.setTop b).scope = d.scope := by
  unfold setTop
  split <;> rfl

theorem locals_setTop : (d.setTop b).locals = d.locals := by
  unfold setTop
  split <;> rfl

theorem filters_setTop : (d.setTop b).filters = d.filters := by
  unfold setTop
  split <;> rfl

theorem mixins_setTop : (d.setTop b).mixins = d.mixins := by
  unfold setTop
  split <;> rfl

theorem blocks_setTop : (d.setTop b).blocks = d.blocks := by
  unfold setTop
  split <;> rfl

end

theorem idx_mark (d : Draft) (env : DraftEnv) (pos : Pos) : (d.mark env pos).idx = d.idx := by
  unfold mark
  split
  · exact idx_setTop ..
  · rfl

theorem scope_mark (d : Draft) (env : DraftEnv) (pos : Pos) :
    (d.mark env pos).scope = d.scope := by
  unfold mark
  split
  · exact scope_setTop ..
  · rfl

theorem advance_emit (d : Draft) (i : Instruction) :
    (d.emit i).advance = (d.emit i).skipTo (d.idx + 1) := by
  rw [advance, emit, idx_setTop]

/-- A draft that knows more and is the same otherwise. -/
structure Notes (d d' : Draft) : Prop where
  idx : d'.idx = d.idx
  inner : d'.inner = d.inner
  root : d'.root = d.root
  scope : d'.scope = d.scope
  mixins : d'.mixins = d.mixins
  blocks : d'.blocks = d.blocks
  locals : ∀ name, name ∈ d.locals → name ∈ d'.locals
  filters : ∀ name, d.filters.contains name = true → d'.filters.contains name = true

theorem Notes.refl (d : Draft) : d.Notes d :=
  ⟨rfl, rfl, rfl, rfl, rfl, rfl, fun _ h => h, fun _ h => h⟩

theorem Notes.trans {d₁ d₂ d₃ : Draft} (h : d₁.Notes d₂) (h' : d₂.Notes d₃) : d₁.Notes d₃ where
  idx := h'.idx.trans h.idx
  inner := h'.inner.trans h.inner
  root := h'.root.trans h.root
  scope := h'.scope.trans h.scope
  mixins := h'.mixins.trans h.mixins
  blocks := h'.blocks.trans h.blocks
  locals name hname := h'.locals name (h.locals name hname)
  filters name hname := h'.filters name (h.filters name hname)

/-- The variable that an expression needs is noted. -/
theorem addLocal_notes (d : Draft) (base : String) :
    ∃ d', d.addLocal base = (d.scope.needed base, d') ∧ d.Notes d' ∧
      ∀ name, d.scope.needed base = some name → name ∈ d'.locals := by
  unfold addLocal Scope.needed
  cases Access.ofExpression? base with
  | none => exact ⟨d, rfl, .refl d, fun name hname => by cases hname⟩
  | some access =>
    by_cases hbound : d.scope.has access.variableName = true
    · simp only [hbound, if_true, Option.bind_some]
      exact ⟨d, rfl, .refl d, fun name hname => by cases hname⟩
    · simp only [hbound, Option.bind_some]
      refine ⟨_, rfl, ⟨rfl, rfl, rfl, rfl, rfl, rfl, fun _ h => ?_, fun _ h => h⟩,
        fun name hname => ?_⟩
      · exact NameSet.mem_insert.2 (.inr h)
      · cases hname
        exact NameSet.mem_insert.2 (.inl rfl)

/-- The filters of a pipeline are noted, besides those noted before. -/
theorem contains_uses {t : Table Pos} {pos : Pos} {calls : List FilterCall} {name : String} :
    (calls.foldl (fun t call => t.insertNew call.name pos) t).contains name = true ↔
      (∃ call ∈ calls, call.name = name) ∨ t.contains name = true := by
  induction calls generalizing t with
  | nil => simp
  | cons call calls ih =>
    rw [List.foldl_cons, ih, Table.contains_insertNew]
    simp only [List.exists_mem_cons_iff, @eq_comm _ name]
    exact or_left_comm.trans or_assoc.symm

/-- A pipeline is that of its expression, and the variable it needs and its filters are noted. -/
theorem pipeline_notes (env : DraftEnv) (d : Draft) (base : String) (calls : List FilterCall) :
    ∃ p d', d.pipeline env base calls = (p, d') ∧ d.Notes d' ∧
      Makes (· ∈ d'.locals) d.scope base calls p ∧
      ∀ call ∈ calls, d'.filters.contains call.name = true := by
  have hnotes : d.Notes { d with
      filters := calls.foldl (fun t call => t.insertNew call.name (env.posOf d)) d.filters } :=
    ⟨rfl, rfl, rfl, rfl, rfl, rfl, fun _ h => h, fun _ h => contains_uses.2 (.inr h)⟩
  obtain ⟨d', hadd, hnotes', hknown⟩ := addLocal_notes { d with
    filters := calls.foldl (fun t call => t.insertNew call.name (env.posOf d)) d.filters } base
  refine ⟨.ofExpression d.scope base calls, d', ?_, hnotes.trans hnotes', ⟨rfl, ?_⟩, ?_⟩
  · simp only [pipeline, hadd, Pipeline.ofExpression]
  · intro name hname
    dsimp only [Pipeline.ofExpression] at hname
    exact hknown name hname
  · intro call hcall
    exact hnotes'.filters _ (contains_uses.2 (.inl ⟨call, hcall, rfl⟩))

theorem pipelines_notes (env : DraftEnv) (d : Draft) (bases : List String) :
    ∃ ps d', d.pipelines env bases = (ps, d') ∧ d.Notes d' ∧
      MakesAll (· ∈ d'.locals) d.scope bases ps := by
  induction bases generalizing d with
  | nil => exact ⟨[], d, by rw [pipelines], .refl d, List.Forall₂.nil⟩
  | cons base bases ih =>
    obtain ⟨p, d₁, hp, hnotes, hmakes, _⟩ := pipeline_notes env d base []
    obtain ⟨ps, d₂, hps, hnotes', hmakes'⟩ := ih d₁
    rw [hnotes.scope] at hmakes'
    refine ⟨p :: ps, d₂, by simp only [pipelines, hp, hps], hnotes.trans hnotes', ?_⟩
    exact List.Forall₂.cons (hmakes.mono hnotes'.locals) hmakes'

/-- A draft that knows more, and has left more bodies behind. -/
structure Grows (d d' : Draft) : Prop where
  locals : ∀ name, name ∈ d.locals → name ∈ d'.locals
  filters : ∀ name, d.filters.contains name = true → d'.filters.contains name = true
  mixins : d.mixins.Extends d'.mixins
  blocks : d.blocks.Extends d'.blocks

theorem Grows.refl (d : Draft) : d.Grows d :=
  ⟨fun _ h => h, fun _ h => h, .refl _, .refl _⟩

theorem Grows.trans {d₁ d₂ d₃ : Draft} (h : d₁.Grows d₂) (h' : d₂.Grows d₃) : d₁.Grows d₃ where
  locals name hname := h'.locals name (h.locals name hname)
  filters name hname := h'.filters name (h.filters name hname)
  mixins := h.mixins.trans h'.mixins
  blocks := h.blocks.trans h'.blocks

theorem Notes.grows {d d' : Draft} (h : d.Notes d') : d.Grows d' :=
  ⟨h.locals, h.filters, .of_eq h.mixins, .of_eq h.blocks⟩

theorem grows_setTop (d : Draft) (b : OpenBlock) : d.Grows (d.setTop b) := by
  unfold setTop
  split <;> exact ⟨fun _ h => h, fun _ h => h, .refl _, .refl _⟩

end Draft

/-! ## Effects -/

/-- The body was left behind under a name at a tag, to be generated later. Only mixins have
parameters, and of the blocks of one name only the last one is left behind. -/
structure Defers (env : DraftEnv) (opener : String) (k : Nat) (tag : Tag) (name : String)
    (body : Deferred) : Prop where
  here : env.token? k = some (.tag tag)
  tag_name : tag.name = opener
  named : blockName? tag = some name
  start : body.start = k + 1
  closes : closingTag env.kinds env.tokens (closerOf opener) k = .ok body.stop
  params : opener = "mixin" ∨ body.params = []
  last : opener = "mixin" ∨ ((env.sites.get? name).getD (k, k)).2 = k

namespace Defers

variable {env : DraftEnv} {opener name : String} {k : Nat} {tag : Tag} {body : Deferred}

theorem start_le (h : Defers env opener k tag name body) : body.start ≤ env.tokens.length := by
  rw [h.start]
  exact (List.getElem?_eq_some_iff.1 h.here).1

theorem stop_lt (h : Defers env opener k tag name body) : body.stop < env.tokens.length := by
  obtain ⟨_, closer, hcloser, _⟩ := wellNested_of_closingTag h.closes
  exact (List.getElem?_eq_some_iff.1 hcloser).1

end Defers

/-- What a handler does to a draft. -/
structure Effect (env : DraftEnv) (d d' : Draft) : Prop where
  change : Change env (· ∈ d'.locals) d.scope d.idx d.stack d'.stack d'.scope d'.idx
  grows : d.Grows d'
  mixins : ∀ e ∈ d'.mixins.entries,
    e ∈ d.mixins.entries ∨ ∃ tag, Defers env "mixin" d.idx tag e.1 e.2
  blocks : ∀ e ∈ d'.blocks.entries,
    e ∈ d.blocks.entries ∨ ∃ tag, Defers env "block" d.idx tag e.1 e.2

namespace Effect

variable {env : DraftEnv} {d d₁ d' : Draft}

theorem stack_notes (h : d.Notes d₁) : d₁.stack = d.stack := by
  rw [Draft.stack, Draft.stack, h.inner, h.root]

theorem top_notes (h : d.Notes d₁) : d₁.top = d.top := by
  rw [Draft.top, Draft.top, h.inner, h.root]

/-- Some instructions are added to the innermost block, and the names they bind to the scope. -/
theorem leaf {added : List Instruction} (h : d.Notes d₁)
    (leaf : Leaf env (· ∈ d₁.locals) d.scope d.idx added d'.idx)
    (hstack : d'.stack = ⟨d₁.top.kind, added.reverse ++ d₁.top.found⟩ :: d₁.stack.tail)
    (hscope : d'.scope = d₁.scope.behind added) (hlocals : d'.locals = d₁.locals)
    (hfilters : d'.filters = d₁.filters) (hmixins : d'.mixins = d₁.mixins)
    (hblocks : d'.blocks = d₁.blocks) : Effect env d d' where
  change := by
    rw [hstack, hscope, hlocals, stack_notes h, top_notes h, h.scope]
    conv => arg 5; rw [Draft.stack_eq]
    exact .leaf leaf
  grows := h.grows.trans ⟨fun _ hname => hlocals ▸ hname, fun _ hname => hfilters ▸ hname,
    .of_eq hmixins, .of_eq hblocks⟩
  mixins e he := .inl (h.mixins ▸ hmixins ▸ he)
  blocks e he := .inl (h.blocks ▸ hblocks ▸ he)

/-- No instruction is added. -/
theorem skips {j : Nat} (h : d.Notes d₁) (hleaf : Leaf env (· ∈ d₁.locals) d.scope d.idx [] j) :
    Effect env d (d₁.skipTo j) :=
  leaf h hleaf (Draft.stack_eq d₁) rfl rfl rfl rfl rfl

/-- Some names are bound and an instruction is added. -/
theorem declares {f : Scope → Scope} {i : Instruction} {j : Nat} (h : d.Notes d₁)
    (hleaf : Leaf env (· ∈ d₁.locals) d.scope d.idx [i] j)
    (hf : f d.scope = d.scope.behind [i]) :
    Effect env d (((d₁.withScope f).emit i).skipTo j) := by
  refine leaf h hleaf (Draft.stack_setTop _ _) ?_ (Draft.locals_setTop _ _)
    (Draft.filters_setTop _ _) (Draft.mixins_setTop _ _) (Draft.blocks_setTop _ _)
  rw [h.scope, ← hf, ← h.scope]
  exact Draft.scope_setTop _ _

/-- An instruction is added that binds no name. -/
theorem emits {i : Instruction} {j : Nat} (h : d.Notes d₁)
    (hleaf : Leaf env (· ∈ d₁.locals) d.scope d.idx [i] j) (hbinds : i.binds = []) :
    Effect env d ((d₁.emit i).skipTo j) :=
  declares (f := id) h hleaf (Scope.behind_singleton hbinds).symm

/-- A block is opened. -/
theorem opens {f : Scope → Scope} {kind : OpenKind} {tag : Tag} {stop : Nat} (h : d.Notes d₁)
    (here : env.token? d.idx = some (.tag tag)) (opener : tag.name = kind.opener)
    (hopens : Opens env (· ∈ d₁.locals) d.scope d.idx kind)
    (closes : closingTag env.kinds env.tokens (closerOf kind.opener) d.idx = .ok stop)
    (hf : f d.scope = kind.scope d.scope) :
    Effect env d ((d₁.openBlock kind).withScope f).advance where
  change := by
    have hchange : Change env (· ∈ d₁.locals) d.scope d.idx d.stack (⟨kind, []⟩ :: d.stack)
        (kind.scope d.scope) (d.idx + 1) := .opens here opener hopens closes
    rw [← hf, ← h.scope, ← h.idx, ← stack_notes h] at hchange
    rw [← h.scope, ← h.idx, ← stack_notes h]
    exact hchange
  grows := ⟨h.locals, h.filters, h.grows.mixins, h.grows.blocks⟩
  mixins e he := .inl (h.mixins ▸ he)
  blocks e he := .inl (h.blocks ▸ he)

/-- The next branch or arm of the innermost block is started. -/
theorem turns {f : Scope → Scope} {kind next : OpenKind} {found : List Instruction}
    {outer : List OpenBlock} (h : d.Notes d₁) (hinner : d₁.inner = ⟨kind, found⟩ :: outer)
    (hturns : Turns env (· ∈ d₁.locals) d.scope d.idx found kind next)
    (hf : f d.scope = kind.turnScope d.scope) :
    Effect env d (({ d₁ with inner := ⟨next, []⟩ :: outer }.withScope f).advance) where
  change := by
    have hchange : Change env (· ∈ d₁.locals) d.scope d.idx (⟨kind, found⟩ :: (outer ++ [d₁.root]))
        (⟨next, []⟩ :: (outer ++ [d₁.root])) (kind.turnScope d.scope) (d.idx + 1) := .turns hturns
    have hstack : d.stack = ⟨kind, found⟩ :: (outer ++ [d₁.root]) := by
      rw [← stack_notes h, Draft.stack, hinner]
      rfl
    rw [← hf, ← h.scope, ← h.idx, ← hstack] at hchange
    rw [← h.scope, ← h.idx]
    exact hchange
  grows := ⟨h.locals, h.filters, h.grows.mixins, h.grows.blocks⟩
  mixins e he := .inl (h.mixins ▸ he)
  blocks e he := .inl (h.blocks ▸ he)

/-- The innermost block is closed. -/
theorem closes {kind : OpenKind} {content : List Instruction} {outer : List OpenBlock} {tag : Tag}
    {i : Instruction} (hinner : d.inner = ⟨kind, content⟩ :: outer)
    (here : env.token? d.idx = some (.tag tag)) (closer : tag.name = closerOf kind.opener)
    (complete : kind.complete? content = some i) :
    Effect env d (({ d with inner := outer }.withScope Scope.destroy).emit i).advance where
  change := by
    have hstack : d.stack = ⟨kind, content⟩ :: ({ d with inner := outer } : Draft).stack := by
      rw [Draft.stack, hinner]
      rfl
    let e := { d with inner := outer }.withScope Scope.destroy
    have hchange : Change env (· ∈ (e.emit i).locals) d.scope d.idx
        (⟨kind, content⟩ :: ⟨e.top.kind, e.top.found⟩ :: e.stack.tail)
        (⟨e.top.kind, i :: e.top.found⟩ :: e.stack.tail) d.scope.destroy (d.idx + 1) :=
      .closes here closer complete
    rw [← Draft.stack_eq e] at hchange
    have hidx : (e.emit i).idx = d.idx := Draft.idx_setTop e _
    have hscope : (e.emit i).scope = d.scope.destroy := Draft.scope_setTop e _
    have hemit : (e.emit i).stack = ⟨e.top.kind, i :: e.top.found⟩ :: e.stack.tail :=
      Draft.stack_setTop e _
    rw [← hemit, ← hscope] at hchange
    rw [hstack, Draft.advance, hidx]
    exact hchange
  grows := ⟨(Draft.grows_setTop ({ d with inner := outer }.withScope Scope.destroy) _).locals,
    (Draft.grows_setTop ({ d with inner := outer }.withScope Scope.destroy) _).filters,
    (Draft.grows_setTop ({ d with inner := outer }.withScope Scope.destroy) _).mixins,
    (Draft.grows_setTop ({ d with inner := outer }.withScope Scope.destroy) _).blocks⟩
  mixins e he := .inl ((Draft.mixins_setTop ({ d with inner := outer }.withScope _) _) ▸ he)
  blocks e he := .inl ((Draft.blocks_setTop ({ d with inner := outer }.withScope _) _) ▸ he)

/-- The body of a mixin is left behind as well. -/
theorem defersMixin {name : String} {tag : Tag} {body : Deferred} (h : Effect env d d')
    (hbody : Defers env "mixin" d.idx tag name body) :
    Effect env d { d' with mixins := d'.mixins.insert name body } where
  change := h.change
  grows := ⟨h.grows.locals, h.grows.filters, h.grows.mixins.trans (Table.extends_insert _ _ _),
    h.grows.blocks⟩
  mixins e he := by
    rcases Table.mem_insert he with rfl | he
    · exact .inr ⟨tag, hbody⟩
    · exact h.mixins e he
  blocks := h.blocks

/-- The body of a block is left behind as well. -/
theorem defersBlock {name : String} {tag : Tag} {body : Deferred} (h : Effect env d d')
    (hbody : Defers env "block" d.idx tag name body) :
    Effect env d { d' with blocks := d'.blocks.insert name body } where
  change := h.change
  grows := ⟨h.grows.locals, h.grows.filters, h.grows.mixins,
    h.grows.blocks.trans (Table.extends_insert _ _ _)⟩
  mixins := h.mixins
  blocks e he := by
    rcases Table.mem_insert he with rfl | he
    · exact .inr ⟨tag, hbody⟩
    · exact h.blocks e he

end Effect

end Stencil
