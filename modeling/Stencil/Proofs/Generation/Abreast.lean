import Stencil.Proofs.Generation.Moved
import Stencil.Proofs.Program.Inlined

/-!
# Drafts that go abreast

Two drafts are made of tokens that say the same at other places, perhaps in other scopes and around
other instructions. `Abreast` compares them: above an open block of either one, the first draft has
the open blocks of the second one with calls of blocks replaced.

* `Bench` holds what does not change while both drafts handle tokens, and the relations between what
  they know.
* `Abreast.pipeline`, `Abreast.emit`, `Abreast.opens`, `Abreast.closes`: what handlers do to both drafts
  keeps them abreast.
-/

namespace Stencil

/-! ## Outcomes -/

/-- When there is a first outcome there is a second one, and they are related. -/
def Follows {α β : Type} (R : α → β → Prop) (x : Except Error α) (y : Except Error β) : Prop :=
  ∀ a, x = .ok a → ∃ b, y = .ok b ∧ R a b

namespace Follows

variable {α β γ δ : Type} {R : α → β → Prop} {Q : γ → δ → Prop}

theorem ok {a : α} {b : β} (h : R a b) : Follows R (.ok a) (.ok b) := by
  intro _ heq
  obtain rfl := Except.ok.inj heq
  exact ⟨b, rfl, h⟩

theorem error {e : Error} {y : Except Error β} : Follows R (.error e) y := nofun

theorem bind {x : Except Error α} {y : Except Error β} {k : α → Except Error γ}
    {l : β → Except Error δ} (hx : Follows R x y) (hk : ∀ a b, R a b → Follows Q (k a) (l b)) :
    Follows Q (x >>= k) (y >>= l) := by
  cases x with
  | error e => exact error
  | ok a =>
    obtain ⟨b, rfl, hab⟩ := hx a rfl
    exact hk a b hab

theorem mono {R' : α → β → Prop} {x : Except Error α} {y : Except Error β} (hx : Follows R x y)
    (h : ∀ a b, R a b → R' a b) : Follows R' x y := fun a ha =>
  (hx a ha).imp fun b ⟨hb, hab⟩ => ⟨hb, h a b hab⟩

/-- A check that fails ends both works; otherwise they go on. -/
theorem guard {c : Prop} [Decidable c] {e : Error} {e' : Error} {k : α → Except Error γ}
    {k' : β → Except Error δ} {y : Except Error γ} {y' : Except Error δ} (hy : ¬ c → Follows Q y y') :
    Follows Q (if c then (.error e : Except Error α) >>= k else y)
      (if c then (.error e' : Except Error β) >>= k' else y') := by
  split
  · exact error
  · next hc => exact hy hc

end Follows

/-! ## Open blocks -/

section

variable (fold : String → Option (List Instruction))

def OpenKind.inlined : OpenKind → OpenKind
  | condition kind branches current => condition kind (branches.map (Branch.inlined fold)) current
  | case subject arms current => case subject (arms.map (Arm.inlined fold)) current
  | kind => kind

/-- The open block with calls replaced. -/
def OpenBlock.inlined (b : OpenBlock) : OpenBlock := ⟨b.kind.inlined fold, inlinedFound fold b.found⟩

/-- A block that is complete makes the same instruction with calls replaced. -/
theorem OpenKind.inlined_complete {kind : OpenKind} {found : List Instruction} {i j : Instruction}
    (hi : kind.complete? found = some i)
    (hj : (kind.inlined fold).complete? (inlinedFound fold found) = some j) : i.inlined fold = [j] := by
  cases kind with
  | root => cases hi
  | condition kind branches current =>
    cases current with
    | none =>
      cases hi
      cases hj
      simp [Instruction.inlined, inlinedBranches_eq, inlinedOtherwise, reverse_inlinedFound]
    | some current =>
      cases hi
      cases hj
      simp [Instruction.inlined, inlinedBranches_eq, inlinedOtherwise, reverse_inlinedFound,
        Branch.inlined]
  | case subject arms current =>
    cases current with
    | none => cases hi
    | some label =>
      cases hi
      cases hj
      simp [Instruction.inlined, inlinedArms_eq, reverse_inlinedFound, Arm.inlined]
  | loop =>
    cases hi
    cases hj
    simp [Instruction.inlined, reverse_inlinedFound]

/-- Before the first arm of a case, what is blank with calls replaced is blank without. -/
def OpenBlock.BlankAlike (b : OpenBlock) : Prop :=
  ∀ subject arms, b.kind = .case subject arms none →
    Handler.isBlankBody (inlinedFound fold b.found) = true → Handler.isBlankBody b.found = true

end

/-- What two drafts are compared over: the block under those that they have in common, and what is
below it, for either draft; which calls are replaced; and how scopes, variables and bodies that are
left behind are related. The scopes are related for each number of common blocks. -/
structure Bench where
  fold : String → Option (List Instruction)
  base : OpenBlock
  base' : OpenBlock
  below : List OpenBlock
  below' : List OpenBlock
  scopes : Nat → Scope → Scope → Prop
  known : NameSet → NameSet → Prop
  reached : NameSet → NameSet → Prop
  mixins : Table Deferred → Table Deferred → Prop
  blocks : Table Deferred → Table Deferred → Prop

/-- The relations last while blocks are opened and closed and variables become known. -/
structure Bench.Lasting (b : Bench) : Prop where
  create : ∀ {k σ σ'}, b.scopes k σ σ' → b.scopes (k + 1) σ.create σ'.create
  destroy : ∀ {k σ σ'}, b.scopes (k + 1) σ σ' → b.scopes k σ.destroy σ'.destroy
  add : ∀ {k σ σ'} name, b.scopes (k + 1) σ σ' → b.scopes (k + 1) (σ.add name) (σ'.add name)
  known : ∀ {s s'} name, b.known s s' → b.known (s.insert name) (s'.insert name)
  reached : ∀ {s s'} path, b.reached s s' → b.reached (s.insert path) (s'.insert path)

/-- The stacks have `k` blocks in common above the base. -/
def Bench.Stacks (b : Bench) (k : Nat) (stack stack' : List OpenBlock) : Prop :=
  ∃ inner found, inner.length = k ∧
    stack = inner.map (OpenBlock.inlined b.fold) ++
      ⟨b.base.kind, inlinedFound b.fold found ++ b.base.found⟩ :: b.below ∧
    stack' = inner ++ ⟨b.base'.kind, found ++ b.base'.found⟩ :: b.below' ∧
    ∀ block ∈ inner, block.BlankAlike b.fold

/-- The drafts have `k` blocks in common above the base, what they know is related, and neither is about
to trim a text. -/
structure Abreast (b : Bench) (k : Nat) (d d' : Draft) : Prop where
  stack : b.Stacks k d.stack d'.stack
  scopes : b.scopes k d.scope d'.scope
  locals : b.known d.locals d'.locals
  paths : b.reached d.paths d'.paths
  mixins : b.mixins d.mixins d'.mixins
  blocks : b.blocks d.blocks d'.blocks
  still : d.trimNext = false
  still' : d'.trimNext = false

/-! ## Stacks -/

namespace Bench.Stacks

variable {b : Bench} {k : Nat} {stack stack' : List OpenBlock}

/-- An instruction is added to the second innermost block, and what stands for it to the first one.
In a case without an arm, it has to be blank where that is. -/
theorem adds {i : Instruction} {js : List Instruction} (h : b.Stacks k stack stack')
    (hi : i.inlined b.fold = js)
    (hblank : ∀ block rest subject arms, stack' = block :: rest → block.kind = .case subject arms none →
      Handler.isBlankBody js = true → Handler.isBlankBody [i] = true) :
    ∃ top rest top' rest', stack = top :: rest ∧ stack' = top' :: rest' ∧
      b.Stacks k (⟨top.kind, js.reverse ++ top.found⟩ :: rest)
        (⟨top'.kind, i :: top'.found⟩ :: rest') := by
  obtain ⟨inner, found, hlength, rfl, rfl, hblanks⟩ := h
  have hcons (found : List Instruction) :
      inlinedFound b.fold (i :: found) = js.reverse ++ inlinedFound b.fold found := by
    rw [inlinedFound_cons, hi]
  cases inner with
  | nil =>
    refine ⟨_, _, _, _, rfl, rfl, [], i :: found, hlength, ?_, rfl, by simp⟩
    rw [hcons, List.append_assoc]
    rfl
  | cons block inner =>
    refine ⟨_, _, _, _, rfl, rfl, ⟨block.kind, i :: block.found⟩ :: inner, found, hlength, ?_, rfl, ?_⟩
    · have hblock : OpenBlock.inlined b.fold ⟨block.kind, i :: block.found⟩ =
          ⟨block.kind.inlined b.fold, js.reverse ++ inlinedFound b.fold block.found⟩ :=
        congrArg (OpenBlock.mk _) (hcons block.found)
      rw [List.map_cons, hblock]
      rfl
    · intro other hother
      rcases List.mem_cons.1 hother with rfl | hother
      · intro subject arms hkind hfirst
        rw [hcons, Handler.isBlankBody, List.all_append, List.all_reverse, Bool.and_eq_true] at hfirst
        have hi := hblank block _ subject arms rfl hkind hfirst.1
        have hfound := hblanks block List.mem_cons_self subject arms hkind hfirst.2
        simp only [Handler.isBlankBody, List.all_cons, List.all_nil, Bool.and_true,
          Bool.and_eq_true] at hi hfound ⊢
        exact ⟨hi, hfound⟩
      · exact hblanks other (List.mem_cons_of_mem _ hother)

/-- A block is opened in both. -/
theorem opened (h : b.Stacks k stack stack') (kind : OpenKind) :
    b.Stacks (k + 1) (⟨kind.inlined b.fold, []⟩ :: stack) (⟨kind, []⟩ :: stack') := by
  obtain ⟨inner, found, hlength, rfl, rfl, hblanks⟩ := h
  refine ⟨⟨kind, []⟩ :: inner, found, by simp [hlength], rfl, rfl, fun block hblock => ?_⟩
  rcases List.mem_cons.1 hblock with rfl | hblock
  · exact fun _ _ _ _ => rfl
  · exact hblanks block hblock

/-- The innermost blocks are one and the same, with calls replaced in the first stack. -/
theorem top (h : b.Stacks (k + 1) stack stack') : ∃ block rest rest',
    stack = block.inlined b.fold :: rest ∧ stack' = block :: rest' ∧ rest ≠ [] ∧ rest' ≠ [] ∧
      block.BlankAlike b.fold ∧ b.Stacks k rest rest' := by
  obtain ⟨inner, found, hlength, rfl, rfl, hblanks⟩ := h
  cases inner with
  | nil => cases hlength
  | cons block inner =>
    exact ⟨block, _, _, rfl, rfl, by simp, by simp, hblanks block List.mem_cons_self, inner, found,
      Nat.succ.inj hlength, rfl, rfl,
      fun other hother => hblanks other (List.mem_cons_of_mem _ hother)⟩

end Bench.Stacks

namespace Draft

/-- The innermost block is not the outermost one. -/
theorem inner_of_stack {d : Draft} {block : OpenBlock} {rest : List OpenBlock}
    (h : d.stack = block :: rest) (hrest : rest ≠ []) :
    ∃ outer, d.inner = block :: outer ∧ outer ++ [d.root] = rest := by
  unfold stack at h
  cases hinner : d.inner with
  | nil =>
    rw [hinner] at h
    exact absurd (List.cons.inj h).2.symm hrest
  | cons first outer =>
    rw [hinner, List.cons_append] at h
    obtain ⟨rfl, hout⟩ := List.cons.inj h
    exact ⟨outer, rfl, hout⟩

theorem stack_emit {d : Draft} {top : OpenBlock} {rest : List OpenBlock} (h : d.stack = top :: rest)
    (i : Instruction) : (d.emit i).stack = ⟨top.kind, i :: top.found⟩ :: rest := by
  rw [stack_eq] at h
  obtain ⟨rfl, htail⟩ := List.cons.inj h
  rw [emit, stack_setTop, htail]

/-- Only open blocks are changed by an instruction. -/
theorem emit_eq (d : Draft) (i : Instruction) :
    ∃ inner root, d.emit i = { d with inner, root } := by
  unfold emit setTop
  split <;> exact ⟨_, _, rfl⟩

end Draft

namespace Abreast

variable {b : Bench} {k : Nat} {d d' e e' : Draft} {env env' : DraftEnv}

/-- A variable becomes known to both drafts or to neither. -/
theorem addLocal (hb : b.Lasting) (h : Abreast b k d d') {base : String}
    (hneeded : d'.scope.needed base = d.scope.needed base) :
    ∃ needed e e', d.addLocal base = (needed, e) ∧ d'.addLocal base = (needed, e') ∧
      Abreast b k e e' ∧ d.Notes e ∧ d'.Notes e' := by
  obtain ⟨e, hadd, hnotes, _⟩ := d.addLocal_notes base
  obtain ⟨e', hadd', hnotes', _⟩ := d'.addLocal_notes base
  rw [hneeded] at hadd'
  refine ⟨_, e, e', hadd, hadd', ?_, hnotes, hnotes'⟩
  unfold Draft.addLocal at hadd hadd'
  unfold Scope.needed at hadd hadd' hneeded
  cases haccess : Access.ofExpression? base with
  | none =>
    rw [haccess] at hadd hadd'
    cases hadd
    cases hadd'
    exact h
  | some access =>
    rw [haccess] at hadd hadd' hneeded
    dsimp only [Option.bind_some] at hadd hadd' hneeded
    by_cases hbound : d.scope.has access.variableName = true
    · have hbound' : d'.scope.has access.variableName = true := by
        by_contra hfree
        rw [if_pos hbound, if_neg hfree] at hneeded
        cases hneeded
      rw [if_pos hbound, if_pos hbound] at hadd
      rw [if_pos hbound', if_pos hbound] at hadd'
      cases hadd
      cases hadd'
      exact h
    · have hfree : ¬ d'.scope.has access.variableName = true := by
        intro hbound'
        rw [if_neg hbound, if_pos hbound'] at hneeded
        cases hneeded
      rw [if_neg hbound, if_neg hbound] at hadd
      rw [if_neg hfree, if_neg hbound] at hadd'
      cases hadd
      cases hadd'
      exact { h with
        locals := hb.known _ h.locals
        paths := hb.reached _ h.paths }

/-- Both drafts make the same pipeline of an expression that needs the same variable. -/
theorem pipeline (env env' : DraftEnv) (hb : b.Lasting) (h : Abreast b k d d') {base : String}
    (calls : List FilterCall)
    (hneeded : d'.scope.needed base = d.scope.needed base) :
    ∃ p e e', d.pipeline env base calls = (p, e) ∧ d'.pipeline env' base calls = (p, e') ∧
      Abreast b k e e' ∧ d.Notes e ∧ d'.Notes e' := by
  have hnoted (d : Draft) (filters : Table Pos)
      (hmore : ∀ name, d.filters.contains name = true → filters.contains name = true) :
      d.Notes { d with filters } := ⟨rfl, rfl, rfl, rfl, rfl, rfl, fun _ h => h, hmore⟩
  have huses (env : DraftEnv) (d : Draft) := hnoted d
    (calls.foldl (fun t call => t.insertNew call.name (env.posOf d)) d.filters)
    fun _ h => Draft.contains_uses.2 (.inr h)
  have hfilters : Abreast b k
      { d with filters := calls.foldl (fun t call => t.insertNew call.name (env.posOf d)) d.filters }
      { d' with
        filters := calls.foldl (fun t call => t.insertNew call.name (env'.posOf d')) d'.filters } :=
    { h with }
  obtain ⟨needed, e, e', hadd, hadd', habreast, hnotes, hnotes'⟩ := hfilters.addLocal hb hneeded
  refine ⟨⟨Text.trimmed base, calls, needed⟩, e, e', ?_, ?_, habreast, (huses env d).trans hnotes,
    (huses env' d').trans hnotes'⟩
  · simp only [Draft.pipeline, hadd]
  · simp only [Draft.pipeline, hadd']

theorem pipelines (env env' : DraftEnv) (hb : b.Lasting) (h : Abreast b k d d') {bases : List String}
    (hneeded : ∀ base ∈ bases, d'.scope.needed base = d.scope.needed base) :
    ∃ ps e e', d.pipelines env bases = (ps, e) ∧ d'.pipelines env' bases = (ps, e') ∧
      Abreast b k e e' ∧ d.Notes e ∧ d'.Notes e' := by
  induction bases generalizing d d' with
  | nil => exact ⟨[], d, d', by rw [Draft.pipelines], by rw [Draft.pipelines], h, .refl d, .refl d'⟩
  | cons base bases ih =>
    obtain ⟨p, e, e', hp, hp', habreast, hnotes, hnotes'⟩ :=
      h.pipeline env env' hb [] (hneeded base List.mem_cons_self)
    obtain ⟨ps, f, f', hps, hps', habreast', hmore, hmore'⟩ := ih habreast fun base hbase => by
      rw [hnotes.scope, hnotes'.scope]
      exact hneeded base (List.mem_cons_of_mem _ hbase)
    exact ⟨p :: ps, f, f', by simp only [Draft.pipelines, hp, hps],
      by simp only [Draft.pipelines, hp', hps'], habreast', hnotes.trans hmore, hnotes'.trans hmore'⟩

/-- An instruction is added to both drafts. -/
theorem emit {i j : Instruction} (h : Abreast b k d d') (hi : i.inlined b.fold = [j])
    (hblank : Handler.isBlankBody [j] = true → Handler.isBlankBody [i] = true) :
    Abreast b k (d.emit j) (d'.emit i) := by
  have hstacks : b.Stacks k (d.emit j).stack (d'.emit i).stack := by
    obtain ⟨top, rest, top', rest', hstack, hstack', hemitted⟩ :=
      h.stack.adds hi fun _ _ _ _ _ _ => hblank
    rw [Draft.stack_emit hstack, Draft.stack_emit hstack']
    exact hemitted
  obtain ⟨inner, root, heq⟩ := d.emit_eq j
  obtain ⟨inner', root', heq'⟩ := d'.emit_eq i
  rw [heq, heq'] at hstacks ⊢
  exact { h with stack := hstacks }

/-- An instruction in which no call is replaced is added to both drafts. -/
theorem emits {i : Instruction} (h : Abreast b k d d') (hi : i.inlined b.fold = [i]) :
    Abreast b k (d.emit i) (d'.emit i) := h.emit hi id

theorem skips (h : Abreast b k d d') (i i' : Nat) : Abreast b k (d.skipTo i) (d'.skipTo i') :=
  { h with }

/-- A block is opened in both drafts, in a frame of its own. -/
theorem opens (hb : b.Lasting) (h : Abreast b k d d') {kind : OpenKind}
    (hkind : kind.inlined b.fold = kind) (names : List String) (i i' : Nat) :
    Abreast b (k + 1) (((d.openBlock kind).withScope fun s => s.create.addAll names).skipTo i)
      (((d'.openBlock kind).withScope fun s => s.create.addAll names).skipTo i') := by
  have hadd (names : List String) {σ σ' : Scope} (hσ : b.scopes (k + 1) σ σ') :
      b.scopes (k + 1) (σ.addAll names) (σ'.addAll names) := by
    induction names generalizing σ σ' with
    | nil => exact hσ
    | cons name names ih => exact ih (hb.add name hσ)
  have hopened := h.stack.opened kind
  rw [hkind] at hopened
  exact { h with
    stack := hopened
    scopes := hadd names (hb.create h.scopes) }

/-- The innermost blocks may be changed and closed in both drafts. -/
theorem top (h : Abreast b (k + 1) d d') : ∃ block outer outer',
    d.inner = block.inlined b.fold :: outer ∧ d'.inner = block :: outer' ∧ block.BlankAlike b.fold ∧
      b.Stacks k (outer ++ [d.root]) (outer' ++ [d'.root]) := by
  obtain ⟨block, rest, rest', hstack, hstack', hrest, hrest', hblank, houter⟩ := h.stack.top
  obtain ⟨outer, hinner, rfl⟩ := Draft.inner_of_stack hstack hrest
  obtain ⟨outer', hinner', rfl⟩ := Draft.inner_of_stack hstack' hrest'
  exact ⟨block, outer, outer', hinner, hinner', hblank, houter⟩

/-- The innermost block is closed in both drafts, with its frame, and the instruction that it makes is
added. -/
theorem closes (hb : b.Lasting) (h : Abreast b (k + 1) d d') {outer outer' : List OpenBlock}
    (houter : b.Stacks k (outer ++ [d.root]) (outer' ++ [d'.root])) {kind : OpenKind}
    {found : List Instruction} {i j : Instruction} (hi : kind.complete? found = some i)
    (hj : (kind.inlined b.fold).complete? (inlinedFound b.fold found) = some j) :
    Abreast b k (({ d with inner := outer }.withScope Scope.destroy).emit j)
      (({ d' with inner := outer' }.withScope Scope.destroy).emit i) := by
  have hclosed : Abreast b k ({ d with inner := outer }.withScope Scope.destroy)
      ({ d' with inner := outer' }.withScope Scope.destroy) :=
    { h with stack := houter, scopes := hb.destroy h.scopes }
  refine hclosed.emit (OpenKind.inlined_complete b.fold hi hj) fun hblank => ?_
  -- A block is not blank.
  have hfalse : Handler.isBlankBody [j] = false := by
    cases kind with
    | root => cases hi
    | condition kind branches current => cases current <;> (cases hj; rfl)
    | case subject arms current =>
      cases current with
      | none => cases hi
      | some label => cases hj; rfl
    | loop => cases hj; rfl
  rw [hfalse] at hblank
  cases hblank

/-- Nothing is open in the first draft but what is at its base. -/
theorem ground (h : Abreast b 0 d d') : ∃ found, d.stack = ⟨b.base.kind, found⟩ :: b.below := by
  obtain ⟨inner, found, hlength, hstack, _⟩ := h.stack
  obtain rfl := List.length_eq_zero_iff.1 hlength
  exact ⟨_, hstack⟩

end Abreast

end Stencil
