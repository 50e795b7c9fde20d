import Stencil.Generation.Builtin
import Stencil.Generation.Generate
import Stencil.Proofs.Program.Unmarked

/-!
# Generating without positions

A draft that is made without positions is, after every token, the draft that is made with them less
the positions in its open blocks. `Erasable` says so of a handler, as one equation over its outcome:
the same error, or the same draft without positions.

* `Handler.builtins_erasable`: all built-in handlers are erasable.
* `Generator.unmarked_range`, `Generator.unmarked_body`, `Generator.unmarked_deferred`: so are ranges
  of tokens, single bodies, and all bodies that were left behind.
* `unmarked_generate`: so are programs, with what is learnt about the template.
-/

namespace Stencil

/-! ## Outcomes -/

/-- The second outcome is the same error, or the image of the first one. -/
def Mirrors {α β : Type} (f : α → β) (x : Except Error α) (y : Except Error β) : Prop := y = x.map f

namespace Mirrors

variable {α β γ δ : Type} {f : α → β} {g : γ → δ}

theorem ok {a : α} {b : β} (h : b = f a) : Mirrors f (.ok a) (.ok b) := congrArg Except.ok h

theorem error {e : Error} : Mirrors f (.error e) (.error e) := rfl

theorem bind {x : Except Error α} {y : Except Error β} {k : α → Except Error γ}
    {k' : β → Except Error δ} (hx : Mirrors f x y) (hk : ∀ a, Mirrors g (k a) (k' (f a))) :
    Mirrors g (x >>= k) (y >>= k') := by
  obtain rfl : y = x.map f := hx
  cases x with
  | error e => rfl
  | ok a => exact hk a

/-- Two works that begin alike. -/
theorem andThen {x : Except Error α} {k : α → Except Error γ} {k' : α → Except Error δ}
    (hk : ∀ a, Mirrors g (k a) (k' a)) : Mirrors g (x >>= k) (x >>= k') := by
  cases x with
  | error e => rfl
  | ok a => exact hk a

/-- A check that fails ends both works; otherwise they go on. -/
theorem guard {c : Prop} [Decidable c] {e : Error} {k : α → Except Error γ} {k' : β → Except Error δ}
    {y : Except Error γ} {y' : Except Error δ} (hy : ¬ c → Mirrors g y y') :
    Mirrors g (if c then (.error e : Except Error α) >>= k else y)
      (if c then (.error e : Except Error β) >>= k' else y') := by
  split
  · exact rfl
  · next hc => exact hy hc

end Mirrors

/-! ## Drafts -/

def Branch.unmarked : Branch → Branch
  | mk condition negated body => mk condition negated (unmarkedBody body)

def Arm.unmarked : Arm → Arm
  | mk label body => mk label (unmarkedBody body)

def OpenKind.unmarked : OpenKind → OpenKind
  | condition kind branches current => condition kind (branches.map Branch.unmarked) current
  | case subject arms current => case subject (arms.map Arm.unmarked) current
  | kind => kind

def OpenBlock.unmarked (b : OpenBlock) : OpenBlock := ⟨b.kind.unmarked, unmarkedBody b.found⟩

/-- The draft without positions in its open blocks. -/
def Draft.unmarked (d : Draft) : Draft :=
  { d with inner := d.inner.map OpenBlock.unmarked, root := d.root.unmarked }

/-- The same tokens, from which a program without positions is made. -/
def DraftEnv.unmarked (env : DraftEnv) : DraftEnv := { env with positions := false }

def Generator.unmarked (g : Generator) : Generator := { g with env := g.env.unmarked }

theorem unmarkedBranches_map (branches : List Branch) :
    unmarkedBranches branches = branches.map Branch.unmarked := unmarkedBranches_eq branches

theorem unmarkedArms_map (arms : List Arm) : unmarkedArms arms = arms.map Arm.unmarked :=
  unmarkedArms_eq arms

namespace Draft

variable (d : Draft) (env : DraftEnv)

theorem unmarked_top : d.unmarked.top = d.top.unmarked := by
  unfold top unmarked
  cases d.inner <;> rfl

theorem unmarked_setTop (b : OpenBlock) : (d.setTop b).unmarked = d.unmarked.setTop b.unmarked := by
  unfold setTop unmarked
  cases d.inner <;> rfl

/-- All instructions but positions stay. -/
theorem unmarked_emit {i : Instruction} (h : i.isPosition = false) :
    (d.emit i).unmarked = d.unmarked.emit i.unmarked := by
  rw [emit, emit, unmarked_setTop, unmarked_top, OpenBlock.unmarked, unmarkedBody_cons h]
  rfl

theorem unmarkedBody_markIn (pos : Pos) (found : List Instruction) :
    unmarkedBody (markIn pos found) = unmarkedBody found := by
  unfold markIn
  split <;> rfl

/-- Noting a position shows in positions only. -/
theorem unmarked_mark (pos : Pos) : (d.mark env pos).unmarked = d.unmarked := by
  unfold mark
  split
  · rw [unmarked_setTop, OpenBlock.unmarked, unmarkedBody_markIn]
    unfold setTop top unmarked
    cases d.inner <;> rfl
  · rfl

theorem unmarked_closeBlock : d.unmarked.closeBlock? =
    d.closeBlock?.map fun (block, rest) => (block.unmarked, rest.unmarked) := by
  unfold closeBlock? unmarked
  cases d.inner <;> rfl

theorem unmarked_inside {p : OpenKind → Bool} (hp : ∀ kind, p (OpenKind.unmarked kind) = p kind) :
    d.unmarked.inside p = d.inside p := by
  simp [inside, unmarked, OpenBlock.unmarked, hp, Function.comp_def, List.any_map]

theorem unmarked_addLocal (expression : String) : d.unmarked.addLocal expression =
    ((d.addLocal expression).1, (d.addLocal expression).2.unmarked) := by
  unfold addLocal
  cases Access.ofExpression? expression with
  | none => rfl
  | some access =>
    show (if d.scope.has access.variableName then _ else _) = _
    by_cases h : d.scope.has access.variableName = true
    · simp only [h, if_true]
    · simp only [h]
      rfl

/-- What an expression reads and uses does not depend on positions. -/
theorem unmarked_pipeline (base : String) (calls : List FilterCall) :
    d.unmarked.pipeline env.unmarked base calls =
      ((d.pipeline env base calls).1, (d.pipeline env base calls).2.unmarked) := by
  have huses : calls.foldl (fun t call => t.insertNew call.name (env.unmarked.posOf d.unmarked))
      d.unmarked.filters =
      calls.foldl (fun t call => t.insertNew call.name (env.posOf d)) d.filters := rfl
  simp only [pipeline, huses]
  generalize calls.foldl (fun t call => t.insertNew call.name (env.posOf d)) d.filters = filters
  rw [show ({ d.unmarked with filters } : Draft) = Draft.unmarked { d with filters } from rfl,
    unmarked_addLocal]

theorem unmarked_pipelines (bases : List String) : d.unmarked.pipelines env.unmarked bases =
    ((d.pipelines env bases).1, (d.pipelines env bases).2.unmarked) := by
  induction bases generalizing d with
  | nil => rfl
  | cons base bases ih =>
    simp only [pipelines]
    rw [unmarked_pipeline, ih]

theorem unmarked_advance_emit {i : Instruction} (h : i.isPosition = false) :
    (d.emit i).advance.unmarked = (d.unmarked.emit i.unmarked).advance := by
  rw [← unmarked_emit d h]
  rfl

theorem unmarked_skipTo_emit {i : Instruction} (h : i.isPosition = false) (idx : Nat) :
    ((d.emit i).skipTo idx).unmarked = (d.unmarked.emit i.unmarked).skipTo idx := by
  rw [← unmarked_emit d h]
  rfl

end Draft

/-! ## Handlers -/

/-- Without positions, the handler fails alike, or leaves the same draft without positions. -/
def Erasable (handler : TagHandler) : Prop :=
  ∀ env tag d, Mirrors Draft.unmarked (handler env tag d) (handler env.unmarked tag d.unmarked)

namespace Handler

theorem isBlankBody_unmarked (found : List Instruction) :
    isBlankBody (unmarkedBody found) = isBlankBody found := by
  induction found with
  | nil => rfl
  | cons i found ih =>
    rw [isBlankBody] at ih ⊢
    cases i <;> simp_all [unmarkedBody, Instruction.isPosition, Instruction.unmarked, isBlankBody]

/-! ### Names and texts -/

theorem assign_erasable : Erasable assign := by
  intro env tag d
  unfold assign
  cases AssignmentHead.ofHead? tag.head with
  | none => exact .error
  | some head =>
    refine .guard fun _ => ?_
    rw [Draft.unmarked_pipeline]
    generalize d.pipeline env head.value tag.filters = r
    refine .ok ?_
    rw [Draft.unmarked_advance_emit _ rfl]
    rfl

theorem capture_erasable : Erasable capture := by
  intro env tag d
  unfold capture
  refine .guard fun _ => .andThen (x := env.verbatimEnd d tag) fun stop => .ok ?_
  rw [Draft.unmarked_skipTo_emit _ rfl]
  rfl

theorem raw_erasable : Erasable raw := by
  intro env tag d
  refine .andThen (x := env.verbatimEnd d tag) fun stop => .ok ?_
  show (if (env.sourceBetween (d.idx + 1) stop).isEmpty then _ else _ : Draft).skipTo (stop + 1) = _
  split
  · rfl
  · rw [Draft.unmarked_skipTo_emit _ rfl]
    rfl

theorem comment_erasable : Erasable comment := by
  intro env tag d
  exact .andThen (x := env.verbatimEnd d tag) fun stop => .ok rfl

theorem script_erasable : Erasable script := by
  intro env tag d
  refine .andThen (x := env.findTag d "endjs") fun stop => .ok ?_
  have hsource : env.unmarked.sourceBetween (d.unmarked.idx + 1) stop =
      env.sourceBetween (d.idx + 1) stop := rfl
  rw [Draft.unmarked_skipTo_emit _ rfl, hsource]
  -- Which names the script declares does not matter, as they are the same ones.
  generalize declaredNames (env.sourceBetween (d.idx + 1) stop) = names
  rfl

/-! ### Conditions -/

theorem openCondition_erasable (kind : ConditionKind) : Erasable (openCondition kind) := by
  intro env tag d
  refine .andThen (x := env.findTag d kind.closer) fun stop => ?_
  refine .andThen (x := requireHead env tag "a condition is required") fun _ => ?_
  rw [Draft.unmarked_pipeline]
  generalize d.pipeline env tag.head tag.filters = r
  exact .ok rfl

/-- Starting a branch does not depend on positions. -/
theorem nextBranch_erasable (env : DraftEnv) (tag : Tag) (next : Option (Pipeline × Bool))
    (allowed : List ConditionKind) (d : Draft) :
    Mirrors Draft.unmarked (nextBranch env tag next allowed d)
      (nextBranch env.unmarked tag next allowed d.unmarked) := by
  obtain ⟨idx, inner, root⟩ := d
  cases inner with
  | nil => exact .error
  | cons block outer =>
    obtain ⟨kind, found⟩ := block
    cases kind with
    | condition kind branches current =>
      show Mirrors _ (if !allowed.contains kind then _ else _) (if !allowed.contains kind then _ else _)
      split
      · exact .error
      · cases current with
        | none => exact .error
        | some current =>
          refine .ok ?_
          simp [Draft.unmarked, Draft.withScope, Draft.advance, Draft.skipTo, OpenBlock.unmarked,
            OpenKind.unmarked, Branch.unmarked, unmarkedBody]
    | _ => exact .error

theorem elseIf_erasable : Erasable elseIf := by
  intro env tag d
  refine .andThen (x := requireHead env tag "a condition is required") fun _ => ?_
  rw [Draft.unmarked_pipeline]
  generalize d.pipeline env tag.head tag.filters = r
  exact nextBranch_erasable ..

theorem otherwise_erasable : Erasable otherwise := fun env tag d => nextBranch_erasable env tag none _ d

/-- Closing a block does not depend on positions. -/
theorem close_erasable (env : DraftEnv) (tag : Tag) (d : Draft) :
    Mirrors (fun (block, rest) => (OpenBlock.unmarked block, Draft.unmarked rest)) (close env tag d)
      (close env.unmarked tag d.unmarked) := by
  unfold close
  rw [Draft.unmarked_closeBlock]
  cases d.closeBlock? with
  | none => exact .error
  | some closed => exact .ok rfl

theorem closeCondition_erasable : Erasable closeCondition := by
  intro env tag d
  refine (close_erasable env tag d).bind fun (block, rest) => ?_
  obtain ⟨kind, found⟩ := block
  cases kind with
  | condition kind branches current =>
    show Mirrors _ (if kind.closer ≠ tag.name then _ else _) (if kind.closer ≠ tag.name then _ else _)
    split
    · exact .error
    · cases current with
      | none =>
        refine .ok ?_
        rw [Draft.unmarked_advance_emit _ rfl]
        simp [Instruction.unmarked, OpenBlock.body, OpenBlock.unmarked, unmarkedBranches_map,
          unmarkedOtherwise]
        rfl
      | some current =>
        refine .ok ?_
        rw [Draft.unmarked_advance_emit _ rfl]
        simp [Instruction.unmarked, OpenBlock.body, OpenBlock.unmarked, unmarkedBranches_map,
          unmarkedOtherwise, Branch.unmarked]
        rfl
  | _ => exact .error

/-! ### Cases -/

theorem openCase_erasable : Erasable openCase := by
  intro env tag d
  refine .andThen (x := env.findTag d "endcase") fun stop => ?_
  refine .andThen (x := requireHead env tag "a subject is required") fun _ => ?_
  rw [Draft.unmarked_pipeline]
  generalize d.pipeline env tag.head tag.filters = r
  exact .ok rfl

/-- Starting an arm does not depend on positions: they count as blank. -/
theorem nextArm_erasable (env : DraftEnv) (tag : Tag) (next : ArmLabel) (d : Draft) :
    Mirrors Draft.unmarked (nextArm env tag next d) (nextArm env.unmarked tag next d.unmarked) := by
  obtain ⟨idx, inner, root⟩ := d
  cases inner with
  | nil => exact .error
  | cons block outer =>
    obtain ⟨kind, found⟩ := block
    cases kind with
    | case subject arms current =>
      cases current with
      | some label =>
        refine .ok ?_
        simp [Draft.unmarked, OpenBlock.unmarked, OpenKind.unmarked, Arm.unmarked, unmarkedBody]
      | none =>
        show Mirrors _ (if !isBlankBody found then _ else _)
          (if !isBlankBody (unmarkedBody found) then _ else _)
        rw [isBlankBody_unmarked]
        split
        · exact .error
        · show Mirrors _ (if next = .default then _ else _) (if next = .default then _ else _)
          split
          · exact .error
          · exact .ok rfl
    | _ => exact .error

theorem armWhen_erasable : Erasable armWhen := by
  intro env tag d
  unfold armWhen
  rw [Draft.unmarked_pipelines]
  generalize d.pipelines env (partsOf ',' tag.head) = r
  refine .guard fun _ => ?_
  exact (nextArm_erasable env tag (.values r.1) r.2).bind fun _ => .ok rfl

theorem armDefault_erasable : Erasable armDefault := fun env tag d =>
  (nextArm_erasable env tag .default d).bind fun _ => .ok rfl

theorem closeCase_erasable : Erasable closeCase := by
  intro env tag d
  refine (close_erasable env tag d).bind fun (block, rest) => ?_
  obtain ⟨kind, found⟩ := block
  cases kind with
  | case subject arms current =>
    cases current with
    | none => exact .error
    | some label =>
      refine .ok ?_
      rw [Draft.unmarked_advance_emit _ rfl]
      simp [Instruction.unmarked, OpenBlock.body, OpenBlock.unmarked, unmarkedArms_map, Arm.unmarked]
      rfl
  | _ => exact .error

/-! ### Loops -/

theorem loopIterable_unmarked (env : DraftEnv) (d : Draft) (text : String) (calls : List FilterCall) :
    loopIterable env.unmarked d.unmarked text calls =
      ((loopIterable env d text calls).1, (loopIterable env d text calls).2.unmarked) := by
  unfold loopIterable
  split
  · simp only [Draft.unmarked_pipeline]
  · simp only [Draft.unmarked_pipeline]

theorem openLoop_erasable : Erasable openLoop := by
  intro env tag d
  refine .andThen (x := env.findTag d "endfor") fun stop => ?_
  cases LoopHead.ofHead? tag.head with
  | none => exact .error
  | some head =>
    refine .guard fun _ => ?_
    refine .andThen (x := loopBinding env tag head.binding) fun binding => ?_
    refine .andThen (x := loopBound env tag "offset") fun offset => ?_
    refine .andThen (x := loopBound env tag "limit") fun limit => ?_
    dsimp only
    rw [loopIterable_unmarked]
    generalize loopIterable env d head.iterable (tag.filters.filter (!isLoopBound ·)) = r
    exact .ok rfl

theorem closeLoop_erasable : Erasable closeLoop := by
  intro env tag d
  refine (close_erasable env tag d).bind fun (block, rest) => ?_
  obtain ⟨kind, found⟩ := block
  cases kind with
  | loop binding iterable offset limit =>
    refine .ok ?_
    rw [Draft.unmarked_advance_emit _ rfl]
    simp [Instruction.unmarked, OpenBlock.body, OpenBlock.unmarked]
    rfl
  | _ => exact .error

/-- A jump that is allowed inside some blocks. -/
theorem jump_erasable {p : OpenKind → Bool} (hp : ∀ kind, p (OpenKind.unmarked kind) = p kind)
    {i : Instruction} (hi : i.isPosition = false) (hsame : i.unmarked = i) (reason : String) :
    Erasable fun env tag d => do
      if !d.inside p then misuse env tag reason
      return (d.emit i).advance := by
  intro env tag d
  dsimp only
  rw [Draft.unmarked_inside d hp]
  refine .guard fun _ => .ok ?_
  rw [Draft.unmarked_advance_emit _ hi, hsame]

theorem breakOut_erasable : Erasable breakOut :=
  jump_erasable (fun kind => by cases kind <;> rfl) rfl rfl _

theorem goOn_erasable : Erasable goOn :=
  jump_erasable (fun kind => by cases kind <;> rfl) rfl rfl _

/-! ### Mixins and blocks -/

theorem mixin_erasable : Erasable mixin := by
  intro env tag d
  unfold mixin
  split
  · exact .error
  · next name texts _ =>
    refine .guard fun _ => ?_
    dsimp only
    split
    · exact .error
    · exact .andThen (x := env.findTag d "endmixin") fun stop => .ok rfl

theorem callMixin_erasable : Erasable callMixin := by
  intro env tag d
  unfold callMixin
  rw [Draft.unmarked_pipelines]
  generalize d.pipelines env (partsOf ' ' tag.head) = r
  refine .ok ?_
  rw [Draft.unmarked_advance_emit _ rfl]
  rfl

theorem block_erasable : Erasable block := by
  intro env tag d
  unfold block
  split
  · exact .error
  · next name _ =>
    refine .andThen (x := env.findTag d "endblock") fun stop => ?_
    rw [show env.unmarked.sites = env.sites from rfl, show d.unmarked.idx = d.idx from rfl]
    generalize (env.sites.get? name).getD (d.idx, d.idx) = site
    obtain ⟨first, last⟩ := site
    have hcall : (if d.idx = first then d.unmarked.emit (.callBlock name) else d.unmarked) =
        (if d.idx = first then d.emit (.callBlock name) else d).unmarked := by
      split
      · exact (Draft.unmarked_emit d (i := .callBlock name) rfl).symm
      · rfl
    dsimp only
    rw [hcall]
    split <;> exact .ok rfl

theorem trim_erasable : Erasable trim := fun _ _ _ => .ok rfl

theorem builtins_erasable : ∀ entry ∈ builtins, Erasable entry.2 := by
  simp only [builtins, List.forall_mem_cons]
  exact ⟨assign_erasable, capture_erasable, raw_erasable, comment_erasable, script_erasable,
    openCondition_erasable _, openCondition_erasable _, elseIf_erasable, elseIf_erasable,
    otherwise_erasable, closeCondition_erasable, closeCondition_erasable, openCase_erasable,
    armWhen_erasable, armDefault_erasable, closeCase_erasable, openLoop_erasable, closeLoop_erasable,
    breakOut_erasable, goOn_erasable, mixin_erasable, callMixin_erasable, block_erasable,
    trim_erasable, fun _ _ _ => .error, fun _ _ _ => .error, fun _ h => absurd h List.not_mem_nil⟩

end Handler

/-- Whatever handler the built-in registry gives for a tag is erasable. -/
theorem builtin_erasable {name : String} {handler : TagHandler}
    (h : TagRegistry.builtin.get? name = some handler) : Erasable handler := by
  obtain ⟨before, after, heq, _⟩ := List.lookup_eq_some_iff.1 h
  have hmem : (TagRegistry.handlerName name, handler) ∈ Handler.builtins := by
    rw [show Handler.builtins = before ++ (_, handler) :: after from heq]
    exact List.mem_append_right _ List.mem_cons_self
  exact Handler.builtins_erasable _ hmem

/-! ## Bodies -/

namespace Generator

variable {g : Generator}

theorem unmarked_handle (hg : g.registry = .builtin) (token : Token) (trim : Bool) (d : Draft) :
    Mirrors Draft.unmarked (g.handle token trim d) (g.unmarked.handle token trim d.unmarked) := by
  cases token with
  | raw text pos =>
    refine .ok ?_
    generalize (if trim then String.ofList (Text.trimLeft text.toList) else text) = written
    split
    · rfl
    · exact (Draft.unmarked_advance_emit d (i := .text written) rfl).symm
  | object expression calls source pos =>
    unfold handle
    dsimp only
    rw [show g.unmarked.env = g.env.unmarked from rfl, Draft.unmarked_pipeline]
    generalize d.pipeline g.env expression calls = r
    refine .ok ?_
    rw [Draft.unmarked_advance_emit _ rfl]
    rfl
  | tag tag =>
    unfold handle
    dsimp only
    rw [show g.unmarked.registry = .builtin from hg, hg]
    cases h : TagRegistry.builtin.get? tag.name with
    | none => exact .error
    | some handler => exact builtin_erasable h g.env tag d

/-- A token keeps the drafts alike: the one without positions is the one with them, less these. -/
theorem unmarked_step (hg : g.registry = .builtin) (token : Token) (d : Draft) :
    Mirrors Draft.unmarked (g.step token d) (g.unmarked.step token d.unmarked) := by
  have hmark : ({ d.unmarked with trimNext := false } : Draft).mark g.unmarked.env token.pos =
      (({ d with trimNext := false } : Draft).mark g.env token.pos).unmarked :=
    (Draft.unmarked_mark { d with trimNext := false } g.env token.pos).symm
  unfold step
  rw [hmark]
  exact unmarked_handle hg token d.trimNext _

/-- So does a range of tokens. -/
theorem unmarked_range (hg : g.registry = .builtin) (stop : Nat) (d : Draft) :
    Mirrors Draft.unmarked (g.generateRange stop d) (g.unmarked.generateRange stop d.unmarked) := by
  fun_induction generateRange g stop d with
  | case1 d hlt hnone =>
    have hnone : g.unmarked.env.token? d.unmarked.idx = none := hnone
    rw [generateRange, dif_pos (show d.unmarked.idx < stop from hlt)]
    simp only [hnone]
    exact .ok rfl
  | case2 d hlt token here e hstep =>
    have here : g.unmarked.env.token? d.unmarked.idx = some token := here
    have hunmarked := unmarked_step hg token d
    rw [hstep] at hunmarked
    rw [generateRange, dif_pos (show d.unmarked.idx < stop from hlt)]
    simp only [here, show g.unmarked.step token d.unmarked = .error e from hunmarked]
    exact .error
  | case3 d hlt token here next hstep hnext ih =>
    have here : g.unmarked.env.token? d.unmarked.idx = some token := here
    have hunmarked := unmarked_step hg token d
    rw [hstep] at hunmarked
    have hrest : g.unmarked.generateRange stop d.unmarked =
        g.unmarked.generateRange stop next.unmarked := by
      conv => lhs; rw [generateRange]
      rw [dif_pos (show d.unmarked.idx < stop from hlt)]
      simp only [here, show g.unmarked.step token d.unmarked = .ok next.unmarked from hunmarked]
      rw [dif_pos (show d.unmarked.idx < next.unmarked.idx from hnext)]
    rw [hrest]
    exact ih
  | case4 d hlt token here next hstep hnext =>
    have here : g.unmarked.env.token? d.unmarked.idx = some token := here
    have hunmarked := unmarked_step hg token d
    rw [hstep] at hunmarked
    rw [generateRange, dif_pos (show d.unmarked.idx < stop from hlt)]
    simp only [here, show g.unmarked.step token d.unmarked = .ok next.unmarked from hunmarked]
    rw [dif_neg (show ¬ d.unmarked.idx < next.unmarked.idx from hnext)]
    exact .error
  | case5 d hlt =>
    rw [generateRange, dif_neg (show ¬ d.unmarked.idx < stop from hlt)]
    exact .ok rfl

/-- A body and the draft behind it, both without positions. -/
def unmarkedResult : List Instruction × Draft → List Instruction × Draft
  | (body, d) => (unmarkedBody body, d.unmarked)

theorem unmarked_body (hg : g.registry = .builtin) (body : Deferred) (d : Draft) :
    Mirrors unmarkedResult (g.generateBody body d) (g.unmarked.generateBody body d.unmarked) := by
  have hdepth (d : Draft) : d.unmarked.depth = d.depth := by simp [Draft.depth, Draft.unmarked]
  unfold generateBody
  refine (unmarked_range hg body.stop _).bind fun d' => ?_
  dsimp only
  rw [show d'.unmarked.withScope Scope.destroy = (d'.withScope Scope.destroy).unmarked from rfl,
    Draft.unmarked_closeBlock]
  cases (d'.withScope Scope.destroy).closeBlock? with
  | none => exact .error
  | some closed =>
    obtain ⟨⟨kind, found⟩, rest⟩ := closed
    cases kind with
    | root =>
      show Mirrors _ (if rest.depth = d.depth then _ else _)
        (if rest.unmarked.depth = d.unmarked.depth then _ else _)
      rw [hdepth, hdepth]
      split
      · exact .ok (by simp [unmarkedResult, OpenBlock.body, OpenBlock.unmarked])
      · exact .error
    | _ => exact .error

/-! ## Programs -/

/-- So do all bodies that were left behind. -/
theorem unmarked_deferred (hg : g.registry = .builtin) (fuel : Nat) (d : Draft) (program : Program) :
    Mirrors (fun (d, program) => (Draft.unmarked d, Program.unmarked program))
      (g.generateDeferred fuel d program)
      (g.unmarked.generateDeferred fuel d.unmarked program.unmarked) := by
  induction fuel generalizing d program with
  | zero => exact .ok rfl
  | succ fuel ih =>
    unfold generateDeferred
    rw [show program.unmarked.mixins.size = program.mixins.size from Table.size_map _ _,
      show program.unmarked.blocks.size = program.blocks.size from Table.size_map _ _]
    rw [show d.unmarked.mixins = d.mixins from rfl, show d.unmarked.blocks = d.blocks from rfl]
    split
    · next name body _ =>
      refine (unmarked_body hg body d).bind fun (instructions, d') => ?_
      have hnext := ih d' { program with
        mixins := program.mixins.insert name ⟨body.params, instructions⟩ }
      rw [Program.unmarked, Table.map_insert] at hnext
      exact hnext
    · next name body _ _ =>
      refine (unmarked_body hg body d).bind fun (instructions, d') => ?_
      have hnext := ih d' { program with blocks := program.blocks.insert name instructions }
      rw [Program.unmarked, Table.map_insert] at hnext
      exact hnext
    · exact .ok rfl

theorem unmarked_main (hg : g.registry = .builtin) :
    Mirrors Draft.unmarked g.generateMain g.unmarked.generateMain := by
  unfold generateMain
  refine (unmarked_range hg g.env.tokens.length {}).bind fun d => ?_
  obtain ⟨idx, inner, root⟩ := d
  cases inner with
  | nil => exact .ok rfl
  | cons block outer =>
    obtain ⟨kind, found⟩ := block
    cases kind <;> exact .error

/-- Calls of mixins are warned about at their tags, whether positions are kept or not. -/
theorem unmarked_warnCalls (program : Program) (d : Draft) :
    g.unmarked.warnCalls program.unmarked d.unmarked = (g.warnCalls program d).unmarked := by
  unfold warnCalls
  rw [show d.unmarked.calls = d.calls from rfl]
  generalize d.calls.reverse = calls
  induction calls generalizing d with
  | nil => rfl
  | cons call calls ih =>
    rw [List.foldl_cons, List.foldl_cons, ← ih]
    simp only [Program.unmarked, Table.contains_map]
    split <;> rfl

end Generator

/-- What is learnt about a template, with the program less its positions. -/
def Generated.unmarked (made : Generated) : Generated :=
  { made with program := made.program.unmarked }

theorem Generator.unmarked_generate {g : Generator} (hg : g.registry = .builtin) :
    Mirrors Generated.unmarked g.generate g.unmarked.generate := by
  unfold generate
  refine (unmarked_main hg).bind fun d => ?_
  refine (unmarked_deferred hg (g.env.tokens.length + 1) d {}).bind fun (d', program) => .ok ?_
  rw [unmarked_warnCalls]
  simp [Generated.unmarked, Program.unmarked, Draft.unmarked, OpenBlock.body, OpenBlock.unmarked]

/-- Without positions the same programs are made, less the positions, the same is learnt about the
template, and what fails fails alike. -/
theorem unmarked_generate (tokens : List Token) (files : Files) :
    generate tokens files .builtin false =
      (generate tokens files .builtin true).map Generated.unmarked := by
  unfold generate
  cases blockSites TagRegistry.builtin.kinds tokens with
  | error opener => rfl
  | ok sites =>
    exact Generator.unmarked_generate
      (g := ⟨⟨tokens, files, TagRegistry.builtin.kinds, true, sites⟩, .builtin⟩) rfl

end Stencil
