import Stencil.Proofs.Generation.Abreast
import Stencil.Proofs.Generation.Aside

/-!
# Variables and paths that are listed

While a program is made, the variables that it reads from the bindings are listed, and with each the
path by which it is read. Only the expressions of tokens are looked at, each in the scope in which its
token is generated.

* `Draft.Lists`: one draft lists what another one does, and some accesses besides.
* `Generator.step_lists`: a token adds the accesses of its expressions, and no others.
* `Generator.range_lists`, `Generator.deferred_lists`: so do the tokens that a body reaches, and the
  bodies that were left behind.
* `generate_lists`: a program lists the accesses of the tokens that were generated.
-/

namespace Stencil

/-- Some expressions read a variable that is not bound in the scope. -/
def Scope.Reads (σ : Scope) (bases : List String) (access : Access) : Prop :=
  (∃ base ∈ bases, Access.ofExpression? base = some access) ∧ σ.has access.variableName = false

/-- The second draft lists what the first one does, and some accesses besides. -/
structure Draft.Lists (d : Draft) (S : Access → Prop) (d' : Draft) : Prop where
  locals : ∀ name, name ∈ d'.locals ↔
    name ∈ d.locals ∨ ∃ access, S access ∧ access.variableName = name
  paths : ∀ path, path ∈ d'.paths ↔ path ∈ d.paths ∨ ∃ access, S access ∧ access.path = path

section

variable {S S' : Access → Prop} {d d₁ d' : Draft} {σ : Scope} {bases bases' : List String}
  {access : Access}

namespace Scope

theorem not_reads_nil : ¬ σ.Reads [] access := by
  rintro ⟨⟨_, hmem, _⟩, _⟩
  exact absurd hmem List.not_mem_nil

theorem reads_append :
    σ.Reads (bases ++ bases') access ↔ σ.Reads bases access ∨ σ.Reads bases' access := by
  simp only [Reads, List.mem_append, or_and_right, exists_or]

end Scope

/-! ## Drafts -/

namespace Draft

namespace Lists

theorem congr (h : d.Lists S d') (hS : ∀ access, S access ↔ S' access) : d.Lists S' d' where
  locals name := by simp only [h.locals, hS]
  paths path := by simp only [h.paths, hS]

/-- Nothing is added. -/
theorem same (hS : ∀ access, ¬ S access) (hlocals : d'.locals = d.locals)
    (hpaths : d'.paths = d.paths) : d.Lists S d' where
  locals name := by simp [hlocals, hS]
  paths path := by simp [hpaths, hS]

theorem nothing (d : Draft) (σ : Scope) : d.Lists (σ.Reads []) d :=
  same (fun _ => Scope.not_reads_nil) rfl rfl

theorem trans (h : d.Lists S d₁) (h' : d₁.Lists S' d') :
    d.Lists (fun access => S access ∨ S' access) d' where
  locals name := by simp only [h'.locals, h.locals, or_and_right, exists_or, or_assoc]
  paths path := by simp only [h'.paths, h.paths, or_and_right, exists_or, or_assoc]

/-- What else changes does not matter. -/
theorem keeps (h : d.Lists S d₁) (hlocals : d'.locals = d₁.locals) (hpaths : d'.paths = d₁.paths) :
    d.Lists S d' where
  locals name := by rw [hlocals, h.locals]
  paths path := by rw [hpaths, h.paths]

theorem advance (h : d.Lists S d') : d.Lists S d'.advance := h.keeps rfl rfl

theorem setTop (h : d.Lists S d') (b : OpenBlock) : d.Lists S (d'.setTop b) := by
  unfold Draft.setTop
  split <;> exact h.keeps rfl rfl

theorem emit (h : d.Lists S d') (i : Instruction) : d.Lists S (d'.emit i) := h.setTop _

theorem calls (h : d.Lists S d') (calls : List (String × Pos)) : d.Lists S { d' with calls } :=
  h.keeps rfl rfl

end Lists

theorem addLocal_lists (d : Draft) (base : String) : ∃ needed d', d.addLocal base = (needed, d') ∧
    d.Lists (d.scope.Reads [base]) d' ∧ d'.scope = d.scope := by
  have hreads (access : Access) : d.scope.Reads [base] access ↔
      Access.ofExpression? base = some access ∧ d.scope.has access.variableName = false := by
    simp only [Scope.Reads, List.mem_singleton, exists_eq_left]
  unfold addLocal
  cases hbase : Access.ofExpression? base with
  | none =>
    refine ⟨_, d, rfl, .same (fun access h => ?_) rfl rfl, rfl⟩
    rw [hreads, hbase] at h
    cases h.1
  | some found =>
    dsimp only
    by_cases hbound : d.scope.has found.variableName = true
    · rw [if_pos hbound]
      refine ⟨_, d, rfl, .same (fun access h => ?_) rfl rfl, rfl⟩
      rw [hreads, hbase] at h
      obtain rfl := Option.some.inj h.1
      rw [hbound] at h
      cases h.2
    · rw [if_neg hbound]
      have hfound (access : Access) : d.scope.Reads [base] access ↔ access = found := by
        rw [hreads, hbase, Option.some.injEq, eq_comm]
        refine and_iff_left_of_imp ?_
        rintro rfl
        exact Bool.eq_false_iff.2 hbound
      refine ⟨_, _, rfl, ⟨fun name => ?_, fun path => ?_⟩, rfl⟩
      · simp only [hfound, exists_eq_left, NameSet.mem_insert]
        rw [or_comm, eq_comm]
      · simp only [hfound, exists_eq_left, NameSet.mem_insert]
        rw [or_comm, eq_comm]

theorem pipeline_lists (env : DraftEnv) (d : Draft) (base : String) (calls : List FilterCall) :
    ∃ p d', d.pipeline env base calls = (p, d') ∧ d.Lists (d.scope.Reads [base]) d' ∧
      d'.scope = d.scope := by
  unfold pipeline
  dsimp only
  generalize calls.foldl (fun t call => t.insertNew call.name (env.posOf d)) d.filters = filters
  obtain ⟨needed, d', hadd, hlists, hscope⟩ := addLocal_lists { d with filters } base
  rw [hadd]
  exact ⟨_, d', rfl, ⟨hlists.locals, hlists.paths⟩, hscope⟩

/-- What is noted lists what the expressions read in the scope of the draft. -/
theorem Noted.lists {env : DraftEnv} {calls : List FilterCall} (h : d.Noted env bases calls d') :
    d.Lists (d.scope.Reads bases) d' := by
  induction h with
  | nil => exact .nothing _ _
  | @cons d _ _ _ base _ calls _ first _ ih =>
    obtain ⟨p, d₁, hp, hlists, hscope⟩ := pipeline_lists env d base calls
    obtain ⟨rfl, rfl⟩ := Prod.mk.inj (first.symm.trans hp)
    rw [hscope] at ih
    exact (hlists.trans ih).congr fun access => Scope.reads_append.symm

end Draft

/-! ## Handlers -/

namespace Handler

/-- What is made lists the accesses of some expressions besides what the draft does. -/
abbrev ListsFor (d : Draft) (bases : List String) : Except Error Draft → Prop :=
  Gives (d.Lists (d.scope.Reads bases))

/-- What a handler notes is listed, and its moves list nothing. -/
theorem Works.lists {env : DraftEnv} {calls : List FilterCall} {x : Except Error Draft}
    (h : Works env d bases calls x) : ListsFor d bases x :=
  h.mono fun _ ⟨_, hnoted, hmoves⟩ => hnoted.lists.keeps hmoves.keeps.1 hmoves.keeps.2.1

variable (env : DraftEnv) (tag : Tag) (d : Draft)

theorem mixin_lists : ListsFor d [] (mixin env tag d) := by
  unfold mixin
  split
  · exact .error _
  · refine .guard ?_
    dsimp only
    split
    · exact .error _
    · exact .bind (.any _) fun stop _ => .ok ((Draft.Lists.nothing d _).keeps rfl rfl)

theorem callMixin_lists : ListsFor d (partsOf ' ' tag.head) (callMixin env tag d) := by
  unfold callMixin
  obtain ⟨args, d₁, hargs, hnoted⟩ := Draft.pipelines_noted env d (partsOf ' ' tag.head)
  rw [hargs]
  exact .ok ((hnoted.lists.calls _).emit _).advance

theorem trim_lists : ListsFor d [] (trim env tag d) :=
  .ok ((Draft.Lists.nothing d _).keeps rfl rfl)

/-- Whatever handler the built-in registry gives for a tag, it adds the accesses of the expressions of
the tag. -/
theorem builtin_lists {handler : TagHandler}
    (h : TagRegistry.builtin.get? tag.name = some handler) :
    ListsFor d (Token.tag tag).operands (handler env tag d) := by
  by_cases hspecial : TagRegistry.handlerName tag.name ∈ specialTags
  · simp only [specialTags, List.mem_cons, List.not_mem_nil, or_false] at hspecial
    rcases hspecial with hname | hname | hname
    · obtain rfl : mixin = handler := registered h hname rfl
      rw [Token.operands_eq_nil (handlerName_eq hname (by decide) ▸ by decide) (hname ▸ by decide)]
      exact mixin_lists env tag d
    · obtain rfl : callMixin = handler := registered h hname rfl
      rw [Token.operands_call hname]
      exact callMixin_lists env tag d
    · obtain rfl : trim = handler := registered h hname rfl
      rw [Token.operands_eq_nil (handlerName_eq hname (by decide) ▸ by decide) (hname ▸ by decide)]
      exact trim_lists env tag d
  · exact (builtins_work env tag d _ (Table.mem_of_get? h) hspecial rfl).lists

end Handler

end

/-! ## Tokens -/

namespace Generator

variable {g : Generator} {d d' : Draft} {token : Token} {stop : Nat} {access : Access}

theorem handle_lists (hg : g.IsBuiltin) (token : Token) (trim : Bool) (d : Draft) :
    Gives (d.Lists (d.scope.Reads token.operands)) (g.handle token trim d) := by
  cases token with
  | raw text pos => exact (Handler.Works.of_moves g.env d (handle_raw g d text pos trim)).lists
  | object expression calls source pos =>
    exact (handle_object g d expression calls source pos trim).lists
  | tag tag =>
    unfold handle
    dsimp only
    split
    · exact .error _
    · next handler hhandler =>
      rw [hg.registry] at hhandler
      exact Handler.builtin_lists g.env tag d hhandler

/-- A token adds the accesses of its expressions in the scope in which it is generated, and no
others. -/
theorem step_lists (hg : g.IsBuiltin) (h : g.step token d = .ok d') :
    d.Lists (d.scope.Reads token.operands) d' := by
  have hmark : d.Lists (d.scope.Reads [])
      (({ d with trimNext := false } : Draft).mark g.env token.pos) := by
    have hstart : d.Lists (d.scope.Reads []) { d with trimNext := false } :=
      (Draft.Lists.nothing d _).keeps rfl rfl
    unfold Draft.mark
    split
    · exact hstart.setTop _
    · exact hstart
  have hlists := (handle_lists hg token d.trimNext _).get h
  rw [Draft.scope_mark] at hlists
  exact (hmark.trans hlists).congr fun access => or_iff_right Scope.not_reads_nil

/-! ## Bodies -/

/-- The access is one of a token before `stop` that is reached from a draft, in the scope in which it
is reached. -/
def ReadsBefore (g : Generator) (d : Draft) (stop : Nat) (access : Access) : Prop :=
  ∃ k < stop, ∃ σ token, g.Reaches d k σ ∧ g.env.token? k = some token ∧
    σ.Reads token.operands access

/-- What is read behind the end of the tokens is nothing. -/
theorem not_readsBefore_of_none (hnone : g.env.token? d.idx = none) :
    ¬ g.ReadsBefore d stop access := by
  rintro ⟨k, _, σ, token, hreaches, here, _⟩
  have hlength := (List.getElem?_eq_some_iff.1 here).1
  have hend := List.getElem?_eq_none_iff.1 hnone
  have hle := hreaches.le
  omega

theorem not_readsBefore_of_le (hle : stop ≤ d.idx) : ¬ g.ReadsBefore d stop access := by
  rintro ⟨k, hk, σ, token, hreaches, _⟩
  have := hreaches.le
  omega

/-- What is read from a token on is read by it, or behind it. -/
theorem readsBefore_iff {next : Draft} (hlt : d.idx < stop) (here : g.env.token? d.idx = some token)
    (hstep : g.step token d = .ok next) (hnext : d.idx < next.idx) :
    g.ReadsBefore d stop access ↔
      d.scope.Reads token.operands access ∨ g.ReadsBefore next stop access := by
  constructor
  · rintro ⟨k, hk, σ, token', hreaches, here', hreads⟩
    by_cases hidx : d.idx = k
    · subst hidx
      obtain ⟨d', hrange, _, rfl⟩ := hreaches
      rw [generateRange_of_le g (Nat.le_refl _)] at hrange
      obtain rfl := Except.ok.inj hrange
      obtain rfl := Option.some.inj (here.symm.trans here')
      exact .inl hreads
    · exact .inr ⟨k, hk, σ, token', hreaches.next here hstep hnext hidx, here', hreads⟩
  · rintro (hreads | ⟨k, hk, σ, token', hreaches, here', hreads⟩)
    · exact ⟨d.idx, hlt, d.scope, token, .here g d, here, hreads⟩
    · exact ⟨k, hk, σ, token', hreaches.step here hstep hnext, here', hreads⟩

/-- The tokens that are reached add their accesses, and no others. -/
theorem range_lists (hg : g.IsBuiltin) (h : g.generateRange stop d = .ok d') :
    d.Lists (g.ReadsBefore d stop) d' := by
  fun_induction generateRange g stop d with
  | case1 d hlt hnone =>
    obtain rfl := Except.ok.inj h
    exact .same (fun access => not_readsBefore_of_none hnone) rfl rfl
  | case2 | case4 => cases h
  | case3 d hlt token here next hstep hnext ih =>
    exact ((step_lists hg hstep).trans (ih h)).congr fun access =>
      (readsBefore_iff hlt here hstep hnext).symm
  | case5 d hlt =>
    obtain rfl := Except.ok.inj h
    exact .same (fun access => not_readsBefore_of_le (Nat.le_of_not_lt hlt)) rfl rfl

theorem body_lists (hg : g.IsBuiltin) {body : Deferred} {instructions : List Instruction}
    (h : g.generateBody body d = .ok (instructions, d')) :
    d.Lists (g.ReadsBefore (d.begin body) body.stop) d' := by
  obtain ⟨d₁, hrange, _, block, outer, _, _, rfl⟩ := generateBody_ok h
  have hlists := range_lists hg hrange
  exact ⟨hlists.locals, hlists.paths⟩

/-- The access is one of a body that is generated in one of some rounds. -/
def ReadsWithin (g : Generator) (rounds : Nat) (d : Draft) (program : Program) (access : Access) :
    Prop :=
  ∃ n < rounds, ∃ d₁ program₁ body, g.generateDeferred n d program = .ok (d₁, program₁) ∧
    d₁.next? program₁ = some body ∧ g.ReadsBefore (d₁.begin body) body.stop access

/-- What is read in some rounds is read in the first one or in those behind it. -/
theorem readsWithin_succ {rounds : Nat} {program program' : Program} {body : Deferred}
    (hnext : d.next? program = some body) (hround : g.round d program = some (.ok (d', program'))) :
    g.ReadsWithin (rounds + 1) d program access ↔
      g.ReadsBefore (d.begin body) body.stop access ∨ g.ReadsWithin rounds d' program' access := by
  have hlater (n : Nat) : g.generateDeferred (n + 1) d program = g.generateDeferred n d' program' := by
    rw [generateDeferred_succ, hround]
    rfl
  constructor
  · rintro ⟨n, hn, d₁, program₁, body₁, hdone, hnext₁, hreads⟩
    cases n with
    | zero =>
      cases hdone
      obtain rfl := Option.some.inj (hnext.symm.trans hnext₁)
      exact .inl hreads
    | succ n =>
      rw [hlater] at hdone
      exact .inr ⟨n, Nat.lt_of_succ_lt_succ hn, d₁, program₁, body₁, hdone, hnext₁, hreads⟩
  · rintro (hreads | ⟨n, hn, d₁, program₁, body₁, hdone, hnext₁, hreads⟩)
    · exact ⟨0, Nat.succ_pos _, d, program, body, rfl, hnext, hreads⟩
    · exact ⟨n + 1, Nat.succ_lt_succ hn, d₁, program₁, body₁, (hlater n).trans hdone, hnext₁, hreads⟩

/-- The bodies that were left behind add the accesses of their tokens. -/
theorem deferred_lists (hg : g.IsBuiltin) {rounds : Nat} {program program' : Program}
    (h : g.generateDeferred rounds d program = .ok (d', program')) :
    d.Lists (g.ReadsWithin rounds d program) d' := by
  induction rounds generalizing d program with
  | zero =>
    cases h
    refine .same (fun access => ?_) rfl rfl
    rintro ⟨n, hn, _⟩
    exact absurd hn (Nat.not_lt_zero n)
  | succ rounds ih =>
    rw [generateDeferred_succ] at h
    cases hround : g.round d program with
    | none =>
      -- Without a next body no round changes anything.
      have hstays (n : Nat) : g.generateDeferred n d program = .ok (d, program) := by
        cases n with
        | zero => rfl
        | succ n => rw [generateDeferred_succ, hround]
      rw [hround] at h
      cases h
      refine .same (fun access => ?_) rfl rfl
      rintro ⟨n, hn, d₁, program₁, body, hdone, hnext, _⟩
      obtain ⟨rfl, rfl⟩ := Prod.mk.inj (Except.ok.inj ((hstays n).symm.trans hdone))
      rw [round_eq_none.1 hround] at hnext
      cases hnext
    | some x =>
      rw [hround] at h
      cases x with
      | error e => cases h
      | ok made =>
        obtain ⟨d₁, program₁⟩ := made
        obtain ⟨body, instructions, hnext, hbody, _⟩ := round_ok hround
        exact ((body_lists hg hbody).trans (ih h)).congr fun access =>
          (readsWithin_succ hnext hround).symm

/-! ## Programs -/

/-- The access is one of a token that is generated, in the scope in which it is. -/
def Reads (g : Generator) (access : Access) : Prop :=
  ∃ k σ token, g.HeldAt k σ ∧ g.env.token? k = some token ∧ σ.Reads token.operands access

/-- What is generated is the main body and the bodies that were left behind. -/
theorem reads_iff (hg : g.IsBuiltin) {main : Draft} (hmain : g.generateMain = .ok main) :
    g.Reads access ↔ g.ReadsBefore {} g.env.tokens.length access ∨
      g.ReadsWithin (g.env.tokens.length + 1) main {} access := by
  constructor
  · rintro ⟨k, σ, token, held, here, hreads⟩
    cases held with
    | main lt reaches => exact .inl ⟨k, lt, σ, token, reaches, here, hreads⟩
    | @deferred main' d program rounds body first done next lt reaches =>
      obtain rfl := Except.ok.inj (hmain.symm.trans first)
      have hrounds := Nat.lt_succ_of_lt (rounds_lt hg first done next)
      exact .inr ⟨rounds, hrounds, d, program, body, done, next, k, lt, σ, token, reaches, here,
        hreads⟩
  · rintro (⟨k, lt, σ, token, reaches, here, hreads⟩ |
      ⟨rounds, _, d, program, body, done, next, k, lt, σ, token, reaches, here, hreads⟩)
    · exact ⟨k, σ, token, .main lt reaches, here, hreads⟩
    · exact ⟨k, σ, token, .deferred hmain done next lt reaches, here, hreads⟩

end Generator

/-- A program lists the accesses of the tokens that are generated, and no others. -/
theorem generate_lists {tokens : List Token} {files : Files} {positions : Bool} {made : Generated}
    (hmade : generate tokens files .builtin positions = .ok made) :
    ∃ sites, blockSites TagRegistry.builtin.kinds tokens = .ok sites ∧
      (∀ name, name ∈ made.locals ↔ ∃ access,
        (builtinGenerator tokens files positions sites).Reads access ∧ access.variableName = name) ∧
      ∀ path, path ∈ made.paths ↔ ∃ access,
        (builtinGenerator tokens files positions sites).Reads access ∧ access.path = path := by
  obtain ⟨sites, hsites, -⟩ := (generate_settles tokens files positions).get hmade
  have hg : (builtinGenerator tokens files positions sites).IsBuiltin := ⟨rfl, rfl⟩
  rw [generate_eq hsites] at hmade
  obtain ⟨main, last, program, hmain, hlast, -⟩ := Generator.generate_ok hmade
  obtain rfl := Except.ok.inj (hmade.symm.trans (Generator.generate_of_rounds hmain hlast))
  have hlists := ((Generator.range_lists hg (Generator.generateMain_ok hmain)).trans
    (Generator.deferred_lists hg hlast)).congr fun access => (Generator.reads_iff hg hmain).symm
  refine ⟨sites, hsites, fun name => ?_, fun path => ?_⟩
  · exact (hlists.locals name).trans (or_iff_right NameSet.not_mem_empty)
  · exact (hlists.paths path).trans (or_iff_right NameSet.not_mem_empty)

end Stencil
