import Mathlib.Data.List.Nodup
import Mathlib.Data.List.Perm.Subperm
import Stencil.Proofs.Generation.Run

/-!
# Bodies that are generated later

The bodies of mixins and blocks are generated after the main body, one in each round. `Between` is
the invariant between two rounds: nothing is open, what a program has so far was made of bodies that
were left behind, and the next one of these has not been generated before.

* `Generator.round_settles`: a round keeps the invariant, and a program has one more body behind it.
* `Generator.generate_settles`: so programs are made of their tokens (`Made`), and the checks that
  look for blocks left open or closed in the wrong order never fail.
* `Between.bound`: there are no more bodies than tokens, so that all of them are generated.
* `Generator.HeldAt.outcome`: what a token makes hold of a draft holds in the end.
-/

namespace Stencil

/-! ## Bodies that were left behind -/

/-- A body that was left behind has become some instructions. -/
def Deferred.Becomes (env : DraftEnv) (L : String → Prop) (A : Nat → Scope → Prop) (σ : Scope)
    (body : Deferred) (instructions : List Instruction) : Prop :=
  ∃ found, instructions = found.reverse ∧
    Filled env L A (σ.create.addAll body.params) body.start .root found body.stop

theorem Deferred.Becomes.mono {env : DraftEnv} {L L' : String → Prop} {A : Nat → Scope → Prop}
    {σ : Scope} {body : Deferred} {instructions : List Instruction}
    (h : body.Becomes env L A σ instructions)
    (hL : ∀ name, L name → L' name) : body.Becomes env L' A σ instructions := by
  obtain ⟨found, rfl, filled⟩ := h
  exact ⟨found, rfl, filled.mono hL⟩

/-- The mixins and blocks of a program are bodies that were left behind. -/
structure Calls (env : DraftEnv) (L : String → Prop) (A : Nat → Scope → Prop) (σ : Scope)
    (program : Program) : Prop where
  mixins : ∀ e ∈ program.mixins.entries, ∃ body, LeftBehind env A "mixin" e.1 body ∧
    e.2.params = body.params ∧ body.Becomes env L A σ e.2.body
  blocks : ∀ e ∈ program.blocks.entries, ∃ body, LeftBehind env A "block" e.1 body ∧
    body.Becomes env L A σ e.2

/-- The main body is complete: nothing is open, and the scope is the final one. -/
structure Resting (env : DraftEnv) (A : Nat → Scope → Prop) (found : List Instruction)
    (d : Draft) : Prop where
  stack : d.stack = [⟨.root, found⟩]
  scope : d.scope = Scope.behind {} found.reverse
  filled : Filled env (· ∈ d.locals) A {} 0 .root found env.tokens.length
  mixins : ∀ e ∈ d.mixins.entries, LeftBehind env A "mixin" e.1 e.2
  blocks : ∀ e ∈ d.blocks.entries, LeftBehind env A "block" e.1 e.2

theorem Calls.mono {env : DraftEnv} {L L' : String → Prop} {A : Nat → Scope → Prop} {σ : Scope}
    {program : Program}
    (h : Calls env L A σ program) (hL : ∀ name, L name → L' name) : Calls env L' A σ program where
  mixins e he := by
    obtain ⟨body, hbehind, hparams, hbody⟩ := h.mixins e he
    exact ⟨body, hbehind, hparams, hbody.mono hL⟩
  blocks e he := by
    obtain ⟨body, hbehind, hbody⟩ := h.blocks e he
    exact ⟨body, hbehind, hbody.mono hL⟩

/-- The outermost block is at the end of the stack. -/
theorem Draft.stack_append {d : Draft} {outer : List OpenBlock} {b : OpenBlock}
    (h : d.stack = outer ++ [b]) : d.inner = outer ∧ d.root = b := by
  obtain ⟨hinner, hroot⟩ := List.append_inj' h rfl
  exact ⟨hinner, (List.cons.inj hroot).1⟩

/-- The draft at the start of a body that was left behind. -/
def Draft.begin (d : Draft) (body : Deferred) : Draft :=
  ((d.openBlock .root).withScope fun s => s.create.addAll body.params).skipTo body.start

/-- The body that is generated next, when those of a program are done. -/
def Draft.next? (d : Draft) (program : Program) : Option Deferred :=
  (d.mixins.entries[program.mixins.size]?.or d.blocks.entries[program.blocks.size]?).map Prod.snd

namespace Resting

variable {env : DraftEnv} {A : Nat → Scope → Prop} {found : List Instruction} {d d₁ : Draft}

theorem inner_root (h : Resting env A found d) : d.inner = [] ∧ d.root = ⟨.root, found⟩ :=
  Draft.stack_append (show d.stack = [] ++ [_] from h.stack)

/-- The body that is generated next was left behind. -/
theorem next {program : Program} {body : Deferred} (h : Resting env A found d)
    (hnext : d.next? program = some body) :
    ∃ opener ∈ ["mixin", "block"], ∃ name, LeftBehind env A opener name body := by
  obtain ⟨e, he, rfl⟩ := Option.map_eq_some_iff.1 hnext
  rcases Option.or_eq_some_iff.1 he with he | ⟨_, he⟩
  · exact ⟨"mixin", by decide, _, h.mixins e (List.mem_of_getElem? he)⟩
  · exact ⟨"block", by decide, _, h.blocks e (List.mem_of_getElem? he)⟩

/-- The draft at the start of a body that was left behind: it has a frame of its own, with its
parameters bound. -/
theorem opened {A' : Nat → Scope → Prop} (h : Resting env A found d)
    (hA : ∀ k σ, A k σ → A' k σ) (body : Deferred) :
    Going env d A' ((Scope.behind {} found.reverse).create.addAll body.params) body.start [d.root]
      (d.begin body) where
  grows := ⟨fun _ h => h, fun _ h => h, .refl _, .refl _⟩
  stacked := by
    have hstack : (⟨.root, []⟩ :: d.inner) ++ [d.root] = ⟨.root, []⟩ :: [d.root] := by
      rw [h.inner_root.1]
      rfl
    show Stacked env _ _ _ body.start [d.root] ((⟨.root, []⟩ :: d.inner) ++ [d.root])
      (d.scope.create.addAll body.params) body.start
    rw [hstack, h.scope]
    exact .ground .root
  mixins e he := (h.mixins e he).imp fun _ ⟨tag, σ, defers, held⟩ => ⟨tag, σ, defers, hA _ _ held⟩
  blocks e he := (h.blocks e he).imp fun _ ⟨tag, σ, defers, held⟩ => ⟨tag, σ, defers, hA _ _ held⟩

/-- When its frame is closed, everything is as it was. -/
theorem closed (h : Resting env A found d) {τ : Scope} {start : Nat} {names : List String}
    (hgoing : Going env d A τ start [d.root] d₁) (hroot : d₁.root = d.root)
    (hscope : d₁.scope = ((Scope.behind {} found.reverse).create.addAll names)) :
    Resting env A found { d₁.withScope Scope.destroy with inner := [] } where
  stack := by
    show [d₁.root] = _
    rw [hroot, h.inner_root.2]
  scope := by
    have hpos : 0 < (Scope.behind {} found.reverse).depth := by
      rw [Scope.depth_behind]
      exact Nat.succ_pos _
    show d₁.scope.destroy = _
    rw [hscope, Scope.destroy_addAll_create hpos]
  filled := h.filled.mono hgoing.grows.locals
  mixins := hgoing.mixins
  blocks := hgoing.blocks

end Resting

namespace Generator

variable {g : Generator} {A : Nat → Scope → Prop} {found : List Instruction} {d : Draft}

/-- A body is what its outermost block holds, if only that one is open where it ends. -/
theorem generateBody_closes {body : Deferred} {d₁ : Draft} {inside : List Instruction}
    (hinner : d.inner = []) (hrange : g.generateRange body.stop (d.begin body) = .ok d₁)
    (hstack : d₁.stack = [⟨.root, inside⟩, d.root]) :
    g.generateBody body d = .ok (inside.reverse, { d₁.withScope Scope.destroy with inner := [] }) := by
  obtain ⟨hinside, _⟩ :=
    Draft.stack_append (show d₁.stack = [⟨.root, inside⟩] ++ [d.root] from hstack)
  have hclose : (d₁.withScope Scope.destroy).closeBlock? =
      some (⟨.root, inside⟩, { d₁.withScope Scope.destroy with inner := [] }) := by
    rw [Draft.closeBlock?, show (d₁.withScope Scope.destroy).inner = [⟨.root, inside⟩] from hinside]
  have hdepth : ({ d₁.withScope Scope.destroy with inner := [] } : Draft).depth = d.depth := by
    rw [Draft.depth, Draft.depth, hinner]
  unfold generateBody
  show (g.generateRange body.stop (d.begin body) >>= _) = _
  rw [hrange]
  dsimp only [bind, Except.bind]
  rw [hclose]
  dsimp only
  rw [if_pos hdepth]
  rfl

/-- A body that was left behind is filled with its tokens, and everything else is as it was. -/
theorem generateBody_settles (hg : g.IsBuiltin) (h : Resting g.env A found d) {opener name : String}
    {k : Nat} {tag : Tag} {body : Deferred} (defers : Defers g.env opener k tag name body)
    (held : ∀ k σ, k < body.stop → g.Reaches (d.begin body) k σ → A k σ) :
    Settles (fun (instructions, d') => Resting g.env A found d' ∧
      d.Grows d' ∧
      body.Becomes g.env (· ∈ d'.locals) A (Scope.behind {} found.reverse) instructions)
      (g.generateBody body d) := by
  have hτ := Scope.depth_opened_pos (Scope.behind {} found.reverse) body.params
  have hgoing := h.opened (fun _ _ h => h) body
  have hsettles := generateRange_settles hg hτ (.deferred defers) hgoing held
  cases hrange : g.generateRange body.stop (d.begin body) with
  | error e =>
    rw [hrange] at hsettles
    cases hsettles with
    | error he =>
      unfold generateBody
      show Settles _ (g.generateRange body.stop (d.begin body) >>= _)
      rw [hrange]
      exact .error he
  | ok d₁ =>
    obtain ⟨hgoing, hstop⟩ := hsettles.get hrange
    obtain ⟨inside, hstack, hscope, hfilled⟩ := hgoing.rests hg.kinds (.deferred defers) hstop
    rw [Scope.behind, ← Scope.addAll_append] at hscope
    obtain ⟨_, hroot⟩ :=
      Draft.stack_append (show d₁.stack = [⟨.root, inside⟩] ++ [d.root] from hstack)
    rw [generateBody_closes h.inner_root.1 hrange hstack]
    exact .ok ⟨h.closed hgoing hroot hscope,
      ⟨hgoing.grows.locals, hgoing.grows.filters, hgoing.grows.mixins, hgoing.grows.blocks⟩,
      inside, rfl, hfilled⟩

/-! ## Rounds -/

/-- Generate the next of the bodies that were left behind, unless there are no more. -/
def round (g : Generator) (d : Draft) (program : Program) :
    Option (Except Error (Draft × Program)) :=
  match d.mixins.entries[program.mixins.size]?, d.blocks.entries[program.blocks.size]? with
  | some (name, body), _ => some do
    let (instructions, d) ← g.generateBody body d
    return (d, { program with mixins := program.mixins.insert name ⟨body.params, instructions⟩ })
  | none, some (name, body) => some do
    let (instructions, d) ← g.generateBody body d
    return (d, { program with blocks := program.blocks.insert name instructions })
  | none, none => none

theorem generateDeferred_succ (g : Generator) (rounds : Nat) (d : Draft) (program : Program) :
    g.generateDeferred (rounds + 1) d program =
      match g.round d program with
      | none => .ok (d, program)
      | some x => x >>= fun (d, program) => g.generateDeferred rounds d program := by
  rw [generateDeferred, round]
  cases d.mixins.entries[program.mixins.size]? with
  | some entry =>
    dsimp only
    cases g.generateBody entry.2 d <;> rfl
  | none =>
    cases d.blocks.entries[program.blocks.size]? with
    | some entry =>
      dsimp only
      cases g.generateBody entry.2 d <;> rfl
    | none => rfl

theorem round_eq_none {g : Generator} {program : Program} :
    g.round d program = none ↔ d.next? program = none := by
  unfold round Draft.next?
  split <;> simp_all

/-- What a round generates, and where it puts it. -/
theorem round_ok {d' : Draft} {program program' : Program}
    (h : g.round d program = some (.ok (d', program'))) :
    ∃ body instructions, d.next? program = some body ∧
      g.generateBody body d = .ok (instructions, d') ∧
      ((∃ name, d.mixins.entries[program.mixins.size]? = some (name, body) ∧
        program' = { program with
          mixins := program.mixins.insert name ⟨body.params, instructions⟩ }) ∨
      d.mixins.entries[program.mixins.size]? = none ∧
        ∃ name, d.blocks.entries[program.blocks.size]? = some (name, body) ∧
          program' = { program with blocks := program.blocks.insert name instructions }) := by
  unfold round at h
  split at h
  · next name body hentry =>
    refine ⟨body, ?_⟩
    cases hbody : g.generateBody body d with
    | error e => rw [hbody] at h; cases h
    | ok made =>
      rw [hbody] at h
      cases h
      exact ⟨_, by simp [Draft.next?, hentry], rfl, .inl ⟨name, hentry, rfl⟩⟩
  · next name body hmixins hentry =>
    refine ⟨body, ?_⟩
    cases hbody : g.generateBody body d with
    | error e => rw [hbody] at h; cases h
    | ok made =>
      rw [hbody] at h
      cases h
      exact ⟨_, by simp [Draft.next?, hmixins, hentry], rfl, .inr ⟨hmixins, name, hentry, rfl⟩⟩
  · cases h

/-- Rounds may be counted in two parts. -/
theorem generateDeferred_add (g : Generator) (rounds more : Nat) (d : Draft) (program : Program) :
    g.generateDeferred (rounds + more) d program =
      g.generateDeferred rounds d program >>= fun (d, program) =>
        g.generateDeferred more d program := by
  induction rounds generalizing d program with
  | zero =>
    rw [Nat.zero_add]
    rfl
  | succ rounds ih =>
    rw [Nat.succ_add, generateDeferred_succ, generateDeferred_succ]
    cases hround : g.round d program with
    | none =>
      cases more with
      | zero => rfl
      | succ more =>
        show _ = g.generateDeferred (more + 1) d program
        rw [generateDeferred_succ, hround]
    | some x =>
      cases x with
      | error e => rfl
      | ok made => exact ih made.1 made.2

/-- The last of some rounds generates a body, or there is none left. -/
theorem generateDeferred_last {rounds : Nat} {d e : Draft} {program program' : Program}
    (h : g.generateDeferred (rounds + 1) d program = .ok (e, program')) :
    ∃ d₁ program₁, g.generateDeferred rounds d program = .ok (d₁, program₁) ∧
      ((g.round d₁ program₁ = none ∧ e = d₁ ∧ program' = program₁) ∨
        g.round d₁ program₁ = some (.ok (e, program'))) := by
  rw [generateDeferred_add] at h
  cases hbefore : g.generateDeferred rounds d program with
  | error err =>
    rw [hbefore] at h
    cases h
  | ok before =>
    obtain ⟨d₁, program₁⟩ := before
    refine ⟨d₁, program₁, rfl, ?_⟩
    rw [hbefore] at h
    replace h : g.generateDeferred 1 d₁ program₁ = .ok (e, program') := h
    rw [generateDeferred_succ] at h
    cases hround : g.round d₁ program₁ with
    | none =>
      rw [hround] at h
      cases h
      exact .inl ⟨rfl, rfl, rfl⟩
    | some x =>
      rw [hround] at h
      cases x with
      | error err => cases h
      | ok made =>
        cases h
        exact .inr rfl

/-- One round more. -/
theorem generateDeferred_next {rounds : Nat} {d d₁ e : Draft} {program program₁ program' : Program}
    (h : g.generateDeferred rounds d program = .ok (d₁, program₁))
    (hround : g.round d₁ program₁ = some (.ok (e, program'))) :
    g.generateDeferred (rounds + 1) d program = .ok (e, program') := by
  rw [generateDeferred_add, h]
  show g.generateDeferred 1 d₁ program₁ = _
  rw [generateDeferred_succ, hround]
  rfl

end Generator

/-- How many bodies of a program are called. -/
def Program.count (program : Program) : Nat := program.mixins.size + program.blocks.size

/-- Between two rounds, the first of the bodies that were left behind have been generated. -/
structure Between (env : DraftEnv) (A : Nat → Scope → Prop) (found : List Instruction) (d : Draft)
    (program : Program) : Prop where
  resting : Resting env A found d
  calls : Calls env (· ∈ d.locals) A (Scope.behind {} found.reverse) program
  grows : Draft.Grows {} d
  mixins : program.mixins.keys <+: d.mixins.keys
  blocks : program.blocks.keys <+: d.blocks.keys

/-- What a tag defines: its own name and the one that follows it. -/
def Token.defines? : Token → Option (String × String)
  | .tag t => (blockName? t).map (t.name, ·)
  | _ => none

namespace Between

variable {env : DraftEnv} {A : Nat → Scope → Prop} {found : List Instruction} {d : Draft}
  {program : Program}

theorem mixins_nodup (h : Between env A found d program) : d.mixins.keys.Nodup :=
  h.grows.mixins.nodup List.nodup_nil

theorem blocks_nodup (h : Between env A found d program) : d.blocks.keys.Nodup :=
  h.grows.blocks.nodup List.nodup_nil

/-- There are no more bodies than tokens: every one comes from a tag of its own. -/
theorem bound (h : Between env A found d program) :
    d.mixins.size + d.blocks.size ≤ env.tokens.length := by
  have defined {opener name : String} {body : Deferred} (h : LeftBehind env A opener name body) :
      (opener, name) ∈ env.tokens.filterMap Token.defines? := by
    obtain ⟨k, tag, _, defers, _⟩ := h
    refine List.mem_filterMap.2 ⟨.tag tag, List.mem_of_getElem? defers.here, ?_⟩
    rw [Token.defines?, defers.named, Option.map_some, defers.tag_name]
  let names := d.mixins.keys.map ("mixin", ·) ++ d.blocks.keys.map ("block", ·)
  have hnodup : names.Nodup := by
    have hpair (opener : String) : Function.Injective (Prod.mk (β := String) opener) :=
      fun _ _ hab => (Prod.mk.inj hab).2
    refine List.nodup_append.2 ⟨List.Nodup.map (hpair "mixin") h.mixins_nodup,
      List.Nodup.map (hpair "block") h.blocks_nodup, fun a ha b hb hab => ?_⟩
    obtain ⟨_, _, rfl⟩ := List.mem_map.1 ha
    obtain ⟨_, _, rfl⟩ := List.mem_map.1 hb
    simp at hab
  have hsub : names ⊆ env.tokens.filterMap Token.defines? := by
    intro name hname
    rcases List.mem_append.1 hname with hmem | hmem
    · obtain ⟨_, hkey, rfl⟩ := List.mem_map.1 hmem
      obtain ⟨e, he, rfl⟩ := List.mem_map.1 hkey
      exact defined (h.resting.mixins e he)
    · obtain ⟨_, hkey, rfl⟩ := List.mem_map.1 hmem
      obtain ⟨e, he, rfl⟩ := List.mem_map.1 hkey
      exact defined (h.resting.blocks e he)
  have hlength := Nat.le_trans (hnodup.subperm hsub).length_le (List.length_filterMap_le _ _)
  simpa [names, Table.length_keys] using hlength

/-- A program has at most the bodies that were left behind, and fewer when there is a next one. -/
theorem count_le (h : Between env A found d program) :
    program.count ≤ d.mixins.size + d.blocks.size := by
  have hmixins := h.mixins.length_le
  have hblocks := h.blocks.length_le
  rw [Table.length_keys, Table.length_keys] at hmixins hblocks
  unfold Program.count
  omega

theorem count_lt (h : Between env A found d program) {body : Deferred}
    (hnext : d.next? program = some body) : program.count < d.mixins.size + d.blocks.size := by
  have hmixins := h.mixins.length_le
  have hblocks := h.blocks.length_le
  rw [Table.length_keys, Table.length_keys] at hmixins hblocks
  obtain ⟨e, he, _⟩ := Option.map_eq_some_iff.1 hnext
  unfold Program.count
  rcases Option.or_eq_some_iff.1 he with he | ⟨_, he⟩
  · have : program.mixins.size < d.mixins.size := (List.getElem?_eq_some_iff.1 he).1
    omega
  · have : program.blocks.size < d.blocks.size := (List.getElem?_eq_some_iff.1 he).1
    omega

/-- When there is no next body, a program has all of them. -/
theorem complete (h : Between env A found d program) (hnone : d.next? program = none) :
    program.mixins.keys = d.mixins.keys ∧ program.blocks.keys = d.blocks.keys := by
  have he := Option.map_eq_none_iff.1 hnone
  obtain ⟨hmixins, hblocks⟩ := Option.or_eq_none_iff.1 he
  constructor
  · refine h.mixins.eq_of_length_le ?_
    rw [Table.length_keys, Table.length_keys]
    exact List.getElem?_eq_none_iff.1 hmixins
  · refine h.blocks.eq_of_length_le ?_
    rw [Table.length_keys, Table.length_keys]
    exact List.getElem?_eq_none_iff.1 hblocks

end Between

namespace Generator

variable {g : Generator} {A : Nat → Scope → Prop} {found : List Instruction} {d : Draft}
  {program : Program}

/-- A round keeps the invariant, and a program has one more body behind it. -/
theorem round_settles (hg : g.IsBuiltin) (h : Between g.env A found d program)
    (held : ∀ body, d.next? program = some body →
      ∀ k σ, k < body.stop → g.Reaches (d.begin body) k σ → A k σ)
    {x : Except Error (Draft × Program)} (hround : g.round d program = some x) :
    Settles (fun (d', program') => Between g.env A found d' program' ∧ d.Grows d' ∧
      program'.count = program.count + 1) x := by
  unfold round at hround
  split at hround
  · next name body hentry =>
    cases hround
    have hbehind := h.resting.mixins _ (List.mem_of_getElem? hentry)
    have ⟨_, _, _, defers, _⟩ := hbehind
    have hnext : d.next? program = some body := by simp [Draft.next?, hentry]
    refine .bind (generateBody_settles hg h.resting defers (held body hnext)) ?_
    rintro ⟨instructions, d₁⟩ ⟨hresting, hgrows, hbecomes⟩
    have hcalls := h.calls.mono hgrows.locals
    obtain ⟨hkeys, hsize⟩ := Table.insert_next h.mixins h.mixins_nodup hentry
      (⟨body.params, instructions⟩ : Mixin)
    refine .ok ⟨⟨hresting, ⟨fun e he => ?_, hcalls.blocks⟩, h.grows.trans hgrows,
      hkeys.trans hgrows.mixins.keys, h.blocks.trans hgrows.blocks.keys⟩, hgrows, ?_⟩
    · rcases Table.mem_insert he with rfl | he
      · exact ⟨body, hbehind, rfl, hbecomes⟩
      · exact hcalls.mixins e he
    · show Table.size _ + program.blocks.size = _
      rw [hsize, Program.count]
      omega
  · next name body hmixins hentry =>
    cases hround
    have hbehind := h.resting.blocks _ (List.mem_of_getElem? hentry)
    have ⟨_, _, _, defers, _⟩ := hbehind
    have hnext : d.next? program = some body := by simp [Draft.next?, hmixins, hentry]
    refine .bind (generateBody_settles hg h.resting defers (held body hnext)) ?_
    rintro ⟨instructions, d₁⟩ ⟨hresting, hgrows, hbecomes⟩
    have hcalls := h.calls.mono hgrows.locals
    obtain ⟨hkeys, hsize⟩ := Table.insert_next h.blocks h.blocks_nodup hentry instructions
    refine .ok ⟨⟨hresting, ⟨hcalls.mixins, fun e he => ?_⟩, h.grows.trans hgrows,
      h.mixins.trans hgrows.mixins.keys, hkeys.trans hgrows.blocks.keys⟩, hgrows, ?_⟩
    · rcases Table.mem_insert he with rfl | he
      · exact ⟨body, hbehind, hbecomes⟩
      · exact hcalls.blocks e he
    · show program.mixins.size + Table.size _ = _
      rw [hsize, Program.count]
      omega
  · cases hround

/-- All bodies that were left behind are filled with their tokens. -/
theorem generateDeferred_settles (hg : g.IsBuiltin) (h : Between g.env A found d program)
    (rounds : Nat) (held : ∀ done d' program' body, Between g.env A found d' program' →
      g.generateDeferred done d program = .ok (d', program') → d'.next? program' = some body →
      ∀ k σ, k < body.stop → g.Reaches (d'.begin body) k σ → A k σ) :
    Settles (fun (d', program') => Between g.env A found d' program' ∧ d.Grows d' ∧
      (d'.next? program' = none ∨ program'.count = program.count + rounds))
      (g.generateDeferred rounds d program) := by
  induction rounds generalizing d program with
  | zero => exact .ok ⟨h, .refl d, .inr rfl⟩
  | succ rounds ih =>
    rw [generateDeferred_succ]
    cases hround : g.round d program with
    | none => exact .ok ⟨h, .refl d, .inl (round_eq_none.1 hround)⟩
    | some x =>
      have hsettles := round_settles hg h (held 0 d program · h rfl) hround
      refine .bind hsettles.origin ?_
      rintro ⟨d₁, program₁⟩ ⟨rfl, hbetween, hgrows, hcount⟩
      refine (ih hbetween fun done d' program' body hnow hdone =>
        held (done + 1) d' program' body hnow ?_).mono ?_
      · rw [generateDeferred_succ, hround]
        exact hdone
      · rintro ⟨d', program'⟩ ⟨hbetween', hgrows', hleft⟩
        exact ⟨hbetween', hgrows.trans hgrows', hleft.imp_right fun hcount' => by omega⟩

theorem generateMain_settles (hg : g.IsBuiltin)
    (held : ∀ k σ, k < g.env.tokens.length → g.Reaches {} k σ → A k σ) :
    Settles (fun d => ∃ found, Between g.env A found d {}) g.generateMain := by
  unfold generateMain
  have hstart := Going.begins g.env A
  have hdepth : 0 < ({} : Scope).depth := Nat.succ_pos 0
  refine .bind (generateRange_settles hg hdepth .main hstart held) ?_
  rintro d ⟨hgoing, hstop⟩
  obtain ⟨found, hstack, hscope, hfilled⟩ := hgoing.rests hg.kinds .main hstop
  obtain ⟨hinner, _⟩ := Draft.stack_append (show d.stack = [] ++ [_] from hstack)
  rw [hinner]
  exact .ok ⟨found, ⟨hstack, hscope, hfilled, hgoing.mixins, hgoing.blocks⟩,
    ⟨fun _ h => absurd h List.not_mem_nil, fun _ h => absurd h List.not_mem_nil⟩, hgoing.grows,
    List.nil_prefix, List.nil_prefix⟩

/-- Warnings change nothing else. -/
theorem warnCalls_eq (g : Generator) (program : Program) (d : Draft) :
    (g.warnCalls program d).root = d.root ∧ (g.warnCalls program d).locals = d.locals ∧
      (g.warnCalls program d).paths = d.paths ∧ (g.warnCalls program d).filters = d.filters := by
  unfold warnCalls
  generalize d.calls.reverse = calls
  induction calls generalizing d with
  | nil => exact ⟨rfl, rfl, rfl, rfl⟩
  | cons call calls ih =>
    rw [List.foldl_cons]
    obtain ⟨hroot, hlocals, hpaths, hfilters⟩ := ih (if program.mixins.contains call.1 then d
      else d.warn g.env ("mixin \"" ++ call.1 ++ "\" is called but never defined") call.2)
    rw [hroot, hlocals, hpaths, hfilters]
    split <;> exact ⟨rfl, rfl, rfl, rfl⟩

end Generator

/-! ## Programs -/

/-- A program is made of tokens: its main body of all of them, its mixins and blocks of those
between their tags. The scope of the latter is the one behind the main body. -/
structure Made (env : DraftEnv) (L : String → Prop) (A : Nat → Scope → Prop) (program : Program) :
    Prop where
  body : ∃ found, program.body = found.reverse ∧ Filled env L A {} 0 .root found env.tokens.length
  calls : Calls env L A (Scope.behind {} program.body) program

/-- The generator generates the token at an index in a scope: in the main body, or in a body that was
left behind when some of them are done. -/
inductive Generator.HeldAt (g : Generator) (k : Nat) (σ : Scope) : Prop where
  | main (lt : k < g.env.tokens.length) (reaches : g.Reaches {} k σ)
  | deferred {main d : Draft} {program : Program} {rounds : Nat} {body : Deferred}
      (first : g.generateMain = .ok main)
      (done : g.generateDeferred rounds main {} = .ok (d, program))
      (next : d.next? program = some body) (lt : k < body.stop)
      (reaches : g.Reaches (d.begin body) k σ)

theorem Generator.generate_settles {g : Generator} (hg : g.IsBuiltin) :
    Settles (fun made => Made g.env (· ∈ made.locals) g.HeldAt made.program) g.generate := by
  unfold generate
  have main (k : Nat) (σ : Scope) (hk : k < g.env.tokens.length) (h : g.Reaches {} k σ) :
      g.HeldAt k σ := .main hk h
  refine .bind (generateMain_settles hg main).origin ?_
  rintro d ⟨hmain, found, hbetween⟩
  have held (rounds : Nat) (d' : Draft) (program' : Program) (body : Deferred)
      (_ : Between g.env g.HeldAt found d' program')
      (hdone : g.generateDeferred rounds d {} = .ok (d', program'))
      (hnext : d'.next? program' = some body) (k : Nat) (σ : Scope) (hk : k < body.stop)
      (hreaches : g.Reaches (d'.begin body) k σ) : g.HeldAt k σ :=
    .deferred hmain hdone hnext hk hreaches
  refine .bind (generateDeferred_settles hg hbetween _ held) ?_
  rintro ⟨d₁, program⟩ ⟨⟨hresting₁, hcalls, _⟩, _⟩
  obtain ⟨hroot, hlocals, _⟩ := warnCalls_eq g program d₁
  obtain ⟨_, hroot₁⟩ := Draft.stack_append (show d₁.stack = [] ++ [_] from hresting₁.stack)
  have hbody : (g.warnCalls program d₁).root.body = found.reverse := by
    rw [hroot, hroot₁]
    rfl
  dsimp only
  rw [hbody, hlocals]
  exact .ok ⟨⟨found, rfl, hresting₁.filled⟩, ⟨hcalls.mixins, hcalls.blocks⟩⟩

/-! ## What is left in the end -/

namespace Generator

variable {g : Generator}

/-- A program is what the last round leaves. -/
theorem generate_of_rounds {main d : Draft} {program : Program} (hmain : g.generateMain = .ok main)
    (hdone : g.generateDeferred (g.env.tokens.length + 1) main {} = .ok (d, program)) :
    g.generate = .ok ⟨{ program with body := d.root.body }, d.locals, d.paths, d.filters,
      (g.warnCalls program d).warnings.reverse⟩ := by
  obtain ⟨hroot, hlocals, hpaths, hfilters⟩ := warnCalls_eq g program d
  unfold generate
  rw [hmain]
  show (g.generateDeferred (g.env.tokens.length + 1) main {} >>= _) = _
  rw [hdone]
  dsimp only [bind, Except.bind]
  rw [hroot, hlocals, hpaths, hfilters]
  rfl

theorem generate_ok {made : Generated} (h : g.generate = .ok made) :
    ∃ main d program, g.generateMain = .ok main ∧
      g.generateDeferred (g.env.tokens.length + 1) main {} = .ok (d, program) ∧
      made.filters = d.filters ∧ made.program = { program with body := d.root.body } := by
  cases hmain : g.generateMain with
  | error e => rw [generate, hmain] at h; cases h
  | ok main =>
    cases hdone : g.generateDeferred (g.env.tokens.length + 1) main {} with
    | error e =>
      rw [generate, hmain] at h
      replace h : (g.generateDeferred (g.env.tokens.length + 1) main {} >>= _) = _ := h
      rw [hdone] at h
      cases h
    | ok last =>
      rw [generate_of_rounds hmain hdone] at h
      cases h
      exact ⟨main, last.1, last.2, rfl, hdone, rfl, rfl⟩

/-- There are more rounds than bodies, so that all of them are generated. -/
theorem generateDeferred_exhausts (hg : g.IsBuiltin) {main last : Draft} {program : Program}
    (hmain : g.generateMain = .ok main)
    (hlast : g.generateDeferred (g.env.tokens.length + 1) main {} = .ok (last, program)) :
    last.next? program = none := by
  obtain ⟨found, hbetween⟩ := (generateMain_settles (A := fun _ _ => True) hg
    fun _ _ _ _ => trivial).get hmain
  obtain ⟨hbetween', _, hcount⟩ := (generateDeferred_settles hg hbetween (g.env.tokens.length + 1)
    fun _ _ _ _ _ _ _ _ _ _ _ => trivial).get hlast
  refine hcount.resolve_right fun hcount => ?_
  have hle := hbetween'.count_le
  have hbound := hbetween'.bound
  have : Program.count {} = 0 := rfl
  omega

/-- A program has all bodies that were left behind. -/
theorem generate_complete (hg : g.IsBuiltin) {made : Generated} (h : g.generate = .ok made) :
    ∃ main last program, g.generateMain = .ok main ∧
      g.generateDeferred (g.env.tokens.length + 1) main {} = .ok (last, program) ∧
      made.program.mixins.keys = last.mixins.keys ∧
      made.program.blocks.keys = last.blocks.keys := by
  obtain ⟨main, last, program, hmain, hlast, _, hmade⟩ := generate_ok h
  obtain ⟨found, hbetween⟩ := (generateMain_settles (A := fun _ _ => True) hg
    fun _ _ _ _ => trivial).get hmain
  obtain ⟨hbetween', _⟩ := (generateDeferred_settles hg hbetween (g.env.tokens.length + 1)
    fun _ _ _ _ _ _ _ _ _ _ _ => trivial).get hlast
  obtain ⟨hmixins', hblocks'⟩ := hbetween'.complete (generateDeferred_exhausts hg hmain hlast)
  exact ⟨main, last, program, hmain, hlast, by rw [hmade, hmixins'], by rw [hmade, hblocks']⟩

theorem generateMain_ok {main : Draft} (h : g.generateMain = .ok main) :
    g.generateRange g.env.tokens.length {} = .ok main := by
  unfold generateMain at h
  cases hrange : g.generateRange g.env.tokens.length {} with
  | error e => rw [hrange] at h; cases h
  | ok d =>
    rw [hrange] at h
    replace h : (if d.inner.isEmpty then Except.ok d else g.leftOpen d d.top.kind) = _ := h
    split at h
    · exact h
    · cases h

/-- A body is generated with its tokens: it is the innermost block where they end, and the draft does
not forget what they taught. -/
theorem generateBody_ok {body : Deferred} {d d' : Draft} {instructions : List Instruction}
    (h : g.generateBody body d = .ok (instructions, d')) :
    ∃ d₁, g.generateRange body.stop (d.begin body) = .ok d₁ ∧ d₁.Grows d' ∧
      ∃ block outer, d₁.inner = block :: outer ∧ instructions = block.body ∧
        d' = { d₁.withScope Scope.destroy with inner := outer } := by
  unfold generateBody at h
  cases hrange : g.generateRange body.stop (d.begin body) with
  | error e =>
    replace h : (g.generateRange body.stop (d.begin body) >>= _) = _ := h
    rw [hrange] at h
    cases h
  | ok d₁ =>
    replace h : (g.generateRange body.stop (d.begin body) >>= _) = _ := h
    rw [hrange] at h
    refine ⟨d₁, rfl, ?_⟩
    dsimp only [bind, Except.bind, Draft.closeBlock?] at h
    cases hinner : (d₁.withScope Scope.destroy).inner with
    | nil => rw [hinner] at h; cases h
    | cons block outer =>
      rw [hinner] at h
      dsimp only at h
      split at h
      · split at h
        · cases h
          exact ⟨⟨fun _ h => h, fun _ h => h, .refl _, .refl _⟩, block, _, hinner, rfl, rfl⟩
        · cases h
      · cases h

/-- As long as there is a next body, there have been fewer rounds than tokens. -/
theorem rounds_lt (hg : g.IsBuiltin) {main d : Draft} {program : Program} {rounds : Nat}
    {body : Deferred} (hmain : g.generateMain = .ok main)
    (hdone : g.generateDeferred rounds main {} = .ok (d, program))
    (hnext : d.next? program = some body) : rounds < g.env.tokens.length := by
  obtain ⟨found, hbetween⟩ := (generateMain_settles (A := fun _ _ => True) hg
    fun _ _ _ _ => trivial).get hmain
  obtain ⟨hbetween', _, hcount⟩ := (generateDeferred_settles hg hbetween rounds
    fun _ _ _ _ _ _ _ _ _ _ _ => trivial).get hdone
  have hlt := hbetween'.count_lt hnext
  have hbound := hbetween'.bound
  rcases hcount with hnone | hcount
  · rw [hnone] at hnext
    cases hnext
  · have : Program.count {} = 0 := rfl
    omega

/-- A body that is next is generated in a round, and the other rounds go on from there. -/
theorem round_of_next (hg : g.IsBuiltin) {main d last : Draft} {program final : Program}
    {rounds : Nat} {body : Deferred} (hmain : g.generateMain = .ok main)
    (hdone : g.generateDeferred rounds main {} = .ok (d, program))
    (hnext : d.next? program = some body)
    (hlast : g.generateDeferred (g.env.tokens.length + 1) main {} = .ok (last, final)) :
    ∃ d₁ program₁ more, g.round d program = some (.ok (d₁, program₁)) ∧
      g.generateDeferred more d₁ program₁ = .ok (last, final) := by
  have hless := rounds_lt hg hmain hdone hnext
  obtain ⟨more, hmore⟩ : ∃ more, g.env.tokens.length + 1 = rounds + (more + 1) :=
    ⟨g.env.tokens.length - rounds, by omega⟩
  rw [hmore, generateDeferred_add, hdone] at hlast
  replace hlast : g.generateDeferred (more + 1) d program = .ok (last, final) := hlast
  rw [generateDeferred_succ] at hlast
  cases hround : g.round d program with
  | none =>
    rw [round_eq_none.1 hround] at hnext
    cases hnext
  | some x =>
    rw [hround] at hlast
    cases x with
    | error e => cases hlast
    | ok made => exact ⟨made.1, made.2, more, rfl, hlast⟩

/-- What a token makes hold of a draft holds in the end, if it goes on to hold as the draft grows. -/
theorem HeldAt.outcome {P : Draft → Prop} (hg : g.IsBuiltin) {k : Nat} {σ : Scope}
    (h : g.HeldAt k σ) (grows : ∀ d d', d.Grows d' → P d → P d')
    (step : ∀ d d' token, d.idx = k → d.scope = σ → g.env.token? k = some token →
      g.step token d = .ok d' → P d')
    {main last : Draft} {program : Program} (hmain : g.generateMain = .ok main)
    (hlast : g.generateDeferred (g.env.tokens.length + 1) main {} = .ok (last, program)) :
    P last := by
  -- Any place will do for the invariants.
  let A : Nat → Scope → Prop := fun _ _ => True
  obtain ⟨found, hbetween⟩ :=
    (generateMain_settles (A := A) hg fun _ _ _ _ => trivial).get hmain
  have rounds {d d' : Draft} {p p' : Program} {n : Nat} (h : Between g.env A found d p)
      (hdone : g.generateDeferred n d p = .ok (d', p')) :
      Between g.env A found d' p' ∧ d.Grows d' ∧ (d'.next? p' = none ∨ p'.count = p.count + n) :=
    (generateDeferred_settles hg h n fun _ _ _ _ _ _ _ _ _ _ _ => trivial).get hdone
  cases h with
  | main hk hreaches =>
    have hdepth : 0 < ({} : Scope).depth := Nat.succ_pos 0
    obtain ⟨mid, next, token, hidx, hscope, here, hstep, hgrows⟩ := hreaches.passes (A := A) hg
      hdepth .main (Going.begins g.env A) (fun _ _ _ _ => trivial) hk hk (generateMain_ok hmain)
    exact grows _ _ (hgrows.trans (rounds hbetween hlast).2.1)
      (step mid next token hidx hscope here hstep)
  | @deferred main' d p n body first done next hk hreaches =>
    obtain rfl : main = main' := Except.ok.inj (hmain.symm.trans first)
    have hbetween' := (rounds hbetween done).1
    obtain ⟨d₁, p₁, more, hround, hrest⟩ := round_of_next hg hmain done next hlast
    obtain ⟨body', instructions, hnext, hbody, _⟩ := round_ok hround
    obtain rfl := Option.some.inj (next.symm.trans hnext)
    obtain ⟨hbetween₁, _⟩ :=
      (round_settles hg hbetween' (fun _ _ _ _ _ _ => trivial) hround).get rfl
    obtain ⟨d₂, hrange, hgrows₂, _⟩ := generateBody_ok hbody
    obtain ⟨opener, _, name, _, _, _, defers, _⟩ := hbetween'.resting.next hnext
    have hlength := Nat.lt_trans hk defers.stop_lt
    have hτ := Scope.depth_opened_pos (Scope.behind {} found.reverse) body.params
    obtain ⟨mid, after, token, hidx, hscope, here, hstep, hgrows⟩ := hreaches.passes hg hτ
      (.deferred defers) (hbetween'.resting.opened (fun _ _ h => h) body)
      (fun _ _ _ _ => trivial) hk hlength hrange
    have hend := (rounds hbetween₁ hrest).2.1
    exact grows _ _ (hgrows.trans (hgrows₂.trans hend))
      (step mid after token hidx hscope here hstep)

end Generator

end Stencil
