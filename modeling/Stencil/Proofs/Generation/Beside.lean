import Stencil.Proofs.Generation.Entering
import Stencil.Proofs.Generation.Placed

/-!
# Bodies with and without the block

The main body and those that are left behind become the same bodies with calls of the block replaced.
The body of the block has a round of its own, in which only the second generator goes on.

* `Wrapping.main_beside`, `Wrapping.body_beside`: bodies without the block are those with calls of it
  replaced.
* `Wrapping.ReadsAlike`: the expressions of the word need the same variables in another scope.
* `Wrapping.block_beside`: then the body of the block becomes what the word has added.
* `Wrapping.round_beside`, `Wrapping.ready_beside`: a round keeps the generators beside each other.
* `Wrapping.rounds_beside`: so do all rounds.
-/

namespace Stencil

/-! ## Between two rounds -/

namespace Stage

variable {w : Wrapping} {g : Generator} {A : Nat → Scope → Prop}

/-- The first body is the second one with calls of the block replaced. -/
def Inlines (s : Stage w g A) (body body' : List Instruction) : Prop :=
  ∀ added, s.Stands added → body = inlinedBody (foldOne w.name added) body'

/-- No block is open but the outermost one, and what the drafts know is related. -/
structure Drafts (s : Stage w g A) (d d' : Draft) : Prop where
  inner : d'.inner = []
  root : ∃ found, d'.root = ⟨.root, found⟩ ∧ s.Inlines d.root.body found.reverse
  scope : d'.scope = d.scope
  locals : s.Known d.locals d'.locals
  paths : s.Reached d.paths d'.paths
  mixins : d.mixins.Aligned w.Moved d'.mixins
  blocks : s.Blocks d.blocks d'.blocks
  still : d.trimNext = false
  still' : d'.trimNext = false

/-- The bodies of blocks. -/
def Bodies : Stage w g A → Table (List Instruction) → Table (List Instruction) → Prop
  | ahead, t, t' => t.Aligned (ahead : Stage w g A).Inlines t'
  | entered entry, t, t' =>
    t.Aligned (entered entry).Inlines t' ∧ t.size ≤ entry.front.blocks.size
  | done entry, t, t' =>
    t.Apart (done entry).Inlines w.name entry.added.instructions entry.front.blocks.size t'

structure Programs (s : Stage w g A) (q q' : Program) : Prop where
  mixins : q.mixins.Aligned (fun m m' => m.params = m'.params ∧ s.Inlines m.body m'.body) q'.mixins
  blocks : s.Bodies q.blocks q'.blocks

/-- Where the outermost block of a body is the only one that is open in the first draft, it is so in the
second one. -/
theorem rests {s : Stage w g A} {e e' : Draft} {below below' : List OpenBlock}
    {found : List Instruction} (h : Along (s.benches below below') e e')
    (hstack : e.stack = ⟨.root, found⟩ :: below) :
    ∃ found', e'.stack = ⟨.root, found'⟩ :: below' ∧ s.Inlines found.reverse found'.reverse := by
  obtain ⟨k, habreast⟩ := h.abreast
  have level (added : List Instruction) (hadded : s.Stands added) :
      ∃ found', e'.stack = ⟨.root, found'⟩ :: below' ∧
        found = inlinedFound (foldOne w.name added) found' := by
    obtain ⟨inner, found', hlength, hfirst, hsecond, _⟩ := (habreast _ ⟨added, hadded, rfl⟩).stack
    replace hfirst : e.stack = _ := hfirst
    rw [hstack] at hfirst
    have hlengths := congrArg List.length hfirst
    simp only [List.length_cons, List.length_append, List.length_map, Stage.bench] at hlengths
    obtain rfl : inner = [] := List.length_eq_zero_iff.1 (by omega)
    obtain ⟨hroot, _⟩ := List.cons.inj hfirst
    refine ⟨found', ?_, ?_⟩
    · replace hsecond : e'.stack = _ := hsecond
      simpa [Stage.bench] using hsecond
    · simpa [Stage.bench] using (OpenBlock.mk.inj hroot).2
  obtain ⟨_, added, hadded, _⟩ := s.some_bench below below'
  obtain ⟨found', hstack', _⟩ := level added hadded
  refine ⟨found', hstack', fun added hadded => ?_⟩
  obtain ⟨other, hother, rfl⟩ := level added hadded
  obtain ⟨rfl⟩ : found' = other := (OpenBlock.mk.inj (List.cons.inj (hstack'.symm.trans hother)).1).2
  exact reverse_inlinedFound _ _

/-- What holds before the word holds whatever stands for the block. -/
theorem Inlines.enter {body body' : List Instruction} (h : (ahead : Stage w g A).Inlines body body')
    (s : Stage w g A) : s.Inlines body body' := fun added _ => h added trivial

end Stage

/-! ## Bodies -/

namespace Wrapping

variable {w : Wrapping} {g g' : Generator} {A : Nat → Scope → Prop} {d d' e : Draft}

/-- Where a body ends, no text is about to be trimmed. -/
theorem still_behind {τ : Scope} {start stop : Nat} {below : List OpenBlock} {d₀ : Draft}
    (hw : w.Generates g g') (h : Underway g A τ start stop below d₀ d) (hidx : d.idx = stop)
    (hcloses : ∀ next, g.env.token? stop = some next →
      next.isTag "endmixin" = true ∨ next.isTag "endblock" = true) : d.trimNext = false := by
  by_contra hpending
  obtain ⟨k, token, hk, hout, here, htrim⟩ := h.trims (by simpa using hpending)
  rw [hw.builtin.kinds, hw.tokens] at hout
  rw [DraftEnv.token?, hw.tokens] at here
  obtain ⟨next, hnext, hmixin, hblock⟩ := hw.trims k token hout here htrim
  have hstop : g.env.token? stop = some next := by
    rw [DraftEnv.token?, hw.tokens, ← hidx, hk]
    exact hnext
  rcases hcloses next hstop with hmixin' | hblock'
  · rw [hmixin] at hmixin'
    cases hmixin'
  · rw [hblock] at hblock'
    cases hblock'

/-- A body that was left behind becomes the same body with calls of the block replaced. -/
theorem body_beside {opener key : String} {k : Nat} {tag : Tag} {body body' : Deferred}
    {found instructions : List Instruction} (hw : w.Generates g g') (hrest : Resting g.env A found d)
    {s : Stage w g A} (hdrafts : s.Drafts d d') (defers : Defers g.env opener k tag key body)
    (hopener : opener ∈ ["mixin", "block"]) (hout : Outside g.env.kinds g.env.tokens k)
    (hmoved : w.Moved body body')
    (hfirst : s ≠ .ahead → w.first ≤ body.stop → ∀ σ, ¬ g.Reaches (d.begin body) w.first σ)
    (held : ∀ k σ, k < body.stop → g.Reaches (d.begin body) k σ → A k σ)
    (hbody : g.generateBody body d = .ok (instructions, e)) :
    ∃ (s' : Stage w g A) (instructions' : List Instruction) (e' : Draft),
      g'.generateBody body' d' = .ok (instructions', e') ∧ s'.Drafts e e' ∧
      s'.Inlines instructions instructions' ∧
      (s' = s ∨ ∃ entry, s' = .entered entry ∧ s = .ahead ∧ w.first ≤ body.stop ∧
        g.Reaches (d.begin body) w.first entry.front.scope ∧
        d.blocks.size ≤ entry.front.blocks.size) := by
  have hlooked : ∀ opener ∈ ["mixin", "block"], opener ∉ verbatimTags := by decide
  have hτ := Scope.depth_opened_pos (Scope.behind {} found.reverse) body.params
  obtain ⟨hinner, hroot⟩ := hrest.inner_root
  obtain ⟨found', hroot', hinlined⟩ := hdrafts.root
  obtain ⟨d₁, hrange, _⟩ := Generator.generateBody_ok hbody
  have hstart := defers.outside hw.builtin.kinds (hlooked opener hopener) hout
  have hunder : Underway g A ((Scope.behind {} found.reverse).create.addAll body.params) body.start
      body.stop [d.root] d (d.begin body) :=
    ⟨hrest.opened (fun _ _ h => h) body, held, fun hpending => by
      rw [show (d.begin body).trimNext = d.trimNext from rfl, hdrafts.still] at hpending
      cases hpending⟩
  have halong : Along (s.benches [d.root] [d'.root]) (d.begin body) (d'.begin body') := by
    refine ⟨hdrafts.still'.trans hdrafts.still.symm, 0, ?_⟩
    rintro b ⟨added, hadded, rfl⟩
    refine ⟨⟨[], [], rfl, ?_, ?_, fun _ h => absurd h List.not_mem_nil⟩, ?_, hdrafts.locals,
      hdrafts.paths, hdrafts.mixins, hdrafts.blocks, rfl, rfl⟩
    · show (⟨.root, []⟩ :: d.inner) ++ [d.root] = _
      rw [hinner]
      rfl
    · show (⟨.root, []⟩ :: d'.inner) ++ [d'.root] = _
      rw [hdrafts.inner]
      rfl
    · show d'.scope.create.addAll body'.params = d.scope.create.addAll body.params
      rw [hdrafts.scope, hmoved.params]
  obtain ⟨s', d₁', hrange', hunder₁, halong₁, hstop, hstage⟩ := range_through hw hτ (.deferred defers)
    defers.start_le hstart (by rw [hroot', hroot]; rfl) hmoved.stop s hmoved.start
    (fun hne _ hle => hfirst hne hle) hunder halong hrange
  obtain ⟨inside, hstack, hscope, _⟩ := hunder₁.going.rests hw.builtin.kinds (.deferred defers) hstop
  obtain ⟨inside', hstack', hinlines⟩ := s'.rests halong₁ hstack
  have hstill := still_behind hw hunder₁
    (hunder₁.going.ends_at hw.builtin.kinds (.deferred defers) hstop) fun next hnext => by
      obtain ⟨_, closer, hcloser, hname⟩ := wellNested_of_closingTag defers.closes
      obtain rfl := Option.some.inj (hnext.symm.trans hcloser)
      have hclosers : ∀ opener ∈ ["mixin", "block"],
          closerOf opener = "endmixin" ∨ closerOf opener = "endblock" := by decide
      simpa [Token.isTag, hname] using hclosers opener hopener
  obtain ⟨k, habreast⟩ := halong₁.abreast
  obtain ⟨_, added, hadded, rfl⟩ := s'.some_bench [d.root] [d'.root]
  have h₁ := habreast _ ⟨added, hadded, rfl⟩
  obtain ⟨rfl, rfl⟩ := Prod.mk.inj
    (Except.ok.inj (hbody.symm.trans (Generator.generateBody_closes hinner hrange hstack)))
  obtain ⟨_, hroot₁⟩ :=
    Draft.stack_append (show d₁.stack = [⟨.root, inside⟩] ++ [d.root] from hstack)
  obtain ⟨_, hroot₁'⟩ :=
    Draft.stack_append (show d₁'.stack = [⟨.root, inside'⟩] ++ [d'.root] from hstack')
  refine ⟨s', _, _, Generator.generateBody_closes hdrafts.inner hrange' hstack',
    ⟨rfl, ⟨found', hroot₁'.trans hroot', ?_⟩, ?_, h₁.locals, h₁.paths, h₁.mixins, h₁.blocks, hstill,
      halong₁.trims.trans hstill⟩, hinlines, hstage⟩
  · show s'.Inlines d₁.root.body _
    rw [hroot₁]
    rcases hstage with rfl | ⟨_, _, rfl, _⟩
    · exact hinlined
    · exact hinlined.enter s'
  · exact congrArg Scope.destroy h₁.scopes

/-- The main body, too. -/
theorem main_beside (hw : w.Generates g g')
    (held : ∀ k σ, k < g.env.tokens.length → g.Reaches {} k σ → A k σ)
    (hmain : g.generateMain = .ok d) :
    ∃ (s : Stage w g A) (d' : Draft), g'.generateMain = .ok d' ∧ s.Drafts d d' ∧
      (s = .ahead ∨ ∃ entry, s = .entered entry ∧ g.Reaches {} w.first entry.front.scope) := by
  have hτ : 0 < ({} : Scope).depth := Nat.succ_pos 0
  have hrange := Generator.generateMain_ok hmain
  have hbound := w.last_le
  have hword : w.first ≤ w.last := Nat.le_add_right _ _
  have hunder : Underway g A {} 0 g.env.tokens.length [] {} {} :=
    ⟨Going.begins g.env A, held, fun hpending => absurd hpending Bool.false_ne_true⟩
  have halong : Along ((Stage.ahead : Stage w g A).benches [] []) {} {} := by
    refine ⟨rfl, 0, ?_⟩
    rintro b ⟨added, _, rfl⟩
    exact ⟨⟨[], [], rfl, rfl, rfl, fun _ h => absurd h List.not_mem_nil⟩, rfl, rfl, rfl, .nil, .nil,
      rfl, rfl⟩
  have hstop : w.Across g.env.tokens.length g'.env.tokens.length := by
    rw [hw.tokens, hw.wrapped, length_wrapped]
    exact .inr ⟨hbound, rfl⟩
  obtain ⟨s, d', hrange', hunder', halong', hstop', hstage⟩ := range_through hw hτ .main
    (Nat.zero_le _) (.zero _ _) rfl hstop .ahead (.inl ⟨Nat.zero_le _, rfl⟩)
    (fun hne => absurd rfl hne) hunder halong hrange
  obtain ⟨found, hstack, _⟩ := hunder'.going.rests hw.builtin.kinds .main hstop'
  obtain ⟨found', hstack', hinlines⟩ := s.rests halong' hstack
  have hstill := still_behind hw hunder' (hunder'.going.ends_at hw.builtin.kinds .main hstop')
    fun next hnext => by
      rw [DraftEnv.token?, List.getElem?_eq_none (Nat.le_refl _)] at hnext
      cases hnext
  obtain ⟨k, habreast⟩ := halong'.abreast
  obtain ⟨_, added, hadded, rfl⟩ := s.some_bench [] []
  have h₁ := habreast _ ⟨added, hadded, rfl⟩
  obtain ⟨_, hroot⟩ := Draft.stack_append (show d.stack = [] ++ [_] from hstack)
  obtain ⟨hinner', hroot'⟩ := Draft.stack_append (show d'.stack = [] ++ [_] from hstack')
  refine ⟨s, d', ?_, ⟨hinner', ⟨found', hroot', ?_⟩, h₁.scopes, h₁.locals, h₁.paths, h₁.mixins,
    h₁.blocks, hstill, halong'.trims.trans hstill⟩, ?_⟩
  · unfold Generator.generateMain
    rw [hrange']
    show (if d'.inner.isEmpty then Except.ok d' else _) = _
    rw [hinner']
    rfl
  · rw [hroot]
    exact hinlines
  · rcases hstage with hs | ⟨entry, hs, _, _, hreaches, _⟩
    · exact .inl hs
    · exact .inr ⟨entry, hs, hreaches⟩

/-! ## The body of the block -/

/-- Every expression of the word needs the same variable where it stands and above another scope, with
the frames that are opened in the word. -/
def ReadsAlike (w : Wrapping) (g : Generator) (final : Scope) : Prop :=
  ∀ σ k τ token base, g.HeldAt w.first σ → w.first ≤ k → k < w.last → g.HeldAt k τ →
    g.env.token? k = some token → base ∈ token.operands →
    (Scope.mk (τ.frames.take (τ.depth - σ.depth) ++ final.frames)).needed base = τ.needed base

end Wrapping

/-- A frame without names changes nothing. -/
theorem Scope.needed_create (inner : List NameSet) (σ : Scope) (base : String) :
    (Scope.mk (inner ++ σ.create.frames)).needed base = (Scope.mk (inner ++ σ.frames)).needed base := by
  have hhas (name : String) :
      (Scope.mk (inner ++ σ.create.frames)).has name = (Scope.mk (inner ++ σ.frames)).has name := by
    simp [has, create]
  simp only [needed, hhas]

theorem NameSet.ext {s t : NameSet} (h : ∀ x, x ∈ s ↔ x ∈ t) : s = t := by
  obtain ⟨names, hnames⟩ := s
  obtain ⟨names', hnames'⟩ := t
  have nodup {names : List String} (h : names.Pairwise (· < ·)) : names.Nodup :=
    h.imp fun {a b} (hlt : a < b) (heq : a = b) => String.lt_irrefl b (heq ▸ hlt)
  have hperm : names.Perm names' := (List.perm_ext_iff_of_nodup (nodup hnames) (nodup hnames')).2 h
  obtain rfl : names = names' :=
    hperm.eq_of_pairwise (fun _ _ _ _ hlt hgt => absurd hgt (String.lt_asymm hlt)) hnames hnames'
  rfl

/-- When the new names become known in the second set, too, the sets are the same. -/
theorem NameSet.Gains.eq_insertAll {old s s' : NameSet} {names : List String}
    (h : NameSet.Gains old (old.insertAll names) s s') : s'.insertAll names = s := by
  refine NameSet.ext fun x => ?_
  rw [h.2, NameSet.mem_insertAll, NameSet.mem_insertAll]
  have := h.1 x
  tauto

namespace Wrapping

variable {w : Wrapping} {g g' : Generator} {d d' : Draft}

/-- So it does in the body of the block, which is generated above the scope. -/
theorem ReadsAlike.needed {entry : Entry w g g.HeldAt} {final : Scope}
    (h : w.ReadsAlike g final) (hscope : d'.scope = final.create) {j k : Nat} {σ σ' : Scope}
    {token : Token} {base : String} (hj : j < w.last) (hreaches : g.Reaches entry.front j σ)
    (here : g.env.token? j = some token) (hbase : base ∈ token.operands)
    (hσ : (Bench.ofWord entry.front d').scopes k σ σ') : σ'.needed base = σ.needed base := by
  obtain ⟨inner, _, hframes, hframes'⟩ := hσ
  have hle := entry.here ▸ hreaches.le
  have hheld : g.HeldAt w.first entry.front.scope := by
    rw [← entry.here]
    exact entry.held _ _ (by rw [entry.here]; omega) (.here g entry.front)
  have halike := h _ j σ token base hheld hle hj (entry.held j σ hj hreaches) here hbase
  have hinner : σ.frames.take (σ.depth - entry.front.scope.depth) = inner := by
    rw [Scope.depth, Scope.depth, hframes, List.length_append, Nat.add_sub_cancel, List.take_left]
  rw [hinner, ← Scope.needed_create, ← hscope, ← hframes'] at halike
  exact halike

/-- The body of the block becomes what the word has added. -/
theorem block_beside {A : Nat → Scope → Prop} {found : List Instruction} {entry : Entry w g g.HeldAt}
    (hw : w.Generates g g') (hrest : Resting g.env A found d)
    (hdrafts : (Stage.entered entry).Drafts d d') (hreads : w.ReadsAlike g d.scope) :
    ∃ e', g'.generateBody ⟨w.first + 1, w.last + 1, []⟩ d' = .ok (entry.added.instructions, e') ∧
      (Stage.done entry).Drafts d e' := by
  have hdepth : 0 < d'.scope.depth := by
    rw [hdrafts.scope, hrest.scope, Scope.depth_behind]
    exact Nat.succ_pos 0
  have hbegin : (d'.begin ⟨w.first + 1, w.last + 1, []⟩).stack = [⟨.root, []⟩, d'.root] := by
    show (⟨.root, []⟩ :: d'.inner) ++ [d'.root] = _
    rw [hdrafts.inner]
    rfl
  have hscope : (d'.begin ⟨w.first + 1, w.last + 1, []⟩).scope = d.scope.create := by
    rw [← hdrafts.scope]
    rfl
  obtain ⟨p', c, hrange', hpassed, hpassed', _⟩ := passes (d'.begin ⟨w.first + 1, w.last + 1, []⟩)
    hw.builtin hw.builtin' hw.plain hw.plain' hw.tokens w.word_alike
    ⟨_, by rw [hw.wrapped]; exact drop_opener⟩ entry.here entry.framed
    (by rw [hscope]; exact Nat.succ_pos _) entry.still hdrafts.still'
    (fun _ _ _ _ _ _ hj hreaches here hbase hσ => hreads.needed hscope hj hreaches here hbase hσ)
    entry.range
  have hstack' := hpassed'.stack
  rw [hbegin] at hstack'
  have hcontents : c.instructions = entry.added.instructions := by
    have hfounds := (OpenBlock.mk.inj (List.cons.inj (hpassed.stack.symm.trans entry.passed.stack)).1).2
    exact List.reverse_inj.1 (List.append_cancel_right hfounds)
  have hclosed : p'.stack = [⟨.root, entry.added.instructions.reverse⟩, d'.root] := by
    rw [hstack', hcontents]
    simp [Draft.top, Draft.begin, Draft.openBlock, Draft.withScope, Draft.skipTo]
  have hlast : w.first + 1 + w.word'.length = w.last + 1 := by
    rw [length_word, last]
    omega
  rw [show (d'.begin ⟨w.first + 1, w.last + 1, []⟩).idx = w.first + 1 from rfl, hlast] at hrange'
  have hbody : g'.generateBody ⟨w.first + 1, w.last + 1, []⟩ d' = _ :=
    Generator.generateBody_closes hdrafts.inner hrange' hclosed
  rw [List.reverse_reverse] at hbody
  obtain ⟨_, hroot⟩ := Draft.stack_append (show p'.stack = [⟨.root, _⟩] ++ [d'.root] from hclosed)
  obtain ⟨found', hroot', hinlines⟩ := hdrafts.root
  have hlocals : p'.locals = d.locals := by
    have hgains : NameSet.Gains _ _ d.locals d'.locals := hdrafts.locals
    rw [hpassed.locals] at hgains
    rw [hpassed'.locals]
    exact hgains.eq_insertAll
  have hpaths : p'.paths = d.paths := by
    have hgains : NameSet.Gains _ _ d.paths d'.paths := hdrafts.paths
    rw [hpassed.paths] at hgains
    rw [hpassed'.paths]
    exact hgains.eq_insertAll
  refine ⟨_, hbody, ⟨rfl, ⟨found', hroot.trans hroot', hinlines⟩, ?_, hlocals, hpaths, ?_, ?_,
    hdrafts.still, hpassed'.still⟩⟩
  · show p'.scope.destroy = d.scope
    rw [hpassed'.scope, hscope, Scope.destroy_create _ (hdrafts.scope ▸ hdepth)]
  · show Table.Aligned _ _ p'.mixins
    rw [hpassed'.mixins]
    exact hdrafts.mixins
  · show Table.Apart _ _ _ _ _ p'.blocks
    rw [hpassed'.blocks]
    exact hdrafts.blocks

end Wrapping

/-! ## Rounds -/

/-- Between two rounds, what the generators have made is related. When the word has been passed, the body
that it belongs to has been generated. -/
structure Stage.Beside {w : Wrapping} {g : Generator} {A : Nat → Scope → Prop} (s : Stage w g A)
    (d d' : Draft) (q q' : Program) : Prop where
  drafts : s.Drafts d d'
  programs : s.Programs q q'
  begun : s ≠ .ahead → ∃ start, Owned g.env start w.first ∧ Begun g.env q w.first start

namespace Stage.Programs

variable {w : Wrapping} {g : Generator} {A : Nat → Scope → Prop} {s : Stage w g A} {q q' : Program}

theorem enter {entry : Entry w g A} (h : (ahead : Stage w g A).Programs q q')
    (hsize : q.blocks.size ≤ entry.front.blocks.size) : (entered entry).Programs q q' where
  mixins := h.mixins.mono fun _ _ hm => ⟨hm.1, hm.2.enter _⟩
  blocks := ⟨Table.Aligned.mono h.blocks fun _ _ hb => hb.enter _, hsize⟩

theorem insertMixin (h : s.Programs q q') (key : String) {m m' : Mixin} (hparams : m.params = m'.params)
    (hbody : s.Inlines m.body m'.body) :
    s.Programs { q with mixins := q.mixins.insert key m }
      { q' with mixins := q'.mixins.insert key m' } where
  mixins := h.mixins.insert key ⟨hparams, hbody⟩
  blocks := h.blocks

theorem insertBlock (h : s.Programs q q') {key : String} (hne : key ≠ w.name)
    {body body' : List Instruction} (hbody : s.Inlines body body')
    (hsize : ∀ entry, s = .entered entry →
      (q.blocks.insert key body).size ≤ entry.front.blocks.size) :
    s.Programs { q with blocks := q.blocks.insert key body }
      { q' with blocks := q'.blocks.insert key body' } where
  mixins := h.mixins
  blocks := by
    have hblocks := h.blocks
    cases s with
    | ahead => exact Table.Aligned.insert hblocks key hbody
    | entered entry => exact ⟨Table.Aligned.insert hblocks.1 key hbody, hsize entry rfl⟩
    | done => exact Table.Apart.insert hblocks hne hbody

end Stage.Programs

namespace Stage

variable {w : Wrapping} {g : Generator} {A : Nat → Scope → Prop} {s : Stage w g A} {d d' : Draft}
  {q q' : Program} {key : String} {body : Deferred}

/-- The body of the block is the next one. -/
def Ready (s : Stage w g A) (d : Draft) (q : Program) : Prop :=
  ∃ entry, s = entered entry ∧ d.mixins.entries[q.mixins.size]? = none ∧
    q.blocks.size = entry.front.blocks.size

/-- The next mixin without the block is the next one with it. -/
theorem next_mixin (h : s.Beside d d' q q')
    (hentry : d.mixins.entries[q.mixins.size]? = some (key, body)) :
    ∃ body', d'.mixins.entries[q'.mixins.size]? = some (key, body') ∧ w.Moved body body' := by
  rw [h.programs.mixins.size]
  exact Table.AlignedEntries.get h.drafts.mixins hentry

theorem no_mixin (h : s.Beside d d' q q') (hnone : d.mixins.entries[q.mixins.size]? = none) :
    d'.mixins.entries[q'.mixins.size]? = none := by
  rw [List.getElem?_eq_none_iff] at hnone ⊢
  rw [h.programs.mixins.size]
  exact Nat.le_trans (Nat.le_of_eq h.drafts.mixins.size) hnone

/-- So it is with blocks, but for the new one. -/
theorem next_block (h : s.Beside d d' q q') (hready : ¬ s.Ready d q)
    (hnone : d.mixins.entries[q.mixins.size]? = none)
    (hentry : d.blocks.entries[q.blocks.size]? = some (key, body)) :
    ∃ body', d'.blocks.entries[q'.blocks.size]? = some (key, body') ∧ w.Moved body body' := by
  have hblocks := h.drafts.blocks
  have hbodies := h.programs.blocks
  cases s with
  | ahead =>
    rw [Table.Aligned.size hbodies]
    exact Table.AlignedEntries.get hblocks hentry
  | entered entry =>
    obtain ⟨haligned, hsize⟩ := hbodies
    have hlt : q.blocks.size < entry.front.blocks.size :=
      Nat.lt_of_le_of_ne hsize fun heq => hready ⟨entry, rfl, hnone, heq⟩
    have hget := Table.Apart.get hblocks hentry
    rwa [if_pos hlt, ← Table.Aligned.size haligned] at hget
  | done entry =>
    have hge := Table.Apart.le_size hbodies
    have hget := Table.Apart.get hblocks hentry
    rwa [if_neg (Nat.not_lt.2 hge), ← Table.Apart.size hbodies] at hget

end Stage

namespace Wrapping

variable {w : Wrapping} {g g' : Generator} {main d d' e : Draft} {q q' : Program} {rounds : Nat}
  {found : List Instruction}

/-- The next body becomes the same body with calls of the block replaced. -/
theorem next_beside {s : Stage w g g.HeldAt} {opener key : String} {body body' : Deferred}
    {instructions : List Instruction} (hw : w.Generates g g')
    (hbetween : Between g.env g.HeldAt found d q) (hmain : g.generateMain = .ok main)
    (hdone : g.generateDeferred rounds main {} = .ok (d, q)) (h : s.Beside d d' q q')
    (hopener : opener ∈ ["mixin", "block"]) (hbehind : LeftBehind g.env g.HeldAt opener key body)
    (hnew : ¬ q.HasBody opener key) (hnext : d.next? q = some body) (hmoved : w.Moved body body')
    (hbody : g.generateBody body d = .ok (instructions, e)) :
    ∃ (s' : Stage w g g.HeldAt) (instructions' : List Instruction) (e' : Draft),
      g'.generateBody body' d' = .ok (instructions', e') ∧ s'.Drafts e e' ∧
      s'.Inlines instructions instructions' ∧ s'.Programs q q' ∧
      (s' = s ∨ ∃ entry, s' = .entered entry ∧ d.blocks.size ≤ entry.front.blocks.size) ∧
      ∀ q₁ : Program, (∀ o n, q.HasBody o n → q₁.HasBody o n) → q₁.HasBody opener key →
        s' ≠ .ahead → ∃ start, Owned g.env start w.first ∧ Begun g.env q₁ w.first start := by
  obtain ⟨k, tag, τ, defers, hheld⟩ := hbehind
  have hout := hheld.outside hw.builtin
  have hlooked : ∀ opener ∈ ["mixin", "block"], opener ∉ verbatimTags := by decide
  have hτ := Scope.depth_opened_pos (Scope.behind {} found.reverse) body.params
  have howned (hle : w.first ≤ body.stop) {σ : Scope} (hreaches : g.Reaches (d.begin body) w.first σ) :
      Owned g.env body.start w.first :=
    hreaches.owned hw.builtin hτ (.deferred defers) defers.start_le
      (defers.outside hw.builtin.kinds (hlooked opener hopener) hout)
      (hbetween.resting.opened (fun _ _ _ => trivial) body) hle
  have hfirst (hne : s ≠ .ahead) (hle : w.first ≤ body.stop) (σ : Scope) :
      ¬ g.Reaches (d.begin body) w.first σ := by
    intro hreaches
    obtain ⟨start, hown, hbegun⟩ := h.begun hne
    exact hnew (Generator.hasBody_of_begun hown hbegun (howned hle hreaches) hopener defers hout hle)
  obtain ⟨s', instructions', e', hbody', hdrafts, hinlines, hstage⟩ :=
    body_beside hw hbetween.resting h.drafts defers hopener hout hmoved hfirst
      (fun k σ hk hreaches => .deferred hmain hdone hnext hk hreaches) hbody
  refine ⟨s', instructions', e', hbody', hdrafts, hinlines, ?_, ?_, ?_⟩
  · rcases hstage with rfl | ⟨entry, rfl, rfl, _, _, hsize⟩
    · exact h.programs
    · have hblocks := hbetween.blocks.length_le
      rw [Table.length_keys, Table.length_keys] at hblocks
      exact h.programs.enter (Nat.le_trans hblocks hsize)
  · exact hstage.imp_right fun ⟨entry, hs, _, _, _, hsize⟩ => ⟨entry, hs, hsize⟩
  · intro q₁ hkeeps hhas hne
    rcases hstage with rfl | ⟨entry, rfl, rfl, hle, hreaches, _⟩
    · obtain ⟨start, hown, hbegun⟩ := h.begun hne
      exact ⟨start, hown, hbegun.mono hkeeps⟩
    · exact ⟨body.start, howned hle hreaches, .deferred defers hopener hout hle hhas⟩

/-- A round without the block is a round with it, unless the body of the block is the next one. -/
theorem round_beside {s : Stage w g g.HeldAt} {q₁ : Program} (hw : w.Generates g g')
    (hbetween : Between g.env g.HeldAt found d q) (hmain : g.generateMain = .ok main)
    (hdone : g.generateDeferred rounds main {} = .ok (d, q)) (h : s.Beside d d' q q')
    (hready : ¬ s.Ready d q) (hround : g.round d q = some (.ok (e, q₁))) :
    ∃ (s' : Stage w g g.HeldAt) (e' : Draft) (q₁' : Program),
      g'.round d' q' = some (.ok (e', q₁')) ∧ s'.Beside e e' q₁ q₁' := by
  obtain ⟨body, instructions, hnext, hbody, hadded⟩ := Generator.round_ok hround
  obtain ⟨_, _, _, _, _, _, _, _, _, hadds⟩ := hbetween.next_adds hnext
  obtain ⟨_, _, _, hkeeps, _⟩ := hadds e q₁ hround
  obtain ⟨key, hentry, rfl⟩ | ⟨hnone, key, hentry, rfl⟩ := hadded
  · have hnew := (Table.next_not_mem hbetween.mixins hbetween.mixins_nodup hentry).1
    have hkeys := Table.keys_insert_of_not_mem hnew (⟨body.params, instructions⟩ : Mixin)
    obtain ⟨body', hentry', hmoved⟩ := Stage.next_mixin h hentry
    obtain ⟨s', instructions', e', hbody', hdrafts, hinlines, hprograms, _, hbegun⟩ :=
      next_beside hw hbetween hmain hdone h (by decide)
        (hbetween.resting.mixins _ (List.mem_of_getElem? hentry))
        (by rintro (⟨_, hold⟩ | ⟨hblock, _⟩)
            · exact hnew hold
            · exact absurd hblock (by decide))
        hnext hmoved hbody
    refine ⟨s', e', { q' with mixins := q'.mixins.insert key ⟨body'.params, instructions'⟩ }, ?_,
      hdrafts, hprograms.insertMixin key hmoved.params.symm hinlines, hbegun _ hkeeps
        (.inl ⟨rfl, by rw [hkeys]; exact List.mem_append_right _ List.mem_cons_self⟩)⟩
    rw [Generator.round, hentry']
    dsimp only
    rw [hbody']
    rfl
  · have hnew := (Table.next_not_mem hbetween.blocks hbetween.blocks_nodup hentry).1
    obtain ⟨hgrown, hsize⟩ :=
      Table.insert_next hbetween.blocks hbetween.blocks_nodup hentry instructions
    have hkeys := Table.keys_insert_of_not_mem hnew instructions
    have hbehind := hbetween.resting.blocks _ (List.mem_of_getElem? hentry)
    obtain ⟨body', hentry', hmoved⟩ := Stage.next_block h hready hnone hentry
    obtain ⟨s', instructions', e', hbody', hdrafts, hinlines, hprograms, hstage, hbegun⟩ :=
      next_beside hw hbetween hmain hdone h (by decide) hbehind
        (by rintro (⟨hmixin, _⟩ | ⟨_, hold⟩)
            · exact absurd hmixin (by decide)
            · exact hnew hold)
        hnext hmoved hbody
    refine ⟨s', e', { q' with blocks := q'.blocks.insert key instructions' }, ?_,
      hdrafts, hprograms.insertBlock (left_ne hw hbehind) hinlines fun entry hs => ?_, hbegun _ hkeeps
        (.inr ⟨rfl, by rw [hkeys]; exact List.mem_append_right _ List.mem_cons_self⟩)⟩
    · rw [Generator.round, Stage.no_mixin h hnone, hentry']
      dsimp only
      rw [hbody']
      rfl
    · rw [hsize]
      rcases hstage with rfl | ⟨entry', rfl, hle⟩
      · subst hs
        exact Nat.lt_of_le_of_ne h.programs.blocks.2 fun heq => hready ⟨entry, rfl, hnone, heq⟩
      · obtain rfl := Stage.entered.inj hs
        have hlength := hgrown.length_le
        rw [Table.length_keys, Table.length_keys, hsize] at hlength
        exact Nat.le_trans hlength hle

/-- When the body of the block is the next one, it is generated, and then it is not. -/
theorem ready_beside {s : Stage w g g.HeldAt} (hw : w.Generates g g')
    (hbetween : Between g.env g.HeldAt found d q) (h : s.Beside d d' q q') (hready : s.Ready d q)
    (hreads : w.ReadsAlike g d.scope) :
    ∃ (s' : Stage w g g.HeldAt) (e' : Draft) (q₁' : Program),
      g'.round d' q' = some (.ok (e', q₁')) ∧ s'.Beside d e' q q₁' ∧ ¬ s'.Ready d q := by
  obtain ⟨entry, rfl, hnone, hsize⟩ := hready
  obtain ⟨e', hbody, hdrafts⟩ := block_beside hw hbetween.resting h.drafts hreads
  obtain ⟨haligned, _⟩ := h.programs.blocks
  have hblocks : Table.Apart w.Moved w.name _ _ d.blocks d'.blocks := h.drafts.blocks
  have hentry : d'.blocks.entries[q'.blocks.size]? =
      some (w.name, ⟨w.first + 1, w.last + 1, []⟩) := by
    rw [Table.Aligned.size haligned, hsize]
    exact hblocks.get_key
  have hnew : w.name ∉ q.blocks.keys := fun hmem => hblocks.missing (hbetween.blocks.subset hmem)
  refine ⟨.done entry, e', { q' with
    blocks := q'.blocks.insert w.name entry.added.instructions }, ?_,
    ⟨hdrafts, ⟨h.programs.mixins, ?_⟩, fun _ => h.begun (fun heq => by cases heq)⟩, ?_⟩
  · rw [Generator.round, Stage.no_mixin h hnone, hentry]
    dsimp only
    rw [hbody]
    rfl
  · show Table.Apart _ _ _ entry.front.blocks.size q.blocks _
    rw [← hsize]
    exact .of_aligned haligned hnew
  · rintro ⟨_, hs, _⟩
    cases hs

end Wrapping

/-! ## All rounds -/

namespace Generator

variable {g : Generator} {main d : Draft} {q : Program} {rounds : Nat}

/-- After some rounds, what is in a program was made where the generator has come to. -/
theorem between_held (hg : g.IsBuiltin) (hmain : g.generateMain = .ok main)
    (hdone : g.generateDeferred rounds main {} = .ok (d, q)) :
    ∃ found, Between g.env g.HeldAt found d q ∧ d.scope = main.scope := by
  obtain ⟨found, hfirst⟩ :=
    (generateMain_settles hg fun k σ hk hreaches => HeldAt.main hk hreaches).get hmain
  obtain ⟨hbetween, _⟩ := (generateDeferred_settles hg hfirst rounds
    fun _ _ _ _ _ hbefore hnext k σ hk hreaches =>
      HeldAt.deferred hmain hbefore hnext hk hreaches).get hdone
  exact ⟨found, hbetween, hbetween.resting.scope.trans hfirst.resting.scope.symm⟩

/-- When there is no next body, more rounds change nothing. -/
theorem generateDeferred_none (hnone : d.next? q = none) (more : Nat) :
    g.generateDeferred more d q = .ok (d, q) := by
  cases more with
  | zero => rfl
  | succ more => rw [generateDeferred_succ, round_eq_none.2 hnone]

/-- So the rounds that there are lead to it, too. -/
theorem generateDeferred_enough (hg : g.IsBuiltin) (hmain : g.generateMain = .ok main)
    (hdone : g.generateDeferred rounds main {} = .ok (d, q)) (hnone : d.next? q = none) :
    g.generateDeferred (g.env.tokens.length + 1) main {} = .ok (d, q) := by
  rcases Nat.le_total rounds (g.env.tokens.length + 1) with hle | hle
  · obtain ⟨more, hmore⟩ := Nat.exists_eq_add_of_le hle
    rw [hmore, generateDeferred_add, hdone]
    exact generateDeferred_none hnone more
  · obtain ⟨more, hmore⟩ := Nat.exists_eq_add_of_le hle
    rw [hmore, generateDeferred_add] at hdone
    cases hlast : g.generateDeferred (g.env.tokens.length + 1) main {} with
    | error e =>
      rw [hlast] at hdone
      cases hdone
    | ok last =>
      rw [hlast] at hdone
      have hend := generateDeferred_none (g := g) (generateDeferred_exhausts hg hmain hlast) more
      exact congrArg Except.ok (Except.ok.inj (hend.symm.trans hdone))

end Generator

namespace Wrapping

variable {w : Wrapping} {g g' : Generator} {main main' d d' : Draft} {q q' : Program}
  {rounds rounds' : Nat}

/-- If the body of the block is the next one, a round leads behind it. -/
theorem settles_beside {s : Stage w g g.HeldAt} (hw : w.Generates g g')
    (hmain : g.generateMain = .ok main) (hreads : w.ReadsAlike g main.scope)
    (hdone : g.generateDeferred rounds main {} = .ok (d, q))
    (hdone' : g'.generateDeferred rounds' main' {} = .ok (d', q')) (h : s.Beside d d' q q') :
    ∃ (s' : Stage w g g.HeldAt) (rounds' : Nat) (d' : Draft) (q' : Program),
      g'.generateDeferred rounds' main' {} = .ok (d', q') ∧ s'.Beside d d' q q' ∧ ¬ s'.Ready d q := by
  by_cases hready : s.Ready d q
  · obtain ⟨found, hbetween, hscope⟩ := Generator.between_held hw.builtin hmain hdone
    obtain ⟨s', e', q₁', hround, hbeside, hnot⟩ :=
      ready_beside hw hbetween h hready (hscope ▸ hreads)
    exact ⟨s', rounds' + 1, e', q₁', Generator.generateDeferred_next hdone' hround, hbeside, hnot⟩
  · exact ⟨s, rounds', d', q', hdone', h, hready⟩

/-- The generators start beside each other. -/
theorem starts_beside (hw : w.Generates g g') (hmain : g.generateMain = .ok main) :
    ∃ (s : Stage w g g.HeldAt) (main' : Draft), g'.generateMain = .ok main' ∧
      s.Beside main main' {} {} := by
  obtain ⟨s, main', hmain', hdrafts, hstage⟩ :=
    main_beside hw (fun k σ hk hreaches => Generator.HeldAt.main hk hreaches) hmain
  refine ⟨s, main', hmain', hdrafts, ⟨.nil, ?_⟩, fun hne => ?_⟩
  · rcases hstage with rfl | ⟨entry, rfl, _⟩
    · exact .nil
    · exact ⟨.nil, Nat.zero_le _⟩
  · have hdepth : 0 < ({} : Scope).depth := Nat.succ_pos 0
    have hfirst : w.first ≤ g.env.tokens.length := by
      rw [hw.tokens]
      exact Nat.le_trans (Nat.le_add_right _ _) w.last_le
    obtain rfl | ⟨entry, rfl, hreaches⟩ := hstage
    · exact absurd rfl hne
    · exact ⟨0, hreaches.owned hw.builtin hdepth .main (Nat.zero_le _) (.zero _ _)
        (Going.begins g.env _) hfirst, .main⟩

/-- All rounds without the block are rounds with it. -/
theorem rounds_beside (hw : w.Generates g g') (hmain : g.generateMain = .ok main)
    (hreads : w.ReadsAlike g main.scope)
    (hdone : g.generateDeferred rounds main {} = .ok (d, q)) :
    ∃ (s : Stage w g g.HeldAt) (main' : Draft) (rounds' : Nat) (d' : Draft) (q' : Program),
      g'.generateMain = .ok main' ∧ g'.generateDeferred rounds' main' {} = .ok (d', q') ∧
      s.Beside d d' q q' ∧ ¬ s.Ready d q := by
  induction rounds generalizing d q with
  | zero =>
    obtain ⟨rfl, rfl⟩ := Prod.mk.inj (Except.ok.inj hdone)
    obtain ⟨s, main', hmain', hbeside⟩ := starts_beside hw hmain
    have hdone' : g'.generateDeferred 0 main' {} = .ok (main', {}) := rfl
    obtain ⟨s', rounds', d', q', hdone', hbeside', hnot⟩ :=
      settles_beside hw hmain hreads hdone hdone' hbeside
    exact ⟨s', main', rounds', d', q', hmain', hdone', hbeside', hnot⟩
  | succ rounds ih =>
    obtain ⟨d₀, q₀, hbefore, hcases⟩ := Generator.generateDeferred_last hdone
    obtain ⟨s, main', rounds', d₀', q₀', hmain', hdone', hbeside, hnot⟩ := ih hbefore
    obtain ⟨_, rfl, rfl⟩ | hround := hcases
    · exact ⟨s, main', rounds', d₀', q₀', hmain', hdone', hbeside, hnot⟩
    · obtain ⟨found, hbetween, _⟩ := Generator.between_held hw.builtin hmain hbefore
      obtain ⟨s₁, d₁', q₁', hround', hbeside₁⟩ :=
        round_beside hw hbetween hmain hbefore hbeside hnot hround
      obtain ⟨s', rounds₂, d', q', hdone₂, hbeside₂, hnot₂⟩ :=
        settles_beside hw hmain hreads hdone (Generator.generateDeferred_next hdone' hround') hbeside₁
      exact ⟨s', main', rounds₂, d', q', hmain', hdone₂, hbeside₂, hnot₂⟩

end Wrapping

end Stencil
