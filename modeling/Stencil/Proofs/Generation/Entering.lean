import Stencil.Proofs.Generation.Enclosed

/-!
# Into the block

Where a draft without the block comes to the word, the draft with it comes to the tag of the block. The
first one passes the word, the second one passes the block and leaves its body behind.

* `Entry` is what the first draft does there.
* `Stage` tells whether the drafts have come to the word, and whether the body of the block has been
  generated. At each stage drafts go along each other (`Stage.benches`).
* `Wrapping.enters`: at the word, the first stage is followed by the second one.
* `Wrapping.range_through`: so a range keeps drafts along each other, if it comes to the word in the
  first stage at most.
-/

namespace Stencil

namespace Wrapping

variable {w : Wrapping} {g g' : Generator}

theorem drop_first : w.tokens.drop w.first = w.word ++ w.after := List.drop_left

theorem drop_opener : w.wrapped.drop (w.first + 1) = w.word' ++ .tag w.closer :: w.after' := by
  rw [wrapped, ← length_before, List.drop_append]
  simp

/-- Two drafts pass the word, one of them perhaps elsewhere and in another scope, and add the same. -/
theorem passes {d p : Draft} (d' : Draft) {word' : List Token} (hg : g.IsBuiltin) (hg' : g'.IsBuiltin)
    (hplain : g.env.positions = false) (hplain' : g'.env.positions = false)
    (htokens : g.env.tokens = w.tokens) (halike : List.Forall₂ Token.Alike w.word word')
    (hdrop' : ∃ rest, g'.env.tokens.drop d'.idx = word' ++ rest) (hidx : d.idx = w.first)
    (hdepth : 0 < d.scope.depth) (hdepth' : 0 < d'.scope.depth) (hstill : d.trimNext = false)
    (hstill' : d'.trimNext = false)
    (hneeds : ∀ j σ token base k σ', j < w.last → g.Reaches d j σ → g.env.token? j = some token →
      base ∈ token.operands → (Bench.ofWord d d').scopes k σ σ' → σ'.needed base = σ.needed base)
    (hrange : g.generateRange w.last d = .ok p) :
    ∃ p' c, g'.generateRange (d'.idx + word'.length) d' = .ok p' ∧ d.Passed p c ∧ d'.Passed p' c ∧
      p.idx = w.last ∧ p'.idx = d'.idx + word'.length := by
  have hlast : w.last = d.idx + w.word.length := by rw [hidx, last]
  rw [hlast] at hneeds hrange
  have hfront : InFront g g' (.ofWord d d') 0 w.word word' d d' :=
    ⟨.ofWord d d', hstill'.trans hstill.symm, halike,
      ⟨w.after, by rw [htokens, hidx, drop_first]⟩, hdrop', hneeds⟩
  obtain ⟨p', hrange', habreast, hp, hp'⟩ := w.word_sealed.unclosed.abreast hg hg' hplain hplain'
    (Bench.ofWord_lasting hdepth hdepth') w.word_quiet hfront (fun _ => hstill) hrange
  obtain ⟨c, hpassed, hpassed'⟩ := habreast.passed
  exact ⟨p', c, hrange', hpassed, hpassed', by rw [hp, hlast], hp'⟩

end Wrapping

/-- The draft without the block passes the word. -/
structure Entry (w : Wrapping) (g : Generator) (A : Nat → Scope → Prop) where
  front : Draft
  back : Draft
  added : Contents
  here : front.idx = w.first
  framed : 0 < front.scope.depth
  still : front.trimNext = false
  range : g.generateRange w.last front = .ok back
  passed : front.Passed back added
  held : ∀ k σ, k < w.last → g.Reaches front k σ → A k σ

/-- How far the drafts are: whether they have come to the word, and whether the body of the block has
been generated. -/
inductive Stage (w : Wrapping) (g : Generator) (A : Nat → Scope → Prop) where
  | ahead
  | entered (entry : Entry w g A)
  | done (entry : Entry w g A)

/-- The first set has the new names more than the second one, which has the old ones. -/
def NameSet.Gains (old new s s' : NameSet) : Prop :=
  (∀ x ∈ old, x ∈ s') ∧ ∀ x, x ∈ s ↔ x ∈ s' ∨ x ∈ new

namespace Stage

variable {w : Wrapping} {g : Generator} {A : Nat → Scope → Prop}

/-- What stands for a call of the block. As long as there is no call, it may be anything. -/
def Stands : Stage w g A → List Instruction → Prop
  | ahead, _ => True
  | entered entry, body => body = entry.added.instructions
  | done entry, body => body = entry.added.instructions

def Known : Stage w g A → NameSet → NameSet → Prop
  | entered entry => NameSet.Gains entry.front.locals entry.back.locals
  | _ => fun s s' => s' = s

def Reached : Stage w g A → NameSet → NameSet → Prop
  | entered entry => NameSet.Gains entry.front.paths entry.back.paths
  | _ => fun s s' => s' = s

/-- The body of the block is behind those that were left behind before the word. -/
def Blocks : Stage w g A → Table Deferred → Table Deferred → Prop
  | ahead => Table.Aligned w.Moved
  | entered entry | done entry =>
    Table.Apart w.Moved w.name ⟨w.first + 1, w.last + 1, []⟩ entry.front.blocks.size

/-- How drafts are compared. -/
def bench (s : Stage w g A) (body : List Instruction) (below below' : List OpenBlock) : Bench where
  fold := foldOne w.name body
  base := { kind := .root }
  base' := { kind := .root }
  below
  below'
  scopes _ σ σ' := σ' = σ
  known := s.Known
  reached := s.Reached
  mixins := Table.Aligned w.Moved
  blocks := s.Blocks

/-- The ways in which drafts go along each other. -/
def benches (s : Stage w g A) (below below' : List OpenBlock) (b : Bench) : Prop :=
  ∃ body, s.Stands body ∧ b = s.bench body below below'

end Stage

theorem NameSet.Gains.insertAll (s : NameSet) (names : List String) :
    NameSet.Gains s (s.insertAll names) (s.insertAll names) s := by
  refine ⟨fun _ h => h, fun x => ?_⟩
  rw [NameSet.mem_insertAll]
  tauto

theorem NameSet.Gains.insert {old new s s' : NameSet} (h : NameSet.Gains old new s s') (name : String) :
    NameSet.Gains old new (s.insert name) (s'.insert name) := by
  refine ⟨fun x hx => NameSet.mem_insert.2 (.inr (h.1 x hx)), fun x => ?_⟩
  rw [NameSet.mem_insert, NameSet.mem_insert, h.2, or_assoc]

namespace Stage

variable {w : Wrapping} {g : Generator} {A : Nat → Scope → Prop} {s : Stage w g A}
  {below below' : List OpenBlock}

theorem known_insert (s : Stage w g A) {t t' : NameSet} (h : s.Known t t') (name : String) :
    s.Known (t.insert name) (t'.insert name) := by
  cases s with
  | entered entry => exact NameSet.Gains.insert h name
  | ahead | done => exact congrArg (·.insert name) h

theorem reached_insert (s : Stage w g A) {t t' : NameSet} (h : s.Reached t t') (path : String) :
    s.Reached (t.insert path) (t'.insert path) := by
  cases s with
  | entered entry => exact NameSet.Gains.insert h path
  | ahead | done => exact congrArg (·.insert path) h

theorem blocks_insert (s : Stage w g A) {t t' : Table Deferred} (h : s.Blocks t t') {key : String}
    (hne : key ≠ w.name) {body body' : Deferred} (hmoved : w.Moved body body') :
    s.Blocks (t.insert key body) (t'.insert key body') := by
  cases s with
  | ahead => exact Table.Aligned.insert h key hmoved
  | entered | done => exact Table.Apart.insert h hne hmoved

theorem around (hbelow : below'.map OpenBlock.kind = below.map OpenBlock.kind) {b : Bench}
    (hb : s.benches below below' b) : b.Around w := by
  obtain ⟨body, _, rfl⟩ := hb
  exact
    { lasting :=
        { create := fun h => congrArg Scope.create h
          destroy := fun h => congrArg Scope.destroy h
          add := fun name h => congrArg (Scope.add · name) h
          known := fun name h => s.known_insert h name
          reached := fun path h => s.reached_insert h path }
      base := rfl
      base' := rfl
      below := hbelow
      scopes := Iff.rfl
      mixins := fun key _ _ h hmoved => Table.Aligned.insert h key hmoved
      blocks := fun _ _ _ hne h hmoved => s.blocks_insert h hne hmoved
      fold := fun _ hne => if_neg hne }

theorem some_bench (s : Stage w g A) (below below' : List OpenBlock) :
    ∃ b, s.benches below below' b := by
  cases s with
  | ahead => exact ⟨_, [], trivial, rfl⟩
  | entered | done => exact ⟨_, _, rfl, rfl⟩

end Stage

/-! ## At the word -/

/-- A case in the second stack that has no arm yet is one in the first stack. -/
theorem Bench.Stacks.top_case {b : Bench} {k : Nat} {stack stack' rest : List OpenBlock}
    {block : OpenBlock} {subject : Pipeline} {arms : List Arm} (h : b.Stacks k stack stack')
    (hbase : ∀ subject arms, b.base'.kind ≠ .case subject arms none) (hstack : stack' = block :: rest)
    (hkind : block.kind = .case subject arms none) :
    ∃ found rest, stack = ⟨.case subject (arms.map (Arm.inlined b.fold)) none, found⟩ :: rest := by
  cases k with
  | zero =>
    obtain ⟨inner, found, hlength, _, hstack', _⟩ := h
    obtain rfl := List.length_eq_zero_iff.1 hlength
    obtain ⟨rfl, _⟩ := List.cons.inj (hstack.symm.trans hstack')
    exact absurd hkind (hbase subject arms)
  | succ k =>
    obtain ⟨other, rest, rest', rfl, rfl, _⟩ := h.top
    obtain ⟨rfl, _⟩ := List.cons.inj hstack
    exact ⟨_, rest, by rw [OpenBlock.inlined, hkind]; rfl⟩

/-- Behind a part of a body, the body is still being generated. -/
theorem Generator.range_going {g : Generator} {A : Nat → Scope → Prop} {τ : Scope}
    {start last stop : Nat} {below : List OpenBlock} {d₀ d e : Draft} (hg : g.IsBuiltin) (hτ : 0 < τ.depth)
    (hends : Ends g.env start below stop) (h : Going g.env d₀ A τ start below d)
    (held : ∀ k σ, k < stop → g.Reaches d k σ → A k σ) (hlast : last ≤ stop)
    (hrange : g.generateRange last d = .ok e) :
    Going g.env d₀ A τ start below e ∧ ∀ k σ, k < stop → g.Reaches e k σ → A k σ := by
  fun_induction generateRange g last d with
  | case1 | case5 =>
    obtain rfl := Except.ok.inj hrange
    exact ⟨h, held⟩
  | case2 | case4 => cases hrange
  | case3 d hlt token here next hstep hnext ih =>
    exact ih ((step_settles hg hτ hends h (by omega) here (held _ _ (by omega) (.here g d))).get hstep)
      (fun k σ hk hreaches => held k σ hk (hreaches.step here hstep hnext)) hrange

namespace Wrapping

variable {w : Wrapping} {g g' : Generator} {A : Nat → Scope → Prop} {τ : Scope} {start stop : Nat}
  {below below' : List OpenBlock} {d₀ d d' : Draft}

/-- No text of the word is about to be trimmed from outside. -/
theorem still_at (hw : w.Generates g g') (h : Underway g A τ start stop below d₀ d)
    (hidx : d.idx = w.first) : d.trimNext = false := by
  by_contra hpending
  obtain ⟨k, token, hk, _, here, htrim⟩ := h.trims (by simpa using hpending)
  rw [hidx] at hk
  rw [DraftEnv.token?, hw.tokens, getElem?_before (by omega)] at here
  have hlast : w.before.getLast? = some token := by
    rw [List.getLast?_eq_getElem?, ← here]
    congr 1
    unfold first at hk
    omega
  rw [w.untrimmed token hlast] at htrim
  cases htrim

/-- No block that is left behind has the name of the new one. -/
theorem left_ne {key : String} {body : Deferred} (hw : w.Generates g g')
    (h : LeftBehind g.env A "block" key body) : key ≠ w.name := by
  rintro rfl
  obtain ⟨k, tag, _, defers, _⟩ := h
  have here := defers.here
  rw [DraftEnv.token?, hw.tokens] at here
  exact w.fresh tag (List.mem_of_getElem? here) defers.tag_name defers.named

theorem new_block (hw : w.Generates g g') (h : Underway g A τ start stop below d₀ d) :
    w.name ∉ d.blocks.keys := by
  intro hmem
  obtain ⟨e, he, heq⟩ := List.mem_map.1 hmem
  exact left_ne hw (h.going.blocks e he) heq

/-- The closing tag of the block is found. -/
theorem opener_closes :
    closingTag TagRegistry.builtin.kinds w.wrapped "endblock" w.first = .ok (w.last + 1) := by
  rw [closingTag, drop_opener, closingFrom_append builtin_proper (by decide) w.word_nested']
  simp only [closingFrom, w.closes, decide_true, List.isEmpty_nil, Bool.and_self, if_true, length_word,
    last]
  rw [Nat.add_right_comm]

/-- The block has one tag. -/
theorem opener_site (hw : w.Generates g g') :
    g'.env.sites.get? w.name = some (w.first, w.first) := by
  have hsites := hw.sites
  have hsites' := hw.sites'
  rw [hw.builtin.kinds, hw.tokens] at hsites
  rw [hw.builtin'.kinds, hw.wrapped] at hsites'
  obtain ⟨sites', hfound, hsite, _⟩ := sites_across hsites
  obtain rfl := Except.ok.inj (hfound.symm.trans hsites')
  exact hsite

/-- The draft behind the block: it calls the block and has left its body behind. -/
def behindBlock (w : Wrapping) (d : Draft) : Draft :=
  { d.still.emit (.callBlock w.name) with
    blocks := d.blocks.insert w.name ⟨w.first + 1, w.last + 1, []⟩ }.skipTo (w.last + 2)

theorem behindBlock_eq (w : Wrapping) (d : Draft) : ∃ inner root, w.behindBlock d =
    { d.still with
      inner, root, blocks := d.blocks.insert w.name ⟨w.first + 1, w.last + 1, []⟩,
      idx := w.last + 2 } := by
  obtain ⟨inner, root, hemit⟩ := d.still.emit_eq (.callBlock w.name)
  exact ⟨inner, root, by rw [behindBlock, hemit]; rfl⟩

/-- The tag of the block leads behind it. -/
theorem opener_step (hw : w.Generates g g') (hidx : d'.idx = w.first) :
    g'.step (.tag w.opener) d' = .ok (w.behindBlock d') := by
  have hmark : d'.still.mark g'.env w.opener.pos = d'.still := by
    rw [Draft.mark, hw.plain']
    rfl
  have hcloses : closingTag g'.env.kinds g'.env.tokens "endblock" d'.idx = .ok (w.last + 1) := by
    rw [hw.builtin'.kinds, hw.wrapped, hidx]
    exact opener_closes
  have hsite := opener_site hw
  obtain ⟨inner, root, hemit⟩ := d'.still.emit_eq (.callBlock w.name)
  have hfind : g'.env.findTag d'.still "endblock" = .ok (w.last + 1) := by
    rw [DraftEnv.findTag]
    exact congrArg (Except.mapError _) hcloses
  unfold Generator.step Generator.handle behindBlock
  dsimp only
  rw [hw.builtin'.registry, w.opens]
  show Handler.block g'.env w.opener (d'.still.mark g'.env w.opener.pos) = _
  rw [hmark]
  unfold Handler.block
  simp only [w.named, hfind, hsite, Option.getD_some, show d'.still.idx = w.first from hidx, if_true]
  rw [hemit]
  rfl

/-- Behind the word and the block, a call of the block stands for what the word has added. -/
theorem behind_abreast {k : Nat} (entry : Entry w g A) (hnew : w.name ∉ entry.front.blocks.keys)
    (harmed : ∀ subject arms found rest, entry.front.stack ≠ ⟨.case subject arms none, found⟩ :: rest)
    (h : Abreast ((Stage.ahead : Stage w g A).bench entry.added.instructions below below') k
      entry.front.still d'.still) :
    Abreast ((Stage.entered entry).bench entry.added.instructions below below') k entry.back.still
      (w.behindBlock d').still := by
  have hpassed := entry.passed
  have hcall : (Instruction.callBlock w.name).inlined (foldOne w.name entry.added.instructions) =
      entry.added.instructions := by
    simp [Instruction.inlined, foldOne]
  obtain ⟨top, rest, top', rest', hstack, hstack', hadded⟩ := h.stack.adds hcall
    fun block rest subject arms hblock hkind => by
      obtain ⟨found, rest, hcase⟩ := h.stack.top_case (fun _ _ h => by cases h) hblock hkind
      exact absurd hcase (harmed _ _ found rest)
  obtain ⟨rfl, rfl⟩ := List.cons.inj (entry.front.stack_eq.symm.trans hstack)
  have hstack₁ : entry.back.still.stack = _ := hpassed.stack
  have hstack₁' : (w.behindBlock d').still.stack =
      ⟨top'.kind, .callBlock w.name :: top'.found⟩ :: rest' := Draft.stack_emit hstack' _
  obtain ⟨inner, root, hbehind⟩ := w.behindBlock_eq d'
  refine ⟨?_, ?_, ?_, ?_, ?_, ?_, rfl, rfl⟩
  · rw [hstack₁, hstack₁']
    exact hadded
  · rw [hbehind]
    exact h.scopes.trans hpassed.scope.symm
  · have hknown : d'.locals = entry.front.locals := h.locals
    rw [hbehind]
    show NameSet.Gains entry.front.locals entry.back.locals entry.back.locals d'.locals
    rw [hknown, hpassed.locals]
    exact .insertAll ..
  · have hreached : d'.paths = entry.front.paths := h.paths
    rw [hbehind]
    show NameSet.Gains entry.front.paths entry.back.paths entry.back.paths d'.paths
    rw [hreached, hpassed.paths]
    exact .insertAll ..
  · rw [hbehind]
    show Table.Aligned _ entry.back.mixins _
    rw [hpassed.mixins]
    exact h.mixins
  · rw [hbehind]
    show Table.Apart _ _ _ _ entry.back.blocks _
    rw [hpassed.blocks]
    exact .of_aligned h.blocks hnew

/-- The drafts come to the word and go on behind the block. -/
theorem enters (hw : w.Generates g g') (hτ : 0 < τ.depth) (hends : Ends g.env start below stop)
    (hlength : start ≤ g.env.tokens.length) (hstart : Outside g.env.kinds g.env.tokens start)
    (hstop : w.last ≤ stop) (hunder : Underway g A τ start stop below d₀ d)
    (h : Along ((Stage.ahead : Stage w g A).benches below below') d d') (hidx : d.idx = w.first)
    (hidx' : d'.idx = w.first) {p : Draft} (hrange : g.generateRange w.last d = .ok p) :
    ∃ (entry : Entry w g A) (p' : Draft), entry.front = d ∧ entry.back = p ∧ p.idx = w.last ∧
      p'.idx = w.last + 2 ∧ (∀ stop', w.first < stop' →
        g'.generateRange stop' d' = g'.generateRange stop' p') ∧
      Underway g A τ start stop below d₀ p ∧
      Along ((Stage.entered entry).benches below below') p p' := by
  have hstill := still_at hw hunder hidx
  have hdepth : 0 < d.scope.depth := hunder.going.stacked.depth_pos hτ
  -- On its own, the word adds something.
  obtain ⟨_, c, _, hpassed, _, hp, _⟩ := passes d hw.builtin hw.builtin hw.plain hw.plain
    hw.tokens (List.forall₂_same.2 fun t _ => .refl t)
    ⟨w.after, by rw [hw.tokens, hidx, drop_first]⟩ hidx hdepth hdepth hstill hstill
    (fun _ σ _ base _ σ' _ _ _ _ hσ => by
      obtain ⟨inner, _, hframes, hframes'⟩ := hσ
      rw [show σ' = σ from congrArg Scope.mk (hframes'.trans hframes.symm)])
    hrange
  let entry : Entry w g A := ⟨d, p, c, hidx, hdepth, hstill, hrange, hpassed, fun k σ hk hreaches =>
    hunder.held k σ (by omega) hreaches⟩
  have here' : g'.env.token? d'.idx = some (.tag w.opener) := by
    rw [DraftEnv.token?, hw.wrapped, hidx', opener_here]
  obtain ⟨inner, root, hbehind⟩ := w.behindBlock_eq d'
  have hbehindIdx : (w.behindBlock d').idx = w.last + 2 := by rw [hbehind]
  have hword : w.first ≤ w.last := Nat.le_add_right _ _
  have hgoing := Generator.range_going hw.builtin hτ hends hunder.going hunder.held hstop hrange
  obtain ⟨k, habreast⟩ := h.abreast
  refine ⟨entry, w.behindBlock d', rfl, rfl, hp, hbehindIdx, fun stop' hlt => ?_,
    ⟨hgoing.1, hgoing.2, fun hpending => ?_⟩, ?_, k, ?_⟩
  · exact Generator.generateRange_next (by omega) here' (opener_step hw hidx') (by omega)
  · rw [hpassed.still] at hpending
    cases hpending
  · rw [hpassed.still, hbehind]
    rfl
  · rintro b ⟨body, rfl, rfl⟩
    refine behind_abreast entry (new_block hw hunder) (fun subject arms found rest hcase => ?_)
      (habreast _ ⟨c.instructions, trivial, rfl⟩)
    have hstacked := hunder.going.stacked
    rw [show d.stack = _ from hcase, hidx] at hstacked
    exact hstacked.armed hw hlength hstart

/-- A range keeps drafts along each other, if it comes to the word in the first stage at most. -/
theorem range_through (hw : w.Generates g g') (hτ : 0 < τ.depth) (hends : Ends g.env start below stop)
    (hlength : start ≤ g.env.tokens.length) (hstart : Outside g.env.kinds g.env.tokens start)
    (hbelow : below'.map OpenBlock.kind = below.map OpenBlock.kind) {stop' : Nat}
    (hstop : w.Across stop stop') (s : Stage w g A)
    (hplace : (d.idx ≤ w.first ∧ d'.idx = d.idx) ∨ (w.last < d.idx ∧ d'.idx = d.idx + 2))
    (hfirst : s ≠ .ahead → d.idx ≤ w.first → w.first ≤ stop → ∀ σ, ¬ g.Reaches d w.first σ)
    (hunder : Underway g A τ start stop below d₀ d) (h : Along (s.benches below below') d d')
    {e : Draft} (hrange : g.generateRange stop d = .ok e) :
    ∃ (s' : Stage w g A) (e' : Draft), g'.generateRange stop' d' = .ok e' ∧
      Underway g A τ start stop below d₀ e ∧ Along (s'.benches below below') e e' ∧
      (stop ≤ e.idx ∨ g.env.token? e.idx = none) ∧
      (s' = s ∨ ∃ entry, s' = .entered entry ∧ s = .ahead ∧ w.first ≤ stop ∧
        g.Reaches d w.first entry.front.scope ∧ d₀.blocks.size ≤ entry.front.blocks.size) := by
  have hword : w.first ≤ w.last := Nat.le_add_right _ _
  have benches_around (s : Stage w g A) (b : Bench) (hb : s.benches below below' b) : b.Around w :=
    Stage.around hbelow hb
  by_cases hreach : (d.idx ≤ w.first ∧ w.first ≤ stop) ∧ ∃ σ, g.Reaches d w.first σ
  · obtain ⟨⟨hle, hfirst_le⟩, _, m, hm, hmidx, rfl⟩ := hreach
    obtain rfl : s = .ahead := by
      by_contra hne
      exact hfirst hne hle hfirst_le _ ⟨m, hm, hmidx, rfl⟩
    have hlast : w.last ≤ stop ∧ stop' = stop + 2 := by
      unfold Across at hstop
      omega
    obtain ⟨hlast, rfl⟩ := hlast
    obtain ⟨m', hm', hunderm, halong, hidx⟩ := range_before hw (benches_around _)
      (Stage.some_bench _ _ _) hτ hends hlength hstart hfirst_le hle (by omega) hunder h hm
    have hmidx' : m'.idx = w.first := by omega
    rw [Generator.generateRange_split hfirst_le, hm] at hrange
    replace hrange : g.generateRange stop m = .ok e := hrange
    rw [Generator.generateRange_split hlast] at hrange
    cases hp : g.generateRange w.last m with
    | error err =>
      rw [hp] at hrange
      cases hrange
    | ok p =>
      rw [hp] at hrange
      replace hrange : g.generateRange stop p = .ok e := hrange
      obtain ⟨entry, p', rfl, rfl, hpidx, hpidx', hgoes, hunderp, halongp⟩ :=
        enters hw hτ hends hlength hstart hlast hunderm halong hmidx hmidx' hp
      obtain ⟨e', he', hundere, halonge, hend⟩ := range_across hw (benches_around (.entered entry))
        (Stage.some_bench _ _ _) hτ hends hlength hstart hstop (.inl (.inr ⟨by omega, by omega⟩))
        (fun _ heq => by omega) hunderp halongp hrange
      refine ⟨.entered entry, e', ?_, hundere, halonge, hend,
        .inr ⟨entry, rfl, rfl, hfirst_le, ⟨_, hm, hmidx, rfl⟩, ?_⟩⟩
      · rw [Generator.generateRange_split (by omega : w.first ≤ stop + 2), hm', ← he']
        exact hgoes (stop + 2) (by omega)
      · have hkeys := hunderm.going.grows.blocks.keys.length_le
        rwa [Table.length_keys, Table.length_keys] at hkeys
  · obtain ⟨e', he', hundere, halonge, hend⟩ := range_across hw (benches_around s)
      (Stage.some_bench _ _ _) hτ hends hlength hstart hstop
      (hplace.elim .inr fun ⟨hlt, heq⟩ => .inl (.inr ⟨Nat.le_of_lt hlt, heq⟩))
      (fun hle _ hfirst_le σ hreaches => hreach ⟨⟨hle, hfirst_le⟩, σ, hreaches⟩) hunder h hrange
    exact ⟨s, e', he', hundere, halonge, hend, .inl rfl⟩

end Wrapping

end Stencil
