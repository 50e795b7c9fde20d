import Stencil.Proofs.Generation.Beside
import Stencil.Proofs.Generation.Steps

/-!
# Programs with and without the block

When both generators have come to their end, the program without the block is the one with it, with what
the word has added in the place of the call of the block.

* `Wrapping.generate_folds`: so it is, and both programs have the same variables and paths.
* `Wrapping.calm_named`: the body of the block stores nothing, jumps nowhere and calls no block.
-/

namespace Stencil

namespace Wrapping

variable {w : Wrapping} {g g' : Generator}

/-- In the end, the drafts have come to the word and generated the body of the block, or never come to
it. -/
theorem beside_ends {s : Stage w g g.HeldAt} {d d' : Draft} {q q' : Program}
    {found : List Instruction} (hw : w.Generates g g') (hbetween : Between g.env g.HeldAt found d q)
    (h : s.Beside d d' q q') (hready : ¬ s.Ready d q) (hnone : d.next? q = none) :
    d'.next? q' = none ∧ d'.locals = d.locals ∧ d'.paths = d.paths ∧
      ∃ added, Program.Folds w.name added { q with body := d.root.body }
        { q' with body := d'.root.body } := by
  obtain ⟨hmixins, hblocks⟩ := Option.or_eq_none_iff.1 (Option.map_eq_none_iff.1 hnone)
  obtain ⟨_, hkeys⟩ := hbetween.complete hnone
  have hnext (hend : d'.blocks.entries[q'.blocks.size]? = none) : d'.next? q' = none := by
    rw [Draft.next?, Stage.no_mixin h hmixins, hend]
    rfl
  have hdrafts := h.drafts
  have hprograms := h.programs
  obtain ⟨found', hroot', hinlines⟩ := hdrafts.root
  have hbody : d'.root.body = found'.reverse := by rw [hroot']; rfl
  have hmixinsRel (added : List Instruction) (hadded : s.Stands added) (key : String) :
      Option.Rel (fun m m' => m.params = m'.params ∧
        m.body = inlinedBody (foldOne w.name added) m'.body) (q.mixins.get? key)
        (q'.mixins.get? key) :=
    Table.AlignedEntries.lookup
      (Table.Aligned.mono hprograms.mixins fun _ _ hm => ⟨hm.1, hm.2 added hadded⟩) key
  rw [List.getElem?_eq_none_iff] at hblocks
  cases s with
  | ahead =>
    have haligned : d.blocks.Aligned w.Moved d'.blocks := hdrafts.blocks
    have hbodies : q.blocks.Aligned _ q'.blocks := hprograms.blocks
    have hmissing : q'.blocks.get? w.name = none := by
      have hrel := Table.AlignedEntries.lookup hbodies w.name
      cases hget : q.blocks.entries.lookup w.name with
      | none =>
        rw [hget] at hrel
        generalize hget' : q'.blocks.entries.lookup w.name = x at hrel
        cases hrel
        exact hget'
      | some body =>
        obtain ⟨_, hbehind, _⟩ := hbetween.calls.blocks _ (Table.mem_of_get? hget)
        exact absurd rfl (left_ne hw hbehind)
    refine ⟨hnext ?_, hdrafts.locals, hdrafts.paths, [],
      ⟨?_, hmixinsRel [] trivial, fun key _ => ?_, ?_⟩⟩
    · rw [List.getElem?_eq_none_iff, hbodies.size]
      exact Nat.le_trans (Nat.le_of_eq haligned.size) hblocks
    · show d.root.body = inlinedBody _ d'.root.body
      rw [hbody]
      exact hinlines [] trivial
    · exact Table.AlignedEntries.lookup (hbodies.mono fun _ _ hb => hb [] trivial) key
    · show (q'.blocks.get? w.name).getD [] = []
      rw [hmissing]
      rfl
  | entered entry =>
    have hapart : Table.Apart w.Moved w.name _ _ d.blocks d'.blocks := hdrafts.blocks
    have hsize := hapart.le_size
    have hle := hprograms.blocks.2
    refine absurd ⟨entry, rfl, hmixins, Nat.le_antisymm hle (Nat.le_trans hsize hblocks)⟩ hready
  | done entry =>
    have hapart : Table.Apart w.Moved w.name _ _ d.blocks d'.blocks := hdrafts.blocks
    have hbodies : Table.Apart _ w.name entry.added.instructions _ q.blocks q'.blocks :=
      hprograms.blocks
    refine ⟨hnext ?_, hdrafts.locals, hdrafts.paths, entry.added.instructions,
      ⟨?_, hmixinsRel _ rfl, fun key hne => ?_, ?_⟩⟩
    · rw [List.getElem?_eq_none_iff, hbodies.size]
      exact Nat.le_trans (Nat.le_of_eq hapart.size) (Nat.succ_le_succ hblocks)
    · show d.root.body = inlinedBody _ d'.root.body
      rw [hbody]
      exact hinlines _ rfl
    · exact (hbodies.mono fun _ _ hb => hb _ rfl).rel_get? hne
    · show (q'.blocks.get? w.name).getD [] = _
      rw [hbodies.get?_key]
      rfl

/-- With the block, a program is made that has the same variables and paths, and calls the block where
the program without it has what the word has added. -/
theorem generate_folds {made : Generated} (hw : w.Generates g g') (hmade : g.generate = .ok made)
    (hreads : w.ReadsAlike g made.program.scope) :
    ∃ made', g'.generate = .ok made' ∧ made'.locals = made.locals ∧ made'.paths = made.paths ∧
      ∃ added, made.program.Folds w.name added made'.program := by
  obtain ⟨main, d, q, hmain, hdone, _⟩ := Generator.generate_ok hmade
  obtain rfl := Except.ok.inj (hmade.symm.trans (Generator.generate_of_rounds hmain hdone))
  obtain ⟨found, hbetween, hscope⟩ := Generator.between_held hw.builtin hmain hdone
  have hfinal : Program.scope { q with body := d.root.body } = main.scope := by
    rw [← hscope, hbetween.resting.scope, Program.scope]
    dsimp only
    rw [hbetween.resting.inner_root.2]
    rfl
  rw [hfinal] at hreads
  obtain ⟨s, main', rounds', d', q', hmain', hdone', hbeside, hready⟩ :=
    rounds_beside hw hmain hreads hdone
  obtain ⟨hnone, hlocals, hpaths, added, hfolds⟩ := beside_ends hw hbetween hbeside hready
    (Generator.generateDeferred_exhausts hw.builtin hmain hdone)
  exact ⟨_, Generator.generate_of_rounds hmain'
    (Generator.generateDeferred_enough hw.builtin' hmain' hdone' hnone), hlocals, hpaths, added, hfolds⟩

/-! ## The body of the block -/

/-- Tokens of the word are quiet with the block, too. -/
theorem quiet_word' {j : Nat} {token : Token} (hle : w.first < j) (hlt : j ≤ w.last)
    (here : w.wrapped[j]? = some token) : token.Quiet := by
  have hdrop : w.wrapped[j]? = (w.word' ++ .tag w.closer :: w.after')[j - (w.first + 1)]? := by
    rw [← drop_opener, List.getElem?_drop]
    congr 1
    omega
  have hlt : j - (w.first + 1) < w.word.length := by
    unfold last at hlt
    omega
  have hword : w.word[j - (w.first + 1)]? = some w.word[j - (w.first + 1)] :=
    List.getElem?_eq_getElem hlt
  obtain ⟨pos, hword'⟩ := getElem?_alike w.word_alike hword
  rw [hdrop, List.getElem?_append_left (by rwa [length_word]), hword'] at here
  obtain rfl := Option.some.inj here
  intro name hname
  rw [Token.isTag_movedTo]
  exact w.word_quiet _ (List.mem_of_getElem? hword) name hname

end Wrapping

/-- A quiet token adds quiet instructions. -/
theorem Leaf.quiet {env : DraftEnv} {L : String → Prop} {σ : Scope} {i j : Nat}
    {added : List Instruction} (h : Leaf env L σ i added j)
    (hquiet : ∀ token, env.token? i = some token → token.Quiet) :
    ∀ x ∈ added, x.isQuiet = true := by
  have not_quiet {tag : Tag} {name : String} (here : env.token? i = some (.tag tag))
      (hname : tag.name = name) (hmem : name ∈ unwrappedTags) : False :=
    (hquiet _ here).ne hmem hname
  intro x hx
  cases h with
  | text | raw =>
    split at hx
    · exact absurd hx List.not_mem_nil
    · rw [List.mem_singleton.1 hx]
      rfl
  | comment | mixin | trim => exact absurd hx List.not_mem_nil
  | object | callMixin =>
    rw [List.mem_singleton.1 hx]
    rfl
  | assign here name => exact (not_quiet here name (by decide)).elim
  | capture here name => exact (not_quiet here name (by decide)).elim
  | script here name => exact (not_quiet here name (by decide)).elim
  | «break» here name => exact (not_quiet here name (by decide)).elim
  | «continue» here name => exact (not_quiet here name (by decide)).elim
  | block here name => exact (not_quiet here name (by decide)).elim

theorem Instruction.isQuiet_of_isBlock {i : Instruction} (h : i.isBlock = true) : i.isQuiet = true := by
  cases i <;> first | rfl | cases h

namespace Wrapping

variable {w : Wrapping} {g g' : Generator}

/-- If the block has a body, its tag was generated, and the body was filled from the word. -/
theorem named_filled {made' : Generated} {body : List Instruction} (hw : w.Generates g g')
    (hmade' : g'.generate = .ok made') (hget : made'.program.blocks.get? w.name = some body) :
    ∃ σ τ found, g'.HeldAt w.first σ ∧ body = found.reverse ∧
      Filled g'.env (· ∈ made'.locals) g'.HeldAt τ (w.first + 1) .root found (w.last + 1) := by
  have hmade := (Generator.generate_settles hw.builtin').get hmade'
  obtain ⟨deferred, ⟨k, tag, σ, defers, held⟩, found, hbody, filled⟩ :=
    hmade.calls.blocks _ (Table.mem_of_get? hget)
  have hfirst : k = w.first := by
    have hlast := defers.last.resolve_left (by decide)
    rw [opener_site hw] at hlast
    exact hlast.symm
  subst hfirst
  have hstop : deferred.stop = w.last + 1 := by
    have hcloses := defers.closes
    rw [hw.builtin'.kinds, hw.wrapped] at hcloses
    exact Except.ok.inj (hcloses.symm.trans opener_closes)
  rw [defers.start, hstop] at filled
  exact ⟨σ, _, found, held, hbody, filled⟩

/-- The body of the block is calm. -/
theorem calm_named {made' : Generated} (hw : w.Generates g g') (hmade' : g'.generate = .ok made') :
    Calm ((made'.program.blocks.get? w.name).getD []) := by
  cases hget : made'.program.blocks.get? w.name with
  | none =>
    intro x hx
    cases hx with
    | here mem => exact absurd mem List.not_mem_nil
    | inside mem => exact absurd mem List.not_mem_nil
  | some body =>
    obtain ⟨_, _, found, _, rfl, filled⟩ := named_filled hw hmade' hget
    have hstart : w.first + 1 ≤ g'.env.tokens.length := by
      have hlast := w.last_le
      rw [hw.wrapped, length_wrapped]
      unfold last at hlast
      omega
    intro x hx
    cases filled.arises hw.builtin'.kinds hstart (.inl hx.of_reverse) with
    | position eq => rw [eq]; rfl
    | block spans => exact Instruction.isQuiet_of_isBlock spans.isBlock
    | leaf leaf _ mem le lt =>
      refine leaf.quiet (fun token here => ?_) x mem
      rw [DraftEnv.token?, hw.wrapped] at here
      exact quiet_word' (by omega) (by omega) here

end Wrapping

end Stencil
