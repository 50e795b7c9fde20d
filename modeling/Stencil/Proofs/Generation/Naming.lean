import Stencil.Proofs.Expression.Path
import Stencil.Proofs.Generation.Redefined
import Stencil.Proofs.Program.Outline

/-!
# Names in programs

What a program binds are names of variables. Its blocks and mixins are called by words of tags.

* `LoopBinding.isVariableName_of_mem`: a loop binds names of variables.
* `Generator.tracks_params`: so do the mixins that are left behind.
* `Arises.names`: the names in an instruction come from a tag.
* `generate_names`: so no name in a program has a line feed, as long as no tag has one in its name.
-/

namespace Stencil

open Text

/-! ## Words -/

/-- A name of a variable stays in its line. -/
theorem newline_notMem_variable {name : String} (h : isVariableName name = true) :
    '\n' ∉ name.toList :=
  fun hmem => absurd (isVariableName_all h _ hmem) (by decide)

/-- A word stays in its line. -/
theorem newline_notMem_word {s word : String} (h : word ∈ wordsOf s) : '\n' ∉ word.toList := by
  obtain ⟨cs, hcs, rfl⟩ := List.mem_map.1 h
  rw [String.toList_ofList]
  intro hmem
  have hblank := pieces_notMem cs (List.mem_filter.1 hcs).1 '\n' hmem
  exact absurd hblank (by decide)

theorem newline_notMem_blockName {tag : Tag} {name : String} (h : blockName? tag = some name) :
    '\n' ∉ name.toList :=
  newline_notMem_word (List.mem_of_head? h)

/-! ## Loops -/

theorem isVariableName_of_checkedName {text name : String} (h : checkedName text = .ok name) :
    isVariableName name = true := by
  unfold checkedName at h
  split at h
  · next hname =>
    cases h
    exact hname
  · cases h

theorem isVariableName_of_checkedPlace {text name : String}
    (h : checkedPlace text = .ok (some name)) : isVariableName name = true := by
  unfold checkedPlace at h
  split at h
  · cases h
  · obtain ⟨_, hname, heq⟩ := ok_of_map h
    obtain rfl := Option.some.inj heq
    exact isVariableName_of_checkedName hname

/-- What a list becomes, its members become. -/
theorem exists_of_mapM {ε α β : Type} {f : α → Except ε β} {as : List α} {bs : List β}
    (h : as.mapM f = .ok bs) : ∀ b ∈ bs, ∃ a ∈ as, f a = .ok b := by
  induction as generalizing bs with
  | nil =>
    cases h
    exact fun _ hb => absurd hb List.not_mem_nil
  | cons a as ih =>
    rw [List.mapM_cons] at h
    obtain ⟨b, hfirst, h⟩ := ok_of_bind h
    obtain ⟨rest, hrest, h⟩ := ok_of_bind h
    cases h
    refine List.forall_mem_cons.2 ⟨⟨a, List.mem_cons_self, hfirst⟩, fun b hb => ?_⟩
    obtain ⟨a', ha', hf⟩ := ih hrest b hb
    exact ⟨a', List.mem_cons_of_mem _ ha', hf⟩

/-- A loop binds names of variables. -/
theorem LoopBinding.isVariableName_of_mem {text : String} {binding : LoopBinding}
    (h : LoopBinding.ofText text = .ok binding) :
    ∀ name ∈ binding.names, isVariableName name = true := by
  unfold ofText at h
  dsimp only at h
  split at h
  · obtain ⟨_, hplaces, rfl⟩ := ok_of_map h
    intro name hname
    obtain ⟨place, hplace, heq⟩ := List.mem_filterMap.1 hname
    obtain rfl : place = some name := heq
    obtain ⟨_, _, hchecked⟩ := exists_of_mapM hplaces _ hplace
    exact isVariableName_of_checkedPlace hchecked
  · obtain ⟨_, hmembers, rfl⟩ := ok_of_map h
    intro name hname
    obtain ⟨_, _, hchecked⟩ := exists_of_mapM hmembers _ hname
    exact isVariableName_of_checkedName hchecked
  · split at h
    · obtain ⟨_, hname, rfl⟩ := ok_of_map h
      exact List.forall_mem_singleton.2 (isVariableName_of_checkedName hname)
    · obtain ⟨_, hkey, h⟩ := ok_of_bind h
      obtain ⟨_, hvalue, h⟩ := ok_of_bind h
      cases h
      exact List.forall_mem_cons.2 ⟨isVariableName_of_checkedName hkey,
        List.forall_mem_singleton.2 (isVariableName_of_checkedName hvalue)⟩
    · cases h

/-! ## Mixins -/

/-- All parameters of the mixins that are left behind are names of variables. -/
def Draft.ParamsNamed (d : Draft) : Prop :=
  ∀ e ∈ d.mixins.entries, ∀ param ∈ e.2.params, isVariableName param = true

namespace Handler

variable {env : DraftEnv} {tag : Tag} {d : Draft}

theorem mixin_params (h : d.ParamsNamed) : Gives Draft.ParamsNamed (mixin env tag d) := by
  unfold mixin
  split
  · exact .error _
  · next name texts _ =>
    refine .guard ?_
    dsimp only
    split
    · exact .error _
    · next hbad =>
      refine (Gives.any _).bind fun stop _ => .ok fun e he => ?_
      rcases Table.mem_insert he with rfl | he
      · simpa using List.find?_eq_none.1 hbad
      · exact h e he

end Handler

namespace Generator

variable {g : Generator}

/-- Handling a token keeps the parameters of mixins names of variables. -/
theorem step_params (hg : g.IsBuiltin) {token : Token} {d d' : Draft}
    (here : g.env.token? d.idx = some token) (hstep : g.step token d = .ok d')
    (h : d.ParamsNamed) : d'.ParamsNamed := by
  by_cases hmixin : ∃ tag, token = .tag tag ∧ tag.name = "mixin"
  · obtain ⟨tag, rfl, hname⟩ := hmixin
    unfold step handle at hstep
    dsimp only at hstep
    rw [hg.registry, hname] at hstep
    refine (Handler.mixin_params ?_).get hstep
    intro e he
    have hmark := (mark_aside g (.tag tag) d).mixins
    exact h e (hmark ▸ he)
  · have hlearns := step_learns (hg.hasBuiltin _) here hstep
    have hkept : d'.mixins = d.mixins := by
      refine hlearns.kept fun name hdefines => hmixin ?_
      cases token with
      | raw => cases hdefines
      | object => cases hdefines
      | tag tag =>
        obtain ⟨_, _, heq⟩ := Option.map_eq_some_iff.1 hdefines
        exact ⟨tag, rfl, (Prod.mk.inj heq).1⟩
    intro e he
    exact h e (hkept ▸ he)

/-- So they are as long as tokens are handled. -/
theorem tracks_params (hg : g.IsBuiltin) : g.Tracks fun _ d => d.ParamsNamed where
  aside haside h := fun e he => h e (haside.mixins ▸ he)
  step here hstep h := step_params hg here hstep h

/-- All parameters of the mixins of a program are names of variables. -/
theorem generate_params (hg : g.IsBuiltin) {made : Generated} (hmade : g.generate = .ok made)
    {e : String × Mixin} (he : e ∈ made.program.mixins.entries) :
    ∀ param ∈ e.2.params, isVariableName param = true := by
  have hmixin := Table.get?_of_mem (generate_nodup hg hmade).1 he
  obtain ⟨main, last, program, hmain, hlast, _, hprogram⟩ := generate_ok hmade
  rw [hprogram] at hmixin
  obtain ⟨n, _, d, before, body, instructions, d', hnow, hentry, _, hmade'⟩ :=
    generateDeferred_mixin hlast hmixin
  have hnamed := (tracks_params hg).within (fun _ he => absurd he List.not_mem_nil) hmain hnow
  rw [hmade']
  exact hnamed _ (List.mem_of_getElem? hentry)

end Generator

/-! ## Instructions -/

section

variable {env : DraftEnv} {L : String → Prop} {A : Nat → Scope → Prop} {σ : Scope}

/-- A block that binds names in a loop was opened so. -/
theorem Filled.binding {start i : Nat} {kind : OpenKind} {found : List Instruction}
    (h : Filled env L A σ start kind found i) {binding : LoopBinding} {iterable : Iterable}
    {offset limit : Option Int} (hkind : kind = .loop binding iterable offset limit) :
    ∃ text, LoopBinding.ofText text = .ok binding := by
  induction h with
  | root => cases hkind
  | opened opens =>
    cases opens with
    | loop _ _ _ bound =>
      cases hkind
      exact ⟨_, bound⟩
    | condition | case => cases hkind
  | mark _ _ _ ih | leaf _ _ _ ih => exact ih hkind
  | nested _ _ _ _ _ _ ih => exact ih hkind
  | turn _ turns =>
    cases turns <;> cases hkind

/-- The names in an instruction are words. -/
theorem Arises.names {start stop : Nat} {x : Instruction} (h : Arises env L A start stop x)
    (htags : ∀ k tag, env.token? k = some (.tag tag) → '\n' ∉ tag.name.toList) :
    ∀ name ∈ x.names, '\n' ∉ name.toList := by
  cases h with
  | position eq =>
    subst eq
    exact fun _ hname => absurd hname List.not_mem_nil
  | block spans =>
    obtain @⟨_, _, _, kind, _, _, _, _, _, filled, complete⟩ := spans
    intro name hname
    unfold OpenKind.complete? at complete
    split at complete <;> cases complete
    · exact absurd hname List.not_mem_nil
    · exact absurd hname List.not_mem_nil
    · exact absurd hname List.not_mem_nil
    · obtain ⟨text, hbound⟩ := filled.binding rfl
      exact newline_notMem_variable (LoopBinding.isVariableName_of_mem hbound name hname)
  | leaf leaf _ mem =>
    have one {y : Instruction} (hx : x ∈ [y]) (hy : ∀ name ∈ y.names, '\n' ∉ name.toList) :
        ∀ name ∈ x.names, '\n' ∉ name.toList := by
      obtain rfl := List.mem_singleton.1 hx
      exact hy
    have silent {y : Instruction} (hx : x ∈ [y]) (hy : y.names = []) :
        ∀ name ∈ x.names, '\n' ∉ name.toList :=
      one hx fun name hname => absurd (hy ▸ hname) List.not_mem_nil
    cases leaf with
    | text | raw =>
      split at mem
      · exact absurd mem List.not_mem_nil
      · exact silent mem rfl
    | comment | mixin | trim => exact absurd mem List.not_mem_nil
    | object | script | «break» | «continue» => exact silent mem rfl
    | assign _ _ _ valid =>
      exact one mem (List.forall_mem_singleton.2 (newline_notMem_variable valid))
    | capture _ _ valid =>
      exact one mem (List.forall_mem_singleton.2 (newline_notMem_variable valid))
    | callMixin here =>
      refine one mem (List.forall_mem_singleton.2 ?_)
      rw [String.toList_ofList]
      exact fun hmem => htags _ _ here (List.mem_of_mem_drop hmem)
    | block _ _ reads adds =>
      rcases adds with rfl | rfl
      · exact absurd mem List.not_mem_nil
      · exact one mem (List.forall_mem_singleton.2 (newline_notMem_blockName reads))

end

/-- No name in a program has a line feed, when no tag has one in its name. -/
theorem generate_names {tokens : List Token} {files : Files} {positions : Bool} {made : Generated}
    (hmade : generate tokens files .builtin positions = .ok made)
    (htags : ∀ tag, .tag tag ∈ tokens → '\n' ∉ tag.name.toList) : made.program.NamesInLine := by
  obtain ⟨sites, hsites, hprogram⟩ := (generate_settles tokens files positions).get hmade
  have hg : (builtinGenerator tokens files positions sites).IsBuiltin := ⟨rfl, rfl⟩
  rw [generate_eq hsites] at hmade
  have named {opener name : String} {body : Deferred}
      (h : LeftBehind (builtinEnv tokens files positions sites)
        (builtinGenerator tokens files positions sites).HeldAt opener name body) :
      '\n' ∉ name.toList := by
    obtain ⟨_, _, _, defers, _⟩ := h
    exact newline_notMem_blockName defers.named
  intro row hrow
  cases hrow with
  | instruction holds =>
    exact (hprogram.arises rfl holds).names fun k tag here => htags tag (List.mem_of_getElem? here)
  | mixin mem =>
    obtain ⟨_, hbehind, _⟩ := hprogram.calls.mixins _ mem
    refine List.forall_mem_cons.2 ⟨named hbehind, fun param hparam => ?_⟩
    exact newline_notMem_variable (Generator.generate_params hg hmade mem param hparam)
  | block mem =>
    obtain ⟨_, hbehind, _⟩ := hprogram.calls.blocks _ mem
    exact List.forall_mem_singleton.2 (named hbehind)
  | _ => exact fun _ hname => absurd hname List.not_mem_nil

end Stencil
