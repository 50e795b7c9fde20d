import Stencil.Proofs.Generation.Aside

/-!
# Calls that are warned about

A call of a mixin is noted where it is put into the program, so that there can be a warning when the
mixin turns out not to be defined. Tags of the host may do anything else, but they do not put calls
into the program themselves, nor warn about them in the same words (`TagHandler.Reports`).

* `Draft.Reports`: every call in the open blocks is new and noted, or was there before.
* `Generator.generateDeferred_noted`: so all calls are noted that are in a program, however deep.
* `Generator.generate_warns`: a mixin that is called is in the program, or there is a warning.
-/

namespace Stencil

/-- The warning about a mixin that is not defined. -/
def undefinedMixin (name : String) : String :=
  "mixin \"" ++ name ++ "\" is called but never defined"

theorem undefinedMixin_inj {name other : String} (h : undefinedMixin name = undefinedMixin other) :
    name = other := by
  have htexts : name.toList = other.toList := by
    simpa [undefinedMixin] using congrArg String.toList h
  exact String.toList_inj.1 htexts

/-- The mixins that are called by now, and were not before, are noted; the warnings are those from
before, and others. -/
structure Draft.Reports (d d' : Draft) : Prop where
  calls : ∀ call ∈ d.calls, call ∈ d'.calls
  called : ∀ name, d'.CallsMixin name → d.CallsMixin name ∨ ∃ pos, (name, pos) ∈ d'.calls
  warnings : ∀ w ∈ d'.warnings, w ∈ d.warnings ∨ ∀ name, w.message ≠ undefinedMixin name

/-- A handler that notes the mixins that it calls, and leaves it to others to warn about them. -/
def TagHandler.Reports (handler : TagHandler) : Prop :=
  ∀ env tag d d', handler env tag d = .ok d' → Draft.Reports d d'

/-- Every handler is a built-in one of the same tag, or notes the mixins that it calls. -/
def TagRegistry.Reports (r : TagRegistry) : Prop :=
  ∀ name handler, r.get? name = some handler →
    TagRegistry.builtin.get? name = some handler ∨ handler.Reports

section

variable {d d₁ d₂ : Draft}

theorem Draft.Reports.trans (h : d.Reports d₁) (h' : d₁.Reports d₂) : d.Reports d₂ where
  calls call hcall := h'.calls call (h.calls call hcall)
  called name hname := by
    rcases h'.called name hname with hname | hnoted
    · exact (h.called name hname).imp_right fun ⟨pos, hpos⟩ => ⟨pos, h'.calls _ hpos⟩
    · exact .inr hnoted
  warnings w hw := (h'.warnings w hw).elim (h.warnings w) .inr

theorem Draft.Aside.reports (h : d.Aside d₁) : d.Reports d₁ where
  calls _ hcall := h.calls ▸ hcall
  called name hname := .inl (h.called name hname)
  warnings _ hw := .inl (h.warnings ▸ hw)

theorem Learns.reports {env : DraftEnv} {token : Token} (h : Learns env token d d₁) :
    d.Reports d₁ where
  calls _ hcall := h.calls ▸ List.mem_append_right _ hcall
  called name hname := (h.called name hname).imp_right fun ⟨pos, hpos⟩ =>
    ⟨pos, h.calls ▸ List.mem_append_left _ hpos⟩
  warnings _ hw := .inl (h.warnings ▸ hw)

end

/-! ## Registries -/

namespace TagRegistry

theorem get?_merged {r extra : TagRegistry} {name : String} {handler : TagHandler}
    (h : (r.merged extra).get? name = some handler) :
    r.get? name = some handler ∨ ∃ entry ∈ extra.handlers.entries, entry.2 = handler := by
  unfold get? merged at h
  dsimp only at h
  generalize extra.handlers.entries = entries at h ⊢
  induction entries with
  | nil => exact .inl h
  | cons entry entries ih =>
    rw [List.foldr_cons, Table.get?_insert] at h
    split at h
    · exact .inr ⟨entry, List.mem_cons_self, Option.some.inj h⟩
    · refine (ih h).imp_right ?_
      rintro ⟨other, hother, heq⟩
      exact ⟨other, List.mem_cons_of_mem _ hother, heq⟩

/-- Tags of the host may be put beside the built-in ones. -/
theorem reports_merged {extra : TagRegistry}
    (h : ∀ entry ∈ extra.handlers.entries, TagHandler.Reports entry.2) :
    (merged .builtin extra).Reports := by
  intro name handler hhandler
  refine (get?_merged hhandler).imp_right ?_
  rintro ⟨entry, hentry, rfl⟩
  exact h entry hentry

end TagRegistry

/-! ## Programs -/

/-- The mixin is called in a program. -/
def Program.CallsMixin (program : Program) (name : String) : Prop :=
  ∃ args, program.Holds (.callMixin name args)

/-- The draft has noted a call of the mixin. -/
def Draft.NotesCall (d : Draft) (name : String) : Prop := ∃ pos, (name, pos) ∈ d.calls

/-- All calls are noted that are in the open blocks, or in the bodies that are done; and there is no
warning about them yet. -/
structure Noted (d : Draft) (program : Program) : Prop where
  called : ∀ name, d.CallsMixin name → d.NotesCall name
  done : ∀ name, program.CallsMixin name → d.NotesCall name
  warnings : ∀ w ∈ d.warnings, ∀ name, w.message ≠ undefinedMixin name

theorem Draft.Reports.notesCall {d d' : Draft} {name : String} (h : d.Reports d')
    (hname : d.NotesCall name) : d'.NotesCall name := by
  obtain ⟨pos, hpos⟩ := hname
  exact ⟨pos, h.calls _ hpos⟩

/-- Handlers that note their calls leave none out. -/
theorem Noted.reports {d d' : Draft} {program : Program} (h : Noted d program) (h' : d.Reports d') :
    Noted d' program where
  called name hname := (h'.called name hname).elim (fun hname => h'.notesCall (h.called name hname)) id
  done name hname := h'.notesCall (h.done name hname)
  warnings w hw := (h'.warnings w hw).elim (h.warnings w) id

/-- At the start nothing is called. -/
theorem Noted.empty : Noted {} {} where
  called name hname := by
    obtain ⟨b, hb, hcalls⟩ := hname
    obtain rfl := List.mem_singleton.1 hb
    cases hcalls with
    | found calls => exact absurd calls CallsMixin.not_nil
    | inside mem => exact absurd mem List.not_mem_nil
  done name hname := by
    obtain ⟨args, holds⟩ := hname
    cases holds with
    | body occurs => exact absurd ⟨args, occurs⟩ CallsMixin.not_nil
    | mixin mem | block mem => exact absurd mem List.not_mem_nil
  warnings _ hw := absurd hw List.not_mem_nil

namespace Generator

variable {g : Generator} {d d' : Draft} {stop rounds : Nat} {program program' : Program}

theorem step_reports (hg : g.registry.Reports) {token : Token}
    (here : g.env.token? d.idx = some token) (h : g.step token d = .ok d') : d.Reports d' := by
  by_cases htoken : g.HasBuiltin token
  · exact (step_learns htoken here h).reports
  · -- The tag has a handler of the host.
    unfold HasBuiltin at htoken
    push Not at htoken
    obtain ⟨tag, handler, rfl, hhandler, hnot⟩ := htoken
    unfold step handle at h
    dsimp only at h
    rw [hhandler] at h
    have hdone := (hg tag.name handler hhandler).resolve_left hnot _ _ _ _ h
    have hclear : d.Reports { d with trimNext := false } :=
      ⟨fun _ h => h, fun _ h => .inl h, fun _ h => .inl h⟩
    exact (hclear.trans (mark_aside g (.tag tag) d).reports).trans hdone

theorem generateRange_reports (hg : g.registry.Reports) (h : g.generateRange stop d = .ok d') :
    d.Reports d' := by
  fun_induction generateRange g stop d with
  | case1 | case5 =>
    obtain rfl := Except.ok.inj h
    exact (Draft.Aside.refl _).reports
  | case2 | case4 => cases h
  | case3 d hlt token here next hstep hnext ih => exact (step_reports hg here hstep).trans (ih h)

/-- The calls of a body are noted when it is done. -/
theorem generateBody_noted (hg : g.registry.Reports) {body : Deferred}
    {instructions : List Instruction} (h : Noted d program)
    (hbody : g.generateBody body d = .ok (instructions, d')) :
    Noted d' program ∧ ∀ name, CallsMixin name instructions → d'.NotesCall name := by
  obtain ⟨d₁, hrange, _, block, outer, hinner, rfl, rfl⟩ := generateBody_ok hbody
  have hbegin : d.Reports (d.begin body) := ((Draft.Aside.refl d).begin body).reports
  have hnoted := h.reports (hbegin.trans (generateRange_reports hg hrange))
  have hclose : d₁.Aside { d₁.withScope Scope.destroy with inner := outer } :=
    ((Draft.Aside.refl d₁).withScope Scope.destroy).drops hinner
  refine ⟨hnoted.reports hclose.reports, fun name hcalls => hnoted.called name ⟨block, ?_, ?_⟩⟩
  · rw [Draft.stack, hinner]
    exact List.mem_cons_self
  · exact .found hcalls.of_reverse

theorem generateDeferred_noted (hg : g.registry.Reports) (h : Noted d program)
    (hdone : g.generateDeferred rounds d program = .ok (d', program')) : Noted d' program' := by
  induction rounds generalizing d program with
  | zero =>
    cases hdone
    exact h
  | succ rounds ih =>
    rw [generateDeferred_succ] at hdone
    cases hround : g.round d program with
    | none =>
      rw [hround] at hdone
      cases hdone
      exact h
    | some x =>
      rw [hround] at hdone
      cases x with
      | error e => cases hdone
      | ok made =>
        obtain ⟨body, instructions, _, hbody, hadds⟩ := round_ok hround
        obtain ⟨hnoted, hinstructions⟩ := generateBody_noted hg h hbody
        refine ih ⟨hnoted.called, fun name hname => ?_, hnoted.warnings⟩ hdone
        -- The body is put into one of the two tables.
        obtain ⟨args, holds⟩ := hname
        rcases hadds with ⟨key, _, hprogram⟩ | ⟨_, key, _, hprogram⟩ <;> rw [hprogram] at holds
        · cases holds with
          | body occurs => exact hnoted.done name ⟨args, .body occurs⟩
          | mixin mem occurs =>
            rcases Table.mem_insert mem with rfl | mem
            · exact hinstructions name ⟨args, occurs⟩
            · exact hnoted.done name ⟨args, .mixin mem occurs⟩
          | block mem occurs => exact hnoted.done name ⟨args, .block mem occurs⟩
        · cases holds with
          | body occurs => exact hnoted.done name ⟨args, .body occurs⟩
          | mixin mem occurs => exact hnoted.done name ⟨args, .mixin mem occurs⟩
          | block mem occurs =>
            rcases Table.mem_insert mem with rfl | mem
            · exact hinstructions name ⟨args, occurs⟩
            · exact hnoted.done name ⟨args, .block mem occurs⟩

/-! ## Warnings -/

/-- There is a warning for every call that was noted of a mixin that is not there. -/
theorem mem_warnCalls {w : Warning} : w ∈ (g.warnCalls program d).warnings ↔
    w ∈ d.warnings ∨ ∃ call ∈ d.calls, program.mixins.contains call.1 = false ∧
      w = ⟨undefinedMixin call.1, excerpt g.env.files excerptRadius call.2⟩ := by
  have hreverse (call : String × Pos) : call ∈ d.calls ↔ call ∈ d.calls.reverse :=
    List.mem_reverse.symm
  simp only [hreverse]
  unfold warnCalls
  generalize d.calls.reverse = calls
  clear hreverse
  induction calls generalizing d with
  | nil => simp
  | cons call calls ih =>
    rw [List.foldl_cons]
    refine ih.trans ?_
    rw [List.exists_mem_cons_iff, ← or_assoc]
    refine or_congr_left ?_
    dsimp only
    split
    · next hcontains => simp [hcontains]
    · next hcontains =>
      rw [Bool.not_eq_true] at hcontains
      simp only [hcontains, true_and]
      exact List.mem_cons.trans or_comm

/-- A mixin that a program calls is in it, or there is a warning; and there is none if it is. -/
theorem generate_warns (hg : g.registry.Reports) {made : Generated} (h : g.generate = .ok made) :
    (∀ name, made.program.CallsMixin name → made.program.mixins.contains name = false →
      ∃ w ∈ made.warnings, w.message = undefinedMixin name) ∧
    ∀ w ∈ made.warnings, ∀ name, w.message = undefinedMixin name →
      made.program.mixins.contains name = false := by
  obtain ⟨main, last, program, hmain, hlast, _⟩ := generate_ok h
  have hfirst := Noted.empty.reports (generateRange_reports hg (generateMain_ok hmain))
  have hnoted := generateDeferred_noted hg hfirst hlast
  rw [generate_of_rounds hmain hlast] at h
  obtain rfl := Except.ok.inj h
  dsimp only
  simp only [List.mem_reverse, mem_warnCalls]
  constructor
  · rintro name ⟨args, holds⟩ hmissing
    have hcall : last.NotesCall name := by
      cases holds with
      | body occurs =>
        refine hnoted.called name ⟨last.root, ?_, .found (CallsMixin.of_reverse ⟨args, occurs⟩)⟩
        exact List.mem_append_right _ List.mem_cons_self
      | mixin mem occurs => exact hnoted.done name ⟨args, .mixin mem occurs⟩
      | block mem occurs => exact hnoted.done name ⟨args, .block mem occurs⟩
    obtain ⟨pos, hpos⟩ := hcall
    exact ⟨_, .inr ⟨(name, pos), hpos, hmissing, rfl⟩, rfl⟩
  · rintro w (hw | ⟨call, _, hmissing, rfl⟩) name hname
    · exact absurd hname (hnoted.warnings w hw name)
    · rwa [← undefinedMixin_inj hname]

end Generator

theorem generate_warns {tokens : List Token} {files : Files} {registry : TagRegistry}
    {positions : Bool} {made : Generated} (hregistry : registry.Reports)
    (h : generate tokens files registry positions = .ok made) :
    (∀ name, made.program.CallsMixin name → made.program.mixins.contains name = false →
      ∃ w ∈ made.warnings, w.message = undefinedMixin name) ∧
    ∀ w ∈ made.warnings, ∀ name, w.message = undefinedMixin name →
      made.program.mixins.contains name = false := by
  unfold generate at h
  split at h
  · cases h
  · exact Generator.generate_warns hregistry h

end Stencil
