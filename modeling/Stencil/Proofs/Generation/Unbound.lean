import Stencil.Proofs.Generation.Folded

/-!
# Variables that no tag binds

* `Generator.HeldAt.unbound`: a name that no tag of the template binds is bound in no scope.
* `Wrapping.readsAlike_of_unbound`: so an expression of it needs the same variable everywhere.
-/

namespace Stencil

/-- The token may bind the name: for scripts and mixins, that is all that is known. -/
def Token.mayBind (x : String) : Token → Bool
  | tag t =>
    if t.name = "assign" then (AssignmentHead.ofHead? t.head).any (·.name == x)
    else if t.name = "capture" then t.head == x
    else if t.name = "for" then
      (LoopHead.ofHead? t.head).any fun head =>
        match LoopBinding.ofText head.binding with
        | .ok binding => binding.names.contains x
        | .error _ => false
    else t.name == "js" || t.name == "mixin"
  | _ => false

/-! ## What fills blocks -/

/-- The names that are bound in the frame of an open block before it is filled. -/
def OpenKind.bound : OpenKind → List String
  | case _ arms _ => arms.reverse.flatMap fun | .mk _ body => body.flatMap Instruction.binds
  | loop binding .. => binding.names
  | _ => []

section

variable {env : DraftEnv} {L : String → Prop} {A : Nat → Scope → Prop} {σ τ : Scope} {i : Nat}
  {x : String}

theorem OpenKind.has_scope {kind : OpenKind} (hx : x ∉ kind.bound) :
    (kind.scope σ).has x = σ.has x := by
  cases kind with
  | root => rfl
  | condition => exact Scope.has_create
  | case | loop =>
    rw [Bool.eq_iff_iff, scope, Scope.has_opened]
    exact or_iff_right hx

theorem OpenKind.depth_scope_pos (kind : OpenKind) (hσ : 0 < σ.depth) : 0 < (kind.scope σ).depth := by
  cases kind with
  | root => exact hσ
  | condition => exact Nat.succ_pos _
  | case => exact Scope.depth_opened_pos σ _
  | loop => exact Scope.depth_opened_pos σ _

variable (hfree : ∀ k token, env.token? k = some token → token.mayBind x = false)
include hfree

theorem Leaf.unbound {j : Nat} {added : List Instruction} (h : Leaf env L σ i added j) :
    x ∉ added.flatMap Instruction.binds := by
  cases h with
  | text | raw => split <;> simp [Instruction.binds]
  | block _ _ _ adds => rcases adds with rfl | rfl <;> simp [Instruction.binds]
  | assign here name reads =>
    have hnot := hfree _ _ here
    simp only [Token.mayBind, name, reads, if_true, Option.any_some, beq_eq_false_iff_ne] at hnot
    simpa [Instruction.binds] using hnot.symm
  | capture here name =>
    have hnot := hfree _ _ here
    simp [Token.mayBind, name] at hnot
    simpa [Instruction.binds] using Ne.symm hnot
  | script here name =>
    have hnot := hfree _ _ here
    simp [Token.mayBind, name] at hnot
  | comment | mixin | trim | object | «break» | «continue» | callMixin => simp [Instruction.binds]

theorem Opens.unbound {kind : OpenKind} (h : Opens env L σ i kind) : x ∉ kind.bound := by
  cases h with
  | condition | case => simp [OpenKind.bound]
  | loop here name reads bound =>
    have hnot := hfree _ _ here
    simpa [Token.mayBind, name, reads, bound, OpenKind.bound] using hnot

omit hfree in
theorem Turns.unbound {found : List Instruction} {kind next : OpenKind}
    (h : Turns env L σ i found kind next) (hkind : x ∉ kind.bound)
    (hfound : x ∉ found.flatMap Instruction.binds) : x ∉ next.bound := by
  cases h with
  | elseIf | otherwise => simp [OpenKind.bound]
  | firstArm => exact hkind
  | arm =>
    simp only [OpenKind.bound, List.reverse_cons, List.flatMap_append, List.flatMap_cons,
      List.flatMap_nil, List.append_nil, List.mem_append, not_or] at hkind ⊢
    refine ⟨hkind, ?_⟩
    simpa using hfound

/-- What fills a block binds no name that no token binds. -/
theorem Filled.unbound {start : Nat} {kind : OpenKind} {found : List Instruction}
    (h : Filled env L A σ start kind found i) :
    x ∉ kind.bound ∧ x ∉ found.flatMap Instruction.binds := by
  induction h with
  | root => exact ⟨List.not_mem_nil, List.not_mem_nil⟩
  | opened opens => exact ⟨opens.unbound hfree, List.not_mem_nil⟩
  | mark _ _ _ ih =>
    refine ⟨ih.1, ?_⟩
    unfold Draft.markIn
    split
    · simpa [Instruction.binds] using ih.2
    · simpa [Instruction.binds] using ih.2
  | leaf _ leaf _ ih =>
    refine ⟨ih.1, ?_⟩
    rw [List.flatMap_append, List.mem_append, not_or]
    exact ⟨by simpa using leaf.unbound hfree, ih.2⟩
  | nested _ _ _ _ _ complete ih _ =>
    refine ⟨ih.1, ?_⟩
    rw [List.flatMap_cons, binds_of_complete complete]
    exact ih.2
  | turn _ turns _ ih => exact ⟨turns.unbound ih.1 ih.2, List.not_mem_nil⟩

theorem Filled.has_behind {start : Nat} {kind : OpenKind} {found : List Instruction}
    (h : Filled env L A σ start kind found i) (hσ : 0 < σ.depth) :
    ((kind.scope σ).behind found.reverse).has x = σ.has x := by
  obtain ⟨hkind, hfound⟩ := h.unbound hfree
  have hreverse : x ∉ found.reverse.flatMap Instruction.binds := by simpa using hfound
  rw [Bool.eq_iff_iff, Scope.behind, Scope.has_addAll (kind.depth_scope_pos hσ), or_iff_right hreverse,
    OpenKind.has_scope hkind]

theorem Stacked.has_eq {start : Nat} {below stack : List OpenBlock} (hτ : 0 < τ.depth)
    (h : Stacked env L A τ start below stack σ i) : σ.has x = τ.has x := by
  induction h with
  | ground filled => exact filled.has_behind hfree hτ
  | block around _ _ _ _ filled ih => rw [filled.has_behind hfree (around.depth_pos hτ), ih]

/-- No body that is left behind has it as a parameter. -/
theorem Defers.has_opened {opener name : String} {k : Nat} {tag : Tag} {body : Deferred}
    (h : Defers env opener k tag name body) : (σ.create.addAll body.params).has x = σ.has x := by
  rcases h.params with hmixin | hnone
  · have hnot := hfree _ _ h.here
    simp [Token.mayBind, h.tag_name, hmixin] at hnot
  · rw [hnone]
    exact Scope.has_create

end

/-! ## Scopes of tokens -/

section

variable {g : Generator} {x : String} {k : Nat} {σ : Scope}

/-- A name that no token binds is bound nowhere. -/
theorem Generator.HeldAt.not_has (hg : g.IsBuiltin)
    (hfree : ∀ k token, g.env.token? k = some token → token.mayBind x = false)
    (h : g.HeldAt k σ) : σ.has x = false := by
  have hdepth : 0 < ({} : Scope).depth := Nat.succ_pos 0
  cases h with
  | main lt reaches =>
    obtain ⟨mid, _, rfl, hgoing, _⟩ := reaches.going hg hdepth .main (Going.begins g.env _)
      (fun _ _ _ _ => trivial) (Nat.le_of_lt lt)
    exact hgoing.stacked.has_eq hfree hdepth
  | @deferred main d program rounds body first done next lt reaches =>
    obtain ⟨found, hbetween, _⟩ := Generator.between_held hg first done
    obtain ⟨_, _, _, k, tag, τ, defers, _⟩ := hbetween.resting.next next
    have hτ := Scope.depth_opened_pos (Scope.behind {} found.reverse) body.params
    obtain ⟨mid, _, rfl, hgoing, _⟩ := reaches.going hg hτ (.deferred defers)
      (hbetween.resting.opened (fun _ _ _ => trivial) body) (fun _ _ _ _ => trivial)
      (Nat.le_of_lt lt)
    rw [hgoing.stacked.has_eq hfree hτ, defers.has_opened hfree]
    exact hbetween.resting.filled.has_behind hfree hdepth

/-- So it is behind the main body. -/
theorem Generator.scope_not_has {made : Generated} (hg : g.IsBuiltin)
    (hfree : ∀ k token, g.env.token? k = some token → token.mayBind x = false)
    (hmade : g.generate = .ok made) : made.program.scope.has x = false := by
  obtain ⟨found, hbody, filled⟩ := ((Generator.generate_settles hg).get hmade).body
  rw [Program.scope, hbody]
  exact filled.has_behind hfree (Nat.succ_pos 0)

end

/-- Expressions read alike if no token binds their variables. -/
theorem Wrapping.readsAlike_of_unbound {w : Wrapping} {g : Generator} {made : Generated}
    (hg : g.IsBuiltin) (htokens : g.env.tokens = w.tokens) (hmade : g.generate = .ok made)
    (hfree : ∀ token ∈ w.word, ∀ base ∈ token.operands, ∀ access ∈ Access.ofExpression? base,
      ∀ other ∈ w.tokens, other.mayBind access.variableName = false) :
    w.ReadsAlike g made.program.scope := by
  intro σ k τ token base hσ hle hlt hτ here hbase
  have hmem : token ∈ w.word := by
    rw [DraftEnv.token?, htokens, Wrapping.tokens, List.getElem?_append_right hle,
      List.getElem?_append_left (by unfold Wrapping.first at hle; unfold last first at hlt; omega)]
      at here
    exact List.mem_of_getElem? here
  unfold Scope.needed
  cases haccess : Access.ofExpression? base with
  | none => rfl
  | some access =>
    have hnone : ∀ k token, g.env.token? k = some token →
        token.mayBind access.variableName = false := fun k other hother =>
      hfree token hmem base hbase access haccess other
        (htokens ▸ List.mem_of_getElem? hother)
    have hτ := hτ.not_has hg hnone
    have hfinal := Generator.scope_not_has hg hnone hmade
    have hmixed : (Scope.mk (τ.frames.take (τ.depth - σ.depth) ++ made.program.scope.frames)).has
        access.variableName = false := by
      simp only [Scope.has, List.any_append, Bool.or_eq_false_iff] at hτ hfinal ⊢
      refine ⟨List.any_eq_false.2 fun frame hframe => ?_, hfinal⟩
      exact List.any_eq_false.1 hτ frame (List.mem_of_mem_take hframe)
    simp only [Option.bind_some, hτ, hmixed]

end Stencil
