import Stencil.Proofs.Expression.Access
import Stencil.Proofs.Generation.Listed
import Stencil.Proofs.Render.Locals

/-!
# The paths of a compiled template

A compiled template lists the variables that it reads, and the paths by which it reads them. A path is
what is left of an expression when calls around it are peeled off, as long as it starts with a
variable; what stands behind the first point or bracket is not looked at.

* `Access.spec`: what an expression reads.
* `compile_paths`: which paths are listed, that the variables are those that they start with, and that
  they are access paths where all expressions are calls around access paths.
* `compile_paths_sum`: otherwise they may be anything.
-/

namespace Stencil

open Text

/-- What an expression reads is what its calls are around, and the variable it starts with. -/
theorem Access.spec {base : String} {access : Access} (h : Access.ofExpression? base = some access) :
    access.path = peelCalls base ∧ access.variableName = pathStart access.path ∧
      isVariableName access.variableName = true := by
  unfold Access.ofExpression? at h
  dsimp only at h
  split at h
  · next hname =>
    obtain rfl := Option.some.inj h
    exact ⟨rfl, rfl, hname⟩
  · cases h

/-- Which paths a template lists: those by which the tokens that are generated read variables that are
not bound. The variables are those that the paths start with. When every expression that reads such a
variable is calls around an access path, the paths are access paths. -/
theorem compile_paths {o : CompileOptions} {text : String} {reads reads' : List Path} {c : Compiled}
    (htags : o.tags = .empty) (h : compile o text reads = .ok c reads') :
    (∀ name, name ∈ c.locals ↔ ∃ path ∈ c.paths, pathStart path = name) ∧
    (∀ path ∈ c.paths, isVariableName (pathStart path) = true) ∧
    ∃ tokens sites,
      tokenize c.flattened.text c.flattened.root c.flattened.files o.tokenLimit = .ok tokens ∧
      blockSites TagRegistry.builtin.kinds tokens = .ok sites ∧
      (∀ path, path ∈ c.paths ↔ ∃ access,
        (builtinGenerator tokens c.flattened.files o.positions sites).Reads access ∧
          access.path = path) ∧
      ((∀ k σ token base access,
          (builtinGenerator tokens c.flattened.files o.positions sites).HeldAt k σ →
          tokens[k]? = some token → base ∈ token.operands → σ.Reads [base] access →
          ∃ path, IsAccessPath path ∧ CallsAround path base.toList) →
        ∀ path ∈ c.paths, IsAccessPath path) := by
  obtain ⟨f, hf⟩ := compileFlattened_of_compile h
  obtain ⟨rfl, tokens, made, htokens, hmade, hlocals, hpaths, -⟩ := compileFlattened_ok hf
  rw [htags, TagRegistry.merged_empty] at hmade
  obtain ⟨sites, hsites, hvariables, hlisted⟩ := generate_lists hmade
  rw [hlocals, hpaths]
  have hspec {access : Access}
      (hreads : (builtinGenerator tokens c.flattened.files o.positions sites).Reads access) :
      access.variableName = pathStart access.path ∧ isVariableName access.variableName = true := by
    obtain ⟨_, _, _, _, _, ⟨_, _, hbase⟩, _⟩ := hreads
    exact (Access.spec hbase).2
  refine ⟨fun name => ?_, fun path hpath => ?_, tokens, sites, htokens, hsites, hlisted,
    fun haround path hpath => ?_⟩
  · rw [hvariables]
    constructor
    · rintro ⟨access, hreads, rfl⟩
      exact ⟨access.path, (hlisted _).2 ⟨access, hreads, rfl⟩, (hspec hreads).1.symm⟩
    · rintro ⟨path, hpath, rfl⟩
      obtain ⟨access, hreads, rfl⟩ := (hlisted path).1 hpath
      exact ⟨access, hreads, (hspec hreads).1⟩
  · obtain ⟨access, hreads, rfl⟩ := (hlisted path).1 hpath
    rw [← (hspec hreads).1]
    exact (hspec hreads).2
  · obtain ⟨access, ⟨k, σ, token, held, here, ⟨base, hmem, hbase⟩, hfree⟩, rfl⟩ :=
      (hlisted path).1 hpath
    obtain ⟨path, hpath, hcalls⟩ := haround k σ token base access held here hmem
      ⟨⟨base, List.mem_singleton_self base, hbase⟩, hfree⟩
    have haccess := hcalls.access_eq hpath
    rw [String.ofList_toList, hbase] at haccess
    rw [Option.some.inj haccess]
    exact hpath

/-- A call around a path, a path into a loop's sequence, and a path that starts with the name that the
loop binds. -/
def catalogue : String :=
  "\x7b\x7b upper(user.name) \x7d\x7d\x7b% for row in rows[0] %\x7d" ++
    "\x7b\x7b row.title \x7d\x7d\x7b% endfor %\x7d"

theorem isAccessPath_catalogue :
    IsAccessPath "user.name" ∧ IsAccessPath "rows[0]" ∧ IsAccessPath "row.title" := by
  have hname : Accesses ('.' :: ("name".toList ++ [])) := .member (by decide) .nil
  have hindex : Accesses ('[' :: ("0".toList ++ ']' :: [])) := .index (by decide) .nil
  have htitle : Accesses ('.' :: ("title".toList ++ [])) := .member (by decide) .nil
  exact ⟨⟨"user", _, by decide, hname, by decide⟩, ⟨"rows", _, by decide, hindex, by decide⟩,
    ⟨"row", _, by decide, htitle, by decide⟩⟩

theorem compile_paths_catalogue :
    ∃ c, compile {} catalogue [] = .ok c [] ∧ c.paths.toList = ["rows[0]", "user.name"] ∧
      ∀ path ∈ c.paths, IsAccessPath path := by
  have hcompiled : (match compile {} catalogue [] with
      | .ok c reads => reads.isEmpty && c.paths.toList == ["rows[0]", "user.name"] &&
        (tokenize c.flattened.text c.flattened.root c.flattened.files defaultTokenLimit).toOption.map
          (·.flatMap Token.operands) == some ["upper(user.name)", "rows[0]", "row.title"]
      | .error _ _ => false) = true := by decide +kernel
  split at hcompiled
  · next c reads hc =>
    simp only [Bool.and_eq_true, List.isEmpty_iff, beq_iff_eq] at hcompiled
    obtain ⟨⟨rfl, hpaths⟩, hoperands⟩ := hcompiled
    obtain ⟨-, -, tokens, sites, htokens, -, -, haccess⟩ := compile_paths rfl hc
    obtain ⟨huser, hrows, hrow⟩ := isAccessPath_catalogue
    refine ⟨c, hc, hpaths, haccess fun k σ token base _ _ here hbase _ => ?_⟩
    have hall : tokens.flatMap Token.operands = ["upper(user.name)", "rows[0]", "row.title"] := by
      have hsame : (tokenize c.flattened.text c.flattened.root c.flattened.files
          defaultTokenLimit).toOption = some tokens := by
        rw [show tokenize c.flattened.text c.flattened.root c.flattened.files defaultTokenLimit =
          .ok tokens from htokens]
        rfl
      rw [hsame] at hoperands
      exact Option.some.inj hoperands
    have hmem : base ∈ ["upper(user.name)", "rows[0]", "row.title"] :=
      hall ▸ List.mem_flatMap.2 ⟨token, List.mem_of_getElem? here, hbase⟩
    simp only [List.mem_cons, List.not_mem_nil, or_false] at hmem
    have hupper : DottedPath "upper".toList "upper".toList := .name (by decide)
    rcases hmem with rfl | rfl | rfl
    · exact ⟨_, huser, .call hupper (by decide) .path⟩
    · exact ⟨_, hrows, .path⟩
    · exact ⟨_, hrow, .path⟩
  · cases hcompiled

/-- Behind a point or a bracket a path may go on with anything: a sum is listed as a path. -/
theorem compile_paths_sum :
    ∃ c, compile {} "\x7b\x7b user.name + 1 \x7d\x7d" [] = .ok c [] ∧
      c.locals.toList = ["user"] ∧ c.paths.toList = ["user.name + 1"] ∧
      ¬ IsAccessPath "user.name + 1" := by
  have hcompiled : (match compile {} "\x7b\x7b user.name + 1 \x7d\x7d" [] with
      | .ok c reads => reads.isEmpty && c.locals.toList == ["user"] &&
        c.paths.toList == ["user.name + 1"]
      | .error _ _ => false) = true := by decide +kernel
  split at hcompiled
  · next c reads hc =>
    simp only [Bool.and_eq_true, List.isEmpty_iff, beq_iff_eq] at hcompiled
    obtain ⟨⟨rfl, hlocals⟩, hpaths⟩ := hcompiled
    refine ⟨c, hc, hlocals, hpaths, ?_⟩
    rintro ⟨name, rest, hname, haccesses, heq⟩
    -- There is no bracket, so the blank in front of the sign would belong to a name.
    have hbracket : '[' ∉ rest := fun hmem =>
      absurd (heq ▸ List.mem_append_right _ hmem : '[' ∈ "user.name + 1".toList) (by decide)
    have hblank : ' ' ∈ name.toList ++ rest := heq ▸ by decide
    rcases List.mem_append.1 hblank with hmem | hmem
    · exact absurd (isVariableName_all hname _ hmem) (by decide)
    · rcases haccesses.outside hbracket _ hmem with hdot | hpart
      · exact absurd hdot (by decide)
      · exact absurd hpart (by decide)
  · cases hcompiled

end Stencil
