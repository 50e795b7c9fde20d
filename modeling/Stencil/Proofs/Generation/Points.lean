import Stencil.Proofs.Generation.Handled
import Stencil.Proofs.Generation.Steps

/-!
# Where steps are reported

A failure is reported at the position that was noted last. `bodyPoints` lists what a body evaluates,
each step with the position that stands right before its instruction: the conditions of all
branches, and the values of all arms, stand in one instruction and share its position.

The generator notes a position for every token. The instruction of a block is added when the block
is closed, but behind the position of its opener, because everything in between went into the block.

* `Marked`: where a block was opened, the position of its opener is what was noted last.
* `Change.points`: a token adds its own steps to those of the open blocks, all at one position.
* `Generator.generateRange_points`: so a body has the steps of its tokens, in their order.
* `Generator.generate_writes`: so does every body of a program.
-/

namespace Stencil

/-! ## Steps and positions -/

/-- A step that evaluates something, and the position right before its instruction. -/
abbrev Point := Step × Option Pos

/-- The position that an instruction notes for the one behind it. -/
def Instruction.notes? : Instruction → Option Pos
  | position pos => some pos
  | _ => none

mutual

/-- The points of an instruction with a position right before it. -/
def instructionPoints (q : Option Pos) : Instruction → List Point
  | .choose branches otherwise => branchPoints q branches ++ otherwisePoints otherwise
  | .switch subject arms => (.head subject, q) :: armPoints q arms
  | .loop _ iterable _ _ body =>
    (Checker.pipelinesOf iterable).map (fun p => (.head p, q)) ++ bodyPoints none body
  | .emit p => [(.run (.emit p), q)]
  | .assign name op p declares => [(.run (.assign name op p declares), q)]
  | .callMixin name args => [(.run (.callMixin name args), q)]
  | .script source => [(.run (.script source), q)]
  | .position _ => []
  | .text _ => []
  | .capture .. => []
  | .break => []
  | .continue => []
  | .callBlock _ => []
termination_by structural i => i

/-- The points of a body with a position right before it. -/
def bodyPoints (q : Option Pos) : List Instruction → List Point
  | [] => []
  | i :: is => instructionPoints q i ++ bodyPoints i.notes? is
termination_by structural body => body

/-- The points of some branches: their conditions belong to the instruction. -/
def branchPoints (q : Option Pos) : List Branch → List Point
  | [] => []
  | .mk condition _ body :: bs =>
    (.head condition, q) :: (bodyPoints none body ++ branchPoints q bs)
termination_by structural bs => bs

/-- The points of a last resort. -/
def otherwisePoints : Option (List Instruction) → List Point
  | none => []
  | some body => bodyPoints none body
termination_by structural body => body

/-- The points of some arms: their values belong to the instruction. -/
def armPoints (q : Option Pos) : List Arm → List Point
  | [] => []
  | .mk label body :: arms =>
    (Checker.labelPipelines label).map (fun p => (.head p, q)) ++
      (bodyPoints none body ++ armPoints q arms)
termination_by structural arms => arms

end

section

variable {q : Option Pos}

theorem bodyPoints_append (body more : List Instruction) : bodyPoints q (body ++ more) =
    bodyPoints q body ++ bodyPoints (body.getLast?.elim q Instruction.notes?) more := by
  induction body generalizing q with
  | nil => rfl
  | cons i is ih =>
    rw [List.cons_append, bodyPoints, bodyPoints, ih, List.append_assoc]
    cases is with
    | nil => rfl
    | cons => rw [List.getLast?_cons_cons]; rfl

theorem bodyPoints_singleton (i : Instruction) : bodyPoints q [i] = instructionPoints q i := by
  simp [bodyPoints]

theorem branchPoints_append (bs more : List Branch) :
    branchPoints q (bs ++ more) = branchPoints q bs ++ branchPoints q more := by
  induction bs with
  | nil => rfl
  | cons b bs ih =>
    obtain ⟨condition, negated, body⟩ := b
    rw [List.cons_append, branchPoints, branchPoints, ih, List.cons_append, List.append_assoc]

theorem armPoints_append (arms more : List Arm) :
    armPoints q (arms ++ more) = armPoints q arms ++ armPoints q more := by
  induction arms with
  | nil => rfl
  | cons arm arms ih =>
    obtain ⟨label, body⟩ := arm
    rw [List.cons_append, armPoints, armPoints, ih]
    simp only [List.append_assoc]

end

/-! ## Open blocks -/

/-- The position that has been noted behind some instructions, which are kept latest first. -/
def noted (found : List Instruction) : Option Pos := found.head?.bind Instruction.notes?

/-- The points of an open block, but for those of the branch or the arm that is being filled. -/
def OpenKind.points (q : Option Pos) : OpenKind → List Point
  | root => []
  | condition _ branches current =>
    branchPoints q branches.reverse ++ current.toList.map fun c => (.head c.1, q)
  | case subject arms current =>
    (.head subject, q) :: (armPoints q arms.reverse ++
      (current.toList.flatMap Checker.labelPipelines).map fun p => (.head p, q))
  | loop _ iterable _ _ => (Checker.pipelinesOf iterable).map fun p => (.head p, q)

/-- The points of some open blocks, innermost first. A block stands in the one around it, behind
what has been found there. -/
def stackPoints : List OpenBlock → List Point
  | [] => []
  | b :: outer => stackPoints outer ++
    (b.kind.points (noted ((outer.head?.map OpenBlock.found).getD [])) ++ bodyPoints none b.body)

section

variable {q : Option Pos}

/-- Instructions are added to a body behind those that are kept latest first. -/
theorem bodyPoints_added (found added : List Instruction) :
    bodyPoints none (found.reverse ++ added) =
      bodyPoints none found.reverse ++ bodyPoints (noted found) added := by
  rw [bodyPoints_append, List.getLast?_reverse, noted]
  cases found <;> rfl

/-- A position evaluates nothing. -/
theorem bodyPoints_markIn (pos : Pos) (found : List Instruction) :
    bodyPoints none (Draft.markIn pos found).reverse = bodyPoints none found.reverse := by
  unfold Draft.markIn
  split <;> simp only [List.reverse_cons, bodyPoints_added, bodyPoints_singleton, instructionPoints]
  rw [List.append_nil]

theorem noted_markIn (pos : Pos) (found : List Instruction) :
    noted (Draft.markIn pos found) = some pos := by
  unfold Draft.markIn
  split <;> rfl

/-- What writes blanks only evaluates nothing. -/
theorem bodyPoints_of_isBlankBody {found : List Instruction}
    (h : Handler.isBlankBody found = true) : bodyPoints none found.reverse = [] := by
  have hblank : ∀ i ∈ found.reverse, ∀ q, instructionPoints q i = [] := by
    intro i hi q
    have hone := List.all_eq_true.1 h i (List.mem_reverse.1 hi)
    cases i <;> first | rfl | cases hone
  have hall (body : List Instruction) (hbody : ∀ i ∈ body, ∀ q, instructionPoints q i = [])
      (q : Option Pos) : bodyPoints q body = [] := by
    induction body generalizing q with
    | nil => rfl
    | cons i is ih =>
      rw [bodyPoints, hbody i List.mem_cons_self q,
        ih fun j hj => hbody j (List.mem_cons_of_mem i hj)]
      rfl
  exact hall _ hblank none

/-- A block that is complete has the points that were found. -/
theorem OpenKind.points_complete {kind : OpenKind} {content : List Instruction} {x : Instruction}
    (h : kind.complete? content = some x) :
    instructionPoints q x = kind.points q ++ bodyPoints none content.reverse := by
  cases kind with
  | root => cases h
  | condition kind branches current =>
    cases current <;>
      (cases h; simp [instructionPoints, otherwisePoints, points, branchPoints,
        branchPoints_append])
  | case subject arms current =>
    cases current with
    | none => cases h
    | some label =>
      cases h
      simp [instructionPoints, points, armPoints, armPoints_append]
  | loop binding iterable offset limit =>
    cases h
    rfl

end

/-! ## The parts of tokens -/

/-- The tag that opens the blocks in which a token starts another branch or arm and evaluates
something for it. -/
def Token.blockTag? : Token → Option String
  | .tag t =>
    if t.name ∈ ["elseif", "elsif"] then some "if"
    else if t.name = "when" then some "case"
    else none
  | _ => none

/-- Where the steps of a token are reported: at the token itself, but those of a branch or an arm at
the tag that opens the innermost block around the token. -/
inductive ReportedAt (tokens : List Token) (k : Nat) : Pos → Prop where
  | own {token : Token} (here : tokens[k]? = some token) (whole : token.blockTag? = none) :
      ReportedAt tokens k token.pos
  | opener {token : Token} {opener : Tag} {j : Nat} (here : tokens[k]? = some token)
      (part : token.blockTag? = some opener.name) (opens : tokens[j]? = some (.tag opener))
      (lt : j < k)
      (nested : WellNested TagRegistry.builtin.kinds (between tokens (j + 1) k)) :
      ReportedAt tokens k opener.pos

/-- The part of a body that a token makes: some steps, all of them reported at one position. -/
structure Share where
  token : Nat
  pos : Pos
  steps : List Step

/-- The points of a share. -/
def Share.points (share : Share) : List Point := share.steps.map fun step => (step, some share.pos)

/-- The steps of a share come from its token, and are reported where those of the token are. -/
structure Share.Sound (env : DraftEnv) (share : Share) : Prop where
  yields : ∀ step ∈ share.steps, ∃ σ, Yields env (fun _ => True) σ share.token step
  reported : ReportedAt env.tokens share.token share.pos

/-- Some tokens make a body, each of them its share. -/
structure WrittenIn (env : DraftEnv) (tokens : List Nat) (shares : List Share)
    (body : List Instruction) : Prop where
  tokens : shares.map Share.token = tokens
  sound : ∀ share ∈ shares, share.Sound env
  points : bodyPoints none body = shares.flatMap Share.points

section

variable {env : DraftEnv} {L : String → Prop} {σ : Scope} {k : Nat} {token : Token}

theorem Token.blockTag?_of_name {tag : Tag} {name : String} (h : tag.name = name)
    (hname : name ∉ ["elseif", "elsif", "when"]) : (Token.tag tag).blockTag? = none := by
  simp only [List.mem_cons, List.not_mem_nil, or_false, not_or] at hname
  simp [blockTag?, h, hname]

/-- Some steps of a token are a share, wherever those of the token are reported. -/
theorem ReportedAt.share {pos : Pos} (h : ReportedAt env.tokens k pos) (steps : List Step)
    (hyields : ∀ step ∈ steps, ∃ σ, Yields env (fun _ => True) σ k step) :
    ∃ share : Share, share.token = k ∧ share.Sound env ∧
      share.points = steps.map fun step => (step, some pos) :=
  ⟨⟨k, pos, steps⟩, rfl, ⟨hyields, h⟩, rfl⟩

/-- A token may have no steps. -/
theorem ReportedAt.share_nil {pos : Pos} (h : ReportedAt env.tokens k pos) :
    ∃ share : Share, share.token = k ∧ share.Sound env ∧ share.points = [] :=
  h.share [] fun _ hstep => absurd hstep List.not_mem_nil

theorem instructionPoints_leaf {q : Option Pos} {i : Instruction} (h : i.isBlock = false) :
    instructionPoints q i = [] ∨ instructionPoints q i = [(.run i, q)] := by
  cases i <;> first | exact .inl rfl | exact .inr rfl | cases h

/-- What a token adds by itself starts no branch or arm. -/
theorem Leaf.whole {added : List Instruction} {j : Nat} (here : env.token? k = some token)
    (h : Leaf env L σ k added j) : token.blockTag? = none := by
  have tagged {tag : Tag} {name : String} (hereTag : env.token? k = some (.tag tag))
      (hname : tag.name = name) (hne : name ∉ ["elseif", "elsif", "when"]) :
      token.blockTag? = none := by
    obtain rfl := Option.some.inj (here.symm.trans hereTag)
    exact Token.blockTag?_of_name hname hne
  cases h with
  | text hereText | object hereText =>
    obtain rfl := Option.some.inj (here.symm.trans hereText)
    rfl
  | callMixin hereTag name =>
    have hhead := head_of_handlerName name
    refine tagged hereTag rfl fun hmem => ?_
    have hall : ∀ name ∈ ["elseif", "elsif", "when"], name.toList.head? ≠ some '+' := by decide
    exact hall _ hmem hhead
  | assign hereTag name | capture hereTag name | raw hereTag name | comment hereTag name
  | script hereTag name | «break» hereTag name | «continue» hereTag name | mixin hereTag name
  | block hereTag name | trim hereTag name => exact tagged hereTag name (by decide)

/-- It is one share, reported at the token itself. -/
theorem Leaf.share {added : List Instruction} {j : Nat} (here : env.token? k = some token)
    (h : Leaf env L σ k added j) : ∃ share : Share, share.token = k ∧ share.Sound env ∧
      share.points = bodyPoints (some token.pos) added := by
  have hreported : ReportedAt env.tokens k token.pos := .own here (h.whole here)
  have hlength := h.length_le
  match added with
  | [] => exact hreported.share_nil
  | [i] =>
    rw [bodyPoints_singleton]
    have hleaf := instructionPoints_leaf (q := some token.pos) (h.not_block i List.mem_cons_self)
    rcases hleaf with hi | hi
    · rw [hi]
      exact hreported.share_nil
    · rw [hi]
      refine hreported.share [.run i] fun step hstep => ?_
      obtain rfl := List.mem_singleton.1 hstep
      exact ⟨σ, .leaf (h.mono fun _ _ => trivial) List.mem_cons_self⟩

theorem Token.opener_whole {tag : Tag} (h : tag.name ∈ blockTags) :
    (Token.tag tag).blockTag? = none := by
  have hall : ∀ name ∈ blockTags, name ∉ ["elseif", "elsif", "when"] := by decide
  exact Token.blockTag?_of_name rfl (hall _ h)

theorem Token.closer_whole {tag : Tag} (h : isCloser tag.name = true) :
    (Token.tag tag).blockTag? = none := by
  refine Token.blockTag?_of_name rfl fun hmem => ?_
  have hall : ∀ name ∈ ["elseif", "elsif", "when"], isCloser name = false := by decide
  rw [hall _ hmem] at h
  cases h

/-- So is the head of a block. -/
theorem Opens.share {kind : OpenKind} {tag : Tag} (here : env.token? k = some (.tag tag))
    (opener : tag.name = kind.opener) (h : Opens env L σ k kind) :
    ∃ share : Share, share.token = k ∧ share.Sound env ∧
      share.points = kind.points (some tag.pos) := by
  have hblock := (kind.opener_mem (by rintro rfl; cases h)).1
  have hreported : ReportedAt env.tokens k tag.pos :=
    .own here (Token.opener_whole (opener ▸ hblock))
  have hpoints : kind.points (some tag.pos) =
      (kind.pipelines.map Step.head).map fun step => (step, some tag.pos) := by
    cases h with
    | condition => rfl
    | case => rfl
    | loop =>
      rw [List.map_map]
      rfl
  rw [hpoints]
  refine hreported.share _ fun step hstep => ?_
  obtain ⟨p, hp, rfl⟩ := List.mem_map.1 hstep
  exact ⟨σ, .opens (h.mono fun _ _ => trivial) hp⟩

/-- The conditions and values behind the first ones are reported at the tag that opens their
block. -/
theorem Turns.share {kind next : OpenKind} {found : List Instruction} {opener : Tag} {j : Nat}
    (h : Turns env L σ k found kind next) (opens : env.token? j = some (.tag opener))
    (name : opener.name = kind.opener) (lt : j < k)
    (nested : WellNested TagRegistry.builtin.kinds (between env.tokens (j + 1) k)) :
    ∃ share : Share, share.token = k ∧ share.Sound env ∧
      next.points (some opener.pos) = kind.points (some opener.pos) ++
        (bodyPoints none found.reverse ++ share.points) := by
  have label {l : ArmLabel} (hl : Labels env L σ k l) (hcase : opener.name = "case") :
      ∃ share : Share, share.token = k ∧ share.Sound env ∧ share.points =
        (Checker.labelPipelines l).map fun p => (.head p, some opener.pos) := by
    cases hl with
    | @values tag values here name makes hsome =>
      have hpart : (Token.tag tag).blockTag? = some opener.name := by
        rw [Token.blockTag?, name, hcase]
        rfl
      obtain ⟨share, htoken, hsound, hpoints⟩ := (ReportedAt.opener here hpart opens lt nested).share
        (values.map .head) fun step hstep => by
          obtain ⟨p, hp, rfl⟩ := List.mem_map.1 hstep
          exact ⟨σ, .label ((Labels.values here name makes hsome).mono fun _ _ => trivial) hp⟩
      exact ⟨share, htoken, hsound, hpoints.trans (List.map_map ..)⟩
    | default here name =>
      exact (ReportedAt.own here (Token.blockTag?_of_name name (by decide))).share_nil
  cases h with
  | @elseIf tag branches p q negated here hname makes =>
    have hpart : (Token.tag tag).blockTag? = some opener.name := by
      rw [name]
      rcases hname with hname | hname <;> (rw [Token.blockTag?, hname]; rfl)
    obtain ⟨share, htoken, hsound, hpoints⟩ := (ReportedAt.opener here hpart opens lt nested).share
      [.head q] fun step hstep => by
        obtain rfl := List.mem_singleton.1 hstep
        exact ⟨σ, .elseIf here hname (makes.mono fun _ _ => trivial)⟩
    refine ⟨share, htoken, hsound, ?_⟩
    simp [hpoints, OpenKind.points, branchPoints_append, branchPoints]
  | otherwise here hname =>
    obtain ⟨share, htoken, hsound, hpoints⟩ :=
      (ReportedAt.own here (Token.blockTag?_of_name hname (by decide))).share_nil
    refine ⟨share, htoken, hsound, ?_⟩
    simp [hpoints, OpenKind.points, branchPoints_append, branchPoints]
  | firstArm blank labels =>
    obtain ⟨share, htoken, hsound, hpoints⟩ := label labels name
    refine ⟨share, htoken, hsound, ?_⟩
    rw [bodyPoints_of_isBlankBody blank, hpoints]
    simp [OpenKind.points]
  | arm labels =>
    obtain ⟨share, htoken, hsound, hpoints⟩ := label labels name
    refine ⟨share, htoken, hsound, ?_⟩
    rw [hpoints]
    simp [OpenKind.points, armPoints_append, armPoints]

end

/-! ## Positions of open blocks -/

/-- The position of the opener of an open block was noted last in the block around it, and what
stands between the opener and the token at an index is well nested. -/
inductive Marked (env : DraftEnv) : List OpenBlock → Nat → Prop where
  | ground {found : List Instruction} {below : List OpenBlock} {i : Nat} :
      Marked env (⟨.root, found⟩ :: below) i
  | block {kind around : OpenKind} {found before : List Instruction} {outer : List OpenBlock}
      {k i : Nat} {tag : Tag} (outside : Marked env (⟨around, before⟩ :: outer) k)
      (here : env.token? k = some (.tag tag)) (opener : tag.name = kind.opener)
      (inner : kind ≠ .root) (last : noted before = some tag.pos) (lt : k < i)
      (nested : WellNested TagRegistry.builtin.kinds (between env.tokens (k + 1) i)) :
      Marked env (⟨kind, found⟩ :: ⟨around, before⟩ :: outer) i

section

variable {env : DraftEnv} {L : String → Prop} {σ σ' : Scope} {i j k : Nat} {kind : OpenKind}
  {found : List Instruction} {outer stack' : List OpenBlock}

theorem stackPoints_cons (b : OpenBlock) (around : OpenKind) (before : List Instruction) :
    stackPoints (b :: ⟨around, before⟩ :: outer) = stackPoints (⟨around, before⟩ :: outer) ++
      (b.kind.points (noted before) ++ bodyPoints none b.body) := rfl

/-- The instructions of the innermost block do not matter, nor do well-nested tokens. -/
theorem Marked.refill (h : Marked env (⟨kind, found⟩ :: outer) i) (found' : List Instruction)
    (hle : i ≤ j) (hnested : WellNested TagRegistry.builtin.kinds (between env.tokens i j)) :
    Marked env (⟨kind, found'⟩ :: outer) j := by
  cases h with
  | ground => exact .ground
  | block outside here opener inner last lt nested =>
    refine .block outside here opener inner last (by omega) ?_
    rw [← between_append lt hle]
    exact nested.append hnested

/-- A block that is open up to its closing tag is well nested. -/
theorem wellNested_closed {opener closer : Tag} (hopener : env.token? k = some (.tag opener))
    (hname : opener.name = kind.opener) (hinner : kind ≠ .root) (hlt : k < i)
    (hnested : WellNested TagRegistry.builtin.kinds (between env.tokens (k + 1) i))
    (hcloser : env.token? i = some (.tag closer)) (hcloses : closer.name = closerOf kind.opener) :
    WellNested TagRegistry.builtin.kinds (between env.tokens k (i + 1)) := by
  obtain ⟨hblock, hlooked⟩ := kind.opener_mem hinner
  rw [← between_append (Nat.le_succ k) (by omega : k + 1 ≤ i + 1),
    ← between_append (by omega : k + 1 ≤ i) (Nat.le_succ i), between_succ hopener,
    between_succ hcloser]
  exact .block (mem_blockTags.2 (hname ▸ hblock)) (not_isVerbatim (hname ▸ hlooked)) hnested
    (hname ▸ hcloses) .nil

/-- A token is added to the open blocks with its share. -/
theorem Change.points {token : Token} (hkinds : env.kinds = TagRegistry.builtin.kinds)
    (h : Marked env (⟨kind, found⟩ :: outer) k) (here : env.token? k = some token)
    (hchange : Change env L σ k (⟨kind, Draft.markIn token.pos found⟩ :: outer) stack' σ' j) :
    Marked env stack' j ∧ ∃ share : Share, share.token = k ∧ share.Sound env ∧
      stackPoints stack' = stackPoints (⟨kind, found⟩ :: outer) ++ share.points := by
  cases hchange with
  | @leaf _ _ added _ _ leaf =>
    obtain ⟨hlt, _, hnested⟩ := leaf.wellNested hkinds
    obtain ⟨share, htoken, hsound, hpoints⟩ := leaf.share here
    refine ⟨h.refill _ (Nat.le_of_lt hlt) hnested, share, htoken, hsound, ?_⟩
    rw [stackPoints, stackPoints, OpenBlock.body, OpenBlock.body, List.reverse_append,
      List.reverse_reverse, bodyPoints_added, bodyPoints_markIn, noted_markIn, hpoints]
    simp only [List.append_assoc]
  | @opens _ next tag _ hereTag opener opens =>
    obtain rfl := Option.some.inj (here.symm.trans hereTag)
    obtain ⟨share, htoken, hsound, hpoints⟩ := opens.share hereTag opener
    have hmarked := h.refill (Draft.markIn tag.pos found) (Nat.le_refl k)
      (by rw [between_self]; exact .nil)
    refine ⟨.block hmarked hereTag opener (by rintro rfl; cases opens) (noted_markIn _ _)
      (Nat.lt_succ_self k) (by rw [between_self]; exact .nil), share, htoken, hsound, ?_⟩
    have hlast : noted (Draft.markIn (Token.tag tag).pos found) = some tag.pos := noted_markIn _ _
    rw [stackPoints_cons, hlast, hpoints, stackPoints, stackPoints]
    simp [OpenBlock.body, bodyPoints_markIn, bodyPoints]
  | @turns _ next _ _ turns =>
    cases h with
    | ground => cases turns
    | @block _ around _ before outer j _ tag outside hereTag opener inner last lt nested =>
      obtain ⟨share, htoken, hsound, hpoints⟩ := turns.share hereTag opener lt nested
      have hopener : next.opener = kind.opener ∧ next ≠ .root := by
        cases turns <;> exact ⟨rfl, fun h => by cases h⟩
      have hnested : WellNested TagRegistry.builtin.kinds (between env.tokens (j + 1) (k + 1)) := by
        rw [← between_append lt (Nat.le_succ k)]
        exact nested.append turns.wellNested.2.2
      refine ⟨.block outside hereTag (opener.trans hopener.1.symm) hopener.2 last
        (Nat.lt_succ_of_lt lt) hnested, share, htoken, hsound, ?_⟩
      rw [stackPoints_cons, stackPoints_cons, last, hpoints]
      simp [OpenBlock.body, bodyPoints_markIn, bodyPoints]
  | @closes _ around before content outer tag instruction hereTag closer complete =>
    cases h with
    | ground => cases complete
    | @block _ _ _ _ _ j _ openTag outside hereOpener opener inner last lt nested =>
      have hregion := wellNested_closed hereOpener opener inner lt nested hereTag closer
      have hreported : ReportedAt env.tokens k tag.pos :=
        .own hereTag (Token.closer_whole (closer ▸ isCloser_closerOf _))
      obtain ⟨share, htoken, hsound, hpoints⟩ := hreported.share_nil
      refine ⟨outside.refill _ (by omega) hregion, share, htoken, hsound, ?_⟩
      rw [stackPoints_cons, stackPoints, stackPoints, last, hpoints]
      simp only [OpenBlock.body, List.reverse_cons, bodyPoints_added, bodyPoints_singleton, last,
        OpenKind.points_complete complete, bodyPoints_markIn, List.append_assoc, List.append_nil]

end

/-! ## Bodies -/

theorem Draft.stack_mark {env : DraftEnv} (hpositions : env.positions = true) (d : Draft)
    (pos : Pos) :
    (d.mark env pos).stack = ⟨d.top.kind, markIn pos d.top.found⟩ :: d.stack.tail := by
  rw [mark, if_pos hpositions, stack_setTop]

namespace Generator

variable {g : Generator} {d₀ d d' : Draft} {τ : Scope} {start stop : Nat}
  {below : List OpenBlock}

/-- A token adds its share. -/
theorem step_points {token : Token} (hg : g.IsBuiltin) (hpositions : g.env.positions = true)
    (hends : Ends g.env start below stop) (h : Going g.env d₀ (fun _ _ => True) τ start below d)
    (hmarked : Marked g.env d.stack d.idx) (hlt : d.idx < stop)
    (here : g.env.token? d.idx = some token) (hstep : g.step token d = .ok d') :
    Marked g.env d'.stack d'.idx ∧ ∃ share : Share, share.token = d.idx ∧ share.Sound g.env ∧
      stackPoints d'.stack = stackPoints d.stack ++ share.points := by
  have hchange := ((step_effect hg hends h hlt here trivial).get hstep).change
  rw [Draft.stack_mark hpositions, Draft.idx_mark] at hchange
  rw [Draft.stack_eq] at hmarked
  rw [Draft.stack_eq d]
  exact hchange.points hg.kinds hmarked here

/-- The tokens of a body add their shares, in their order. -/
theorem generateRange_points (hg : g.IsBuiltin) (hpositions : g.env.positions = true)
    (hτ : 0 < τ.depth) (hends : Ends g.env start below stop)
    (h : Going g.env d₀ (fun _ _ => True) τ start below d) (hmarked : Marked g.env d.stack d.idx)
    (hrange : g.generateRange stop d = .ok d') :
    ∃ shares : List Share, shares.map Share.token = g.handledIn stop d ∧
      (∀ share ∈ shares, share.Sound g.env) ∧
      stackPoints d'.stack = stackPoints d.stack ++ shares.flatMap Share.points := by
  have hnone : ∃ shares : List Share, shares.map Share.token = [] ∧
      (∀ share ∈ shares, share.Sound g.env) ∧
      stackPoints d.stack = stackPoints d.stack ++ shares.flatMap Share.points :=
    ⟨[], rfl, fun _ hshare => absurd hshare List.not_mem_nil, (List.append_nil _).symm⟩
  fun_induction generateRange g stop d with
  | case1 d hlt hend =>
    obtain rfl := Except.ok.inj hrange
    rw [handledIn, dif_pos hlt]
    simpa only [hend] using hnone
  | case2 | case4 => cases hrange
  | case3 d hlt token here next hstep hnext ih =>
    have hgoing := (step_settles hg hτ hends h hlt here trivial).get hstep
    obtain ⟨hmarked', share, htoken, hsound, hpoints⟩ :=
      step_points hg hpositions hends h hmarked hlt here hstep
    obtain ⟨shares, htokens, hall, hrest⟩ := ih hgoing hmarked' hrange
      ⟨[], rfl, fun _ hshare => absurd hshare List.not_mem_nil, (List.append_nil _).symm⟩
    refine ⟨share :: shares, ?_, List.forall_mem_cons.2 ⟨hsound, hall⟩, ?_⟩
    · rw [handledIn, dif_pos hlt]
      simp only [here, hstep, dif_pos hnext, List.map_cons, htoken, htokens]
    · rw [hrest, hpoints, List.flatMap_cons, List.append_assoc]
  | case5 d hlt =>
    obtain rfl := Except.ok.inj hrange
    rw [handledIn, dif_neg hlt]
    exact hnone

/-- A body that is generated is written by the tokens that are handled in it. -/
theorem Begins.written {before : List Nat} {found : List Instruction} {rest : List OpenBlock}
    (hg : g.IsBuiltin) (hpositions : g.env.positions = true) (h : g.Begins before start stop d)
    (hrange : g.generateRange stop d = .ok d') (hstack : d.stack = ⟨.root, []⟩ :: rest)
    (hstack' : d'.stack = ⟨.root, found⟩ :: rest) :
    ∃ shares, WrittenIn g.env (g.handledIn stop d) shares found.reverse := by
  obtain ⟨τ, below, hτ, hends, _, _, hgoing⟩ := h.going hg
  have hmarked : Marked g.env d.stack d.idx := hstack ▸ .ground
  obtain ⟨shares, htokens, hsound, hpoints⟩ :=
    generateRange_points hg hpositions hτ hends hgoing hmarked hrange
  refine ⟨shares, htokens, hsound, ?_⟩
  rw [hstack, hstack'] at hpoints
  simpa [stackPoints, OpenKind.points, OpenBlock.body, bodyPoints] using hpoints

/-! ## Programs -/

/-- The tokens that are handled between two indices make a body. -/
def Writes (g : Generator) (shares : List Share) (body : List Instruction) : Prop :=
  ∃ before start stop d, g.Begins before start stop d ∧
    WrittenIn g.env (g.handledIn stop d) shares body

/-- All bodies of a program are written. -/
theorem generate_writes {made : Generated} (hg : g.IsBuiltin) (hpositions : g.env.positions = true)
    (h : g.generate = .ok made) :
    ∀ body ∈ Checker.bodiesOf made.program, ∃ shares, g.Writes shares body :=
  generate_forall hg h fun _ _ _ _ _ _ _ hbegins hrange hstack hstack' =>
    (hbegins.written hg hpositions hrange hstack hstack').imp fun _ hwritten =>
      ⟨_, _, _, _, hbegins, hwritten⟩

end Generator

end Stencil
