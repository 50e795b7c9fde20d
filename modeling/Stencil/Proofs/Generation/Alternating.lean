import Mathlib.Data.List.Chain
import Stencil.Proofs.Generation.Jumps
import Stencil.Proofs.Generation.Layered
import Stencil.Proofs.Program.Unmarked

/-!
# Positions alternate with instructions

Every token notes its position in the innermost block before its handler opens, turns or closes one, and
the position takes the place of the last one if nothing was written in between. In the end every other
instruction stands right behind a position, which is that of the token that started it.

* `Alternates` says so of a body and of all bodies in it, with the tokens in their order.
* `Alternates.mark`, `Alternates.append`: how a body is written.
* `Generator.keeps_interleaved`: what every token keeps up of the open blocks. A block that is complete is
  an instruction behind the position of its opener, for the block around has waited since.
* `generate_alternates`: so it is in all bodies of a program.
-/

namespace Stencil

/-! ## Bodies -/

mutual

/-- In a body, positions and other instructions take turns, a position first. The other instructions
there, and in the bodies that they have, were started by the tokens in the list. -/
inductive Alternates (S : Nat → Pos → Instruction → Prop) : List Nat → List Instruction → Prop
  | nil : Alternates S [] []
  | position (pos : Pos) : Alternates S [] [.position pos]
  | entry {k : Nat} {pos : Pos} {x : Instruction} {inside ks : List Nat} {rest : List Instruction}
      (other : x.isPosition = false) (starts : S k pos x) (within : AlternatesAll S inside x.bodies)
      (behind : Alternates S ks rest) : Alternates S (k :: (inside ++ ks)) (.position pos :: x :: rest)

/-- So it is in some bodies, one behind the other. -/
inductive AlternatesAll (S : Nat → Pos → Instruction → Prop) :
    List Nat → List (List Instruction) → Prop
  | nil : AlternatesAll S [] []
  | cons {ks more : List Nat} {body : List Instruction} {bodies : List (List Instruction)}
      (first : Alternates S ks body) (rest : AlternatesAll S more bodies) :
      AlternatesAll S (ks ++ more) (body :: bodies)

end

/-- The first instruction of a body is a position, and of two neighbours one is. -/
structure TakesTurns (body : List Instruction) : Prop where
  first : ∀ x ∈ body.head?, x.isPosition = true
  next : body.IsChain fun x y => y.isPosition = !x.isPosition

/-- Tokens that follow each other in a range. -/
structure Ascends (start stop : Nat) (ks : List Nat) : Prop where
  increasing : ks.Pairwise (· < ·)
  within : ∀ k ∈ ks, start ≤ k ∧ k < stop

namespace Ascends

variable {start mid stop stop' k : Nat} {ks ls : List Nat}

theorem nil (start stop : Nat) : Ascends start stop [] := ⟨.nil, fun _ h => absurd h List.not_mem_nil⟩

theorem mono (h : Ascends start stop ks) (hle : stop ≤ stop') : Ascends start stop' ks :=
  ⟨h.increasing, fun k hk => ⟨(h.within k hk).1, Nat.lt_of_lt_of_le (h.within k hk).2 hle⟩⟩

theorem left (h : Ascends start stop (ks ++ ls)) : Ascends start stop ks :=
  ⟨(List.pairwise_append.1 h.increasing).1, fun k hk => h.within k (List.mem_append_left _ hk)⟩

theorem right (h : Ascends start stop (ks ++ ls)) : Ascends start stop ls :=
  ⟨(List.pairwise_append.1 h.increasing).2.1, fun k hk => h.within k (List.mem_append_right _ hk)⟩

theorem append (h : Ascends start mid ks) (h' : Ascends mid stop ls) (hstart : start ≤ mid)
    (hstop : mid ≤ stop) : Ascends start stop (ks ++ ls) where
  increasing := List.pairwise_append.2 ⟨h.increasing, h'.increasing, fun k hk l hl =>
    Nat.lt_of_lt_of_le (h.within k hk).2 (h'.within l hl).1⟩
  within k hk := by
    rcases List.mem_append.1 hk with hk | hk
    · have := h.within k hk
      omega
    · have := h'.within k hk
      omega

theorem cons (h : Ascends (k + 1) stop ks) (hlt : k < stop) : Ascends k stop (k :: ks) where
  increasing := .cons (fun l hl => (h.within l hl).1) h.increasing
  within l hl := by
    rcases List.mem_cons.1 hl with rfl | hl
    · exact ⟨Nat.le_refl _, hlt⟩
    · have := h.within l hl
      omega

end Ascends

section

variable {S : Nat → Pos → Instruction → Prop} {ks ls : List Nat} {pos : Pos} {x : Instruction}
  {body more : List Instruction} {bodies others : List (List Instruction)}

/-- Induction along a body; the bodies of its instructions stay apart. -/
@[elab_as_elim]
theorem Alternates.induct
    {motive : (ks : List Nat) → (body : List Instruction) → Alternates S ks body → Prop}
    (nil : motive [] [] .nil) (position : ∀ pos, motive [] [.position pos] (.position pos))
    (entry : ∀ {k pos x inside ks rest} (other : x.isPosition = false) (starts : S k pos x)
      (within : AlternatesAll S inside x.bodies) (behind : Alternates S ks rest),
      motive ks rest behind →
      motive (k :: (inside ++ ks)) (.position pos :: x :: rest) (.entry other starts within behind))
    (h : Alternates S ks body) : motive ks body h :=
  @Alternates.rec S motive (fun _ _ _ => True) nil position
    (fun other starts within behind _ ih => entry other starts within behind ih) trivial
    (fun _ _ _ _ => trivial) ks body h

/-- A body goes on behind its last position, or with another position. -/
theorem Alternates.append {before : List Instruction}
    (h : Alternates S ks (before ++ [.position pos])) (h' : Alternates S ls more) :
    Alternates S (ks ++ ls) (before ++ more) := by
  generalize hbody : before ++ [.position pos] = body at h
  induction h using Alternates.induct generalizing before with
  | nil => simp at hbody
  | position q =>
    have hnil : before ++ [.position pos] = [] ++ [.position q] := hbody
    obtain ⟨rfl, _⟩ := List.append_inj' hnil rfl
    exact h'
  | @entry k q x inside ks rest other starts within behind ih =>
    match before with
    | [] => cases hbody
    | [_] => cases hbody; cases other
    | _ :: _ :: before =>
      cases hbody
      rw [List.cons_append, List.append_assoc]
      exact .entry other starts within (ih rfl)

/-- A position may follow, unless one is there already: then it may be another one. -/
theorem Alternates.settled (h : Alternates S ks body) : ∃ front,
    (body = front ∨ ∃ q, body = front ++ [.position q]) ∧
      (∀ x ∈ front.getLast?, x.isPosition = false) ∧
      ∀ pos, Alternates S ks (front ++ [.position pos]) := by
  induction h using Alternates.induct with
  | nil => exact ⟨[], .inl rfl, fun _ hx => (by cases hx), fun pos => .position pos⟩
  | position q => exact ⟨[], .inr ⟨q, rfl⟩, fun _ hx => (by cases hx), fun pos => .position pos⟩
  | @entry k q x inside ks rest other starts within behind ih =>
    obtain ⟨front, hrest, hlast, hnext⟩ := ih
    refine ⟨.position q :: x :: front, ?_, ?_, fun pos => .entry other starts within (hnext pos)⟩
    · rcases hrest with rfl | ⟨p, rfl⟩
      · exact .inl rfl
      · exact .inr ⟨p, rfl⟩
    · intro y hy
      rw [List.getLast?_cons_cons, List.getLast?_cons] at hy
      cases hfront : front.getLast? with
      | none =>
        rw [hfront] at hy
        cases hy
        exact other
      | some z =>
        rw [hfront] at hy
        cases hy
        exact hlast _ hfront

/-- A position is written where the body goes on. -/
theorem Alternates.mark {found : List Instruction} (h : Alternates S ks found.reverse) (pos : Pos) :
    ∃ front, (Draft.markIn pos found).reverse = front ++ [.position pos] ∧
      Alternates S ks (front ++ [.position pos]) := by
  obtain ⟨front, hfound, hlast, hnext⟩ := h.settled
  refine ⟨front, ?_, hnext pos⟩
  rcases hfound with hfound | ⟨q, hfound⟩
  · obtain rfl : found = front.reverse := by rw [← hfound, List.reverse_reverse]
    have hmark : Draft.markIn pos front.reverse = .position pos :: front.reverse := by
      unfold Draft.markIn
      split
      · next q rest hreverse =>
        have hq := hlast (.position q) (by rw [← List.head?_reverse, hreverse]; rfl)
        cases hq
      · rfl
    rw [hmark, List.reverse_cons, List.reverse_reverse]
  · obtain rfl : found = .position q :: front.reverse := by
      rw [← List.reverse_reverse found, hfound, List.reverse_append]
      rfl
    exact (List.reverse_cons ..).trans (by rw [List.reverse_reverse])

/-- Two neighbours are never alike. -/
theorem Alternates.takesTurns (h : Alternates S ks body) : TakesTurns body := by
  induction h using Alternates.induct with
  | nil => exact ⟨fun _ hx => (by cases hx), .nil⟩
  | position pos => exact ⟨fun _ hx => (by cases hx; rfl), .singleton _⟩
  | @entry k pos x inside ks rest other starts within behind ih =>
    refine ⟨fun _ hx => (by cases hx; rfl), .cons_cons (by rw [other]; rfl) ?_⟩
    exact ih.next.cons fun y hy => by rw [ih.first y hy, other]; rfl

/-- The bodies in a body alternate as well. -/
theorem Alternates.bodies_of_mem (h : Alternates S ks body) (hx : x ∈ body) :
    ∃ inside, AlternatesAll S inside x.bodies := by
  induction h using Alternates.induct with
  | nil => exact absurd hx List.not_mem_nil
  | position pos =>
    rw [List.mem_singleton.1 hx]
    exact ⟨[], .nil⟩
  | entry other starts within behind ih =>
    rcases List.mem_cons.1 hx with rfl | hx
    · exact ⟨[], .nil⟩
    · rcases List.mem_cons.1 hx with rfl | hx
      · exact ⟨_, within⟩
      · exact ih hx

theorem AlternatesAll.of_mem (h : AlternatesAll S ks bodies) (hbody : body ∈ bodies) :
    ∃ ls, Alternates S ls body := by
  induction bodies generalizing ks with
  | nil => exact absurd hbody List.not_mem_nil
  | cons b bodies ih =>
    cases h with
    | cons first rest =>
      rcases List.mem_cons.1 hbody with rfl | hbody
      · exact ⟨_, first⟩
      · exact ih rest hbody

/-- So do those that stand deeper. -/
theorem Alternates.within {inner : List Instruction} (h : Alternates S ks body) (hx : Occurs x body)
    (hinner : inner ∈ x.bodies) : ∃ ls, Alternates S ls inner := by
  induction hx generalizing ks with
  | here mem =>
    obtain ⟨inside, hall⟩ := h.bodies_of_mem mem
    exact hall.of_mem hinner
  | inside mem within _ ih =>
    obtain ⟨inside, hall⟩ := h.bodies_of_mem mem
    obtain ⟨ls, hbody⟩ := hall.of_mem within
    exact ih hbody

theorem Alternates.single (h : Alternates S ks body) : AlternatesAll S ks [body] := by
  have hall := AlternatesAll.cons h .nil
  rwa [List.append_nil] at hall

theorem AlternatesAll.append (h : AlternatesAll S ks bodies) (h' : AlternatesAll S ls others) :
    AlternatesAll S (ks ++ ls) (bodies ++ others) := by
  induction bodies generalizing ks with
  | nil =>
    cases h
    exact h'
  | cons b bodies ih =>
    cases h with
    | cons first rest =>
      rw [List.append_assoc]
      exact .cons first (ih rest)

/-- The last of some bodies has the last of the tokens. -/
theorem AlternatesAll.split (h : AlternatesAll S ks (bodies ++ [body])) :
    ∃ front last, ks = front ++ last ∧ AlternatesAll S front bodies ∧ Alternates S last body := by
  induction bodies generalizing ks with
  | nil =>
    cases h with
    | cons first rest =>
      cases rest
      exact ⟨[], _, List.append_nil _, .nil, first⟩
  | cons b bodies ih =>
    cases h with
    | cons first rest =>
      obtain ⟨front, last, rfl, hfront, hlast⟩ := ih rest
      exact ⟨_, last, (List.append_assoc ..).symm, .cons first hfront, hlast⟩

end

/-! ## Open blocks -/

/-- The bodies of a block are those that were complete, and the last one. -/
theorem OpenKind.bodies_complete {kind : OpenKind} {content : List Instruction} {x : Instruction}
    (h : kind.complete? content = some x) : x.bodies = kind.bodies.reverse ++ [content.reverse] := by
  cases kind with
  | root => cases h
  | condition kind branches current =>
    cases current <;> cases h <;> simp [Instruction.bodies, bodies]
  | case subject arms current =>
    cases current with
    | none => cases h
    | some label =>
      cases h
      simp [Instruction.bodies, bodies]
  | loop =>
    cases h
    rfl

/-- Another branch or arm completes the one before, or drops what only was blank. -/
theorem Turns.bodies_eq {env : DraftEnv} {L : String → Prop} {σ : Scope} {i : Nat}
    {found : List Instruction} {kind next : OpenKind} (h : Turns env L σ i found kind next) :
    next.bodies = kind.bodies ∨ next.bodies = found.reverse :: kind.bodies := by
  cases h with
  | firstArm => exact .inl rfl
  | elseIf | otherwise | arm => exact .inr rfl

/-- What a token adds by itself is no position. -/
theorem Leaf.isPosition {env : DraftEnv} {L : String → Prop} {σ : Scope} {i j : Nat}
    {x : Instruction} (h : Leaf env L σ i [x] j) : x.isPosition = false := by
  generalize hadded : [x] = added at h
  cases h with
  | text | raw =>
    split at hadded
    · cases hadded
    · cases hadded
      rfl
  | block _ _ _ adds =>
    rcases adds with rfl | rfl
    · cases hadded
    · cases hadded
      rfl
  | comment | mixin | trim => cases hadded
  | object | assign | capture | script | «break» | «continue» | callMixin =>
    cases hadded
    rfl

namespace Draft

variable {env : DraftEnv}

theorem found_mark (hpositions : env.positions = true) (d : Draft) (pos : Pos) :
    (d.mark env pos).top.found = markIn pos d.top.found := by
  rw [top_of_stack (d.stack_mark hpositions pos)]

/-- An instruction stands behind the position that has been noted for it. -/
theorem stack_emit_mark (d : Draft) (env : DraftEnv) (pos : Pos) (x : Instruction) :
    ((d.mark env pos).emit x).stack =
      ⟨d.top.kind, x :: (d.mark env pos).top.found⟩ :: d.stack.tail := by
  have hmark := d.stack_mark_eq env pos
  have hkind : (d.mark env pos).top.kind = d.top.kind := by rw [top_of_stack hmark]
  rw [emit, stack_setTop, hmark, ← hkind]
  rfl

end Draft

namespace Generator

/-- The token at an index starts an instruction in the body that begins with the draft `d₀`. The
generator comes to the token, where the position of the token is noted in the innermost block; and when
it has passed the token, or the tokens up to the closing tag if a block is opened, the instruction is
behind the position. -/
inductive Starts (g : Generator) (d₀ : Draft) (k : Nat) (pos : Pos) (x : Instruction) : Prop where
  | token {d next : Draft} {token : Token} (passes : g.Passes d₀ d token next) (idx : d.idx = k)
      (at_token : token.pos = pos) (alone : x.isBlock = false)
      (adds : next.stack = ((d.mark g.env pos).emit x).stack)
  | block {d next : Draft} {tag : Tag} {kind : OpenKind} {content : List Instruction} {stop : Nat}
      (reached : g.generateRange d.idx d₀ = .ok d) (idx : d.idx = k)
      (here : g.env.token? k = some (.tag tag)) (at_opener : tag.pos = pos)
      (opener : tag.name = kind.opener) (complete : kind.complete? content = some x)
      (closes : closingTag g.env.kinds g.env.tokens (closerOf tag.name) k = .ok stop)
      (passed : g.generateRange (stop + 1) d = .ok next)
      (adds : next.stack = ((d.mark g.env pos).emit x).stack)

variable {g : Generator} {d₀ : Draft}

/-- The bodies of an open block alternate, and were started by tokens between two indices. -/
def Interleaved (g : Generator) (d₀ : Draft) (first : Nat) (b : OpenBlock) (i : Nat) : Prop :=
  ∃ ks, AlternatesAll (g.Starts d₀) ks (b.kind.bodies.reverse ++ [b.found.reverse]) ∧
    first ≤ i ∧ Ascends first i ks

/-- With its position, the innermost block is ready for an instruction. -/
theorem Interleaved.mark (hpositions : g.env.positions = true) {first : Nat} {d : Draft} (pos : Pos)
    (h : g.Interleaved d₀ first d.top d.idx) : ∃ front last before,
      AlternatesAll (g.Starts d₀) front d.top.kind.bodies.reverse ∧
      (d.mark g.env pos).top.found.reverse = before ++ [.position pos] ∧
      Alternates (g.Starts d₀) last (before ++ [.position pos]) ∧ first ≤ d.idx ∧
      Ascends first d.idx (front ++ last) := by
  obtain ⟨ks, hall, hle, hascends⟩ := h
  obtain ⟨front, last, rfl, hfront, hlast⟩ := hall.split
  obtain ⟨before, hfound, hmarked⟩ := hlast.mark pos
  rw [← d.found_mark hpositions pos] at hfound
  exact ⟨front, last, before, hfront, hfound, hmarked, hle, hascends⟩

/-- An instruction is added behind the position of the token that started it. -/
theorem Interleaved.add (hpositions : g.env.positions = true) {first stop : Nat} {d : Draft}
    {pos : Pos} {x : Instruction} {inside : List Nat} (h : g.Interleaved d₀ first d.top d.idx)
    (other : x.isPosition = false) (starts : g.Starts d₀ d.idx pos x)
    (within : AlternatesAll (g.Starts d₀) inside x.bodies) (hlt : d.idx < stop)
    (hinside : Ascends (d.idx + 1) stop inside) :
    g.Interleaved d₀ first ⟨d.top.kind, x :: (d.mark g.env pos).top.found⟩ stop := by
  obtain ⟨front, last, before, hfront, hfound, hlast, hle, hascends⟩ := h.mark hpositions pos
  have hentry := hlast.append (.entry other starts within .nil)
  refine ⟨front ++ (last ++ (d.idx :: (inside ++ []))), ?_, by omega, ?_⟩
  · rw [List.reverse_cons, hfound, List.append_assoc]
    exact hfront.append hentry.single
  · rw [List.append_nil, ← List.append_assoc]
    exact hascends.append (hinside.cons hlt) hle (Nat.le_of_lt hlt)

/-- Every token keeps it up that positions and instructions take turns. -/
theorem keeps_interleaved (hg : g.IsBuiltin) (hpositions : g.env.positions = true) :
    g.Keeps d₀ (g.Interleaved d₀) where
  leaf {first d token next added} hpasses h hleaf hstack := by
    obtain ⟨hlt, _⟩ := hleaf.wellNested hg.kinds
    have hlength := hleaf.length_le
    match added with
    | [] =>
      -- The position stays, and the next token replaces it.
      obtain ⟨front, last, before, hfront, hfound, hlast, hle, hascends⟩ :=
        h.mark hpositions token.pos
      refine ⟨front ++ last, ?_, by omega, hascends.mono (Nat.le_of_lt hlt)⟩
      rw [← hfound] at hlast
      exact hfront.append hlast.single
    | [x] =>
      have halone := hleaf.not_block x List.mem_cons_self
      have hstarts : g.Starts d₀ d.idx token.pos x :=
        .token hpasses rfl rfl halone (by rw [Draft.stack_emit_mark]; exact hstack)
      have hwithin : AlternatesAll (g.Starts d₀) [] x.bodies := by
        rw [Instruction.bodies_eq_nil halone]
        exact .nil
      exact h.add hpositions hleaf.isPosition hstarts hwithin hlt (.nil _ _)
  opens hopens := by
    refine ⟨[], ?_, Nat.le_refl _, .nil _ _⟩
    rw [hopens.formed.2]
    exact .cons .nil .nil
  turns {first d token next L σ kind} hpasses h hturns := by
    obtain ⟨front, last, before, hfront, hfound, hlast, hle, hascends⟩ := h.mark hpositions token.pos
    rcases hturns.bodies_eq with hbodies | hbodies
    · -- What stood before the first arm is dropped, with its tokens.
      refine ⟨front, ?_, by omega, hascends.left.mono (Nat.le_succ _)⟩
      have hall := hfront.append (Alternates.single .nil)
      rw [List.append_nil] at hall
      rw [hbodies]
      exact hall
    · refine ⟨front ++ last, ?_, by omega, hascends.mono (Nat.le_succ _)⟩
      have hall := (hfront.append hlast.single).append (Alternates.single .nil)
      rw [List.append_nil, ← hfound, ← List.reverse_cons, ← hbodies] at hall
      exact hall
  closes {first d token next opened opener x} hpasses h hreached h₀ hopens hcloses hcomplete hnext
      hstack := by
    obtain ⟨front, last, before, hfront, hfound, hlast, hle, hascends⟩ := h.mark hpositions token.pos
    have hpassed : g.generateRange (d.idx + 1) opened = .ok next := by
      have hall := hpasses.reached_next (by omega)
      rw [hnext, generateRange_split (Nat.le_succ_of_le (Nat.le_of_lt hopens.lt)), hreached] at hall
      exact hall
    -- The block around has waited since the opener was handled, and the position of the opener with it.
    have hstarts : g.Starts d₀ opened.idx opener.pos x :=
      .block hreached rfl hopens.here rfl hopens.opener hcomplete hcloses hpassed
        (by rw [Draft.stack_emit_mark]; exact hstack)
    have hblock : x.isPosition = false := by
      have := OpenKind.isBlock_complete hcomplete
      cases x <;> first | rfl | cases this
    refine h₀.add hpositions hblock hstarts ?_ (by have := hopens.lt; omega)
      (hascends.mono (Nat.le_succ _))
    rw [OpenKind.bodies_complete hcomplete, hfound]
    exact hfront.append hlast.single

/-! ## Programs -/

/-- A body that is generated alternates, and was started by its tokens. -/
theorem Begins.interleaved {before : List Nat} {start stop : Nat} {d' : Draft}
    {found : List Instruction} {rest : List OpenBlock} (hg : g.IsBuiltin)
    (hpositions : g.env.positions = true) (h : g.Begins before start stop d₀)
    (hrange : g.generateRange stop d₀ = .ok d') (hstack : d'.stack = ⟨.root, found⟩ :: rest) :
    ∃ ks, Alternates (g.Starts d₀) ks found.reverse ∧ Ascends start stop ks := by
  have hidx := (h.rests hg hrange).1
  have hstart : g.Interleaved d₀ start ⟨.root, []⟩ start :=
    ⟨[], .cons .nil .nil, Nat.le_refl _, .nil _ _⟩
  obtain ⟨_, first, hlayered, hinside⟩ := h.layered hg (keeps_interleaved hg hpositions) hstart
    (Nat.le_of_eq hidx) (hidx ▸ hrange)
  rw [hstack] at hlayered
  obtain rfl := hlayered.first_eq
  rw [Draft.top_of_stack hstack, hidx] at hinside
  obtain ⟨_, hall, _, hascends⟩ := hinside
  obtain ⟨front, last, rfl, _, hlast⟩ := hall.split
  exact ⟨last, hlast, hascends.right⟩

end Generator

/-- With positions, every body of a program, however deep, begins with a position, and of two
neighbours in it exactly one is a position. The instructions that a body was made of when its tokens were
generated, and those in their bodies, were started by different tokens, in their order, and each stands
behind the position of its token: that of the opener, if it is a block. -/
theorem generate_alternates (tokens : List Token) (files : Files) (made : Generated)
    (hmade : generate tokens files .builtin true = .ok made) :
    ∃ sites, blockSites TagRegistry.builtin.kinds tokens = .ok sites ∧
      let g := builtinGenerator tokens files true sites
      ∀ body ∈ Checker.bodiesOf made.program, TakesTurns body ∧
        (∀ x, Occurs x body → ∀ inner ∈ x.bodies, TakesTurns inner) ∧
        ∃ before start stop d d' rest ks, g.Begins before start stop d ∧
          g.generateRange stop d = .ok d' ∧ d'.stack = ⟨.root, body.reverse⟩ :: rest ∧
          Alternates (g.Starts d) ks body ∧ Ascends start stop ks := by
  obtain ⟨sites, hsites, _⟩ := (generate_settles tokens files true).get hmade
  rw [generate_eq hsites] at hmade
  have hg : (builtinGenerator tokens files true sites).IsBuiltin := ⟨rfl, rfl⟩
  refine ⟨sites, hsites, Generator.generate_forall hg hmade ?_⟩
  intro before start stop d d' found rest hbegins hrange _ hstack
  obtain ⟨ks, halternates, hascends⟩ := hbegins.interleaved hg rfl hrange hstack
  refine ⟨halternates.takesTurns, fun x hx inner hinner => ?_, before, start, stop, d, d', rest, ks,
    hbegins, hrange, ?_, halternates, hascends⟩
  · obtain ⟨_, hwithin⟩ := halternates.within hx hinner
    exact hwithin.takesTurns
  · rw [List.reverse_reverse]
    exact hstack

/-- A condition with a comment at the end of a branch, and a text behind it. -/
def commentInCondition : List Token :=
  [tagAt 0 "if" "x" "\x7b% if x %\x7d", .raw "a" ⟨stringFile, 10⟩,
    tagAt 11 "comment" "" "\x7b% comment %\x7d", tagAt 24 "endcomment" "" "\x7b% endcomment %\x7d",
    tagAt 40 "else" "" "\x7b% else %\x7d", .raw "b" ⟨stringFile, 50⟩,
    tagAt 51 "endif" "" "\x7b% endif %\x7d", .raw "c" ⟨stringFile, 62⟩]

theorem generate_alternates_commentInCondition :
    ∃ made, generate commentInCondition {} .builtin true = .ok made ∧
      made.program.body.map Instruction.notes? =
        [some ⟨stringFile, 0⟩, none, some ⟨stringFile, 62⟩, none] ∧
      TakesTurns made.program.body ∧
      ∀ x, Occurs x made.program.body → ∀ inner ∈ x.bodies, TakesTurns inner := by
  have hcomputed : (generate commentInCondition {} .builtin true).toOption.map
      (·.program.body.map Instruction.notes?) =
        some [some ⟨stringFile, 0⟩, none, some ⟨stringFile, 62⟩, none] := by
    decide +kernel
  obtain ⟨made, hmade, hnotes⟩ := ok_of_toOption_map hcomputed
  obtain ⟨_, _, hbodies⟩ := generate_alternates commentInCondition {} made hmade
  obtain ⟨hturns, hinner, _⟩ := (Checker.forall_mem_bodiesOf.1 hbodies).1
  exact ⟨made, hmade, hnotes, hturns, hinner⟩

end Stencil
