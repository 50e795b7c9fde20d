import Stencil.Proofs.Generation.Handled

/-!
# Texts that are trimmed

`trim` leaves a note for the next token, whichever that is. Inside a body that is the token behind the
tag. Where a body ends with the tag, the note is still there when the next body begins, and that is
some other place of the template.

* `Change.trims`: a handler stops behind its own token or behind a closing tag.
* `Generator.tracks_trim`: the note is there exactly if the token handled last was `trim`.
* `raw_trimmed`: so a text is trimmed behind `trim` in its body, and where its body begins if the one
  that was generated before ended with `trim`.
-/

namespace Stencil

/-- Whether the token at an index is `trim`. -/
def DraftEnv.trims (env : DraftEnv) (k : Nat) : Bool := (env.token? k).any Token.isTrim

/-! ## Where handlers stop -/

section

variable {env : DraftEnv} {L : String → Prop} {σ σ' : Scope} {i j stop : Nat}

theorem DraftEnv.trims_of_name {tag : Tag} {name : String} (here : env.token? i = some (.tag tag))
    (hname : tag.name = name) (hne : name ≠ "trim") : env.trims i = false := by
  subst hname
  rw [trims, here]
  exact beq_eq_false_iff_ne.2 hne

theorem DraftEnv.trims_of_closingTag {name : String} (hne : name ≠ "trim")
    (closes : closingTag env.kinds env.tokens name i = .ok stop) : env.trims stop = false := by
  obtain ⟨_, closer, hcloser, hname⟩ := wellNested_of_closingTag closes
  exact env.trims_of_name hcloser hname hne

theorem DraftEnv.trims_of_verbatimEnd {opener : String} (hne : closerOf opener ≠ "trim")
    (ends : verbatimEnd? env.tokens opener i = some stop) : env.trims stop = false := by
  obtain ⟨_, ⟨closer, hcloser, hname⟩, _⟩ := verbatimEnd?_eq_some ends
  cases closer with
  | tag tag => exact env.trims_of_name hcloser (beq_iff_eq.1 hname) hne
  | _ => cases hname

/-- What a token takes with it ends with the token itself or with a closing tag. -/
theorem Leaf.trims {added : List Instruction} (h : Leaf env L σ i added j) :
    env.trims (j - 1) = env.trims i := by
  have skips {stop : Nat} {tag : Tag} {name : String} (here : env.token? i = some (.tag tag))
      (hname : tag.name = name) (hne : name ≠ "trim") (hstop : env.trims stop = false) :
      env.trims stop = env.trims i := by rw [hstop, env.trims_of_name here hname hne]
  cases h with
  | capture here name _ ends | raw here name ends | comment here name ends =>
    exact skips here name (by decide) (env.trims_of_verbatimEnd (by rw [name]; decide) ends)
  | script here name closes | mixin here name closes | block here name _ _ closes =>
    exact skips here name (by decide) (env.trims_of_closingTag (by decide) closes)
  | _ => rfl

theorem Change.trims {stack stack' : List OpenBlock} (h : Change env L σ i stack stack' σ' j) :
    env.trims (j - 1) = env.trims i := by
  cases h with
  | leaf leaf => exact leaf.trims
  | opens | turns | closes => rfl

end

namespace Generator

variable {g : Generator} {d₀ d : Draft} {A : Nat → Scope → Prop} {τ : Scope} {start stop : Nat}
  {below : List OpenBlock}

/-! ## The note -/

/-- The note is there if the token handled last was `trim`. -/
theorem tracks_trim (hg : g.IsBuiltin) :
    g.Tracks fun before d => d.trimNext = before.getLast?.any g.env.trims where
  aside haside h := haside.trimNext.trans h
  step {before d d' token} here hstep _ := by
    rw [(step_learns (hg.hasBuiltin _) here hstep).trimNext, List.getLast?_concat, Option.any_some,
      DraftEnv.trims, here, Option.any_some]

/-- Behind a handler, the note is there if the token before is `trim`. -/
theorem step_trims {token : Token} {next : Draft} (hg : g.IsBuiltin)
    (hends : Ends g.env start below stop) (h : Going g.env d₀ A τ start below d) (hlt : d.idx < stop)
    (here : g.env.token? d.idx = some token) (held : A d.idx d.scope)
    (hstep : g.step token d = .ok next) : next.trimNext = g.env.trims (next.idx - 1) := by
  have hchange := ((step_effect hg hends h hlt here held).get hstep).change
  rw [Draft.idx_mark] at hchange
  rw [(step_learns (hg.hasBuiltin _) here hstep).trimNext, hchange.trims, DraftEnv.trims, here,
    Option.any_some]

/-- So it is everywhere inside a body. -/
theorem generateRange_trims {mid : Draft} (hg : g.IsBuiltin) (hτ : 0 < τ.depth)
    (hends : Ends g.env start below stop) (h : Going g.env d₀ (fun _ _ => True) τ start below d)
    (hstop : mid.idx ≤ stop) (hmid : g.generateRange mid.idx d = .ok mid) (hlt : d.idx < mid.idx) :
    mid.trimNext = g.env.trims (mid.idx - 1) := by
  fun_induction generateRange g mid.idx d with
  | case1 =>
    obtain rfl := Except.ok.inj hmid
    exact absurd hlt (Nat.lt_irrefl _)
  | case2 | case4 => cases hmid
  | case3 d hpassed token here next hstep hnext ih =>
    have hgoing := (step_settles hg hτ hends h (by omega) here trivial).get hstep
    by_cases hmore : next.idx < mid.idx
    · exact ih hgoing hmid hmore
    · rw [generateRange_of_le g (by omega)] at hmid
      obtain rfl := Except.ok.inj hmid
      exact step_trims hg hends h (by omega) here trivial hstep
  | case5 d hpassed => exact absurd hlt hpassed

end Generator

/-! ## The theorem -/

/-- A text is written as it is, or without the blanks at its start: the latter behind `trim` in the body
that it stands in, and at the start of the body if the token that was handled before the body was
`trim`. -/
theorem raw_trimmed (tokens : List Token) (files : Files) (positions : Bool) (sites : Sites) :
    let g := builtinGenerator tokens files positions sites
    ∀ before start stop d, g.Begins before start stop d →
    ∀ mid text pos, g.generateRange mid.idx d = .ok mid → mid.idx < stop →
    g.env.token? mid.idx = some (.raw text pos) →
    let trimmed := if mid.idx = start then before.getLast?.any g.env.trims
      else g.env.trims (mid.idx - 1)
    let written := if trimmed then .ofList (Text.trimLeft text.toList) else text
    let marked := { mid with trimNext := false }.mark g.env pos
    g.step (.raw text pos) mid =
      .ok (if written.isEmpty then marked else marked.emit (.text written)).advance := by
  intro g before start stop d hbegins mid text pos hmid hlt here
  have hg : g.IsBuiltin := ⟨rfl, rfl⟩
  obtain ⟨τ, below, hτ, hends, _, rfl, hgoing⟩ := hbegins.going hg
  have hnote : mid.trimNext = if mid.idx = d.idx then before.getLast?.any g.env.trims
      else g.env.trims (mid.idx - 1) := by
    split
    · next hidx =>
      rw [Generator.generateRange_of_le g (by omega)] at hmid
      rw [← Except.ok.inj hmid]
      exact hbegins.tracks (Generator.tracks_trim hg) rfl
    · next hidx =>
      have hreaches : g.Reaches d mid.idx mid.scope := ⟨mid, hmid, rfl, rfl⟩
      exact Generator.generateRange_trims hg hτ hends hgoing (Nat.le_of_lt hlt) hmid
        (Nat.lt_of_le_of_ne hreaches.le (Ne.symm hidx))
  rw [← hnote]
  rfl

/-- A main body that ends with `trim`, behind the mixin that it calls. -/
def trimBehind : List Token :=
  [tagAt 0 "mixin" "a" "\x7b% mixin a %\x7d", .raw " x" ⟨stringFile, 13⟩,
    tagAt 15 "endmixin" "" "\x7b% endmixin %\x7d", tagAt 29 "+a" "" "\x7b% +a %\x7d",
    tagAt 37 "trim" "" "\x7b% trim %\x7d"]

theorem raw_trimmed_trimBehind :
    let g := builtinGenerator trimBehind {} false {}
    ∃ d, g.Begins [0, 3, 4] 1 2 d ∧
      g.step (.raw " x" ⟨stringFile, 13⟩) d =
        .ok (({ d with trimNext := false }.mark g.env ⟨stringFile, 13⟩).emit (.text "x")).advance := by
  intro g
  have hcomputed : g.generateMain.toOption.map (·.mixins.entries) = some [("a", ⟨1, 2, []⟩)] := by
    decide +kernel
  obtain ⟨main, hmain, hentries⟩ := ok_of_toOption_map hcomputed
  have hnext : main.next? {} = some ⟨1, 2, []⟩ := by
    rw [Draft.next?, hentries]
    rfl
  have hbefore : g.handledWithin 0 = [0, 3, 4] := by decide +kernel
  have hbegins : g.Begins (g.handledWithin 0) 1 2 (main.begin ⟨1, 2, []⟩) :=
    .deferred hmain rfl hnext
  rw [hbefore] at hbegins
  have hmid : g.generateRange 1 (main.begin ⟨1, 2, []⟩) = .ok (main.begin ⟨1, 2, []⟩) :=
    g.generateRange_of_le (Nat.le_refl 1)
  exact ⟨_, hbegins, raw_trimmed trimBehind {} false {} _ _ _ _ hbegins _ " x" _ hmid
    (Nat.lt_succ_self 1) rfl⟩

/-- The text that an instruction writes, if that is all it does. -/
def Instruction.written? : Instruction → Option String
  | text written => some written
  | _ => none

/-- So the text of a mixin is trimmed by the end of the main body behind it. -/
theorem trim_leaks : ∃ made mixin, generate trimBehind {} .builtin false = .ok made ∧
    made.program.mixins.get? "a" = some mixin ∧ mixin.body = [.text "x"] := by
  have hcomputed : (generate trimBehind {} .builtin false).toOption.map
      (fun made => (made.program.mixins.get? "a").map fun mixin =>
        mixin.body.map Instruction.written?) = some (some [some "x"]) := by decide +kernel
  obtain ⟨made, hmade, hbody⟩ := ok_of_toOption_map hcomputed
  obtain ⟨mixin, hmixin, hbody⟩ := Option.map_eq_some_iff.1 hbody
  refine ⟨made, mixin, hmade, hmixin, ?_⟩
  obtain ⟨x, hbody, hwritten⟩ := List.map_eq_singleton_iff.1 hbody
  rw [hbody]
  cases x <;> cases hwritten
  rfl

end Stencil
