import Stencil.Proofs.Generation.Moved
import Stencil.Proofs.Token.Indented
import Stencil.Proofs.Token.Places

/-!
# A text amid others

A flattened text is read from left to right, and where one of its parts ends the next one begins, so
delimiters may come about where two parts meet. `Reads` says what a part yields with all that
follows it.

* `lexemes_indentedBy`: an indented text has its own lexemes, unless its last brace meets another
  one.
* `Scan.Mirrors.step`: amid others a text is read as it is read alone.
* `Reads.text`: so it yields its own tokens.
* `Reads.file`: a file between markers yields what is in it.
-/

namespace Stencil

open Text

variable {margin : List Char}

/-! ## Lexemes -/

/-- The lexeme where every line feed is followed by a margin. -/
def Lexeme.indented (margin : List Char) : Lexeme → List Lexeme
  | char c => (indentedBy margin [c]).map char
  | lexeme => [lexeme]

theorem IsMargin.inert (h : IsMargin margin) : Inert margin := by
  intro c hc
  rcases h c hc with rfl | rfl <;> rfl

theorem delimiter?_brace {c : Char} (h : c ≠ '{') : delimiter? c '{' = none := by
  unfold delimiter?
  split <;> simp_all

/-- A delimiter is no character, and has no line feed. -/
theorem indented_delimiter {c d : Char} {l : Lexeme} (h : delimiter? c d = some l)
    (margin : List Char) : c ≠ '\n' ∧ d ≠ '\n' ∧ l.indented margin = [l] := by
  unfold delimiter? at h
  split at h <;> simp_all
  all_goals
    subst h
    rfl

/-- No delimiter comes about where a text meets what follows it: nothing, or an opening brace. -/
def Meets (cs tail : List Char) : Prop :=
  tail = [] ∨ tail.head? = some '{' ∧ cs.getLast? ≠ some '{'

theorem Meets.behind (front : List Char) {cs tail : List Char} (h : Meets (front ++ cs) tail) :
    Meets cs tail := by
  rcases h with h | ⟨hhead, hlast⟩
  · exact .inl h
  · refine .inr ⟨hhead, fun hcs => hlast ?_⟩
    rw [List.getLast?_append, hcs]
    rfl

/-- An indented text has its own lexemes, unless its last brace meets another one. -/
theorem lexemes_indentedBy (hm : IsMargin margin) {cs tail : List Char} (h : Meets cs tail) :
    lexemes (indentedBy margin cs ++ tail) =
      (lexemes cs).flatMap (Lexeme.indented margin) ++ lexemes tail := by
  have hfeed (ds : List Char) : lexemes ('\n' :: (margin ++ ds)) =
      Lexeme.indented margin (.char '\n') ++ lexemes ds := by
    rw [Lexeme.indented, indentedBy_lineFeed, ← lexemes_line hm.inert]
    rfl
  fun_induction lexemes cs with
  | case1 => rfl
  | case2 c =>
    by_cases hc : c = '\n'
    · subst hc
      rw [indentedBy_lineFeed, List.cons_append, hfeed]
      simp
    · rw [indentedBy_singleton hc, List.singleton_append, lexemes_cons]
      · simp [Lexeme.indented, indentedBy_singleton hc]
      · rintro d hd
        rcases h with rfl | ⟨hhead, hlast⟩
        · cases hd
        · obtain rfl := Option.some.inj (hhead.symm.trans hd)
          exact delimiter?_brace (by simpa using hlast)
  | case3 c d cs l hl ih =>
    obtain ⟨hc, hd, hlexeme⟩ := indented_delimiter hl margin
    rw [indentedBy_cons_of_ne hc, indentedBy_cons_of_ne hd, List.cons_append, List.cons_append,
      lexemes, hl, List.flatMap_cons, hlexeme]
    exact congrArg (l :: ·) (ih (h.behind [c, d]))
  | case4 c d cs hl ih =>
    rw [List.flatMap_cons, List.append_assoc, ← ih (h.behind [c])]
    by_cases hc : c = '\n'
    · subst hc
      rw [indentedBy_cons_lineFeed, List.cons_append, List.append_assoc, hfeed]
    · rw [indentedBy_cons_of_ne hc, List.cons_append, lexemes_cons]
      · simp [Lexeme.indented, indentedBy_singleton hc]
      · intro d' hd'
        rw [List.head?_append, head?_indentedBy] at hd'
        obtain rfl := Option.some.inj hd'
        exact hl

/-! ## A scan that has read more -/

/-- The second scan has found some more tokens, and it is in the same file. -/
structure Scan.Gains (s s' : Scan) (tokens : List Token) : Prop where
  outer : s'.outer = s.outer
  count : s'.count = s.count + tokens.length
  found : ∃ more, s'.found = more.reverse ++ s.found ∧ List.Forall₂ Token.Alike tokens more

namespace Scan.Gains

variable {s s₁ s₂ : Scan} {tokens tokens' : List Token}

theorem nil (houter : s₁.outer = s.outer) (hcount : s₁.count = s.count)
    (hfound : s₁.found = s.found) : Gains s s₁ [] :=
  ⟨houter, hcount, [], hfound, .nil⟩

theorem push {token token' : Token} (h : Gains s s₁ tokens) (halike : token.Alike token')
    (houter : s₂.outer = s₁.outer) (hcount : s₂.count = s₁.count + 1)
    (hfound : s₂.found = token' :: s₁.found) : Gains s s₂ (tokens ++ [token]) where
  outer := houter.trans h.outer
  count := by
    rw [hcount, h.count, List.length_append]
    rfl
  found := by
    obtain ⟨more, hmore, halikes⟩ := h.found
    refine ⟨more ++ [token'], ?_, List.rel_append halikes (.cons halike .nil)⟩
    rw [hfound, hmore]
    simp

theorem trans (h : Gains s s₁ tokens) (h' : Gains s₁ s₂ tokens') :
    Gains s s₂ (tokens ++ tokens') where
  outer := h'.outer.trans h.outer
  count := by rw [h'.count, h.count, List.length_append, Nat.add_assoc]
  found := by
    obtain ⟨more, hmore, halikes⟩ := h.found
    obtain ⟨more', hmore', halikes'⟩ := h'.found
    refine ⟨more ++ more', ?_, List.rel_append halikes halikes'⟩
    rw [hmore', hmore]
    simp

/-- What stands in the frame and in the mode does not count. -/
theorem congr (h : Gains s s₁ tokens) (houter : s₂.outer = s₁.outer) (hcount : s₂.count = s₁.count)
    (hfound : s₂.found = s₁.found) : Gains s s₂ tokens :=
  ⟨houter.trans h.outer, hcount.trans h.count, hfound ▸ h.found⟩

/-- Nor does a file that was entered and left. -/
theorem leave {frame frame' : Frame} {outer : List Frame} {mode : Mode}
    (h : Gains { s with frame, outer } s₁ tokens) :
    Gains s { s₁ with frame := frame', outer := s.outer, mode } tokens :=
  ⟨rfl, h.count, h.found⟩

end Scan.Gains

/-! ## Reading alone and amid others -/

namespace Scan

/-- The same is being read, but for a margin, and no marker. -/
inductive Mode.Mirrors (margin : List Char) : Mode → Mode → Prop where
  | raw {read read' : List Char} (h : read'.reverse = indentedBy margin read.reverse) :
      Mode.Mirrors margin (.raw read) (.raw read')
  | enclosed {e : Enclosure} {start start' : Pos} {read read' : List Char} (he : e ≠ .marker)
      (h : read'.reverse = indentedBy margin read.reverse) :
      Mode.Mirrors margin (.enclosed e start read) (.enclosed e start' read')

theorem Mode.Mirrors.add {mode mode' : Mode} (h : mode.Mirrors margin mode') (cs : List Char) :
    (mode.add cs).Mirrors margin (mode'.add (indentedBy margin cs)) := by
  cases h with
  | raw h => exact .raw (by simp [h])
  | enclosed he h => exact .enclosed he (by simp [h])

/-- The scan `s'` reads, behind what was read `before`, what `s` reads alone. -/
structure Mirrors (margin : List Char) (before s s' : Scan) : Prop where
  mode : s.mode.Mirrors margin s'.mode
  gains : Gains before s' (s.found.reverse.map (Token.indented margin))

variable {files : Files} {limit limit' : Nat} {before s s' s₁ : Scan}

theorem push_of_lt {token : Token} (h : s.count < limit) : push files limit s token =
    .ok { s with found := token :: s.found, count := s.count + 1 } := if_pos h

/-- Tokens that were found stay. -/
theorem found_of_flush {read : List Char} (h : flush files limit s read = .ok s₁) :
    s.found <:+ s₁.found := by
  unfold flush at h
  split at h
  · obtain rfl := Except.ok.inj h
    exact List.suffix_rfl
  · obtain rfl := push_ok h
    exact List.suffix_cons _ _

theorem found_of_mark {start : Pos} {content : List Char}
    (h : mark files s start content = .ok s₁) : s₁.found = s.found := by
  unfold mark at h
  dsimp only at h
  split at h
  · obtain rfl := Except.ok.inj h
    rfl
  · split at h
    · obtain rfl := Except.ok.inj h
      rfl
    · cases h
  · cases h
  · obtain rfl := Except.ok.inj h
    rfl

theorem found_of_step {l : Lexeme} (h : step files limit s l = .ok s₁) : s.found <:+ s₁.found := by
  cases l with
  | char c =>
    rw [step_char] at h
    obtain rfl := Except.ok.inj h
    exact List.suffix_rfl
  | «open» e =>
    obtain ⟨read, s₀, _, hflush, rfl⟩ := step_open h
    have hfound := found_of_flush hflush
    exact hfound
  | close e =>
    unfold step at h
    cases hmode : s.mode with
    | raw read =>
      simp only [hmode] at h
      obtain rfl := Except.ok.inj h
      exact List.suffix_rfl
    | enclosed e' start read =>
      simp only [hmode] at h
      split at h
      · cases e' with
        | marker => exact found_of_mark h ▸ List.suffix_rfl
        | tag =>
          obtain rfl := push_ok h
          exact List.suffix_cons _ _
        | object =>
          obtain rfl := push_ok h
          exact List.suffix_cons _ _
      · obtain rfl := Except.ok.inj h
        exact List.suffix_rfl

theorem found_of_run {ls : List Lexeme} (h : ls.foldlM (step files limit) s = .ok s₁) :
    s.found <:+ s₁.found := by
  induction ls generalizing s with
  | nil =>
    obtain rfl := Except.ok.inj h
    exact List.suffix_rfl
  | cons l ls ih =>
    obtain ⟨s₀, hstep, hrun⟩ := foldlM_cons_ok h
    exact (found_of_step hstep).trans (ih hrun)

namespace Mirrors

/-- A token that is found alone is found amid others. -/
theorem push {token token' : Token} (h : Mirrors margin before s s')
    (halike : (token.indented margin).Alike token') :
    Gains before { s' with found := token' :: s'.found, count := s'.count + 1 }
      ((token :: s.found).reverse.map (Token.indented margin)) := by
  rw [List.reverse_cons, List.map_append]
  exact h.gains.push halike rfl rfl rfl

/-- There is room for one more token if there is for one more in the end. -/
theorem count_lt {token : Token} (h : Mirrors margin before s s')
    (hlimit : before.count + (token :: s.found).length ≤ limit') : s'.count < limit' := by
  rw [h.gains.count, List.length_map, List.length_reverse]
  rw [List.length_cons] at hlimit
  omega

/-- Raw text that ends alone ends amid others. -/
theorem flush {read : List Char} (files' : Files) (h : Mirrors margin before s s')
    (hmode : s.mode = .raw read) (hflush : Scan.flush files limit s read = .ok s₁)
    (hlimit : before.count + s₁.found.length ≤ limit') :
    ∃ read' s₁', s'.mode = .raw read' ∧ Scan.flush files' limit' s' read' = .ok s₁' ∧
      Gains before s₁' (s₁.found.reverse.map (Token.indented margin)) := by
  obtain ⟨read', hmode', hread⟩ :
      ∃ read', s'.mode = .raw read' ∧ read'.reverse = indentedBy margin read.reverse := by
    have hmirrors := h.mode
    rw [hmode] at hmirrors
    generalize s'.mode = mode' at hmirrors
    cases hmirrors with
    | raw hread => exact ⟨_, rfl, hread⟩
  refine ⟨read', ?_⟩
  unfold Scan.flush at hflush ⊢
  by_cases hempty : read = []
  · subst hempty
    obtain rfl := Except.ok.inj hflush
    have hempty' : read' = [] := List.reverse_eq_nil_iff.1 hread
    rw [hempty']
    exact ⟨s', hempty' ▸ hmode', rfl, h.gains⟩
  · have hempty' : read' ≠ [] := by
      intro hnil
      rw [hnil] at hread
      exact hempty (List.reverse_eq_nil_iff.1 (indentedBy_eq_nil.1 hread.symm))
    rw [if_neg (by simpa using hempty)] at hflush
    rw [if_neg (by simpa using hempty')]
    obtain rfl := Scan.push_ok hflush
    refine ⟨_, hmode', push_of_lt (h.count_lt hlimit), (h.push ?_).congr rfl rfl rfl⟩
    refine ⟨s'.frame.pos, ?_⟩
    simp only [Token.indented, Token.movedTo, indentedString_ofList, hread]

/-- An object or a tag that ends alone ends amid others. -/
theorem close {e : Enclosure} {start : Pos} {content : List Char} (files' : Files) (start' : Pos)
    (hm : IsMargin margin) (h : Mirrors margin before s s') (he : e ≠ .marker)
    (hclose : Scan.close files limit s e start content = .ok s₁)
    (hlimit : before.count + s₁.found.length ≤ limit') :
    ∃ s₁', Scan.close files' limit' s' e start' (indentedBy margin content) = .ok s₁' ∧
      Mirrors margin before s₁ s₁' := by
  have hsource : e.opener ++ indentedBy margin content ++ e.closer =
      indentedBy margin (e.opener ++ content ++ e.closer) := by
    cases e <;> simp [Enclosure.opener, Enclosure.closer, indentedBy_cons_of_ne]
  have hraw : (Mode.raw []).Mirrors margin (.raw []) := .raw rfl
  cases e with
  | marker => exact absurd rfl he
  | tag =>
    obtain rfl := Scan.push_ok hclose
    refine ⟨_, push_of_lt (h.count_lt hlimit), hraw, (h.push ?_).congr rfl rfl rfl⟩
    refine ⟨start', ?_⟩
    rw [hsource, ← ofContent_indentedBy hm]
    rfl
  | object =>
    obtain rfl := Scan.push_ok hclose
    refine ⟨_, push_of_lt (h.count_lt hlimit), hraw, (h.push ?_).congr rfl rfl rfl⟩
    refine ⟨start', ?_⟩
    rw [hsource, ← objectOfContent_indentedBy hm]
    rfl

/-- More text is read. -/
theorem add (h : Mirrors margin before s s') (cs : List Char) :
    Mirrors margin before { s with mode := s.mode.add cs }
      { s' with mode := s'.mode.add (indentedBy margin cs) } :=
  ⟨h.mode.add cs, h.gains.congr rfl rfl rfl⟩

/-- Every lexeme that is taken alone is taken amid others. -/
theorem step {l : Lexeme} (files' : Files) (hm : IsMargin margin)
    (h : Mirrors margin before s s') (hl : l ≠ .open .marker)
    (hstep : Scan.step files limit s l = .ok s₁) (hlimit : before.count + s₁.found.length ≤ limit') :
    ∃ s₁', (l.indented margin).foldlM (Scan.step files' limit') s' = .ok s₁' ∧
      Mirrors margin before s₁ s₁' := by
  cases l with
  | char c =>
    rw [step_char] at hstep
    obtain rfl := Except.ok.inj hstep
    refine ⟨_, ?_, h.add [c]⟩
    rw [Lexeme.indented, ← List.append_nil (List.map _ _), foldlM_chars]
    rfl
  | «open» e =>
    obtain ⟨read, s₀, hmode, hflush, rfl⟩ := step_open hstep
    obtain ⟨read', s₀', hmode', hflush', hgains⟩ := h.flush files' hmode hflush hlimit
    refine ⟨{ s₀' with mode := .enclosed e s₀'.frame.pos [] }, ?_, .enclosed ?_ rfl,
      hgains.congr rfl rfl rfl⟩
    · simp only [Lexeme.indented, List.foldlM_cons, Scan.step, hmode', hflush']
      rfl
    · rintro rfl
      exact hl rfl
  | close e =>
    have htext : indentedBy margin e.closer = e.closer := by
      cases e <;> simp [Enclosure.closer, indentedBy_cons_of_ne]
    have hadd := h.add e.closer
    rw [htext] at hadd
    have hmirrors := h.mode
    rw [show (Lexeme.close e).indented margin = [.close e] from rfl, List.foldlM_cons]
    cases hmode : s.mode with
    | raw read =>
      simp only [Scan.step, hmode] at hstep
      obtain rfl := Except.ok.inj hstep
      rw [hmode] at hmirrors hadd
      cases hmode' : s'.mode with
      | enclosed => rw [hmode'] at hmirrors; cases hmirrors
      | raw read' =>
        rw [hmode'] at hadd
        exact ⟨_, by simp only [Scan.step, hmode']; rfl, hadd⟩
    | enclosed e' start read =>
      rw [hmode] at hmirrors hadd
      cases hmode' : s'.mode with
      | raw => rw [hmode'] at hmirrors; cases hmirrors
      | enclosed e'' start' read' =>
        rw [hmode'] at hmirrors hadd
        cases hmirrors with
        | enclosed he hread =>
          simp only [Scan.step, hmode] at hstep
          by_cases hcloses : Lexeme.close e = .close e'
          · rw [if_pos hcloses] at hstep
            obtain ⟨s₁', hclose', hmirrors'⟩ := h.close files' start' hm he hstep hlimit
            refine ⟨s₁', ?_, hmirrors'⟩
            simp only [Scan.step, hmode', if_pos hcloses, hread, hclose']
            rfl
          · rw [if_neg hcloses] at hstep
            obtain rfl := Except.ok.inj hstep
            exact ⟨_, by simp only [Scan.step, hmode', if_neg hcloses]; rfl, hadd⟩

/-- So is a whole text. -/
theorem run {ls : List Lexeme} (files' : Files) (hm : IsMargin margin)
    (h : Mirrors margin before s s') (hls : .open .marker ∉ ls)
    (hrun : ls.foldlM (Scan.step files limit) s = .ok s₁)
    (hlimit : before.count + s₁.found.length ≤ limit') :
    ∃ s₁', (ls.flatMap (Lexeme.indented margin)).foldlM (Scan.step files' limit') s' = .ok s₁' ∧
      Mirrors margin before s₁ s₁' := by
  induction ls generalizing s s' with
  | nil =>
    obtain rfl := Except.ok.inj hrun
    exact ⟨s', rfl, h⟩
  | cons l ls ih =>
    rw [List.mem_cons, not_or] at hls
    obtain ⟨s₀, hstep, hrun⟩ := foldlM_cons_ok hrun
    have hfound := (found_of_run hrun).length_le
    obtain ⟨s₀', hstep', h₀⟩ := h.step files' hm (Ne.symm hls.1) hstep
      (Nat.le_trans (Nat.add_le_add_left hfound _) hlimit)
    obtain ⟨s₁', hrun', h₁⟩ := ih h₀ hls.2 hrun
    refine ⟨s₁', ?_, h₁⟩
    rw [List.flatMap_cons, List.foldlM_append, hstep']
    exact hrun'

end Mirrors

end Scan

/-! ## What a part of a flattened text yields -/

/-- A text without the opener of a marker has no such lexeme. -/
theorem not_mem_lexemes {cs : List Char} (h : ¬ ['{', '#'] <:+: cs) :
    Lexeme.open .marker ∉ lexemes cs := by
  intro hmem
  obtain ⟨before, after, hlexemes⟩ := List.append_of_mem hmem
  refine h ⟨before.flatMap Lexeme.text, after.flatMap Lexeme.text, ?_⟩
  rw [← text_lexemes cs, hlexemes]
  simp [Lexeme.text, Enclosure.opener]

/-- The raw text that is being read ends. -/
def Scan.Ends (files : Files) (limit : Nat) (s s' : Scan) : Prop :=
  ∃ read, s.mode = .raw read ∧ s.flush files limit read = .ok s'

/-- The opener of an enclosure ends the raw text before it. -/
theorem Scan.Ends.run_open {files : Files} {limit : Nat} {s s' : Scan} {cs : List Char}
    (h : s.Ends files limit s') {e : Enclosure} (hopens : e.opener <+: cs) :
    (lexemes cs).foldlM (step files limit) s =
      (lexemes cs).foldlM (step files limit) { s' with mode := .raw [] } := by
  obtain ⟨read, hmode, hflush⟩ := h
  obtain ⟨rest, rfl⟩ := hopens
  have hopen : step files limit s (.open e) =
      step files limit { s' with mode := .raw [] } (.open e) := by
    simp only [step, hmode, hflush]
    rfl
  rw [lexemes_opener, List.foldlM_cons, List.foldlM_cons, hopen]

@[inherit_doc Scan.Ends.run_open]
theorem Scan.Ends.run_marker {files : Files} {limit : Nat} {s s' : Scan} {cs : List Char}
    (h : s.Ends files limit s') (hmarker : ['{', '#'] <+: cs) :
    (lexemes cs).foldlM (step files limit) s =
      (lexemes cs).foldlM (step files limit) { s' with mode := .raw [] } :=
  h.run_open (show Enclosure.marker.opener <+: cs from hmarker)

/-- An enclosure is closed with its characters. -/
theorem Scan.run_enclosed {files : Files} {limit : Nat} {s s' : Scan} {e : Enclosure}
    {content : List Char} (hmode : s.mode = .raw []) (hcontent : Undelimited content)
    (hclose : s.close files limit e s.frame.pos content = .ok s') (rest : List Char) :
    (lexemes (e.opener ++ content ++ e.closer ++ rest)).foldlM (step files limit) s =
      (lexemes rest).foldlM (step files limit) s' := by
  have hopen : step files limit s (.open e) =
      .ok { s with mode := .enclosed e s.frame.pos [] } := by
    simp only [step, hmode]
    rfl
  have hclosed : step files limit { s with mode := .enclosed e s.frame.pos content.reverse }
      (.close e) = .ok s' := by
    simp only [step, if_true, List.reverse_reverse]
    exact hclose
  rw [lexemes_enclosed e hcontent, List.cons_append, List.foldlM_cons, hopen]
  show List.foldlM _ _ _ = _
  rw [foldlM_chars]
  simp only [Mode.add, List.append_nil]
  rw [List.foldlM_cons, hclosed]
  rfl

/-- A marker is read as it says. -/
theorem Scan.run_mark {files : Files} {limit : Nat} {s s' : Scan} {content : List Char}
    (hmode : s.mode = .raw []) (hcontent : Undelimited content)
    (hmark : s.mark files s.frame.pos content = .ok s') (rest : List Char) :
    (lexemes (['{', '#'] ++ content ++ ['#', '}'] ++ rest)).foldlM (step files limit) s =
      (lexemes rest).foldlM (step files limit) s' := by
  have hclose : s.close files limit .marker s.frame.pos content = .ok s' := by
    simp only [close, ← hmode]
    exact hmark
  exact run_enclosed hmode hcontent hclose rest

/-- Wherever a scan comes to `cs` with `tail` behind it, it finds the tokens in it, and goes on with
`tail`. The last of them may still be being read. -/
def Reads (cs tail : List Char) (tokens : List Token) : Prop :=
  ∀ (files : Files) (limit : Nat) (s : Scan), s.mode = .raw [] →
    s.count + tokens.length ≤ limit →
    ∃ s₁ s₂, s₁.Ends files limit s₂ ∧ s.Gains s₂ tokens ∧
      (lexemes (cs ++ tail)).foldlM (Scan.step files limit) s =
        (lexemes tail).foldlM (Scan.step files limit) s₁

namespace Reads

variable {cs ds tail : List Char} {tokens tokens' : List Token}

theorem nil : Reads [] tail [] := by
  intro files limit s hmode _
  exact ⟨s, s, ⟨[], hmode, rfl⟩, .nil rfl rfl rfl, rfl⟩

/-- An indented text yields its own tokens, unless its last brace meets another one. -/
theorem text {root : String} {own : Files} {limit : Nat} {cs : List Char} (hm : IsMargin margin)
    (hmarker : ¬ ['{', '#'] <:+: cs) (hmeets : Meets cs tail)
    (hown : tokenize (.ofList cs) root own limit = .ok tokens) :
    Reads (indentedBy margin cs) tail (tokens.map (Token.indented margin)) := by
  unfold tokenize at hown
  rw [String.toList_ofList] at hown
  cases hrun : (lexemes cs).foldlM (Scan.step own limit) { frame := { file := root } } with
  | error e =>
    rw [hrun] at hown
    cases hown
  | ok s₁ =>
    rw [hrun] at hown
    obtain ⟨read, s₂, hmode, hflush, -, rfl⟩ := Scan.finish_ok hown
    intro files limit' s hraw hlimit
    rw [List.length_map, List.length_reverse] at hlimit
    have hbefore : Scan.Mirrors margin s { frame := { file := root } } s :=
      ⟨by rw [hraw]; exact .raw rfl, .nil rfl rfl rfl⟩
    have hfound := (Scan.found_of_flush hflush).length_le
    obtain ⟨s₁', hrun', hmirrors⟩ := hbefore.run files hm (not_mem_lexemes hmarker) hrun
      (Nat.le_trans (Nat.add_le_add_left hfound _) hlimit)
    obtain ⟨read', s₂', hmode', hflush', hgains⟩ := hmirrors.flush files hmode hflush hlimit
    refine ⟨s₁', s₂', ⟨read', hmode', hflush'⟩, hgains, ?_⟩
    rw [lexemes_indentedBy hm hmeets, List.foldlM_append, hrun']
    rfl

/-- Behind a text that ends where an enclosure begins, another one is read. -/
theorem append_open {e : Enclosure} (h : Reads cs (ds ++ tail) tokens)
    (hopens : e.opener <+: ds ++ tail) (h' : Reads ds tail tokens') :
    Reads (cs ++ ds) tail (tokens ++ tokens') := by
  intro files limit s hmode hlimit
  rw [List.length_append] at hlimit
  obtain ⟨s₁, s₂, hends, hgains, hrun⟩ := h files limit s hmode (by omega)
  have hraw : s.Gains { s₂ with mode := .raw [] } tokens := hgains.congr rfl rfl rfl
  obtain ⟨s₃, s₄, hends', hgains', hrun'⟩ := h' files limit { s₂ with mode := .raw [] } rfl
    (by rw [hraw.count]; omega)
  refine ⟨s₃, s₄, hends', hraw.trans hgains', ?_⟩
  rw [List.append_assoc, hrun, hends.run_open hopens, hrun']

/-- Behind a text that ends where a marker begins, another one is read. -/
theorem append (h : Reads cs (ds ++ tail) tokens) (hmarker : ['{', '#'] <+: ds ++ tail)
    (h' : Reads ds tail tokens') : Reads (cs ++ ds) tail (tokens ++ tokens') :=
  h.append_open (show Enclosure.marker.opener <+: ds ++ tail from hmarker) h'

/-- A file between markers yields what is in it. -/
theorem file {resume indent : Nat} {name parent : String} {body flat : List Char}
    (hname : IsFileName name) (hparent : IsFileName parent) (hresume : resume < Number.twoTo 64)
    (hindent : indent < Number.twoTo 64)
    (hbody : Reads body (endMarker parent ++ flat ++ tail) tokens)
    (hflat : Reads flat tail tokens') :
    Reads (beginMarker resume indent name ++ body ++ endMarker parent ++ flat) tail
      (tokens ++ tokens') := by
  intro files limit s hmode hlimit
  rw [List.length_append] at hlimit
  have hbegin := ofContent_begin_of_lt hname hresume hindent
  have hend := ofContent_end hparent
  obtain ⟨s₁, s₂, hends, hgains, hrun⟩ := hbody files limit
    { s with
      frame := { file := name, resume, indent := s.frame.indent + indent }
      outer := s.frame :: s.outer } hmode (by dsimp only; omega)
  have hcount := hgains.count
  obtain ⟨s₃, s₄, hends', hgains', hrun'⟩ := hflat files limit
    { s₂ with
      mode := .raw []
      frame := { s.frame with offset := s.frame.offset + s₂.frame.resume }
      outer := s.outer } rfl (by dsimp only at hcount ⊢; omega)
  refine ⟨s₃, s₄, hends', hgains.leave.trans hgains', ?_⟩
  · have henter : s.mark files s.frame.pos (beginContent resume indent name) = .ok { s with
        frame := { file := name, resume, indent := s.frame.indent + indent }
        outer := s.frame :: s.outer } := by
      simp only [Scan.mark, hbegin]
    have hleave : Scan.mark files { s₂ with mode := .raw [] } s₂.frame.pos (endContent parent) =
        .ok { s₂ with
          mode := .raw []
          frame := { s.frame with offset := s.frame.offset + s₂.frame.resume }
          outer := s.outer } := by
      simp only [Scan.mark, hend, hgains.outer]
    have hmarker : ['{', '#'] <+: endMarker parent ++ flat ++ tail := by simp [endMarker_eq]
    calc (lexemes (beginMarker resume indent name ++ body ++ endMarker parent ++ flat ++
            tail)).foldlM (Scan.step files limit) s
        _ = (lexemes (body ++ (endMarker parent ++ flat ++ tail))).foldlM (Scan.step files limit)
              _ := by
          rw [← Scan.run_mark hmode (inert_beginContent hname _ _).undelimited henter]
          simp only [beginMarker_eq, List.append_assoc]
        _ = (lexemes (endMarker parent ++ flat ++ tail)).foldlM (Scan.step files limit)
              { s₂ with mode := .raw [] } := hrun.trans (hends.run_marker hmarker)
        _ = (lexemes (flat ++ tail)).foldlM (Scan.step files limit) _ := by
          rw [← Scan.run_mark rfl (inert_endContent hparent).undelimited hleave]
          simp only [endMarker_eq, List.append_assoc]
        _ = _ := hrun'

/-- A text that nothing follows has these tokens, but for their places. -/
theorem tokenize {limit : Nat} (h : Reads cs [] tokens) (root : String) (files : Files)
    (hlimit : tokens.length ≤ limit) :
    ∃ tokens', Stencil.tokenize (.ofList cs) root files limit = .ok tokens' ∧
      List.Forall₂ Token.Alike tokens tokens' := by
  obtain ⟨s₁, s₂, ⟨read, hmode, hflush⟩, hgains, hrun⟩ :=
    h files limit { frame := { file := root } } rfl (by simpa using hlimit)
  obtain ⟨more, hmore, halike⟩ := hgains.found
  refine ⟨more, ?_, halike⟩
  rw [List.append_nil] at hrun
  unfold Stencil.tokenize
  rw [String.toList_ofList, hrun]
  show s₁.finish files limit = _
  simp only [Scan.finish, hmode, hflush]
  show (if s₂.outer.isEmpty then _ else _) = _
  rw [hgains.outer, hmore, List.append_nil, List.reverse_reverse]
  rfl

end Reads

end Stencil
