import Stencil.Proofs.Token.Amid

/-!
# Which texts have tokens

A text without markers is cut into tokens as soon as every enclosure that is opened is closed before
another one opens.

* `lexemes_cut`: a text that is cut between two lexemes keeps them.
* `Delimited`: the grammar, on the lexemes of a text.
* `Scan.Spends`: what an action comes to under every limit on the number of tokens.
* `Scan.Flat.step`: the scan takes every lexeme that the grammar takes, and no other.
* `Scan.Flat.ends`: so it ends as the grammar says.
-/

namespace Stencil

open Text

/-! ## Lexemes of a part of a text -/

theorem Lexeme.char_ne_open (c : Char) (e : Enclosure) : Lexeme.char c ≠ .open e := by
  intro h
  cases h

theorem Lexeme.char_ne_close (c : Char) (e : Enclosure) : Lexeme.char c ≠ .close e := by
  intro h
  cases h

theorem Lexeme.close_ne_open (e e' : Enclosure) : Lexeme.close e ≠ .open e' := by
  intro h
  cases h

/-- A text that is cut between two lexemes has their lexemes on either side. -/
theorem lexemes_cut {cs : List Char} {front back : List Lexeme} (h : lexemes cs = front ++ back) :
    lexemes (front.flatMap Lexeme.text) = front ∧ lexemes (back.flatMap Lexeme.text) = back := by
  fun_induction lexemes cs generalizing front with
  | case1 =>
    obtain ⟨rfl, rfl⟩ := List.nil_eq_append_iff.1 h
    exact ⟨rfl, rfl⟩
  | case2 c =>
    cases front with
    | nil =>
      obtain rfl : [.char c] = back := h
      exact ⟨rfl, rfl⟩
    | cons l front =>
      obtain ⟨rfl, hnil⟩ := List.cons.inj h
      obtain ⟨rfl, rfl⟩ := List.nil_eq_append_iff.1 hnil
      exact ⟨rfl, rfl⟩
  | case3 c d cs l hl ih =>
    cases front with
    | nil =>
      obtain rfl : l :: lexemes cs = back := h
      refine ⟨rfl, ?_⟩
      rw [List.flatMap_cons, text_lexemes, text_delimiter hl, List.cons_append,
        List.singleton_append, lexemes, hl]
    | cons l' front =>
      obtain ⟨rfl, hrest⟩ := List.cons.inj h
      obtain ⟨hfront, hback⟩ := ih hrest
      refine ⟨?_, hback⟩
      rw [List.flatMap_cons, text_delimiter hl, List.cons_append, List.singleton_append, lexemes,
        hl, hfront]
  | case4 c d cs hl ih =>
    cases front with
    | nil =>
      obtain rfl : .char c :: lexemes (d :: cs) = back := h
      refine ⟨rfl, ?_⟩
      rw [List.flatMap_cons, text_lexemes, Lexeme.text, List.singleton_append, lexemes, hl]
    | cons l front =>
      obtain ⟨rfl, hrest⟩ := List.cons.inj h
      replace hrest : lexemes (d :: cs) = front ++ back := hrest
      obtain ⟨hfront, hback⟩ := ih hrest
      refine ⟨?_, hback⟩
      have htext : front.flatMap Lexeme.text ++ back.flatMap Lexeme.text = d :: cs := by
        rw [← List.flatMap_append, ← hrest, text_lexemes]
      rw [List.flatMap_cons, Lexeme.text, List.singleton_append, lexemes_cons, hfront]
      intro d' hd'
      rw [List.head?_eq_some_iff] at hd'
      obtain ⟨more, hmore⟩ := hd'
      rw [hmore, List.cons_append] at htext
      rw [(List.cons.inj htext).1]
      exact hl

/-- No enclosure is opened in the text. -/
def OpensNothing (cs : List Char) : Prop := ∀ e : Enclosure, ¬ e.opener <:+: cs

theorem delimiter?_opener (e : Enclosure) : ∃ d, e.opener = ['{', d] ∧
    delimiter? '{' d = some (.open e) := by
  cases e <;> exact ⟨_, rfl, rfl⟩

/-- A text that spells no opener has none among its lexemes, and the other way round: the first
character of an opener is no second one of another delimiter, but of an opener. -/
theorem opensNothing_iff {cs : List Char} :
    OpensNothing cs ↔ ∀ e : Enclosure, .open e ∉ lexemes cs := by
  constructor
  · intro h e hmem
    obtain ⟨before, after, hlexemes⟩ := List.append_of_mem hmem
    refine h e ⟨before.flatMap Lexeme.text, after.flatMap Lexeme.text, ?_⟩
    rw [← text_lexemes cs, hlexemes]
    simp [Lexeme.text]
  · intro h e
    obtain ⟨d, hopener, hdelimiter⟩ := delimiter?_opener e
    rw [hopener]
    fun_induction lexemes cs with
    | case1 => simp
    | case2 c =>
      intro hinfix
      exact absurd hinfix.length_le (by simp)
    | case3 c d' cs l hl ih =>
      simp only [List.mem_cons, not_or] at h
      rw [List.infix_cons_iff, List.infix_cons_iff]
      rintro (hstart | hstart | hinfix)
      · simp only [List.cons_prefix_cons, List.nil_prefix, and_true] at hstart
        obtain ⟨rfl, rfl⟩ := hstart
        exact (h e).1 (Option.some.inj (hdelimiter.symm.trans hl))
      · obtain rfl := (List.cons_prefix_cons.1 hstart).1
        by_cases hc : c = '{'
        · subst hc
          exact (h .object).1 (Option.some.inj hl)
        · rw [delimiter?_brace hc] at hl
          cases hl
      · exact ih (fun e => (h e).2) hinfix
    | case4 c d' cs hl ih =>
      simp only [List.mem_cons, not_or] at h
      rw [List.infix_cons_iff]
      rintro (hstart | hinfix)
      · simp only [List.cons_prefix_cons, List.nil_prefix, and_true] at hstart
        obtain ⟨rfl, rfl⟩ := hstart
        rw [hdelimiter] at hl
        cases hl
      · exact ih (fun e => (h e).2) hinfix

/-! ## The grammar -/

/-- Every opener that is met outside of an enclosure is followed by its own closer before any other
opener. -/
inductive Delimited : List Lexeme → Prop where
  | nil : Delimited []
  | plain {l : Lexeme} {ls : List Lexeme} (hl : ∀ e, l ≠ .open e) (behind : Delimited ls) :
      Delimited (l :: ls)
  | enclosed {e : Enclosure} {inner ls : List Lexeme} (hopen : ∀ e', .open e' ∉ inner)
      (hclose : .close e ∉ inner) (behind : Delimited ls) :
      Delimited (.open e :: inner ++ .close e :: ls)

/-- What an enclosure goes on with: its closer comes before any opener. -/
def Closes (e : Enclosure) (ls : List Lexeme) : Prop :=
  ∃ inner behind, ls = inner ++ .close e :: behind ∧ (∀ e', .open e' ∉ inner) ∧
    .close e ∉ inner ∧ Delimited behind

variable {e : Enclosure} {l : Lexeme} {ls : List Lexeme}

theorem delimited_cons (hl : ∀ e, l ≠ .open e) : Delimited (l :: ls) ↔ Delimited ls := by
  refine ⟨fun h => ?_, .plain hl⟩
  cases h with
  | plain _ behind => exact behind
  | enclosed => exact absurd rfl (hl _)

theorem delimited_open : Delimited (.open e :: ls) ↔ Closes e ls := by
  constructor
  · intro h
    cases h with
    | plain hl => exact absurd rfl (hl e)
    | enclosed hopen hclose behind => exact ⟨_, _, rfl, hopen, hclose, behind⟩
  · rintro ⟨inner, behind, rfl, hopen, hclose, hbehind⟩
    exact .enclosed hopen hclose hbehind

theorem not_closes_nil : ¬ Closes e [] := by
  rintro ⟨inner, behind, h, -⟩
  exact absurd h (by simp)

theorem not_closes_open {e' : Enclosure} : ¬ Closes e (.open e' :: ls) := by
  rintro ⟨inner, behind, h, hopen, -⟩
  cases inner with
  | nil => cases h
  | cons l inner =>
    obtain rfl := (List.cons.inj h).1
    exact hopen e' List.mem_cons_self

theorem closes_close : Closes e (.close e :: ls) ↔ Delimited ls := by
  constructor
  · rintro ⟨inner, behind, h, -, hclose, hbehind⟩
    cases inner with
    | nil =>
      obtain rfl := (List.cons.inj h).2
      exact hbehind
    | cons l inner =>
      obtain rfl := (List.cons.inj h).1
      exact absurd List.mem_cons_self hclose
  · intro h
    exact ⟨[], ls, rfl, by simp, by simp, h⟩

theorem closes_cons (hl : ∀ e, l ≠ .open e) (hne : l ≠ .close e) :
    Closes e (l :: ls) ↔ Closes e ls := by
  constructor
  · rintro ⟨inner, behind, h, hopen, hclose, hbehind⟩
    cases inner with
    | nil => exact absurd (List.cons.inj h).1 hne
    | cons l' inner =>
      obtain ⟨-, rfl⟩ := List.cons.inj h
      simp only [List.mem_cons, not_or] at hopen hclose
      exact ⟨inner, behind, rfl, fun e' => (hopen e').2, hclose.2, hbehind⟩
  · rintro ⟨inner, behind, rfl, hopen, hclose, hbehind⟩
    refine ⟨l :: inner, behind, rfl, fun e' => ?_, ?_, hbehind⟩
    · rw [List.mem_cons, not_or]
      exact ⟨fun h => hl e' h.symm, hopen e'⟩
    · rw [List.mem_cons, not_or]
      exact ⟨fun h => hne h.symm, hclose⟩

/-! ## The verdict on a text -/

namespace Scan

variable {files : Files} {s s₁ : Scan}

/-- With `n` tokens found already, an action ends as `result` as soon as there is room for `m`, and
until then the limit is reported. -/
structure Spends {α : Type} (files : Files) (act : Nat → Except Error α) (n m : Nat)
    (result : Except Error α) : Prop where
  le : n ≤ m
  room : ∀ limit, m ≤ limit → act limit = result
  full : ∀ limit, n ≤ limit → limit < m →
    ∃ pos, act limit = .error (.atPos (.tokenLimit limit) files pos)

namespace Spends

variable {α β : Type} {act : Nat → Except Error α} {next : Nat → α → Except Error β} {n m p : Nat}

theorem pure {result : Except Error α} : Spends files (fun _ => result) n n result :=
  ⟨Nat.le_refl n, fun _ _ => rfl, fun _ hle hlt => absurd hlt (Nat.not_lt.2 hle)⟩

theorem bind {a : α} {result : Except Error β} (h : Spends files act n m (.ok a))
    (hnext : Spends files (next · a) m p result) :
    Spends files (fun limit => act limit >>= next limit) n p result where
  le := Nat.le_trans h.le hnext.le
  room limit hlimit := by
    show act limit >>= next limit = result
    rw [h.room limit (Nat.le_trans hnext.le hlimit)]
    exact hnext.room limit hlimit
  full limit hle hlt := by
    by_cases hm : m ≤ limit
    · obtain ⟨pos, hpos⟩ := hnext.full limit hm hlt
      refine ⟨pos, ?_⟩
      rw [h.room limit hm]
      exact hpos
    · obtain ⟨pos, hpos⟩ := h.full limit hle (Nat.lt_of_not_le hm)
      refine ⟨pos, ?_⟩
      rw [hpos]
      rfl

theorem fails {e : Error} (h : Spends files act n m (.error e)) :
    Spends files (fun limit => act limit >>= next limit) n m (.error e) where
  le := h.le
  room limit hlimit := by
    show act limit >>= next limit = _
    rw [h.room limit hlimit]
    rfl
  full limit hle hlt := by
    obtain ⟨pos, hpos⟩ := h.full limit hle hlt
    refine ⟨pos, ?_⟩
    rw [hpos]
    rfl

theorem push (files : Files) (s : Scan) (token : Token) :
    ∃ s₁, Spends files (fun limit => Scan.push files limit s token) s.count s₁.count (.ok s₁) ∧
      s₁ = { s with found := token :: s.found, count := s.count + 1 } :=
  ⟨_, ⟨Nat.le_succ _, fun _ hlimit => push_of_lt hlimit,
    fun _ _ hlt => ⟨token.pos, if_neg (Nat.not_lt.2 (Nat.le_of_lt_succ hlt))⟩⟩, rfl⟩

end Spends

/-- At most one token more was found. -/
inductive Grows (s : Scan) : Scan → Prop where
  | same {s₁ : Scan} (count : s₁.count = s.count) (found : s₁.found = s.found) : Grows s s₁
  | one {s₁ : Scan} (token : Token) (count : s₁.count = s.count + 1)
      (found : s₁.found = token :: s.found) : Grows s s₁

theorem Grows.count_le (h : Grows s s₁) : s₁.count ≤ s.count + 1 := by
  cases h <;> omega

/-- Tokens stay counted. -/
theorem Grows.counted (h : Grows s s₁) (hs : s.count = s.found.length) :
    s₁.count = s₁.found.length := by
  cases h with
  | same count found => rw [count, found, hs]
  | one token count found => rw [count, found, hs, List.length_cons]

/-- Raw text that ends becomes a token, unless it is empty. -/
theorem Spends.flush (files : Files) (s : Scan) (read : List Char) :
    ∃ s₁, Spends files (Scan.flush files · s read) s.count s₁.count (.ok s₁) ∧ Grows s s₁ ∧
      s₁.outer = s.outer := by
  unfold Scan.flush
  by_cases hread : read.isEmpty
  · simp only [if_pos hread]
    exact ⟨s, .pure, .same rfl rfl, rfl⟩
  · simp only [if_neg hread]
    obtain ⟨s₁, hpush, rfl⟩ := Spends.push files
      { s with frame := s.frame.pastAll read.reverse } (.raw (.ofList read.reverse) s.frame.pos)
    exact ⟨_, hpush, .one _ rfl rfl, rfl⟩

/-- An object or a tag that ends becomes a token. -/
theorem Spends.close {e : Enclosure} (he : e ≠ .marker) (files : Files) (s : Scan) (start : Pos)
    (content : List Char) :
    ∃ s₁, Spends files (fun limit => Scan.close files limit s e start content) s.count s₁.count
      (.ok s₁) ∧ Grows s s₁ ∧ s₁.outer = s.outer ∧ s₁.mode = .raw [] := by
  cases e with
  | marker => exact absurd rfl he
  | tag =>
    obtain ⟨s₁, hpush, rfl⟩ := Spends.push files { s with
      mode := .raw []
      frame := s.frame.pastAll (Enclosure.tag.opener ++ content ++ Enclosure.tag.closer) }
      (.tag (.ofContent content (Enclosure.tag.opener ++ content ++ Enclosure.tag.closer) start))
    exact ⟨_, hpush, .one _ rfl rfl, rfl, rfl⟩
  | object =>
    obtain ⟨s₁, hpush, rfl⟩ := Spends.push files { s with
      mode := .raw []
      frame := s.frame.pastAll (Enclosure.object.opener ++ content ++ Enclosure.object.closer) }
      (.objectOfContent content (Enclosure.object.opener ++ content ++ Enclosure.object.closer) start)
    exact ⟨_, hpush, .one _ rfl rfl, rfl, rfl⟩

/-- Whether the text goes on as the grammar asks. -/
def Mode.Accepts : Mode → List Lexeme → Prop
  | .raw _, ls => Delimited ls
  | .enclosed e _ _, ls => Closes e ls

/-- Whether a marker is being read. -/
def Mode.inMarker : Mode → Bool
  | .enclosed .marker _ _ => true
  | _ => false

theorem Mode.inMarker_add (cs : List Char) (mode : Mode) :
    (mode.add cs).inMarker = mode.inMarker := by
  cases mode with
  | raw read => rfl
  | enclosed e start read => cases e <;> rfl

theorem Mode.inMarker_enclosed {e : Enclosure} (he : e ≠ .marker) (start : Pos)
    (read : List Char) : (Mode.enclosed e start read).inMarker = false := by
  cases e with
  | marker => exact absurd rfl he
  | object => rfl
  | tag => rfl

/-- An enclosure that is being read outside of markers is no marker. -/
theorem Mode.ne_marker {mode : Mode} {e : Enclosure} {start : Pos} {read : List Char}
    (h : mode.inMarker = false) (hmode : mode = .enclosed e start read) : e ≠ .marker := by
  rintro rfl
  rw [hmode] at h
  cases h

/-- A scan outside of markers, in the file that it started in. -/
structure Flat (s : Scan) : Prop where
  outer : s.outer = []
  count : s.count = s.found.length
  mode : s.mode.inMarker = false

namespace Flat

theorem flush (h : Flat s) (files : Files) (read : List Char) :
    ∃ s₁, Spends files (Scan.flush files · s read) s.count s₁.count (.ok s₁) ∧
      s₁.outer = [] ∧ s₁.count = s₁.found.length := by
  obtain ⟨s₁, hspends, hgrows, houter⟩ := Spends.flush files s read
  exact ⟨s₁, hspends, houter.trans h.outer, hgrows.counted h.count⟩

theorem add (h : Flat s) (cs : List Char) : Flat { s with mode := s.mode.add cs } :=
  ⟨h.outer, h.count, (Mode.inMarker_add cs s.mode).trans h.mode⟩

/-- An object or a tag is closed. -/
theorem close {e : Enclosure} (h : Flat s) (he : e ≠ .marker) (files : Files) (start : Pos)
    (content : List Char) :
    ∃ s₁, Spends files (fun limit => Scan.close files limit s e start content) s.count s₁.count
      (.ok s₁) ∧ Flat s₁ ∧ s₁.mode = .raw [] := by
  obtain ⟨s₁, hspends, hgrows, houter, hmode⟩ := Spends.close he files s start content
  refine ⟨s₁, hspends, ⟨houter.trans h.outer, hgrows.counted h.count, ?_⟩, hmode⟩
  rw [hmode]
  rfl

/-- A lexeme is taken as the grammar takes it, or the text is refused as the grammar refuses it. -/
theorem step (h : Flat s) (files : Files) (hl : l ≠ .open .marker) :
    (∃ s₁, Spends files (fun limit => Scan.step files limit s l) s.count s₁.count (.ok s₁) ∧
      Flat s₁ ∧ ∀ ls, s₁.mode.Accepts ls ↔ s.mode.Accepts (l :: ls)) ∨
    (∃ fault pos, Spends files (fun limit => Scan.step files limit s l) s.count s.count
      (.error (.atPos (.malformedToken fault) files pos)) ∧ ∀ ls, ¬ s.mode.Accepts (l :: ls)) := by
  cases hmode : s.mode with
  | raw read =>
    refine .inl ?_
    cases l with
    | «open» e =>
      obtain ⟨s₁, hflush, houter, hcount⟩ := h.flush files read
      refine ⟨{ s₁ with mode := .enclosed e s₁.frame.pos [] }, ?_, ⟨houter, hcount, ?_⟩,
        fun ls => delimited_open.symm⟩
      · simp only [Scan.step, hmode]
        exact hflush.bind .pure
      · refine Mode.inMarker_enclosed (fun he => hl ?_) _ _
        rw [he]
    | char c =>
      have hadd := h.add [c]
      simp only [Scan.step, hmode] at hadd ⊢
      exact ⟨_, .pure, hadd, fun ls => (delimited_cons (Lexeme.char_ne_open c)).symm⟩
    | close e =>
      have hadd := h.add e.closer
      simp only [Scan.step, hmode] at hadd ⊢
      exact ⟨_, .pure, hadd, fun ls => (delimited_cons (Lexeme.close_ne_open e)).symm⟩
  | enclosed e start read =>
    cases l with
    | «open» e' =>
      refine .inr ⟨.interrupted e e', start, ?_, fun ls => not_closes_open⟩
      simp only [Scan.step, hmode]
      exact .pure
    | char c =>
      have hadd := h.add [c]
      simp only [Scan.step, hmode] at hadd ⊢
      exact .inl ⟨_, .pure, hadd, fun ls =>
        (closes_cons (Lexeme.char_ne_open c) (Lexeme.char_ne_close c e)).symm⟩
    | close e' =>
      refine .inl ?_
      by_cases hclose : e' = e
      · subst hclose
        have he : e' ≠ .marker := Mode.ne_marker h.mode hmode
        obtain ⟨s₁, hspends, hflat, hraw⟩ := h.close he files start read.reverse
        refine ⟨s₁, ?_, hflat, fun ls => ?_⟩
        · simp only [Scan.step, hmode]
          exact hspends
        · rw [hraw]
          exact closes_close.symm
      · have hne : Lexeme.close e' ≠ .close e := fun h => hclose (Lexeme.close.inj h)
        have hadd := h.add e'.closer
        simp only [Scan.step, hmode, if_neg hne] at hadd ⊢
        exact ⟨_, .pure, hadd, fun ls => (closes_cons (Lexeme.close_ne_open e') hne).symm⟩

/-- The scan of the rest of a text ends as the grammar says. -/
theorem ends (h : Flat s) (files : Files) (hls : .open .marker ∉ ls) :
    ∃ count result, Spends files
        (fun limit => ls.foldlM (Scan.step files limit) s >>= Scan.finish files limit) s.count count
        result ∧
      (s.mode.Accepts ls → ∃ tokens, result = .ok tokens ∧ tokens.length = count) ∧
      (¬ s.mode.Accepts ls →
        ∃ fault pos, result = .error (.atPos (.malformedToken fault) files pos)) := by
  induction ls generalizing s with
  | nil =>
    cases hmode : s.mode with
    | enclosed e start read =>
      refine ⟨s.count, .error (.atPos (.malformedToken (.unclosed e)) files start), ?_,
        fun hcloses => absurd hcloses not_closes_nil, fun _ => ⟨_, start, rfl⟩⟩
      simp only [List.foldlM_nil, pure_bind, finish, hmode]
      exact .pure
    | raw read =>
      obtain ⟨s₁, hflush, houter, hcount⟩ := h.flush files read
      refine ⟨s₁.count, .ok s₁.found.reverse, ?_, fun _ => ⟨_, rfl, ?_⟩,
        fun hnot => absurd .nil hnot⟩
      · simp only [List.foldlM_nil, pure_bind, finish, hmode]
        refine hflush.bind ?_
        simp only [houter]
        exact .pure
      · rw [List.length_reverse, hcount]
  | cons l ls ih =>
    rw [List.mem_cons, not_or] at hls
    simp only [List.foldlM_cons, bind_assoc]
    rcases h.step files (Ne.symm hls.1) with
      ⟨s₁, hstep, hflat, hmode⟩ | ⟨fault, pos, hstep, hmode⟩
    · obtain ⟨count, result, hspends, hok, herror⟩ := ih hflat hls.2
      rw [hmode ls] at hok herror
      exact ⟨count, result, hstep.bind hspends, hok, herror⟩
    · exact ⟨s.count, _, hstep.fails, fun haccepts => absurd haccepts (hmode ls),
        fun _ => ⟨fault, pos, rfl⟩⟩

end Flat

end Scan

end Stencil
