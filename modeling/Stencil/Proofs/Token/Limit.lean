import Stencil.Proofs.Token.Lossless

/-!
# The limit on tokens

A scan checks the limit wherever it finds a token, in the midst of moving on in a file, and it meets
malformed text in between. Still the limit is a guard and nothing else: a text has its tokens and its
fault without any limit, and a limit only says how much of that is reached.

* `Scan.unlimited`: a scan without a limit, with the tokens that it has emitted when it fails;
* `Scan.step_spends`: what one step comes to under every limit;
* `Scan.weight_step`: how far one step comes, so that a text has no more tokens than characters;
* `Scan.unlimited_spends`: what a run comes to;
* `tokenize_limit`: under a limit a text has the tokens, or the fault, that it has without one, as
  soon as there is room for the tokens that are emitted before.
-/

namespace Stencil

open Text

/-! ## Without a limit -/

/-- What a text comes to. -/
structure Outcome where
  /-- The tokens that are emitted. -/
  tokens : List Token
  /-- The error that stops the scan before its end, if one does. -/
  error : Option Error

/-- What is left of an outcome where a failure takes the tokens back. -/
def Outcome.result : Outcome → Except Error (List Token)
  | ⟨tokens, none⟩ => .ok tokens
  | ⟨_, some e⟩ => .error e

namespace Scan

/-- A limit that leaves room for one more token. -/
def room (s : Scan) : Nat := s.count + 1

/-- The end of a text: raw text becomes a token before the files are looked at. -/
def ending (files : Files) (s : Scan) : Outcome :=
  match s.mode with
  | .enclosed e start _ =>
    ⟨s.found.reverse, some (.atPos (.malformedToken (.unclosed e)) files start)⟩
  | .raw read =>
    match s.flush files s.room read with
    | .error e => ⟨s.found.reverse, some e⟩
    | .ok s =>
      ⟨s.found.reverse,
        if s.outer.isEmpty then none
        else some (.atPos (.malformedToken (.openFile s.frame.file)) files s.frame.pos)⟩

/-- A scan in which every step has room for the token that it may find. -/
def unlimited (files : Files) : Scan → List Lexeme → Outcome
  | s, [] => s.ending files
  | s, l :: ls =>
    match s.step files s.room l with
    | .error e => ⟨s.found.reverse, some e⟩
    | .ok s => unlimited files s ls

end Scan

/-- The tokens of a flattened text, and its fault if it has one, where nothing limits their number. -/
def tokenizeFreely (text root : String) (files : Files) : Outcome :=
  Scan.unlimited files { frame := { file := root } } (lexemes text.toList)

/-! ## Under a limit -/

namespace Scan

variable {files : Files} {s s₁ : Scan} {l : Lexeme}

/-- What is being read does not count. -/
theorem Grows.reading (h : Grows s s₁) (mode : Mode) : Grows s { s₁ with mode } := by
  cases h with
  | same count found => exact .same count found
  | one token count found => exact .one token count found

/-- With room for one more token an action ends as it does with room for more. -/
theorem Spends.at_room {α : Type} {act : Nat → Except Error α} {m : Nat} {result : Except Error α}
    (h : Spends files act s.count m result) (hm : m ≤ s.count + 1) : act s.room = result :=
  h.room s.room hm

/-- A marker finds no token. -/
theorem mark_cases (files : Files) (s : Scan) (start : Pos) (content : List Char) :
    (∃ frame outer, mark files s start content = .ok { s with frame, outer }) ∨
    ∃ fault pos, mark files s start content =
      .error (.atPos (.malformedToken fault) files pos) := by
  cases hmark : mark files s start content with
  | ok s₁ =>
    obtain ⟨frame, outer, rfl⟩ := mark_ok hmark
    exact .inl ⟨frame, outer, rfl⟩
  | error e =>
    unfold mark at hmark
    dsimp only at hmark
    split at hmark
    · cases hmark
    · split at hmark
      · cases hmark
      · exact .inr ⟨_, _, hmark.symm⟩
    · exact .inr ⟨_, _, hmark.symm⟩
    · cases hmark

/-- A step finds one token at most, or it finds none and the text is malformed. -/
theorem step_spends (files : Files) (s : Scan) (l : Lexeme) :
    (∃ s₁, Spends files (fun limit => step files limit s l) s.count s₁.count (.ok s₁) ∧
      Grows s s₁) ∨
    ∃ fault pos, Spends files (fun limit => step files limit s l) s.count s.count
      (.error (.atPos (.malformedToken fault) files pos)) := by
  -- A lexeme that opens and closes nothing where it stands is read as the text that it is.
  have hreads (cs : List Char) : Grows s { s with mode := s.mode.add cs } := .same rfl rfl
  cases l with
  | char c =>
    simp only [step_char]
    exact .inl ⟨_, .pure, hreads [c]⟩
  | «open» e =>
    cases hmode : s.mode with
    | raw read =>
      obtain ⟨s₁, hflush, hgrows, -⟩ := Spends.flush files s read
      refine .inl ⟨{ s₁ with mode := .enclosed e s₁.frame.pos [] }, ?_, hgrows.reading _⟩
      simp only [step, hmode]
      exact hflush.bind .pure
    | enclosed e' start read =>
      refine .inr ⟨.interrupted e' e, start, ?_⟩
      simp only [step, hmode]
      exact .pure
  | close e =>
    have hread := hreads e.closer
    cases hmode : s.mode with
    | raw read =>
      rw [hmode] at hread
      simp only [step, hmode]
      exact .inl ⟨_, .pure, hread⟩
    | enclosed e' start read =>
      rw [hmode] at hread
      simp only [step, hmode]
      by_cases hclose : Lexeme.close e = .close e'
      · simp only [if_pos hclose]
        by_cases he : e' = .marker
        · subst he
          simp only [close]
          rcases mark_cases files { s with mode := .raw [] } start read.reverse with
            ⟨frame, outer, hmark⟩ | ⟨fault, pos, hmark⟩
          · rw [hmark]
            exact .inl ⟨{ s with mode := .raw [], frame, outer }, .pure, .same rfl rfl⟩
          · rw [hmark]
            exact .inr ⟨fault, pos, .pure⟩
        · obtain ⟨s₁, hspends, hgrows, -⟩ := Spends.close he files s start read.reverse
          exact .inl ⟨s₁, hspends, hgrows⟩
      · simp only [if_neg hclose]
        exact .inl ⟨_, .pure, hread⟩

/-! ## What is taken -/

/-- How far a scan has come: the tokens, and the characters that no token has yet. -/
def weight (s : Scan) : Nat := s.count + s.mode.pending.length

theorem flush_count {limit : Nat} {read : List Char} (h : flush files limit s read = .ok s₁) :
    s₁.count ≤ s.count + read.length := by
  unfold flush at h
  split at h
  · obtain rfl := Except.ok.inj h
    exact Nat.le_add_right _ _
  · next hread =>
    obtain rfl := push_ok h
    have hpos := List.length_pos_iff.2 fun hnil => hread (List.isEmpty_iff.2 hnil)
    exact Nat.add_le_add_left hpos s.count

/-- Every token takes a character. -/
theorem weight_step {limit : Nat} (h : step files limit s l = .ok s₁) :
    s₁.weight ≤ s.weight + l.text.length := by
  unfold weight
  rcases step_cases h with
    ⟨e, read, s₀, rfl, hmode, hflush, rfl⟩ | ⟨e, start, read, rfl, hmode, hclose⟩ | ⟨-, -, rfl⟩
  · have hcount := flush_count hflush
    simp only [hmode, Mode.pending, Lexeme.text, List.length_append, List.length_reverse,
      List.length_nil]
    omega
  · by_cases he : e = .marker
    · subst he
      obtain ⟨frame, outer, rfl⟩ := mark_ok hclose
      simp [Mode.pending]
      omega
    · obtain ⟨token, -, -, rfl⟩ := close_ok he hclose
      have hopener : 0 < e.opener.length := by cases e <;> decide
      simp only [hmode, Mode.pending, List.length_append, List.length_reverse, List.length_nil]
      omega
  · simp only [Mode.pending_add, List.length_append]
    omega

/-! ## A run -/

/-- A scan without a limit takes a lexeme and goes on, or it ends there. -/
theorem unlimited_cons (files : Files) (hs : s.count = s.found.length) (l : Lexeme)
    (ls : List Lexeme) :
    (∃ s₁, Spends files (fun limit => step files limit s l) s.count s₁.count (.ok s₁) ∧
      s₁.count = s₁.found.length ∧ s₁.weight ≤ s.weight + l.text.length ∧
      unlimited files s (l :: ls) = unlimited files s₁ ls) ∨
    ∃ fault pos, Spends files (fun limit => step files limit s l) s.count s.count
        (.error (.atPos (.malformedToken fault) files pos)) ∧
      unlimited files s (l :: ls) =
        ⟨s.found.reverse, some (.atPos (.malformedToken fault) files pos)⟩ := by
  rcases step_spends files s l with ⟨s₁, hstep, hgrows⟩ | ⟨fault, pos, hstep⟩
  · have hroom : step files s.room s l = .ok s₁ := hstep.at_room hgrows.count_le
    exact .inl ⟨s₁, hstep, hgrows.counted hs, weight_step hroom, by rw [unlimited, hroom]⟩
  · have hroom : step files s.room s l = _ := hstep.at_room (Nat.le_succ _)
    exact .inr ⟨fault, pos, hstep, by rw [unlimited, hroom]⟩

/-- Raw text at the end becomes a token, and a file that is open there is reported. -/
theorem ending_raw {read : List Char} (files : Files) (hs : s.count = s.found.length)
    (hmode : s.mode = .raw read) :
    ∃ s₁, Spends files (flush files · s read) s.count s₁.count (.ok s₁) ∧
      s₁.count = s₁.found.length ∧ s₁.count ≤ s.weight ∧
      s.ending files = ⟨s₁.found.reverse, if s₁.outer.isEmpty then none else
        some (.atPos (.malformedToken (.openFile s₁.frame.file)) files s₁.frame.pos)⟩ := by
  obtain ⟨s₁, hflush, hgrows, -⟩ := Spends.flush files s read
  have hroom : s.flush files s.room read = .ok s₁ := hflush.at_room hgrows.count_le
  refine ⟨s₁, hflush, hgrows.counted hs, ?_, ?_⟩
  · simp only [weight, hmode, Mode.pending, List.length_reverse]
    exact flush_count hroom
  · simp only [ending, hmode, hroom]

theorem ending_spends (files : Files) (hs : s.count = s.found.length) :
    Spends files (fun limit => s.finish files limit) s.count (s.ending files).tokens.length
        (s.ending files).result ∧
      (∀ e ∈ (s.ending files).error, ∃ fault pos, e = .atPos (.malformedToken fault) files pos) ∧
      (s.ending files).tokens.length ≤ s.weight := by
  cases hmode : s.mode with
  | enclosed e start read =>
    simp only [finish, ending, hmode, List.length_reverse, ← hs]
    exact ⟨.pure, fun e he => ⟨_, _, (Option.some.inj he).symm⟩, Nat.le_add_right _ _⟩
  | raw read =>
    obtain ⟨s₁, hflush, hcounted, hweight, hending⟩ := ending_raw files hs hmode
    simp only [finish, hmode, hending, List.length_reverse, ← hcounted]
    by_cases houter : s₁.outer.isEmpty
    · simp only [if_pos houter]
      refine ⟨hflush.bind ?_, fun e he => absurd he (Option.not_mem_none e), hweight⟩
      simp only [if_pos houter]
      exact .pure
    · simp only [if_neg houter]
      refine ⟨hflush.bind ?_, fun e he => ⟨_, _, (Option.some.inj he).symm⟩, hweight⟩
      simp only [if_neg houter]
      exact .pure

/-- Under every limit a run comes to what it comes to without one, as far as there is room. -/
theorem unlimited_spends (files : Files) (hs : s.count = s.found.length) (ls : List Lexeme) :
    Spends files (fun limit => ls.foldlM (step files limit) s >>= finish files limit) s.count
        (unlimited files s ls).tokens.length (unlimited files s ls).result ∧
      (∀ e ∈ (unlimited files s ls).error,
        ∃ fault pos, e = .atPos (.malformedToken fault) files pos) ∧
      (unlimited files s ls).tokens.length ≤ s.weight + (ls.flatMap Lexeme.text).length := by
  -- The tokens stay counted along the run, so the room that a failure needs is the count there.
  induction ls generalizing s with
  | nil => exact ending_spends files hs
  | cons l ls ih =>
    simp only [List.foldlM_cons, bind_assoc, List.flatMap_cons, List.length_append]
    rcases unlimited_cons files hs l ls with
      ⟨s₁, hstep, hcounted, hweight, hgoes⟩ | ⟨fault, pos, hstep, hends⟩
    · obtain ⟨hrest, hfault, hlength⟩ := ih hcounted
      rw [hgoes]
      exact ⟨hstep.bind hrest, hfault, by omega⟩
    · rw [hends, List.length_reverse, ← hs, weight]
      exact ⟨hstep.fails, fun e he => ⟨fault, pos, (Option.some.inj he).symm⟩, by omega⟩

end Scan

/-- A text has its tokens, and possibly the fault that stops the scan behind them, whatever the limit
is. Under a limit with room for these tokens, as is one that is no less than the length of the text,
the text has the tokens, or the fault if there is one. Under any other limit the limit is
reported. -/
theorem tokenize_limit (text root : String) (files : Files) :
    (∀ limit, text.length ≤ limit →
      tokenize text root files limit = (tokenizeFreely text root files).result) ∧
    (∀ e ∈ (tokenizeFreely text root files).error,
      ∃ fault pos, e = .atPos (.malformedToken fault) files pos) ∧
    ∀ limit,
      ((tokenizeFreely text root files).tokens.length ≤ limit →
        tokenize text root files limit = (tokenizeFreely text root files).result) ∧
      (limit < (tokenizeFreely text root files).tokens.length →
        ∃ pos, tokenize text root files limit = .error (.atPos (.tokenLimit limit) files pos)) := by
  obtain ⟨hspends, hfault, hlength⟩ :=
    Scan.unlimited_spends (s := { frame := { file := root } }) files rfl (lexemes text.toList)
  rw [text_lexemes, String.length_toList] at hlength
  have hfits : (tokenizeFreely text root files).tokens.length ≤ text.length := by
    simpa [tokenizeFreely, Scan.weight, Scan.Mode.pending] using hlength
  exact ⟨fun limit hlimit => hspends.room limit (hfits.trans hlimit), hfault,
    fun limit => ⟨hspends.room limit, hspends.full limit (Nat.zero_le limit)⟩⟩

/-- A text with an object that is not closed, behind the raw text of two files. -/
def unclosedText : String := "a\x7b# beg 2 0 nav #\x7db\x7b\x7b c"

/-- The object is reported when there is room for the raw texts, and the limit when there is not. -/
theorem tokenize_limit_unclosed :
    (∃ pos, tokenize unclosedText "page" {} 1 = .error (.atPos (.tokenLimit 1) {} pos)) ∧
      tokenize unclosedText "page" {} 2 =
        .error (.atPos (.malformedToken (.unclosed .object)) {} ⟨"nav", 1⟩) ∧
      tokenize unclosedText "page" {} unclosedText.length =
        .error (.atPos (.malformedToken (.unclosed .object)) {} ⟨"nav", 1⟩) := by
  obtain ⟨hlong, -, hlimit⟩ := tokenize_limit unclosedText "page" {}
  have hlength : (tokenizeFreely unclosedText "page" {}).tokens.length = 2 := by decide +kernel
  have hresult : (tokenizeFreely unclosedText "page" {}).result =
      .error (.atPos (.malformedToken (.unclosed .object)) {} ⟨"nav", 1⟩) := by rfl
  rw [← hresult]
  exact ⟨(hlimit 1).2 (by rw [hlength]; decide), (hlimit 2).1 (le_of_eq hlength),
    hlong _ (Nat.le_refl _)⟩

end Stencil
