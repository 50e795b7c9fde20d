import Mathlib.Data.List.Chain
import Stencil.Proofs.Token.Delimited

/-!
# Tokens spell the text

Tokenizing loses nothing but markers. Without markers it succeeds for the texts of the grammar, and
raw text goes from one enclosure to the next.

* `Scan.spelled_step`: no step of a scan loses a character outside of markers.
* `Scan.Orderly.step`: raw text is read up to the next opener.
* `tokenize_lossless`: which texts have tokens, and what these are.
-/

namespace Stencil

open Text

/-- What stands outside of markers, from inside of one or not. -/
def withoutMarkers : Bool → List Lexeme → List Char
  | _, [] => []
  | false, .open .marker :: ls => withoutMarkers true ls
  | false, l :: ls => l.text ++ withoutMarkers false ls
  | true, .close .marker :: ls => withoutMarkers false ls
  | true, _ :: ls => withoutMarkers true ls

theorem toList_sourceOf (tokens : List Token) :
    (sourceOf tokens).toList = tokens.flatMap (·.source.toList) := by
  rw [sourceOf, String.toList_join]
  simp [List.flatMap_map]

theorem toList_sourceOf_snoc (tokens : List Token) (token : Token) :
    (sourceOf (tokens ++ [token])).toList = (sourceOf tokens).toList ++ token.source.toList := by
  simp [toList_sourceOf]

/-! ## Nothing is lost -/

namespace Scan

variable {files : Files} {limit : Nat} {s s₁ : Scan} {l : Lexeme} {ls : List Lexeme}

/-- What is being read, unless it is a marker. -/
def Mode.shown (mode : Mode) : List Char := if mode.inMarker then [] else mode.pending

/-- What the tokens spell once the scan has come to its end. -/
def spelled (s : Scan) (ls : List Lexeme) : List Char :=
  (sourceOf s.found.reverse).toList ++ s.mode.shown ++ withoutMarkers s.mode.inMarker ls

theorem push_sources {token : Token} (h : push files limit s token = .ok s₁) :
    (sourceOf s₁.found.reverse).toList =
      (sourceOf s.found.reverse).toList ++ token.source.toList := by
  obtain rfl := push_ok h
  rw [List.reverse_cons, toList_sourceOf_snoc]

theorem flush_sources {read : List Char} (h : flush files limit s read = .ok s₁) :
    (sourceOf s₁.found.reverse).toList = (sourceOf s.found.reverse).toList ++ read.reverse := by
  unfold flush at h
  split at h
  · next hread =>
    obtain rfl := Except.ok.inj h
    rw [List.isEmpty_iff.1 hread, List.reverse_nil, List.append_nil]
  · rw [push_sources h, Token.source, String.toList_ofList]

/-- What a scan does with a lexeme: it opens an enclosure, closes one, or reads on. -/
theorem step_cases (h : step files limit s l = .ok s₁) :
    (∃ e read s₀, l = .open e ∧ s.mode = .raw read ∧ flush files limit s read = .ok s₀ ∧
      s₁ = { s₀ with mode := .enclosed e s₀.frame.pos [] }) ∨
    (∃ e start read, l = .close e ∧ s.mode = .enclosed e start read ∧
      close files limit s e start read.reverse = .ok s₁) ∨
    ((∀ e, l ≠ .open e) ∧ (∀ e start read, s.mode = .enclosed e start read → l ≠ .close e) ∧
      s₁ = { s with mode := s.mode.add l.text }) := by
  cases l with
  | «open» e =>
    obtain ⟨read, s₀, hmode, hflush, rfl⟩ := step_open h
    exact .inl ⟨e, read, s₀, rfl, hmode, hflush, rfl⟩
  | char c =>
    rw [step_char] at h
    obtain rfl := Except.ok.inj h
    exact .inr (.inr ⟨Lexeme.char_ne_open c, fun e _ _ _ => Lexeme.char_ne_close c e, rfl⟩)
  | close e =>
    cases hmode : s.mode with
    | raw read =>
      simp only [step, hmode] at h
      obtain rfl := Except.ok.inj h
      exact .inr (.inr ⟨Lexeme.close_ne_open e, fun _ _ _ hraw => (by cases hraw), rfl⟩)
    | enclosed e' start read =>
      simp only [step, hmode] at h
      split at h
      · next hclose =>
        cases hclose
        exact .inr (.inl ⟨e, start, read, rfl, rfl, h⟩)
      · next hne =>
        obtain rfl := Except.ok.inj h
        refine .inr (.inr ⟨Lexeme.close_ne_open e, fun e'' start' read' hmode' => ?_, rfl⟩)
        cases hmode'
        exact hne

/-- A marker changes the frames alone. -/
theorem mark_ok {start : Pos} {content : List Char} (h : mark files s start content = .ok s₁) :
    ∃ frame outer, s₁ = { s with frame, outer } := by
  unfold mark at h
  dsimp only at h
  split at h
  · exact ⟨_, _, (Except.ok.inj h).symm⟩
  · split at h
    · exact ⟨_, _, (Except.ok.inj h).symm⟩
    · cases h
  · cases h
  · exact ⟨_, _, (Except.ok.inj h).symm⟩

theorem withoutMarkers_cons (h : l ≠ .open .marker) (ls : List Lexeme) :
    withoutMarkers false (l :: ls) = l.text ++ withoutMarkers false ls := by
  cases l with
  | char c => rfl
  | close e => rfl
  | «open» e =>
    cases e with
    | marker => exact absurd rfl h
    | object => rfl
    | tag => rfl

theorem withoutMarkers_inside (h : l ≠ .close .marker) (ls : List Lexeme) :
    withoutMarkers true (l :: ls) = withoutMarkers true ls := by
  cases l with
  | char c => rfl
  | «open» e => cases e <;> rfl
  | close e =>
    cases e with
    | marker => exact absurd rfl h
    | object => rfl
    | tag => rfl

/-- Reading on loses nothing. -/
theorem spelled_add (hopen : l ≠ .open .marker) (hclose : s.mode.inMarker → l ≠ .close .marker)
    (ls : List Lexeme) :
    { s with mode := s.mode.add l.text }.spelled ls = s.spelled (l :: ls) := by
  simp only [spelled, Mode.shown, Mode.inMarker_add, Mode.pending_add]
  cases hin : s.mode.inMarker with
  | false => simp [withoutMarkers_cons hopen]
  | true => simp [withoutMarkers_inside (hclose hin)]

/-- No step loses a character outside of markers. -/
theorem spelled_step (h : step files limit s l = .ok s₁) (ls : List Lexeme) :
    s₁.spelled ls = s.spelled (l :: ls) := by
  rcases step_cases h with
    ⟨e, read, s₀, rfl, hmode, hflush, rfl⟩ | ⟨e, start, read, rfl, hmode, hclose⟩ |
      ⟨hopen, hclose, rfl⟩
  · simp only [spelled, hmode, flush_sources hflush]
    cases e <;> simp [Mode.shown, Mode.inMarker, Mode.pending, withoutMarkers, Lexeme.text]
  · by_cases he : e = .marker
    · subst he
      obtain ⟨frame, outer, rfl⟩ := mark_ok hclose
      simp [spelled, hmode, Mode.shown, Mode.inMarker, Mode.pending, withoutMarkers]
    · obtain ⟨token, -, hsource, rfl⟩ := close_ok he hclose
      simp only [spelled, hmode, List.reverse_cons, toList_sourceOf_snoc, hsource]
      cases e with
      | marker => exact absurd rfl he
      | object => simp [Mode.shown, Mode.inMarker, Mode.pending, withoutMarkers, Lexeme.text]
      | tag => simp [Mode.shown, Mode.inMarker, Mode.pending, withoutMarkers, Lexeme.text]
  · refine spelled_add (hopen _) (fun hin => ?_) ls
    cases hmode : s.mode with
    | raw read => simp [hmode, Mode.inMarker] at hin
    | enclosed e start read =>
      cases e with
      | marker => exact hclose _ _ _ hmode
      | object => simp [hmode, Mode.inMarker] at hin
      | tag => simp [hmode, Mode.inMarker] at hin

/-- So does no run. -/
theorem spelled_run (h : ls.foldlM (step files limit) s = .ok s₁) :
    s₁.spelled [] = s.spelled ls := by
  induction ls generalizing s with
  | nil =>
    obtain rfl := Except.ok.inj h
    rfl
  | cons l ls ih =>
    obtain ⟨s₀, hstep, hrun⟩ := foldlM_cons_ok h
    rw [ih hrun, spelled_step hstep]

/-- The tokens spell what the scan has come to spell. -/
theorem spelled_finish {tokens : List Token} (h : s.finish files limit = .ok tokens) :
    (sourceOf tokens).toList = s.spelled [] := by
  obtain ⟨read, s₁, hmode, hflush, -, rfl⟩ := finish_ok h
  rw [flush_sources hflush]
  simp [spelled, hmode, Mode.shown, Mode.inMarker, Mode.pending, withoutMarkers]

end Scan

theorem run_of_tokenize {text root : String} {files : Files} {limit : Nat} {tokens : List Token}
    (h : tokenize text root files limit = .ok tokens) :
    ∃ s, (lexemes text.toList).foldlM (Scan.step files limit) { frame := { file := root } } =
        .ok s ∧
      s.finish files limit = .ok tokens := by
  unfold tokenize at h
  cases hrun :
    (lexemes text.toList).foldlM (Scan.step files limit) { frame := { file := root } } with
  | error e =>
    rw [hrun] at h
    cases h
  | ok s =>
    rw [hrun] at h
    exact ⟨s, rfl, h⟩

/-- The tokens of a text spell it, but for its markers. -/
theorem sourceOf_tokenize {text root : String} {files : Files} {limit : Nat} {tokens : List Token}
    (h : tokenize text root files limit = .ok tokens) :
    (sourceOf tokens).toList = withoutMarkers false (lexemes text.toList) := by
  obtain ⟨s, hrun, hfinish⟩ := run_of_tokenize h
  rw [Scan.spelled_finish hfinish, Scan.spelled_run hrun]
  rfl

/-- A text without markers stays as it is. -/
theorem withoutMarkers_eq {ls : List Lexeme} (h : .open .marker ∉ ls) :
    withoutMarkers false ls = ls.flatMap Lexeme.text := by
  induction ls with
  | nil => rfl
  | cons l ls ih =>
    rw [List.mem_cons, not_or] at h
    rw [Scan.withoutMarkers_cons (Ne.symm h.1), ih h.2, List.flatMap_cons]

/-! ## Raw text is as long as it can be -/

/-- The token is raw text. -/
def Token.IsRaw (token : Token) : Prop := ∃ text pos, token = .raw text pos

/-- Raw text stands between enclosures, and goes from one to the next. -/
structure Token.Parted (tokens : List Token) : Prop where
  raw : ∀ text pos, .raw text pos ∈ tokens → text ≠ "" ∧ OpensNothing text.toList
  apart : tokens.IsChain fun token token' => ¬ (token.IsRaw ∧ token'.IsRaw)

namespace Scan

variable {files : Files} {limit : Nat} {s s₁ : Scan} {l : Lexeme} {ls : List Lexeme}

/-- An object or a tag is not raw. -/
theorem close_found {e : Enclosure} {start : Pos} {content : List Char} (he : e ≠ .marker)
    (h : close files limit s e start content = .ok s₁) :
    ∃ token : Token, ¬ token.IsRaw ∧ s₁.found = token :: s.found ∧ s₁.mode = .raw [] := by
  cases e with
  | marker => exact absurd rfl he
  | tag =>
    obtain rfl := push_ok h
    refine ⟨_, ?_, rfl, rfl⟩
    rintro ⟨text, pos, hraw⟩
    cases hraw
  | object =>
    obtain rfl := push_ok h
    refine ⟨_, ?_, rfl, rfl⟩
    rintro ⟨text, pos, hraw⟩
    cases hraw

/-- The scan of a text without markers has come to `ls`. Since the last token it has read
`since`. -/
structure Orderly (s : Scan) (since ls : List Lexeme) : Prop where
  parted : Token.Parted s.found
  outside : s.mode.inMarker = false
  greedy : lexemes ((since ++ ls).flatMap Lexeme.text) = since ++ ls
  raw : ∀ read, s.mode = .raw read → read.reverse = since.flatMap Lexeme.text ∧
    (∀ e, .open e ∉ since) ∧ ∀ token ∈ s.found.head?, ¬ token.IsRaw

namespace Orderly

variable {since : List Lexeme}

/-- The lexemes behind those that were read are their own ones. -/
theorem behind (h : Orderly s since (l :: ls)) : lexemes (ls.flatMap Lexeme.text) = ls := by
  have hcut : lexemes ((since ++ l :: ls).flatMap Lexeme.text) = (since ++ [l]) ++ ls := by
    rw [h.greedy, List.append_assoc, List.singleton_append]
  exact (lexemes_cut hcut).2

/-- Raw text ends. -/
theorem flush {read : List Char} (h : Orderly s since ls) (hmode : s.mode = .raw read)
    (hflush : Scan.flush files limit s read = .ok s₁) : Token.Parted s₁.found := by
  obtain ⟨hread, hopen, hhead⟩ := h.raw read hmode
  unfold Scan.flush at hflush
  split at hflush
  · obtain rfl := Except.ok.inj hflush
    exact h.parted
  · next hempty =>
    obtain rfl := push_ok hflush
    refine ⟨fun text pos hmem => ?_, ?_⟩
    · rcases List.mem_cons.1 hmem with heq | hmem
      · obtain ⟨rfl, -⟩ := Token.raw.inj heq
        refine ⟨fun hnil => hempty ?_, ?_⟩
        · rw [List.isEmpty_iff, ← List.reverse_eq_nil_iff, ← String.toList_ofList (l := read.reverse),
            hnil]
          rfl
        · rw [String.toList_ofList, opensNothing_iff, hread, (lexemes_cut h.greedy).1]
          exact hopen
      · exact h.parted.raw text pos hmem
    · cases hfound : s.found with
      | nil => exact .singleton _
      | cons token found =>
        have hchain := h.parted.apart
        rw [hfound] at hchain hhead
        exact .cons_cons (fun hraws => hhead token rfl hraws.2) hchain

/-- A lexeme is read in an order. -/
theorem step (h : Orderly s since (l :: ls)) (hl : l ≠ .open .marker)
    (hstep : Scan.step files limit s l = .ok s₁) : ∃ since, Orderly s₁ since ls := by
  rcases step_cases hstep with
    ⟨e, read, s₀, rfl, hmode, hflush, rfl⟩ | ⟨e, start, read, rfl, hmode, hclose⟩ |
      ⟨hopen, hclose, rfl⟩
  · have hparted := h.flush hmode hflush
    refine ⟨[], hparted, Mode.inMarker_enclosed (fun he => hl ?_) _ _, h.behind, nofun⟩
    rw [he]
  · have he : e ≠ .marker := Mode.ne_marker h.outside hmode
    obtain ⟨token, hraw, hfound, hmode₁⟩ := close_found he hclose
    refine ⟨[], ⟨fun text pos hmem => ?_, ?_⟩, ?_, h.behind, fun read hread => ?_⟩
    · rw [hfound] at hmem
      rcases List.mem_cons.1 hmem with rfl | hmem
      · exact absurd ⟨text, pos, rfl⟩ hraw
      · exact h.parted.raw text pos hmem
    · rw [hfound]
      exact h.parted.apart.cons fun _ _ hraws => hraw hraws.1
    · rw [hmode₁]
      rfl
    · rw [hmode₁] at hread
      cases hread
      refine ⟨rfl, by simp, fun token' htoken => ?_⟩
      rw [hfound, List.head?_cons, Option.mem_some_iff] at htoken
      exact htoken ▸ hraw
  · have hgreedy : lexemes ((since ++ [l] ++ ls).flatMap Lexeme.text) = since ++ [l] ++ ls := by
      rw [List.append_assoc, List.singleton_append]
      exact h.greedy
    refine ⟨since ++ [l], h.parted, (Mode.inMarker_add _ _).trans h.outside, hgreedy,
      fun read hread => ?_⟩
    · cases hmode : s.mode with
      | enclosed e start' read' => simp [hmode, Mode.add] at hread
      | raw read' =>
        obtain ⟨hsince, hnone, hhead⟩ := h.raw read' hmode
        simp only [hmode, Mode.add, Mode.raw.injEq] at hread
        subst hread
        refine ⟨by simp [hsince], fun e hmem => ?_, hhead⟩
        rcases List.mem_append.1 hmem with hmem | hmem
        · exact hnone e hmem
        · exact hopen e (List.mem_singleton.1 hmem).symm

/-- So is a whole text. -/
theorem run (h : Orderly s since ls) (hls : .open .marker ∉ ls)
    (hrun : ls.foldlM (Scan.step files limit) s = .ok s₁) : ∃ since, Orderly s₁ since [] := by
  induction ls generalizing s since with
  | nil =>
    obtain rfl := Except.ok.inj hrun
    exact ⟨since, h⟩
  | cons l ls ih =>
    rw [List.mem_cons, not_or] at hls
    obtain ⟨s₀, hstep, hrun⟩ := foldlM_cons_ok hrun
    obtain ⟨since', h₀⟩ := h.step (Ne.symm hls.1) hstep
    exact ih h₀ hls.2 hrun

end Orderly

end Scan

/-- The tokens found are the latest first. -/
theorem Token.Parted.reverse {tokens : List Token} (h : Token.Parted tokens) :
    Token.Parted tokens.reverse where
  raw text pos hmem := h.raw text pos (List.mem_reverse.1 hmem)
  apart := by
    rw [List.isChain_reverse]
    exact h.apart.imp fun _ _ hraws hraws' => hraws hraws'.symm

/-- A text without markers has parted tokens. -/
theorem parted_tokenize {text root : String} {files : Files} {limit : Nat} {tokens : List Token}
    (hmarker : ¬ ['{', '#'] <:+: text.toList)
    (h : tokenize text root files limit = .ok tokens) : Token.Parted tokens := by
  obtain ⟨s, hrun, hfinish⟩ := run_of_tokenize h
  have hstart : Scan.Orderly { frame := { file := root } } [] (lexemes text.toList) :=
    ⟨⟨nofun, .nil⟩, rfl, by rw [List.nil_append, text_lexemes], fun read hread => by
      cases hread
      exact ⟨rfl, by simp, nofun⟩⟩
  obtain ⟨since, horderly⟩ := hstart.run (not_mem_lexemes hmarker) hrun
  obtain ⟨read, s₁, hmode, hflush, -, rfl⟩ := Scan.finish_ok hfinish
  exact (horderly.flush hmode hflush).reverse

/-- A text without markers has tokens, if there is room for them, as soon as every opener outside of
an enclosure is followed by its own closer before any other opener; otherwise it is malformed. The
tokens spell the text, no raw text is empty or could be longer, and none opens an enclosure. With
markers, the tokens of a text that has any spell what stands outside of the markers. -/
theorem tokenize_lossless (text root : String) (files : Files) :
    (¬ ['{', '#'] <:+: text.toList → ∃ count, ∀ limit,
      (limit < count → ∃ pos, tokenize text root files limit =
        .error (.atPos (.tokenLimit limit) files pos)) ∧
      (count ≤ limit →
        ((∃ tokens, tokenize text root files limit = .ok tokens) ↔
          Delimited (lexemes text.toList)) ∧
        (¬ Delimited (lexemes text.toList) → ∃ fault pos, tokenize text root files limit =
          .error (.atPos (.malformedToken fault) files pos))) ∧
      ∀ tokens, tokenize text root files limit = .ok tokens →
        tokens.length = count ∧ sourceOf tokens = text ∧ Token.Parted tokens) ∧
    ∀ limit tokens, tokenize text root files limit = .ok tokens →
      (sourceOf tokens).toList = withoutMarkers false (lexemes text.toList) := by
  refine ⟨fun hmarker => ?_, fun limit tokens h => sourceOf_tokenize h⟩
  have hlexemes := not_mem_lexemes hmarker
  have hflat : Scan.Flat { frame := { file := root } } := ⟨rfl, rfl, rfl⟩
  obtain ⟨count, result, hspends, hok, herror⟩ := hflat.ends files hlexemes
  refine ⟨count, fun limit => ⟨hspends.full limit (Nat.zero_le limit), fun hlimit => ?_,
    fun tokens h => ?_⟩⟩
  · have hresult : tokenize text root files limit = result := hspends.room limit hlimit
    rw [hresult]
    by_cases hdelimited : Delimited (lexemes text.toList)
    · obtain ⟨tokens, rfl, -⟩ := hok hdelimited
      exact ⟨⟨fun _ => hdelimited, fun _ => ⟨tokens, rfl⟩⟩, fun hnot => absurd hdelimited hnot⟩
    · obtain ⟨fault, pos, rfl⟩ := herror hdelimited
      exact ⟨⟨nofun, fun h => absurd h hdelimited⟩, fun _ => ⟨fault, pos, rfl⟩⟩
  · have hsource := sourceOf_tokenize h
    rw [withoutMarkers_eq hlexemes, text_lexemes] at hsource
    refine ⟨?_, String.toList_inj.1 hsource, parted_tokenize hmarker h⟩
    by_cases hlimit : count ≤ limit
    · have hresult : tokenize text root files limit = result := hspends.room limit hlimit
      by_cases hdelimited : Delimited (lexemes text.toList)
      · obtain ⟨tokens', rfl, hlength⟩ := hok hdelimited
        obtain rfl := Except.ok.inj (h.symm.trans hresult)
        exact hlength
      · obtain ⟨fault, pos, rfl⟩ := herror hdelimited
        cases h.symm.trans hresult
    · obtain ⟨pos, hfull⟩ := hspends.full limit (Nat.zero_le limit) (Nat.lt_of_not_le hlimit)
      cases h.symm.trans hfull

/-- A text with runs of braces and a closer of the wrong kind. -/
def bracedText : String := "\x7b\x7b\x7b a \x7d\x7d\x7d\x7b% b \x7d\x7d %\x7d"

/-- Each of its braces goes to one token. -/
theorem tokenize_lossless_braced :
    ∃ count tokens, tokenize bracedText "page" {} count = .ok tokens ∧ tokens.length = count ∧
      sourceOf tokens = bracedText ∧ Token.Parted tokens := by
  obtain ⟨count, h⟩ := (tokenize_lossless bracedText "page" {}).1 (by decide +kernel)
  have hlexemes : lexemes bracedText.toList =
      .open .object :: [.char '{', .char ' ', .char 'a', .char ' '] ++ .close .object ::
        .char '}' :: (.open .tag :: [.char ' ', .char 'b', .char ' ', .close .object, .char ' '] ++
          .close .tag :: []) := by
    decide +kernel
  have hdelimited : Delimited (lexemes bracedText.toList) := by
    rw [hlexemes]
    exact .enclosed (by simp) (by simp) (.plain nofun (.enclosed (by simp) (by simp) .nil))
  obtain ⟨tokens, htokens⟩ := ((h count).2.1 (Nat.le_refl count)).1.2 hdelimited
  exact ⟨count, tokens, htokens, (h count).2.2 tokens htokens⟩

end Stencil
