import Stencil.Proofs.Token.Lossless

/-!
# A comment between two texts

A comment between two texts leaves their tokens alone, unless its first word is one of those that
markers begin with: then it is taken for a marker, whatever comes behind the word.

* `ofContent_eq_other_iff`: only the first word decides what is a comment.
* `Reads.comment`: a comment is passed over.
* `Scan.mark_outer`: anything else opens a file or fails.
* `tokenize_between`: so the tokens of the two texts are found, or none.
-/

namespace Stencil

open Text

/-! ## The first word -/

/-- The first word of a marker. -/
def firstWord (content : List Char) : List Char := (cutAt (· == ' ') content).1

/-- The words that markers begin with. -/
def markerWords : List (List Char) := [['b', 'e', 'g'], ['e', 'n', 'd']]

/-- Only the first word decides what is a comment. -/
theorem ofContent_eq_other_iff {content : List Char} :
    Marker.ofContent content = .other ↔ firstWord content ∉ markerWords := by
  obtain ⟨rest, hfields⟩ : ∃ rest, fields 3 content = firstWord content :: rest := by
    rw [fields, firstWord]
    rcases cutAt (· == ' ') content with ⟨word, _ | ⟨c, behind⟩⟩
    · exact ⟨_, rfl⟩
    · exact ⟨_, rfl⟩
  rw [Marker.ofContent, hfields]
  constructor
  · intro hother hmem
    simp only [markerWords, List.mem_cons, List.not_mem_nil, or_false] at hmem
    rcases hmem with hword | hword
    · rw [hword] at hother
      split at hother
      · repeat' split at hother
        all_goals cases hother
      · cases hother
      · next hbeg _ => exact hbeg _ rfl
    · rw [hword] at hother
      cases hother
  · intro hword
    simp only [markerWords, List.mem_cons, List.not_mem_nil, or_false, not_or] at hword
    split
    · next heq => exact absurd (List.cons.inj heq).1 hword.1
    · next heq => exact absurd (List.cons.inj heq).1 hword.2
    · rfl

/-! ## Comments are passed over -/

theorem Token.indented_nil (token : Token) : token.indented [] = token := by
  have hstring (s : String) : indentedString [] s = s := by
    rw [indentedString, indentedBy_empty, String.ofList_toList]
  have hcall (call : FilterCall) : call.indented [] = call := by
    simp [FilterCall.indented, hstring, List.map_id'']
  cases token <;> simp [Token.indented, hstring, hcall, List.map_id'']

theorem isMargin_nil : IsMargin [] := fun _ hc => absurd hc List.not_mem_nil

/-- Where no delimiter comes about between two texts, each has its own lexemes. -/
theorem lexemes_append {cs tail : List Char} (h : Meets cs tail) :
    lexemes (cs ++ tail) = lexemes cs ++ lexemes tail := by
  have hlexeme (l : Lexeme) : l.indented [] = [l] := by
    cases l <;> simp [Lexeme.indented, indentedBy_empty]
  have hlexemes := lexemes_indentedBy isMargin_nil h
  rwa [indentedBy_empty, List.flatMap_congr fun l _ => hlexeme l,
    List.flatMap_singleton'] at hlexemes

/-- A text is read as it is read alone, unless its last brace meets another one. -/
theorem Reads.own {cs tail : List Char} {root : String} {files : Files} {limit : Nat}
    {tokens : List Token} (hmarker : ¬ ['{', '#'] <:+: cs) (hmeets : Meets cs tail)
    (hown : Stencil.tokenize (.ofList cs) root files limit = .ok tokens) :
    Reads cs tail tokens := by
  have hreads := Reads.text isMargin_nil hmarker hmeets hown
  have htokens : tokens.map (Token.indented []) = tokens :=
    (List.map_congr_left fun token _ => Token.indented_nil token).trans (List.map_id tokens)
  rwa [indentedBy_empty, htokens] at hreads

/-- A comment is passed over. -/
theorem Reads.comment {content ds tail : List Char} {tokens : List Token}
    (hcontent : Undelimited content) (hother : Marker.ofContent (trim content) = .other)
    (h : Reads ds tail tokens) :
    Reads (['{', '#'] ++ content ++ ['#', '}'] ++ ds) tail tokens := by
  intro files limit s hmode hlimit
  obtain ⟨s₁, s₂, hends, hgains, hrun⟩ := h files limit s hmode hlimit
  have hmark : s.mark files s.frame.pos content = .ok s := by
    simp only [Scan.mark, hother]
  refine ⟨s₁, s₂, hends, hgains, ?_⟩
  rw [List.append_assoc, Scan.run_mark hmode hcontent hmark, hrun]

/-! ## Markers are not -/

namespace Scan

variable {files : Files} {limit : Nat} {s s₁ : Scan} {l : Lexeme} {ls : List Lexeme}

theorem flush_outer {read : List Char} (h : flush files limit s read = .ok s₁) :
    s₁.outer = s.outer := by
  unfold flush at h
  split at h
  · rw [← Except.ok.inj h]
  · rw [push_ok h]

theorem outer_step (hmode : s.mode.inMarker = false) (hl : l ≠ .open .marker)
    (h : step files limit s l = .ok s₁) : s₁.outer = s.outer ∧ s₁.mode.inMarker = false := by
  rcases step_cases h with
    ⟨e, read, s₀, rfl, -, hflush, rfl⟩ | ⟨e, start, read, rfl, henclosed, hclose⟩ | ⟨-, -, rfl⟩
  · have houter := flush_outer hflush
    refine ⟨houter, Mode.inMarker_enclosed (fun he => hl ?_) _ _⟩
    rw [he]
  · obtain ⟨token, -, -, rfl⟩ := close_ok (Mode.ne_marker hmode henclosed) hclose
    exact ⟨rfl, rfl⟩
  · exact ⟨rfl, (Mode.inMarker_add _ _).trans hmode⟩

/-- Without markers no file is entered or left. -/
theorem outer_run (hmode : s.mode.inMarker = false) (hls : .open .marker ∉ ls)
    (h : ls.foldlM (step files limit) s = .ok s₁) : s₁.outer = s.outer := by
  induction ls generalizing s with
  | nil => rw [← Except.ok.inj h]
  | cons l ls ih =>
    rw [List.mem_cons, not_or] at hls
    obtain ⟨s₀, hstep, hrun⟩ := foldlM_cons_ok h
    obtain ⟨houter, hmode₀⟩ := outer_step hmode (Ne.symm hls.1) hstep
    rw [ih hmode₀ hls.2 hrun, houter]

theorem foldlM_append_ok {front back : List Lexeme}
    (h : (front ++ back).foldlM (step files limit) s = .ok s₁) :
    ∃ s₀, front.foldlM (step files limit) s = .ok s₀ ∧
      back.foldlM (step files limit) s₀ = .ok s₁ := by
  rw [List.foldlM_append] at h
  cases hfront : front.foldlM (step files limit) s with
  | error e =>
    rw [hfront] at h
    cases h
  | ok s₀ =>
    rw [hfront] at h
    exact ⟨s₀, rfl, h⟩

/-- Where no file is open, a marker opens one or fails. -/
theorem mark_outer {start : Pos} {content : List Char}
    (hother : Marker.ofContent (trim content) ≠ .other) (houter : s.outer = [])
    (h : mark files s start content = .ok s₁) : s₁.outer ≠ [] ∧ s₁.mode = s.mode := by
  unfold mark at h
  dsimp only at h
  split at h
  · obtain rfl := Except.ok.inj h
    exact ⟨List.cons_ne_nil _ _, rfl⟩
  · rw [houter] at h
    cases h
  · cases h
  · next heq => exact absurd heq hother

end Scan

/-- A comment between two texts is passed over, wherever the texts can be read, unless its first
word is one that markers begin with. Then the whole cannot be read at all. -/
theorem tokenize_between {before content behind : List Char} {root root' : String}
    {files files' : Files} {limit limit' : Nat} {tokens tokens' : List Token}
    (hbefore : ¬ ['{', '#'] <:+: before) (hbehind : ¬ ['{', '#'] <:+: behind)
    (hclosed : before.getLast? ≠ some '{') (hcontent : Undelimited content)
    (h : tokenize (.ofList before) root files limit = .ok tokens)
    (h' : tokenize (.ofList behind) root' files' limit' = .ok tokens')
    (page : String) (pages : Files) :
    (firstWord (trim content) ∉ markerWords → ∀ most, tokens.length + tokens'.length ≤ most →
      ∃ all, tokenize (.ofList (before ++ (['{', '#'] ++ content ++ ['#', '}'] ++ behind))) page
          pages most = .ok all ∧
        List.Forall₂ Token.Alike (tokens ++ tokens') all) ∧
    (firstWord (trim content) ∈ markerWords → ∀ most, ∃ e,
      tokenize (.ofList (before ++ (['{', '#'] ++ content ++ ['#', '}'] ++ behind))) page pages
        most = .error e) := by
  have hopens : ['{', '#'] <+: ['{', '#'] ++ content ++ ['#', '}'] ++ behind := by simp
  have hmeets : Meets before (['{', '#'] ++ content ++ ['#', '}'] ++ behind) := .inr ⟨rfl, hclosed⟩
  constructor
  · intro hword most hmost
    have hother := ofContent_eq_other_iff.2 hword
    rw [← List.append_nil (_ ++ behind)] at hmeets hopens
    have hall := (Reads.own hbefore hmeets h).append hopens
      ((Reads.own hbehind (.inl rfl) h').comment hcontent hother)
    exact hall.tokenize page pages (by rwa [List.length_append])
  · intro hword most
    cases hall : tokenize (.ofList (before ++ (['{', '#'] ++ content ++ ['#', '}'] ++ behind))) page
        pages most with
    | error e => exact ⟨e, rfl⟩
    | ok all =>
      obtain ⟨s, hrun, hfinish⟩ := run_of_tokenize hall
      obtain ⟨read', s', _, hflush', houter', _⟩ := Scan.finish_ok hfinish
      rw [String.toList_ofList, lexemes_append hmeets] at hrun
      obtain ⟨s₁, hrun₁, hrun⟩ := Scan.foldlM_append_ok hrun
      obtain ⟨read, s₂, s₃, -, hflush, hmark, hrun₃⟩ := Scan.marker_ok hcontent hrun
      have houter₁ := Scan.outer_run rfl (not_mem_lexemes hbefore) hrun₁
      have houter₂ := Scan.flush_outer hflush
      obtain ⟨houter₃, hmode₃⟩ := Scan.mark_outer (s := { s₂ with mode := .raw [] })
        (fun hother => ofContent_eq_other_iff.1 hother hword) (houter₂.trans houter₁) hmark
      have houter := Scan.outer_run (by rw [hmode₃]; rfl) (not_mem_lexemes hbehind) hrun₃
      rw [Scan.flush_outer hflush'] at houter'
      exact absurd (houter.symm.trans houter') houter₃

/-- A comment of two lines stands between an object and raw text. -/
theorem tokenize_between_lines : ∃ tokens all,
    tokenize (.ofList "a\x7b\x7b x \x7d\x7d".toList) "page" {} 2 = .ok tokens ∧
      tokenize (.ofList ("a\x7b\x7b x \x7d\x7d".toList ++
        (['{', '#'] ++ " ends\nhere ".toList ++ ['#', '}'] ++ "b".toList))) "page" {} 3 = .ok all ∧
      List.Forall₂ Token.Alike (tokens ++ [.raw "b" ⟨"page", 0⟩]) all := by
  have hbefore : tokenize (.ofList "a\x7b\x7b x \x7d\x7d".toList) "page" {} 2 =
      .ok [.raw "a" ⟨"page", 0⟩, .object "x" [] "\x7b\x7b x \x7d\x7d" ⟨"page", 1⟩] := by
    rfl
  have hbehind : tokenize (.ofList "b".toList) "page" {} 1 = .ok [.raw "b" ⟨"page", 0⟩] := by rfl
  have hcontent : Undelimited " ends\nhere ".toList := by decide +kernel
  obtain ⟨all, hall, halike⟩ := (tokenize_between (by decide +kernel) (by decide +kernel)
    (by decide +kernel) hcontent hbefore hbehind "page" {}).1 (by decide +kernel) 3 (Nat.le_refl 3)
  exact ⟨_, all, hbefore, hall, halike⟩

/-- A comment that starts with the word that markers end files with is none. -/
theorem tokenize_between_end : ∃ before content behind tokens tokens',
    ¬ ['{', '#'] <:+: before ∧ ¬ ['{', '#'] <:+: behind ∧ before.getLast? ≠ some '{' ∧
      Undelimited content ∧ ¬ "beg ".toList <+: trim content ∧ ¬ "end 0 ".toList <+: trim content ∧
      tokenize (.ofList before) "page" {} 1 = .ok tokens ∧
      tokenize (.ofList behind) "page" {} 1 = .ok tokens' ∧
      ∀ limit, ∃ e, tokenize (.ofList (before ++ (['{', '#'] ++ content ++ ['#', '}'] ++ behind)))
        "page" {} limit = .error e := by
  have hbefore : tokenize (.ofList ['a']) "page" {} 1 = .ok [.raw "a" ⟨"page", 0⟩] := by rfl
  have hbehind : tokenize (.ofList ['b']) "page" {} 1 = .ok [.raw "b" ⟨"page", 0⟩] := by rfl
  refine ⟨['a'], " end of list ".toList, ['b'], _, _, by decide, by decide, by decide,
    by decide +kernel, by decide +kernel, by decide +kernel, hbefore, hbehind, fun limit => ?_⟩
  cases limit with
  | zero => exact ⟨_, rfl⟩
  | succ limit => exact ⟨_, rfl⟩

end Stencil
