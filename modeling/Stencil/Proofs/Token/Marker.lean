import Mathlib.Data.List.TakeDrop
import Stencil.Proofs.Inclusion.Layout
import Stencil.Token.Scan

/-!
# Markers are read as they are written

* `decimal?_digits`: a number is read back from its digits, as long as it has 64 bits;
* `ofContent_begin`: a begin marker is read back, or refused when a number does not fit;
* `ofContent_end`: so is an end marker;
* `lexemes_enclosed`: an enclosure is three things: its opener, its characters and its closer.
-/

namespace Stencil

open Text

/-! ## Numbers -/

theorem ofDigits_digits (n : Nat) : Number.ofDigits (digits n) = n := by
  rw [digits, Nat.toString_eq_ofList_toDigits, String.toList_ofList]
  have h := Nat.ofDigitChars_ten_toDigits (n := n)
  rw [Nat.ofDigitChars_eq_foldl] at h
  simpa [Number.ofDigits, Nat.mul_comm] using h

theorem digits_ne_nil (n : Nat) : digits n ≠ [] := by
  intro h
  have := ofDigits_digits n
  rw [digits, Nat.toString_eq_ofList_toDigits, String.toList_ofList] at h
  exact absurd h (by simp)

/-- A number is read back from its digits, as long as it has 64 bits. -/
theorem decimal?_digits (n : Nat) :
    decimal? (digits n) = if n < Number.twoTo 64 then some n else none := by
  have hall : (digits n).all Number.isDigit = true := by
    rw [List.all_eq_true]
    intro c hc
    have := isDigit_digits n c hc
    simpa [Number.isDigit, Char.isDigit, Char.le_def] using this
  have hplus : ∀ rest, digits n ≠ '+' :: rest := by
    intro rest h
    have := isDigit_digits n '+' (by simp [h])
    exact absurd this (by decide)
  unfold decimal?
  split
  · next rest h => exact absurd h (hplus rest)
  · simp [digits_ne_nil, hall, ofDigits_digits]

/-! ## Content -/

theorem isBlank_of_isBare {c : Char} (h : Inclusion.isBare c = true) : isBlank c = false := by
  have hascii : c.toNat < 128 := by
    by_cases hlt : c.toNat < 128
    · exact hlt
    · have hne : ∀ d : Char, d.toNat < 128 → c ≠ d := by
        rintro d hd rfl
        exact hlt hd
      have hval : ¬ c.val.toNat < 128 := hlt
      simp only [Inclusion.isBare, Char.isAlphanum] at h
      delta Char.isAlpha Char.isUpper Char.isLower at h
      simp [Char.isDigit, UInt32.le_iff_toNat_le, hne '_' (by decide), hne '-' (by decide),
        hne '.' (by decide), hne '/' (by decide)] at h
      omega
  have hall : ∀ n < 128, Inclusion.isBare (Char.ofNat n) = true →
      isBlank (Char.ofNat n) = false := by decide
  have := hall c.toNat hascii
  rw [Char.ofNat_toNat] at this
  exact this h

theorem trimRight_of_not_blank {cs : List Char} (h : ∀ c ∈ cs, isBlank c = false) :
    trimRight cs = cs := by
  induction cs with
  | nil => rfl
  | cons c cs ih =>
    rw [trimRight_cons, ih fun d hd => h d (List.mem_cons_of_mem _ hd)]
    simp only [h c List.mem_cons_self, Bool.false_eq_true, if_false]
    split
    · next hcs => rw [hcs]
    · rfl

/-- Only the blanks around the content of a marker are trimmed. -/
theorem trim_marker {name : String} (hname : IsFileName name) {c : Char} (hc : isBlank c = false)
    (front : List Char) :
    trim (' ' :: c :: front ++ name.toList ++ [' ']) = c :: front ++ name.toList := by
  have hleft : trimLeft (' ' :: c :: front ++ name.toList ++ [' ']) =
      c :: front ++ name.toList ++ [' '] := by
    have hspace : isBlank ' ' = true := by decide
    simp [trimLeft, hspace, hc]
  have hne : name.toList ≠ [] := by simpa using hname.1
  have hink : trimRight name.toList = name.toList :=
    trimRight_of_not_blank fun d hd => isBlank_of_isBare (hname.2 d hd)
  rw [trim, hleft, trimRight_append_ink hink hne]
  have : trimRight [' '] = [] := by decide
  rw [this, List.append_nil]

theorem cutAt_space {cs : List Char} (h : ' ' ∉ cs) (rest : List Char) :
    cutAt (· == ' ') (cs ++ ' ' :: rest) = (cs, ' ' :: rest) := by
  have hall : ∀ c ∈ cs, (!(c == ' ')) = true := by
    intro c hc
    simp only [Bool.not_eq_true', beq_eq_false_iff_ne]
    rintro rfl
    exact h hc
  rw [cutAt, List.span_eq_takeWhile_dropWhile, List.takeWhile_append_of_pos hall,
    List.dropWhile_append_of_pos hall]
  simp

theorem fields_succ {cs : List Char} (h : ' ' ∉ cs) (count : Nat) (rest : List Char) :
    fields (count + 1) (cs ++ ' ' :: rest) = cs :: fields count rest := by
  rw [fields, cutAt_space h]

theorem space_notMem_digits (n : Nat) : ' ' ∉ digits n :=
  fun h => absurd (isDigit_digits n ' ' h) (by decide)

theorem ofContent_fields {content resume indent file : List Char}
    (h : fields 3 content = [['b', 'e', 'g'], resume, indent, file]) :
    Marker.ofContent content =
      match decimal? resume, decimal? indent with
      | some resume, some indent => .begin resume indent (.ofList file)
      | _, _ => .bad := by
  rw [Marker.ofContent, h]
  rfl

theorem fields_begin {file : String} (h : IsFileName file) (resume indent : Nat) :
    fields 3 (trim (beginContent resume indent file)) =
      [['b', 'e', 'g'], digits resume, digits indent, file.toList] := by
  have hcontent : trim (beginContent resume indent file) =
      ['b', 'e', 'g'] ++ ' ' :: (digits resume ++
        ' ' :: (digits indent ++ ' ' :: file.toList)) := by
    have := trim_marker h (by decide : isBlank 'b' = false)
      (['e', 'g', ' '] ++ digits resume ++ [' '] ++ digits indent ++ [' '])
    simpa [beginContent] using this
  rw [hcontent, fields_succ (by decide), fields_succ (space_notMem_digits _),
    fields_succ (space_notMem_digits _), fields]

/-- A begin marker is read back, or refused when a number does not fit. -/
theorem ofContent_begin {file : String} (h : IsFileName file) (resume indent : Nat) :
    Marker.ofContent (trim (beginContent resume indent file)) = .begin resume indent file ∨
      Marker.ofContent (trim (beginContent resume indent file)) = .bad := by
  rw [ofContent_fields (fields_begin h resume indent), decimal?_digits, decimal?_digits,
    String.ofList_toList]
  by_cases hresume : resume < Number.twoTo 64 <;> by_cases hindent : indent < Number.twoTo 64 <;>
    simp [hresume, hindent]

/-- When the numbers fit, it is read back. -/
theorem ofContent_begin_of_lt {file : String} (h : IsFileName file) {resume indent : Nat}
    (hresume : resume < Number.twoTo 64) (hindent : indent < Number.twoTo 64) :
    Marker.ofContent (trim (beginContent resume indent file)) = .begin resume indent file := by
  rw [ofContent_fields (fields_begin h resume indent), decimal?_digits, decimal?_digits,
    if_pos hresume, if_pos hindent, String.ofList_toList]

/-- An end marker is read back. -/
theorem ofContent_end {parent : String} (h : IsFileName parent) :
    Marker.ofContent (trim (endContent parent)) = .finish := by
  have hcontent : trim (endContent parent) =
      ['e', 'n', 'd'] ++ ' ' :: (['0', ' '] ++ parent.toList) := by
    have := trim_marker h (by decide : isBlank 'e' = false) ['n', 'd', ' ', '0', ' ']
    simpa [endContent] using this
  rw [Marker.ofContent, hcontent, fields_succ (by decide)]
  rfl

/-! ## Lexemes -/

/-- A text without the characters of delimiters. -/
def Undelimited (cs : List Char) : Prop := ∀ c ∈ cs, c ∉ ['{', '}', '%', '#']

-- An instance that is searched for may try all characters there are.
instance (cs : List Char) : Decidable (Undelimited cs) := List.decidableBAll _ cs

theorem Inert.undelimited {cs : List Char} (h : Inert cs) : Undelimited cs := by
  intro c hc hmem
  have hinert := h c hc
  simp only [List.mem_cons, List.not_mem_nil, or_false] at hmem
  rcases hmem with rfl | rfl | rfl | rfl <;> exact absurd hinert (by decide)

theorem delimiter?_of_notMem {c : Char} (h : c ∉ ['{', '}', '%', '#']) (d : Char) :
    delimiter? c d = none := by
  unfold delimiter?
  split <;> first | rfl | exact absurd h (by decide)

/-- A character that begins no delimiter is read alone. -/
theorem lexemes_cons {c : Char} {cs : List Char}
    (h : ∀ d, cs.head? = some d → delimiter? c d = none) :
    lexemes (c :: cs) = .char c :: lexemes cs := by
  cases cs with
  | nil => rfl
  | cons d cs => rw [lexemes, h d rfl]

/-- Characters without delimiters are read one by one. -/
theorem lexemes_undelimited {cs : List Char} (h : Undelimited cs) (rest : List Char) :
    lexemes (cs ++ rest) = cs.map .char ++ lexemes rest := by
  induction cs with
  | nil => rfl
  | cons c cs ih =>
    have hc : c ∉ ['{', '}', '%', '#'] := h c List.mem_cons_self
    rw [List.map_cons, List.cons_append, List.cons_append,
      lexemes_cons fun d _ => delimiter?_of_notMem hc d,
      ih fun d hd => h d (List.mem_cons_of_mem _ hd)]

@[inherit_doc lexemes_undelimited]
theorem lexemes_line {margin : List Char} (h : Inert margin) (rest : List Char) :
    lexemes ('\n' :: margin ++ rest) = ('\n' :: margin).map .char ++ lexemes rest :=
  lexemes_undelimited (List.forall_mem_cons.2 ⟨by decide, h.undelimited⟩) rest

theorem lexemes_opener (e : Enclosure) (rest : List Char) :
    lexemes (e.opener ++ rest) = .open e :: lexemes rest := by
  cases e
  all_goals
    show lexemes (_ :: _ :: rest) = _
    rw [lexemes]
    rfl

theorem lexemes_closer (e : Enclosure) (rest : List Char) :
    lexemes (e.closer ++ rest) = .close e :: lexemes rest := by
  cases e
  all_goals
    show lexemes (_ :: _ :: rest) = _
    rw [lexemes]
    rfl

/-- An enclosure is its opener, its characters and its closer. -/
theorem lexemes_enclosed (e : Enclosure) {content : List Char} (h : Undelimited content)
    (rest : List Char) : lexemes (e.opener ++ content ++ e.closer ++ rest) =
      .open e :: content.map .char ++ .close e :: lexemes rest := by
  rw [List.append_assoc, List.append_assoc, lexemes_opener, lexemes_undelimited h, lexemes_closer,
    List.cons_append]

@[inherit_doc lexemes_enclosed]
theorem lexemes_marker {content : List Char} (h : Undelimited content) (rest : List Char) :
    lexemes (['{', '#'] ++ content ++ ['#', '}'] ++ rest) =
      .open .marker :: content.map .char ++ .close .marker :: lexemes rest :=
  lexemes_enclosed .marker h rest

end Stencil
