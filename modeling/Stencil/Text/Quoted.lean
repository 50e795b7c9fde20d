import Stencil.Text.QuotedTable

/-!
# Quoted texts

A text between double quotes, in which nothing unprintable is left: quotes, backslashes, tabs, line
ends and zero have short escapes, the other unprintable characters are shown by their code point.

* `quote_noNewline`: a quoted text never holds a line feed, so it stays on one line.
-/

namespace Stencil.Text

/-- The digits of a number in lower-case hexadecimal. -/
def hex (n : Nat) : List Char := Nat.toDigits 16 n

/-- Whether a character has to be shown by its code point. -/
def isEscaped (c : Char) : Bool :=
  if c.toNat < 128 then c.toNat < 32 || c.toNat == 127 else escapedRanges.has c.toNat

/-- One character of a quoted text. -/
def quoteChar (c : Char) : List Char :=
  if c == '\x00' then ['\\', '0']
  else if c == '\t' then ['\\', 't']
  else if c == '\n' then ['\\', 'n']
  else if c == '\r' then ['\\', 'r']
  else if c == '"' then ['\\', '"']
  else if c == '\\' then ['\\', '\\']
  else if isEscaped c then '\\' :: 'u' :: '{' :: (hex c.toNat ++ ['}'])
  else [c]

/-- The text between double quotes. -/
def quote (s : String) : String :=
  .ofList ('"' :: (s.toList.flatMap quoteChar ++ ['"']))

/-! ## One line -/

theorem digitChar_ne_newline (n : Nat) : Nat.digitChar n ≠ '\n' := by
  grind [Nat.digitChar]

theorem newline_not_mem_hex (n : Nat) : '\n' ∉ hex n := by
  have core : ∀ fuel m (ds : List Char), '\n' ∉ ds → '\n' ∉ Nat.toDigitsCore 16 fuel m ds := by
    intro fuel
    induction fuel with
    | zero => intro m ds h; simpa [Nat.toDigitsCore] using h
    | succ fuel ih =>
      intro m ds h
      rw [Nat.toDigitsCore]
      have hd : '\n' ∉ Nat.digitChar (m % 16) :: ds := by
        simp [h, (digitChar_ne_newline (m % 16)).symm]
      split
      · exact hd
      · exact ih _ _ hd
  exact core _ _ _ (by simp)

theorem newline_not_mem_quoteChar (c : Char) : '\n' ∉ quoteChar c := by
  unfold quoteChar
  split
  · decide
  split
  · decide
  split
  · decide
  split
  · decide
  split
  · decide
  split
  · decide
  split
  · have := newline_not_mem_hex c.toNat
    simp [this]
  · next h _ _ _ _ => intro hm; simp at hm; exact h (by simp [← hm])

theorem quote_noNewline (s : String) : '\n' ∉ (quote s).toList := by
  simp only [quote, String.toList_ofList, List.mem_cons, List.mem_append, List.mem_flatMap]
  rintro (h | ⟨c, _, hc⟩ | h)
  · exact absurd h (by decide)
  · exact newline_not_mem_quoteChar c hc
  · simp at h

end Stencil.Text
