/-!
# Blank characters

`isBlank` is the Unicode property White_Space. Trimming, splitting into words and cutting a text at
its first blank all go by this one class.

* `trim_eq_nil`: trimming leaves nothing exactly when every character is blank.
-/

namespace Stencil.Text

/-- The Unicode property White_Space. -/
def isBlank (c : Char) : Bool :=
  c == ' ' || ('\t' ≤ c && c ≤ '\r') || c.val == 0x85 || c.val == 0xA0 || c.val == 0x1680 ||
    (0x2000 ≤ c.val && c.val ≤ 0x200A) || c.val == 0x2028 || c.val == 0x2029 ||
    c.val == 0x202F || c.val == 0x205F || c.val == 0x3000

/-- Drop the blanks in front. -/
def trimLeft (cs : List Char) : List Char := cs.dropWhile isBlank

/-- Drop the trailing characters that satisfy `p`. -/
def dropRight (p : Char → Bool) : List Char → List Char
  | [] => []
  | c :: cs =>
    match dropRight p cs with
    | [] => if p c then [] else [c]
    | d :: ds => c :: d :: ds

/-- Drop the blanks behind. -/
def trimRight (cs : List Char) : List Char := dropRight isBlank cs

/-- Drop the blanks on both sides. -/
def trim (cs : List Char) : List Char := trimRight (trimLeft cs)

/-- `trim` on strings. -/
def trimmed (s : String) : String := .ofList (trim s.toList)

/-- Whether a text holds nothing but blanks. -/
def allBlank (s : String) : Bool := s.toList.all isBlank

/-- The text before the first character satisfying `p`, and the rest from there on. -/
def cutAt (p : Char → Bool) (cs : List Char) : List Char × List Char :=
  cs.span (fun c => !p c)

/-- The pieces between the characters satisfying `p`, the first one apart: a text always has one. -/
def pieces (p : Char → Bool) : List Char → List Char × List (List Char)
  | [] => ([], [])
  | c :: cs =>
    let (first, others) := pieces p cs
    if p c then ([], first :: others) else (c :: first, others)

/-- The pieces between the characters satisfying `p`, in order. -/
def splitAt (p : Char → Bool) (cs : List Char) : List (List Char) :=
  let (first, others) := pieces p cs
  first :: others

/-- The maximal runs without blanks. -/
def words (cs : List Char) : List (List Char) :=
  (splitAt isBlank cs).filter (!·.isEmpty)

/-- `words` on strings. -/
def wordsOf (s : String) : List String := (words s.toList).map .ofList

/-! ## Laws of trimming -/

theorem dropRight_eq_nil {p : Char → Bool} {cs : List Char} :
    dropRight p cs = [] ↔ cs.all p = true := by
  induction cs with
  | nil => simp [dropRight]
  | cons c cs ih =>
    rw [dropRight]
    split
    · next h =>
      have := ih.1 h
      by_cases hc : p c <;> simp [hc, this]
    · next d ds h =>
      have hne : ¬ cs.all p = true := fun hall => by simp [ih.2 hall] at h
      simp [hne]

theorem all_dropWhile_iff {p : Char → Bool} {cs : List Char} :
    (cs.dropWhile p).all p = true ↔ cs.all p = true := by
  induction cs with
  | nil => simp
  | cons c cs ih =>
    rw [List.dropWhile_cons]
    by_cases hc : p c <;> simp [hc] at ih ⊢
    exact ih

theorem trim_eq_nil {cs : List Char} : trim cs = [] ↔ cs.all isBlank = true := by
  rw [trim, trimRight, dropRight_eq_nil, trimLeft, all_dropWhile_iff]

end Stencil.Text
