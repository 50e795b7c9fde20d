import Stencil.Text.Bytes

/-!
# Lexemes

The first cut of a template: the six delimiters, and everything else. Delimiters are found greedily
from left to right, so of three opening braces the first two open an object and the third is text.

* `text_lexemes`: the lexemes spell the template.
-/

namespace Stencil

/-- What a pair of delimiters encloses. -/
inductive Enclosure where
  | object
  | tag
  | marker
  deriving DecidableEq, Repr, Inhabited

namespace Enclosure

/-- The delimiter that opens it. -/
def opener : Enclosure → List Char
  | object => ['{', '{']
  | tag => ['{', '%']
  | marker => ['{', '#']

/-- The delimiter that closes it. -/
def closer : Enclosure → List Char
  | object => ['}', '}']
  | tag => ['%', '}']
  | marker => ['#', '}']

end Enclosure

/-- A delimiter or a character that belongs to none. -/
inductive Lexeme where
  | open (e : Enclosure)
  | close (e : Enclosure)
  | char (c : Char)
  deriving DecidableEq, Repr, Inhabited

namespace Lexeme

/-- The characters of a lexeme. -/
def text : Lexeme → List Char
  | .open e => e.opener
  | .close e => e.closer
  | char c => [c]

end Lexeme

/-- The delimiter made of two characters. -/
def delimiter? : Char → Char → Option Lexeme
  | '{', '{' => some (.open .object)
  | '{', '%' => some (.open .tag)
  | '{', '#' => some (.open .marker)
  | '}', '}' => some (.close .object)
  | '%', '}' => some (.close .tag)
  | '#', '}' => some (.close .marker)
  | _, _ => none

/-- The lexemes of a text. -/
def lexemes : List Char → List Lexeme
  | [] => []
  | [c] => [.char c]
  | c :: d :: cs =>
    match delimiter? c d with
    | some lexeme => lexeme :: lexemes cs
    | none => .char c :: lexemes (d :: cs)

theorem text_delimiter {c d : Char} {l : Lexeme} (h : delimiter? c d = some l) :
    l.text = [c, d] := by
  unfold delimiter? at h
  split at h <;> simp_all <;> subst h <;> rfl

/-- The lexemes spell the text. -/
theorem text_lexemes (cs : List Char) : (lexemes cs).flatMap Lexeme.text = cs := by
  fun_induction lexemes cs with
  | case1 => rfl
  | case2 c => rfl
  | case3 c d cs l h ih => simp [List.flatMap_cons, text_delimiter h, ih]
  | case4 c d cs h ih => simp [List.flatMap_cons, Lexeme.text, ih]

end Stencil
