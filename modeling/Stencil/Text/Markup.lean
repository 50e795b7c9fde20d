/-!
# Characters of markup

Five characters have a meaning in markup and are written as entities: `&amp;`, `&lt;`, `&gt;`,
`&#34;` and `&#39;`.

* `unescape_escape`: reading the entities gives back what was escaped.
-/

namespace Stencil.Text

/-- The characters with a meaning, and their entities without the ampersand in front. -/
def entityTable : List (Char × List Char) :=
  [('&', ['a', 'm', 'p', ';']), ('<', ['l', 't', ';']), ('>', ['g', 't', ';']),
    ('"', ['#', '3', '4', ';']), ('\'', ['#', '3', '9', ';'])]

/-- The entity of a character, without the ampersand in front, if it has one. -/
def entity? (c : Char) : Option (List Char) := entityTable.lookup c

/-- The characters with a meaning written as entities. -/
def escape : List Char → List Char
  | [] => []
  | c :: cs =>
    match entity? c with
    | some name => '&' :: (name ++ escape cs)
    | none => c :: escape cs

/-- The entities replaced by their characters, from left to right. -/
def unescape : List Char → List Char
  | [] => []
  | '&' :: 'a' :: 'm' :: 'p' :: ';' :: cs => '&' :: unescape cs
  | '&' :: 'l' :: 't' :: ';' :: cs => '<' :: unescape cs
  | '&' :: 'g' :: 't' :: ';' :: cs => '>' :: unescape cs
  | '&' :: '#' :: '3' :: '4' :: ';' :: cs => '"' :: unescape cs
  | '&' :: '#' :: '3' :: '9' :: ';' :: cs => '\'' :: unescape cs
  | c :: cs => c :: unescape cs

/-- Escape what is not escaped yet. -/
def escapeOnce (cs : List Char) : List Char := escape (unescape cs)

theorem unescape_cons {c : Char} (cs : List Char) (h : c ≠ '&') :
    unescape (c :: cs) = c :: unescape cs := by
  rw [unescape] <;> intros <;> contradiction

theorem mem_entityTable {c : Char} {name : List Char} (h : entity? c = some name) :
    (c, name) ∈ entityTable := by
  obtain ⟨before, after, htable, -⟩ := List.lookup_eq_some_iff.1 h
  rw [htable]
  exact List.mem_append_right before List.mem_cons_self

theorem unescape_entity {c : Char} {name : List Char} (h : entity? c = some name) (cs : List Char) :
    unescape ('&' :: (name ++ cs)) = c :: unescape cs := by
  have hmem := mem_entityTable h
  simp only [entityTable, List.mem_cons, Prod.mk.injEq, List.not_mem_nil, or_false] at hmem
  rcases hmem with ⟨rfl, rfl⟩ | ⟨rfl, rfl⟩ | ⟨rfl, rfl⟩ | ⟨rfl, rfl⟩ | ⟨rfl, rfl⟩ <;> rfl

theorem unescape_escape (cs : List Char) : unescape (escape cs) = cs := by
  induction cs with
  | nil => rfl
  | cons c cs ih =>
    rw [escape]
    split
    · next name h => rw [unescape_entity h, ih]
    · next h =>
      have hc : c ≠ '&' := by rintro rfl; cases h
      rw [unescape_cons _ hc, ih]

end Stencil.Text
