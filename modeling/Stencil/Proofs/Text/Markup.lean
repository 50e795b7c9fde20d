import Stencil.Text.Markup

/-!
# Escaped texts

An escaped text has no character with a meaning in markup but the ampersands of its entities. These
are exactly the texts that come out of escaping, and exactly the ones that are kept where only what
is not escaped yet is escaped. What looks like a part of an entity does not disturb this: its
ampersand is escaped with the rest.

* `IsEscaped`: the texts, described by what stands in them.
* `IsEscaped.cons_cases`: such a text goes on with a plain character or an entity.
* `isEscaped_iff`: they are what comes out of escaping.
* `escapeOnce_eq_self_iff`: they are what is kept.
-/

namespace Stencil.Text

/-- The five entities. -/
def entities : List (List Char) :=
  ["&amp;".toList, "&lt;".toList, "&gt;".toList, "&#34;".toList, "&#39;".toList]

/-- Nothing in the text has a meaning in markup but entities. -/
structure IsEscaped (cs : List Char) : Prop where
  bare : ∀ c ∈ ['<', '>', '"', '\''], c ∉ cs
  /-- Every ampersand begins an entity. -/
  entity : ∀ behind, '&' :: behind <:+ cs → ∃ e ∈ entities, e <+: '&' :: behind

variable {c : Char} {cs name : List Char}

/-! ## The table -/

theorem mem_entities_iff {e : List Char} :
    e ∈ entities ↔ ∃ c name, (c, name) ∈ entityTable ∧ e = '&' :: name := by
  have htable : entities = entityTable.map fun entry => '&' :: entry.2 := by decide
  simp [htable, eq_comm]

theorem entity?_of_mem (h : (c, name) ∈ entityTable) : entity? c = some name := by
  have htable : ∀ entry ∈ entityTable, entity? entry.1 = some entry.2 := by decide
  exact htable (c, name) h

/-- There is no character with a meaning in an entity behind its ampersand. -/
theorem entity?_of_mem_name (h : entity? c = some name) : ∀ d ∈ name, entity? d = none := by
  have htable : (entityTable.flatMap Prod.snd).all (fun d => (entity? d).isNone) = true := by
    decide
  intro d hd
  have hmem : d ∈ entityTable.flatMap Prod.snd :=
    List.mem_flatMap.2 ⟨(c, name), mem_entityTable h, hd⟩
  exact Option.isNone_iff_eq_none.1 (List.all_eq_true.1 htable d hmem)

theorem entity?_eq_none_iff : entity? c = none ↔ c ≠ '&' ∧ c ∉ ['<', '>', '"', '\''] := by
  simp [entity?, entityTable, List.lookup_eq_none_iff]

/-! ## Escaped texts -/

theorem isEscaped_nil : IsEscaped [] :=
  ⟨fun _ _ => List.not_mem_nil, fun _ h => by simp at h⟩

theorem isEscaped_cons_iff : IsEscaped (c :: cs) ↔
    c ∉ ['<', '>', '"', '\''] ∧ (c = '&' → ∃ e ∈ entities, e <+: '&' :: cs) ∧ IsEscaped cs := by
  constructor
  · rintro ⟨hbare, hentity⟩
    refine ⟨fun hc => hbare c hc List.mem_cons_self, ?_,
      fun d hd hmem => hbare d hd (List.mem_cons_of_mem c hmem),
      fun behind hbehind => hentity behind (hbehind.trans (List.suffix_cons c cs))⟩
    rintro rfl
    exact hentity cs (List.suffix_refl _)
  · rintro ⟨hc, hbegins, hbare, hentity⟩
    refine ⟨fun d hd => ?_, fun behind hbehind => ?_⟩
    · rw [List.mem_cons, not_or]
      exact ⟨fun heq => hc (heq ▸ hd), hbare d hd⟩
    · rcases List.suffix_cons_iff.1 hbehind with heq | hbehind
      · obtain ⟨rfl, rfl⟩ := List.cons.inj heq
        exact hbegins rfl
      · exact hentity behind hbehind

theorem isEscaped_cons (hc : entity? c = none) : IsEscaped (c :: cs) ↔ IsEscaped cs := by
  obtain ⟨hamp, hbare⟩ := entity?_eq_none_iff.1 hc
  rw [isEscaped_cons_iff]
  exact ⟨fun h => h.2.2, fun h => ⟨hbare, fun heq => absurd heq hamp, h⟩⟩

theorem isEscaped_append (h : ∀ d ∈ name, entity? d = none) :
    IsEscaped (name ++ cs) ↔ IsEscaped cs := by
  induction name with
  | nil => rfl
  | cons d name ih =>
    rw [List.forall_mem_cons] at h
    rw [List.cons_append, isEscaped_cons h.1, ih h.2]

theorem isEscaped_entity (h : entity? c = some name) :
    IsEscaped ('&' :: (name ++ cs)) ↔ IsEscaped cs := by
  have hmem : '&' :: name ∈ entities := mem_entities_iff.2 ⟨c, name, mem_entityTable h, rfl⟩
  rw [isEscaped_cons_iff, isEscaped_append (entity?_of_mem_name h)]
  exact ⟨fun h => h.2.2, fun h => ⟨by decide, fun _ => ⟨_, hmem, List.prefix_append _ cs⟩, h⟩⟩

/-- An escaped text goes on with a plain character or an entity. -/
theorem IsEscaped.cons_cases (h : IsEscaped (c :: cs)) :
    (entity? c = none ∧ IsEscaped cs) ∨
    ∃ d name rest, entity? d = some name ∧ c = '&' ∧ cs = name ++ rest ∧ IsEscaped rest := by
  obtain ⟨hbare, hbegins, hcs⟩ := isEscaped_cons_iff.1 h
  by_cases hc : c = '&'
  · obtain ⟨e, he, rest, hrest⟩ := hbegins hc
    obtain ⟨d, name, hmem, rfl⟩ := mem_entities_iff.1 he
    have hd := entity?_of_mem hmem
    obtain rfl : name ++ rest = cs := (List.cons.inj hrest).2
    exact .inr ⟨d, name, rest, hd, hc, rfl, (isEscaped_append (entity?_of_mem_name hd)).1 hcs⟩
  · exact .inl ⟨entity?_eq_none_iff.2 ⟨hc, hbare⟩, hcs⟩

/-! ## Escaping -/

theorem isEscaped_escape (cs : List Char) : IsEscaped (escape cs) := by
  induction cs with
  | nil => exact isEscaped_nil
  | cons c cs ih =>
    rw [escape]
    split
    · next hc => exact (isEscaped_entity hc).2 ih
    · next hc => exact (isEscaped_cons hc).2 ih

theorem IsEscaped.exists_escape {cs : List Char} (h : IsEscaped cs) :
    ∃ text, escape text = cs := by
  -- An entity is longer than its character, so this is no induction on the list.
  match cs, h with
  | [], _ => exact ⟨[], rfl⟩
  | c :: cs, h =>
    rcases h.cons_cases with ⟨hc, hcs⟩ | ⟨d, name, rest, hd, rfl, rfl, hrest⟩
    · obtain ⟨text, htext⟩ := hcs.exists_escape
      exact ⟨c :: text, by simp only [escape, hc, htext]⟩
    · obtain ⟨text, htext⟩ := hrest.exists_escape
      exact ⟨d :: text, by simp only [escape, hd, htext]⟩
termination_by cs.length

/-- The escaped texts are the ones that come out of escaping. -/
theorem isEscaped_iff : IsEscaped cs ↔ ∃ text, escape text = cs :=
  ⟨IsEscaped.exists_escape, fun ⟨text, htext⟩ => htext ▸ isEscaped_escape text⟩

theorem escapeOnce_escape (cs : List Char) : escapeOnce (escape cs) = escape cs := by
  rw [escapeOnce, unescape_escape]

/-- A text is kept where it is escaped already, and only there. -/
theorem escapeOnce_eq_self_iff : escapeOnce cs = cs ↔ IsEscaped cs := by
  constructor
  · intro h
    exact isEscaped_iff.2 ⟨unescape cs, h⟩
  · intro h
    obtain ⟨text, rfl⟩ := isEscaped_iff.1 h
    exact escapeOnce_escape text

/-- Escaping is undone by reading the entities. What comes out of it is escaped: there is none of
the four characters that become other entities, and every ampersand begins one of the five. To
escape what is not escaped yet changes no escaped text, and what comes out of that is escaped. -/
theorem escape_exact (cs : List Char) :
    unescape (escape cs) = cs ∧ IsEscaped (escape cs) ∧ escapeOnce (escape cs) = escape cs ∧
      escapeOnce (escapeOnce cs) = escapeOnce cs ∧ (escapeOnce cs = cs ↔ IsEscaped cs) :=
  ⟨unescape_escape cs, isEscaped_escape cs, escapeOnce_escape cs, escapeOnce_escape (unescape cs),
    escapeOnce_eq_self_iff⟩

example : escapeOnce "&amp;lt; &am<&gt".toList = "&amp;lt; &amp;am&lt;&amp;gt".toList := by decide

end Stencil.Text
