import Mathlib.Data.List.Basic
import Stencil.Table

/-!
# Lemmas about tables

What is in a table after an insertion, and what becomes of a table when its values are mapped.
-/

namespace Stencil.Table

variable {α β : Type} {t : Table α} {key name : String} {value : α}

/-! ## Insertion -/

theorem contains_insert : (t.insert key value).contains name = true ↔
    name = key ∨ t.contains name = true := by
  rw [contains, contains, get?_insert]
  by_cases h : name = key <;> simp [h]

theorem contains_insertNew : (t.insertNew key value).contains name = true ↔
    name = key ∨ t.contains name = true := by
  unfold insertNew
  split
  · next h =>
    constructor
    · exact .inr
    · rintro (rfl | h')
      · exact h
      · exact h'
  · exact contains_insert

theorem contains_ofList {pairs : List (String × α)} :
    (ofList pairs).contains name = true ↔ ∃ pair ∈ pairs, pair.1 = name := by
  suffices h : ∀ t : Table α, (pairs.foldl (fun t pair => t.insert pair.1 pair.2) t).contains name
      = true ↔ (∃ pair ∈ pairs, pair.1 = name) ∨ t.contains name = true by
    have hempty : ({} : Table α).contains name = false := rfl
    refine (h {}).trans ?_
    simp [hempty]
  intro t
  induction pairs generalizing t with
  | nil => simp
  | cons pair pairs ih =>
    rw [List.foldl_cons, ih, contains_insert]
    simp only [List.exists_mem_cons_iff]
    constructor
    · rintro (h | rfl | h)
      · exact .inl (.inr h)
      · exact .inl (.inl rfl)
      · exact .inr h
    · rintro ((rfl | h) | h)
      · exact .inr (.inl rfl)
      · exact .inl h
      · exact .inr (.inr h)

theorem mem_insert {e : String × α} (h : e ∈ (t.insert key value).entries) :
    e = (key, value) ∨ e ∈ t.entries := by
  obtain ⟨entries⟩ := t
  simp only [insert] at h
  induction entries with
  | nil => exact .inl (by simpa [put] using h)
  | cons entry entries ih =>
    rw [put] at h
    split at h
    · rcases List.mem_cons.1 h with rfl | h
      · exact .inl rfl
      · exact .inr (List.mem_cons_of_mem _ h)
    · rcases List.mem_cons.1 h with rfl | h
      · exact .inr List.mem_cons_self
      · rcases ih h with h | h
        · exact .inl h
        · exact .inr (List.mem_cons_of_mem _ h)

theorem contains_iff : t.contains name = true ↔ name ∈ t.keys := by
  rw [contains, get?, Option.isSome_iff_exists, keys, List.mem_map]
  constructor
  · rintro ⟨value, h⟩
    obtain ⟨before, after, heq, _⟩ := List.lookup_eq_some_iff.1 h
    exact ⟨(name, value), heq ▸ List.mem_append_right _ List.mem_cons_self, rfl⟩
  · rintro ⟨e, he, rfl⟩
    cases h : t.entries.lookup e.1 with
    | none => simpa using List.lookup_eq_none_iff.1 h e he
    | some value => exact ⟨value, rfl⟩

/-- A new key comes behind the others. -/
theorem keys_insert :
    (t.insert key value).keys = if key ∈ t.keys then t.keys else t.keys ++ [key] := by
  obtain ⟨entries⟩ := t
  simp only [keys, insert]
  induction entries with
  | nil => rfl
  | cons e rest ih =>
    rw [put]
    by_cases he : e.1 = key
    · simp [he]
    · have hne : (e.1 == key) = false := by simpa using he
      by_cases hrest : key ∈ rest.map (·.1)
      · simp [hne, ih, hrest]
      · simp [hne, ih, hrest, Ne.symm he]

theorem keys_insert_of_not_mem (h : key ∉ t.keys) (value : α) :
    (t.insert key value).keys = t.keys ++ [key] := by
  rw [keys_insert, if_neg h]

theorem nodup_insert (h : t.keys.Nodup) : (t.insert key value).keys.Nodup := by
  rw [keys_insert]
  split
  · exact h
  · next hnew =>
    refine List.nodup_append.2 ⟨h, by simp, fun a ha b hb hab => hnew ?_⟩
    rwa [← List.mem_singleton.1 hb, ← hab]

/-- The second table has more keys, behind those of the first. -/
structure Extends (t t' : Table α) : Prop where
  keys : t.keys <+: t'.keys
  nodup : t.keys.Nodup → t'.keys.Nodup

theorem Extends.refl (t : Table α) : t.Extends t := ⟨List.prefix_rfl, id⟩

theorem Extends.trans {t₁ t₂ t₃ : Table α} (h : t₁.Extends t₂) (h' : t₂.Extends t₃) :
    t₁.Extends t₃ :=
  ⟨h.keys.trans h'.keys, h'.nodup ∘ h.nodup⟩

theorem Extends.of_eq {t t' : Table α} (h : t' = t) : t.Extends t' := h ▸ .refl t

theorem Extends.contains {t' : Table α} (h : t.Extends t') (hname : t.contains name = true) :
    t'.contains name = true :=
  contains_iff.2 (h.keys.subset (contains_iff.1 hname))

theorem extends_insert (t : Table α) (key : String) (value : α) : t.Extends (t.insert key value) where
  keys := by
    rw [keys_insert]
    split
    · exact List.prefix_rfl
    · exact List.prefix_append _ _
  nodup := nodup_insert

theorem length_keys (t : Table α) : t.keys.length = t.size := List.length_map _

/-- The entry of a new key comes behind the others. -/
theorem entries_insert (h : key ∉ t.keys) :
    (t.insert key value).entries = t.entries ++ [(key, value)] := by
  obtain ⟨entries⟩ := t
  simp only [keys, insert] at h ⊢
  induction entries with
  | nil => rfl
  | cons e rest ih =>
    rw [List.map_cons, List.mem_cons, not_or] at h
    have hne : (e.1 == key) = false := by simpa using Ne.symm h.1
    rw [put, if_neg (by simp [hne]), ih h.2, List.cons_append]

/-- The key behind those that a table has been filled with is a new one. -/
theorem next_not_mem {t : Table α} {t' : Table β} {e : String × β} (h : t.keys <+: t'.keys)
    (hnodup : t'.keys.Nodup) (hentry : t'.entries[t.size]? = some e) :
    e.1 ∉ t.keys ∧ t.keys ++ [e.1] <+: t'.keys := by
  obtain ⟨rest, hrest⟩ := h
  have hnext : t'.keys[t.size]? = some e.1 := by rw [keys, List.getElem?_map, hentry]; rfl
  rw [← hrest, List.getElem?_append_right (Nat.le_of_eq t.length_keys), length_keys,
    Nat.sub_self] at hnext
  obtain ⟨rest, rfl⟩ : ∃ more, rest = e.1 :: more := by
    cases rest with
    | nil => cases hnext
    | cons key more => exact ⟨more, by rw [Option.some.inj hnext]⟩
  constructor
  · rw [← hrest] at hnodup
    exact fun hmem => (List.nodup_append.1 hnodup).2.2 _ hmem _ List.mem_cons_self rfl
  · rw [← hrest]
    exact ⟨rest, by simp⟩

/-- A table that has been filled up to a key of another one is filled up to the next key of it. -/
theorem insert_next {t : Table α} {t' : Table β} {e : String × β} (h : t.keys <+: t'.keys)
    (hnodup : t'.keys.Nodup) (hentry : t'.entries[t.size]? = some e) (value : α) :
    (t.insert e.1 value).keys <+: t'.keys ∧ (t.insert e.1 value).size = t.size + 1 := by
  obtain ⟨hnew, hgrown⟩ := next_not_mem h hnodup hentry
  have hkeys := keys_insert_of_not_mem hnew value
  constructor
  · rw [hkeys]
    exact hgrown
  · rw [← length_keys, hkeys, List.length_append, length_keys]
    rfl

theorem mem_of_get? (h : t.get? key = some value) : (key, value) ∈ t.entries := by
  obtain ⟨before, after, heq, _⟩ := List.lookup_eq_some_iff.1 h
  rw [heq]
  exact List.mem_append_right _ List.mem_cons_self

theorem mem_insert_self (t : Table α) (key : String) (value : α) :
    (key, value) ∈ (t.insert key value).entries :=
  mem_of_get? (by rw [get?_insert, if_pos rfl])

/-- If all keys are different, every entry is found. -/
theorem get?_of_mem (hnodup : t.keys.Nodup) (h : (key, value) ∈ t.entries) :
    t.get? key = some value := by
  obtain ⟨before, after, heq⟩ := List.append_of_mem h
  refine List.lookup_eq_some_iff.2 ⟨before, after, heq, fun e he => ?_⟩
  rw [keys, heq, List.map_append, List.nodup_append] at hnodup
  have hne := hnodup.2.2 e.1 (List.mem_map_of_mem he) key (by simp)
  simpa using hne.symm

/-! ## Values under the same keys -/

variable (f : α → β)

/-- The table with another value under every key. -/
def map (t : Table α) : Table β := ⟨t.entries.map fun e => (e.1, f e.2)⟩

@[simp]
theorem size_map (t : Table α) : (map f t).size = t.size := List.length_map _

@[simp]
theorem get?_map (t : Table α) (key : String) : (map f t).get? key = (t.get? key).map f := by
  obtain ⟨entries⟩ := t
  simp only [map, get?]
  induction entries with
  | nil => rfl
  | cons e rest ih =>
    rw [List.map_cons, List.lookup_cons, List.lookup_cons]
    split <;> simp_all

@[simp]
theorem contains_map (t : Table α) (key : String) : (map f t).contains key = t.contains key := by
  simp [contains]

@[simp]
theorem map_insert (t : Table α) (key : String) (value : α) :
    map f (t.insert key value) = (map f t).insert key (f value) := by
  obtain ⟨entries⟩ := t
  simp only [map, insert, mk.injEq]
  induction entries with
  | nil => rfl
  | cons e rest ih =>
    rw [put, List.map_cons, put]
    split <;> simp_all

theorem values_map (t : Table α) : (map f t).values = t.values.map f := by
  simp [values, map, Function.comp_def]

end Stencil.Table
