import Mathlib.Data.List.Forall2
import Stencil.Proofs.Table

/-!
# Aligned tables

Two tables are aligned when they have the same keys in the same order, with related values. They may be
aligned but for a key that only the second one has, at a place that stays.

* `Aligned.insert`, `Apart.insert`: inserting related values keeps them so.
-/

namespace Stencil

/-- The entries have the same keys, with related values. -/
def AlignedEntries {α β : Type} (R : α → β → Prop) : List (String × α) → List (String × β) → Prop :=
  List.Forall₂ fun e e' => e'.1 = e.1 ∧ R e.2 e'.2

namespace Table

variable {α β : Type} {R : α → β → Prop} {t : Table α} {t' : Table β}

/-- The tables have the same keys, with related values. -/
def Aligned (R : α → β → Prop) (t : Table α) (t' : Table β) : Prop :=
  AlignedEntries R t.entries t'.entries

/-- The tables are aligned but for a key that only the second one has, behind `n` others. -/
structure Apart (R : α → β → Prop) (key : String) (value : β) (n : Nat) (t : Table α) (t' : Table β) :
    Prop where
  entries : ∃ front back front' back', t.entries = front ++ back ∧
    t'.entries = front' ++ (key, value) :: back' ∧ front.length = n ∧ AlignedEntries R front front' ∧
    AlignedEntries R back back'
  missing : key ∉ t.keys

theorem mem_keys_aligned {entries : List (String × α)} {entries' : List (String × β)}
    (h : AlignedEntries R entries entries') : entries'.map Prod.fst = entries.map Prod.fst := by
  induction h with
  | nil => rfl
  | cons hentry _ ih => rw [List.map_cons, List.map_cons, hentry.1, ih]

theorem put_aligned {entries : List (String × α)} {entries' : List (String × β)}
    (h : AlignedEntries R entries entries') (key : String) {a : α} {b : β} (hab : R a b) :
    AlignedEntries R (put key a entries) (put key b entries') := by
  induction h with
  | nil => exact .cons ⟨rfl, hab⟩ .nil
  | @cons e e' rest rest' hentry hrest ih =>
    obtain ⟨k, v⟩ := e
    obtain ⟨k', v'⟩ := e'
    obtain ⟨rfl, hv⟩ := hentry
    rw [put, put]
    split
    · exact .cons ⟨rfl, hab⟩ hrest
    · exact .cons ⟨rfl, hv⟩ ih

theorem put_append_of_mem {entries more : List (String × α)} {key : String} (a : α)
    (h : key ∈ entries.map Prod.fst) : put key a (entries ++ more) = put key a entries ++ more := by
  induction entries with
  | nil => cases h
  | cons e rest ih =>
    obtain ⟨k, v⟩ := e
    rw [List.cons_append, put, put]
    split
    · rfl
    · next hne =>
      have hrest : key ∈ rest.map Prod.fst := by
        rcases List.mem_cons.1 h with heq | hmem
        · exact absurd (beq_iff_eq.2 heq.symm) hne
        · exact hmem
      rw [ih hrest, List.cons_append]

theorem put_append_of_not_mem {entries more : List (String × α)} {key : String} (a : α)
    (h : key ∉ entries.map Prod.fst) : put key a (entries ++ more) = entries ++ put key a more := by
  induction entries with
  | nil => rfl
  | cons e rest ih =>
    obtain ⟨k, v⟩ := e
    rw [List.map_cons, List.mem_cons, not_or] at h
    have hne : ¬ (k == key) = true := fun heq => h.1 (beq_iff_eq.1 heq).symm
    rw [List.cons_append, put, if_neg hne, ih h.2, List.cons_append]

theorem length_put_of_mem {entries : List (String × α)} {key : String} (a : α)
    (h : key ∈ entries.map Prod.fst) : (put key a entries).length = entries.length := by
  have hkeys : ((⟨entries⟩ : Table α).insert key a).keys = _ := keys_insert
  rw [if_pos (show key ∈ (⟨entries⟩ : Table α).keys from h)] at hkeys
  have hlength := congrArg List.length hkeys
  rwa [length_keys, length_keys] at hlength

theorem Aligned.insert (h : t.Aligned R t') (key : String) {a : α} {b : β} (hab : R a b) :
    (t.insert key a).Aligned R (t'.insert key b) := put_aligned h key hab

theorem Aligned.mono {Q : α → β → Prop} (h : t.Aligned R t') (hR : ∀ a b, R a b → Q a b) :
    t.Aligned Q t' := h.imp fun e e' he => ⟨he.1, hR e.2 e'.2 he.2⟩

theorem Aligned.size (h : t.Aligned R t') : t'.size = t.size := h.length_eq.symm

theorem Aligned.keys (h : t.Aligned R t') : t'.keys = t.keys := mem_keys_aligned h

/-- Entries at one index belong together. -/
theorem AlignedEntries.get {entries : List (String × α)} {entries' : List (String × β)}
    (h : AlignedEntries R entries entries') {i : Nat} {key : String} {a : α}
    (hget : entries[i]? = some (key, a)) : ∃ b, entries'[i]? = some (key, b) ∧ R a b := by
  induction h generalizing i with
  | nil => cases hget
  | @cons e e' _ _ hentry _ ih =>
    cases i with
    | zero =>
      obtain rfl := Option.some.inj hget
      obtain ⟨k', v'⟩ := e'
      obtain ⟨rfl, hv⟩ := hentry
      exact ⟨v', rfl, hv⟩
    | succ i => exact ih hget

/-- Aligned tables hold related values under a key. -/
theorem AlignedEntries.lookup {entries : List (String × α)} {entries' : List (String × β)}
    (h : AlignedEntries R entries entries') (key : String) :
    Option.Rel R (entries.lookup key) (entries'.lookup key) := by
  induction h with
  | nil => exact .none
  | @cons e e' _ _ hentry _ ih =>
    obtain ⟨k, v⟩ := e
    obtain ⟨k', v'⟩ := e'
    obtain ⟨rfl, hv⟩ := hentry
    rw [List.lookup_cons, List.lookup_cons]
    cases key == k' with
    | true => exact .some hv
    | false => exact ih

namespace Apart

variable {key : String} {value : β} {n : Nat}

/-- Another key is set on both sides. -/
theorem insert (h : Apart R key value n t t') {other : String} (hne : other ≠ key) {a : α} {b : β}
    (hab : R a b) : Apart R key value n (t.insert other a) (t'.insert other b) := by
  obtain ⟨front, back, front', back', hentries, hentries', hlength, hfront, hback⟩ := h.entries
  refine ⟨?_, ?_⟩
  · show ∃ front back front' back', put other a t.entries = _ ∧ put other b t'.entries = _ ∧ _
    rw [hentries, hentries']
    by_cases hmem : other ∈ front.map Prod.fst
    · have hmem' : other ∈ front'.map Prod.fst := by
        rw [mem_keys_aligned hfront]
        exact hmem
      rw [put_append_of_mem a hmem, put_append_of_mem b hmem']
      exact ⟨_, _, _, _, rfl, rfl, (length_put_of_mem a hmem).trans hlength,
        put_aligned hfront other hab,
        hback⟩
    · have hmem' : other ∉ front'.map Prod.fst := by
        rw [mem_keys_aligned hfront]
        exact hmem
      have hskip : put other b ((key, value) :: back') = (key, value) :: put other b back' := by
        rw [put, if_neg fun heq => hne (beq_iff_eq.1 heq).symm]
      rw [put_append_of_not_mem a hmem, put_append_of_not_mem b hmem', hskip]
      exact ⟨_, _, _, _, rfl, rfl, hlength, hfront, put_aligned hback other hab⟩
  · rw [keys_insert]
    split
    · exact h.missing
    · rw [List.mem_append, List.mem_singleton, not_or]
      exact ⟨h.missing, hne.symm⟩

/-- The key is set in the second table when it is new there. -/
theorem of_aligned (h : t.Aligned R t') (hnew : key ∉ t.keys) :
    Apart R key value t.size t (t'.insert key value) := by
  refine ⟨⟨t.entries, [], t'.entries, [], (List.append_nil _).symm, ?_, rfl, h, .nil⟩, hnew⟩
  have hnew' : key ∉ t'.keys := by
    rw [h.keys]
    exact hnew
  exact entries_insert hnew'

theorem mono {Q : α → β → Prop} (h : Apart R key value n t t') (hR : ∀ a b, R a b → Q a b) :
    Apart Q key value n t t' := by
  obtain ⟨front, back, front', back', hentries, hentries', hlength, hfront, hback⟩ := h.entries
  exact ⟨⟨front, back, front', back', hentries, hentries', hlength,
    hfront.imp fun e e' he => ⟨he.1, hR e.2 e'.2 he.2⟩,
    hback.imp fun e e' he => ⟨he.1, hR e.2 e'.2 he.2⟩⟩, h.missing⟩

/-- The extra key is at its place. -/
theorem get_key (h : Apart R key value n t t') : t'.entries[n]? = some (key, value) := by
  obtain ⟨front, back, front', back', _, hentries', rfl, hfront, _⟩ := h.entries
  rw [hentries', hfront.length_eq, List.getElem?_append_right (Nat.le_refl _), Nat.sub_self]
  rfl

theorem le_size (h : Apart R key value n t t') : n ≤ t.size := by
  obtain ⟨front, back, _, _, hentries, _, rfl, _⟩ := h.entries
  rw [size, hentries, List.length_append]
  exact Nat.le_add_right ..

theorem size (h : Apart R key value n t t') : t'.size = t.size + 1 := by
  obtain ⟨front, back, front', back', hentries, hentries', _, hfront, hback⟩ := h.entries
  rw [Table.size, Table.size, hentries, hentries', List.length_append, List.length_append,
    List.length_cons, hfront.length_eq, hback.length_eq, Nat.add_assoc]

/-- Other entries belong together, at the same index before the key and at the next one behind it. -/
theorem get (h : Apart R key value n t t') {i : Nat} {other : String} {a : α}
    (hget : t.entries[i]? = some (other, a)) :
    ∃ b, t'.entries[if i < n then i else i + 1]? = some (other, b) ∧ R a b := by
  obtain ⟨front, back, front', back', hentries, hentries', rfl, hfront, hback⟩ := h.entries
  rw [hentries] at hget
  rw [hentries']
  split
  · next hlt =>
    rw [List.getElem?_append_left hlt] at hget
    rw [List.getElem?_append_left (hfront.length_eq ▸ hlt)]
    exact AlignedEntries.get hfront hget
  · next hge =>
    rw [List.getElem?_append_right (by omega)] at hget
    obtain ⟨b, hb, hab⟩ := AlignedEntries.get hback hget
    refine ⟨b, ?_, hab⟩
    rw [List.getElem?_append_right (by have := hfront.length_eq; omega), ← hfront.length_eq,
      show i + 1 - front.length = (i - front.length) + 1 by omega]
    exact hb

theorem get?_key (h : Apart R key value n t t') : t'.get? key = some value := by
  obtain ⟨front, back, front', back', hentries, hentries', _, hfront, _⟩ := h.entries
  have hmissing : key ∉ front'.map Prod.fst := by
    rw [mem_keys_aligned hfront]
    intro hmem
    refine h.missing ?_
    rw [keys, hentries, List.map_append]
    exact List.mem_append_left _ hmem
  have hnone : front'.lookup key = none := by
    rw [List.lookup_eq_none_iff]
    intro e he
    have hne : key ≠ e.1 := fun heq => hmissing (heq ▸ List.mem_map_of_mem he)
    simpa using hne
  rw [get?, hentries', List.lookup_append, hnone, List.lookup_cons_self]
  rfl

/-- Under other keys, the tables hold related values. -/
theorem rel_get? (h : Apart R key value n t t') {other : String} (hne : other ≠ key) :
    Option.Rel R (t.get? other) (t'.get? other) := by
  obtain ⟨front, back, front', back', hentries, hentries', _, hfront, hback⟩ := h.entries
  have hskip : ((key, value) :: back').lookup other = back'.lookup other := by
    rw [List.lookup_cons, show (other == key) = false by simpa using hne]
  rw [get?, get?, hentries, hentries', List.lookup_append, List.lookup_append, hskip]
  have hfront := AlignedEntries.lookup hfront other
  have hback := AlignedEntries.lookup hback other
  generalize front.lookup other = a at hfront ⊢
  generalize front'.lookup other = a' at hfront ⊢
  cases hfront with
  | none => exact hback
  | some hab => exact .some hab

end Apart

end Table

end Stencil
