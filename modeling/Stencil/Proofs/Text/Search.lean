import Stencil.Filter.Builtin

/-!
# Texts cut at separators

Occurrences of a separator are found from left to right, and the search goes on behind each of them.
So a piece ends where the next occurrence begins, and no occurrence is left inside of it, also where
occurrences could overlap.

* `not_infix_piecesBy`: no piece holds the separator.
* `split_join`: the filters that split and join texts undo each other.
-/

namespace Stencil

namespace Text

variable {sep : List Char}

/-- The text starts with its first piece. -/
theorem prefix_piecesFrom (hsep : sep ≠ []) (cs : List Char) : (piecesFrom sep 0 cs).1 <+: cs := by
  have hjoined := joinWith_piecesFrom hsep cs 0 (Nat.zero_le _)
  rw [joinWith_cons, List.drop_zero] at hjoined
  exact ⟨_, hjoined⟩

theorem not_infix_piecesFrom (hsep : sep ≠ []) (skip : Nat) (cs : List Char) :
    ∀ piece ∈ (piecesFrom sep skip cs).1 :: (piecesFrom sep skip cs).2, ¬ sep <:+: piece := by
  have hempty : ¬ sep <:+: [] := fun h => hsep (List.eq_nil_of_infix_nil h)
  fun_induction piecesFrom sep skip cs with
  | case1 => simpa using hempty
  | case2 skip c cs ih => exact ih
  | case3 c cs hprefix first others heq ih =>
    rw [heq] at ih
    exact List.forall_mem_cons.2 ⟨hempty, ih⟩
  | case4 c cs hprefix first others heq ih =>
    rw [heq] at ih
    obtain ⟨hfirst, hothers⟩ := List.forall_mem_cons.1 ih
    refine List.forall_mem_cons.2 ⟨fun hinfix => ?_, hothers⟩
    rcases List.infix_cons_iff.1 hinfix with hhere | hlater
    · -- the piece is where the text goes on, so the separator would have been found here
      have hpiece : c :: first <+: c :: cs := by
        have := prefix_piecesFrom hsep cs
        rw [heq] at this
        exact (List.prefix_cons_inj c).2 this
      exact hprefix (List.isPrefixOf_iff_prefix.2 (hhere.trans hpiece))
    · exact hfirst hlater

/-- No piece holds the separator. -/
theorem not_infix_piecesBy (hsep : sep ≠ []) (cs : List Char) :
    ∀ piece ∈ piecesBy sep cs, ¬ sep <:+: piece := by
  have hne : sep.isEmpty = false := by simpa using hsep
  rw [piecesBy, hne]
  exact not_infix_piecesFrom hsep 0 cs

theorem joinWith_empty (pieces : List (List Char)) : joinWith [] pieces = pieces.flatten := by
  cases pieces with
  | nil => rfl
  | cons piece others => simp [joinWith_cons, List.flatMap_id']

/-- The characters of a text make it up. -/
theorem join_singletons (s : String) : join "" (s.toList.map .singleton) = s := by
  have hsingle : s.toList.map (String.toList ∘ String.singleton) = s.toList.map fun c => [c] :=
    List.map_congr_left fun c _ => String.toList_singleton c
  rw [join, List.map_map, hsingle, String.toList_empty, joinWith_empty]
  simp [← List.flatMap_def]

theorem join_splitBy (sep s : String) : join sep (splitBy sep s) = s := by
  have hid : (piecesBy sep.toList s.toList).map (String.toList ∘ String.ofList) =
      piecesBy sep.toList s.toList := List.map_id'' (fun _ => String.toList_ofList) _
  rw [join, splitBy, List.map_map, hid, joinWith_piecesBy, String.ofList_toList]

end Text

namespace Filter

open Text

theorem joinAll_texts (sep : String) (parts : List String) :
    joinAll (.seq (parts.map .str)) [.str sep] = .ok (.str (join sep parts)) := by
  have htexts : (parts.map Value.str).map Value.text = parts := by
    rw [List.map_map]
    exact List.map_id'' (fun _ => rfl) _
  show Except.ok (Value.str (join sep _)) = _
  rw [htexts]

theorem split_empty (s : String) :
    split (.str s) [.str ""] = .ok (.seq ((s.toList.map .singleton).map .str)) := by
  rw [List.map_map]
  rfl

theorem split_separator {sep : String} (hsep : sep ≠ "") (s : String) :
    split (.str s) [.str sep] = .ok (.seq ((splitBy sep s).map .str)) := by
  have hne : sep.isEmpty = false := by simpa [String.isEmpty_iff] using hsep
  show (if sep.isEmpty then Except.ok (Value.seq (Value.ofChars s)) else _) = _
  rw [hne]
  rfl

/-- The built-in filters split a text at a separator into pieces and join them to the same text
again, and pieces that were cut at a separator do not hold it. -/
theorem split_join (s sep : String) : ∃ (split join : Filter) (pieces : List String),
    FilterRegistry.builtin.get? "split" = some split ∧
    FilterRegistry.builtin.get? "join" = some join ∧
    split (.str s) [.str sep] = .ok (.seq (pieces.map .str)) ∧
    join (.seq (pieces.map .str)) [.str sep] = .ok (.str s) ∧
    (sep ≠ "" → ∀ piece ∈ pieces, ¬ sep.toList <:+: piece.toList) := by
  by_cases hsep : sep = ""
  · subst hsep
    refine ⟨split, joinAll, s.toList.map .singleton, rfl, rfl, split_empty s, ?_,
      fun hne => absurd rfl hne⟩
    rw [joinAll_texts, join_singletons]
  · refine ⟨split, joinAll, splitBy sep s, rfl, rfl, split_separator hsep s, ?_, ?_⟩
    · rw [joinAll_texts, join_splitBy]
    · intro _ piece hpiece
      obtain ⟨cs, hcs, rfl⟩ := List.mem_map.1 hpiece
      rw [String.toList_ofList]
      exact not_infix_piecesBy (by simpa using hsep) s.toList cs hcs

/-- Overlapping occurrences: the leftmost one counts. -/
example : (Text.splitBy "aba" "cababad") = ["c", "bad"] := by decide

end Filter

end Stencil
