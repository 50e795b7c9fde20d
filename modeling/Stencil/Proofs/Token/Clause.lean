import Mathlib.Data.List.Basic
import Stencil.Proofs.Text.Indent
import Stencil.Proofs.Text.Separator
import Stencil.Token.Clause

/-!
# Clauses written and read

Reading a clause trims its parts and drops the empty ones. What is left out was blank and had nothing
open in front of it, so the parts that stay are read back as they are.

* `FilterCall.IsSettled`: the calls that a clause can write;
* `FilterCall.isSettled_ofClause`: reading gives such a call;
* `FilterCall.IsSettled.ofClause_written`: such a call is read back as it was written;
* `FilterCall.ofClause_roundTrip`: both together.
-/

namespace Stencil

open Text

/-! ## Parts of a clause -/

namespace Text

variable {sep : Char} {cs : List Char}

/-- Blanks open and close nothing. -/
theorem Nesting.after_trim (h : Nesting.after {} cs = {}) : Nesting.after {} (trim cs) = {} := by
  obtain ⟨before, behind, hbefore, hbehind, hcs⟩ := exists_blanks_trim cs
  rw [hcs, Nesting.after_append, Nesting.after_append,
    Nesting.after_plain fun c hc => .of_isBlank (hbefore c hc)] at h
  have hreached := Nesting.reached_after (trim cs)
  -- What the trimmed text leaves open would stay open over the blanks behind it.
  refine hreached.eq_or_isOpen.resolve_right fun hopen => ?_
  have hstill := hreached.isOpen_after hopen fun c hc => .of_isBlank (hbehind c hc)
  rw [h] at hstill
  exact absurd hstill (by decide)

/-- What cannot be cut can still not be cut when it is trimmed. -/
theorem splitTop_trim (h : splitTop sep cs = [cs]) : splitTop sep (trim cs) = [trim cs] := by
  obtain ⟨before, behind, hbefore, -, hcs⟩ := exists_blanks_trim cs
  rw [splitTop_eq_singleton_iff] at h ⊢
  intro first rest htrim hplain hclosed
  refine h (before ++ first) (rest ++ behind) ?_ hplain ?_
  · rw [hcs, htrim]
    simp
  · rw [Nesting.after_append, Nesting.after_plain fun c hc => .of_isBlank (hbefore c hc), hclosed]

/-- Text put together from pieces ends with the last one. -/
theorem joinWith_concat (sep last : List Char) (pieces : List (List Char)) :
    ∃ front, joinWith sep (pieces ++ [last]) = front ++ last := by
  cases pieces with
  | nil => exact ⟨[], rfl⟩
  | cons piece pieces =>
    refine ⟨piece ++ pieces.flatMap (sep ++ ·) ++ sep, ?_⟩
    rw [List.cons_append, joinWith_cons]
    simp

/-- The space behind a comma goes with the argument behind it. -/
theorem space_joinWith {args : List (List Char)} (hne : args ≠ []) :
    ' ' :: joinWith [',', ' '] args = joinWith [','] (args.map (' ' :: ·)) := by
  cases args with
  | nil => exact absurd rfl hne
  | cons arg args =>
    rw [List.map_cons, joinWith_cons, joinWith_cons]
    simp [List.flatMap_map]

theorem splitTop_space {arg : List Char} (h : splitTop ',' arg = [arg]) :
    splitTop ',' (' ' :: arg) = [' ' :: arg] := by
  have hblank : ',' ∉ [' '] := by decide
  have hspace : topPieces ',' {} (' ' :: arg) =
      (' ' :: (topPieces ',' {} arg).1, (topPieces ',' {} arg).2) :=
    topPieces_start hblank {} arg
  obtain ⟨hfirst, hothers⟩ := List.cons.inj h
  rw [splitTop_eq, hspace, hfirst, hothers]

end Text

namespace FilterCall

/-! ## Writing -/

/-- The clause of a filter call. -/
def written (call : FilterCall) : String :=
  if call.args.isEmpty then call.name else call.name ++ ": " ++ Text.join ", " call.args

/-- Name and arguments are trimmed and cannot be cut, no argument is empty, and only the last part
leaves something open. -/
structure IsSettled (call : FilterCall) : Prop where
  name : trim call.name.toList = call.name.toList ∧
    splitTop ':' call.name.toList = [call.name.toList]
  named : call.args ≠ [] → Nesting.after {} call.name.toList = {}
  args : ∀ arg ∈ call.args, arg.toList ≠ [] ∧ trim arg.toList = arg.toList ∧
    splitTop ',' arg.toList = [arg.toList]
  closed : call.args.Pairwise fun arg _ => Nesting.after {} arg.toList = {}

/-! ## Reading what was written -/

/-- The arguments are read back. -/
theorem splitTop_args {args : List (List Char)} (hne : args ≠ [])
    (hargs : ∀ arg ∈ args, arg ≠ [] ∧ trim arg = arg ∧ splitTop ',' arg = [arg])
    (hclosed : args.Pairwise fun arg _ => Nesting.after {} arg = {}) :
    ((splitTop ',' (' ' :: joinWith [',', ' '] args)).map trim).filter (!·.isEmpty) = args := by
  have hone : ∀ piece ∈ args.map (' ' :: ·), splitTop ',' piece = [piece] := by
    intro piece hpiece
    obtain ⟨arg, harg, rfl⟩ := List.mem_map.1 hpiece
    exact splitTop_space (hargs arg harg).2.2
  have hpairs : (args.map (' ' :: ·)).Pairwise fun piece _ => Nesting.after {} piece = {} :=
    List.pairwise_map.2 hclosed
  have htrimmed : (args.map (' ' :: ·)).map trim = args := by
    rw [List.map_map]
    exact (List.map_congr_left fun arg harg => (hargs arg harg).2.1).trans args.map_id
  rw [space_joinWith hne, splitTop_joinWith (by decide) (by simpa using hne) hone hpairs, htrimmed,
    List.filter_eq_self]
  intro arg harg
  simpa using (hargs arg harg).1

theorem toList_written {call : FilterCall} (h : call.args ≠ []) :
    call.written.toList =
      call.name.toList ++ ':' :: ' ' :: joinWith [',', ' '] (call.args.map String.toList) := by
  rw [written, if_neg (by simpa using h)]
  simp [Text.join]

/-- No blank stands at an end of the clause. -/
theorem IsSettled.trim_written {call : FilterCall} (h : call.IsSettled) :
    trim call.written.toList = call.written.toList := by
  by_cases hargs : call.args = []
  · rw [written, if_pos (by simpa using hargs)]
    exact h.name.1
  · obtain ⟨args, last, hlast⟩ := (List.eq_nil_or_concat call.args).resolve_left hargs
    rw [List.concat_eq_append] at hlast
    obtain ⟨hne, htrim, -⟩ := h.args last (by rw [hlast]; simp)
    obtain ⟨front, hfront⟩ := joinWith_concat [',', ' '] last.toList (args.map String.toList)
    have htext : call.written.toList = call.name.toList ++ ':' :: ' ' :: front ++ last.toList := by
      rw [toList_written hargs, hlast, List.map_append, List.map_singleton, hfront]
      simp
    -- The clause starts with the name, or with the colon if that is empty, and ends with the last
    -- argument, which is not empty.
    refine trim_of_ends (fun c hc => ?_) fun c hc => ?_
    · cases hname : call.name.toList with
      | nil =>
        rw [htext, hname] at hc
        obtain rfl := Option.some.inj hc
        decide
      | cons d ds =>
        have hhead := head?_trim call.name.toList
        rw [h.name.1, hname] at hhead
        rw [htext, hname] at hc
        exact hhead c hc
    · rw [htext, List.getLast?_append_of_ne_nil _ hne, ← htrim] at hc
      exact getLast?_dropRight isBlank _ c hc

/-- A settled call is read back as it was written. -/
theorem IsSettled.ofClause_written {call : FilterCall} (h : call.IsSettled) :
    ofClause call.written.toList = call := by
  unfold ofClause
  simp only [h.trim_written]
  by_cases hargs : call.args = []
  · have hwritten : call.written = call.name := if_pos (by simpa using hargs)
    rw [hwritten, cutTop?_of_one h.name.2, String.ofList_toList, ← hargs]
  · have hcut : cutTop? ':' call.written.toList = some (call.name.toList,
        ' ' :: joinWith [',', ' '] (call.args.map String.toList)) := by
      rw [toList_written hargs]
      exact cutTop?_append (by decide) h.name.2 (h.named hargs) _
    have hne : call.args.map String.toList ≠ [] := by simpa using hargs
    have hback := splitTop_args hne (List.forall_mem_map.2 h.args) (List.pairwise_map.2 h.closed)
    rw [hcut]
    simp only [h.name.1, hback, String.ofList_toList, List.map_map]
    exact congrArg _ ((List.map_congr_left fun _ _ => String.ofList_toList).trans call.args.map_id)

/-! ## What reading gives -/

/-- Reading gives a settled call. -/
theorem isSettled_ofClause (clause : List Char) : (ofClause clause).IsSettled := by
  unfold ofClause
  dsimp only
  rcases cutTop?_cases ':' (trim clause) with ⟨hone, hcut⟩ | ⟨name, rest, -, hone, hclosed, hcut⟩
  · rw [hcut]
    refine ⟨?_, fun hargs => absurd rfl hargs, nofun, .nil⟩
    simp only [String.toList_ofList]
    exact ⟨trim_trim clause, hone⟩
  · rw [hcut]
    refine ⟨?_, fun _ => ?_, fun arg harg => ?_, ?_⟩
    · simp only [String.toList_ofList]
      exact ⟨trim_trim name, splitTop_trim hone⟩
    · simp only [String.toList_ofList]
      exact Nesting.after_trim hclosed
    · obtain ⟨text, htext, rfl⟩ := List.mem_map.1 harg
      obtain ⟨htrimmed, hne⟩ := List.mem_filter.1 htext
      obtain ⟨piece, hpiece, rfl⟩ := List.mem_map.1 htrimmed
      rw [String.toList_ofList]
      exact ⟨by simpa using hne, trim_trim piece, splitTop_trim (splitTop_piece hpiece)⟩
    · have hpieces : ((splitTop ',' rest).map trim).Pairwise fun arg _ =>
          Nesting.after {} arg = {} :=
        List.pairwise_map.2 ((pairwise_splitTop ',' rest).imp Nesting.after_trim)
      simpa only [List.pairwise_map, String.toList_ofList] using hpieces.filter (!·.isEmpty)

/-- A clause may be written in many ways. What is read of it, written again, is read as the same call.
The calls that are read back as they were written are the settled ones. -/
theorem ofClause_roundTrip (clause : List Char) (call : FilterCall) :
    ofClause (ofClause clause).written.toList = ofClause clause ∧
      (ofClause call.written.toList = call ↔ call.IsSettled) :=
  ⟨(isSettled_ofClause clause).ofClause_written,
    fun h => h ▸ isSettled_ofClause call.written.toList, fun h => h.ofClause_written⟩

example : (ofClause " date :\u3000'%H:%M' ,, (a, b ".toList).written = "date: '%H:%M', (a, b" := by
  decide +kernel

end FilterCall

end Stencil
