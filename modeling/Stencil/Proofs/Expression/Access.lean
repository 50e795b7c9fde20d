import Mathlib.Data.List.Basic
import Stencil.Proofs.Expression.Path
import Stencil.Proofs.Text.Indent
import Stencil.Text.Separator

/-!
# Access paths

An access path is the name of a variable with accesses behind it: names behind points, and anything
in brackets.

* `IsAccessPath.access_eq`: an access path reads the variable at its start, and the path that is
  noted is the whole text.
* `CallsAround.access_eq`: so does an expression that is calls around an access path.
* `Accesses.outside`: outside brackets an access path has nothing but names and points.
-/

namespace Stencil

open Text

/-! ## Paths -/

/-- A name behind a point. -/
def isMemberName : List Char → Bool
  | [] => false
  | c :: cs => isNameStart c && cs.all isNamePart

/-- Whether a text that starts with something open never closes all of it, and leaves one bracket
open in the end. -/
def staysInside : Nesting → List Char → Bool
  | n, [] => n == ⟨none, false, 1⟩
  | n, c :: cs => decide (0 < n.depth) && staysInside (n.step c) cs

/-- What may stand behind the variable of an access path: names behind points, and brackets. -/
inductive Accesses : List Char → Prop where
  | nil : Accesses []
  | member {word rest : List Char} (name : isMemberName word = true) (more : Accesses rest) :
      Accesses ('.' :: (word ++ rest))
  | index {content rest : List Char} (inside : staysInside ⟨none, false, 1⟩ content = true)
      (more : Accesses rest) : Accesses ('[' :: (content ++ ']' :: rest))

/-- The text is the name of a variable and accesses, and nothing else. -/
def IsAccessPath (path : String) : Prop :=
  ∃ (name : String) (rest : List Char),
    isVariableName name = true ∧ Accesses rest ∧ path.toList = name.toList ++ rest

/-- The text is calls of functions around a path, perhaps with blanks around the arguments. -/
inductive CallsAround (path : String) : List Char → Prop where
  | path : CallsAround path path.toList
  | blanks {before text behind : List Char} (left : ∀ c ∈ before, isBlank c = true)
      (right : ∀ c ∈ behind, isBlank c = true) (inner : CallsAround path text) :
      CallsAround path (before ++ text ++ behind)
  | call {head function text : List Char} (name : DottedPath head function) (line : '\n' ∉ text)
      (inner : CallsAround path text) : CallsAround path (function ++ '(' :: text ++ [')'])

section

variable {cs rest text : List Char} {c : Char} {path : String}

/-! ## Characters -/

theorem isMemberName_all (h : isMemberName cs = true) : ∀ c ∈ cs, isNamePart c = true := by
  cases cs with
  | nil => cases h
  | cons c cs =>
    rw [isMemberName, Bool.and_eq_true, List.all_eq_true] at h
    refine List.forall_mem_cons.2 ⟨?_, h.2⟩
    simp [isNamePart, h.1]

/-- Where no bracket stands, all accesses are names behind points. -/
theorem Accesses.outside (h : Accesses rest) (hbracket : '[' ∉ rest) :
    ∀ c ∈ rest, c = '.' ∨ isNamePart c = true := by
  induction h with
  | nil => exact fun _ hc => absurd hc List.not_mem_nil
  | member name _ ih =>
    simp only [List.mem_cons, List.mem_append, not_or] at hbracket
    intro c hc
    rcases List.mem_cons.1 hc with rfl | hc
    · exact .inl rfl
    · rcases List.mem_append.1 hc with hc | hc
      · exact .inr (isMemberName_all name c hc)
      · exact ih hbracket.2.2 c hc
  | index => exact absurd List.mem_cons_self hbracket

/-- Accesses start with a point or a bracket. -/
theorem Accesses.first (h : Accesses rest) : ∀ c ∈ rest.head?, c = '.' ∨ c = '[' := by
  intro c hc
  cases h with
  | nil => cases hc
  | member => exact .inl (Option.some.inj hc).symm
  | index => exact .inr (Option.some.inj hc).symm

/-- Behind a name, accesses end with a name or a bracket. -/
theorem Accesses.last (h : Accesses rest) (hcs : ∀ c ∈ cs, isNamePart c = true) :
    ∀ c ∈ (cs ++ rest).getLast?, c = ']' ∨ isNamePart c = true := by
  induction h generalizing cs with
  | nil =>
    rw [List.append_nil]
    exact fun c hc => .inr (hcs c (List.mem_of_getLast? hc))
  | @member word rest name _ ih =>
    have hne : word ++ rest ≠ [] := by
      cases word with
      | nil => cases name
      | cons => exact List.cons_ne_nil _ _
    rw [List.getLast?_append_cons, List.getLast?_cons_of_ne_nil hne]
    exact ih (isMemberName_all name)
  | @index content rest _ _ ih =>
    have hshape : cs ++ '[' :: (content ++ ']' :: rest) = cs ++ '[' :: content ++ (']' :: rest) := by
      simp only [List.append_assoc, List.cons_append]
    rw [hshape, List.getLast?_append_cons]
    cases rest with
    | nil => exact fun c hc => .inl (Option.some.inj hc).symm
    | cons d ds =>
      rw [List.getLast?_cons_of_ne_nil (List.cons_ne_nil _ _)]
      have hempty : ∀ c ∈ ([] : List Char), isNamePart c = true :=
        fun c hc => absurd hc List.not_mem_nil
      exact ih hempty

/-! ## Calls -/

theorem isWord_symbol (hc : startsSymbolName c = true) : isWord c = true := by
  simp only [startsSymbolName, Bool.or_eq_true, beq_iff_eq] at hc
  rcases hc with hletter | rfl
  · have hascii : c.toNat < 128 := by
      have hpart : isPathPart c = true := by
        simp [isPathPart, inSymbolName, startsSymbolName, hletter]
      have hbounds := pathPart_bounds hpart
      show c.val.toNat < 128
      omega
    simp [isWord, isAlphabetic, hascii, hletter]
  · decide

theorem behindCall?_path (hcs : ∀ c ∈ cs, isPathPart c = true) (line : '\n' ∉ text) :
    behindCall? true (cs ++ '(' :: text) = some text := by
  induction cs with
  | nil => simp [behindCall?, line]
  | cons c cs ih =>
    rw [List.forall_mem_cons] at hcs
    have hopen : (c == '(') = false := by
      rw [beq_eq_false_iff_ne]
      rintro rfl
      exact absurd hcs.1 (by decide)
    have hclose : (c == ')') = false := by
      rw [beq_eq_false_iff_ne]
      rintro rfl
      exact absurd hcs.1 (by decide)
    rw [List.cons_append, behindCall?, hopen, hclose, Bool.true_or]
    exact ih hcs.2

/-- The argument of a call. -/
theorem DottedPath.callArgument_eq {head function : List Char} (h : DottedPath head function)
    (line : '\n' ∉ text) : callArgument? (function ++ '(' :: text ++ [')']) = some text := by
  have hall := h.all
  obtain ⟨c, cs, rfl, hc⟩ := h.exists_cons
  rw [List.forall_mem_cons] at hall
  have hfound : behindCall? false (c :: cs ++ '(' :: text) = some text := by
    have hopen : (c == '(') = false := by
      rw [beq_eq_false_iff_ne]
      rintro rfl
      exact absurd hc (by decide)
    have hclose : (c == ')') = false := by
      rw [beq_eq_false_iff_ne]
      rintro rfl
      exact absurd hc (by decide)
    rw [List.cons_append, behindCall?, hopen, hclose, isWord_symbol hc]
    exact behindCall?_path hall.2 line
  rw [callArgument?, List.reverse_append, List.reverse_singleton, List.singleton_append]
  show behindCall? false (c :: cs ++ '(' :: text).reverse.reverse = some text
  rw [List.reverse_reverse, hfound]

theorem peel_of_some (h : callArgument? cs = some text) : peel cs = peel (trim text) := by
  rw [peel]
  split
  · next hnone =>
    rw [h] at hnone
    cases hnone
  · next hsome =>
    rw [h] at hsome
    rw [Option.some.inj hsome]

/-! ## Variables -/

theorem startsLikeName_iff {name : String} :
    startsLikeName name = true ↔ ∃ c cs, name.toList = c :: cs ∧ isNameStart c = true := by
  unfold startsLikeName
  cases name.toList with
  | nil => simp
  | cons c cs => simp

namespace IsAccessPath

/-- The text is no call, it has no blanks around it, and it starts with the variable. -/
theorem trim_eq (h : IsAccessPath path) : trim path.toList = path.toList := by
  obtain ⟨name, rest, hname, haccesses, heq⟩ := h
  have hall := isVariableName_all hname
  simp only [isVariableName, Bool.and_eq_true] at hname
  obtain ⟨c, cs, hcs, hc⟩ := startsLikeName_iff.1 hname.1.1
  refine trim_of_ends (fun d hd => ?_) fun d hd => ?_
  · rw [heq, hcs] at hd
    obtain rfl := Option.some.inj hd
    exact isBlank_namePart (by simp [isNamePart, hc])
  · rw [heq] at hd
    rcases haccesses.last hall d hd with rfl | hpart
    · decide
    · exact isBlank_namePart hpart

theorem peel_eq (h : IsAccessPath path) : peel path.toList = path.toList := by
  obtain ⟨name, rest, hname, haccesses, heq⟩ := h
  refine peel_of_none (callArgument?_of_last fun hlast => ?_)
  rw [heq] at hlast
  rcases haccesses.last (isVariableName_all hname) _ hlast with hclose | hpart
  · exact absurd hclose (by decide)
  · exact absurd hpart (by decide)

theorem pathStart_eq {name : String} (hname : isVariableName name = true) (h : Accesses rest)
    (heq : path.toList = name.toList ++ rest) : pathStart path = name := by
  have hall := isVariableName_all hname
  have hkept : ∀ c ∈ name.toList, (!(c == '.' || c == '[')) = true := by
    intro c hc
    rw [Bool.not_eq_true', Bool.or_eq_false_iff, beq_eq_false_iff_ne, beq_eq_false_iff_ne]
    constructor <;> rintro rfl <;> exact absurd (hall _ hc) (by decide)
  have hstops : rest.takeWhile (fun c => !(c == '.' || c == '[')) = [] := by
    cases rest with
    | nil => rfl
    | cons c cs => rcases h.first c rfl with rfl | rfl <;> rfl
  rw [pathStart, cutAt, List.span_eq_takeWhile_dropWhile, heq, List.takeWhile_append_of_pos hkept,
    hstops, List.append_nil, trim_of_no_blank fun c hc => isBlank_namePart (hall c hc),
    String.ofList_toList]

end IsAccessPath

/-- What is calls around an access path, is peeled down to it. -/
theorem CallsAround.peel_eq (h : CallsAround path text) (hpath : IsAccessPath path) :
    peel (trim text) = path.toList := by
  induction h with
  | path => rw [hpath.trim_eq, hpath.peel_eq]
  | blanks left right _ ih => rw [trim_of_blanks left right, ih]
  | @call head function text name line _ ih =>
    have htrim : trim (function ++ '(' :: text ++ [')']) = function ++ '(' :: text ++ [')'] := by
      refine trim_of_ends (fun c hc => ?_) fun c hc => ?_
      · obtain ⟨d, ds, rfl, -⟩ := name.exists_cons
        obtain rfl : d = c := Option.some.inj hc
        exact isBlank_pathPart (name.all d List.mem_cons_self)
      · rw [List.getLast?_concat] at hc
        obtain rfl := Option.some.inj hc
        decide
    rw [htrim, peel_of_some (name.callArgument_eq line), ih]

/-- Calls around an access path read the variable at its start, by that path. -/
theorem CallsAround.access_eq (h : CallsAround path text) (hpath : IsAccessPath path) :
    Access.ofExpression? (.ofList text) = some ⟨path, pathStart path⟩ := by
  have hpeel : peelCalls (.ofList text) = path := by
    rw [peelCalls, String.toList_ofList, h.peel_eq hpath, String.ofList_toList]
  obtain ⟨name, rest, hname, haccesses, heq⟩ := hpath
  rw [Access.ofExpression?, hpeel, IsAccessPath.pathStart_eq hname haccesses heq, if_pos hname]

theorem IsAccessPath.access_eq (h : IsAccessPath path) :
    Access.ofExpression? path = some ⟨path, pathStart path⟩ := by
  have haccess := CallsAround.path.access_eq h
  rwa [String.ofList_toList] at haccess

end

end Stencil
