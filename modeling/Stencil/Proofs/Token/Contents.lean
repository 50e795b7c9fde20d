import Stencil.Proofs.Generation.Filters
import Stencil.Proofs.Script
import Stencil.Proofs.Token.Lossless

/-!
# Contents of tokens

A token is made of what stands between its delimiters. Its name, its head and its filters are parts
of that, and so is every expression that it reads.

* `tokenize_forall`: what holds of every token that a scan can find holds of all tokens of a text.
* `tokenize_isMade`: the name of a tag has no blank, and the head and the filters of a token stand in
  its source.
* `Token.Writes.newline_notMem`: so a pipeline has no line feed if its token has none.
-/

namespace Stencil

open Text

/-! ## What scans find -/

namespace Scan

variable {P : Token → Prop} {files : Files} {limit : Nat} {s s₁ : Scan}

/-- The tokens that a scan can find all satisfy `P`. -/
structure Finds (P : Token → Prop) : Prop where
  raw : ∀ text pos, P (.raw text pos)
  tag : ∀ content pos,
    P (.tag (.ofContent content (Enclosure.tag.opener ++ content ++ Enclosure.tag.closer) pos))
  object : ∀ content pos, P (.objectOfContent content
    (Enclosure.object.opener ++ content ++ Enclosure.object.closer) pos)

theorem flush_forall (hP : Finds P) {read : List Char} (h : flush files limit s read = .ok s₁)
    (hs : ∀ token ∈ s.found, P token) : ∀ token ∈ s₁.found, P token := by
  unfold flush at h
  split at h
  · obtain rfl := Except.ok.inj h
    exact hs
  · obtain rfl := push_ok h
    exact List.forall_mem_cons.2 ⟨hP.raw _ _, hs⟩

theorem close_forall (hP : Finds P) {e : Enclosure} {start : Pos} {content : List Char}
    (h : close files limit s e start content = .ok s₁) (hs : ∀ token ∈ s.found, P token) :
    ∀ token ∈ s₁.found, P token := by
  cases e with
  | marker =>
    obtain ⟨frame, outer, rfl⟩ := mark_ok h
    exact hs
  | tag =>
    obtain rfl := push_ok h
    exact List.forall_mem_cons.2 ⟨hP.tag content start, hs⟩
  | object =>
    obtain rfl := push_ok h
    exact List.forall_mem_cons.2 ⟨hP.object content start, hs⟩

theorem step_forall (hP : Finds P) {l : Lexeme} (h : step files limit s l = .ok s₁)
    (hs : ∀ token ∈ s.found, P token) : ∀ token ∈ s₁.found, P token := by
  rcases step_cases h with
    ⟨e, read, s₀, rfl, hmode, hflush, rfl⟩ | ⟨e, start, read, rfl, hmode, hclose⟩ | ⟨_, _, rfl⟩
  · show ∀ token ∈ s₀.found, P token
    exact flush_forall hP hflush hs
  · exact close_forall hP hclose hs
  · exact hs

theorem run_forall (hP : Finds P) {ls : List Lexeme}
    (h : ls.foldlM (step files limit) s = .ok s₁) (hs : ∀ token ∈ s.found, P token) :
    ∀ token ∈ s₁.found, P token := by
  induction ls generalizing s with
  | nil =>
    obtain rfl := Except.ok.inj h
    exact hs
  | cons l ls ih =>
    obtain ⟨s₀, hstep, hrun⟩ := foldlM_cons_ok h
    exact ih hrun (step_forall hP hstep hs)

end Scan

/-- What holds of every token that a scan can find holds of all tokens of a text. -/
theorem tokenize_forall {P : Token → Prop} (hP : Scan.Finds P) {text root : String} {files : Files}
    {limit : Nat} {tokens : List Token} (h : tokenize text root files limit = .ok tokens) :
    ∀ token ∈ tokens, P token := by
  obtain ⟨s, hrun, hfinish⟩ := run_of_tokenize h
  obtain ⟨read, s₁, _, hflush, _, rfl⟩ := Scan.finish_ok hfinish
  have hfound := Scan.run_forall hP hrun fun _ h => absurd h List.not_mem_nil
  exact fun token htoken => Scan.flush_forall hP hflush hfound token (List.mem_reverse.1 htoken)

/-! ## Parts of texts -/

section

variable {sep : Char} {cs : List Char}

theorem dropRight_subset (p : Char → Bool) (cs : List Char) : dropRight p cs ⊆ cs := by
  induction cs with
  | nil => exact fun _ h => h
  | cons c cs ih =>
    rw [dropRight]
    split
    · split
      · exact fun _ h => absurd h List.not_mem_nil
      · exact fun d hd => List.mem_singleton.1 hd ▸ List.mem_cons_self
    · next d ds hcs =>
      rw [hcs] at ih
      exact List.cons_subset_cons c ih

theorem trim_subset (cs : List Char) : trim cs ⊆ cs := fun _ hc =>
  (List.dropWhile_sublist _).subset (dropRight_subset isBlank _ hc)

theorem splitTop_subset {piece : List Char} (h : piece ∈ splitTop sep cs) : piece ⊆ cs :=
  fun _ hc => mem_of_mem_topPieces h hc

theorem cutTop?_subset {before behind : List Char} (h : cutTop? sep cs = some (before, behind)) :
    before ⊆ cs ∧ behind ⊆ cs := by
  unfold cutTop? at h
  split at h
  · cases h
  · next first other others hpieces =>
    cases h
    have hfirst : before ∈ splitTop sep cs := by
      rw [splitTop, hpieces]
      exact List.mem_cons_self
    exact ⟨splitTop_subset hfirst, (List.drop_sublist _ _).subset⟩

theorem FilterCall.ofClause_subset {s : String} (h : s ∈ (ofClause cs).texts) : s.toList ⊆ cs := by
  unfold texts ofClause at h
  dsimp only at h
  split at h
  · obtain rfl := List.mem_singleton.1 h
    rw [String.toList_ofList]
    exact trim_subset cs
  · next name args hcut =>
    obtain ⟨hname, hargs⟩ := cutTop?_subset hcut
    rcases List.mem_cons.1 h with rfl | h
    · rw [String.toList_ofList]
      exact fun _ hc => trim_subset cs (hname (trim_subset _ hc))
    · obtain ⟨arg, harg, rfl⟩ := List.mem_map.1 h
      obtain ⟨piece, hpiece, rfl⟩ := List.mem_map.1 (List.mem_filter.1 harg).1
      rw [String.toList_ofList]
      exact fun _ hc => trim_subset cs (hargs (splitTop_subset hpiece (trim_subset _ hc)))

theorem headAndFilters_subset :
    (headAndFilters cs).1.toList ⊆ cs ∧
      ∀ call ∈ (headAndFilters cs).2, ∀ s ∈ call.texts, s.toList ⊆ cs := by
  unfold headAndFilters
  dsimp only
  constructor
  · rw [String.toList_ofList]
    exact fun _ hc => mem_of_mem_topPieces (List.mem_cons_self) (trim_subset _ hc)
  · intro call hcall s hs
    obtain ⟨clause, hclause, rfl⟩ := List.mem_map.1 hcall
    exact fun _ hc => mem_of_mem_topPieces (List.mem_cons_of_mem _ hclause)
      (FilterCall.ofClause_subset hs hc)

end

/-! ## Tokens -/

/-- The head and the filters of a token. -/
def Token.parts : Token → String × List FilterCall
  | .raw text _ => (text, [])
  | .object expression calls .. => (expression, calls)
  | .tag t => (t.head, t.filters)

/-- The name of a tag has no blank, and what a token is made of stands in its source. -/
structure Token.IsMade (token : Token) : Prop where
  name : ∀ tag, token = .tag tag → ∀ c ∈ tag.name.toList, isBlank c = false
  head : token.parts.1.toList ⊆ token.source.toList
  filters : ∀ call ∈ token.parts.2, ∀ s ∈ call.texts, s.toList ⊆ token.source.toList

theorem mem_source_of_mem {content opener closer : List Char} {c : Char} (hc : c ∈ content) :
    c ∈ (String.ofList (opener ++ content ++ closer)).toList := by
  rw [String.toList_ofList]
  exact List.mem_append_left _ (List.mem_append_right _ hc)

/-- Every token that a scan can find is made of its source. -/
theorem finds_isMade : Scan.Finds Token.IsMade where
  raw text pos := ⟨(fun _ h => by cases h), fun _ h => h, fun _ h => absurd h List.not_mem_nil⟩
  tag content pos := by
    have hcut : cutAt isBlank (trim content) =
        ((trim content).takeWhile (!isBlank ·), (trim content).dropWhile (!isBlank ·)) :=
      List.span_eq_takeWhile_dropWhile _ _
    have hrest : trim (cutAt isBlank (trim content)).2 ⊆ content := by
      rw [hcut]
      exact fun _ hc => trim_subset _ ((List.dropWhile_sublist _).subset (trim_subset _ hc))
    refine ⟨fun tag htag => ?_, fun _ hc => ?_, fun call hcall s hs _ hc => ?_⟩
    · cases htag
      show ∀ c ∈ (String.ofList (cutAt isBlank (trim content)).1).toList, isBlank c = false
      rw [String.toList_ofList, hcut]
      exact fun c hc => by simpa using List.all_eq_true.1 List.all_takeWhile c hc
    · exact mem_source_of_mem (hrest (headAndFilters_subset.1 hc))
    · exact mem_source_of_mem (hrest (headAndFilters_subset.2 call hcall s hs hc))
  object content pos := by
    refine ⟨(fun _ h => by cases h), fun _ hc => ?_, fun call hcall s hs _ hc => ?_⟩
    · exact mem_source_of_mem (trim_subset _ (headAndFilters_subset.1 hc))
    · exact mem_source_of_mem (trim_subset _ (headAndFilters_subset.2 call hcall s hs hc))

/-- All tokens of a text are made of their sources. -/
theorem tokenize_isMade {text root : String} {files : Files} {limit : Nat} {tokens : List Token}
    (h : tokenize text root files limit = .ok tokens) : ∀ token ∈ tokens, token.IsMade :=
  tokenize_forall finds_isMade h

/-! ## Expressions -/

theorem newline_notMem_lineBehind {cs line : List Char} (h : lineBehind? cs = some line) :
    '\n' ∉ line := by
  obtain ⟨hline, heq⟩ := Option.ite_none_left_eq_some.1 h
  obtain rfl := Option.some.inj heq
  rw [Bool.or_eq_true, not_or] at hline
  simpa only [List.contains_iff_mem] using hline.2

/-- A value that is assigned stands on one line. -/
theorem newline_notMem_assignmentFrom {before cs : List Char} {head : AssignmentHead}
    (h : assignmentFrom before cs = some head) : '\n' ∉ head.value.toList := by
  induction cs generalizing before with
  | nil => cases h
  | cons c cs ih =>
    rw [assignmentFrom] at h
    split at h
    · cases h
    · split at h
      · next op value htail =>
        cases h
        rw [String.toList_ofList]
        unfold assignmentTail? at htail
        split at htail
        · cases htail
        · obtain ⟨value, hline, heq⟩ := Option.map_eq_some_iff.1 htail
          cases heq
          exact newline_notMem_lineBehind hline
      · exact ih h

/-- What a loop runs over stands on one line. -/
theorem newline_notMem_loopFrom {before cs : List Char} {head : LoopHead}
    (h : loopFrom before cs = some head) : '\n' ∉ head.iterable.toList := by
  have behind {cs iterable : List Char} (h : iterableBehind? cs = some iterable) :
      '\n' ∉ iterable := by
    unfold iterableBehind? at h
    split at h
    · split at h
      · exact newline_notMem_lineBehind h
      · cases h
    · cases h
  induction cs generalizing before with
  | nil => cases h
  | cons c cs ih =>
    rw [loopFrom] at h
    split at h
    · next iterable hiterable =>
      cases h
      rw [String.toList_ofList]
      split at hiterable
      · cases hiterable
      · exact fun hmem => behind hiterable (trim_subset _ hmem)
    · split at h
      · cases h
      · exact ih h

/-- Both bounds of a range stand on one line. -/
theorem newline_notMem_rangeBounds {text first last : String}
    (h : rangeBounds? text = some (first, last)) : '\n' ∉ first.toList ∧ '\n' ∉ last.toList := by
  have span (cs : List Char) : '\n' ∉ (boundSpan cs).1 ∧ '\n' ∉ (boundSpan cs).2.1 := by
    have run (cs : List Char) : '\n' ∉ (cs.span isBoundPart).1 := by
      rw [List.span_eq_takeWhile_dropWhile]
      intro hmem
      exact absurd (List.all_eq_true.1 List.all_takeWhile _ hmem) (by decide)
    unfold boundSpan
    split
    next sign rest heq =>
      refine ⟨show '\n' ∉ sign from ?_, run rest⟩
      split at heq
      · obtain ⟨rfl, _⟩ := Prod.mk.inj heq
        decide
      · obtain ⟨rfl, _⟩ := Prod.mk.inj heq
        exact List.not_mem_nil
  have second {cs bound : List Char} (h : secondBound? cs = some bound) : '\n' ∉ bound := by
    unfold secondBound? at h
    split at h
    · dsimp only at h
      split at h
      · cases h
      · cases h
        obtain ⟨hsign, hrun⟩ := span _
        exact fun hmem => (List.mem_append.1 hmem).elim hsign hrun
    · cases h
  have bounds {sign run rest : List Char} (hsign : '\n' ∉ sign) (hrun : '\n' ∉ run) {size : Nat}
      (h : boundsFrom sign run rest size = some (first, last)) :
      '\n' ∉ first.toList ∧ '\n' ∉ last.toList := by
    induction size with
    | zero => cases h
    | succ size ih =>
      rw [boundsFrom] at h
      split at h
      · next bound hsecond =>
        cases h
        rw [String.toList_ofList, String.toList_ofList]
        refine ⟨fun hmem => ?_, second hsecond⟩
        exact (List.mem_append.1 hmem).elim hsign fun hmem => hrun (List.mem_of_mem_take hmem)
      · exact ih h
  unfold rangeBounds? at h
  dsimp only at h
  obtain ⟨hsign, hrun⟩ := span _
  exact bounds hsign hrun h

/-- A part of a head stands in it. -/
theorem partsOf_subset {sep : Char} {head part : String} (h : part ∈ Handler.partsOf sep head) :
    part.toList ⊆ head.toList := by
  obtain ⟨cs, hcs, rfl⟩ := List.mem_map.1 h
  obtain ⟨piece, hpiece, rfl⟩ := List.mem_map.1 (List.mem_filter.1 hcs).1
  rw [String.toList_ofList]
  exact fun _ hc => splitTop_subset hpiece (trim_subset _ hc)

/-- The expressions of a token stand on one line when its head does. -/
theorem Token.newline_notMem_operand {token : Token} (h : '\n' ∉ token.parts.1.toList)
    {base : String} (hbase : base ∈ token.operands) : '\n' ∉ base.toList := by
  cases token with
  | raw => exact absurd hbase List.not_mem_nil
  | object => exact List.mem_singleton.1 hbase ▸ h
  | tag t =>
    rw [operands] at hbase
    split at hbase
    · obtain ⟨head, hhead, rfl⟩ := Option.map_eq_some_iff.1 (Option.mem_toList.1 hbase)
      exact newline_notMem_assignmentFrom hhead
    split at hbase
    · exact List.mem_singleton.1 hbase ▸ h
    split at hbase
    · exact fun hmem => h (partsOf_subset hbase hmem)
    split at hbase
    · split at hbase
      · exact absurd hbase List.not_mem_nil
      · next head hhead =>
        unfold Handler.loopOperands at hbase
        split at hbase
        · next first last hrange =>
          split at hrange
          · obtain ⟨hfirst, hlast⟩ := newline_notMem_rangeBounds hrange
            rcases List.mem_cons.1 hbase with rfl | hbase
            · exact hfirst
            · exact List.mem_singleton.1 hbase ▸ hlast
          · cases hrange
        · exact List.mem_singleton.1 hbase ▸ newline_notMem_loopFrom hhead
    split at hbase
    · exact fun hmem => h (partsOf_subset hbase hmem)
    · exact absurd hbase List.not_mem_nil

/-- The filters that a token uses are its own. -/
theorem Token.uses_subset (token : Token) : token.uses ⊆ token.parts.2 := by
  intro call hcall
  cases token with
  | raw => exact hcall
  | object => exact hcall
  | tag t =>
    rw [uses] at hcall
    split at hcall
    · exact (List.mem_filter.1 hcall).1
    · exact absurd hcall List.not_mem_nil

/-- A pipeline stands on one line when the token does that it comes from. -/
theorem Token.Writes.newline_notMem {token : Token} {p : Pipeline} (h : token.Writes p)
    (hmade : token.IsMade) (hline : '\n' ∉ token.source.toList) :
    ∀ s ∈ p.texts, '\n' ∉ s.toList := by
  refine List.forall_mem_cons.2 ⟨?_, fun s hs hmem => ?_⟩
  · obtain ⟨base, hbase, heq⟩ := h.base
    rw [heq, trimmed, String.toList_ofList]
    have hhead : '\n' ∉ token.parts.1.toList := fun hmem => hline (hmade.head hmem)
    exact fun hmem => token.newline_notMem_operand hhead hbase (trim_subset _ hmem)
  · obtain ⟨call, hcall, hs⟩ := List.mem_flatMap.1 hs
    exact hline (hmade.filters call (token.uses_subset (h.filters call hcall)) s hs hmem)

end Stencil
