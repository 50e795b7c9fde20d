import Stencil.Proofs.Text.Lines

/-!
# What excerpts show

A line of a text is seen with what stands in front of it and behind it. Its number is one more than
the line feeds in front of it, and it starts behind as many bytes as stand there. What an excerpt
computes in three ways agrees with that: the table of line starts gives the number of the line and the
column in bytes, the cut at the line feeds gives the lines to show, and characters are counted for the
column.

* `TextLine`: a line and its surroundings.
* `exists_covers`: every offset belongs to a line, also behind the end and inside a character.
* `TextLine.locate_eq`: the table finds that line.
* `TextLine.linesOf_number`: the cut gives it by its number.
* `excerpt_exact`: so what an excerpt shows.
-/

namespace Stencil

open Text

/-! ## Bytes -/

namespace Text

/-- The byte of a line feed. -/
def feedByte : UInt8 := 10

/-- The bytes of a text in UTF-8. -/
def bytesOf (text : String) : List UInt8 := text.toByteArray.data.toList

/-- The bytes of some characters in UTF-8. -/
def encoded (cs : List Char) : List UInt8 := cs.flatMap String.utf8EncodeChar

theorem bytesOf_eq (text : String) : bytesOf text = encoded text.toList := by
  have h := @String.toByteArray_ofList text.toList
  rw [String.ofList_toList] at h
  rw [bytesOf, h, List.utf8Encode, List.toList_data_toByteArray, encoded]

theorem encoded_append (cs ds : List Char) : encoded (cs ++ ds) = encoded cs ++ encoded ds :=
  List.flatMap_append

theorem length_encoded (cs : List Char) : (encoded cs).length = byteLength cs := by
  induction cs with
  | nil => rfl
  | cons c cs ih =>
    rw [encoded, List.flatMap_cons, List.length_append, String.length_utf8EncodeChar, byteLength]
    exact congrArg _ ih

theorem ofNat_ne_feedByte {n : Nat} (hlow : 128 ≤ n) (hhigh : n < 256) :
    feedByte ≠ UInt8.ofNat n := by
  intro h
  have hn := congrArg UInt8.toNat h
  rw [UInt8.toNat_ofNat', Nat.mod_eq_of_lt hhigh] at hn
  rw [← hn] at hlow
  exact absurd hlow (by decide)

/-- No character but the line feed has its byte: the bytes of longer characters are all greater. -/
theorem feedByte_notMem {c : Char} (hc : c ≠ '\n') : feedByte ∉ String.utf8EncodeChar c := by
  rw [String.utf8EncodeChar]
  split
  · next hsmall =>
    intro hmem
    have hbyte := congrArg UInt8.toNat (List.mem_singleton.1 hmem)
    rw [UInt8.toNat_ofNat', Nat.mod_eq_of_lt (by omega)] at hbyte
    exact hc (Char.ext (UInt32.toNat_inj.1 hbyte.symm))
  · have hbyte {n : Nat} (hlow : 128 ≤ n) (hhigh : n < 256) := ofNat_ne_feedByte hlow hhigh
    split
    · simp only [List.mem_cons, List.not_mem_nil, or_false, not_or]
      exact ⟨hbyte (by omega) (by omega), hbyte (by omega) (by omega)⟩
    · split <;> simp only [List.mem_cons, List.not_mem_nil, or_false, not_or]
      · exact ⟨hbyte (by omega) (by omega), hbyte (by omega) (by omega), hbyte (by omega) (by omega)⟩
      · exact ⟨hbyte (by omega) (by omega), hbyte (by omega) (by omega), hbyte (by omega) (by omega),
          hbyte (by omega) (by omega)⟩

theorem count_encoded (cs : List Char) : (encoded cs).count feedByte = cs.count '\n' := by
  induction cs with
  | nil => rfl
  | cons c cs ih =>
    rw [encoded, List.flatMap_cons, List.count_append, List.count_cons, Nat.add_comm]
    refine congrArg₂ (· + ·) ih ?_
    by_cases hc : c = '\n'
    · subst hc
      rfl
    · rw [List.count_eq_zero.2 (feedByte_notMem hc)]
      simp [hc]

theorem feedByte_notMem_encoded {cs : List Char} (h : '\n' ∉ cs) : feedByte ∉ encoded cs := by
  rw [← List.count_eq_zero, count_encoded, List.count_eq_zero]
  exact h

end Text

/-! ## Lines -/

/-- A line of a text, with what stands in front of it and behind it. -/
structure TextLine (text : List Char) where
  front : List Char
  line : List Char
  back : List Char
  spells : front ++ line ++ back = text
  /-- It starts with the text, or behind a line feed. -/
  starts : front = [] ∨ front.getLast? = some '\n'
  /-- It ends with the text, or in front of a line feed. -/
  ends : back = [] ∨ back.head? = some '\n'
  whole : '\n' ∉ line

namespace TextLine

variable {text : List Char}

/-- The number of the line, counted from one. -/
def number (l : TextLine text) : Nat := l.front.count '\n' + 1

/-- Where the line starts, in bytes. -/
def start (l : TextLine text) : Nat := byteLength l.front

theorem eq_append (l : TextLine text) : text = l.front ++ (l.line ++ l.back) := by
  rw [← List.append_assoc, l.spells]

/-- An offset belongs to a line when it stands in it or at its end, and to the last one also when it
stands behind the text. -/
def Covers (l : TextLine text) (offset : Nat) : Prop :=
  l.start ≤ offset ∧ (offset ≤ l.start + byteLength l.line ∨ l.back = [])

/-- An empty line in front of what is empty or starts with a line feed. -/
def blank (h : text = [] ∨ text.head? = some '\n') : TextLine text :=
  ⟨[], [], text, rfl, .inl rfl, h, List.not_mem_nil⟩

/-- The line in the text with one more character in front, which belongs to the line when it is the
first one and the character does not end a line itself. -/
def cons (c : Char) (l : TextLine text) : TextLine (c :: text) :=
  if h : c = '\n' ∨ l.front ≠ [] then
    { front := c :: l.front
      line := l.line
      back := l.back
      spells := by simp [← l.spells]
      starts := by
        right
        rcases l.starts with hfront | hlast
        · simpa [hfront] using h
        · simp [List.getLast?_cons, hlast]
      ends := l.ends
      whole := l.whole }
  else
    { front := []
      line := c :: l.line
      back := l.back
      spells := by
        have hfront : l.front = [] := by simpa using (not_or.1 h).2
        simp [← l.spells, hfront]
      starts := .inl rfl
      ends := l.ends
      whole := by
        rw [List.mem_cons, not_or]
        exact ⟨fun hc => h (.inl hc.symm), l.whole⟩ }

theorem number_cons (c : Char) (l : TextLine text) :
    (l.cons c).number = l.number + if c = '\n' then 1 else 0 := by
  unfold cons number
  split
  · by_cases hc : c = '\n' <;> simp [hc]
  · next h =>
    obtain ⟨hc, hfront⟩ := not_or.1 h
    simp [hc, not_not.1 hfront]

theorem covers_cons {c : Char} {l : TextLine text} {offset : Nat}
    (hc : c = '\n' → 0 < offset) (h : l.Covers (offset - c.utf8Size)) :
    (l.cons c).Covers offset := by
  obtain ⟨hstart, hend⟩ := h
  have hpos : 0 < c.utf8Size := c.utf8Size_pos
  unfold cons Covers start at *
  split
  · next hlater =>
    have hle : c.utf8Size ≤ offset := by
      rcases hlater with rfl | hfront
      · exact hc rfl
      · -- a line with something in front of it does not start at zero
        have hfar : 0 < byteLength l.front := by
          cases hf : l.front with
          | nil => exact absurd hf hfront
          | cons d ds =>
            rw [byteLength]
            exact Nat.add_pos_left d.utf8Size_pos _
        omega
    refine ⟨?_, hend.imp_left fun hend => ?_⟩ <;> simp only [byteLength] <;> omega
  · next hfirst =>
    have hfront : l.front = [] := not_not.1 (not_or.1 hfirst).2
    rw [hfront] at hend
    refine ⟨Nat.zero_le _, hend.imp_left fun hend => ?_⟩
    simp only [byteLength] at hend ⊢
    omega

end TextLine

/-- Every offset belongs to a line. -/
theorem exists_covers (text : List Char) (offset : Nat) : ∃ l : TextLine text, l.Covers offset := by
  induction text generalizing offset with
  | nil => exact ⟨.blank (.inl rfl), Nat.zero_le _, .inr rfl⟩
  | cons c text ih =>
    by_cases hfirst : c = '\n' ∧ offset = 0
    · obtain ⟨rfl, rfl⟩ := hfirst
      exact ⟨.blank (.inr rfl), Nat.le_refl _, .inl (Nat.zero_le _)⟩
    · obtain ⟨l, hl⟩ := ih (offset - c.utf8Size)
      refine ⟨l.cons c, TextLine.covers_cons (fun hc => ?_) hl⟩
      exact Nat.pos_of_ne_zero fun hzero => hfirst ⟨hc, hzero⟩

/-- There is a line of every number up to one more than there are line feeds. -/
theorem exists_number (text : List Char) {number : Nat} (hpos : 1 ≤ number)
    (hle : number ≤ text.count '\n' + 1) : ∃ l : TextLine text, l.number = number := by
  induction text generalizing number with
  | nil => exact ⟨.blank (.inl rfl), Nat.le_antisymm hpos hle⟩
  | cons c text ih =>
    by_cases hc : c = '\n'
    · subst hc
      by_cases hone : number = 1
      · exact ⟨.blank (.inr rfl), hone.symm⟩
      · rw [List.count_cons_self] at hle
        obtain ⟨l, hl⟩ := ih (show 1 ≤ number - 1 by omega) (by omega)
        refine ⟨l.cons '\n', ?_⟩
        rw [TextLine.number_cons, hl, if_pos rfl]
        omega
    · obtain ⟨l, hl⟩ := ih hpos (by rwa [List.count_cons_of_ne hc] at hle)
      refine ⟨l.cons c, ?_⟩
      rw [TextLine.number_cons, hl, if_neg hc, Nat.add_zero]

/-- So there are lines of all these numbers. -/
theorem exists_numbers (text : List Char) (numbers : List Nat)
    (h : ∀ number ∈ numbers, 1 ≤ number ∧ number ≤ text.count '\n' + 1) :
    ∃ shown : List (TextLine text), shown.map TextLine.number = numbers := by
  induction numbers with
  | nil => exact ⟨[], rfl⟩
  | cons number numbers ih =>
    rw [List.forall_mem_cons] at h
    obtain ⟨l, hl⟩ := exists_number text h.1.1 h.1.2
    obtain ⟨shown, hshown⟩ := ih h.2
    exact ⟨l :: shown, by rw [List.map_cons, hl, hshown]⟩

/-! ## The table of line starts -/

theorem lineStartsFrom_append (base : Nat) (cs ds : List Char) :
    lineStartsFrom base (cs ++ ds) =
      lineStartsFrom base cs ++ lineStartsFrom (base + byteLength cs) ds := by
  induction cs generalizing base with
  | nil => rfl
  | cons c cs ih =>
    simp only [List.cons_append, lineStartsFrom, byteLength, ih, ← Nat.add_assoc]
    split <;> rfl

theorem length_lineStartsFrom (base : Nat) (cs : List Char) :
    (lineStartsFrom base cs).length = cs.count '\n' := by
  induction cs generalizing base with
  | nil => rfl
  | cons c cs ih =>
    rw [lineStartsFrom, List.count_cons]
    split <;> simp [ih]

/-- Lines start in the text, behind its first character. -/
theorem mem_lineStartsFrom {base start : Nat} {cs : List Char} (h : start ∈ lineStartsFrom base cs) :
    base < start ∧ start ≤ base + byteLength cs := by
  induction cs generalizing base with
  | nil => cases h
  | cons c cs ih =>
    have hpos : 0 < c.utf8Size := c.utf8Size_pos
    have hlater (hmem : start ∈ lineStartsFrom (base + c.utf8Size) cs) :
        base < start ∧ start ≤ base + byteLength (c :: cs) := by
      have := ih hmem
      simp only [byteLength]
      omega
    rw [lineStartsFrom] at h
    split at h
    · rcases List.mem_cons.1 h with rfl | h
      · simp only [byteLength]
        omega
      · exact hlater h
    · exact hlater h

/-- A place is in the line that starts last before it: the starts rise, so they fall apart into those
up to the place and those behind it. -/
theorem LineTable.locate_of_split {t : LineTable} {offset : Nat} {passed ahead : List Nat}
    (hlater : t.later = passed ++ ahead) (hpassed : ∀ start ∈ passed, start ≤ offset)
    (hahead : ∀ start ∈ ahead, offset < start) :
    t.locate offset = (passed.length + 1, offset - passed.getLastD 0 + 1) := by
  have htake : t.later.takeWhile (· ≤ offset) = passed := by
    rw [hlater, List.takeWhile_append_of_pos fun start hstart => by simpa using hpassed start hstart]
    cases ahead with
    | nil => simp
    | cons start ahead =>
      have hstops : ¬ start ≤ offset := Nat.not_le.2 (hahead start List.mem_cons_self)
      simp [hstops]
  rw [LineTable.locate, htake]

namespace TextLine

variable {text : List Char} {offset : Nat}

theorem lineStartsFrom_line (l : TextLine text) (base : Nat) : lineStartsFrom base l.line = [] := by
  rw [← List.length_eq_zero_iff, length_lineStartsFrom, List.count_eq_zero]
  exact l.whole

/-- The last of the starts in front of a line is its own. -/
theorem getLastD_lineStartsFrom (l : TextLine text) :
    (lineStartsFrom 0 l.front).getLastD 0 = l.start := by
  rcases l.starts with hfront | hlast
  · rw [start, hfront]
    rfl
  · obtain ⟨before, hbefore⟩ := List.getLast?_eq_some_iff.1 hlast
    have hown : lineStartsFrom (0 + byteLength before) ['\n'] = [0 + byteLength before + 1] := rfl
    rw [start, hbefore, lineStartsFrom_append, hown, List.getLastD_eq_getLast?, List.getLast?_concat,
      byteLength_append, Nat.zero_add]
    rfl

/-- The table finds the line to which an offset belongs. -/
theorem locate_eq {text : String} (l : TextLine text.toList) (h : l.Covers offset) :
    (LineTable.ofText text).locate offset = (l.number, offset - l.start + 1) := by
  obtain ⟨hstart, hend⟩ := h
  have hstarts : (LineTable.ofText text).later =
      lineStartsFrom 0 l.front ++ lineStartsFrom (l.start + byteLength l.line) l.back := by
    show lineStartsFrom 0 text.toList = _
    conv => lhs; rw [l.eq_append]
    rw [lineStartsFrom_append, lineStartsFrom_append, l.lineStartsFrom_line, Nat.zero_add]
    rfl
  rw [LineTable.locate_of_split hstarts, length_lineStartsFrom, l.getLastD_lineStartsFrom]
  · rfl
  · intro start hmem
    have hfront := (mem_lineStartsFrom hmem).2
    rw [Nat.zero_add] at hfront
    exact Nat.le_trans hfront hstart
  · intro start hmem
    rcases hend with hend | hback
    · exact Nat.lt_of_le_of_lt hend (mem_lineStartsFrom hmem).1
    · rw [hback] at hmem
      cases hmem

end TextLine

/-! ## Line and column in bytes -/

/-- The line of an offset starts here: at the beginning or behind a line feed, and no line feed comes
between. -/
structure StartsLine (bytes : List UInt8) (offset start : Nat) : Prop where
  le : start ≤ offset
  behind : start = 0 ∨ bytes[start - 1]? = some feedByte
  within : ∀ i, start ≤ i → i < offset → bytes[i]? ≠ some feedByte

namespace TextLine

variable {text : List Char} {offset : Nat}

/-- The bytes up to an offset are those in front of its line and some that are no line feeds. -/
theorem exists_take (l : TextLine text) (h : l.Covers offset) :
    ∃ within, (encoded text).take offset = encoded l.front ++ within ∧ feedByte ∉ within := by
  obtain ⟨hstart, hend⟩ := h
  rw [start, ← length_encoded] at hstart hend
  have hline := feedByte_notMem_encoded l.whole
  refine ⟨(encoded (l.line ++ l.back)).take (offset - (encoded l.front).length), ?_, fun hmem => ?_⟩
  · conv => lhs; rw [l.eq_append]
    rw [encoded_append, List.take_append, List.take_of_length_le hstart]
  · rcases hend with hend | hback
    · rw [encoded_append, List.take_append_of_le_length] at hmem
      · exact hline (List.mem_of_mem_take hmem)
      · rw [length_encoded l.line]
        omega
    · rw [hback, List.append_nil] at hmem
      exact hline (List.mem_of_mem_take hmem)

theorem count_take (l : TextLine text) (h : l.Covers offset) :
    ((encoded text).take offset).count feedByte + 1 = l.number := by
  obtain ⟨within, htake, hwithin⟩ := l.exists_take h
  rw [htake, List.count_append, count_encoded, List.count_eq_zero.2 hwithin, Nat.add_zero, number]

theorem startsLine (l : TextLine text) (h : l.Covers offset) :
    StartsLine (encoded text) offset l.start := by
  refine ⟨h.1, ?_, fun i hlow hhigh hfeed => ?_⟩
  · rcases l.starts with hfront | hlast
    · left
      rw [start, hfront]
      rfl
    · right
      obtain ⟨before, hbefore⟩ := List.getLast?_eq_some_iff.1 hlast
      have hown : encoded ['\n'] = [feedByte] := rfl
      have hindex : l.start - 1 = (encoded before).length := by
        rw [start, hbefore, byteLength_append, length_encoded]
        rfl
      rw [hindex, ← l.spells, hbefore, encoded_append, encoded_append, encoded_append, hown]
      simp
  · obtain ⟨within, htake, hwithin⟩ := l.exists_take h
    refine hwithin (List.mem_iff_getElem?.2 ⟨i - (encoded l.front).length, ?_⟩)
    rw [start, ← length_encoded] at hlow
    rw [← List.getElem?_append_right hlow, ← htake, List.getElem?_take_of_lt hhigh, hfeed]

end TextLine

/-! ## The lines that are shown -/

theorem linesOf_cons (c : Char) (cs : List Char) :
    linesOf (c :: cs) =
      if c = '\n' then [] :: linesOf cs else (linesOf cs).modifyHead (c :: ·) := by
  unfold linesOf splitAt
  rw [pieces]
  by_cases hc : c = '\n' <;> simp [hc]

/-- The first line goes up to the first line feed. -/
theorem head?_linesOf {line back : List Char} (hwhole : '\n' ∉ line)
    (hends : back = [] ∨ back.head? = some '\n') :
    (linesOf (line ++ back)).head? = some line := by
  induction line with
  | nil =>
    cases back with
    | nil => rfl
    | cons c back =>
      obtain rfl : c = '\n' := by simpa using hends
      rw [List.nil_append, linesOf_cons, if_pos rfl]
      rfl
  | cons c line ih =>
    rw [List.mem_cons, not_or] at hwhole
    rw [List.cons_append, linesOf_cons, if_neg (Ne.symm hwhole.1), List.head?_modifyHead, ih hwhole.2]
    rfl

/-- What is in front of a line counts for its index alone. -/
theorem getElem?_linesOf_append {front rest : List Char}
    (h : front = [] ∨ front.getLast? = some '\n') :
    (linesOf (front ++ rest))[front.count '\n']? = (linesOf rest).head? := by
  induction front with
  | nil => exact List.head?_eq_getElem?.symm
  | cons c front ih =>
    have hlast : (c :: front).getLast? = some '\n' := h.resolve_left (List.cons_ne_nil _ _)
    rw [List.cons_append, linesOf_cons]
    by_cases hfront : front = []
    · subst hfront
      obtain rfl : c = '\n' := by simpa using hlast
      rw [if_pos rfl]
      simpa using List.head?_eq_getElem?.symm
    · have hinner : front.getLast? = some '\n' := by
        rwa [List.getLast?_cons_of_ne_nil hfront] at hlast
      by_cases hc : c = '\n'
      · subst hc
        rw [if_pos rfl, List.count_cons_self, List.getElem?_cons_succ]
        exact ih (.inr hinner)
      · -- the character goes to the first line, and there is a line feed behind it
        obtain ⟨n, hn⟩ : ∃ n, front.count '\n' = n + 1 :=
          Nat.exists_eq_succ_of_ne_zero (by
            rw [Ne, List.count_eq_zero]
            exact not_not.2 (List.mem_of_getLast? hinner))
        rw [if_neg hc, List.count_cons_of_ne hc, ← ih (.inr hinner), hn]
        cases linesOf (front ++ rest) <;> rfl

namespace TextLine

variable {text : List Char}

theorem linesOf_number (l : TextLine text) : (linesOf text)[l.number - 1]? = some l.line := by
  rw [congrArg linesOf l.eq_append, number, Nat.add_sub_cancel, getElem?_linesOf_append l.starts,
    head?_linesOf l.whole l.ends]

theorem number_le (l : TextLine text) : l.number ≤ text.count '\n' + 1 := by
  conv => rhs; rw [l.eq_append]
  rw [number, List.count_append]
  omega

/-- A row shows a line: the number of the line, marked or not, and behind it the line without the
carriage returns at its end. -/
def ShownAs (l : TextLine text) (marked : Bool) (row : String) : Prop :=
  ∃ content returns, l.line = content ++ List.replicate returns '\r' ∧
    content.getLast? ≠ some '\r' ∧
    row = padLeft5 ((if marked then ">> " else "") ++ toString l.number) ++ "| " ++
      .ofList content ++ "\n"

end TextLine

/-- What is dropped behind a text is all of one kind, and the rest does not end so. -/
theorem exists_dropRight (c : Char) (cs : List Char) : ∃ count,
    cs = dropRight (· == c) cs ++ List.replicate count c ∧
      (dropRight (· == c) cs).getLast? ≠ some c := by
  induction cs with
  | nil => exact ⟨0, rfl, by simp [dropRight]⟩
  | cons d cs ih =>
    obtain ⟨count, hcs, hlast⟩ := ih
    rw [dropRight]
    split
    · next hnone =>
      rw [hnone, List.nil_append] at hcs
      split
      · next hd =>
        obtain rfl : d = c := by simpa using hd
        exact ⟨count + 1, by rw [List.nil_append, List.replicate_succ, ← hcs], by simp⟩
      · next hd => exact ⟨count, by rw [← hcs]; rfl, by simpa using hd⟩
    · next e es hsome =>
      rw [hsome] at hcs hlast
      exact ⟨count, congrArg (d :: ·) hcs, by rwa [List.getLast?_cons_cons]⟩

theorem TextLine.shownAs {text : List Char} (l : TextLine text) (marked : Bool) :
    l.ShownAs marked (excerptLine marked l.number l.line) := by
  obtain ⟨count, hline, hlast⟩ := exists_dropRight '\r' l.line
  exact ⟨_, count, hline, hlast, rfl⟩

/-- The lines of given numbers are those that an excerpt takes. -/
theorem mapIdx_linesOf {text : List Char} {first last : Nat} {shown : List (TextLine text)}
    (hshown : shown.map TextLine.number = List.range' first (last + 1 - first)) (hfirst : 1 ≤ first)
    (mark : Nat) :
    (((linesOf text).take last).drop (first - 1)).mapIdx
        (fun i content => excerptLine (first + i == mark) (first + i) content) =
      shown.map fun l => excerptLine (l.number == mark) l.number l.line := by
  refine List.ext_getElem? fun i => ?_
  have hnumber := congrArg (·[i]?) hshown
  simp only [List.getElem?_map] at hnumber
  rw [List.getElem?_mapIdx, List.getElem?_drop, List.getElem?_take, List.getElem?_map]
  cases hl : shown[i]? with
  | none =>
    have hout : ¬ first - 1 + i < last := by
      rw [hl, Option.map_none, eq_comm, List.getElem?_eq_none_iff, List.length_range'] at hnumber
      omega
    rw [if_neg hout]
    rfl
  | some l =>
    rw [hl, Option.map_some, eq_comm, List.getElem?_eq_some_iff] at hnumber
    obtain ⟨hin, hnumber⟩ := hnumber
    rw [List.length_range'] at hin
    rw [List.getElem_range', Nat.one_mul] at hnumber
    have hline := l.linesOf_number
    rw [← hnumber, Nat.sub_add_comm hfirst] at hline
    rw [if_pos (by omega), hline, hnumber]
    rfl

/-! ## The column in characters -/

/-- Of two texts that another one starts with, the shorter one starts the longer one. -/
theorem prefix_of_byteLength_le {front before text : List Char} (hfront : front <+: text)
    (hbefore : before <+: text) (hle : byteLength front ≤ byteLength before) : front <+: before := by
  rcases List.prefix_or_prefix_of_prefix hfront hbefore with h | ⟨more, rfl⟩
  · exact h
  · cases more with
    | nil => simp
    | cons c more =>
      have hpos : 0 < c.utf8Size := c.utf8Size_pos
      rw [byteLength_append, byteLength] at hle
      omega

/-- Behind whole characters the column counts the characters of the line. -/
theorem TextLine.columnOf_eq {text before after : List Char} (l : TextLine text) {offset : Nat}
    (h : l.Covers offset) (htext : before ++ after = text) (hbefore : byteLength before = offset) :
    ∃ within, before = l.front ++ within ∧
      columnOf l.line (offset - l.start + 1) = within.length + 1 := by
  obtain ⟨hstart, hend⟩ := h
  have hspells := l.spells
  rw [List.append_assoc] at hspells
  obtain ⟨within, rfl⟩ : l.front <+: before :=
    prefix_of_byteLength_le ⟨_, hspells⟩ ⟨after, htext⟩ (by rw [hbefore]; exact hstart)
  have hrest : within ++ after = l.line ++ l.back := by
    rw [← List.append_cancel_left_eq l.front, ← List.append_assoc, htext, hspells]
  have hoffset : offset - l.start = byteLength within := by
    rw [← hbefore, byteLength_append, start, Nat.add_sub_cancel_left]
  have hinside : within <+: l.line := by
    rcases hend with hend | hback
    · exact prefix_of_byteLength_le ⟨after, hrest⟩ ⟨l.back, rfl⟩ (by omega)
    · rw [hback, List.append_nil] at hrest
      exact ⟨after, hrest⟩
  obtain ⟨more, hmore⟩ := hinside
  refine ⟨within, rfl, ?_⟩
  rw [columnOf, Nat.add_sub_cancel, hoffset, ← hmore, charsIn?_append]

/-! ## Excerpts -/

/-- The excerpt around a place shows the lines around the one that covers it. -/
theorem excerpt_eq {files : Files} {pos : Pos} {text : String} (h : files.get? pos.file = some text)
    {radius : Nat} {l : TextLine text.toList} {shown : List (TextLine text.toList)}
    (hcovers : l.Covers (min pos.offset text.utf8ByteSize))
    (hshown : shown.map TextLine.number =
      List.range' (max 1 (l.number - radius))
        (min (text.toList.count '\n' + 1) (l.number + radius) + 1 - max 1 (l.number - radius))) :
    excerpt files radius pos =
      String.join (shown.map fun m => excerptLine (m.number == l.number) m.number m.line) ++
        s!" File| {pos.file}:{l.number}:{columnOf l.line
          (min pos.offset text.utf8ByteSize - l.start + 1)}" := by
  have hlines : (linesOf text.toList).length = text.toList.count '\n' + 1 := length_linesOf text
  have hown : (linesOf text.toList).getD (l.number - 1) [] = l.line := by
    rw [List.getD_eq_getElem?_getD, l.linesOf_number]
    rfl
  rw [← hlines, Nat.max_comm, Nat.min_comm] at hshown
  have hrows := mapIdx_linesOf hshown (Nat.le_max_right _ _) l.number
  unfold excerpt
  rw [h]
  dsimp only
  rw [l.locate_eq hcovers]
  dsimp only
  rw [hown, hrows]

/-- Line and column are exact for every offset, in bytes. An excerpt shows the lines around the one
that the place belongs to, as far as there are any, marks that one alone, and ends with its number
and, behind whole characters, the column in characters. -/
theorem excerpt_exact {files : Files} {pos : Pos} {text : String}
    (h : files.get? pos.file = some text) (radius : Nat) :
    (∀ offset, ∃ start, StartsLine (bytesOf text) offset start ∧
      (LineTable.ofText text).locate offset =
        (1 + ((bytesOf text).take offset).count feedByte, 1 + (offset - start))) ∧
    ∃ (marked : TextLine text.toList) (shown : List (TextLine text.toList))
      (row : TextLine text.toList → String) (column : Nat),
      marked.Covers (min pos.offset text.utf8ByteSize) ∧
      shown.map TextLine.number =
        List.range' (max 1 (marked.number - radius))
          (min (text.toList.count '\n' + 1) (marked.number + radius) + 1 -
            max 1 (marked.number - radius)) ∧
      (shown.map TextLine.number).count marked.number = 1 ∧
      (∀ l ∈ shown, l.ShownAs (l.number == marked.number) (row l)) ∧
      excerpt files radius pos =
        String.join (shown.map row) ++ s!" File| {pos.file}:{marked.number}:{column}" ∧
      ∀ before after, before ++ after = text.toList →
        byteLength before = min pos.offset text.utf8ByteSize →
        ∃ within, before = marked.front ++ within ∧ column = within.length + 1 := by
  refine ⟨fun offset => ?_, ?_⟩
  · obtain ⟨l, hl⟩ := exists_covers text.toList offset
    refine ⟨l.start, bytesOf_eq text ▸ l.startsLine hl, ?_⟩
    rw [l.locate_eq hl, bytesOf_eq, ← l.count_take hl, Nat.add_comm 1, Nat.add_comm 1]
  · obtain ⟨marked, hmarked⟩ := exists_covers text.toList (min pos.offset text.utf8ByteSize)
    have hle := marked.number_le
    have hpos : 1 ≤ marked.number := Nat.succ_pos _
    obtain ⟨shown, hshown⟩ := exists_numbers text.toList
      (List.range' (max 1 (marked.number - radius))
        (min (text.toList.count '\n' + 1) (marked.number + radius) + 1 -
          max 1 (marked.number - radius)))
      (fun number hnumber => by
        rw [List.mem_range'_1] at hnumber
        omega)
    refine ⟨marked, shown, fun l => excerptLine (l.number == marked.number) l.number l.line, _,
      hmarked, hshown, ?_, fun l _ => l.shownAs _, excerpt_eq h hmarked hshown,
      fun before after htext hbefore => marked.columnOf_eq hmarked htext hbefore⟩
    have hshows := List.mem_range'_1.2 (show max 1 (marked.number - radius) ≤ marked.number ∧
      marked.number < max 1 (marked.number - radius) +
        (min (text.toList.count '\n' + 1) (marked.number + radius) + 1 -
          max 1 (marked.number - radius)) by omega)
    rw [hshown, List.Nodup.count List.nodup_range', if_pos hshows]

/-- A carriage return, a character of two bytes, and a line feed at the end. -/
def unevenText : String := "one\r\né\n"

theorem excerpt_exact_insideCharacter :
    Table.get? (.ofList [("page", unevenText)] : Files) "page" = some unevenText ∧
    (∃ start, StartsLine (bytesOf unevenText) 6 start ∧
      (LineTable.ofText unevenText).locate 6 =
        (1 + ((bytesOf unevenText).take 6).count feedByte, 1 + (6 - start))) ∧
    (∃ marked : TextLine unevenText.toList, marked.Covers 6 ∧ ∃ rows, ∃ column : Nat,
      excerpt (.ofList [("page", unevenText)]) 1 ⟨"page", 6⟩ =
        String.join rows ++ s!" File| page:{marked.number}:{column}") ∧
    excerpt (.ofList [("page", unevenText)]) 1 ⟨"page", 6⟩ =
      "    1| one\n >> 2| é\n    3| \n File| page:2:2" := by
  have hfile : Table.get? (.ofList [("page", unevenText)] : Files) "page" = some unevenText := by
    decide
  have hname : Table.get? (.ofList [("page", unevenText)] : Files) (Pos.mk "page" 6).file =
      some unevenText := hfile
  obtain ⟨hlocate, marked, shown, row, column, hcovers, -, -, -, hexcerpt, -⟩ :=
    excerpt_exact hname 1
  exact ⟨hfile, hlocate 6, ⟨marked, hcovers, _, column, hexcerpt⟩, by decide⟩

end Stencil
