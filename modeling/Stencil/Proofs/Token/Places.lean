import Stencil.Proofs.Inclusion.Expand
import Stencil.Proofs.Token.Marker

/-!
# Places of tokens

The place of a token is a place of the file that the token comes from: that file reads there as the
token does, without the indentation that the directives around the file put behind line feeds.

* `Standing`: what a frame knows. The frame stands in a file at a place from which the file goes on
  as the flattened text does, and `Around` says the same of the frames around it.
* `Standing.split`: what the flattened text goes on with.
* `Sound.step`: the scan takes the next character, delimiter or marker and keeps standing right.
* `source_readsAt`: so every token of a flattened template is read where its place says.
-/

namespace Stencil

open Text

/-! ## Places in files -/

/-- The file that a position names goes on with a text from its offset on. -/
def Files.ReadsAt (files : Files) (pos : Pos) (cs : List Char) : Prop :=
  ∃ text before, files.get? pos.file = some text ∧ text.toList = before ++ cs ∧
    byteLength before = pos.offset

theorem Files.ReadsAt.forward {files : Files} {pos : Pos} {cs ds : List Char}
    (h : files.ReadsAt pos (cs ++ ds)) :
    files.ReadsAt ⟨pos.file, pos.offset + byteLength cs⟩ ds := by
  obtain ⟨text, before, htext, hcs, hoffset⟩ := h
  exact ⟨text, before ++ cs, htext, by simp [hcs], by simp [hoffset]⟩

/-- The files that a template includes, each with the indentation of all the directives that lead to
it. A file may be reached in several ways. -/
inductive Reached (folders : Folders) (files : Files) (source : Path) :
    Path → List Char → Prop where
  | source : Reached folders files source source []
  | directive {path : Path} {indent : List Char} {text : String} {d : Directive}
      (reached : Reached folders files source path indent)
      (here : files.get? (folders.fileName path) = some text)
      (cut : .directive d ∈ segments text.toList) :
      Reached folders files source (folders.target path d).path (indent ++ d.indent)

/-- A text is read at a position, if the indentation of the file is taken out of it. -/
def Placed (folders : Folders) (files : Files) (source : Path) (pos : Pos) (text : List Char) :
    Prop :=
  ∃ path indent piece after, Reached folders files source path indent ∧
    pos.file = folders.fileName path ∧ text = indentedBy indent piece ∧
    files.ReadsAt pos (piece ++ after)

variable {folders : Folders} {files : Files} {source : Path}

theorem Reached.isMargin {path : Path} {indent : List Char}
    (h : Reached folders files source path indent) : IsMargin indent := by
  induction h with
  | source => exact fun _ hc => absurd hc List.not_mem_nil
  | directive _ _ cut ih => exact ih.append (isMargin_indent cut)

/-! ## Moving over indented text -/

namespace Frame

theorem pastAll_append (f : Frame) (cs ds : List Char) :
    f.pastAll (cs ++ ds) = (f.pastAll cs).pastAll ds := by
  simp [pastAll]

/-- Indentation is skipped. -/
theorem pastAll_skip {f : Frame} {cs : List Char} (h : f.skip = byteLength cs) :
    f.pastAll cs = { f with skip := 0 } := by
  induction cs generalizing f with
  | nil =>
    cases f
    simp_all [pastAll, byteLength]
  | cons c cs ih =>
    have hle : c.utf8Size ≤ f.skip := by
      rw [h, byteLength]
      omega
    have hpast : f.past c = { f with skip := f.skip - c.utf8Size } := by simp [past, hle]
    have hskip : (f.past c).skip = byteLength cs := by
      rw [hpast]
      simp [h, byteLength]
    have : f.pastAll (c :: cs) = (f.past c).pastAll cs := rfl
    rw [this, ih hskip, hpast]

/-- Only the characters of the file itself count. -/
theorem pastAll_indentedBy {f : Frame} {indent : List Char} (hskip : f.skip = 0)
    (hindent : f.indent = byteLength indent) (cs : List Char) :
    f.pastAll (indentedBy indent cs) = { f with offset := f.offset + byteLength cs } := by
  induction cs generalizing f with
  | nil => rfl
  | cons c cs ih =>
    have hone : f.pastAll (indentedBy indent [c]) = { f with offset := f.offset + c.utf8Size } := by
      have hpos : ¬ c.utf8Size ≤ 0 := by
        have := c.utf8Size_pos
        omega
      by_cases hc : c = '\n'
      · subst hc
        have hpast : f.past '\n' =
            { f with offset := f.offset + '\n'.utf8Size, skip := f.indent } := by
          simp [past, hskip, hpos]
        have : f.pastAll ('\n' :: indent) = (f.past '\n').pastAll indent := rfl
        rw [indentedBy_lineFeed, this, hpast, pastAll_skip (by simp [hindent])]
        cases f
        simp_all
      · have : f.pastAll [c] = f.past c := rfl
        rw [indentedBy_singleton hc, this]
        cases f
        simp_all [past]
    rw [indentedBy_cons, pastAll_append, hone, ih (by simp [hskip]) (by simp [hindent])]
    simp [byteLength, Nat.add_assoc]

end Frame

/-! ## Standing in a file -/

/-- What a frame knows when it has come to some place in its file, `read` being the characters of
the flattened text that it has not moved over yet, and `flat` what follows them. -/
structure StandsAt (folders : Folders) (files : Files) (source : Path) (f : Frame)
    (read flat : List Char) (path : Path) (margin piece ahead : List Char) : Prop where
  reached : Reached folders files source path margin
  file : f.file = folders.fileName path
  skip : f.skip = 0
  indent : f.indent = byteLength margin
  read : read = indentedBy margin piece
  readsAt : files.ReadsAt f.pos (piece ++ ahead)
  layout : Layout folders files margin path ahead flat

/-- A frame has come to some place in its file. -/
def Standing (folders : Folders) (files : Files) (source : Path) (f : Frame)
    (read flat : List Char) : Prop :=
  ∃ path margin piece ahead, StandsAt folders files source f read flat path margin piece ahead

/-- How the flattened text may go on where a frame stands. -/
inductive Continues (folders : Folders) (files : Files) (source : Path) (f : Frame)
    (read : List Char) : List Char → Prop where
  | ended : Continues folders files source f read []
  | char {c : Char} {flat : List Char} (hc : c ≠ '\n') (safe : Safe c flat)
      (next : Standing folders files source f (read ++ [c]) flat) :
      Continues folders files source f read (c :: flat)
  | line {margin flat : List Char} (inert : Inert margin)
      (next : Standing folders files source f (read ++ '\n' :: margin) flat) :
      Continues folders files source f read ('\n' :: margin ++ flat)
  | file {resume indent : Nat} {file : String} {body flat : List Char}
      (named : IsFileName file) (home : IsFileName f.file) (closed : body.getLast? ≠ some '{')
      (inner : Standing folders files source
        { file, resume, indent := (f.pastAll read).indent + indent } [] body)
      (next : Standing folders files source
        { f.pastAll read with offset := (f.pastAll read).offset + resume } [] flat) :
      Continues folders files source f read
        (beginMarker resume indent file ++ body ++ endMarker f.file ++ flat)

namespace StandsAt

variable {f : Frame} {read flat : List Char} {path : Path} {margin piece ahead : List Char}

theorem pastAll (h : StandsAt folders files source f read flat path margin piece ahead) :
    f.pastAll read = { f with offset := f.offset + byteLength piece } := by
  rw [h.read]
  exact Frame.pastAll_indentedBy h.skip h.indent piece

/-- The frame has come further in its file by `cs`. -/
theorem forward {c : Char} (h : StandsAt folders files source f read
      (indentedBy margin [c] ++ flat) path margin piece (c :: ahead))
    (rest : Layout folders files margin path ahead flat) :
    StandsAt folders files source f (read ++ indentedBy margin [c]) flat path margin
      (piece ++ [c]) ahead where
  reached := h.reached
  file := h.file
  skip := h.skip
  indent := h.indent
  read := by rw [indentedBy_append, h.read]
  readsAt := by simpa using h.readsAt
  layout := rest

/-- What was read is a text of the file, and the frame can move over it. -/
theorem flush (h : StandsAt folders files source f read flat path margin piece ahead) :
    StandsAt folders files source (f.pastAll read) [] flat path margin [] ahead where
  reached := h.reached
  file := by
    rw [h.pastAll]
    exact h.file
  skip := by
    rw [h.pastAll]
    exact h.skip
  indent := by
    rw [h.pastAll]
    exact h.indent
  read := rfl
  readsAt := by
    rw [h.pastAll]
    exact h.readsAt.forward
  layout := h.layout

end StandsAt

namespace Standing

variable {f : Frame} {read flat : List Char}

theorem placed (h : Standing folders files source f read flat) :
    Placed folders files source f.pos read := by
  obtain ⟨path, margin, piece, ahead, h⟩ := h
  exact ⟨path, margin, piece, ahead, h.reached, h.file, h.read, h.readsAt⟩

theorem flush (h : Standing folders files source f read flat) :
    Standing folders files source (f.pastAll read) [] flat := by
  obtain ⟨path, margin, piece, ahead, h⟩ := h
  exact ⟨path, margin, [], ahead, h.flush⟩

theorem pastAll_resume (h : Standing folders files source f read flat) :
    (f.pastAll read).resume = f.resume := by
  obtain ⟨path, margin, piece, ahead, h⟩ := h
  rw [h.pastAll]

theorem pastAll_file (h : Standing folders files source f read flat) :
    (f.pastAll read).file = f.file := by
  obtain ⟨path, margin, piece, ahead, h⟩ := h
  rw [h.pastAll]

/-- The flattened text goes on with a character of the file, a line of it, or another file. -/
theorem split (hnamed : files.WellNamed) (h : Standing folders files source f read flat) :
    Continues folders files source f read flat := by
  obtain ⟨path, margin, piece, ahead, h⟩ := h
  have hlayout := h.layout
  cases hlayout with
  | done => exact .ended
  | @char _ _ c ahead flat safe rest =>
    have hnext : Standing folders files source f (read ++ indentedBy margin [c]) flat :=
      ⟨path, margin, piece ++ [c], ahead, h.forward rest⟩
    by_cases hc : c = '\n'
    · subst hc
      rw [indentedBy_lineFeed] at hnext ⊢
      refine .line (fun d hd => ?_) hnext
      rcases h.reached.isMargin d hd with rfl | rfl <;> rfl
    · rw [indentedBy_singleton hc] at hnext ⊢
      exact .char hc safe hnext
  | @inclusion _ _ d text target ahead body flat here cut there inner closed rest =>
    rw [← h.file] at here ⊢
    have hflush := h.flush
    refine .file (hnamed _ _ there) (hnamed _ _ here) closed ?_ ?_
    · refine ⟨_, margin ++ d.indent, [], target.toList, ?_, rfl, rfl, ?_, rfl, ?_, inner⟩
      · rw [h.file] at here
        exact h.reached.directive here cut
      · rw [byteLength_append, hflush.indent]
      · exact ⟨target, [], there, rfl, rfl⟩
    · have hreads : files.ReadsAt (f.pastAll read).pos (d.source ++ ahead) := hflush.readsAt
      exact ⟨path, margin, [], ahead, h.reached, hflush.file, hflush.skip, hflush.indent, rfl,
        hreads.forward, rest⟩

theorem char (hnamed : files.WellNamed) {c : Char} (hc : c ≠ '\n')
    (hmarker : ¬ ['{', '#'] <+: c :: flat) (h : Standing folders files source f read (c :: flat)) :
    Safe c flat ∧ Standing folders files source f (read ++ [c]) flat := by
  generalize hwhole : c :: flat = whole at h hmarker
  cases h.split hnamed with
  | ended => cases hwhole
  | char _ safe next =>
    cases hwhole
    exact ⟨safe, next⟩
  | line =>
    cases hwhole
    exact absurd rfl hc
  | file =>
    refine absurd ?_ hmarker
    simp [beginMarker_eq]

/-- Both characters of a delimiter belong to the file. -/
theorem pair (hnamed : files.WellNamed) {c d : Char} {l : Lexeme} (hl : delimiter? c d = some l)
    (hmarker : l ≠ .open .marker) (h : Standing folders files source f read (c :: d :: flat)) :
    Standing folders files source f (read ++ [c, d]) flat := by
  have hc : c ≠ '\n' := by
    rintro rfl
    cases hl
  have hd : d ≠ '\n' := by
    rintro rfl
    unfold delimiter? at hl
    split at hl <;> simp_all
  have hbrace : d = '{' → c = '{' := by
    rintro rfl
    unfold delimiter? at hl
    split at hl <;> simp_all
  have hfirst : ¬ ['{', '#'] <+: c :: d :: flat := by
    intro hp
    obtain ⟨rfl, htail⟩ := List.cons_prefix_cons.1 hp
    obtain ⟨rfl, _⟩ := List.cons_prefix_cons.1 htail
    exact hmarker (Option.some.inj hl).symm
  obtain ⟨safe, h⟩ := h.char hnamed hc hfirst
  have hsecond : ¬ ['{', '#'] <+: d :: flat := by
    intro hp
    have hd := (List.cons_prefix_cons.1 hp).1
    exact (safe (hbrace hd.symm)).2 hp
  simpa using (h.char hnamed hd hsecond).2

end Standing

/-- What follows the text of a file whose directive has so many bytes: the texts of the files around
it go on behind their directives, and each of them stands where its frame says. -/
inductive Around (folders : Folders) (files : Files) (source : Path) :
    Nat → List Frame → List Char → List Char → Prop where
  | root {resume : Nat} {flat : List Char} : Around folders files source resume [] flat []
  | inside {resume : Nat} {parent : Frame} {outer : List Frame} {flat next rest : List Char}
      (closed : flat.getLast? ≠ some '{') (home : IsFileName parent.file)
      (standing : Standing folders files source
        { parent with offset := parent.offset + resume } [] next)
      (around : Around folders files source parent.resume outer next rest) :
      Around folders files source resume (parent :: outer) flat
        (endMarker parent.file ++ next ++ rest)

/-- Part of the text of the file may have been read. -/
theorem Around.mono {resume : Nat} {outer : List Frame} {front flat rest : List Char}
    (h : Around folders files source resume outer (front ++ flat) rest) :
    Around folders files source resume outer flat rest := by
  cases h with
  | root => exact .root
  | inside closed home standing around =>
    refine .inside (fun hlast => closed ?_) home standing around
    rw [List.getLast?_append, hlast]
    rfl

/-! ## The scan -/

namespace Scan

/-- What was read since the last token, as it stands in the flattened text. -/
def Mode.pending : Mode → List Char
  | .raw read => read.reverse
  | .enclosed e _ read => e.opener ++ read.reverse

/-- The mode after some more characters. -/
def Mode.add (cs : List Char) : Mode → Mode
  | .raw read => .raw (cs.reverse ++ read)
  | .enclosed e start read => .enclosed e start (cs.reverse ++ read)

theorem Mode.pending_add (cs : List Char) (mode : Mode) :
    (mode.add cs).pending = mode.pending ++ cs := by
  cases mode <;> simp [add, pending]

variable {limit : Nat} {s s' : Scan}

theorem step_char (c : Char) :
    step files limit s (.char c) = .ok { s with mode := s.mode.add [c] } := by
  unfold step
  cases s.mode <;> simp [Mode.add, Lexeme.text]

theorem foldlM_char {c : Char} {rest : List Lexeme} :
    (.char c :: rest).foldlM (step files limit) s =
      rest.foldlM (step files limit) { s with mode := s.mode.add [c] } := by
  rw [List.foldlM_cons, step_char]
  rfl

theorem foldlM_chars {cs : List Char} {rest : List Lexeme} :
    (cs.map Lexeme.char ++ rest).foldlM (step files limit) s =
      rest.foldlM (step files limit) { s with mode := s.mode.add cs } := by
  induction cs generalizing s with
  | nil => cases h : s.mode <;> simp [Mode.add, h.symm]
  | cons c cs ih =>
    rw [List.map_cons, List.cons_append, foldlM_char, ih]
    cases s.mode <;> simp [Mode.add]

theorem foldlM_cons_ok {lexeme : Lexeme} {rest : List Lexeme}
    (h : (lexeme :: rest).foldlM (step files limit) s = .ok s') :
    ∃ s₁, step files limit s lexeme = .ok s₁ ∧ rest.foldlM (step files limit) s₁ = .ok s' := by
  rw [List.foldlM_cons] at h
  cases hstep : step files limit s lexeme with
  | error e =>
    rw [hstep] at h
    cases h
  | ok s₁ =>
    rw [hstep] at h
    exact ⟨s₁, rfl, h⟩

theorem push_ok {token : Token} (h : push files limit s token = .ok s') :
    s' = { s with found := token :: s.found, count := s.count + 1 } := by
  unfold push at h
  split at h
  · exact (Except.ok.inj h).symm
  · cases h

/-- A delimiter that opens an enclosure ends the raw text before it. -/
theorem step_open {e : Enclosure} (h : step files limit s (.open e) = .ok s') :
    ∃ read s₁, s.mode = .raw read ∧ flush files limit s read = .ok s₁ ∧
      s' = { s₁ with mode := .enclosed e s₁.frame.pos [] } := by
  unfold step at h
  cases hmode : s.mode with
  | enclosed e start read =>
    rw [hmode] at h
    cases h
  | raw read =>
    rw [hmode] at h
    cases hflush : flush files limit s read with
    | error error =>
      simp only [hflush] at h
      cases h
    | ok s₁ =>
      simp only [hflush] at h
      exact ⟨read, s₁, rfl, hflush, (Except.ok.inj h).symm⟩

/-- An object or a tag becomes a token where it starts. -/
theorem close_ok {e : Enclosure} {start : Pos} {content : List Char} (he : e ≠ .marker)
    (h : close files limit s e start content = .ok s') :
    ∃ token : Token, token.pos = start ∧
      token.source.toList = e.opener ++ content ++ e.closer ∧
      s' = { s with
        mode := .raw []
        frame := s.frame.pastAll (e.opener ++ content ++ e.closer)
        found := token :: s.found
        count := s.count + 1 } := by
  cases e with
  | marker => exact absurd rfl he
  | tag =>
    have hsource (cs : List Char) : (Tag.ofContent content cs start).source = .ofList cs := rfl
    exact ⟨_, rfl, by rw [Token.source, hsource, String.toList_ofList], push_ok h⟩
  | object =>
    have hsource (cs : List Char) :
        (Token.objectOfContent content cs start).source = .ofList cs := rfl
    exact ⟨_, rfl, by rw [hsource, String.toList_ofList], push_ok h⟩

/-- A marker is only read in raw text, and enters or leaves a file. -/
theorem marker_ok {content more : List Char} (hcontent : Undelimited content)
    (h : (lexemes (['{', '#'] ++ content ++ ['#', '}'] ++ more)).foldlM (step files limit) s =
      .ok s') :
    ∃ read s₁ s₂, s.mode = .raw read ∧ flush files limit s read = .ok s₁ ∧
      mark files { s₁ with mode := .raw [] } s₁.frame.pos content = .ok s₂ ∧
      (lexemes more).foldlM (step files limit) s₂ = .ok s' := by
  rw [lexemes_marker hcontent, List.cons_append] at h
  obtain ⟨s₀, hopen, h⟩ := foldlM_cons_ok h
  obtain ⟨read, s₁, hmode, hflush, rfl⟩ := step_open hopen
  rw [foldlM_chars] at h
  obtain ⟨s₂, hclose, h⟩ := foldlM_cons_ok h
  refine ⟨read, s₁, s₂, hmode, hflush, ?_, h⟩
  simpa [step, Mode.add, close] using hclose

/-- The tokens are those that were found, and the raw text at the end. No file is open. -/
theorem finish_ok {tokens : List Token} (h : s.finish files limit = .ok tokens) :
    ∃ read s₁, s.mode = .raw read ∧ flush files limit s read = .ok s₁ ∧ s₁.outer = [] ∧
      tokens = s₁.found.reverse := by
  unfold finish at h
  cases hmode : s.mode with
  | enclosed e start read =>
    rw [hmode] at h
    cases h
  | raw read =>
    simp only [hmode] at h
    cases hflush : flush files limit s read with
    | error e =>
      rw [hflush] at h
      cases h
    | ok s₁ =>
      rw [hflush] at h
      replace h : (if s₁.outer.isEmpty then .ok s₁.found.reverse else
        .error (.atPos (.malformedToken (.openFile s₁.frame.file)) files s₁.frame.pos)) =
          (Except.ok tokens : Except Error _) := h
      split at h
      · next hempty =>
        exact ⟨read, s₁, rfl, hflush, List.isEmpty_iff.1 hempty, (Except.ok.inj h).symm⟩
      · cases h

end Scan

/-- The scan stands right at some place of a flattened text: in the file being read the text goes on
with `flat`, and behind it with `rest`. -/
structure Sound (folders : Folders) (files : Files) (source : Path) (s : Scan)
    (flat rest : List Char) : Prop where
  standing : Standing folders files source s.frame s.mode.pending flat
  around : Around folders files source s.frame.resume s.outer flat rest
  start : ∀ e pos read, s.mode = .enclosed e pos read → e ≠ .marker ∧ pos = s.frame.pos
  found : ∀ token ∈ s.found, Placed folders files source token.pos token.source.toList

namespace Sound

variable {limit : Nat} {s s' : Scan} {flat rest : List Char}

/-- Raw text becomes a token where it starts. -/
theorem flush {read : List Char} (h : Sound folders files source s flat rest)
    (hmode : s.mode = .raw read) (hflush : Scan.flush files limit s read = .ok s') :
    s'.frame = s.frame.pastAll read.reverse ∧ s'.outer = s.outer ∧
      ∀ token ∈ s'.found, Placed folders files source token.pos token.source.toList := by
  unfold Scan.flush at hflush
  split at hflush
  · next hread =>
    obtain rfl := Except.ok.inj hflush
    rw [List.isEmpty_iff] at hread
    subst hread
    exact ⟨rfl, rfl, h.found⟩
  · obtain rfl := Scan.push_ok hflush
    refine ⟨rfl, rfl, fun token ht => ?_⟩
    rcases List.mem_cons.1 ht with rfl | ht
    · have := h.standing.placed
      rw [hmode] at this
      simpa [Token.pos, Token.source, Scan.Mode.pending] using this
    · exact h.found token ht

/-- More characters of the file are read. -/
theorem add {cs : List Char} (h : Sound folders files source s (cs ++ flat) rest)
    (next : Standing folders files source s.frame (s.mode.pending ++ cs) flat) :
    Sound folders files source { s with mode := s.mode.add cs } flat rest where
  standing := by
    rw [Scan.Mode.pending_add]
    exact next
  around := h.around.mono
  start e pos read hmode := by
    cases hold : s.mode with
    | raw read' => simp [hold, Scan.Mode.add] at hmode
    | enclosed e' pos' read' =>
      simp only [hold, Scan.Mode.add, Scan.Mode.enclosed.injEq] at hmode
      obtain ⟨rfl, rfl, _⟩ := hmode
      exact h.start _ _ _ hold
  found := h.found

/-- An object or a tag ends. -/
theorem close {e : Enclosure} {start : Pos} {content : List Char} (he : e ≠ .marker)
    (hstart : start = s.frame.pos)
    (hstand : Standing folders files source s.frame (e.opener ++ content ++ e.closer) flat)
    (haround : Around folders files source s.frame.resume s.outer flat rest)
    (hfound : ∀ token ∈ s.found, Placed folders files source token.pos token.source.toList)
    (hclose : Scan.close files limit s e start content = .ok s') :
    Sound folders files source s' flat rest := by
  obtain ⟨token, hpos, hsource, rfl⟩ := Scan.close_ok he hclose
  refine ⟨hstand.flush, ?_, ?_, ?_⟩
  · rw [← hstand.pastAll_resume] at haround
    exact haround
  · intro e' pos read hmode
    cases hmode
  · intro token' ht
    rcases List.mem_cons.1 ht with rfl | ht
    · rw [hpos, hsource, hstart]
      exact hstand.placed
    · exact hfound token' ht

/-- A delimiter is read that opens no marker. -/
theorem delimiter (hnamed : files.WellNamed) {c d : Char} {l : Lexeme}
    (hl : delimiter? c d = some l) (hmarker : l ≠ .open .marker)
    (h : Sound folders files source s (c :: d :: flat) rest)
    (hstep : Scan.step files limit s l = .ok s') : Sound folders files source s' flat rest := by
  have hnext : Standing folders files source s.frame (s.mode.pending ++ [c, d]) flat :=
    h.standing.pair hnamed hl hmarker
  have haround : Around folders files source s.frame.resume s.outer ([c, d] ++ flat) rest :=
    h.around
  have hadd : Sound folders files source { s with mode := s.mode.add [c, d] } flat rest :=
    h.add hnext
  have htext : l.text = [c, d] := text_delimiter hl
  cases l with
  | char c => simp [Lexeme.text] at htext
  | «open» e =>
    obtain ⟨read, s₁, hmode, hflush, rfl⟩ := Scan.step_open hstep
    obtain ⟨hframe, houter, hfound⟩ := h.flush hmode hflush
    have hstand : Standing folders files source s.frame read.reverse (c :: d :: flat) := by
      have := h.standing
      rw [hmode] at this
      exact this
    refine ⟨?_, ?_, ?_, hfound⟩
    · have hpair := hstand.flush.pair hnamed hl hmarker
      rw [← hframe] at hpair
      simpa [Scan.Mode.pending, ← htext, Lexeme.text] using hpair
    · rw [← hstand.pastAll_resume, ← hframe, ← houter] at haround
      exact haround.mono
    · intro e' pos read' hmode'
      cases hmode'
      exact ⟨fun he => hmarker (by rw [he]), rfl⟩
  | close e =>
    cases hmode : s.mode with
    | raw read =>
      simp only [Scan.step, hmode, htext] at hstep
      cases hstep
      simpa [hmode, Scan.Mode.add] using hadd
    | enclosed e' start read =>
      obtain ⟨he, hstart⟩ := h.start _ _ _ hmode
      simp only [Scan.step, hmode, htext] at hstep
      split at hstep
      · next hclose =>
        cases hclose
        have hstand : Standing folders files source s.frame
            (e.opener ++ read.reverse ++ e.closer) flat := by
          rw [hmode] at hnext
          rw [show e.closer = [c, d] from htext]
          exact hnext
        exact close he hstart hstand haround.mono h.found hstep
      · cases hstep
        simpa [hmode, Scan.Mode.add] using hadd

/-- Behind a marker, raw text begins. -/
theorem raw {frame : Frame} {outer : List Frame} {found : List Token} {count : Nat}
    (standing : Standing folders files source frame [] flat)
    (around : Around folders files source frame.resume outer flat rest)
    (found_placed : ∀ token ∈ found, Placed folders files source token.pos token.source.toList) :
    Sound folders files source ⟨frame, outer, .raw [], found, count⟩ flat rest where
  standing := standing
  around := around
  start e pos read hmode := by cases hmode
  found := found_placed

/-- The scan of a text gets to a place behind it, where it stands right again, and goes on. -/
def Advances (folders : Folders) (files : Files) (source : Path) (limit : Nat) (s' : Scan)
    (text : List Char) : Prop :=
  ∃ s₁ flat rest, (flat ++ rest).length < text.length ∧ Sound folders files source s₁ flat rest ∧
    (lexemes (flat ++ rest)).foldlM (Scan.step files limit) s₁ = .ok s'

/-- The text of a file is over: the file around it goes on behind the directive. -/
theorem leave {parent : Frame} {outer : List Frame} {next : List Char}
    (home : IsFileName parent.file)
    (standing : Standing folders files source
      { parent with offset := parent.offset + s.frame.resume } [] next)
    (around : Around folders files source parent.resume outer next rest)
    (houter : s.outer = parent :: outer)
    (h : Sound folders files source s [] (endMarker parent.file ++ next ++ rest))
    (hrun : (lexemes (endMarker parent.file ++ next ++ rest)).foldlM (Scan.step files limit) s =
      .ok s') :
    Advances folders files source limit s' (endMarker parent.file ++ next ++ rest) := by
  rw [endMarker_eq, List.append_assoc] at hrun
  obtain ⟨read, s₁, s₂, hmode, hflush, hmark, hrun⟩ :=
    Scan.marker_ok (inert_endContent home).undelimited hrun
  obtain ⟨hframe, houter', hfound⟩ := h.flush hmode hflush
  have hresume : s₁.frame.resume = s.frame.resume := by
    rw [hframe]
    have hstand := h.standing
    rw [hmode] at hstand
    exact hstand.pastAll_resume
  simp only [Scan.mark, ofContent_end home, houter', houter] at hmark
  obtain rfl := Except.ok.inj hmark
  rw [← hresume] at standing
  refine ⟨_, next, rest, ?_, .raw standing around hfound, hrun⟩
  have := List.length_pos_iff.2 (endMarker_ne_nil parent.file)
  simp only [List.length_append]
  omega

/-- A file begins in the place of a directive. -/
theorem enter {resume indent : Nat} {file : String} {body : List Char} (named : IsFileName file)
    (home : IsFileName s.frame.file) (closed : body.getLast? ≠ some '{')
    (inner : Standing folders files source
      { file, resume, indent := (s.frame.pastAll s.mode.pending).indent + indent } [] body)
    (next : Standing folders files source { s.frame.pastAll s.mode.pending with
      offset := (s.frame.pastAll s.mode.pending).offset + resume } [] flat)
    (h : Sound folders files source s
      (beginMarker resume indent file ++ body ++ endMarker s.frame.file ++ flat) rest)
    (hrun : (lexemes (beginMarker resume indent file ++ body ++ endMarker s.frame.file ++ flat ++
      rest)).foldlM (Scan.step files limit) s = .ok s') :
    Advances folders files source limit s'
      (beginMarker resume indent file ++ body ++ endMarker s.frame.file ++ flat ++ rest) := by
  have hfile : (s.frame.pastAll s.mode.pending).file = s.frame.file := h.standing.pastAll_file
  have hresume : (s.frame.pastAll s.mode.pending).resume = s.frame.resume :=
    h.standing.pastAll_resume
  have hlength : (body ++ (endMarker s.frame.file ++ flat ++ rest)).length <
      (beginMarker resume indent file ++ body ++ endMarker s.frame.file ++ flat ++
        rest).length := by
    simp only [beginMarker_eq, List.length_append, List.length_cons]
    omega
  have htext : beginMarker resume indent file ++ body ++ endMarker s.frame.file ++ flat ++ rest =
      ['{', '#'] ++ beginContent resume indent file ++ ['#', '}'] ++
        (body ++ (endMarker s.frame.file ++ flat ++ rest)) := by
    simp only [beginMarker_eq, List.append_assoc]
  rw [htext] at hrun
  obtain ⟨read, s₁, s₂, hmode, hflush, hmark, hrun⟩ :=
    Scan.marker_ok (inert_beginContent named resume indent).undelimited hrun
  obtain ⟨hframe, houter, hfound⟩ := h.flush hmode hflush
  have hpending : s.mode.pending = read.reverse := by
    rw [hmode]
    rfl
  rw [hpending, ← hframe] at inner next hfile hresume
  rcases ofContent_begin named resume indent with hcontent | hcontent
  · simp only [Scan.mark, hcontent, houter] at hmark
    obtain rfl := Except.ok.inj hmark
    have haround := h.around.mono
    rw [← hresume] at haround
    rw [← hfile] at home hlength hrun ⊢
    exact ⟨_, body, endMarker s₁.frame.file ++ flat ++ rest, hlength,
      .raw inner (.inside closed home next haround) hfound, hrun⟩
  · simp only [Scan.mark, hcontent] at hmark
    cases hmark

/-- A line feed is read with the indentation behind it. -/
theorem line {margin : List Char} (inert : Inert margin)
    (next : Standing folders files source s.frame (s.mode.pending ++ '\n' :: margin) flat)
    (h : Sound folders files source s ('\n' :: margin ++ flat) rest)
    (hrun : (lexemes ('\n' :: margin ++ flat ++ rest)).foldlM (Scan.step files limit) s = .ok s') :
    Advances folders files source limit s' ('\n' :: margin ++ flat ++ rest) := by
  have hlexemes : lexemes ('\n' :: margin ++ flat ++ rest) =
      ('\n' :: margin).map .char ++ lexemes (flat ++ rest) := by
    rw [List.append_assoc, lexemes_line inert]
  rw [hlexemes, Scan.foldlM_chars] at hrun
  refine ⟨_, flat, rest, ?_, h.add next, hrun⟩
  simp only [List.cons_append, List.length_cons, List.length_append]
  omega

/-- A file ends before no half of a delimiter. -/
theorem other_half {c d : Char} {l : Lexeme} {more : List Char} (hl : delimiter? c d = some l)
    (h : Sound folders files source s (c :: flat) rest) (hmore : flat ++ rest = d :: more) :
    ∃ flat', flat = d :: flat' ∧ more = flat' ++ rest := by
  cases flat with
  | cons d' flat =>
    obtain ⟨rfl, rfl⟩ := List.cons.inj hmore
    exact ⟨flat, rfl, rfl⟩
  | nil =>
    have haround := h.around
    rw [List.nil_append] at hmore
    subst hmore
    generalize houter : s.outer = outer at haround
    generalize htext : d :: more = text at haround
    cases haround with
    | root => cases htext
    | inside closed =>
      rw [endMarker_eq] at htext
      obtain ⟨rfl, _⟩ := List.cons.inj htext
      have hc : c = '{' := by
        unfold delimiter? at hl
        split at hl <;> simp_all
      subst hc
      exact absurd rfl closed

/-- A character of the file is read, alone or with the other half of a delimiter. -/
theorem char (hnamed : files.WellNamed) {c : Char} (safe : Safe c flat)
    (next : Standing folders files source s.frame (s.mode.pending ++ [c]) flat)
    (h : Sound folders files source s (c :: flat) rest)
    (hrun : (lexemes (c :: flat ++ rest)).foldlM (Scan.step files limit) s = .ok s') :
    Advances folders files source limit s' (c :: flat ++ rest) := by
  have halone (hlexemes : lexemes (c :: flat ++ rest) = .char c :: lexemes (flat ++ rest)) :
      Advances folders files source limit s' (c :: flat ++ rest) := by
    rw [hlexemes, Scan.foldlM_char] at hrun
    exact ⟨_, flat, rest, by simp, h.add next, hrun⟩
  cases hmore : flat ++ rest with
  | nil =>
    refine halone ?_
    rw [List.cons_append, hmore]
    rfl
  | cons d more =>
    cases hl : delimiter? c d with
    | none =>
      refine halone ?_
      rw [List.cons_append, hmore, lexemes, hl]
    | some l =>
      obtain ⟨flat, rfl, rfl⟩ := h.other_half hl hmore
      have hmarker : l ≠ .open .marker := by
        rintro rfl
        have htext := text_delimiter hl
        simp only [Lexeme.text, Enclosure.opener, List.cons.injEq, and_true] at htext
        obtain ⟨rfl, rfl⟩ := htext
        exact (safe rfl).1 rfl
      rw [List.cons_append, List.cons_append, lexemes, hl] at hrun
      obtain ⟨s₁, hstep, hrun⟩ := Scan.foldlM_cons_ok hrun
      refine ⟨s₁, flat, rest, ?_, h.delimiter hnamed hl hmarker hstep, hrun⟩
      simp only [List.cons_append, List.length_cons]
      omega

/-- The scan stands right behind what it takes next. -/
theorem step (hnamed : files.WellNamed) (h : Sound folders files source s flat rest)
    (hne : flat ++ rest ≠ [])
    (hrun : (lexemes (flat ++ rest)).foldlM (Scan.step files limit) s = .ok s') :
    Advances folders files source limit s' (flat ++ rest) := by
  cases h.standing.split hnamed with
  | ended =>
    have haround := h.around
    generalize houter : s.outer = outer at haround
    cases haround with
    | root => exact absurd rfl hne
    | inside closed home standing around => exact h.leave home standing around houter hrun
  | char hc safe next => exact h.char hnamed safe next hrun
  | line inert next => exact h.line inert next hrun
  | file named home closed inner next => exact h.enter named home closed inner next hrun

/-- Wherever the scan stands right, it finds the rest of the tokens where they are. -/
theorem run (hnamed : files.WellNamed) (h : Sound folders files source s flat rest)
    (hrun : (lexemes (flat ++ rest)).foldlM (Scan.step files limit) s = .ok s') :
    Sound folders files source s' [] [] := by
  induction hlength : (flat ++ rest).length using Nat.strongRecOn generalizing s flat rest with
  | ind n ih =>
  by_cases hne : flat ++ rest = []
  · obtain ⟨rfl, rfl⟩ := List.append_eq_nil_iff.1 hne
    obtain rfl := Except.ok.inj hrun
    exact h
  · obtain ⟨s₁, flat₁, rest₁, hlt, h₁, hrun₁⟩ := h.step hnamed hne hrun
    exact ih _ (hlength ▸ hlt) h₁ hrun₁ rfl

/-- The raw text at the end is a token, too. -/
theorem finish {tokens : List Token} (h : Sound folders files source s [] [])
    (hfinish : s.finish files limit = .ok tokens) :
    ∀ token ∈ tokens, Placed folders files source token.pos token.source.toList := by
  obtain ⟨read, s₁, hmode, hflush, -, rfl⟩ := Scan.finish_ok hfinish
  obtain ⟨_, _, hfound⟩ := h.flush hmode hflush
  exact fun token ht => hfound token (List.mem_reverse.1 ht)

end Sound

/-! ## The tokens of a flattened template -/

/-- Every token of a flattened template is read where its place says, in one of the files that the
template is made of, once the indentation is taken out that the directives around the file put
behind line feeds. -/
theorem source_readsAt {store : FileStore} {place : Place} {text : String} {before after : Closure}
    {f : Flattened} {limit : Nat} {tokens : List Token}
    (hflat : flatten store place text before = .ok f after) (hnamed : f.files.WellNamed)
    (hplain : f.files.Plain) (htokens : tokenize f.text f.root f.files limit = .ok tokens) :
    ∀ token ∈ tokens, ∃ path indent piece rest,
      Reached place.folders f.files place.source.normalize path indent ∧
      token.pos.file = place.folders.fileName path ∧
      token.source.toList = indentedBy indent piece ∧
      f.files.ReadsAt token.pos (piece ++ rest) := by
  obtain ⟨hroot, htext, hlayout⟩ := flatten_ok hflat hnamed hplain
  have hsound : Sound place.folders f.files place.source.normalize { frame := { file := f.root } }
      f.text.toList [] := by
    refine .raw ?_ .root fun token ht => absurd ht List.not_mem_nil
    exact ⟨_, [], [], text.toList, .source, hroot, rfl, rfl, rfl, ⟨text, [], htext, rfl, rfl⟩,
      hlayout⟩
  unfold tokenize at htokens
  cases hrun : (lexemes f.text.toList).foldlM (Scan.step f.files limit)
      { frame := { file := f.root } } with
  | error e =>
    rw [hrun] at htokens
    cases htokens
  | ok s =>
    rw [hrun] at htokens
    rw [← List.append_nil f.text.toList] at hrun
    exact (hsound.run hnamed hrun).finish htokens

deriving instance DecidableEq for Table
deriving instance DecidableEq for Flattened

/-- A page with an indented part of two lines. -/
def partPage : Flattened where
  text := "<\n  \x7b# beg 17 2 nav #\x7da\n  \x7b\x7b b\n  \x7d\x7d\x7b# end 0 page #\x7d>"
  root := "page"
  files := ⟨[("page", "<\n  \x7b% include nav %\x7d>"), ("nav", "a\n\x7b\x7b b\n\x7d\x7d\n")]⟩
  includes := ⟨[("page", ["nav"]), ("nav", [])]⟩

/-- The object of the part is read in the file of the part, without the indentation of the page. -/
theorem source_readsAt_part :
    ∃ store place text after tokens, flatten store place text {} = .ok partPage after ∧
      tokenize partPage.text partPage.root partPage.files 10 = .ok tokens ∧
      .object "b" [] "\x7b\x7b b\n  \x7d\x7d" ⟨"nav", 2⟩ ∈ tokens ∧
      ∀ token ∈ tokens, ∃ path indent piece rest,
        Reached place.folders partPage.files place.source.normalize path indent ∧
        token.pos.file = place.folders.fileName path ∧
        token.source.toList = indentedBy indent piece ∧
        partPage.files.ReadsAt token.pos (piece ++ rest) := by
  have hnamed : partPage.files.WellNamed := Files.wellNamed_of_entries (by decide +kernel)
  have hplain : partPage.files.Plain := by
    intro name text hfile
    have hentry := Files.mem_entries hfile
    have hcases : text = "<\n  \x7b% include nav %\x7d>" ∨
        text = "a\n\x7b\x7b b\n\x7d\x7d\n" := by simp [partPage] at hentry; tauto
    rcases hcases with rfl | rfl
    · exact .of_cuts (by decide +kernel) (by decide +kernel) (by decide +kernel)
    · exact .of_cuts (by decide +kernel) (by decide +kernel) (by decide +kernel)
  obtain ⟨after, hflat⟩ : ∃ after, flatten ⟨[(⟨"p/nav"⟩, .ok "a\n\x7b\x7b b\n\x7d\x7d\n")]⟩
      ⟨⟨"p/page"⟩, ⟨"p"⟩, ⟨"p"⟩⟩ "<\n  \x7b% include nav %\x7d>" {} = .ok partPage after :=
    Resolving.ok_of_value? (by decide +kernel)
  cases htokens : tokenize partPage.text partPage.root partPage.files 10 with
  | error e =>
    have : (tokenize partPage.text partPage.root partPage.files 10).isOk = true := by decide +kernel
    rw [htokens] at this
    cases this
  | ok tokens =>
    have hmem : (tokenize partPage.text partPage.root partPage.files 10).toOption.any
        (·.contains (.object "b" [] "\x7b\x7b b\n  \x7d\x7d" ⟨"nav", 2⟩)) = true := by
      decide +kernel
    rw [htokens] at hmem
    exact ⟨_, _, _, after, tokens, hflat, rfl, by simpa [Except.toOption] using hmem,
      source_readsAt hflat hnamed hplain htokens⟩

end Stencil
