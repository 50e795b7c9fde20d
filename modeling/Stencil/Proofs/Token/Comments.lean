import Stencil.Proofs.Token.Lossless

/-!
# Places behind comments

The bytes of a comment stand in the file, but the scan does not count them: it takes every comment
for a marker, which stands in no file. So in a file with comments every token has the place that it
would have without the comments before it.

* `Scan.Tracks.step`: how far a scan says that it has come in its file.
* `byteLength_withoutMarkers_lt`: a comment has bytes.
* `tokenize_places`: the place of a token is where it is written as long as no comment comes before
  it.
* `tokenize_places_behind`: behind a comment it is not.
-/

namespace Stencil

open Text

/-- The contents of the markers, from inside of one that has been read so far or from outside. -/
def markerContents : Option (List Char) → List Lexeme → List (List Char)
  | _, [] => []
  | none, .open .marker :: ls => markerContents (some []) ls
  | none, _ :: ls => markerContents none ls
  | some read, .close .marker :: ls => read :: markerContents none ls
  | some read, l :: ls => markerContents (some (read ++ l.text)) ls

/-- The marker begins a file. -/
def Marker.begins : Marker → Bool
  | begin .. => true
  | _ => false

/-- No marker begins a file. -/
def BeginsNoFile (contents : List (List Char)) : Prop :=
  ∀ content ∈ contents, (Marker.ofContent (trim content)).begins = false

instance (contents : List (List Char)) : Decidable (BeginsNoFile contents) :=
  inferInstanceAs (Decidable (∀ content ∈ contents, _))

theorem markerContents_outside {l : Lexeme} (h : l ≠ .open .marker) (ls : List Lexeme) :
    markerContents none (l :: ls) = markerContents none ls := by
  cases l with
  | char c => rfl
  | close e => rfl
  | «open» e =>
    cases e with
    | marker => exact absurd rfl h
    | object => rfl
    | tag => rfl

theorem markerContents_inside {l : Lexeme} (h : l ≠ .close .marker) (read : List Char)
    (ls : List Lexeme) :
    markerContents (some read) (l :: ls) = markerContents (some (read ++ l.text)) ls := by
  cases l with
  | char c => rfl
  | «open» e => cases e <;> rfl
  | close e =>
    cases e with
    | marker => exact absurd rfl h
    | object => rfl
    | tag => rfl

/-! ## Bytes of comments -/

theorem byteLength_withoutMarkers_le (inside : Bool) (ls : List Lexeme) :
    byteLength (withoutMarkers inside ls) ≤ byteLength (ls.flatMap Lexeme.text) := by
  fun_induction withoutMarkers inside ls with
  | case1 => exact Nat.le_refl _
  | case2 ls ih =>
    rw [List.flatMap_cons, byteLength_append]
    omega
  | case3 l ls hl ih =>
    rw [List.flatMap_cons, byteLength_append, byteLength_append]
    omega
  | case4 ls ih =>
    rw [List.flatMap_cons, byteLength_append]
    omega
  | case5 l ls hl ih =>
    rw [List.flatMap_cons, byteLength_append]
    omega

/-- A comment has bytes. -/
theorem byteLength_withoutMarkers_lt {ls : List Lexeme} (h : .open .marker ∈ ls) :
    byteLength (withoutMarkers false ls) < byteLength (ls.flatMap Lexeme.text) := by
  induction ls with
  | nil => cases h
  | cons l ls ih =>
    by_cases hl : l = .open .marker
    · subst hl
      have hle := byteLength_withoutMarkers_le true ls
      have hbytes : 0 < byteLength (Lexeme.open .marker).text := by decide
      rw [List.flatMap_cons, byteLength_append, withoutMarkers]
      omega
    · have hlt := ih ((List.mem_cons.1 h).resolve_left (Ne.symm hl))
      rw [List.flatMap_cons, byteLength_append, Scan.withoutMarkers_cons hl, byteLength_append]
      omega

/-! ## How far a scan has come -/

/-- The token that comes behind the tokens `front` is written among the lexemes `done`, and its
place counts the bytes of `front` alone. -/
def Written (root : String) (done : List Lexeme) (front : List Token) (token : Token) : Prop :=
  ∃ before own behind, done = before ++ own ++ behind ∧
    withoutMarkers false before = (sourceOf front).toList ∧
    own.flatMap Lexeme.text = token.source.toList ∧
    token.pos = ⟨root, byteLength (sourceOf front).toList⟩

/-- All tokens are written among the lexemes. -/
def AllWritten (root : String) (done : List Lexeme) (tokens : List Token) : Prop :=
  ∀ front token back, tokens = front ++ token :: back → Written root done front token

theorem AllWritten.mono {root : String} {done : List Lexeme} {tokens : List Token}
    (h : AllWritten root done tokens) (more : List Lexeme) :
    AllWritten root (done ++ more) tokens := by
  intro front token back hsplit
  obtain ⟨before, own, behind, rfl, hbefore, hown, hpos⟩ := h front token back hsplit
  exact ⟨before, own, behind ++ more, by simp, hbefore, hown, hpos⟩

/-- One more token is written behind the others. -/
theorem AllWritten.snoc {root : String} {done : List Lexeme} {tokens : List Token} {token : Token}
    (h : AllWritten root done tokens) (htoken : Written root done tokens token) :
    AllWritten root done (tokens ++ [token]) := by
  intro front token' back hsplit
  rcases List.append_eq_append_iff.1 hsplit with ⟨middle, hfront, hback⟩ | ⟨middle, hfront, hback⟩
  · cases middle with
    | nil =>
      obtain ⟨rfl, rfl⟩ := List.cons.inj hback
      rw [hfront, List.append_nil]
      exact htoken
    | cons t middle => exact absurd (List.cons.inj hback).2 (by simp)
  · cases middle with
    | nil =>
      obtain ⟨rfl, rfl⟩ := List.cons.inj hback
      rw [hfront, List.append_nil] at htoken
      exact htoken
    | cons t middle =>
      obtain ⟨rfl, -⟩ := List.cons.inj hback
      exact h front token' middle hfront

namespace Scan

variable {files : Files} {limit : Nat} {root : String} {s s₁ : Scan} {l : Lexeme}
  {done ls : List Lexeme}

/-- A scan of one file has come behind `done`. -/
structure Tracks (files : Files) (limit : Nat) (root : String) (done : List Lexeme) (s : Scan) :
    Prop where
  ran : done.foldlM (Scan.step files limit) { frame := { file := root } } = .ok s
  frame : s.frame = { file := root, offset := byteLength (sourceOf s.found.reverse).toList }
  outer : s.outer = []
  start : ∀ e start read, s.mode = .enclosed e start read → start = s.frame.pos
  pending : ∃ before own, done = before ++ own ∧
    withoutMarkers false before = (sourceOf s.found.reverse).toList ∧
    own.flatMap Lexeme.text = s.mode.pending
  written : AllWritten root done s.found.reverse

/-- The tokens found and what is being read spell what was read outside of markers. -/
theorem sources_of_run
    (hrun : done.foldlM (step files limit) { frame := { file := root } } = .ok s) :
    withoutMarkers false done = (sourceOf s.found.reverse).toList ++ s.mode.shown := by
  have hspelled := (spelled_run hrun).symm
  simpa [spelled, withoutMarkers, sourceOf, Mode.shown, Mode.inMarker, Mode.pending, String.join]
    using hspelled

/-- The content so far of the marker that is being read. -/
def Mode.marker? : Mode → Option (List Char)
  | .enclosed .marker _ read => some read.reverse
  | _ => none

theorem contents_add {mode : Mode} (hopen : ∀ e, l ≠ .open e)
    (hclose : ∀ e start read, mode = .enclosed e start read → l ≠ .close e) :
    markerContents (mode.add l.text).marker? ls = markerContents mode.marker? (l :: ls) := by
  cases mode with
  | raw read => exact (markerContents_outside (hopen _) ls).symm
  | enclosed e start read =>
    cases e with
    | marker =>
      have hread : (Mode.add l.text (.enclosed .marker start read)).marker? =
          some (read.reverse ++ l.text) := by
        simp [Mode.add, Mode.marker?]
      rw [hread]
      exact (markerContents_inside (hclose _ _ _ rfl) _ _).symm
    | object => exact (markerContents_outside (hopen _) ls).symm
    | tag => exact (markerContents_outside (hopen _) ls).symm

/-- The markers that are read later are markers of the text. -/
theorem contents_step (h : step files limit s l = .ok s₁) (ls : List Lexeme) :
    markerContents s₁.mode.marker? ls ⊆ markerContents s.mode.marker? (l :: ls) := by
  rcases step_cases h with
    ⟨e, read, s₀, rfl, hmode, hflush, rfl⟩ | ⟨e, start, read, rfl, hmode, hclose⟩ |
      ⟨hopen, hclose, rfl⟩
  · rw [hmode]
    cases e <;> exact List.Subset.refl _
  · rw [hmode]
    by_cases he : e = .marker
    · subst he
      obtain ⟨frame, outer, rfl⟩ := mark_ok hclose
      exact List.subset_cons_self _ _
    · obtain ⟨token, -, -, rfl⟩ := close_ok he hclose
      cases e with
      | marker => exact absurd rfl he
      | object => exact List.Subset.refl _
      | tag => exact List.Subset.refl _
  · rw [contents_add hopen hclose]
    exact List.Subset.refl _

namespace Tracks

theorem pastAll (h : Tracks files limit root done s) (cs : List Char) :
    s.frame.pastAll cs =
      { file := root, offset := byteLength ((sourceOf s.found.reverse).toList ++ cs) } := by
  have hskip : s.frame.skip = 0 := by rw [h.frame]
  have hindent : s.frame.indent = byteLength [] := by
    rw [h.frame]
    rfl
  have hpast := Frame.pastAll_indentedBy hskip hindent cs
  rw [indentedBy_empty] at hpast
  rw [hpast, h.frame, byteLength_append]

/-- What was read since the last token becomes a token. -/
theorem push {token : Token} {more : List Lexeme} (h : Tracks files limit root done s)
    (hsource : token.source.toList = s.mode.pending ++ more.flatMap Lexeme.text)
    (hpos : token.pos = s.frame.pos) :
    AllWritten root (done ++ more) (token :: s.found).reverse := by
  obtain ⟨before, own, hdone, hbefore, hown⟩ := h.pending
  rw [List.reverse_cons]
  refine (h.written.mono more).snoc ⟨before, own ++ more, [], ?_, hbefore, ?_, ?_⟩
  · rw [hdone]
    simp
  · rw [List.flatMap_append, hown, hsource]
  · rw [hpos, h.frame]
    rfl

/-- Raw text ends. -/
theorem flush {read : List Char} (h : Tracks files limit root done s) (hmode : s.mode = .raw read)
    (hflush : Scan.flush files limit s read = .ok s₁) :
    s₁.frame = { file := root, offset := byteLength (sourceOf s₁.found.reverse).toList } ∧
      s₁.outer = [] ∧ AllWritten root done s₁.found.reverse := by
  have hsources := flush_sources hflush
  unfold Scan.flush at hflush
  split at hflush
  · obtain rfl := Except.ok.inj hflush
    exact ⟨h.frame, h.outer, h.written⟩
  · obtain rfl := push_ok hflush
    refine ⟨?_, h.outer, ?_⟩
    · rw [hsources]
      exact h.pastAll _
    · have hpending : (Token.raw (.ofList read.reverse) s.frame.pos).source.toList =
          s.mode.pending ++ [].flatMap Lexeme.text := by
        simp [Token.source, hmode, Mode.pending]
      have hwritten := h.push hpending rfl
      rwa [List.append_nil] at hwritten

/-- A comment is passed over. -/
theorem mark {start : Pos} {content : List Char} (houter : s.outer = [])
    (hcomment : (Marker.ofContent (trim content)).begins = false)
    (hmark : Scan.mark files s start content = .ok s₁) : s₁ = s := by
  unfold Scan.mark at hmark
  dsimp only at hmark
  split at hmark
  · next hcontent =>
    rw [hcontent] at hcomment
    cases hcomment
  · rw [houter] at hmark
    cases hmark
  · cases hmark
  · exact (Except.ok.inj hmark).symm

/-- The scan goes on as it says. -/
theorem step (h : Tracks files limit root done s)
    (hcomment : ∀ start read, l = .close .marker → s.mode = .enclosed .marker start read →
      (Marker.ofContent (trim read.reverse)).begins = false)
    (hstep : Scan.step files limit s l = .ok s₁) : Tracks files limit root (done ++ [l]) s₁ := by
  have hrun : (done ++ [l]).foldlM (Scan.step files limit) { frame := { file := root } } =
      .ok s₁ := by
    rw [List.foldlM_append, h.ran]
    show [l].foldlM (Scan.step files limit) s = _
    rw [List.foldlM_cons, hstep]
    rfl
  rcases step_cases hstep with
    ⟨e, read, s₀, rfl, hmode, hflush, rfl⟩ | ⟨e, start, read, rfl, hmode, hclose⟩ |
      ⟨hopen, hclose, rfl⟩
  · obtain ⟨hframe, houter, hwritten⟩ := h.flush hmode hflush
    refine ⟨hrun, hframe, houter, fun e' start read' hmode' => ?_, ⟨done, [.open e], rfl, ?_, ?_⟩,
      hwritten.mono _⟩
    · cases hmode'
      rfl
    · rw [flush_sources hflush, sources_of_run h.ran, hmode]
      rfl
    · simp [Lexeme.text, Mode.pending]
  · have hsources := sources_of_run hrun
    by_cases he : e = .marker
    · subst he
      obtain rfl := mark (s := { s with mode := .raw [] }) h.outer (hcomment _ _ rfl hmode) hclose
      exact ⟨hrun, h.frame, h.outer, fun _ _ _ hraw => (by cases hraw),
        ⟨_, [], (List.append_nil _).symm, hsources.trans (List.append_nil _), rfl⟩,
        h.written.mono _⟩
    · have hstart := h.start _ _ _ hmode
      obtain ⟨token, hpos, hsource, rfl⟩ := close_ok he hclose
      rw [hstart] at hpos
      have hpending :
          token.source.toList = s.mode.pending ++ [Lexeme.close e].flatMap Lexeme.text := by
        simp [hsource, hmode, Mode.pending, Lexeme.text]
      refine ⟨hrun, ?_, h.outer, fun _ _ _ hraw => (by cases hraw),
        ⟨_, [], (List.append_nil _).symm, ?_, rfl⟩, h.push hpending hpos⟩
      · rw [List.reverse_cons, toList_sourceOf_snoc, hsource]
        exact h.pastAll _
      · rw [hsources]
        exact List.append_nil _
  · obtain ⟨before, own, hdone, hbefore, hown⟩ := h.pending
    refine ⟨hrun, h.frame, h.outer, fun e start read hmode => ?_,
      ⟨before, own ++ [l], ?_, hbefore, ?_⟩, h.written.mono _⟩
    · cases hold : s.mode with
      | raw read' => simp [hold, Mode.add] at hmode
      | enclosed e' start' read' =>
        simp only [hold, Mode.add, Mode.enclosed.injEq] at hmode
        exact hmode.2.1 ▸ h.start _ _ _ hold
    · rw [hdone, List.append_assoc]
    · simp [hown, Mode.pending_add]

/-- So it does over a whole text in which no marker begins a file. -/
theorem run (h : Tracks files limit root done s)
    (hcomments : BeginsNoFile (markerContents s.mode.marker? ls))
    (hrun : ls.foldlM (Scan.step files limit) s = .ok s₁) :
    Tracks files limit root (done ++ ls) s₁ := by
  induction ls generalizing s done with
  | nil =>
    obtain rfl := Except.ok.inj hrun
    rwa [List.append_nil]
  | cons l ls ih =>
    obtain ⟨s₀, hstep, hrun⟩ := foldlM_cons_ok hrun
    have h₀ := h.step (fun start read hl hmode => hcomments _ (by
      rw [hl, hmode]
      exact List.mem_cons_self)) hstep
    have hrest := ih h₀ (fun content hmem => hcomments content (contents_step hstep ls hmem)) hrun
    rwa [List.append_assoc, List.singleton_append] at hrest

end Tracks

end Scan

/-- In a file in which no comment is read as the beginning of another file, every token is written
behind the tokens before it. Its place is where it is written, if no comment is written before it;
otherwise the bytes of the comments are missing in it. -/
theorem tokenize_places {text root : String} {files : Files} {limit : Nat} {tokens : List Token}
    (hfile : files.get? root = some text)
    (hcomments : BeginsNoFile (markerContents none (lexemes text.toList)))
    (h : tokenize text root files limit = .ok tokens) {front back : List Token} {token : Token}
    (hsplit : tokens = front ++ token :: back) :
    ∃ before after, text.toList = before ++ token.source.toList ++ after ∧
      withoutMarkers false (lexemes before) = (sourceOf front).toList ∧
      token.pos = ⟨root, byteLength (sourceOf front).toList⟩ ∧
      (token.pos.offset = byteLength before ↔ .open .marker ∉ lexemes before) ∧
      (.open .marker ∉ lexemes before →
        files.ReadsAt token.pos (token.source.toList ++ after)) := by
  obtain ⟨s, hrun, hfinish⟩ := run_of_tokenize h
  have hstart : Scan.Tracks files limit root [] { frame := { file := root } } :=
    ⟨rfl, rfl, rfl, nofun, ⟨[], [], rfl, rfl, rfl⟩, fun front token back hnil =>
      absurd hnil.symm (by simp)⟩
  have htracks := hstart.run hcomments hrun
  rw [List.nil_append] at htracks
  obtain ⟨read, s₁, hmode, hflush, -, rfl⟩ := Scan.finish_ok hfinish
  obtain ⟨before, own, behind, hlexemes, hbefore, hown, hpos⟩ :=
    (htracks.flush hmode hflush).2.2 front token back hsplit
  have hcut := lexemes_cut (hlexemes.trans (List.append_assoc before own behind))
  have htext : text.toList =
      before.flatMap Lexeme.text ++ token.source.toList ++ behind.flatMap Lexeme.text := by
    rw [← text_lexemes text.toList, hlexemes, List.flatMap_append, List.flatMap_append, hown]
  have hoffset : token.pos.offset = byteLength (withoutMarkers false before) := by
    rw [hpos, hbefore]
  have hnone (hmarker : .open .marker ∉ before) :
      token.pos.offset = byteLength (before.flatMap Lexeme.text) := by
    rw [hoffset, withoutMarkers_eq hmarker]
  refine ⟨before.flatMap Lexeme.text, behind.flatMap Lexeme.text, htext, ?_, hpos, ?_, ?_⟩
  · rw [hcut.1, hbefore]
  · rw [hcut.1]
    refine ⟨fun heq hmarker => ?_, hnone⟩
    have hlt := byteLength_withoutMarkers_lt hmarker
    omega
  · rw [hcut.1]
    intro hmarker
    refine ⟨text, before.flatMap Lexeme.text, ?_, ?_, (hnone hmarker).symm⟩
    · rw [hpos]
      exact hfile
    · rw [htext, List.append_assoc]

/-- A file with a comment behind an object, and before another one. -/
def commentedText : String := "a\x7b\x7b x \x7d\x7d\x7b# c #\x7d\x7b\x7b y \x7d\x7d"

theorem tokenize_commentedText :
    tokenize commentedText "page" ⟨[("page", commentedText)]⟩ 10 =
      .ok ([.raw "a" ⟨"page", 0⟩] ++ .object "x" [] "\x7b\x7b x \x7d\x7d" ⟨"page", 1⟩ ::
        [.object "y" [] "\x7b\x7b y \x7d\x7d" ⟨"page", 8⟩]) := by
  rfl

/-- The object before the comment is where its place says. -/
theorem tokenize_places_before : ∃ tokens front back before after,
    tokenize commentedText "page" ⟨[("page", commentedText)]⟩ 10 = .ok tokens ∧
      tokens = front ++ .object "x" [] "\x7b\x7b x \x7d\x7d" ⟨"page", 1⟩ :: back ∧
      commentedText.toList = before ++ "\x7b\x7b x \x7d\x7d".toList ++ after ∧
      withoutMarkers false (lexemes before) = (sourceOf front).toList ∧
      (1 = byteLength before ↔ .open .marker ∉ lexemes before) := by
  obtain ⟨before, after, htext, hbefore, -, hplace, -⟩ :=
    tokenize_places rfl (by decide +kernel) tokenize_commentedText rfl
  exact ⟨_, _, _, before, after, tokenize_commentedText, rfl, htext, hbefore, hplace⟩

/-- Behind the comment, the file does not go on with the object where the place of the object
says. -/
theorem tokenize_places_behind :
    BeginsNoFile (markerContents none (lexemes commentedText.toList)) ∧
      ∃ tokens, tokenize commentedText "page" ⟨[("page", commentedText)]⟩ 10 = .ok tokens ∧
        ∃ token ∈ tokens, ∀ after,
          ¬ Files.ReadsAt ⟨[("page", commentedText)]⟩ token.pos (token.source.toList ++ after) := by
  refine ⟨by decide +kernel, _, tokenize_commentedText,
    .object "y" [] "\x7b\x7b y \x7d\x7d" ⟨"page", 8⟩, by simp, ?_⟩
  rintro after ⟨text, before, hfile, htext, hoffset⟩
  obtain rfl : commentedText = text := Option.some.inj hfile
  replace htext : commentedText.toList = before ++ ("\x7b\x7b y \x7d\x7d".toList ++ after) := htext
  have hchars := charsIn?_append before ("\x7b\x7b y \x7d\x7d".toList ++ after)
  rw [hoffset, ← htext] at hchars
  have hlength : before.length = 8 := Option.some.inj (hchars.symm.trans (by rfl))
  have hdrop : commentedText.toList.drop 8 = "\x7b\x7b y \x7d\x7d".toList ++ after := by
    rw [htext, ← hlength, List.drop_left]
  simp [commentedText] at hdrop

end Stencil
