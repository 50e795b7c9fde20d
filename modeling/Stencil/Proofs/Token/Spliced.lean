import Stencil.Proofs.Inclusion.Segments
import Stencil.Proofs.Token.Amid

/-!
# Tokens of a flattened template

The tokens of a flattened template are those of the texts between the directives, each tokenized on
its own, in the order in which files take the place of directives. Indentation is all that is added.

* `Spliced`: the tokens of the segments of a file, put together from those of the texts.
* `Splices.text`, `Splices.directive`: they are found where the segments come to stand.
* `tokenize_spliced`: so they are the tokens of the whole template, as long as no file that is
  included ends in a brace.
* `tokenize_brace`: a brace at the end of such a file hides the marker behind it.
-/

namespace Stencil

open Text

/-- A text that can be tokenized apart from all others. -/
def StandsAlone (cs : List Char) : Prop :=
  ∃ limit tokens, tokenize (.ofList cs) stringFile {} limit = .ok tokens

/-- Every text between the directives can be tokenized apart from all others. -/
def TextsStandAlone (segments : List Segment) : Prop := ∀ cs, .text cs ∈ segments → StandsAlone cs

namespace TextsStandAlone

theorem here {cs : List Char} {rest : List Segment} (h : TextsStandAlone (.text cs :: rest)) :
    StandsAlone cs :=
  h cs List.mem_cons_self

theorem behind {s : Segment} {rest : List Segment} (h : TextsStandAlone (s :: rest)) :
    TextsStandAlone rest :=
  fun cs hcs => h cs (List.mem_cons_of_mem _ hcs)

/-- Whether texts stand alone can be computed. -/
theorem of_isOk {segments : List Segment} (limit : Nat)
    (h : ∀ s ∈ segments, s.directive?.isSome ∨
      (tokenize (.ofList s.source) stringFile {} limit).isOk = true) : TextsStandAlone segments := by
  intro cs hcs
  rcases h _ hcs with h | h
  · cases h
  · cases htokens : tokenize (.ofList cs) stringFile {} limit with
    | ok tokens => exact ⟨limit, tokens, htokens⟩
    | error e =>
      rw [show Segment.source (.text cs) = cs from rfl, htokens] at h
      cases h

end TextsStandAlone

/-- The tokens of the segments of the file at a path from some segment on, under the indentation of
the directives around the file: texts give their own tokens, and directives those of the files that
they name, which are trimmed behind. -/
inductive Spliced (folders : Folders) (files : Files) :
    Path → List Char → List Segment → List Token → Prop where
  | nil {path : Path} {margin : List Char} : Spliced folders files path margin [] []
  | text {path : Path} {margin cs : List Char} {rest : List Segment} {limit : Nat}
      {tokens tokens' : List Token} (own : tokenize (.ofList cs) stringFile {} limit = .ok tokens)
      (behind : Spliced folders files path margin rest tokens') :
      Spliced folders files path margin (.text cs :: rest)
        (tokens.map (Token.indented margin) ++ tokens')
  | directive {path : Path} {margin : List Char} {d : Directive} {target : String}
      {rest : List Segment} {tokens tokens' : List Token}
      (there : files.get? (folders.target path d).file = some target)
      (inner : Spliced folders files (folders.target path d).path (margin ++ d.indent)
        (trimLast (segments target.toList)) tokens)
      (behind : Spliced folders files path margin rest tokens') :
      Spliced folders files path margin (.directive d :: rest) (tokens ++ tokens')

/-- Where the segments of a file from some segment on are flattened to `flat`, their tokens are
found, whatever the indentation is and whatever follows. -/
def Splices (folders : Folders) (files : Files) (path : Path) (rest : List Segment)
    (flat : List Char) : Prop :=
  ∀ margin tail, IsMargin margin → Meets flat tail →
    ∃ tokens, Spliced folders files path margin rest tokens ∧
      Reads (indentedBy margin flat) tail tokens

namespace Splices

variable {folders : Folders} {files : Files} {path : Path} {rest : List Segment}
  {cs flat : List Char}

theorem nil : Splices folders files path [] [] :=
  fun _ _ _ _ => ⟨[], .nil, .nil⟩

/-- The text behind the last directive gives its own tokens. -/
theorem last (hplain : ¬ ['{', '#'] <:+: cs) (halone : StandsAlone cs) :
    Splices folders files path [.text cs] cs := by
  intro margin tail hm hmeets
  obtain ⟨limit, tokens, hown⟩ := halone
  refine ⟨_, .text hown .nil, ?_⟩
  rw [List.append_nil]
  exact .text hm hplain hmeets hown

/-- So does a text before a directive. -/
theorem text (hplain : ¬ ['{', '#'] <:+: cs) (halone : StandsAlone cs)
    (hclosed : cs.getLast? ≠ some '{') (hmarker : ['{', '#'] <+: flat)
    (h : Splices folders files path rest flat) :
    Splices folders files path (.text cs :: rest) (cs ++ flat) := by
  intro margin tail hm hmeets
  obtain ⟨limit, tokens, hown⟩ := halone
  obtain ⟨tokens', hspliced, hreads⟩ := h margin tail hm (hmeets.behind cs)
  have hindented : ['{', '#'] <+: indentedBy margin flat := prefix_indentedBy.2 hmarker
  have hprefix : ['{', '#'] <+: indentedBy margin flat ++ tail :=
    hindented.trans (List.prefix_append _ _)
  have hhead : (indentedBy margin flat ++ tail).head? = some '{' := by
    obtain ⟨more, hmore⟩ := hprefix
    rw [← hmore]
    rfl
  refine ⟨_, .text hown hspliced, ?_⟩
  rw [indentedBy_append]
  exact (Reads.text hm hplain (.inr ⟨hhead, hclosed⟩) hown).append hprefix hreads

/-- A directive gives the tokens of the file that it names. -/
theorem directive {d : Directive} {target : String} {body : List Char}
    (hname : IsFileName (folders.target path d).file)
    (hparent : IsFileName (folders.fileName path)) (hmargin : IsMargin d.indent)
    (hsource : byteLength d.source < Number.twoTo 64)
    (hindent : byteLength d.indent < Number.twoTo 64)
    (there : files.get? (folders.target path d).file = some target)
    (hclosed : body.getLast? ≠ some '{')
    (hinner : Splices folders files (folders.target path d).path
      (trimLast (segments target.toList)) body)
    (h : Splices folders files path rest flat) :
    Splices folders files path (.directive d :: rest)
      (beginMarker (byteLength d.source) (byteLength d.indent) (folders.target path d).file ++
        indentedBy d.indent body ++ endMarker (folders.fileName path) ++ flat) := by
  intro margin tail hm hmeets
  obtain ⟨tokens', hspliced', hflat⟩ := h margin tail hm (hmeets.behind _)
  obtain ⟨tokens, hspliced, hbody⟩ := hinner (margin ++ d.indent)
    (endMarker (folders.fileName path) ++ indentedBy margin flat ++ tail) (hm.append hmargin)
    (.inr ⟨by simp [endMarker_eq], hclosed⟩)
  refine ⟨_, .directive there hspliced hspliced', ?_⟩
  simp only [indentedBy_append, indentedBy_beginMarker hname, indentedBy_endMarker hparent,
    indentedBy_indentedBy hmargin.notMem]
  exact .file hname hparent hsource hindent hbody hflat

end Splices

/-! ## Expansions -/

/-- Nothing is trimmed off a marker, nor off what stands before it. -/
theorem trimRight_marker {flat : List Char} (h : ['{', '#'] <+: flat) (front : List Char) :
    trimRight (front ++ flat) = front ++ trimRight flat ∧ ['{', '#'] <+: trimRight flat := by
  obtain ⟨more, rfl⟩ := h
  have hink : trimRight ['{', '#'] = ['{', '#'] := by decide
  have htrim := trimRight_append_ink hink (List.cons_ne_nil _ _) [] more
  rw [List.nil_append] at htrim
  rw [htrim, ← List.append_assoc, ← List.append_assoc,
    trimRight_append_ink hink (List.cons_ne_nil _ _)]
  exact ⟨rfl, List.prefix_append _ _⟩

/-- A text that starts with a directive is flattened to one that starts with a marker. -/
theorem Expansion.marker {folders : Folders} {textOf : Path → Option String} {path : Path}
    {d : Directive} {rest : List Segment} {flat : List Char}
    (h : Expansion folders textOf path (.directive d :: rest) flat) : ['{', '#'] <+: flat := by
  cases h with
  | directive =>
    rw [Flattener.wrap_eq, beginMarker_eq]
    simp

/-- What a file is asked for that is included. -/
structure Includable (folders : Folders) (files : Files) (p : Path) (text : String) : Prop where
  there : files.get? (folders.fileName p) = some text
  named : IsFileName (folders.fileName p)
  joinable : Joinable text.toList
  closed : lastInk text.toList ≠ some '{'
  alone : TextsStandAlone (trimLast (segments text.toList))

/-- The tokens of a file are found where it is flattened, be it trimmed or not. -/
theorem Expansion.splices {folders : Folders} {files : Files} {textOf : Path → Option String}
    {path : Path} {rest : List Segment} {flat : List Char}
    (htexts : ∀ p text, textOf p = some text → Includable folders files p text)
    (h : Expansion folders textOf path rest flat) (hname : IsFileName (folders.fileName path))
    (halternating : Alternating rest) :
    (TextsStandAlone rest → Splices folders files path rest flat) ∧
      (TextsStandAlone (trimLast rest) →
        Splices folders files path (trimLast rest) (trimRight flat)) := by
  induction h with
  | nil => exact ⟨fun _ => .nil, fun _ => .nil⟩
  | @text path cs rest flat behind ih =>
    cases halternating with
    | last hplain =>
      have htrimmed : ¬ ['{', '#'] <:+: trimRight cs := fun hmarker =>
        hplain (hmarker.trans (trimRight_front cs).isInfix)
      cases behind
      rw [List.append_nil]
      exact ⟨fun halone => .last hplain halone.here, fun halone => .last htrimmed halone.here⟩
    | text hplain hclosed halternating =>
      obtain ⟨hwhole, htrimmed⟩ := ih hname halternating
      obtain ⟨htrim, hmarker⟩ := trimRight_marker behind.marker cs
      rw [trimLast_text, htrim]
      exact ⟨fun halone => .text hplain halone.here hclosed behind.marker (hwhole halone.behind),
        fun halone => .text hplain halone.here hclosed hmarker (htrimmed halone.behind)⟩
  | @directive path d target rest body flat there inner behind ihinner ih =>
    cases halternating with
    | directive hmargin hsource hindent halternating =>
      have htarget := htexts _ _ there
      have hbody := (ihinner htarget.named htarget.joinable.alternating).2 htarget.alone
      have hinclude {rest : List Segment} {flat : List Char}
          (hrest : Splices folders files path rest flat) :
          Splices folders files path (.directive d :: rest)
            (Flattener.wrap body (folders.target path d) (folders.fileName path) ++ flat) := by
        rw [Flattener.wrap_eq]
        exact .directive htarget.named hname hmargin hsource hindent htarget.there
          (inner.closed htarget.closed) hbody hrest
      obtain ⟨hwhole, htrimmed⟩ := ih hname halternating
      have htrim : trimRight (Flattener.wrap body (folders.target path d) (folders.fileName path) ++
          flat) = Flattener.wrap body (folders.target path d) (folders.fileName path) ++
            trimRight flat := by
        rw [Flattener.wrap_eq, trimRight_append_ink (trimRight_endMarker _) (endMarker_ne_nil _)]
      rw [trimLast_directive, htrim]
      exact ⟨fun halone => hinclude (hwhole halone.behind),
        fun halone => hinclude (htrimmed halone.behind)⟩

/-! ## The tokens of a flattened template -/

/-- The text of a file that the template may include: of any but the template itself. -/
def Flattened.included? (f : Flattened) (folders : Folders) (p : Path) : Option String :=
  if folders.fileName p = f.root then none else f.files.get? (folders.fileName p)

theorem Flattened.included?_some {f : Flattened} {folders : Folders} {p : Path} {text : String}
    (h : f.included? folders p = some text) :
    folders.fileName p ≠ f.root ∧ f.files.get? (folders.fileName p) = some text := by
  unfold included? at h
  split at h
  · cases h
  · next hne => exact ⟨hne, h⟩

theorem Flattened.textsOf_included? (f : Flattened) (folders : Folders) :
    Flattener.TextsOf folders [f.root] f.files (f.included? folders) := by
  intro p text hp htext
  rw [included?, if_neg (by simpa using hp), htext]

/-- A flattened template can be tokenized as soon as there is room for the tokens of all the texts
between the directives, and it has these tokens, in the order in which files take the place of
directives. Only indentation is added to them. No file that is included may end in a brace. -/
theorem tokenize_spliced {store : FileStore} {place : Place} {text : String}
    {before after : Closure} {f : Flattened} (hflat : flatten store place text before = .ok f after)
    (hnamed : f.files.WellNamed)
    (hjoinable : ∀ name text, f.files.get? name = some text → Joinable text.toList)
    (hroot : TextsStandAlone (segments text.toList))
    (hincluded : ∀ name text, f.files.get? name = some text → name ≠ f.root →
      TextsStandAlone (trimLast (segments text.toList)))
    (hclosed : ∀ name text, f.files.get? name = some text → name ≠ f.root →
      lastInk text.toList ≠ some '{') :
    ∃ own, Spliced place.folders f.files place.source.normalize [] (segments text.toList) own ∧
      ∀ limit, own.length ≤ limit → ∃ tokens,
        tokenize f.text f.root f.files limit = .ok tokens ∧ List.Forall₂ Token.Alike own tokens := by
  obtain ⟨hname, -, -, htext, hexpansion⟩ := flatten_expansion hflat
  have hincludable : ∀ p text, f.included? place.folders p = some text →
      Includable place.folders f.files p text := by
    intro p text hp
    obtain ⟨hne, hp⟩ := Flattened.included?_some hp
    exact ⟨hp, hnamed _ _ hp, hjoinable _ _ hp, hclosed _ _ hp hne, hincluded _ _ hp hne⟩
  have hsplices := ((hexpansion _ (f.textsOf_included? place.folders)).splices hincludable
    (hname ▸ hnamed _ _ htext) (hjoinable _ _ htext).alternating).1 hroot
  have hmargin : IsMargin [] := fun _ hc => absurd hc List.not_mem_nil
  obtain ⟨own, hspliced, hreads⟩ := hsplices [] [] hmargin (.inl rfl)
  rw [indentedBy_empty] at hreads
  refine ⟨own, hspliced, fun limit hlimit => ?_⟩
  have htokens := hreads.tokenize f.root f.files hlimit
  rwa [String.ofList_toList] at htokens

/-- The part of the page is spliced into it. -/
theorem tokenize_spliced_part :
    ∃ store place text after, flatten store place text {} = .ok partPage after ∧
      ∃ own, Spliced place.folders partPage.files place.source.normalize [] (segments text.toList)
          own ∧ ∀ limit, own.length ≤ limit → ∃ tokens,
        tokenize partPage.text partPage.root partPage.files limit = .ok tokens ∧
          List.Forall₂ Token.Alike own tokens := by
  have hnamed : partPage.files.WellNamed := Files.wellNamed_of_entries (by decide +kernel)
  have hfiles : ∀ name text, partPage.files.get? name = some text →
      name = "page" ∧ text = "<\n  \x7b% include nav %\x7d>" ∨
        name = "nav" ∧ text = "a\n\x7b\x7b b\n\x7d\x7d\n" := by
    intro name text hfile
    simpa [partPage] using Files.mem_entries hfile
  obtain ⟨after, hflat⟩ : ∃ after, flatten ⟨[(⟨"p/nav"⟩, .ok "a\n\x7b\x7b b\n\x7d\x7d\n")]⟩
      ⟨⟨"p/page"⟩, ⟨"p"⟩, ⟨"p"⟩⟩ "<\n  \x7b% include nav %\x7d>" {} = .ok partPage after :=
    Resolving.ok_of_value? (by decide +kernel)
  refine ⟨_, _, _, after, hflat, tokenize_spliced hflat hnamed ?_ ?_ ?_ ?_⟩
  · intro name text hfile
    rcases hfiles name text hfile with ⟨-, rfl⟩ | ⟨-, rfl⟩
    · exact ⟨by decide +kernel, by decide +kernel, noBrace_of_cuts (by decide +kernel)⟩
    · exact ⟨by decide +kernel, by decide +kernel, noBrace_of_cuts (by decide +kernel)⟩
  · exact .of_isOk 10 (by decide +kernel)
  · intro name text hfile hne
    rcases hfiles name text hfile with ⟨rfl, -⟩ | ⟨-, rfl⟩
    · exact absurd rfl hne
    · exact .of_isOk 10 (by decide +kernel)
  · intro name text hfile hne
    rcases hfiles name text hfile with ⟨rfl, -⟩ | ⟨-, rfl⟩
    · exact absurd rfl hne
    · decide +kernel

/-- A page with a part that ends in a brace. -/
def bracePage : Flattened where
  text := "\x7b# beg 15 0 a #\x7da\x7b\x7b# end 0 page #\x7d"
  root := "page"
  files := ⟨[("page", "\x7b% include a %\x7d"), ("a", "a\x7b")]⟩
  includes := ⟨[("page", ["a"]), ("a", [])]⟩

/-- Nothing else is wrong with the page, but the brace and that of the marker behind it are taken
for the opener of an object. -/
theorem tokenize_brace :
    ∃ store place text after, flatten store place text {} = .ok bracePage after ∧
      bracePage.files.WellNamed ∧
      (∀ name text, bracePage.files.get? name = some text → Joinable text.toList) ∧
      TextsStandAlone (segments text.toList) ∧
      (∀ name text, bracePage.files.get? name = some text → name ≠ bracePage.root →
        TextsStandAlone (trimLast (segments text.toList))) ∧
      ∀ limit, ∃ e, tokenize bracePage.text bracePage.root bracePage.files limit = .error e := by
  have hfiles : ∀ name text, bracePage.files.get? name = some text →
      text = "\x7b% include a %\x7d" ∨ text = "a\x7b" := by
    intro name text hfile
    have hentry := Files.mem_entries hfile
    simp [bracePage] at hentry
    tauto
  obtain ⟨after, hflat⟩ : ∃ after, flatten ⟨[(⟨"p/a"⟩, .ok "a\x7b")]⟩ ⟨⟨"p/page"⟩, ⟨"p"⟩, ⟨"p"⟩⟩
      "\x7b% include a %\x7d" {} = .ok bracePage after :=
    Resolving.ok_of_value? (by decide +kernel)
  refine ⟨_, _, _, after, hflat, Files.wellNamed_of_entries (by decide +kernel), ?_,
    .of_isOk 10 (by decide +kernel), ?_, fun limit => ?_⟩
  · intro name text hfile
    rcases hfiles name text hfile with rfl | rfl
    · exact ⟨by decide +kernel, by decide +kernel, noBrace_of_cuts (by decide +kernel)⟩
    · exact ⟨by decide +kernel, by decide +kernel, noBrace_of_cuts (by decide +kernel)⟩
  · intro name text hfile _
    rcases hfiles name text hfile with rfl | rfl
    · exact .of_isOk 10 (by decide +kernel)
    · exact .of_isOk 10 (by decide +kernel)
  · cases limit with
    | zero => exact ⟨_, rfl⟩
    | succ limit => exact ⟨_, rfl⟩

end Stencil
