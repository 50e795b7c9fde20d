import Stencil.Proofs.Inclusion.Resolving

/-!
# What a text is flattened to

`Expansion` tells how the text of a file is flattened: the text between directives stays, and every
directive gives way to what the file is flattened to that it names. It takes the texts of the files
from a function and knows nothing of what was read when, of chains of inclusions and of levels.

* `Expansion.unique`: a text is flattened in one way only.
* `Flattener.expand_expansion`: what comes out is the expansion by the files that were met, and no
  file that is being flattened is needed for it.
* `Flattener.expand_more`: more levels than enough make no difference.
-/

namespace Stencil

open Text

/-! ## Expansions -/

/-- The segments of the file at a path from some segment on, and what they are flattened to.
`textOf` tells the texts of files. -/
inductive Expansion (folders : Folders) (textOf : Path → Option String) :
    Path → List Segment → List Char → Prop where
  | nil {path : Path} : Expansion folders textOf path [] []
  | text {path : Path} {cs : List Char} {rest : List Segment} {flat : List Char}
      (behind : Expansion folders textOf path rest flat) :
      Expansion folders textOf path (.text cs :: rest) (cs ++ flat)
  | directive {path : Path} {d : Directive} {target : String} {rest : List Segment}
      {body flat : List Char}
      (there : textOf (folders.target path d).path = some target)
      (inner : Expansion folders textOf (folders.target path d).path (segments target.toList) body)
      (behind : Expansion folders textOf path rest flat) :
      Expansion folders textOf path (.directive d :: rest)
        (Flattener.wrap body (folders.target path d) (folders.fileName path) ++ flat)

namespace Expansion

variable {folders : Folders} {textOf textOf' : Path → Option String} {path : Path}
  {rest : List Segment} {flat flat' : List Char}

/-- A text without directives stays. -/
theorem of_text {cs : List Char} (h : rest = [.text cs]) :
    Expansion folders textOf path rest cs := by
  have htext : Expansion folders textOf path [.text cs] (cs ++ []) := .text .nil
  rwa [List.append_nil, ← h] at htext

/-- A text is flattened in one way only. -/
theorem unique (h : Expansion folders textOf path rest flat)
    (h' : Expansion folders textOf path rest flat') : flat' = flat := by
  induction h generalizing flat' with
  | nil =>
    cases h'
    rfl
  | text behind ih =>
    cases h' with
    | text behind' => rw [ih behind']
  | directive there inner behind ihinner ih =>
    cases h' with
    | directive there' inner' behind' =>
      obtain rfl := Option.some.inj (there.symm.trans there')
      rw [ihinner inner', ih behind']

end Expansion

/-! ## Flattening expands -/

namespace Flattener

variable {e : Flattener} {fuel : Nat} {active : List String} {file : String} {path : Path}
  {c c' : Closure}

/-- What takes the place of a segment. -/
def expandSegment (e : Flattener) (fuel : Nat) (active : List String) (file : String)
    (path : Path) : Segment → Resolving (List Char)
  | .text cs => pure cs
  | .directive d => do
    let target := e.folders.target path d
    let chain := active ++ [target.file]
    if active.contains target.file then fail (.cyclicInclusion chain) file d
    let body ← e.expand fuel chain target.file target.path
    return wrap body target file

/-- The files that a text names. -/
def targets (e : Flattener) (path : Path) (text : String) : List Target :=
  ((segments text.toList).filterMap Segment.directive?).map (e.folders.target path)

theorem mem_targets {text : String} {d : Directive} (h : .directive d ∈ segments text.toList) :
    e.folders.target path d ∈ e.targets path text :=
  List.mem_map_of_mem (List.mem_filterMap.2 ⟨_, h, rfl⟩)

/-- What is known before the segments of a text are expanded. -/
def enter (e : Flattener) (file : String) (path : Path) (text : String) : Resolving Unit := do
  e.fetch file (e.targets path text)
  modify fun c => { c with
    includes := c.includes.insertNew file ((e.targets path text).map Target.file).eraseDups }

theorem expand_succ : e.expand (fuel + 1) active file path c = (do
    let text := (c.files.get? file).getD ""
    e.enter file path text
    let texts ← (segments text.toList).mapM (e.expandSegment fuel active file path)
    return texts.flatten : Resolving (List Char)) c := by
  rw [expand]
  simp only [enter, bind_assoc]
  rfl

theorem enter_ok {text : String} {u : Unit} (h : e.enter file path text c = .ok u c') :
    ∃ c₁, e.Fetched (e.targets path text) c c₁ ∧ c' = { c₁ with
      includes := c₁.includes.insertNew file ((e.targets path text).map Target.file).eraseDups } := by
  obtain ⟨_, c₁, hfetch, h⟩ := Resolving.bind_ok.1 h
  exact ⟨c₁, fetch_ok hfetch, (Resolving.modify_ok.1 h).symm⟩

theorem expandSegment_directive (d : Directive) :
    e.expandSegment fuel active file path (.directive d) =
      if active.contains (e.folders.target path d).file then
        fail (.cyclicInclusion (active ++ [(e.folders.target path d).file])) file d
      else do
        let body ← e.expand fuel (active ++ [(e.folders.target path d).file])
          (e.folders.target path d).file (e.folders.target path d).path
        return wrap body (e.folders.target path d) file := by
  unfold expandSegment
  dsimp only
  split <;> rfl

theorem expandSegment_directive_ok {d : Directive} {flat : List Char}
    (h : e.expandSegment fuel active file path (.directive d) c = .ok flat c') :
    (e.folders.target path d).file ∉ active ∧
      ∃ body, e.expand fuel (active ++ [(e.folders.target path d).file])
          (e.folders.target path d).file (e.folders.target path d).path c = .ok body c' ∧
        flat = wrap body (e.folders.target path d) file := by
  rw [expandSegment_directive] at h
  split at h
  · exact absurd h fail_ok
  · next hfresh =>
    obtain ⟨body, _, hbody, h⟩ := Resolving.bind_ok.1 h
    obtain ⟨rfl, rfl⟩ := Resolving.pure_ok.1 h
    exact ⟨by simpa using hfresh, body, hbody, rfl⟩

/-- The texts of the files are those that were met, but for the files that are being flattened. -/
def TextsOf (folders : Folders) (active : List String) (files : Files)
    (textOf : Path → Option String) : Prop :=
  ∀ p text, folders.fileName p ∉ active → files.get? (folders.fileName p) = some text →
    textOf p = some text

theorem TextsOf.mono {folders : Folders} {active' : List String} {files files' : Files}
    {textOf : Path → Option String} (h : TextsOf folders active files' textOf)
    (hactive : active ⊆ active') (hfiles : files.Extends files') :
    TextsOf folders active' files textOf :=
  fun p text hp htext => h p text (fun hmem => hp (hactive hmem)) (hfiles _ _ htext)

/-- A file that is there is expanded by the files that are there in the end. Files that are being
flattened are not needed for it. -/
def Expands (e : Flattener) (fuel : Nat) : Prop :=
  ∀ active path c flat c' text,
    e.expand fuel active (e.folders.fileName path) path c = .ok flat c' →
    c.files.get? (e.folders.fileName path) = some text →
    c.files.Extends c'.files ∧ ∀ textOf, TextsOf e.folders active c'.files textOf →
      Expansion e.folders textOf path (segments text.toList) flat

/-- What takes the place of some segments is their expansion. -/
theorem mapM_expandSegment_ok (ih : e.Expands fuel) {rest : List Segment} :
    ∀ {c c' : Closure} {texts : List (List Char)},
      rest.mapM (e.expandSegment fuel active (e.folders.fileName path) path) c = .ok texts c' →
      (∀ d, .directive d ∈ rest → c.files.contains (e.folders.target path d).file = true) →
      c.files.Extends c'.files ∧ ∀ textOf, TextsOf e.folders active c'.files textOf →
        Expansion e.folders textOf path rest texts.flatten := by
  induction rest with
  | nil =>
    intro c c' texts h _
    obtain ⟨rfl, rfl⟩ := Resolving.pure_ok.1 h
    exact ⟨.refl _, fun _ _ => .nil⟩
  | cons segment rest ihrest =>
    intro c c' texts h hthere
    rw [List.mapM_cons] at h
    obtain ⟨flat, c₁, hsegment, h⟩ := Resolving.bind_ok.1 h
    obtain ⟨texts, c₂, hrest, h⟩ := Resolving.bind_ok.1 h
    obtain ⟨rfl, rfl⟩ := Resolving.pure_ok.1 h
    rw [List.flatten_cons]
    cases segment with
    | text cs =>
      obtain ⟨rfl, rfl⟩ := Resolving.pure_ok.1 hsegment
      obtain ⟨hgrown, hbehind⟩ := ihrest hrest fun d hd => hthere d (List.mem_cons_of_mem _ hd)
      exact ⟨hgrown, fun textOf htexts => .text (hbehind textOf htexts)⟩
    | directive d =>
      obtain ⟨hfresh, body, hbody, rfl⟩ := expandSegment_directive_ok hsegment
      obtain ⟨target, htarget⟩ := Option.isSome_iff_exists.1 (hthere d List.mem_cons_self)
      obtain ⟨hgrown, hinner⟩ := ih _ _ _ _ _ _ hbody htarget
      obtain ⟨hgrown', hbehind⟩ := ihrest hrest fun d' hd' =>
        hgrown.contains (hthere d' (List.mem_cons_of_mem _ hd'))
      refine ⟨hgrown.trans hgrown', fun textOf htexts => ?_⟩
      exact .directive (htexts _ _ hfresh (hgrown' _ _ (hgrown _ _ htarget)))
        (hinner textOf (htexts.mono (List.subset_append_left _ _) hgrown')) (hbehind textOf htexts)

theorem expand_expansion (e : Flattener) (fuel : Nat) : e.Expands fuel := by
  induction fuel with
  | zero =>
    intro active path c flat c' text h
    cases h
  | succ fuel ih =>
    intro active path c flat c' text h htext
    rw [expand_succ, htext, Option.getD_some] at h
    obtain ⟨_, c₁, henter, h⟩ := Resolving.bind_ok.1 h
    obtain ⟨texts, c₂, hmap, h⟩ := Resolving.bind_ok.1 h
    obtain ⟨rfl, rfl⟩ := Resolving.pure_ok.1 h
    obtain ⟨c₀, hfetched, rfl⟩ := enter_ok henter
    obtain ⟨hgrown, hexpansion⟩ := mapM_expandSegment_ok ih hmap fun d hd =>
      hfetched.there _ (mem_targets hd)
    exact ⟨hfetched.grown.trans hgrown, hexpansion⟩

/-! ## Levels -/

/-- The levels were used up. No other error about a circle comes without its place. -/
def Exhausted {α : Type} (r : EStateM.Result Error Closure α) : Prop :=
  ∃ active c, r = .error ⟨.cyclicInclusion active, none⟩ c

theorem exhausted_of_bind {α β : Type} {x : Resolving α} {f : α → Resolving β}
    (h : Exhausted (x c)) : Exhausted ((x >>= f) c) := by
  obtain ⟨active, c₁, hx⟩ := h
  refine ⟨active, c₁, ?_⟩
  show EStateM.bind x f c = _
  rw [EStateM.bind, hx]

/-- Unless the levels are used up, other computations may take the place of the parts that give the
same where the levels are not used up. -/
theorem bind_more {α β : Type} {x x' : Resolving α} {f f' : α → Resolving β}
    (hx : ¬ Exhausted (x c) → x' c = x c)
    (hf : ∀ a c₁, ¬ Exhausted (f a c₁) → f' a c₁ = f a c₁) (h : ¬ Exhausted ((x >>= f) c)) :
    (x' >>= f') c = (x >>= f) c := by
  have hx := hx fun hexhausted => h (exhausted_of_bind hexhausted)
  show EStateM.bind x' f' c = EStateM.bind x f c
  replace h : ¬ Exhausted (EStateM.bind x f c) := h
  unfold EStateM.bind at h ⊢
  rw [hx]
  cases hc : x c with
  | ok a c₁ =>
    rw [hc] at h
    exact hf a c₁ h
  | error err c₁ => rfl

theorem mapM_more {α β : Type} {f f' : α → Resolving β}
    (hf : ∀ a c, ¬ Exhausted (f a c) → f' a c = f a c) {as : List α}
    (h : ¬ Exhausted (as.mapM f c)) : as.mapM f' c = as.mapM f c := by
  induction as generalizing c with
  | nil => rfl
  | cons a as ih =>
    rw [List.mapM_cons] at h ⊢
    rw [List.mapM_cons]
    refine bind_more (hf a c) (fun b c₁ h₁ => ?_) h
    exact bind_more (fun h₂ => ih h₂) (fun _ _ _ => rfl) h₁

/-- Where the levels are not used up, one more makes no difference. -/
theorem expand_more (h : ¬ Exhausted (e.expand fuel active file path c)) :
    e.expand (fuel + 1) active file path c = e.expand fuel active file path c := by
  induction fuel generalizing active file path c with
  | zero => exact absurd ⟨active, c, rfl⟩ h
  | succ fuel ih =>
    rw [expand_succ] at h ⊢
    rw [expand_succ]
    refine bind_more (fun _ => rfl) (fun _ c₁ h₁ => ?_) h
    refine bind_more (mapM_more fun segment c₂ h₂ => ?_) (fun _ _ _ => rfl) h₁
    cases segment with
    | text cs => rfl
    | directive d =>
      rw [expandSegment_directive] at h₂ ⊢
      rw [expandSegment_directive]
      by_cases hactive : active.contains (e.folders.target path d).file = true
      · rw [if_pos hactive, if_pos hactive]
      · rw [if_neg hactive] at h₂ ⊢
        rw [if_neg hactive]
        exact bind_more (fun h₃ => ih h₃) (fun _ _ _ => rfl) h₂

/-- So any number of levels from one on that is enough gives the same. -/
theorem expand_of_le {fuel' : Nat} (hle : fuel ≤ fuel')
    (h : ¬ Exhausted (e.expand fuel active file path c)) :
    e.expand fuel' active file path c = e.expand fuel active file path c := by
  induction hle with
  | refl => rfl
  | step hle ih => rw [expand_more (ih ▸ h), ih]

end Flattener

/-! ## Flattening a template -/

/-- Where the files of the template at a place are. -/
def Place.folders (place : Place) : Folders := ⟨place.base.normalize, place.parts.normalize⟩

/-- The text of a template is expanded by the files that were met. The template itself is not one of
those that it includes. -/
theorem flatten_expansion {store : FileStore} {place : Place} {text : String} {c c' : Closure}
    {f : Flattened} (h : flatten store place text c = .ok f c') :
    f.root = place.folders.fileName place.source.normalize ∧ f.files = c'.files ∧
      f.includes = c'.includes ∧ f.files.get? f.root = some text ∧
      ∀ textOf, Flattener.TextsOf place.folders [f.root] f.files textOf →
        Expansion place.folders textOf place.source.normalize (segments text.toList)
          f.text.toList := by
  unfold flatten at h
  obtain ⟨_, c₁, hmodify, h⟩ := Resolving.bind_ok.1 h
  obtain ⟨flat, c₂, hexpand, h⟩ := Resolving.bind_ok.1 h
  obtain ⟨_, _, hget, h⟩ := Resolving.bind_ok.1 h
  obtain ⟨rfl, rfl⟩ := Resolving.get_ok.1 hget
  obtain ⟨rfl, rfl⟩ := Resolving.pure_ok.1 h
  have htext : c₁.files.get? (place.folders.fileName place.source.normalize) = some text := by
    rw [← Resolving.modify_ok.1 hmodify, Table.get?_insert]
    exact if_pos rfl
  obtain ⟨hgrown, hexpansion⟩ :=
    Flattener.expand_expansion ⟨store, place.folders⟩ _ _ _ _ _ _ _ hexpand htext
  refine ⟨rfl, rfl, rfl, hgrown _ _ htext, ?_⟩
  rw [String.toList_ofList]
  exact hexpansion

end Stencil
