import Stencil.Proofs.Inclusion.Graph
import Stencil.Proofs.Table

/-!
# How flattening ends

The files that are met while a template is flattened are files that the template reaches. As long as
they have different names:

* `Sources.Met`: every text that is kept under a name is that of the file of the name, and every file
  but the template was read, once.
* `Sources.expand_ends`: expanding a file keeps to that. It ends with all files met that the file
  reaches, or it fails at a file that is being flattened already or that cannot be read. It never
  runs out of levels, since the files that include each other are different ones.
* `Sources.flattened_ends`: so does flattening a template.
-/

namespace Stencil

namespace Sources

/-! ## What is met -/

/-- Files are read because the template includes them; none is read twice, and the template never. -/
structure ReadOnce (src : Sources) (reads : List Path) : Prop where
  dependsOn : ∀ p ∈ reads, src.DependsOn p
  nodup : (reads.map src.name).Nodup
  not_root : src.name src.root ∉ reads.map src.name

/-- What is met while the template is flattened. -/
structure Met (src : Sources) (c : Closure) : Prop where
  files : ∀ name text, c.files.get? name = some text →
    ∃ p, src.Reaches p ∧ src.name p = name ∧ src.text? p = some text
  known : ∀ name, c.files.contains name = true ↔
    name = src.name src.root ∨ name ∈ c.reads.map src.name
  includes : ∀ e ∈ c.includes.entries, c.files.contains e.1 = true ∧
    ∃ p, src.Reaches p ∧ src.name p = e.1 ∧ e.2 = ((src.targets p).map Target.file).eraseDups
  reads : src.ReadOnce c.reads

/-- More is met. -/
structure Grows (c c' : Closure) : Prop where
  files : c.files.Extends c'.files
  includes : ∀ name, c.includes.contains name = true → c'.includes.contains name = true

theorem Grows.refl (c : Closure) : Grows c c := ⟨.refl _, fun _ h => h⟩

theorem Grows.trans {c₁ c₂ c₃ : Closure} (h : Grows c₁ c₂) (h' : Grows c₂ c₃) : Grows c₁ c₃ :=
  ⟨h.files.trans h'.files, fun name hname => h'.includes name (h.includes name hname)⟩

/-- The error shows files that include each other, from the template on to one that was passed. -/
def Circular (src : Sources) (err : Error) : Prop :=
  ∃ active last context, err = ⟨.cyclicInclusion ((active ++ [last]).map src.name), some context⟩ ∧
    src.IsTrail (active ++ [last]) ∧ last ∈ active ∧ active.Nodup

/-- The error is about a file that the template includes and that cannot be read. -/
def Unreadable (src : Sources) (err : Error) : Prop :=
  ∃ p, src.DependsOn p ∧ src.text? p = none ∧
    ∃ kind target reason, src.store.load p = .error reason ∧
      err.cause = .unresolved kind target reason

/-- How flattening may fail. -/
structure Fails (src : Sources) (err : Error) (c : Closure) : Prop where
  cause : src.Circular err ∨ src.Unreadable err
  reads : src.ReadOnce c.reads

variable {src : Sources} {p q : Path} {ps : List Path} {c : Closure}

/-- A file that is kept under its name has its own text there. -/
theorem Met.own (hdistinct : src.Distinct) (h : src.Met c) (hp : src.Reaches p)
    (hthere : c.files.contains (src.name p) = true) :
    ∃ text, c.files.get? (src.name p) = some text ∧ src.text? p = some text := by
  obtain ⟨text, htext⟩ := Option.isSome_iff_exists.1 hthere
  obtain ⟨q, hq, hname, hown⟩ := h.files _ _ htext
  obtain rfl := hdistinct q p hq hp hname
  exact ⟨text, htext, hown⟩

/-! ## Reading -/

/-- What is read for a file that the template reaches was not read before. -/
theorem ReadOnce.append (hmet : src.Met c) (hp : src.Reaches p) :
    src.ReadOnce (c.reads ++ (Flattener.missing (src.targets p) c.files).map Target.path) := by
  have hfile : ∀ t ∈ Flattener.missing (src.targets p) c.files, t.file = src.name t.path :=
    fun t ht => file_of_mem_targets (Flattener.mem_missing ht).1
  have hnames : ((Flattener.missing (src.targets p) c.files).map Target.path).map src.name =
      (Flattener.missing (src.targets p) c.files).map Target.file := by
    rw [List.map_map]
    exact List.map_congr_left fun t ht => (hfile t ht).symm
  have hnew : ∀ name ∈ (Flattener.missing (src.targets p) c.files).map Target.file,
      ¬ (name = src.name src.root ∨ name ∈ c.reads.map src.name) := by
    intro name hname
    obtain ⟨t, ht, rfl⟩ := List.mem_map.1 hname
    rw [← hmet.known, Table.contains, (Flattener.mem_missing ht).2]
    simp
  have hdistinct := (pairwise_eraseDupsBy Target.file
    ((src.targets p).filter fun t => !c.files.contains t.file)).1
  refine ⟨fun q hq => ?_, ?_, ?_⟩
  · rcases List.mem_append.1 hq with hq | hq
    · exact hmet.reads.dependsOn q hq
    · obtain ⟨t, ht, rfl⟩ := List.mem_map.1 hq
      exact hp.dependsOn (includes_of_mem (Flattener.mem_missing ht).1)
  · rw [List.map_append, hnames]
    refine List.nodup_append.2 ⟨hmet.reads.nodup, hdistinct.map _ fun _ _ hne => hne, ?_⟩
    rintro a ha b hb rfl
    exact hnew a hb (.inr ha)
  · rw [List.map_append, hnames, List.mem_append, not_or]
    exact ⟨hmet.reads.not_root, fun hroot => hnew _ hroot (.inl rfl)⟩

/-- The template is not read. -/
theorem Met.ne_root {t : Target} (hmet : src.Met c)
    (ht : t ∈ Flattener.missing (src.targets p) c.files) : t.path ≠ src.root := by
  intro hroot
  obtain ⟨ht, hnone⟩ := Flattener.mem_missing ht
  have hknown := (hmet.known t.file).2 (.inl (by rw [file_of_mem_targets ht, hroot]))
  rw [Table.contains, hnone] at hknown
  cases hknown

theorem Met.fetched {c' : Closure} (hmet : src.Met c) (hp : src.Reaches p)
    (h : src.flattener.Fetched (src.targets p) c c') : src.Met c' where
  files name text hname := by
    rcases h.new name text hname with hold | ⟨t, ht, rfl, hload⟩
    · exact hmet.files name text hold
    · have htarget := (Flattener.mem_missing ht).1
      exact ⟨t.path, hp.next (includes_of_mem htarget), (file_of_mem_targets htarget).symm,
        text?_of_load (hmet.ne_root ht) hload⟩
  known name := by
    have hfile : ∀ t ∈ Flattener.missing (src.targets p) c.files, src.name t.path = t.file :=
      fun t ht => (file_of_mem_targets (Flattener.mem_missing ht).1).symm
    rw [h.reads, List.map_append, List.mem_append, ← or_assoc, ← hmet.known]
    constructor
    · intro hthere
      obtain ⟨text, htext⟩ := Option.isSome_iff_exists.1 hthere
      rcases h.new name text htext with hold | ⟨t, ht, rfl, _⟩
      · exact .inl (Option.isSome_iff_exists.2 ⟨text, hold⟩)
      · refine .inr (List.mem_map.2 ⟨t.path, List.mem_map_of_mem ht, hfile t ht⟩)
    · rintro (hold | hnew)
      · exact h.grown.contains hold
      · obtain ⟨q, hq, rfl⟩ := List.mem_map.1 hnew
        obtain ⟨t, ht, rfl⟩ := List.mem_map.1 hq
        rw [hfile t ht]
        exact h.there t (Flattener.mem_missing ht).1
  includes e he := by
    rw [h.includes] at he
    obtain ⟨hthere, hnames⟩ := hmet.includes e he
    exact ⟨h.grown.contains hthere, hnames⟩
  reads := by
    rw [h.reads]
    exact .append hmet hp

theorem Met.included (hmet : src.Met c) (hp : src.Reaches p)
    (hthere : c.files.contains (src.name p) = true) :
    src.Met { c with includes :=
      c.includes.insertNew (src.name p) ((src.targets p).map Target.file).eraseDups } where
  files := hmet.files
  known := hmet.known
  includes e he := by
    unfold Table.insertNew at he
    split at he
    · exact hmet.includes e he
    · rcases Table.mem_insert he with rfl | he
      · exact ⟨hthere, p, hp, rfl, rfl⟩
      · exact hmet.includes e he
  reads := hmet.reads

/-- Before the segments of a file are expanded, the files are there that it names. -/
theorem enter_ends {text : String} (hmet : src.Met c) (hp : src.Reaches p)
    (hthere : c.files.contains (src.name p) = true) (htext : src.text? p = some text) :
    Resolving.Ends
      (fun _ c' => src.Met c' ∧ Grows c c' ∧ c'.includes.contains (src.name p) = true ∧
        ∀ t ∈ src.targets p, c'.files.contains t.file = true)
      src.Fails (src.flattener.enter (src.name p) p text c) := by
  unfold Flattener.enter
  rw [← targets_eq htext]
  refine .bind (Flattener.fetch_ends.mono (fun _ c₁ h => .ok ?_) fun err c₁ h => ?_)
  · refine ⟨(hmet.fetched hp h).included hp (h.grown.contains hthere), ⟨h.grown, ?_⟩, ?_, h.there⟩
    · intro name hname
      rw [← h.includes] at hname
      exact Table.contains_insertNew.2 (.inr hname)
    · exact Table.contains_insertNew.2 (.inl rfl)
  · obtain ⟨⟨t, ht, reason, hload, hcause⟩, hreads⟩ := h
    have htarget := (Flattener.mem_missing ht).1
    change src.store.load t.path = _ at hload
    have hnone : src.text? t.path = none := by
      rw [text?, if_neg (hmet.ne_root ht), hload]
      rfl
    have hunreadable : src.Unreadable err :=
      ⟨t.path, hp.dependsOn (includes_of_mem htarget), hnone, _, _, reason, hload, hcause⟩
    exact ⟨.inr hunreadable, hreads ▸ .append hmet hp⟩

/-! ## Expanding -/

/-- All is met that a file reaches. -/
structure Done (src : Sources) (p : Path) (c c' : Closure) : Prop where
  met : src.Met c'
  grows : Grows c c'
  includes : ∀ q, Relation.ReflTransGen src.Includes p q → c'.includes.contains (src.name q) = true

/-- With so many levels left, the last file of a trail is expanded until all is met that it reaches,
or until something is found that is wrong with the files. -/
def Resolves (src : Sources) (fuel : Nat) : Prop :=
  ∀ ps p c, src.store.files.length + 1 ≤ fuel + ps.length → src.IsTrail (ps ++ [p]) →
    (ps ++ [p]).Nodup → (∀ q ∈ ps ++ [p], c.files.contains (src.name q) = true) → src.Met c →
    Resolving.Ends (fun _ => src.Done p c) src.Fails
      (src.flattener.expand fuel ((ps ++ [p]).map src.name) (src.name p) p c)

/-- A directive is replaced, unless it names a file of the trail. -/
theorem expandSegment_ends {fuel : Nat} {d : Directive} (hdistinct : src.Distinct)
    (ih : src.Resolves fuel) (hfuel : src.store.files.length + 1 ≤ fuel + 1 + ps.length)
    (htrail : src.IsTrail (ps ++ [p])) (hnodup : (ps ++ [p]).Nodup)
    (hknown : ∀ q ∈ ps ++ [p], c.files.contains (src.name q) = true) (hmet : src.Met c)
    (hd : src.place.folders.target p d ∈ src.targets p)
    (hthere : c.files.contains (src.place.folders.target p d).file = true) :
    Resolving.Ends (fun _ => src.Done (src.place.folders.target p d).path c) src.Fails
      (src.flattener.expandSegment fuel ((ps ++ [p]).map src.name) (src.name p) p
        (.directive d) c) := by
  rw [Flattener.expandSegment_directive]
  change src.flattener.folders.target p d ∈ _ at hd
  change c.files.contains (src.flattener.folders.target p d).file = true at hthere
  change Resolving.Ends (fun _ => src.Done (src.flattener.folders.target p d).path c) _ _
  generalize src.flattener.folders.target p d = t at hd hthere ⊢
  have hnext := htrail.next (includes_of_mem hd)
  rw [file_of_mem_targets hd] at hthere ⊢
  have hchain : (ps ++ [p]).map src.name ++ [src.name t.path] =
      (ps ++ [p] ++ [t.path]).map src.name := by
    simp only [List.map_append, List.map_singleton]
  rw [hchain]
  split
  · next hactive =>
    -- the names of the trail and of the target tell apart the files
    obtain ⟨q, hq, hname⟩ := List.mem_map.1 (List.contains_iff_mem.1 hactive)
    obtain rfl := hdistinct q t.path (htrail.reaches q hq) (hnext.reaches _ (by simp)) hname
    exact .error ⟨.inl ⟨_, t.path, _, rfl, hnext, hq, hnodup⟩, hmet.reads⟩
  · next hactive =>
    have hnew : t.path ∉ ps ++ [p] := fun hmem =>
      hactive (List.contains_iff_mem.2 (List.mem_map_of_mem hmem))
    have hnodup' : (ps ++ [p] ++ [t.path]).Nodup :=
      List.nodup_append.2 ⟨hnodup, by simp, by
        rintro a ha b hb rfl
        exact hnew (List.mem_singleton.1 hb ▸ ha)⟩
    refine .bind ((ih (ps ++ [p]) t.path c ?_ hnext hnodup' ?_ hmet).mono (fun _ _ h => .ok h)
      fun _ _ h => h)
    · rw [List.length_append, List.length_singleton]
      omega
    · intro q hq
      rcases List.mem_append.1 hq with hq | hq
      · exact hknown q hq
      · rwa [List.mem_singleton.1 hq]

/-- What is met while some segments of a file are replaced. -/
theorem mapM_expandSegment_ends {fuel : Nat} (hdistinct : src.Distinct) (ih : src.Resolves fuel)
    (hfuel : src.store.files.length + 1 ≤ fuel + 1 + ps.length)
    (htrail : src.IsTrail (ps ++ [p])) (hnodup : (ps ++ [p]).Nodup) {rest : List Segment}
    (hknown : ∀ q ∈ ps ++ [p], c.files.contains (src.name q) = true) (hmet : src.Met c)
    (hrest : ∀ d, .directive d ∈ rest → src.place.folders.target p d ∈ src.targets p ∧
      c.files.contains (src.place.folders.target p d).file = true) :
    Resolving.Ends
      (fun _ c' => src.Met c' ∧ Grows c c' ∧ ∀ d, .directive d ∈ rest →
        ∀ q, Relation.ReflTransGen src.Includes (src.place.folders.target p d).path q →
          c'.includes.contains (src.name q) = true)
      src.Fails
      (rest.mapM (src.flattener.expandSegment fuel ((ps ++ [p]).map src.name) (src.name p) p)
        c) := by
  induction rest generalizing c with
  | nil => exact .ok ⟨hmet, .refl c, fun d hd => absurd hd List.not_mem_nil⟩
  | cons segment rest ihrest =>
    rw [List.mapM_cons]
    have hbehind : ∀ {c₁}, src.Met c₁ → Grows c c₁ → _ := fun {c₁} hmet₁ hgrows =>
      ihrest (c := c₁) (fun q hq => hgrows.files.contains (hknown q hq)) hmet₁ fun d hd =>
        ⟨(hrest d (List.mem_cons_of_mem _ hd)).1,
          hgrows.files.contains (hrest d (List.mem_cons_of_mem _ hd)).2⟩
    cases segment with
    | text cs =>
      have hends := hbehind hmet (.refl c)
      refine .bind (.ok (.bind (hends.mono (fun _ c' h => .ok ?_) fun _ _ h => h)))
      refine ⟨h.1, h.2.1, fun d hd => h.2.2 d ?_⟩
      simpa using hd
    | directive d =>
      obtain ⟨htarget, hthere⟩ := hrest d List.mem_cons_self
      refine .bind ((expandSegment_ends hdistinct ih hfuel htrail hnodup hknown hmet htarget
        hthere).mono (fun _ c₁ h₁ => ?_) fun _ _ h => h)
      refine .bind ((hbehind h₁.met h₁.grows).mono (fun _ c' h => .ok ?_) fun _ _ h => h)
      refine ⟨h.1, h₁.grows.trans h.2.1, fun d' hd' q hq => ?_⟩
      rcases List.mem_cons.1 hd' with heq | hd'
      · cases heq
        exact h.2.1.includes _ (h₁.includes q hq)
      · exact h.2.2 d' hd' q hq

theorem expand_ends (hdistinct : src.Distinct) (fuel : Nat) : src.Resolves fuel := by
  induction fuel with
  | zero =>
    -- the files of the trail are different ones, and there are not so many
    intro ps p c hfuel htrail hnodup hknown hmet
    refine absurd (length_le_of_isTrail htrail hnodup fun q hq => ?_) ?_
    · obtain ⟨text, _, htext⟩ := hmet.own hdistinct (htrail.reaches q hq) (hknown q hq)
      rw [htext]
      rfl
    · rw [List.length_append, List.length_singleton]
      omega
  | succ fuel ih =>
    intro ps p c hfuel htrail hnodup hknown hmet
    have hp := htrail.reaches p (by simp)
    obtain ⟨text, hkept, htext⟩ := hmet.own hdistinct hp (hknown p (by simp))
    rw [Flattener.expand_succ, hkept, Option.getD_some]
    refine .bind ((enter_ends hmet hp (hknown p (by simp)) htext).mono (fun _ c₁ h₁ => ?_)
      fun _ _ h => h)
    obtain ⟨hmet₁, hgrows₁, hincluded, hthere⟩ := h₁
    have htarget : ∀ d, .directive d ∈ segments text.toList →
        src.place.folders.target p d ∈ src.targets p := fun d hd => by
      rw [targets_eq htext]
      exact Flattener.mem_targets (e := src.flattener) hd
    refine .bind ((mapM_expandSegment_ends hdistinct ih hfuel htrail hnodup
      (fun q hq => hgrows₁.files.contains (hknown q hq)) hmet₁ fun d hd =>
        ⟨htarget d hd, hthere _ (htarget d hd)⟩).mono (fun _ c₂ h₂ => .ok ?_) fun _ _ h => h)
    obtain ⟨hmet₂, hgrows₂, hbelow⟩ := h₂
    refine ⟨hmet₂, hgrows₁.trans hgrows₂, fun q hq => ?_⟩
    rcases Relation.ReflTransGen.cases_head hq with rfl | ⟨q', ⟨t, ht, rfl⟩, hq⟩
    · exact hgrows₂.includes _ hincluded
    · rw [targets_eq htext] at ht
      obtain ⟨d, hd, rfl⟩ := List.mem_map.1 ht
      obtain ⟨segment, hsegment, hd⟩ := List.mem_filterMap.1 hd
      cases segment with
      | text cs => cases hd
      | directive d' =>
        obtain rfl := Option.some.inj hd
        exact hbelow d' hsegment q hq

/-! ## Flattening -/

/-- What is known before the template is expanded. -/
def start (src : Sources) : Closure := { files := Table.insert {} (src.name src.root) src.text }

theorem met_start : src.Met src.start where
  files name text h := by
    change (Table.insert _ _ _).get? _ = _ at h
    rw [Table.get?_insert] at h
    split at h
    · next heq =>
      obtain rfl := Option.some.inj h
      exact ⟨src.root, .refl, heq.symm, text?_root⟩
    · cases h
  known name := by
    change (Table.insert _ _ _).contains _ = _ ↔ _
    rw [Table.contains_insert]
    simp [start, Table.contains, Table.get?]
  includes e he := absurd he List.not_mem_nil
  reads := ⟨fun p hp => absurd hp List.not_mem_nil, List.nodup_nil, List.not_mem_nil⟩

/-- What comes of flattening the template on at most so many levels. -/
def flattenedWithin (src : Sources) (levels : Nat) : EStateM.Result Error Closure Flattened :=
  (do
    let flat ← src.flattener.expand levels [src.name src.root] (src.name src.root) src.root
    let c ← get
    return ⟨.ofList flat, src.name src.root, c.files, c.includes⟩ : Resolving Flattened) src.start

theorem flattened_eq : src.flattened = src.flattenedWithin (src.store.files.length + 1) := by
  have hmodify : ∀ {f : Unit → Resolving Flattened} {g : Closure → Closure},
      ((modify g : Resolving Unit) >>= f) {} = f () (g {}) := rfl
  unfold flattened flatten
  rw [hmodify]
  rfl

/-- What is known of a template that is flattened. -/
structure Closed (src : Sources) (f : Flattened) (c : Closure) : Prop where
  done : src.Done src.root src.start c
  root : f.root = src.name src.root
  files : f.files = c.files
  includes : f.includes = c.includes

/-- As many levels are enough as there are files, besides that of the template. -/
theorem flattenedWithin_ends {levels : Nat} (hdistinct : src.Distinct)
    (hlevels : src.store.files.length < levels) :
    Resolving.Ends src.Closed src.Fails (src.flattenedWithin levels) := by
  have hexpand := expand_ends hdistinct levels [] src.root src.start
    (by rw [List.length_nil]; omega) isTrail_root (List.nodup_singleton _)
    (fun q hq => (met_start.known _).2 (.inl (by rw [List.mem_singleton.1 hq]))) met_start
  exact .bind (hexpand.mono (fun _ _ h => .ok ⟨h, rfl, rfl, rfl⟩) fun _ _ h => h)

theorem flattened_ends (hdistinct : src.Distinct) :
    Resolving.Ends src.Closed src.Fails src.flattened := by
  rw [flattened_eq]
  exact flattenedWithin_ends hdistinct (Nat.lt_add_one _)

end Sources

end Stencil
