import Stencil.Proofs.Inclusion.Own

/-!
# Circles are found

A file that includes itself, directly or through others, cannot be flattened. When names tell the
files apart, this is the only thing that is wrong with files that can be read:

* `Sources.flattenedWithin_eq`: flattening comes to an end by itself; more levels than there are files
  make no difference.
* `Sources.flattened_cycles`: flattening fails for a circle exactly if there is one, and it shows files
  that include each other, from the template on to one that was passed.
-/

namespace Stencil

namespace Sources

variable {src : Sources}

/-- Flattening does not run out of levels. -/
theorem not_exhausted {levels : Nat} (hdistinct : src.Distinct)
    (hlevels : src.store.files.length < levels) :
    ¬ Flattener.Exhausted (src.flattenedWithin levels) := by
  rintro ⟨active, c, h⟩
  rcases ((flattenedWithin_ends hdistinct hlevels).of_error h).cause with hcircular | hunreadable
  · obtain ⟨_, _, _, herr, _⟩ := hcircular
    cases herr
  · obtain ⟨_, _, _, _, _, _, _, hcause⟩ := hunreadable
    cases hcause

/-- Any number of levels from that of the files on gives the same. -/
theorem flattenedWithin_eq {levels : Nat} (hdistinct : src.Distinct)
    (hlevels : src.store.files.length < levels) : src.flattenedWithin levels = src.flattened := by
  rw [flattened_eq]
  have hmore := not_exhausted hdistinct (Nat.lt_add_one _)
  unfold flattenedWithin at hmore ⊢
  exact Flattener.bind_more (fun hexpand => Flattener.expand_of_le hlevels hexpand)
    (fun _ _ _ => rfl) hmore

/-- A failure for a circle shows files that include each other, and the last one was passed. -/
theorem isTrail_of_cyclicInclusion {chain : List String} {context : Option String} {c : Closure}
    (hdistinct : src.Distinct)
    (h : src.flattened = .error ⟨.cyclicInclusion chain, context⟩ c) :
    ∃ active last, chain = (active ++ [last]).map src.name ∧ src.IsTrail (active ++ [last]) ∧
      last ∈ active ∧ active.Nodup := by
  rcases ((flattened_ends hdistinct).of_error h).cause with hcircular | hunreadable
  · obtain ⟨active, last, _, herr, htrail, hlast, hnodup⟩ := hcircular
    injection herr with hcause
    injection hcause with hchain
    exact ⟨active, last, hchain, htrail, hlast, hnodup⟩
  · obtain ⟨_, _, _, _, _, _, _, hcause⟩ := hunreadable
    cases hcause

/-- A file that is passed again makes a circle. -/
theorem cyclic_of_cyclicInclusion {chain : List String} {context : Option String} {c : Closure}
    (hdistinct : src.Distinct)
    (h : src.flattened = .error ⟨.cyclicInclusion chain, context⟩ c) : src.Cyclic := by
  obtain ⟨_, _, _, htrail, hlast, _⟩ := isTrail_of_cyclicInclusion hdistinct h
  exact cyclic_of_isTrail htrail hlast

/-- If all files can be read, flattening fails for nothing but a circle. -/
theorem cyclicInclusion_of_complete {err : Error} {c : Closure} (hdistinct : src.Distinct)
    (hcomplete : src.Complete) (h : src.flattened = .error err c) :
    ∃ chain context, err = ⟨.cyclicInclusion chain, context⟩ := by
  rcases ((flattened_ends hdistinct).of_error h).cause with hcircular | hunreadable
  · obtain ⟨_, _, context, rfl, _⟩ := hcircular
    exact ⟨_, some context, rfl⟩
  · obtain ⟨p, hp, hnone, _⟩ := hunreadable
    have hsome := hcomplete p hp.reaches
    rw [hnone] at hsome
    cases hsome

/-- When names tell the files apart, flattening ends, and if all files can be read, it fails exactly
if there is a circle. The failure shows a trail that comes back to one of its files. -/
theorem flattened_cycles (hdistinct : src.Distinct) :
    (∀ levels, src.store.files.length < levels → src.flattenedWithin levels = src.flattened) ∧
    ¬ Flattener.Exhausted src.flattened ∧
    (∀ chain context c, src.flattened = .error ⟨.cyclicInclusion chain, context⟩ c →
      ∃ active last, chain = (active ++ [last]).map src.name ∧ src.IsTrail (active ++ [last]) ∧
        last ∈ active ∧ active.Nodup) ∧
    (src.Complete →
      ((∃ chain context c, src.flattened = .error ⟨.cyclicInclusion chain, context⟩ c) ↔
        src.Cyclic) ∧
      (¬ src.Cyclic → ∃ f c, src.flattened = .ok f c)) := by
  refine ⟨fun levels hlevels => flattenedWithin_eq hdistinct hlevels, ?_,
    fun chain context c h => isTrail_of_cyclicInclusion hdistinct h, fun hcomplete => ⟨⟨?_, ?_⟩, ?_⟩⟩
  · rw [flattened_eq]
    exact not_exhausted hdistinct (Nat.lt_add_one _)
  · rintro ⟨chain, context, c, h⟩
    exact cyclic_of_cyclicInclusion hdistinct h
  · intro hcyclic
    cases h : src.flattened with
    | ok f c => exact absurd hcyclic (not_cyclic_of_expansion (expansion_of_flattened hdistinct h))
    | error err c =>
      obtain ⟨chain, context, rfl⟩ := cyclicInclusion_of_complete hdistinct hcomplete h
      exact ⟨chain, context, c, rfl⟩
  · intro hacyclic
    cases h : src.flattened with
    | ok f c => exact ⟨f, c, rfl⟩
    | error err c =>
      obtain ⟨chain, context, rfl⟩ := cyclicInclusion_of_complete hdistinct hcomplete h
      exact absurd (cyclic_of_cyclicInclusion hdistinct h) hacyclic

/-- A page that includes a part, which includes itself through another one. -/
def looping : Sources where
  store := ⟨[(⟨"p/nav"⟩, .ok "\x7b% include top %\x7d"), (⟨"p/top"⟩, .ok "\x7b% include nav %\x7d")]⟩
  place := ⟨⟨"p/page"⟩, ⟨"p"⟩, ⟨"p"⟩⟩
  text := "\x7b% include nav %\x7d"

theorem flattened_cycles_looping : looping.Distinct ∧ looping.Complete ∧ looping.Cyclic ∧
    ∃ chain context c, looping.flattened = .error ⟨.cyclicInclusion chain, context⟩ c := by
  have hroot : looping.root ∈ [⟨"p/page"⟩, ⟨"p/nav"⟩, (⟨"p/top"⟩ : Path)] := by decide +kernel
  have hclosed : ∀ p ∈ [⟨"p/page"⟩, ⟨"p/nav"⟩, (⟨"p/top"⟩ : Path)], ∀ t ∈ looping.targets p,
      t.path ∈ [⟨"p/page"⟩, ⟨"p/nav"⟩, (⟨"p/top"⟩ : Path)] := by decide +kernel
  have hdistinct : looping.Distinct := distinct_of_files _ hroot hclosed (by decide +kernel)
  have htexts : ∀ p ∈ [⟨"p/page"⟩, ⟨"p/nav"⟩, (⟨"p/top"⟩ : Path)],
      (looping.text? p).isSome = true := by decide +kernel
  have hcomplete : looping.Complete := fun p hp => htexts p (hp.mem hroot hclosed)
  have hnav : looping.Includes looping.root ⟨"p/nav"⟩ := by decide +kernel
  have htop : looping.Includes ⟨"p/nav"⟩ ⟨"p/top"⟩ := by decide +kernel
  have hback : looping.Includes ⟨"p/top"⟩ ⟨"p/nav"⟩ := by decide +kernel
  have hcyclic : looping.Cyclic := ⟨_, .single hnav, .tail (.single htop) hback⟩
  exact ⟨hdistinct, hcomplete, hcyclic,
    ((flattened_cycles hdistinct).2.2.2 hcomplete).1.2 hcyclic⟩

end Sources

end Stencil
