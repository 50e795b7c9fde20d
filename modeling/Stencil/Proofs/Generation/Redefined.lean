import Stencil.Proofs.Generation.Handled

/-!
# Mixins that are defined again

A definition of a mixin replaces the one that was left behind under its name. The bodies are generated
in the order of the names, each with the definition that is there when its turn comes. A definition
in a body that is generated later replaces it too late for the program.

* `tracks_mixins`: what is left behind under a name is the latest definition that was handled.
* `generateDeferred_mixin`: a mixin of a program was generated in a round of its own.
* `mixin_generated`: a mixin has the final definition exactly if no definition of its name is handled
  from that round on.
-/

namespace Stencil

/-- The token at an index defines a mixin. -/
def DraftEnv.Defines (env : DraftEnv) (name : String) (k : Nat) : Prop :=
  ∃ token, env.token? k = some token ∧ token.defines? = some ("mixin", name)

namespace Generator

variable {g : Generator} {main d last : Draft} {program program' : Program} {name : String}
  {rounds : Nat}

/-- What is left behind under a name is a definition that was handled, or what was there before if none
was. -/
theorem tracks_mixins (hg : g.IsBuiltin) (name : String) (d₀ : Draft) :
    g.Tracks fun before d =>
      ((∀ k ∈ before, ¬ g.env.Defines name k) ∧ d.mixins.get? name = d₀.mixins.get? name) ∨
      ∃ k ∈ before, ∃ tag body, Defers g.env "mixin" k tag name body ∧
        d.mixins.get? name = some body where
  aside {before d d'} haside h := by
    rw [haside.mixins]
    exact h
  step {before d d' token} here hstep h := by
    have hlearns := step_learns (hg.hasBuiltin _) here hstep
    by_cases hname : token.defines? = some ("mixin", name)
    · obtain ⟨tag, body, defers, hmixins⟩ := hlearns.defined name hname
      refine .inr ⟨d.idx, by simp, tag, body, defers, ?_⟩
      rw [hmixins, Table.get?_insert, if_pos rfl]
    · rw [hlearns.get?_mixins hname]
      rcases h with ⟨hnone, hsame⟩ | ⟨k, hk, hbody⟩
      · refine .inl ⟨fun k hk => ?_, hsame⟩
        rcases List.mem_append.1 hk with hk | hk
        · exact hnone k hk
        · obtain rfl := List.mem_singleton.1 hk
          rintro ⟨token', here', hdefines⟩
          obtain rfl := Option.some.inj (here.symm.trans here')
          exact hname hdefines
      · exact .inr ⟨k, List.mem_append_left _ hk, hbody⟩

/-- A mixin of a program was generated in a round of its own. -/
theorem generateDeferred_mixin {mixin : Mixin}
    (hdone : g.generateDeferred rounds main {} = .ok (last, program))
    (hmixin : program.mixins.get? name = some mixin) :
    ∃ n < rounds, ∃ d before body instructions d',
      g.generateDeferred n main {} = .ok (d, before) ∧
      d.mixins.entries[before.mixins.size]? = some (name, body) ∧
      g.generateBody body d = .ok (instructions, d') ∧ mixin = ⟨body.params, instructions⟩ := by
  induction rounds generalizing last program with
  | zero =>
    cases hdone
    cases hmixin
  | succ rounds ih =>
    obtain ⟨d, before, hbefore, hcases⟩ := generateDeferred_last hdone
    have earlier (h : before.mixins.get? name = some mixin) :
        ∃ n < rounds + 1, ∃ d before body instructions d',
          g.generateDeferred n main {} = .ok (d, before) ∧
          d.mixins.entries[before.mixins.size]? = some (name, body) ∧
          g.generateBody body d = .ok (instructions, d') ∧ mixin = ⟨body.params, instructions⟩ := by
      obtain ⟨n, hn, hfound⟩ := ih hbefore h
      exact ⟨n, Nat.lt_succ_of_lt hn, hfound⟩
    obtain ⟨_, rfl, rfl⟩ | hround := hcases
    · exact earlier hmixin
    obtain ⟨body, instructions, _, hbody, ⟨key, hentry, rfl⟩ | ⟨_, key, _, rfl⟩⟩ := round_ok hround
    · rw [Table.get?_insert] at hmixin
      split at hmixin
      · next hname =>
        subst hname
        exact ⟨rounds, Nat.lt_succ_self _, d, before, body, instructions, last, hbefore, hentry,
          hbody, (Option.some.inj hmixin).symm⟩
      · exact earlier hmixin
    · exact earlier hmixin

/-- From some round on, the definition of a mixin stays exactly if none of its name is handled. -/
theorem latest_iff (hg : g.IsBuiltin) {before : Program} {body final : Deferred} {more : Nat}
    (hmain : g.generateMain = .ok main)
    (hnow : g.generateDeferred rounds main {} = .ok (d, before))
    (hbody : d.mixins.get? name = some body)
    (hrest : g.generateDeferred more d before = .ok (last, program))
    (hfinal : last.mixins.get? name = some final) :
    body = final ↔ ∀ k ∈ g.handledLater more d before, ¬ g.env.Defines name k := by
  have hlater := (tracks_mixins hg name d).deferred
    (.inl ⟨fun _ h => absurd h List.not_mem_nil, rfl⟩) hrest
  rw [List.nil_append] at hlater
  rcases hlater with ⟨hnone, hsame⟩ | ⟨k, hk, tag, body', defers, hbody'⟩
  · rw [hsame, hbody] at hfinal
    exact iff_of_true (Option.some.inj hfinal) hnone
  · have hdefines : g.env.Defines name k := by
      refine ⟨.tag tag, defers.here, ?_⟩
      rw [Token.defines?, defers.named, defers.tag_name]
      rfl
    refine iff_of_false ?_ fun hnone => hnone k hk hdefines
    -- The definition that is there in the end was handled later than the one before.
    rintro rfl
    obtain rfl := Option.some.inj (hfinal.symm.trans hbody')
    have hbefore := (tracks_mixins hg name {}).within
      (.inl ⟨fun _ h => absurd h List.not_mem_nil, rfl⟩) hmain hnow
    rcases hbefore with ⟨_, hempty⟩ | ⟨k', hk', tag', body', defers', hbody'⟩
    · rw [hbody] at hempty
      cases hempty
    · obtain rfl := Option.some.inj (hbody.symm.trans hbody')
      obtain rfl : k = k' := Nat.succ.inj (defers.start.symm.trans defers'.start)
      have hnodup := nodup_handledWithin hg (rounds + more)
      rw [handledWithin_add more hmain hnow] at hnodup
      exact (List.nodup_append.1 hnodup).2.2 k hk' k hk rfl

/-- All mixins that were left behind are in the program. -/
theorem generateDeferred_has (hg : g.IsBuiltin) {final : Deferred} (hmain : g.generateMain = .ok main)
    (hlast : g.generateDeferred (g.env.tokens.length + 1) main {} = .ok (last, program))
    (hfinal : last.mixins.get? name = some final) :
    ∃ mixin, program.mixins.get? name = some mixin := by
  obtain ⟨found, hfirst⟩ := (generateMain_outside hg).get hmain
  have hend := (generateDeferred_outside hg hfirst _).get hlast
  have hkeys := (hend.complete (generateDeferred_exhausts hg hmain hlast)).1
  have hthere : last.mixins.contains name = true := by
    rw [Table.contains, hfinal]
    rfl
  exact Option.isSome_iff_exists.1 (Table.contains_iff.2 (hkeys ▸ Table.contains_iff.1 hthere))

end Generator

/-- Every mixin that was left behind is in the program, with the definition that was there when its
turn came. That is the one that is there in the end exactly if no definition of its name is handled
from then on. -/
theorem mixin_generated (tokens : List Token) (files : Files) (positions : Bool) (made : Generated)
    (hmade : generate tokens files .builtin positions = .ok made) :
    ∃ sites, blockSites TagRegistry.builtin.kinds tokens = .ok sites ∧
      let g := builtinGenerator tokens files positions sites
      ∃ main last program, g.generateMain = .ok main ∧
        g.generateDeferred (tokens.length + 1) main {} = .ok (last, program) ∧
        ∀ name final, last.mixins.get? name = some final →
          ∃ rounds d before body instructions d', rounds ≤ tokens.length ∧
            g.generateDeferred rounds main {} = .ok (d, before) ∧
            d.mixins.entries[before.mixins.size]? = some (name, body) ∧
            g.generateBody body d = .ok (instructions, d') ∧
            made.program.mixins.get? name = some ⟨body.params, instructions⟩ ∧
            (body = final ↔ ∀ k ∈ g.handledLater (tokens.length + 1 - rounds) d before,
              ¬ g.env.Defines name k) := by
  obtain ⟨sites, hsites, _⟩ := (generate_settles tokens files positions).get hmade
  let g := builtinGenerator tokens files positions sites
  have hg : g.IsBuiltin := ⟨rfl, rfl⟩
  rw [generate_eq hsites] at hmade
  obtain ⟨main, last, program, hmain, hlast, _, hprogram⟩ := Generator.generate_ok hmade
  refine ⟨sites, hsites, main, last, program, hmain, hlast, fun name final hfinal => ?_⟩
  obtain ⟨found, hfirst⟩ := (Generator.generateMain_outside hg).get hmain
  obtain ⟨mixin, hmixin⟩ := Generator.generateDeferred_has hg hmain hlast hfinal
  obtain ⟨rounds, hrounds, d, before, body, instructions, d', hnow, hentry, hbody, rfl⟩ :=
    Generator.generateDeferred_mixin hlast hmixin
  have hbetween := (Generator.generateDeferred_outside hg hfirst rounds).get hnow
  have hthere : d.mixins.get? name = some body :=
    Table.get?_of_mem hbetween.mixins_nodup (List.mem_of_getElem? hentry)
  have hsplit : g.env.tokens.length + 1 = rounds + (tokens.length + 1 - rounds) :=
    (Nat.add_sub_of_le (Nat.le_of_lt hrounds)).symm
  rw [hsplit, Generator.generateDeferred_add, hnow] at hlast
  refine ⟨rounds, d, before, body, instructions, d', Nat.le_of_lt_succ hrounds, hnow, hentry, hbody,
    ?_, Generator.latest_iff hg hmain hnow hthere hlast hfinal⟩
  rw [hprogram]
  exact hmixin

/-- A mixin that is defined again in the body of another one. -/
def redefinedWithin : List Token :=
  [tagAt 0 "mixin" "a" "\x7b% mixin a %\x7d", .raw "1" ⟨stringFile, 13⟩,
    tagAt 14 "endmixin" "" "\x7b% endmixin %\x7d", tagAt 28 "mixin" "b" "\x7b% mixin b %\x7d",
    tagAt 41 "mixin" "a p" "\x7b% mixin a p %\x7d", .raw "2" ⟨stringFile, 56⟩,
    tagAt 57 "endmixin" "" "\x7b% endmixin %\x7d", tagAt 71 "endmixin" "" "\x7b% endmixin %\x7d",
    tagAt 85 "+a" "" "\x7b% +a %\x7d"]

theorem redefinedWithin_made : ∃ made mixin, generate redefinedWithin {} .builtin false = .ok made ∧
    made.program.mixins.get? "a" = some mixin ∧ mixin.params = [] := by
  have hcomputed : (generate redefinedWithin {} .builtin false).toOption.map
      (fun made => (made.program.mixins.get? "a").map Mixin.params) = some (some []) := by
    decide +kernel
  obtain ⟨made, hmade, hparams⟩ := ok_of_toOption_map hcomputed
  obtain ⟨mixin, hmixin, hparams⟩ := Option.map_eq_some_iff.1 hparams
  exact ⟨made, mixin, hmade, hmixin, hparams⟩

theorem redefinedWithin_last : blockSites TagRegistry.builtin.kinds redefinedWithin = .ok {} ∧
    let g := builtinGenerator redefinedWithin {} false {}
    ∃ main last program final, g.generateMain = .ok main ∧
      g.generateDeferred (redefinedWithin.length + 1) main {} = .ok (last, program) ∧
      last.mixins.get? "a" = some final ∧ final.params = ["p"] := by
  refine ⟨by rfl, ?_⟩
  intro g
  have hcomputed : (g.generateMain >>= fun main => g.generateDeferred 10 main {}).toOption.map
      (fun last => (last.1.mixins.get? "a").map Deferred.params) = some (some ["p"]) := by
    decide +kernel
  obtain ⟨⟨last, program⟩, hlast, hparams⟩ := ok_of_toOption_map hcomputed
  obtain ⟨final, hfinal, hparams⟩ := Option.map_eq_some_iff.1 hparams
  cases hmain : g.generateMain with
  | error e =>
    rw [hmain] at hlast
    cases hlast
  | ok main =>
    rw [hmain] at hlast
    exact ⟨main, last, program, final, rfl, hlast, hfinal, hparams⟩

theorem mixin_generated_redefinedWithin :
    ∃ made, generate redefinedWithin {} .builtin false = .ok made ∧
      let g := builtinGenerator redefinedWithin {} false {}
      ∃ main last program final, g.generateMain = .ok main ∧
        g.generateDeferred (redefinedWithin.length + 1) main {} = .ok (last, program) ∧
        last.mixins.get? "a" = some final ∧
        ∃ rounds d before body instructions d', g.generateDeferred rounds main {} = .ok (d, before) ∧
          g.generateBody body d = .ok (instructions, d') ∧
          made.program.mixins.get? "a" = some ⟨body.params, instructions⟩ ∧
          ∃ k ∈ g.handledLater (redefinedWithin.length + 1 - rounds) d before,
            g.env.Defines "a" k := by
  obtain ⟨made, mixin, hmade, hmixin, hnone⟩ := redefinedWithin_made
  obtain ⟨hsites, main, last, program, final, hmain, hlast, hfinal, hparams⟩ := redefinedWithin_last
  obtain ⟨sites, hsites', main', last', program', hmain', hlast', hgenerated⟩ :=
    mixin_generated redefinedWithin {} false made hmade
  obtain rfl := Except.ok.inj (hsites.symm.trans hsites')
  obtain rfl := Except.ok.inj (hmain.symm.trans hmain')
  obtain ⟨rfl, rfl⟩ := Prod.mk.inj (Except.ok.inj (hlast.symm.trans hlast'))
  obtain ⟨rounds, d, before, body, instructions, d', _, hnow, _, hbody, hprogram, hiff⟩ :=
    hgenerated "a" final hfinal
  refine ⟨made, hmade, main, last, program, final, hmain, hlast, hfinal, rounds, d, before, body,
    instructions, d', hnow, hbody, hprogram, ?_⟩
  -- The parameters tell that the definition is not the final one.
  have hne : body ≠ final := by
    rintro rfl
    rw [hmixin] at hprogram
    obtain rfl := Option.some.inj hprogram
    rw [hparams] at hnone
    cases hnone
  by_contra hlater
  exact hne (hiff.2 fun k hk hdefines => hlater ⟨k, hk, hdefines⟩)

/-- So a definition that is handled last does not always get into the program. -/
theorem mixin_redefinition_lost :
    ∃ made mixin main last program final,
      generate redefinedWithin {} .builtin false = .ok made ∧
      blockSites TagRegistry.builtin.kinds redefinedWithin = .ok {} ∧
      (builtinGenerator redefinedWithin {} false {}).generateMain = .ok main ∧
      (builtinGenerator redefinedWithin {} false {}).generateDeferred
        (redefinedWithin.length + 1) main {} = .ok (last, program) ∧
      last.mixins.get? "a" = some final ∧ made.program.mixins.get? "a" = some mixin ∧
      mixin.params = [] ∧ final.params = ["p"] := by
  obtain ⟨made, mixin, hmade, hmixin, hnone⟩ := redefinedWithin_made
  obtain ⟨hsites, main, last, program, final, hmain, hlast, hfinal, hparams⟩ := redefinedWithin_last
  exact ⟨made, mixin, main, last, program, final, hmade, hsites, hmain, hlast, hfinal, hmixin, hnone,
    hparams⟩

end Stencil
