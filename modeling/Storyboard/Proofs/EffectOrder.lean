/-
Storyboard/Proofs/EffectOrder.lean

The order of effect definitions does not matter, and effects that nobody plays
are inert.

Building effects goes from left to right, and which fault is reported depends on
the order.  Whether there is a fault does not (`EffectsFine.perm`), and a sprite
uses the table of effects only to look names up.  Names are distinct, so a lookup
finds the definition of that name wherever it stands and whatever stands beside
it.  Hence a document keeps its board when its effects are replaced by any fine
definitions that include them (`Document.outcome_evaluate_of_subset`); both
halves of the main result are cases of this.

Main result: `effects_commute_and_unused_are_inert`.
-/
import Storyboard.EventsText
import Storyboard.Proofs.Evaluation

namespace Storyboard

/-! ### Fine definitions -/

namespace EffectsFine

variable {defs extra : List EffectScript}

/-- Whether definitions are fine does not depend on their order. -/
theorem perm (h : EffectsFine defs) {other : List EffectScript} (hperm : defs.Perm other) :
    EffectsFine other where
  named := fun d hd => h.named d (hperm.mem_iff.mpr hd)
  distinct := (hperm.map EffectScript.name).nodup_iff.mp h.distinct
  shared := fun d hd => h.shared d (hperm.mem_iff.mpr hd)

/-- Fine definitions may be added to others whose names they do not take. -/
theorem append (h : EffectsFine defs) (hextra : EffectsFine extra)
    (hfresh : ∀ d ∈ extra, d.name ∉ defs.map EffectScript.name) :
    EffectsFine (defs ++ extra) where
  named := by
    intro d hd
    rcases List.mem_append.mp hd with hd | hd
    · exact h.named d hd
    · exact hextra.named d hd
  distinct := by
    rw [List.map_append]
    refine h.distinct.append hextra.distinct ?_
    intro name hold hnew
    obtain ⟨d, hd, rfl⟩ := List.mem_map.mp hnew
    exact hfresh d hd hold
  shared := by
    intro d hd
    rcases List.mem_append.mp hd with hd | hd
    · exact h.shared d hd
    · exact hextra.shared d hd

end EffectsFine

/-! ### Sprites only look names up -/

/-- A call stands for the same edit in two tables that agree on the name that it plays. -/
theorem Call.edit?_congr {table other : EffectTable} {c : Call}
    (h : ∀ name count, c = .applyEffect name count → table.lookup name = other.lookup name) :
    c.edit? table = c.edit? other := by
  cases c with
  | act a => rfl
  | setLayer layer => rfl
  | applyEffect name count => rw [edit?, edit?, h name count rfl]

/-- A definition builds the same sprite with two tables that agree on these names, if it
plays no others. -/
theorem SpriteScript.built_congr {table other : EffectTable} {names : List String}
    (h : ∀ name ∈ names, table.lookup name = other.lookup name) {d : SpriteScript}
    (hd : CallsDefined names d.calls) : d.built table = d.built other := by
  have hedits : d.calls.filterMap (Call.edit? table) = d.calls.filterMap (Call.edit? other) := by
    refine List.filterMap_congr fun c hc => Call.edit?_congr ?_
    rintro name count rfl
    exact h name (hd name count hc)
  rw [built, built, hedits]

/-- Where names are distinct, a name leads to the same effect in any other fine definitions
that include these. -/
theorem EffectTable.lookup_ofScripts_of_subset {defs other : List EffectScript}
    (h : EffectsFine defs) (hother : EffectsFine other) (hsubset : defs ⊆ other) {name : String}
    (hname : name ∈ defs.map EffectScript.name) :
    (ofScripts defs).lookup name = (ofScripts other).lookup name := by
  obtain ⟨d, hd, rfl⟩ := List.mem_map.mp hname
  rw [lookup_ofScripts h.distinct hd, lookup_ofScripts hother.distinct (hsubset hd)]

/-! ### Documents -/

namespace Document

/-- A document that evaluates keeps its board when its effects are replaced by fine
definitions that include them. -/
theorem outcome_evaluate_of_subset {d d' : Document} {b : Board}
    (h : d.evaluate.outcome = .ok b) (hsprites : d'.sprites = d.sprites)
    (heffects : EffectsFine d'.effects) (hsubset : d.effects ⊆ d'.effects) :
    d'.evaluate.outcome = .ok b := by
  obtain ⟨hfine, hlist⟩ := outcome_evaluate_eq_ok_iff.mp h
  refine outcome_evaluate_eq_ok_iff.mpr ⟨⟨heffects, ?_⟩, ?_⟩
  · -- the names that sprites play are still defined
    intro s hs name count hcall
    rw [hsprites] at hs
    exact List.map_subset EffectScript.name hsubset (hfine.2 s hs name count hcall)
  · rw [hlist, hsprites]
    refine List.map_congr_left fun s hs => SpriteScript.built_congr ?_ (hfine.2 s hs)
    intro name hname
    exact EffectTable.lookup_ofScripts_of_subset hfine.1 heffects hsubset hname

/-- A document that evaluates keeps its board when its effects are put into another order. -/
theorem outcome_evaluate_of_perm {d d' : Document} {b : Board} (h : d.evaluate.outcome = .ok b)
    (hsprites : d'.sprites = d.sprites) (hperm : d.effects.Perm d'.effects) :
    d'.evaluate.outcome = .ok b :=
  outcome_evaluate_of_subset h hsprites ((outcome_evaluate_eq_ok_iff.mp h).1.1.perm hperm) hperm.subset

/-! ### The theorem -/

/-- **The order of effects does not matter, and unused effects are inert.**  Two lists of
documents whose merges have the same sprites, and the same effects in any two orders, both
evaluate or both fail; if they evaluate, they have one board and one text.  A document that
evaluates keeps its board when fine definitions with fresh names are added to its effects,
at any places. -/
theorem effects_commute_and_unused_are_inert :
    (∀ docs docs' : List Document, (merge docs).sprites = (merge docs').sprites →
      (merge docs).effects.Perm (merge docs').effects →
      ((∃ b, (merge docs).evaluate.outcome = .ok b) ↔
        ∃ b, (merge docs').evaluate.outcome = .ok b) ∧
      ∀ b b', (merge docs).evaluate.outcome = .ok b → (merge docs').evaluate.outcome = .ok b' →
        b = b' ∧ ∀ ending, b.render ending = b'.render ending) ∧
    ∀ (d : Document) (b : Board) (extra effects : List EffectScript),
      d.evaluate.outcome = .ok b → EffectsFine extra → (∀ e ∈ extra, e.name ∉ d.effectNames) →
      effects.Perm (d.effects ++ extra) →
      ({ d with effects := effects } : Document).evaluate.outcome = .ok b := by
  constructor
  · intro docs docs' hsprites hperm
    have hforth : ∀ b, (merge docs).evaluate.outcome = .ok b →
        (merge docs').evaluate.outcome = .ok b :=
      fun b hb => outcome_evaluate_of_perm hb hsprites.symm hperm
    have hback : ∀ b, (merge docs').evaluate.outcome = .ok b →
        (merge docs).evaluate.outcome = .ok b :=
      fun b hb => outcome_evaluate_of_perm hb hsprites hperm.symm
    refine ⟨⟨fun ⟨b, hb⟩ => ⟨b, hforth b hb⟩, fun ⟨b, hb⟩ => ⟨b, hback b hb⟩⟩, ?_⟩
    intro b b' hb hb'
    obtain rfl : b = b' := Except.ok.inj ((hforth b hb).symm.trans hb')
    exact ⟨rfl, fun _ => rfl⟩
  · intro d b extra effects hb hextra hfresh hperm
    have hfine : EffectsFine (d.effects ++ extra) :=
      (outcome_evaluate_eq_ok_iff.mp hb).1.1.append hextra hfresh
    refine outcome_evaluate_of_subset hb rfl (hfine.perm hperm.symm) ?_
    intro e he
    exact hperm.mem_iff.mpr (List.mem_append_left extra he)

/-- Two libraries change places, and an effect that no sprite plays is put before both. -/
theorem effects_commute_of_two_libraries :
    let glow : EffectScript := { name := "glow", calls := [.act (.sleep (.clamp 5))] }
    let spin : EffectScript := { name := "spin", calls := [.act (.bracket (.startLoop 2))] }
    let idle : EffectScript := { name := "idle", calls := [.act (.bracket .endBatch)] }
    let script : Document :=
      { sprites :=
          [{ placement := { image := "a.png" }
             calls := [.applyEffect "spin" 2, .applyEffect "glow" 3] }] }
    let docs : List Document := [{ effects := [glow] }, { effects := [spin] }, script]
    let docs' : List Document := [{ effects := [spin] }, { effects := [glow] }, script]
    let padded : Document := { merge docs with effects := [idle, glow, spin] }
    ∃ b, b.recordCount = 4 ∧ (merge docs).evaluate.outcome = .ok b ∧
      (merge docs').evaluate.outcome = .ok b ∧ padded.evaluate.outcome = .ok b := by
  intro glow spin idle script docs docs' padded
  have hcount : (merge docs).evaluate.outcome.toOption.map Board.recordCount = some 4 := by
    decide
  obtain ⟨b, hb⟩ : ∃ b, (merge docs).evaluate.outcome = .ok b := by
    cases h : (merge docs).evaluate.outcome with
    | error e =>
      rw [h] at hcount
      cases hcount
    | ok b => exact ⟨b, rfl⟩
  rw [hb] at hcount
  have hperm : (merge docs).effects.Perm (merge docs').effects := .swap spin glow []
  obtain ⟨hsucceeds, hsame⟩ := effects_commute_and_unused_are_inert.1 docs docs' rfl hperm
  obtain ⟨b', hb'⟩ := hsucceeds.mp ⟨b, hb⟩
  obtain rfl : b = b' := (hsame b b' hb hb').1
  have hidle : EffectsFine [idle] :=
    { named := by decide
      distinct := by decide
      shared := by simp [idle, Call.SpriteOnly] }
  have hfresh : ∀ e ∈ [idle], e.name ∉ (merge docs).effectNames := by decide
  have hplaces : [idle, glow, spin].Perm ((merge docs).effects ++ [idle]) := by decide
  exact ⟨b, Option.some.inj hcount, hb, hb',
    effects_commute_and_unused_are_inert.2 (merge docs) b [idle] _ hb hidle hfresh hplaces⟩

end Document

end Storyboard
