/-
Storyboard/Proofs/Composition.lean

Evaluation is compositional in the list of sprites.

Sprites are put on one board one after the other and are numbered as they come.  None
looks at the board, so what a definition builds depends on the effects alone, and the
board of a list of sprites is the boards of its parts in order.  A fault stops the run, and
it is reported with the number of its sprite: one that is found in an earlier part is found
at the same place of the whole list, and one in a later part is as many places further on
as there are sprites before that part (`SpriteFault.append`, `SpriteFault.after`).

Main result: `evaluation_is_compositional`.
-/
import Mathlib.Data.List.Forall2
import Storyboard.Proofs.Evaluation

namespace Storyboard

/-! ### Sprites one after the other -/

theorem SpritesDefined.append_iff {names : List String} {as bs : List SpriteScript} :
    SpritesDefined names (as ++ bs) ↔ SpritesDefined names as ∧ SpritesDefined names bs :=
  List.forall_mem_append

namespace SpriteFault

variable {names : List String} {as bs : List SpriteScript} {fault : ScriptFault}

/-- Sprites that follow make no difference to a fault. -/
theorem append (h : SpriteFault names as fault) (bs : List SpriteScript) :
    SpriteFault names (as ++ bs) fault := by
  obtain ⟨rfl, hbefore, hcalls, hearlier, hname⟩ := h
  exact .first (List.append_assoc _ _ _) hbefore hcalls hearlier hname

/-- Sprites without a fault that stand in front are counted. -/
theorem after (has : SpritesDefined names as) (h : SpriteFault names bs fault) :
    ∃ k image name, k < bs.length ∧ fault = .unknownEffect k image name ∧
      SpriteFault names (as ++ bs) (.unknownEffect (as.length + k) image name) := by
  obtain @⟨before, after, d, rfl, hbefore, earlier, later, name, count, hcalls, hearlier, hname⟩ := h
  refine ⟨before.length, d.placement.image, name, ?_, rfl, ?_⟩
  · rw [List.length_append, List.length_cons]
    omega
  · rw [← List.length_append]
    exact .first (List.append_assoc _ _ _).symm (SpritesDefined.append_iff.mpr ⟨has, hbefore⟩)
      hcalls hearlier hname

end SpriteFault

/-! ### Documents with the same effects -/

namespace Document

variable {effects : List EffectScript} {as bs : List SpriteScript}

/-- Two lists of sprites evaluate together if and only if each does on its own, and then the
board of the one follows that of the other. -/
theorem outcome_evaluate_append_iff {whole : Board} :
    (⟨effects, as ++ bs⟩ : Document).evaluate.outcome = .ok whole ↔
      ∃ b c, (⟨effects, as⟩ : Document).evaluate.outcome = .ok b ∧
        (⟨effects, bs⟩ : Document).evaluate.outcome = .ok c ∧
        whole.toList = b.toList ++ c.toList := by
  constructor
  · intro h
    obtain ⟨⟨heffects, hsprites⟩, hlist⟩ := outcome_evaluate_eq_ok_iff.mp h
    obtain ⟨has, hbs⟩ := SpritesDefined.append_iff.mp hsprites
    obtain ⟨b, hb, hblist⟩ := outcome_evaluate_of_fine (d := ⟨effects, as⟩) ⟨heffects, has⟩
    obtain ⟨c, hc, hclist⟩ := outcome_evaluate_of_fine (d := ⟨effects, bs⟩) ⟨heffects, hbs⟩
    refine ⟨b, c, hb, hc, ?_⟩
    rw [hlist, hblist, hclist]
    exact List.map_append
  · rintro ⟨b, c, hb, hc, hlist⟩
    obtain ⟨⟨heffects, has⟩, hblist⟩ := outcome_evaluate_eq_ok_iff.mp hb
    obtain ⟨⟨-, hbs⟩, hclist⟩ := outcome_evaluate_eq_ok_iff.mp hc
    refine outcome_evaluate_eq_ok_iff.mpr
      ⟨⟨heffects, SpritesDefined.append_iff.mpr ⟨has, hbs⟩⟩, ?_⟩
    rw [hlist, hblist, hclist]
    exact List.map_append.symm

theorem outcome_evaluate_append_of_error {failure : Failure}
    (h : (⟨effects, as⟩ : Document).evaluate.outcome = .error failure) (bs : List SpriteScript) :
    (⟨effects, as ++ bs⟩ : Document).evaluate.outcome = .error failure := by
  obtain ⟨fault, rfl, hfault⟩ := outcome_evaluate_eq_error_iff.mp h
  refine outcome_evaluate_of_firstFault ?_
  cases hfault with
  | effect heffect => exact .effect heffect
  | sprite heffects hsprite => exact .sprite heffects (hsprite.append bs)

theorem outcome_evaluate_append_of_later_error {b : Board} {failure : Failure}
    (hb : (⟨effects, as⟩ : Document).evaluate.outcome = .ok b)
    (h : (⟨effects, bs⟩ : Document).evaluate.outcome = .error failure) :
    ∃ k image name, k < bs.length ∧ failure = .evaluation (.unknownEffect k image name) ∧
      (⟨effects, as ++ bs⟩ : Document).evaluate.outcome =
        .error (.evaluation (.unknownEffect (as.length + k) image name)) := by
  obtain ⟨⟨heffects, has⟩, -⟩ := outcome_evaluate_eq_ok_iff.mp hb
  obtain ⟨fault, rfl, hfault⟩ := outcome_evaluate_eq_error_iff.mp h
  cases hfault with
  | effect heffect =>
    -- the effects of the first document are these, and they were built
    have hfailed := outcome_evaluate_of_firstFault (d := ⟨effects, as⟩) (.effect heffect)
    rw [hb] at hfailed
    cases hfailed
  | sprite _ hsprite =>
    obtain ⟨k, image, name, hk, rfl, hwhole⟩ := hsprite.after has
    exact ⟨k, image, name, hk, rfl, outcome_evaluate_of_firstFault (.sprite heffects hwhole)⟩

/-- The sprites of several documents evaluate together if and only if those of each document
do, and then their boards follow one another. -/
theorem outcome_evaluate_flatMap_iff (heffects : EffectsFine effects) (docs : List Document)
    {whole : Board} :
    (⟨effects, docs.flatMap sprites⟩ : Document).evaluate.outcome = .ok whole ↔
      ∃ boards, List.Forall₂
        (fun d b => (⟨effects, d.sprites⟩ : Document).evaluate.outcome = .ok b) docs boards ∧
        whole.toList = boards.flatMap Board.toList := by
  induction docs generalizing whole with
  | nil =>
    rw [outcome_evaluate_eq_ok_iff]
    constructor
    · rintro ⟨-, hlist⟩
      exact ⟨[], .nil, hlist⟩
    · rintro ⟨boards, hboards, hlist⟩
      cases hboards
      exact ⟨⟨heffects, fun d hd => absurd hd List.not_mem_nil⟩, hlist⟩
  | cons d rest ih =>
    rw [List.flatMap_cons, outcome_evaluate_append_iff]
    constructor
    · rintro ⟨b, c, hb, hc, hlist⟩
      obtain ⟨boards, hboards, hclist⟩ := ih.mp hc
      refine ⟨b :: boards, .cons hb hboards, ?_⟩
      rw [hlist, hclist, List.flatMap_cons]
    · rintro ⟨_, hboards, hlist⟩
      cases hboards with
      | @cons _ b _ boards hb hrest =>
        let joined : Board := ⟨(boards.flatMap Board.toList).toArray⟩
        have hc : (⟨effects, rest.flatMap sprites⟩ : Document).evaluate.outcome = .ok joined :=
          ih.mpr ⟨boards, hrest, rfl⟩
        exact ⟨b, _, hb, hc, hlist⟩

/-! ### The theorem -/

/-- **Evaluation is compositional in the list of sprites.**  Let two lists of sprites play the
same effects.  If both evaluate, so do they together, and the sprites of the first board are
followed by those of the second, each as it was.  If the first fails, they fail together
with the same failure, be it in the effects or in a sprite.  If only the second fails, that is
for the effect that its sprite number `k` plays, and they fail together with the same
failure except that the sprite's number is `k` more than there are sprites in the first list.

So it makes no difference how a script is split into documents: the merge of the parts is
carried out as the script is, and its board is made of the boards of the parts with all
effects. -/
theorem evaluation_is_compositional :
    (∀ (effects : List EffectScript) (as bs : List SpriteScript),
      let first : Document := ⟨effects, as⟩
      let second : Document := ⟨effects, bs⟩
      let both : Document := ⟨effects, as ++ bs⟩
      (∀ b c, first.evaluate.outcome = .ok b → second.evaluate.outcome = .ok c →
        ∃ whole, both.evaluate.outcome = .ok whole ∧ whole.toList = b.toList ++ c.toList) ∧
      (∀ failure, first.evaluate.outcome = .error failure →
        both.evaluate.outcome = .error failure) ∧
      ∀ b failure, first.evaluate.outcome = .ok b → second.evaluate.outcome = .error failure →
        ∃ k image name, k < bs.length ∧ failure = .evaluation (.unknownEffect k image name) ∧
          both.evaluate.outcome =
            .error (.evaluation (.unknownEffect (as.length + k) image name))) ∧
    ∀ (d : Document) (docs : List Document), docs.flatMap Document.effects = d.effects →
      docs.flatMap Document.sprites = d.sprites →
      (merge docs).evaluate = d.evaluate ∧
      ∀ whole, d.evaluate.outcome = .ok whole ↔
        EffectsFine d.effects ∧ ∃ boards, List.Forall₂
          (fun part b => ({ part with effects := d.effects } : Document).evaluate.outcome = .ok b)
          docs boards ∧ whole.toList = boards.flatMap Board.toList := by
  constructor
  · intro effects as bs first second both
    refine ⟨fun b c hb hc => ?_, fun failure h => outcome_evaluate_append_of_error h bs,
      fun b failure hb h => outcome_evaluate_append_of_later_error hb h⟩
    let whole : Board := ⟨(b.toList ++ c.toList).toArray⟩
    exact ⟨whole, outcome_evaluate_append_iff.mpr ⟨b, c, hb, hc, rfl⟩, rfl⟩
  · rintro d docs heffects hsprites
    obtain rfl : merge docs = d := by
      rw [merge, heffects, hsprites]
    refine ⟨rfl, fun whole => ⟨fun h => ?_, fun ⟨hfine, hparts⟩ => ?_⟩⟩
    · have hfine := (outcome_evaluate_eq_ok_iff.mp h).1.1
      exact ⟨hfine, (outcome_evaluate_flatMap_iff hfine docs).mp h⟩
    · exact (outcome_evaluate_flatMap_iff hfine docs).mpr hparts

/-- The second of three sprites, in a part of its own, plays an effect that nobody defined: with
the first one before it, it has another number.  Without it, the script evaluates in two
parts, of which the one brings the effect. -/
theorem evaluation_is_compositional_in_two_parts :
    let glow : EffectScript := { name := "glow", calls := [.act (.sleep (.clamp 5))] }
    let sprite (image effect : String) : SpriteScript :=
      { placement := { image }, calls := [.applyEffect effect 2] }
    let lamp : SpriteScript := sprite "lamp.png" "glow"
    let ghost : SpriteScript := sprite "ghost.png" "gone"
    let library : Document := { effects := [glow], sprites := [lamp] }
    let script : Document := { sprites := [lamp] }
    let split : List Document := [library, script]
    (⟨[glow], [lamp] ++ [lamp, ghost]⟩ : Document).evaluate.outcome =
        .error (.evaluation (.unknownEffect 2 "ghost.png" "gone")) ∧
      (⟨[glow], [ghost] ++ [lamp]⟩ : Document).evaluate.outcome =
        .error (.evaluation (.unknownEffect 0 "ghost.png" "gone")) ∧
      (∃ whole b : Board, (⟨[glow], [lamp] ++ [lamp]⟩ : Document).evaluate.outcome = .ok whole ∧
        whole.toList = b.toList ++ b.toList ∧ b.recordCount = 2) ∧
      (merge split).evaluate = (⟨[glow], [lamp, lamp]⟩ : Document).evaluate := by
  intro glow sprite lamp ghost library script split
  obtain ⟨b, hb, hcount⟩ : ∃ b, (⟨[glow], [lamp]⟩ : Document).evaluate.outcome = .ok b ∧
      b.recordCount = 2 := by
    have hcount : (⟨[glow], [lamp]⟩ : Document).evaluate.outcome.toOption.map
        Board.recordCount = some 2 := by decide
    cases h : (⟨[glow], [lamp]⟩ : Document).evaluate.outcome with
    | error e =>
      rw [h] at hcount
      cases hcount
    | ok b =>
      rw [h] at hcount
      exact ⟨b, rfl, Option.some.inj hcount⟩
  have hfirst : (⟨[glow], [ghost]⟩ : Document).evaluate.outcome =
      .error (.evaluation (.unknownEffect 0 "ghost.png" "gone")) := by
    decide
  have hsecond : (⟨[glow], [lamp, ghost]⟩ : Document).evaluate.outcome =
      .error (.evaluation (.unknownEffect 1 "ghost.png" "gone")) := by
    decide
  obtain ⟨happend, hparts⟩ := evaluation_is_compositional
  obtain ⟨k, image, name, -, hfailure, hlater⟩ :=
    (happend [glow] [lamp] [lamp, ghost]).2.2 b _ hb hsecond
  obtain ⟨rfl, rfl, rfl⟩ := ScriptFault.unknownEffect.inj (Failure.evaluation.inj hfailure)
  obtain ⟨whole, hwhole, hlist⟩ := (happend [glow] [lamp] [lamp]).1 b b hb hb
  exact ⟨hlater, (happend [glow] [ghost] [lamp]).2.1 _ hfirst, ⟨whole, b, hwhole, hlist, hcount⟩,
    (hparts ⟨[glow], [lamp, lamp]⟩ split rfl rfl).1⟩

end Document

end Storyboard
