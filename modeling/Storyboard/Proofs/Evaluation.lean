/-
Storyboard/Proofs/Evaluation.lean

When a document evaluates, and which fault it reports otherwise.

A document is carried out by four repetitions: over its effects, over the calls
of one effect, over its sprites, and over the calls of one sprite.  Each either
comes to its end, and then has built what a plain fold over the data builds, or
stops at the first element that offends.  For each repetition there is one lemma
for either case.  That one of the two always holds is `holds_or_first_lost`: a
property that holds of the empty list holds of the whole list or is lost at a
first element.

What is asked of a document is said without carrying it out: `EffectsFine` and
`CallsDefined`.  `EffectFault` and `Document.FirstFault` say which of the faults
present is reported.

Main result: `Document.evaluates_or_reports_first_fault`.
-/
import Mathlib.Data.List.DropRight
import Mathlib.Data.List.Nodup
import Storyboard.Script.Evaluation

namespace Storyboard

/-! ### First elements -/

/-- A property that holds of the empty list holds of a list, or is first lost at one
of its elements. -/
theorem holds_or_first_lost {α : Type} {P : List α → Prop} (hnil : P []) (as : List α) :
    P as ∨ ∃ before a after, as = before ++ a :: after ∧ P before ∧ ¬ P (before ++ [a]) := by
  induction as generalizing P with
  | nil => exact .inl hnil
  | cons a rest ih =>
    by_cases ha : P [a]
    · -- not lost yet: ask of the rest the same with `a` in front
      rcases ih (P := fun bs => P (a :: bs)) ha with hall | ⟨before, b, after, hrest, hheld, hlost⟩
      · exact .inl hall
      · exact .inr ⟨a :: before, b, after, congrArg (a :: ·) hrest, hheld, hlost⟩
    · exact .inr ⟨[], a, rest, rfl, hnil, ha⟩

namespace Run

variable {α β : Type}

/-- A repetition goes on where an earlier one has come to its end. -/
theorem outcome_foldlM_append {f : β → α → Run β} {as : List α} {b c : β}
    (h : (as.foldlM f b).outcome = .ok c) (bs : List α) :
    ((as ++ bs).foldlM f b).outcome = (bs.foldlM f c).outcome := by
  rw [List.foldlM_append, outcome_bind, h]
  rfl

/-- A repetition ends in the failure of its first step that fails. -/
theorem outcome_foldlM_of_error {f : β → α → Run β} {as : List α} {b c : β}
    (h : (as.foldlM f b).outcome = .ok c) {a : α} {e : Failure}
    (ha : (f c a).outcome = .error e) (bs : List α) :
    ((as ++ a :: bs).foldlM f b).outcome = .error e := by
  rw [outcome_foldlM_append h, List.foldlM_cons, outcome_bind, ha]
  rfl

end Run

/-- Where either all is fine or there is a fault to report, an outcome that follows
both succeeds if all is fine, and fails if there is a fault, and with that. -/
theorem outcome_iff {α : Type} {outcome : Except Failure α} {fine : Prop}
    {Reported : ScriptFault → Prop} (hcases : fine ∨ ∃ fault, Reported fault)
    (hfine : fine → ∃ a, outcome = .ok a)
    (hfault : ∀ fault, Reported fault → outcome = .error (.evaluation fault)) :
    ((∃ a, outcome = .ok a) ↔ fine) ∧
      ∀ failure, outcome = .error failure ↔
        ∃ fault, failure = .evaluation fault ∧ Reported fault := by
  rcases hcases with h | ⟨fault, h⟩
  · obtain ⟨a, ha⟩ := hfine h
    refine ⟨iff_of_true ⟨a, ha⟩ h, fun failure => ?_⟩
    constructor
    · intro hfailed
      rw [ha] at hfailed
      cases hfailed
    · rintro ⟨fault, rfl, hreported⟩
      exact hfault fault hreported
  · have hfailed := hfault fault h
    refine ⟨⟨?_, hfine⟩, fun failure => ?_⟩
    · rintro ⟨a, ha⟩
      rw [hfailed] at ha
      cases ha
    · rw [hfailed]
      constructor
      · intro hsame
        exact ⟨fault, (Except.error.inj hsame).symm, h⟩
      · rintro ⟨other, rfl, hother⟩
        exact hfailed.symm.trans (hfault other hother)

/-! ### Blank names -/

/-- The text without the white space at its ends. -/
def Text.trim (s : String) : String :=
  String.ofList ((s.toList.dropWhile isBlank).rdropWhile isBlank)

theorem Text.trim_eq_empty_iff (s : String) : trim s = "" ↔ allBlank s = true := by
  rw [trim, String.ofList_eq_empty_iff, List.rdropWhile_eq_nil_iff, allBlank, List.all_eq_true]
  constructor
  · intro hrest c hc
    rw [← List.takeWhile_append_dropWhile (p := isBlank) (l := s.toList)] at hc
    rcases List.mem_append.mp hc with hfront | hback
    · exact List.mem_takeWhile_imp hfront
    · exact hrest c hback
  · intro h c hc
    exact h c ((List.dropWhile_sublist isBlank).subset hc)

/-! ### The calls of an effect -/

/-- The call is one that effects do not understand. -/
def Call.SpriteOnly : Call → Prop
  | act _ => False
  | setLayer _ => True
  | applyEffect _ _ => True

/-- The step of an effect that a call stands for. -/
def Call.step? : Call → Option Step
  | act a => some (.act a)
  | setLayer _ => none
  | applyEffect _ _ => none

/-- The effect that the calls of a definition build on their own. -/
def EffectScript.built (d : EffectScript) : Effect :=
  Effect.empty.run (d.calls.filterMap Call.step?)

namespace Effect

theorem outcome_calls_of_shared (name : String) {calls : List Call}
    (h : ∀ c ∈ calls, ¬ c.SpriteOnly) (e : Effect) :
    (calls.foldlM (call name) e).outcome = .ok (e.run (calls.filterMap Call.step?)) := by
  induction calls generalizing e with
  | nil => rfl
  | cons c rest ih =>
    have hrest : ∀ d ∈ rest, ¬ d.SpriteOnly := fun d hd => h d (List.mem_cons_of_mem c hd)
    cases c with
    | act a =>
      have hcall : (call name e (.act a)).outcome = .ok (e.act a) := rfl
      rw [List.foldlM_cons, Run.outcome_bind, hcall]
      exact ih hrest (e.act a)
    | setLayer layer => exact absurd trivial (h _ List.mem_cons_self)
    | applyEffect effect count => exact absurd trivial (h _ List.mem_cons_self)

theorem outcome_call_of_spriteOnly (name : String) (e : Effect) {c : Call} (hc : c.SpriteOnly) :
    (call name e c).outcome = .error (.evaluation (.spriteOnlyCall name c)) := by
  cases c with
  | act a => exact absurd hc id
  | setLayer layer => rfl
  | applyEffect effect count => rfl

theorem outcome_build_of_shared {d : EffectScript} (h : ∀ c ∈ d.calls, ¬ c.SpriteOnly) :
    (build d).outcome = .ok d.built :=
  outcome_calls_of_shared d.name h empty

theorem outcome_build_of_spriteOnly {d : EffectScript} {before after : List Call} {c : Call}
    (hcalls : d.calls = before ++ c :: after) (hbefore : ∀ b ∈ before, ¬ b.SpriteOnly)
    (hc : c.SpriteOnly) :
    (build d).outcome = .error (.evaluation (.spriteOnlyCall d.name c)) := by
  rw [build, hcalls]
  exact Run.outcome_foldlM_of_error (outcome_calls_of_shared d.name hbefore empty)
    (outcome_call_of_spriteOnly d.name _ hc) after

end Effect

/-! ### Effects -/

/-- What definitions of effects have to satisfy together. -/
structure EffectsFine (defs : List EffectScript) : Prop where
  /-- Every name is more than white space. -/
  named : ∀ d ∈ defs, Text.trim d.name ≠ ""
  /-- No name is given twice. -/
  distinct : (defs.map EffectScript.name).Nodup
  /-- Every call is one that effects understand. -/
  shared : ∀ d ∈ defs, ∀ c ∈ d.calls, ¬ c.SpriteOnly

/-- The fault of a definition after others with the names `taken`: a blank name comes
before a name that is taken, and that before the first call for sprites only. -/
inductive EffectScript.Offends (taken : List String) (d : EffectScript) : ScriptFault → Prop
  | blank (hname : Text.trim d.name = "") : Offends taken d .blankEffectName
  | duplicate (hname : Text.trim d.name ≠ "") (htaken : d.name ∈ taken) :
      Offends taken d (.duplicateEffect d.name)
  | spriteOnly (hname : Text.trim d.name ≠ "") (hnew : d.name ∉ taken)
      {before after : List Call} {c : Call} (hcalls : d.calls = before ++ c :: after)
      (hbefore : ∀ b ∈ before, ¬ b.SpriteOnly) (hc : c.SpriteOnly) :
      Offends taken d (.spriteOnlyCall d.name c)

/-- The fault of the first definition that offends. -/
inductive EffectFault (defs : List EffectScript) : ScriptFault → Prop
  | first {before after : List EffectScript} {d : EffectScript} {fault : ScriptFault}
      (hdefs : defs = before ++ d :: after) (hbefore : EffectsFine before)
      (hd : d.Offends (before.map EffectScript.name) fault) : EffectFault defs fault

namespace EffectsFine

theorem nil : EffectsFine [] where
  named := fun _ hd => absurd hd List.not_mem_nil
  distinct := List.nodup_nil
  shared := fun _ hd => absurd hd List.not_mem_nil

/-- One definition more: its own name and calls, and the names before it. -/
theorem concat_iff {defs : List EffectScript} {d : EffectScript} :
    EffectsFine (defs ++ [d]) ↔
      EffectsFine defs ∧ Text.trim d.name ≠ "" ∧ d.name ∉ defs.map EffectScript.name ∧
        ∀ c ∈ d.calls, ¬ c.SpriteOnly := by
  have hnodup : ((defs ++ [d]).map EffectScript.name).Nodup ↔
      d.name ∉ defs.map EffectScript.name ∧ (defs.map EffectScript.name).Nodup := by
    rw [List.map_append, List.map_singleton, ← List.concat_eq_append, List.nodup_concat]
  constructor
  · intro h
    obtain ⟨hnew, hdistinct⟩ := hnodup.mp h.distinct
    have hd : d ∈ defs ++ [d] := List.mem_append_right defs List.mem_cons_self
    have hold : ∀ e ∈ defs, e ∈ defs ++ [d] := fun e he => List.mem_append_left [d] he
    exact ⟨⟨fun e he => h.named e (hold e he), hdistinct, fun e he => h.shared e (hold e he)⟩,
      h.named d hd, hnew, h.shared d hd⟩
  · rintro ⟨h, hname, hnew, hcalls⟩
    refine ⟨?_, hnodup.mpr ⟨hnew, h.distinct⟩, ?_⟩
    · intro e he
      rcases List.mem_append.mp he with hold | hlast
      · exact h.named e hold
      · exact List.mem_singleton.mp hlast ▸ hname
    · intro e he
      rcases List.mem_append.mp he with hold | hlast
      · exact h.shared e hold
      · exact List.mem_singleton.mp hlast ▸ hcalls

end EffectsFine

/-- A definition that spoils fine ones offends. -/
theorem EffectScript.offends_of_not_fine {defs : List EffectScript} {d : EffectScript}
    (h : EffectsFine defs) (hd : ¬ EffectsFine (defs ++ [d])) :
    ∃ fault, d.Offends (defs.map EffectScript.name) fault := by
  by_cases hname : Text.trim d.name = ""
  · exact ⟨_, .blank hname⟩
  by_cases hnew : d.name ∈ defs.map EffectScript.name
  · exact ⟨_, .duplicate hname hnew⟩
  -- only the calls are left to blame
  have hnil : ∀ c ∈ ([] : List Call), ¬ c.SpriteOnly := fun _ hc => absurd hc List.not_mem_nil
  rcases holds_or_first_lost (P := fun calls => ∀ c ∈ calls, ¬ c.SpriteOnly) hnil d.calls with
    hshared | ⟨before, c, after, hcalls, hbefore, hlost⟩
  · exact absurd (EffectsFine.concat_iff.mpr ⟨h, hname, hnew, hshared⟩) hd
  · have hc : c.SpriteOnly := by
      by_contra hc
      apply hlost
      intro b hb
      rcases List.mem_append.mp hb with hold | hlast
      · exact hbefore b hold
      · exact List.mem_singleton.mp hlast ▸ hc
    exact ⟨_, .spriteOnly hname hnew hcalls hbefore hc⟩

namespace EffectTable

theorem isSome_lookup_iff {table : EffectTable} {name : String} :
    (table.lookup name).isSome = true ↔ name ∈ table.map Prod.fst := by
  rw [List.lookup_isSome_iff]
  constructor
  · rintro ⟨entry, hentry, hname⟩
    exact List.mem_map.mpr ⟨entry, hentry, (eq_of_beq hname).symm⟩
  · intro h
    obtain ⟨entry, hentry, hname⟩ := List.mem_map.mp h
    exact ⟨entry, hentry, beq_of_eq hname.symm⟩

/-- The effects of definitions, each built on its own. -/
def ofScripts (defs : List EffectScript) : EffectTable := defs.map fun d => (d.name, d.built)

theorem names_ofScripts (defs : List EffectScript) :
    (ofScripts defs).map Prod.fst = defs.map EffectScript.name := by
  rw [ofScripts, List.map_map]
  rfl

/-- Where no name is given twice, each name leads to its own definition. -/
theorem lookup_ofScripts {defs : List EffectScript} (h : (defs.map EffectScript.name).Nodup)
    {d : EffectScript} (hd : d ∈ defs) : (ofScripts defs).lookup d.name = some d.built := by
  obtain ⟨before, after, rfl⟩ := List.append_of_mem hd
  rw [List.map_append, List.map_cons, List.nodup_append] at h
  rw [List.lookup_eq_some_iff]
  refine ⟨ofScripts before, ofScripts after, ?_, ?_⟩
  · rw [ofScripts, List.map_append, List.map_cons]
    rfl
  · intro entry hentry
    have hname : entry.1 ∈ before.map EffectScript.name := by
      rw [← names_ofScripts]
      exact List.mem_map_of_mem hentry
    exact bne_iff_ne.mpr (h.2.2 _ hname _ List.mem_cons_self).symm

theorem outcome_define_of_fine {table : EffectTable} {d : EffectScript}
    (hname : Text.trim d.name ≠ "") (hnew : d.name ∉ table.map Prod.fst)
    (hcalls : ∀ c ∈ d.calls, ¬ c.SpriteOnly) :
    (table.define d).outcome = .ok (table ++ [(d.name, d.built)]) := by
  rw [Ne, Text.trim_eq_empty_iff] at hname
  rw [← isSome_lookup_iff] at hnew
  rw [define, if_neg hname, if_neg hnew, Run.outcome_bind, Effect.outcome_build_of_shared hcalls]
  rfl

theorem outcome_define_of_offends {table : EffectTable} {d : EffectScript} {fault : ScriptFault}
    (h : d.Offends (table.map Prod.fst) fault) :
    (table.define d).outcome = .error (.evaluation fault) := by
  rw [define]
  cases h with
  | blank hname =>
    rw [if_pos ((Text.trim_eq_empty_iff _).mp hname)]
    rfl
  | duplicate hname htaken =>
    rw [Ne, Text.trim_eq_empty_iff] at hname
    rw [if_neg hname, if_pos (isSome_lookup_iff.mpr htaken)]
    rfl
  | spriteOnly hname hnew hcalls hbefore hc =>
    rw [Ne, Text.trim_eq_empty_iff] at hname
    rw [← isSome_lookup_iff] at hnew
    rw [if_neg hname, if_neg hnew, Run.outcome_bind,
      Effect.outcome_build_of_spriteOnly hcalls hbefore hc]
    rfl

theorem outcome_build_of_fine {defs : List EffectScript} (h : EffectsFine defs) :
    (build defs).outcome = .ok (ofScripts defs) := by
  induction defs using List.reverseRecOn with
  | nil => rfl
  | append_singleton defs d ih =>
    obtain ⟨hdefs, hname, hnew, hcalls⟩ := EffectsFine.concat_iff.mp h
    rw [← names_ofScripts] at hnew
    rw [build, Run.outcome_foldlM_append (ih hdefs), List.foldlM_cons, Run.outcome_bind,
      outcome_define_of_fine hname hnew hcalls, ofScripts, ofScripts, List.map_append]
    rfl

theorem outcome_build_of_fault {defs : List EffectScript} {fault : ScriptFault}
    (h : EffectFault defs fault) : (build defs).outcome = .error (.evaluation fault) := by
  obtain ⟨rfl, hbefore, hd⟩ := h
  rw [← names_ofScripts] at hd
  exact Run.outcome_foldlM_of_error (outcome_build_of_fine hbefore) (outcome_define_of_offends hd) _

end EffectTable

/-- Definitions are fine, or there is a first one that offends. -/
theorem effectsFine_or_fault (defs : List EffectScript) :
    EffectsFine defs ∨ ∃ fault, EffectFault defs fault := by
  rcases holds_or_first_lost EffectsFine.nil defs with
    hfine | ⟨before, d, after, hdefs, hbefore, hlost⟩
  · exact .inl hfine
  · obtain ⟨fault, hfault⟩ := EffectScript.offends_of_not_fine hbefore hlost
    exact .inr ⟨fault, .first hdefs hbefore hfault⟩

/-! ### The calls of a sprite -/

/-- Every effect that the calls play has one of these names. -/
def CallsDefined (names : List String) (calls : List Call) : Prop :=
  ∀ name count, Call.applyEffect name count ∈ calls → name ∈ names

/-- The edit of a sprite that a call stands for. -/
def Call.edit? (effects : EffectTable) : Call → Option Edit
  | act a => some (.step (.act a))
  | setLayer layer => some (.setLayer layer)
  | applyEffect name count => (effects.lookup name).map fun e => .applyEffect e count

/-- The sprite that a definition builds with these effects. -/
def SpriteScript.built (effects : EffectTable) (d : SpriteScript) : Sprite :=
  d.placement.build.run (d.calls.filterMap (Call.edit? effects))

namespace CallsDefined

variable {names : List String} {before : List Call}

theorem nil : CallsDefined names [] := fun _ _ h => absurd h List.not_mem_nil

/-- A call that spoils defined ones plays an effect without a definition. -/
theorem lost {c : Call} (h : CallsDefined names before) (hc : ¬ CallsDefined names (before ++ [c])) :
    ∃ name count, c = .applyEffect name count ∧ name ∉ names := by
  by_contra hnone
  apply hc
  intro name count hmem
  rcases List.mem_append.mp hmem with hold | hlast
  · exact h name count hold
  · by_contra hname
    exact hnone ⟨name, count, (List.mem_singleton.mp hlast).symm, hname⟩

end CallsDefined

namespace Sprite

variable {effects : EffectTable}

theorem outcome_call_of_edit (index : Nat) (image : String) (s : Sprite) {c : Call} {e : Edit}
    (h : c.edit? effects = some e) :
    (call effects index image s c).outcome = .ok (s.edit e) := by
  cases c with
  | act a =>
    obtain rfl := Option.some.inj h
    rfl
  | setLayer layer =>
    obtain rfl := Option.some.inj h
    rfl
  | applyEffect name count =>
    obtain ⟨fx, hfx, rfl⟩ := Option.map_eq_some_iff.mp h
    rw [call, hfx]
    rfl

theorem outcome_call_of_unknown (index : Nat) (image : String) (s : Sprite) {name : String}
    (h : name ∉ effects.map Prod.fst) (count : UInt32) :
    (call effects index image s (.applyEffect name count)).outcome =
      .error (.evaluation (.unknownEffect index image name)) := by
  rw [← EffectTable.isSome_lookup_iff, Option.not_isSome_iff_eq_none] at h
  rw [call, h]
  rfl

theorem edit?_of_defined {calls : List Call} (h : CallsDefined (effects.map Prod.fst) calls)
    {c : Call} (hc : c ∈ calls) : ∃ e, c.edit? effects = some e := by
  cases c with
  | act a => exact ⟨_, rfl⟩
  | setLayer layer => exact ⟨_, rfl⟩
  | applyEffect name count =>
    obtain ⟨fx, hfx⟩ := Option.isSome_iff_exists.mp (EffectTable.isSome_lookup_iff.mpr (h name count hc))
    exact ⟨.applyEffect fx count, by rw [Call.edit?, hfx]; rfl⟩

theorem outcome_calls_of_defined (index : Nat) (image : String) {calls : List Call}
    (h : CallsDefined (effects.map Prod.fst) calls) (s : Sprite) :
    (calls.foldlM (call effects index image) s).outcome =
      .ok (s.run (calls.filterMap (Call.edit? effects))) := by
  induction calls generalizing s with
  | nil => rfl
  | cons c rest ih =>
    obtain ⟨e, he⟩ := edit?_of_defined h List.mem_cons_self
    have hrest : CallsDefined (effects.map Prod.fst) rest :=
      fun name count hmem => h name count (List.mem_cons_of_mem c hmem)
    rw [List.foldlM_cons, Run.outcome_bind, outcome_call_of_edit index image s he,
      List.filterMap_cons_some he]
    exact ih hrest (s.edit e)

theorem outcome_ofScript_of_defined (index : Nat) {d : SpriteScript}
    (h : CallsDefined (effects.map Prod.fst) d.calls) :
    (ofScript effects index d).outcome = .ok (d.built effects) :=
  outcome_calls_of_defined index d.placement.image h d.placement.build

theorem outcome_ofScript_of_unknown (index : Nat) {d : SpriteScript} {before after : List Call}
    {name : String} {count : UInt32} (hcalls : d.calls = before ++ .applyEffect name count :: after)
    (hbefore : CallsDefined (effects.map Prod.fst) before) (hname : name ∉ effects.map Prod.fst) :
    (ofScript effects index d).outcome =
      .error (.evaluation (.unknownEffect index d.placement.image name)) := by
  rw [ofScript, hcalls]
  exact Run.outcome_foldlM_of_error (outcome_calls_of_defined _ _ hbefore _)
    (outcome_call_of_unknown _ _ _ hname count) after

end Sprite

/-! ### Sprites -/

/-- Every effect that these sprites play has one of these names. -/
def SpritesDefined (names : List String) (defs : List SpriteScript) : Prop :=
  ∀ d ∈ defs, CallsDefined names d.calls

/-- The fault of the first call of the first sprite that plays an effect without a
definition.  The sprite's number is how many there are before it. -/
inductive SpriteFault (names : List String) (defs : List SpriteScript) : ScriptFault → Prop
  | first {before after : List SpriteScript} {d : SpriteScript}
      (hdefs : defs = before ++ d :: after) (hbefore : SpritesDefined names before)
      {earlier later : List Call} {name : String} {count : UInt32}
      (hcalls : d.calls = earlier ++ .applyEffect name count :: later)
      (hearlier : CallsDefined names earlier) (hname : name ∉ names) :
      SpriteFault names defs (.unknownEffect before.length d.placement.image name)

namespace Board

/-- A board is known by its sprites in order. -/
theorem ext_toList {b c : Board} (h : b.toList = c.toList) : b = c := by
  cases b
  cases c
  exact congrArg Board.mk (Array.toList_inj.mp h)

variable {effects : EffectTable}

/-- Sprites one after the other: those before, then the others with higher numbers. -/
theorem outcome_addAll_append (as bs : List SpriteScript) (index : Nat) (board : Board) :
    (addAll effects index (as ++ bs) board).outcome =
      (addAll effects index as board).outcome.bind fun c =>
        (addAll effects (index + as.length) bs c).outcome := by
  induction as generalizing index board with
  | nil => rfl
  | cons d rest ih =>
    rw [List.cons_append, addAll, addAll, Run.outcome_bind, Run.outcome_bind]
    cases (Sprite.ofScript effects index d).outcome with
    | error e => rfl
    | ok s =>
      have hnumber : index + (d :: rest).length = index + 1 + rest.length := by
        rw [List.length_cons]
        omega
      rw [hnumber]
      exact ih (index + 1) (board.add s)

theorem outcome_addAll_of_defined {defs : List SpriteScript}
    (h : SpritesDefined (effects.map Prod.fst) defs) (index : Nat) (board : Board) :
    ∃ c, (addAll effects index defs board).outcome = .ok c ∧
      c.toList = board.toList ++ defs.map (SpriteScript.built effects) := by
  induction defs generalizing index board with
  | nil => exact ⟨board, rfl, (List.append_nil _).symm⟩
  | cons d rest ih =>
    have hd : (Sprite.ofScript effects index d).outcome = .ok (d.built effects) :=
      Sprite.outcome_ofScript_of_defined index (h d List.mem_cons_self)
    have hrest : SpritesDefined (effects.map Prod.fst) rest :=
      fun e he => h e (List.mem_cons_of_mem d he)
    obtain ⟨c, hc, hlist⟩ := ih hrest (index + 1) (board.add (d.built effects))
    refine ⟨c, ?_, ?_⟩
    · rw [addAll, Run.outcome_bind, hd]
      exact hc
    · rw [hlist, toList_add, List.append_assoc]
      rfl

theorem outcome_addAll_of_fault {defs : List SpriteScript} {fault : ScriptFault}
    (h : SpriteFault (effects.map Prod.fst) defs fault) (board : Board) :
    (addAll effects 0 defs board).outcome = .error (.evaluation fault) := by
  obtain ⟨rfl, hbefore, hcalls, hearlier, hname⟩ := h
  obtain ⟨c, hc, -⟩ := outcome_addAll_of_defined hbefore 0 board
  rw [outcome_addAll_append, hc, Nat.zero_add]
  show (addAll effects _ _ c).outcome = _
  rw [addAll, Run.outcome_bind, Sprite.outcome_ofScript_of_unknown _ hcalls hearlier hname]
  rfl

end Board

/-- All effects that sprites play are defined, or there is a first one that is not. -/
theorem spritesDefined_or_fault (names : List String) (defs : List SpriteScript) :
    SpritesDefined names defs ∨ ∃ fault, SpriteFault names defs fault := by
  have hnil : SpritesDefined names [] := fun _ hd => absurd hd List.not_mem_nil
  rcases holds_or_first_lost hnil defs with hall | ⟨before, d, after, hdefs, hbefore, hlost⟩
  · exact .inl hall
  right
  have hnone : CallsDefined names [] := .nil
  rcases holds_or_first_lost hnone d.calls with
    hcalls | ⟨earlier, c, later, hcalls, hearlier, hc⟩
  · -- the calls of `d` are defined, so it spoils nothing
    exfalso
    apply hlost
    intro e he
    rcases List.mem_append.mp he with hold | hlast
    · exact hbefore e hold
    · exact List.mem_singleton.mp hlast ▸ hcalls
  · obtain ⟨name, count, rfl, hname⟩ := hearlier.lost hc
    exact ⟨_, .first hdefs hbefore hcalls hearlier hname⟩

/-! ### Documents -/

namespace Document

/-- The names that a document gives to effects. -/
def effectNames (d : Document) : List String := d.effects.map EffectScript.name

/-- Nothing is to be said against a document. -/
def Fine (d : Document) : Prop := EffectsFine d.effects ∧ SpritesDefined d.effectNames d.sprites

/-- The fault that a document is reported for: the first one in its effects, and only
where these are fine the first one in its sprites. -/
inductive FirstFault (d : Document) : ScriptFault → Prop
  | effect {fault : ScriptFault} (h : EffectFault d.effects fault) : FirstFault d fault
  | sprite {fault : ScriptFault} (heffects : EffectsFine d.effects)
      (h : SpriteFault d.effectNames d.sprites fault) : FirstFault d fault

theorem fine_or_firstFault (d : Document) : d.Fine ∨ ∃ fault, d.FirstFault fault := by
  rcases effectsFine_or_fault d.effects with heffects | ⟨fault, hfault⟩
  · rcases spritesDefined_or_fault d.effectNames d.sprites with hsprites | ⟨fault, hfault⟩
    · exact .inl ⟨heffects, hsprites⟩
    · exact .inr ⟨fault, .sprite heffects hfault⟩
  · exact .inr ⟨fault, .effect hfault⟩

/-- The effects of a document by name, each built on its own. -/
def templates (d : Document) : EffectTable := EffectTable.ofScripts d.effects

theorem names_templates (d : Document) : d.templates.map Prod.fst = d.effectNames :=
  EffectTable.names_ofScripts d.effects

theorem outcome_evaluate_of_fine {d : Document} (h : d.Fine) :
    ∃ b, d.evaluate.outcome = .ok b ∧ b.toList = d.sprites.map (SpriteScript.built d.templates) := by
  obtain ⟨heffects, hsprites⟩ := h
  rw [← names_templates] at hsprites
  obtain ⟨b, hb, hlist⟩ := Board.outcome_addAll_of_defined hsprites 0 Board.empty
  refine ⟨b, ?_, hlist⟩
  have hprogram : (d.program .empty).outcome = .ok b := by
    rw [program, Run.outcome_bind, effectTable, EffectTable.outcome_build_of_fine heffects]
    show ((Board.addAll d.templates 0 d.sprites .empty) >>= _).outcome = _
    rw [Run.outcome_bind, hb]
    rfl
  rw [evaluate, Storyboard.evaluate, Run.outcome_within]
  simp only [hprogram]

theorem outcome_evaluate_of_firstFault {d : Document} {fault : ScriptFault} (h : d.FirstFault fault) :
    d.evaluate.outcome = .error (.evaluation fault) := by
  have hprogram : (d.program .empty).outcome = .error (.evaluation fault) := by
    rw [program, Run.outcome_bind, effectTable]
    cases h with
    | effect h =>
      rw [EffectTable.outcome_build_of_fault h]
      rfl
    | sprite heffects h =>
      rw [← names_templates] at h
      rw [EffectTable.outcome_build_of_fine heffects]
      show ((Board.addAll d.templates 0 d.sprites .empty) >>= _).outcome = _
      rw [Run.outcome_bind, Board.outcome_addAll_of_fault h]
      rfl
  rw [evaluate, Storyboard.evaluate, Run.outcome_within]
  simp only [hprogram]
  rfl

/-- A document evaluates to a board if and only if nothing is to be said against it and the
board has the sprites that its definitions build. -/
theorem outcome_evaluate_eq_ok_iff {d : Document} {b : Board} :
    d.evaluate.outcome = .ok b ↔
      d.Fine ∧ b.toList = d.sprites.map (SpriteScript.built d.templates) := by
  constructor
  · intro h
    rcases d.fine_or_firstFault with hfine | ⟨fault, hfault⟩
    · obtain ⟨c, hc, hlist⟩ := outcome_evaluate_of_fine hfine
      obtain rfl : b = c := Except.ok.inj (h.symm.trans hc)
      exact ⟨hfine, hlist⟩
    · rw [outcome_evaluate_of_firstFault hfault] at h
      cases h
  · rintro ⟨hfine, hlist⟩
    obtain ⟨c, hc, hlist'⟩ := outcome_evaluate_of_fine hfine
    rw [hc, Board.ext_toList (hlist.trans hlist'.symm)]

/-- The failure of a document that does not evaluate is its first fault. -/
theorem outcome_evaluate_eq_error_iff {d : Document} {failure : Failure} :
    d.evaluate.outcome = .error failure ↔
      ∃ fault, failure = .evaluation fault ∧ d.FirstFault fault :=
  (outcome_iff d.fine_or_firstFault (fun hfine => (outcome_evaluate_of_fine hfine).imp fun _ h => h.1)
    (fun _ hfault => outcome_evaluate_of_firstFault hfault)).2 failure

/-! ### The theorem -/

/-- **A document evaluates, or reports its first fault.**  The effects are built if and
only if their names are distinct and more than white space and their calls are none for
sprites only; the table then has their names and no others, and each leads to what the
calls of its definition alone build.  The document evaluates if and only if moreover every
effect that a sprite plays is defined, and then the board has one sprite for each
definition, in order.  Otherwise the failure is an evaluation failure with the fault that
`EffectFault` and `FirstFault` single out. -/
theorem evaluates_or_reports_first_fault (d : Document) :
    ((∃ table, d.effectTable.outcome = .ok table) ↔ EffectsFine d.effects) ∧
    (∀ table, d.effectTable.outcome = .ok table →
      (∀ name, (table.lookup name).isSome = true ↔ name ∈ d.effectNames) ∧
      ∀ e ∈ d.effects,
        table.lookup e.name = some (Effect.empty.run (e.calls.filterMap Call.step?))) ∧
    (∀ failure, d.effectTable.outcome = .error failure ↔
      ∃ fault, failure = .evaluation fault ∧ EffectFault d.effects fault) ∧
    ((∃ board, d.evaluate.outcome = .ok board) ↔
      (∃ table, d.effectTable.outcome = .ok table) ∧ SpritesDefined d.effectNames d.sprites) ∧
    (∀ board, d.evaluate.outcome = .ok board →
      ∃ table, d.effectTable.outcome = .ok table ∧
        board.toList = d.sprites.map (SpriteScript.built table)) ∧
    (∀ failure, d.evaluate.outcome = .error failure ↔
      ∃ fault, failure = .evaluation fault ∧ d.FirstFault fault) ∧
    ∀ index image name, (Failure.evaluation (.unknownEffect index image name)).message =
      "script evaluation error: sprite #" ++ toString index ++ " ('" ++ image ++
        "'): unknown effect '" ++ name ++ "'" := by
  obtain ⟨htable, htableFails⟩ := outcome_iff (effectsFine_or_fault d.effects)
    (fun hfine => ⟨d.templates, EffectTable.outcome_build_of_fine hfine⟩)
    (fun _ hfault => EffectTable.outcome_build_of_fault hfault)
  obtain ⟨hboard, hboardFails⟩ := outcome_iff d.fine_or_firstFault
    (fun hfine => (outcome_evaluate_of_fine hfine).imp fun _ h => h.1)
    (fun _ hfault => outcome_evaluate_of_firstFault hfault)
  refine ⟨htable, ?_, htableFails, ?_, ?_, hboardFails, fun _ _ _ => rfl⟩
  · -- what the table holds
    intro table h
    have hfine := htable.mp ⟨table, h⟩
    obtain rfl : d.templates = table :=
      Except.ok.inj ((EffectTable.outcome_build_of_fine hfine).symm.trans h)
    refine ⟨fun name => ?_, fun e he => EffectTable.lookup_ofScripts hfine.distinct he⟩
    rw [EffectTable.isSome_lookup_iff, names_templates]
  · rw [hboard, effectTable, htable]
    rfl
  · -- what the board holds
    intro b hb
    have hfine := hboard.mp ⟨b, hb⟩
    obtain ⟨c, hc, hlist⟩ := outcome_evaluate_of_fine hfine
    obtain rfl : b = c := Except.ok.inj (hb.symm.trans hc)
    exact ⟨d.templates, EffectTable.outcome_build_of_fine hfine.1, hlist⟩

/-- A name given twice is reported before a call for sprites only, in an effect, and before
an effect that a sprite plays without a definition. -/
example :
    let twice : EffectScript := { name := "a", calls := [.setLayer .fail] }
    let s : SpriteScript := { placement := { image := "a.png" }, calls := [.applyEffect "b" 1] }
    let d : Document := { effects := [{ name := "a" }, twice], sprites := [s] }
    d.evaluate.outcome = .error (.evaluation (.duplicateEffect "a")) := rfl

end Document

end Storyboard
