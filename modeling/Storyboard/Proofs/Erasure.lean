/-
Storyboard/Proofs/Erasure.lean

Ignored calls can be erased.

Which brackets are ignored can be seen by scanning the calls alone (`scan`), because the
flags of a timeline move as the scan does.  So what a run notes is what the scan refuses,
and since an ignored bracket changes nothing, not even what a loop or batch remembers, the
run of all other calls goes through the same states and notes nothing.

Sprites and effects understand different calls, and treat brackets alike.  A `Builder` is
what the two have in common, with the three laws from which everything here follows.

Main result: `ignored_calls_can_be_erased`.
-/
import Storyboard.Proofs.Brackets
import Storyboard.Proofs.Evaluation

namespace Storyboard

/-! ### Scanning -/

section Scan

variable {α : Type} (bracket? : α → Option Bracket)

/-- Each call with the bracket as which it is refused, if it is. -/
def scan : OpenBrackets → List α → List (α × Option Bracket)
  | _, [] => []
  | o, a :: rest => (a, o.refusal? (bracket? a)) :: scan (o.next (bracket? a)) rest

/-- The brackets that are refused, in order. -/
def refused (o : OpenBrackets) (as : List α) : List Bracket := (scan bracket? o as).filterMap Prod.snd

/-- The calls that are not refused, in order. -/
def heeded (o : OpenBrackets) (as : List α) : List α :=
  ((scan bracket? o as).filter fun entry => entry.2.isNone).map Prod.fst

/-- What is open after calls. -/
def openAfter (o : OpenBrackets) (as : List α) : OpenBrackets :=
  as.foldl (fun o a => o.next (bracket? a)) o

variable {bracket?} {o : OpenBrackets} {a : α}

theorem refused_cons (o : OpenBrackets) (a : α) (rest : List α) :
    refused bracket? o (a :: rest) =
      (o.refusal? (bracket? a)).toList ++ refused bracket? (o.next (bracket? a)) rest := by
  cases h : o.refusal? (bracket? a) <;> simp [refused, scan, h]

theorem heeded_cons_of_refused (h : (o.refusal? (bracket? a)).isSome = true) (rest : List α) :
    heeded bracket? o (a :: rest) = heeded bracket? o rest := by
  have hsame := OpenBrackets.next_of_refused h
  obtain ⟨b, hb⟩ := Option.isSome_iff_exists.mp h
  simp [heeded, scan, hb, hsame]

theorem heeded_cons (h : o.refusal? (bracket? a) = none) (rest : List α) :
    heeded bracket? o (a :: rest) = a :: heeded bracket? (o.next (bracket? a)) rest := by
  simp [heeded, scan, h]

/-- Of the calls that are not refused, none is refused when the others are gone. -/
theorem refused_heeded (o : OpenBrackets) (as : List α) :
    refused bracket? o (heeded bracket? o as) = [] := by
  induction as generalizing o with
  | nil => rfl
  | cons a rest ih =>
    cases h : o.refusal? (bracket? a) with
    | some b =>
      rw [heeded_cons_of_refused (by rw [h]; rfl)]
      exact ih o
    | none =>
      rw [heeded_cons h, refused_cons, h]
      exact ih (o.next (bracket? a))

end Scan

/-! ### Builders -/

/-- States of type `σ` that carry out calls of type `α` on a timeline, with what its flags
have to do with the calls. -/
structure Builder (σ α : Type) where
  timeline : σ → Timeline
  carry : σ → α → σ
  /-- The bracket that a call is. -/
  bracket? : α → Option Bracket
  /-- The bracket of a call that has no effect here. -/
  ignored? : σ → α → Option Bracket
  ignored?_eq : ∀ s a, ignored? s a = (timeline s).openBrackets.refusal? (bracket? a)
  carry_of_ignored : ∀ s a, (ignored? s a).isSome = true → carry s a = s
  openBrackets_carry : ∀ s a,
    (timeline (carry s a)).openBrackets = (timeline s).openBrackets.next (bracket? a)

namespace Builder

variable {σ α : Type} (B : Builder σ α)

/-- Carry out calls in order, and note those that have no effect. -/
def run (s : σ) (as : List α) : Run σ :=
  as.foldlM (fun s a => do
    .noteIgnored (B.ignored? s a)
    pure (B.carry s a)) s

/-- The brackets that are open in a state. -/
def openIn (s : σ) : OpenBrackets := (B.timeline s).openBrackets

/-- A run ends where the calls lead, and notes what the scan refuses. -/
theorem run_eq (s : σ) (as : List α) :
    B.run s as = ⟨.ok (as.foldl B.carry s), (refused B.bracket? (B.openIn s) as).map .ignored⟩ := by
  induction as generalizing s with
  | nil => rfl
  | cons a rest ih =>
    have hopen : B.openIn (B.carry s a) = (B.openIn s).next (B.bracket? a) :=
      B.openBrackets_carry s a
    rw [refused_cons, List.map_append, ← hopen, openIn, ← B.ignored?_eq]
    show ((Run.noteIgnored (B.ignored? s a)).andThen fun _ => .succeed (B.carry s a)).andThen
      (fun next => B.run next rest) = _
    rw [Run.andThen_assoc]
    show Run.andThen (Run.noteIgnored (B.ignored? s a)) (fun _ => B.run (B.carry s a) rest) = _
    rw [ih]
    rfl

/-- The calls that the scan does not refuse lead where all calls lead. -/
theorem foldl_heeded (s : σ) (as : List α) :
    (heeded B.bracket? (B.openIn s) as).foldl B.carry s = as.foldl B.carry s := by
  induction as generalizing s with
  | nil => rfl
  | cons a rest ih =>
    cases h : (B.openIn s).refusal? (B.bracket? a) with
    | some b =>
      have hrefused : ((B.openIn s).refusal? (B.bracket? a)).isSome = true := by rw [h]; rfl
      have hsame : B.carry s a = s := B.carry_of_ignored s a (by rw [B.ignored?_eq]; exact hrefused)
      rw [heeded_cons_of_refused hrefused, List.foldl_cons, hsame]
      exact ih s
    | none =>
      have hopen : B.openIn (B.carry s a) = (B.openIn s).next (B.bracket? a) :=
        B.openBrackets_carry s a
      rw [heeded_cons h, List.foldl_cons, List.foldl_cons, ← hopen]
      exact ih (B.carry s a)

/-- After calls those brackets are open that the scan has open. -/
theorem openIn_foldl (s : σ) (as : List α) :
    B.openIn (as.foldl B.carry s) = openAfter B.bracket? (B.openIn s) as := by
  induction as generalizing s with
  | nil => rfl
  | cons a rest ih =>
    have hopen : B.openIn (B.carry s a) = (B.openIn s).next (B.bracket? a) :=
      B.openBrackets_carry s a
    rw [List.foldl_cons, ih, hopen]
    rfl

/-- A bracket changes nothing exactly if it is refused. -/
theorem carry_eq_self_iff (s : σ) {a : α} {b : Bracket} (h : B.bracket? a = some b) :
    B.carry s a = s ↔ (B.openIn s).refuses b = true := by
  have hopen : B.openIn (B.carry s a) = (B.openIn s).after b := by
    have hcarry := B.openBrackets_carry s a
    rw [h] at hcarry
    exact hcarry
  constructor
  · intro hsame
    rw [hsame] at hopen
    exact OpenBrackets.after_eq_self_iff.mp hopen.symm
  · intro hrefused
    refine B.carry_of_ignored s a ?_
    rw [B.ignored?_eq, h, OpenBrackets.refusal?, Option.isSome_filter]
    exact hrefused

/-- Scanning calls tells all about the brackets that are ignored in a run of them: the run
completes, and notes those brackets and nothing else; without their calls it ends in the
same state and notes nothing; and a bracket leaves a state as it was only if it is one of
them. -/
structure Erases (s : σ) (as : List α) : Prop where
  outcome : (B.run s as).outcome = .ok (as.foldl B.carry s)
  journal : (B.run s as).journal = (refused B.bracket? {} as).map .ignored
  erased : B.run s (heeded B.bracket? {} as) = ⟨.ok (as.foldl B.carry s), []⟩
  changes : ∀ before a after b, as = before ++ a :: after → B.bracket? a = some b →
    (B.carry (before.foldl B.carry s) a = before.foldl B.carry s ↔
      (openAfter B.bracket? {} before).refuses b = true)

theorem erases {s : σ} (hs : B.openIn s = {}) (as : List α) : B.Erases s as where
  outcome := by rw [run_eq]
  journal := by rw [run_eq, hs]
  erased := by
    rw [← hs, run_eq, foldl_heeded, refused_heeded]
    rfl
  changes := by
    rintro before a after b rfl hb
    rw [← hs, ← openIn_foldl]
    exact B.carry_eq_self_iff _ hb

end Builder

/-! ### Sprites and effects -/

/-- The bracket of an edit that has no effect here. -/
def Sprite.ignored? (s : Sprite) : Edit → Option Bracket
  | .step t => s.track.ignoredStep? t
  | .setLayer _ => none
  | .applyEffect _ _ => none

/-- Effects carry out steps. -/
def Effect.builder : Builder Effect Step where
  timeline e := e.track.timeline
  carry := Effect.step
  bracket? := Step.bracket?
  ignored? e := e.track.ignoredStep?
  ignored?_eq e := e.track.ignoredStep?_eq
  carry_of_ignored e s h := congrArg Effect.mk (e.track.step_of_ignored s h)
  openBrackets_carry e := e.track.openBrackets_step

/-- Sprites carry out edits. -/
def Sprite.builder : Builder Sprite Edit where
  timeline s := s.track.timeline
  carry := Sprite.edit
  bracket? := Edit.bracket?
  ignored? := Sprite.ignored?
  ignored?_eq s e := by
    cases e with
    | step t => exact s.track.ignoredStep?_eq t
    | setLayer layer => rfl
    | applyEffect e count => rfl
  carry_of_ignored s e h := by
    cases e with
    | step t => exact congrArg (fun track => { s with track := track }) (s.track.step_of_ignored t h)
    | setLayer layer => cases h
    | applyEffect e count => cases h
  openBrackets_carry s e := s.openBrackets_edit e

/-! ### Scripts -/

/-- What a call notes is what the edit notes that it stands for. -/
theorem Sprite.foldlM_call {effects : EffectTable} (index : Nat) (image : String)
    {calls : List Call} (h : CallsDefined (effects.map Prod.fst) calls) (s : Sprite) :
    calls.foldlM (call effects index image) s =
      builder.run s (calls.filterMap (Call.edit? effects)) := by
  induction calls generalizing s with
  | nil => rfl
  | cons c rest ih =>
    obtain ⟨e, he⟩ := edit?_of_defined h List.mem_cons_self
    have hrest : CallsDefined (effects.map Prod.fst) rest :=
      fun name count hmem => h name count (List.mem_cons_of_mem c hmem)
    have hcall : call effects index image s c = (do
        .noteIgnored (builder.ignored? s e)
        pure (builder.carry s e)) := by
      cases c with
      | act a =>
        obtain rfl := Option.some.inj he
        rfl
      | setLayer layer =>
        obtain rfl := Option.some.inj he
        rfl
      | applyEffect name count =>
        obtain ⟨fx, hfx, rfl⟩ := Option.map_eq_some_iff.mp he
        rw [call, hfx]
        rfl
    rw [List.foldlM_cons, hcall, List.filterMap_cons_some he, Builder.run, List.foldlM_cons]
    congr 1
    funext next
    exact ih hrest next

/-- What a call notes is what the step notes that it stands for. -/
theorem Effect.foldlM_call (name : String) {calls : List Call}
    (h : ∀ c ∈ calls, ¬ c.SpriteOnly) (e : Effect) :
    calls.foldlM (call name) e = builder.run e (calls.filterMap Call.step?) := by
  induction calls generalizing e with
  | nil => rfl
  | cons c rest ih =>
    have hrest : ∀ d ∈ rest, ¬ d.SpriteOnly := fun d hd => h d (List.mem_cons_of_mem c hd)
    cases c with
    | act a =>
      have hstep : Call.step? (.act a) = some (.act a) := rfl
      rw [List.foldlM_cons, List.filterMap_cons_some hstep, Builder.run, List.foldlM_cons]
      congr 1
      funext next
      exact ih hrest next
    | setLayer layer => exact absurd trivial (h _ List.mem_cons_self)
    | applyEffect effect count => exact absurd trivial (h _ List.mem_cons_self)

/-! ### The wording -/

/-- Why a bracket is refused. -/
def Bracket.reason : Bracket → String
  | .startLoop _ => "while looping"
  | .endLoop => "without open loop"
  | .startBatch => "while batching"
  | .endBatch => "without open batch"

/-- The count that is refused with a bracket. -/
def Bracket.refusedCount? : Bracket → Option UInt32
  | .startLoop count => some count
  | .endLoop => none
  | .startBatch => none
  | .endBatch => none

/-- An entry for an ignored bracket is of the lowest importance, and says which bracket was
ignored, why, and with which count. -/
theorem Entry.wording_ignored (b : Bracket) :
    (ignored b).level = "DEBUG" ∧
    (ignored b).text = b.name ++ " " ++ b.reason ++ " ignored" ∧
    (ignored b).fields =
      b.refusedCount?.toList.map fun count => ("repeat_count", toString count.toNat) := by
  refine ⟨rfl, ?_, ?_⟩
  · cases b <;> rfl
  · cases b <;> rfl

/-! ### The theorem -/

/-- **Ignored calls can be erased.**  Let a sprite and an effect, as they are first made,
carry out any calls.  Scan the calls for brackets that open a loop or a batch while one is
open, or close one while none is.  Each run notes exactly these brackets in their order,
with the words and the count that go with them.  Without their calls it ends in the same
state, and notes nothing.  Every other bracket changes the state when it is carried out.
Scripts note the same when they build a sprite or an effect. -/
theorem ignored_calls_can_be_erased (p : Placement) (edits : List Edit) (steps : List Step) :
    Sprite.builder.Erases p.build edits ∧
    Effect.builder.Erases .empty steps ∧
    (∀ b, (Entry.ignored b).level = "DEBUG" ∧
      (Entry.ignored b).text = b.name ++ " " ++ b.reason ++ " ignored" ∧
      (Entry.ignored b).fields =
        b.refusedCount?.toList.map fun count => ("repeat_count", toString count.toNat)) ∧
    (∀ effects index d, CallsDefined (effects.map Prod.fst) d.calls →
      Sprite.ofScript effects index d =
        Sprite.builder.run d.placement.build (d.calls.filterMap (Call.edit? effects))) ∧
    (∀ d : EffectScript, (∀ c ∈ d.calls, ¬ c.SpriteOnly) →
      Effect.build d = Effect.builder.run .empty (d.calls.filterMap Call.step?)) :=
  ⟨Sprite.builder.erases rfl edits, Effect.builder.erases rfl steps, Entry.wording_ignored,
    fun _ index d h => Sprite.foldlM_call index d.placement.image h d.placement.build,
    fun d h => Effect.foldlM_call d.name h .empty⟩

/-- A loop that is opened twice and closed twice, with a batch that is only closed. -/
example :
    (Effect.builder.run .empty ([.startLoop 2, .endBatch, .startLoop 3, .endLoop, .endLoop].map
      fun b => .act (.bracket b))).journal =
        [.ignored .endBatch, .ignored (.startLoop 3), .ignored .endLoop] := by
  decide

end Storyboard
