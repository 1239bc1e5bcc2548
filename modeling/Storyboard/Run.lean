/-
Storyboard/Run.lean

Computations that may fail and keep a journal.

The journal lists what a run did, in order: the stages it entered, the calls it
ignored, and what it finished.  A failed run keeps the journal up to the
failure.
-/
import Storyboard.Failure

namespace Storyboard

/-! ### Journal -/

/-- A stage of a run. -/
inductive Stage where
  | compiling (script : String)
  | reading (count : Nat)
  | evaluating
  deriving DecidableEq

/-- An entry of a journal. -/
inductive Entry where
  /-- A stage was entered. -/
  | entered (stage : Stage)
  /-- A bracket had no effect. -/
  | ignored (b : Bracket)
  /-- A document was carried out to its end. -/
  | documentExecuted (effects sprites : Nat)
  /-- A script left this many sprites. -/
  | scriptFinished (sprites : Nat)
  /-- All sources were merged into one document. -/
  | sourcesMerged (effects sprites : Nat)
  /-- A document was written to a file. -/
  | documentWritten (path : String) (bytes : Nat)
  deriving DecidableEq

namespace Stage

/-- The name of a stage. -/
def name : Stage → String
  | compiling _ => "compile"
  | reading _ => "read_sources"
  | evaluating => "evaluate"

/-- What is noted about a stage. -/
def fields : Stage → List (String × String)
  | compiling script => [("script", script)]
  | reading count => [("count", toString count)]
  | evaluating => []

end Stage

namespace Entry

/-- The text of an entry; a stage is noted by its name. -/
def text : Entry → String
  | entered stage => stage.name
  | ignored (.startLoop _) => "start_loop while looping ignored"
  | ignored .endLoop => "end_loop without open loop ignored"
  | ignored .startBatch => "start_batch while batching ignored"
  | ignored .endBatch => "end_batch without open batch ignored"
  | documentExecuted _ _ => "script document executed"
  | scriptFinished _ => "script finished"
  | sourcesMerged _ _ => "sources merged"
  | documentWritten _ _ => "document written"

/-- The importance of an entry. -/
def level : Entry → String
  | entered _ => "INFO"
  | _ => "DEBUG"

/-- What is noted with an entry. -/
def fields : Entry → List (String × String)
  | entered stage => stage.fields
  | ignored (.startLoop count) => [("repeat_count", toString count.toNat)]
  | ignored _ => []
  | documentExecuted effects sprites =>
    [("effects", toString effects), ("sprites", toString sprites)]
  | scriptFinished sprites => [("sprites", toString sprites)]
  | sourcesMerged effects sprites =>
    [("effects", toString effects), ("sprites", toString sprites)]
  | documentWritten path bytes => [("path", path), ("bytes", toString bytes)]

end Entry

/-! ### Runs -/

/-- A result, or a failure, with the journal that led to it. -/
structure Run (α : Type) where
  outcome : Except Failure α
  journal : List Entry := []

namespace Run

variable {α β : Type}

/-- A run that does nothing but answer. -/
def succeed (a : α) : Run α := ⟨.ok a, []⟩

/-- Continue a run unless it failed. -/
def andThen (r : Run α) (f : α → Run β) : Run β :=
  match r.outcome with
  | .ok a =>
    let s := f a
    ⟨s.outcome, r.journal ++ s.journal⟩
  | .error e => ⟨.error e, r.journal⟩

instance : Monad Run where
  pure := succeed
  bind := andThen

/-- A run that fails. -/
def fail (e : Failure) : Run α := ⟨.error e, []⟩

/-- Note an entry. -/
def note (e : Entry) : Run Unit := ⟨.ok (), [e]⟩

/-- Note an ignored bracket, if there is one. -/
def noteIgnored (b? : Option Bracket) : Run Unit := ⟨.ok (), b?.toList.map .ignored⟩

/-- Enter a stage and do something in it. -/
def within (s : Stage) (r : Run α) : Run α := ⟨r.outcome, .entered s :: r.journal⟩

/-! ### Laws -/

@[simp] theorem outcome_pure (a : α) : (pure a : Run α).outcome = .ok a := rfl

@[simp] theorem outcome_fail (e : Failure) : (fail e : Run α).outcome = .error e := rfl

@[simp] theorem outcome_note (e : Entry) : (note e).outcome = .ok () := rfl

@[simp] theorem outcome_noteIgnored (b? : Option Bracket) :
    (noteIgnored b?).outcome = .ok () := rfl

@[simp] theorem outcome_within (s : Stage) (r : Run α) : (within s r).outcome = r.outcome := rfl

/-- The outcome of a continued run depends on the outcomes alone. -/
@[simp] theorem outcome_bind (r : Run α) (f : α → Run β) :
    (r >>= f).outcome = r.outcome.bind fun a => (f a).outcome := by
  show (andThen r f).outcome = _
  unfold andThen
  split <;> simp_all [Except.bind]

theorem andThen_succeed (r : Run α) : r.andThen succeed = r := by
  rcases r with ⟨e | a, journal⟩
  · rfl
  · show (⟨.ok a, journal ++ []⟩ : Run α) = _
    rw [List.append_nil]

theorem andThen_assoc {γ : Type} (r : Run α) (f : α → Run β) (g : β → Run γ) :
    (r.andThen f).andThen g = r.andThen fun a => (f a).andThen g := by
  rcases r with ⟨e | a, journal⟩
  · rfl
  · simp only [andThen]
    -- the second run decides whether there is a third
    rcases f a with ⟨e | b, further⟩
    · rfl
    · simp only [List.append_assoc]

instance : LawfulMonad Run :=
  LawfulMonad.mk' Run andThen_succeed (fun _ _ => rfl) andThen_assoc

end Run

end Storyboard
