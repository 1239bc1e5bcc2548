/-
Storyboard/Script/Evaluation.lean

Carrying out scripts.

A program populates a storyboard, and may fail.  `evaluate` runs one on an empty
storyboard: the caller gets every sprite that the program constructed, or an
evaluation failure.

A document is a program.  Its effects are built first, each from its own calls
alone, and kept in the order of their definitions; then each sprite is built and
put on the board.  The first fault in this order is the one reported.
-/
import Storyboard.Board
import Storyboard.Run
import Storyboard.Text.Blank

namespace Storyboard

/-! ### Programs -/

/-- What populates a storyboard. -/
abbrev Program := Board → Run Board

/-- A failure as it is reported of a program: failures of other kinds keep only
their wording. -/
def Failure.asEvaluation : Failure → Failure
  | .evaluation fault => .evaluation fault
  | e => .evaluation (.reported e.message)

/-- Run a program on an empty storyboard. -/
def evaluate (program : Program) : Run Board :=
  .within .evaluating <|
    let run := program .empty
    match run.outcome with
    | .ok board => ⟨.ok board, run.journal ++ [.scriptFinished board.size]⟩
    | .error e => ⟨.error e.asEvaluation, run.journal⟩

/-! ### Effects -/

/-- Effects by name, in the order of their definitions. -/
abbrev EffectTable := List (String × Effect)

namespace Effect

/-- Carry out a call of an effect. -/
def call (name : String) (e : Effect) : Call → Run Effect
  | .act a => do
    .noteIgnored (e.track.ignored? a)
    pure (e.act a)
  | c => .fail (.evaluation (.spriteOnlyCall name c))

/-- Build an effect from its calls. -/
def build (d : EffectScript) : Run Effect := d.calls.foldlM (call d.name) empty

end Effect

namespace EffectTable

/-- Build a further effect, which must have a name of its own. -/
def define (table : EffectTable) (d : EffectScript) : Run EffectTable := do
  if Text.allBlank d.name then .fail (.evaluation .blankEffectName)
  else if (table.lookup d.name).isSome then .fail (.evaluation (.duplicateEffect d.name))
  else do
    let e ← Effect.build d
    pure (table ++ [(d.name, e)])

/-- Build effects in order. -/
def build (defs : List EffectScript) : Run EffectTable := defs.foldlM define []

end EffectTable

/-! ### Sprites -/

namespace Sprite

/-- Carry out a call of the sprite with a given number. -/
def call (effects : EffectTable) (index : Nat) (image : String) (s : Sprite) :
    Call → Run Sprite
  | .act a => do
    .noteIgnored (s.track.ignored? a)
    pure (s.act a)
  | .setLayer layer => pure (s.setLayer layer)
  | .applyEffect name count =>
    match effects.lookup name with
    | some e => pure (s.applyEffect e count)
    | none => .fail (.evaluation (.unknownEffect index image name))

/-- Build a sprite from its placement and calls. -/
def ofScript (effects : EffectTable) (index : Nat) (d : SpriteScript) : Run Sprite :=
  d.calls.foldlM (call effects index d.placement.image) d.placement.build

end Sprite

/-! ### Documents -/

namespace Board

/-- Build sprites in order, the first of them with a given number, and put them
on the board. -/
def addAll (effects : EffectTable) : Nat → List SpriteScript → Program
  | _, [], board => pure board
  | index, d :: rest, board => do
    let s ← Sprite.ofScript effects index d
    addAll effects (index + 1) rest (board.add s)

end Board

namespace Document

/-- The effects of a document. -/
def effectTable (d : Document) : Run EffectTable := EffectTable.build d.effects

/-- What a document does to a storyboard. -/
def program (d : Document) : Program := fun board => do
  let effects ← d.effectTable
  let board ← Board.addAll effects 0 d.sprites board
  .note (.documentExecuted effects.length d.sprites.length)
  pure board

/-- The storyboard of a document. -/
def evaluate (d : Document) : Run Board := Storyboard.evaluate d.program

end Document

end Storyboard
