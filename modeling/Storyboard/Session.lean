/-
Storyboard/Session.lean

Building a storyboard one command at a time.

A session holds a storyboard and named effects.  A command addresses a sprite by
its number or an effect by its name; one that addresses what is not there is
refused and changes nothing.  A command concerns only what it addresses: an
effect that a sprite plays is the one of that name at that moment.
-/
import Storyboard.Script.Evaluation

namespace Storyboard

/-! ### Commands -/

/-- What is done to a sprite, with effects by name. -/
inductive SpriteCommand where
  | step (s : Step)
  | setLayer (layer : Layer)
  | applyEffect (effect : String) (count : UInt32)
  deriving DecidableEq

/-- A command of a session. -/
inductive Command where
  | place (p : Placement)
  /-- Add a copy of a sprite as it is now. -/
  | copySprite (id : Nat)
  /-- Start an effect, in place of one of the same name. -/
  | createEffect (name : String)
  /-- Copy an effect as it is now to another name. -/
  | copyEffect (name target : String)
  | sprite (id : Nat) (c : SpriteCommand)
  | effect (name : String) (s : Step)
  deriving DecidableEq

/-! ### Sessions -/

/-- A storyboard with named effects. -/
structure Session where
  board : Board := .empty
  effects : EffectTable := []
  deriving DecidableEq

namespace EffectTable

/-- Name an effect, in place of one of the same name. -/
def put (table : EffectTable) (name : String) (e : Effect) : EffectTable :=
  (name, e) :: table.filter fun entry => entry.1 != name

@[simp] theorem lookup_put_self (table : EffectTable) (name : String) (e : Effect) :
    (table.put name e).lookup name = some e := by
  simp [put]

end EffectTable

namespace Session

/-- The edit that a sprite's command stands for now. -/
def edit? (s : Session) : SpriteCommand → Option Edit
  | .step t => some (.step t)
  | .setLayer layer => some (.setLayer layer)
  | .applyEffect name count => (s.effects.lookup name).map fun e => .applyEffect e count

/-- Carry out a command, unless what it addresses is missing. -/
def perform? (s : Session) : Command → Option Session
  | .place p => some { s with board := s.board.place p }
  | .copySprite id => (s.board.get? id).map fun sprite => { s with board := s.board.add sprite }
  | .createEffect name => some { s with effects := s.effects.put name .empty }
  | .copyEffect name target =>
    (s.effects.lookup name).map fun e => { s with effects := s.effects.put target e }
  | .sprite id c =>
    match s.board.get? id, s.edit? c with
    | some _, some e => some { s with board := s.board.modify id (·.edit e) }
    | _, _ => none
  | .effect name t =>
    (s.effects.lookup name).map fun e => { s with effects := s.effects.put name (e.step t) }

/-- Carry out a command if it can be. -/
def perform (s : Session) (c : Command) : Session := (s.perform? c).getD s

/-- Carry out commands in order. -/
def run (s : Session) (cs : List Command) : Session := cs.foldl perform s

/-- The bracket of a command that has no effect. -/
def ignored? (s : Session) : Command → Option Bracket
  | .sprite id (.step t) => (s.board.get? id).bind fun sprite => sprite.track.ignoredStep? t
  | .effect name t => (s.effects.lookup name).bind fun e => e.track.ignoredStep? t
  | _ => none

end Session

end Storyboard
