/-
Storyboard/Effect.lean

Reusable chains without a header.

An effect counts time from zero.  Sprites play it under a loop marker of their
own, so all its commands have the scope of a loop.
-/
import Storyboard.Track

namespace Storyboard

/-- A template that sprites can play. -/
structure Effect where
  track : Track
  deriving DecidableEq

namespace Effect

/-- The empty template. -/
def empty : Effect := ⟨⟨.initial, { ms := 0, scope := .loop }⟩⟩

/-- How long it takes to play an effect once. -/
def length (e : Effect) : Ms := e.track.timeline.ms

/-- The records of the template, oldest first. -/
def records (e : Effect) : List Record := e.track.records

/-- Carry out an action. -/
def act (e : Effect) (a : Action) : Effect := ⟨e.track.act a⟩

/-- Carry out a step. -/
def step (e : Effect) (s : Step) : Effect := ⟨e.track.step s⟩

/-- Carry out steps in order. -/
def run (e : Effect) (steps : List Step) : Effect := ⟨e.track.run steps⟩

end Effect

end Storyboard
