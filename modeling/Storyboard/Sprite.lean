/-
Storyboard/Sprite.lean

Images on the storyboard, with what happens to them.

A sprite is built from a placement, which is at once written down as the header
and never again: a later change of layer or position is not seen in it.
-/
import Storyboard.Effect

namespace Storyboard

/-- The placement of a sprite that is still to be built. -/
structure Placement where
  image : String
  startMs : Ms := 0
  origin : Origin := .centre
  layer : Layer := .background
  x : Binary64 := Pose.centreX
  y : Binary64 := Pose.centreY
  deriving DecidableEq

/-- An image with its pose and its records. -/
structure Sprite where
  image : String
  origin : Origin
  layer : Layer
  track : Track
  deriving DecidableEq

/-- Everything that can be done to a sprite. -/
inductive Edit where
  | step (s : Step)
  | setLayer (layer : Layer)
  | applyEffect (effect : Effect) (count : UInt32)
  deriving DecidableEq

namespace Placement

/-- The header of a sprite so placed. -/
def header (p : Placement) : Record := .header p.layer p.origin p.image p.x p.y

/-- A sprite of which nothing but its header is written. -/
def build (p : Placement) : Sprite where
  image := p.image
  origin := p.origin
  layer := p.layer
  track := ⟨.placedAt p.x p.y, { ms := p.startMs, scope := .top, chain := #[p.header] }⟩

end Placement

namespace Sprite

/-- The records of the chain, header first. -/
def records (s : Sprite) : List Record := s.track.records

/-- Carry out an action. -/
def act (s : Sprite) (a : Action) : Sprite := { s with track := s.track.act a }

/-- Carry out a step. -/
def step (s : Sprite) (t : Step) : Sprite := { s with track := s.track.step t }

/-- Move the sprite to another layer. -/
def setLayer (s : Sprite) (layer : Layer) : Sprite := { s with layer := layer }

/-- Play an effect from here on. -/
def applyEffect (s : Sprite) (e : Effect) (count : UInt32) : Sprite :=
  { s with track.timeline := s.track.timeline.play e.track.timeline count }

/-- Carry out an edit. -/
def edit (s : Sprite) : Edit → Sprite
  | .step t => s.step t
  | .setLayer layer => s.setLayer layer
  | .applyEffect e count => s.applyEffect e count

/-- Carry out edits in order. -/
def run (s : Sprite) (edits : List Edit) : Sprite := edits.foldl edit s

/-! ### Runs -/

theorem run_append (s : Sprite) (as bs : List Edit) : s.run (as ++ bs) = (s.run as).run bs :=
  List.foldl_append

/-- Steps change a sprite's track and nothing else. -/
theorem run_map_step (s : Sprite) (steps : List Step) :
    s.run (steps.map .step) = { s with track := s.track.run steps } := by
  induction steps generalizing s with
  | nil => rfl
  | cons t rest ih => exact ih (s.step t)

/-- The calls that write a body inside a loop. -/
def inLoop (count : UInt32) (body : List Step) : List Edit :=
  .step (.act (.bracket (.startLoop count))) ::
    (body.map .step ++ [.step (.act (.bracket .endLoop))])

/-- A body that leaves the loop open is carried out between its opening and its closing. -/
theorem run_inLoop {s : Sprite} (hloop : s.track.timeline.loop.isOpen = false) (count : UInt32)
    {body : List Step} {t : Track}
    (ht : t = Track.run { s.track with timeline := s.track.timeline.startLoop count } body)
    (hopen : t.timeline.loop.isOpen = true) :
    s.run (inLoop count body) = { s with track := { t with timeline := t.timeline.endLoop } } := by
  have hfirst : s.edit (.step (.act (.bracket (.startLoop count)))) =
      { s with track := { s.track with timeline := s.track.timeline.startLoop count } } := by
    simp [edit, step, Track.step, Track.act, Timeline.bracket_startLoop hloop]
  show (s.edit (.step (.act (.bracket (.startLoop count))))).run (_ ++ _) = _
  rw [hfirst, run_append, run_map_step, ← ht]
  simp [run, edit, step, Track.step, Track.act, Timeline.bracket_endLoop hopen]

end Sprite

end Storyboard
