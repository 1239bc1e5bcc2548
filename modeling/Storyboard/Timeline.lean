/-
Storyboard/Timeline.lean

The cursor of a sprite or effect and the chain of records written so far.

Time is kept in three places.  `ms` counts from the start of the storyboard, or of
the effect.  An open loop counts from its own start, and commands inside it move
that count alone; when it closes, `ms` jumps over all its repetitions at once.
Commands inside an open batch leave the cursor where it is, and the batch only
remembers how long the longest of them is; when it closes, the count that is
then in use moves by that much.  There is one loop and one batch at a time: a
bracket that would open one twice or close none is ignored (`ignores`), and an
ignored bracket changes nothing.

Records are only ever appended.
-/
import Storyboard.Record

namespace Storyboard

/-! ### State -/

/-- The loop of a timeline.  Closing it keeps the count and the duration. -/
structure LoopSpan where
  isOpen : Bool := false
  count : UInt32 := 0
  /-- How long one round is, as far as it has been written. -/
  duration : Ms := 0
  deriving DecidableEq

/-- The batch of a timeline.  Closing it keeps the duration. -/
structure BatchSpan where
  isOpen : Bool := false
  /-- Length of the longest command in it. -/
  duration : Ms := 0
  deriving DecidableEq

/-- The brackets that a timeline understands. -/
inductive Bracket where
  | startLoop (count : UInt32)
  | endLoop
  | startBatch
  | endBatch
  deriving DecidableEq

/-- The times that are counted, and the records written. -/
structure Timeline where
  /-- Time since the start of the storyboard or effect. -/
  ms : Ms
  /-- The scope of commands outside this timeline's own loops. -/
  scope : Scope
  chain : Array Record := #[]
  loop : LoopSpan := {}
  batch : BatchSpan := {}
  deriving DecidableEq

namespace Timeline

/-! ### Reading -/

/-- The records of the chain, oldest first. -/
def records (t : Timeline) : List Record := t.chain.toList

/-- The start of the next command, counted as its scope says. -/
def cursor (t : Timeline) : Ms :=
  if t.loop.isOpen then t.loop.duration else t.ms

/-- The scope of the next command. -/
def cursorScope (t : Timeline) : Scope :=
  if t.loop.isOpen then .loop else t.scope

/-- A bracket that opens what is open or closes what is not. -/
def ignores (t : Timeline) : Bracket → Bool
  | .startLoop _ => t.loop.isOpen
  | .endLoop => !t.loop.isOpen
  | .startBatch => t.batch.isOpen
  | .endBatch => !t.batch.isOpen

/-! ### Writing -/

/-- Append a record. -/
def push (t : Timeline) (r : Record) : Timeline :=
  { t with chain := t.chain.push r }

/-- Jump to a position, forwards or backwards. -/
def jump (t : Timeline) (ms : Ms) : Timeline := { t with ms := ms }

/-- Move the cursor, inside a loop or outside. -/
def shift (t : Timeline) (duration : Ms) : Timeline :=
  if t.loop.isOpen then
    { t with loop := { t.loop with duration := t.loop.duration + duration } }
  else { t with ms := t.ms + duration }

/-- Some time passes: an open batch lasts at least as long, and without one the
cursor moves. -/
def elapse (t : Timeline) (duration : Ms) : Timeline :=
  if t.batch.isOpen then
    { t with batch := { t.batch with duration := max t.batch.duration duration } }
  else t.shift duration

/-- Append a command that starts at the cursor, then let its duration elapse. -/
def command (t : Timeline) (opcode : Opcode) (easing : Easing) (duration : Ms)
    (params : List Param) : Timeline :=
  let start := t.cursor
  (t.push (.command t.cursorScope opcode easing start (start + duration) params)).elapse
    duration

/-- Open a loop, whose marker carries `ms`, and count from its start. -/
def startLoop (t : Timeline) (count : UInt32) : Timeline :=
  { t.push (.marker t.ms count) with loop := ⟨true, count, 0⟩ }

/-- Close the loop and skip past all its iterations. -/
def endLoop (t : Timeline) : Timeline :=
  { t with
    loop := { t.loop with isOpen := false }
    ms := t.ms + Ms.repeated t.loop.count t.loop.duration }

/-- Open a batch. -/
def startBatch (t : Timeline) : Timeline := { t with batch := ⟨true, 0⟩ }

/-- Close the batch and skip past its longest command. -/
def endBatch (t : Timeline) : Timeline :=
  { t with batch := { t.batch with isOpen := false } }.shift t.batch.duration

/-- Open or close a loop or batch, unless the bracket is ignored. -/
def bracket (t : Timeline) (b : Bracket) : Timeline :=
  if t.ignores b then t
  else match b with
    | .startLoop count => t.startLoop count
    | .endLoop => t.endLoop
    | .startBatch => t.startBatch
    | .endBatch => t.endBatch

/-- Play the records of a template `count` times: a marker, the records as they are,
and a jump over all repetitions.  Open loops and batches are not looked at. -/
def play (t template : Timeline) (count : UInt32) : Timeline :=
  { t with
    chain := (t.chain.push (.marker t.ms count)) ++ template.chain
    ms := t.ms + Ms.repeated count template.ms }

/-! ### What each operation appends -/

@[simp] theorem records_push (t : Timeline) (r : Record) :
    (t.push r).records = t.records ++ [r] := by
  simp [records, push]

@[simp] theorem records_jump (t : Timeline) (ms : Ms) :
    (t.jump ms).records = t.records := rfl

@[simp] theorem records_shift (t : Timeline) (d : Ms) :
    (t.shift d).records = t.records := by
  unfold shift
  split <;> rfl

@[simp] theorem records_elapse (t : Timeline) (d : Ms) :
    (t.elapse d).records = t.records := by
  unfold elapse
  split
  · rfl
  · exact records_shift t d

@[simp] theorem records_command (t : Timeline) (o : Opcode) (e : Easing) (d : Ms)
    (ps : List Param) :
    (t.command o e d ps).records =
      t.records ++ [Record.command t.cursorScope o e t.cursor (t.cursor + d) ps] := by
  simp [command]

@[simp] theorem records_play (t template : Timeline) (n : UInt32) :
    (t.play template n).records =
      t.records ++ .marker t.ms n :: template.records := by
  simp [play, records]

/-! ### By what is open -/

theorem cursor_of_open {t : Timeline} (h : t.loop.isOpen = true) :
    t.cursor = t.loop.duration := by
  simp [cursor, h]

theorem cursor_of_closed {t : Timeline} (h : t.loop.isOpen = false) : t.cursor = t.ms := by
  simp [cursor, h]

theorem shift_of_open {t : Timeline} (h : t.loop.isOpen = true) (d : Ms) :
    t.shift d = { t with loop := { t.loop with duration := t.loop.duration + d } } := by
  simp [shift, h]

theorem shift_of_closed {t : Timeline} (h : t.loop.isOpen = false) (d : Ms) :
    t.shift d = { t with ms := t.ms + d } := by
  simp [shift, h]

/-- Moving the cursor moves the count that is in use. -/
@[simp] theorem cursor_shift (t : Timeline) (d : Ms) : (t.shift d).cursor = t.cursor + d := by
  rcases h : t.loop.isOpen with - | - <;> simp [shift, cursor, h]

@[simp] theorem loop_isOpen_shift (t : Timeline) (d : Ms) :
    (t.shift d).loop.isOpen = t.loop.isOpen := by
  unfold shift
  split <;> rfl

@[simp] theorem loop_count_shift (t : Timeline) (d : Ms) :
    (t.shift d).loop.count = t.loop.count := by
  unfold shift
  split <;> rfl

@[simp] theorem batch_shift (t : Timeline) (d : Ms) : (t.shift d).batch = t.batch := by
  unfold shift
  split <;> rfl

theorem elapse_of_open {t : Timeline} (h : t.batch.isOpen = true) (d : Ms) :
    t.elapse d = { t with batch := { t.batch with duration := max t.batch.duration d } } := by
  simp [elapse, h]

theorem elapse_of_closed {t : Timeline} (h : t.batch.isOpen = false) (d : Ms) :
    t.elapse d = t.shift d := by
  simp [elapse, h]

theorem bracket_of_ignores {t : Timeline} {b : Bracket} (h : t.ignores b) :
    t.bracket b = t := by
  simp [bracket, h]

theorem bracket_startLoop {t : Timeline} (h : t.loop.isOpen = false) (count : UInt32) :
    t.bracket (.startLoop count) = t.startLoop count := by
  simp [bracket, ignores, h]

theorem bracket_endLoop {t : Timeline} (h : t.loop.isOpen = true) :
    t.bracket .endLoop = t.endLoop := by
  simp [bracket, ignores, h]

theorem bracket_startBatch {t : Timeline} (h : t.batch.isOpen = false) :
    t.bracket .startBatch = t.startBatch := by
  simp [bracket, ignores, h]

theorem bracket_endBatch {t : Timeline} (h : t.batch.isOpen = true) :
    t.bracket .endBatch = t.endBatch := by
  simp [bracket, ignores, h]

end Timeline

end Storyboard
