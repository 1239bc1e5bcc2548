/-
Storyboard/Json/Reader.lean

Readers of JSON texts, byte by byte.

A reader takes the bytes still unread and answers a value or an error, in either
case with the bytes that are left: an error may be raised deep inside a
structure whose end is looked for all the same, so where reading stopped
matters.  An error is raised at a place or without one; an error without a place
gets that of the innermost `placing` around it.

Every repetition is an instance of `Reader.loop`, which repeats a step until it
yields a result.  A step that goes on has consumed at least one byte, so the
number of unread bytes bounds the repetitions.
-/
import Storyboard.Json.Fault

namespace Storyboard

namespace Json

/-! ### Unread input -/

/-- The bytes that are still unread. -/
structure Input where
  rest : List UInt8
  /-- How many bytes have been read. -/
  taken : Nat
  /-- How many bytes are left. -/
  left : Nat
  /-- The next byte was looked at. -/
  peeked : Bool
  /-- Where the bytes come from. -/
  source : Source
  left_eq : left = rest.length

namespace Input

/-- Nothing has been read of these bytes. -/
def start (bytes : List UInt8) (source : Source := .text) : Input :=
  ⟨bytes, 0, bytes.length, false, source, rfl⟩

/-- The next byte is looked at; past the end there is nothing to look at. -/
def look (i : Input) : Input := { i with peeked := i.peeked || !i.rest.isEmpty }

/-- Some bytes are read. -/
def skip (i : Input) (n : Nat) : Input where
  rest := i.rest.drop n
  taken := i.taken + n
  left := i.left - n
  peeked := false
  source := i.source
  left_eq := by rw [List.length_drop, i.left_eq]

/-- Where reading has come to. -/
def here (i : Input) : Place where
  inText := i.taken
  inStream := i.taken + if i.peeked then 1 else 0

/-- The byte that comes next. -/
def next (i : Input) : Place where
  inText := i.taken + if i.rest.isEmpty then 0 else 1
  inStream := i.taken + if i.peeked then 1 else 0

end Input

/-! ### Readers -/

/-- A fault that a reader raised, at a place or without one. -/
structure Error where
  fault : Fault
  place? : Option Place
  deriving DecidableEq

/-- What a reader answers. -/
inductive Outcome (α : Type) where
  | ok (value : α) (rest : Input)
  | fail (error : Error) (rest : Input)

/-- A reader of one value. -/
def Reader (α : Type) := Input → Outcome α

namespace Reader

variable {α β σ : Type}

/-- Answer a value without reading. -/
def succeed (a : α) : Reader α := fun i => .ok a i

/-- Read with one reader, then with the one that its value chooses. -/
def andThen (r : Reader α) (f : α → Reader β) : Reader β := fun i =>
  match r i with
  | .ok a j => f a j
  | .fail e j => .fail e j

instance : Monad Reader where
  pure := succeed
  bind := andThen

/-! ### Faults -/

/-- Raise a fault where reading has come to. -/
def failHere (fault : Fault) : Reader α := fun i => .fail ⟨fault, some i.here⟩ i

/-- Raise a fault at the byte that comes next. -/
def failNext (fault : Fault) : Reader α := fun i => .fail ⟨fault, some i.next⟩ i

/-- Raise a fault that an outer reader will place. -/
def failUnplaced (fault : Fault) : Reader α := fun i => .fail ⟨fault, none⟩ i

/-- Give an error without a place the one that reading has come to. -/
def placing (r : Reader α) : Reader α := fun i =>
  match r i with
  | .fail ⟨fault, none⟩ j => .fail ⟨fault, some j.here⟩ j
  | outcome => outcome

/-- Read a body and then its end, the end also after an error in the body.  The
error of the body is the one reported. -/
def closing (body : Reader α) (ending : Reader Unit) : Reader α := fun i =>
  match body i with
  | .ok a j =>
    match ending j with
    | .ok () k => .ok a k
    | .fail e k => .fail e k
  | .fail e j =>
    match ending j with
    | .ok () k => .fail e k
    | .fail _ k => .fail e k

/-! ### Bytes -/

/-- The next byte, which is then no longer unread. -/
def next : Reader (Option UInt8) := fun i =>
  match i.rest with
  | [] => .ok none i
  | b :: _ => .ok (some b) (i.skip 1)

/-- The next byte, which stays unread. -/
def peek : Reader (Option UInt8) := fun i => .ok i.rest.head? i.look

/-- Pass over some bytes. -/
def skip (n : Nat) : Reader Unit := fun i => .ok () (i.skip n)

/-- The longest run of bytes that satisfy a test. -/
def run (test : UInt8 → Bool) : Reader (List UInt8) := fun i =>
  let bytes := i.rest.takeWhile test
  .ok bytes (if bytes.isEmpty then i else i.skip bytes.length)

/-- A text held as a whole is read in one way, a stream in another. -/
def bySource (whole streamed : Reader α) : Reader α := fun i =>
  match i.source with
  | .text => whole i
  | .stream => streamed i

/-! ### Repetition -/

/-- Repeat a step at most a given number of times. -/
def iterate (step : σ → Reader (σ ⊕ α)) : Nat → σ → Reader α
  | 0, _ => failHere .expectedValue
  | n + 1, s => fun i =>
    match step s i with
    | .ok (.inl t) j => iterate step n t j
    | .ok (.inr a) j => .ok a j
    | .fail e j => .fail e j

/-- Repeat a step, which consumes input whenever it goes on, until it ends. -/
def loop (step : σ → Reader (σ ⊕ α)) (s : σ) : Reader α := fun i =>
  iterate step (i.left + 1) s i

/-! ### Laws -/

/-- A step that goes on leaves less input than it found. -/
def Advances (step : σ → Reader (σ ⊕ α)) : Prop :=
  ∀ s i t j, step s i = .ok (.inl t) j → j.left < i.left

/-- More repetitions than there are bytes change nothing. -/
theorem iterate_eq_of_advances {step : σ → Reader (σ ⊕ α)} (h : Advances step) :
    ∀ (m n : Nat) (s : σ) (i : Input), i.left < m → i.left < n →
      iterate step m s i = iterate step n s i := by
  intro m
  induction m with
  | zero => intro n s i hm; omega
  | succ m ih =>
    intro n s i hm hn
    cases n with
    | zero => omega
    | succ n =>
      simp only [iterate]
      split
      · rename_i t j hstep
        have := h s i t j hstep
        exact ih n t j (by omega) (by omega)
      · rfl
      · rfl

/-- A repetition is its first step and, if that goes on, the repetition again. -/
theorem loop_eq_of_advances {step : σ → Reader (σ ⊕ α)} (h : Advances step)
    (s : σ) (i : Input) :
    loop step s i =
      match step s i with
      | .ok (.inl t) j => loop step t j
      | .ok (.inr a) j => .ok a j
      | .fail e j => .fail e j := by
  have unfolded : loop step s i =
      match step s i with
      | .ok (.inl t) j => iterate step i.left t j
      | .ok (.inr a) j => .ok a j
      | .fail e j => .fail e j := rfl
  rw [unfolded]
  split
  · rename_i t j hstep
    have := h s i t j hstep
    exact iterate_eq_of_advances h i.left (j.left + 1) t j (by omega) (by omega)
  · rfl
  · rfl

end Reader

end Json

end Storyboard
