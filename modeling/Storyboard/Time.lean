/-
Storyboard/Time.lean

Positions and durations in milliseconds.

Times are signed and bounded by 64 bits, and scripts may write any of them,
negative durations included.  Arithmetic never wraps: the exact result is
clamped to the range (`Ms.clamp`), so a chain of additions can get stuck at a
bound but never jumps past it.
-/
namespace Storyboard

/-- A time in milliseconds. -/
structure Ms where
  toInt : Int
  lower : -0x8000000000000000 ≤ toInt
  upper : toInt < 0x8000000000000000

namespace Ms

/-! ### The range -/

@[ext] theorem ext {a b : Ms} (h : a.toInt = b.toInt) : a = b := by
  cases a; cases b; cases h; rfl

instance : DecidableEq Ms := fun a b =>
  if h : a.toInt = b.toInt then isTrue (ext h) else isFalse fun e => h (e ▸ rfl)

/-- The time nearest to a whole number: itself inside the range, else the
bound that it passed. -/
def clamp (i : Int) : Ms where
  toInt := max (-0x8000000000000000) (min i 0x7fffffffffffffff)
  lower := Int.le_max_left _ _
  upper := by omega

@[simp] theorem toInt_clamp (i : Int) :
    (clamp i).toInt = max (-0x8000000000000000) (min i 0x7fffffffffffffff) := rfl

@[simp] theorem clamp_toInt (a : Ms) : clamp a.toInt = a := by
  have := a.lower
  have := a.upper
  ext
  simp only [toInt_clamp]
  omega

/-- The time of a whole number inside the range. -/
def ofInt? (i : Int) : Option Ms :=
  if h : -0x8000000000000000 ≤ i ∧ i < 0x8000000000000000 then some ⟨i, h.1, h.2⟩ else none

instance : OfNat Ms 0 := ⟨clamp 0⟩

instance : Inhabited Ms := ⟨0⟩

@[simp] theorem toInt_zero : (0 : Ms).toInt = 0 := rfl

/-! ### Arithmetic -/

instance : Add Ms := ⟨fun a b => clamp (a.toInt + b.toInt)⟩

theorem add_def (a b : Ms) : a + b = clamp (a.toInt + b.toInt) := rfl

/-- A duration repeated `count` times. -/
def repeated (count : UInt32) (duration : Ms) : Ms :=
  clamp (count.toNat * duration.toInt)

instance : Max Ms := ⟨fun a b => if a.toInt ≤ b.toInt then b else a⟩

theorem max_def (a b : Ms) : max a b = if a.toInt ≤ b.toInt then b else a := rfl

@[simp] theorem toInt_max (a b : Ms) : (max a b).toInt = max a.toInt b.toInt := by
  rw [max_def]
  split <;> omega

/-- The decimal text of a time. -/
def text (a : Ms) : String := toString a.toInt

end Ms

end Storyboard
