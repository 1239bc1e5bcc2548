/-
Storyboard/Proofs/Json/Yields.lean

What readers answer on given bytes.

`r.Yields bytes a rest` says that a reader which finds `bytes` unread succeeds
with `a` and leaves `rest`.  Places do not matter to it: it speaks of every
input with these bytes, wherever reading stands.  There is one rule for each
way of putting readers together, so a run over a whole text is composed from
runs over its parts, and what follows a part stands in the statement as the
bytes that are left.

A repetition is unrolled from its end (`Yields.loop_stop`, `Yields.loop_go`).
That it has steps enough is checked there, once: a step that goes on leaves
fewer bytes than it found.

Blanks are passed over by `token` alone.  `Ahead bytes b rest` says which byte it
finds after them, and each reader of a piece of punctuation is one lemma on that.
-/
import Storyboard.Json.Lexical

namespace Storyboard

namespace Json

namespace Reader

variable {α β σ : Type}

/-- On these bytes the reader succeeds, and the rest is left. -/
def Yields (r : Reader α) (bytes : List UInt8) (a : α) (rest : List UInt8) : Prop :=
  ∀ i : Input, i.rest = bytes → ∃ j, r i = .ok a j ∧ j.rest = rest

/-- What a reader answers on an input is what it yields on its bytes. -/
theorem Yields.eq_of_ok {r : Reader α} {bytes rest : List UInt8} {a b : α} {i j : Input}
    (h : r.Yields bytes a rest) (hi : i.rest = bytes) (hok : r i = .ok b j) :
    b = a ∧ j.rest = rest := by
  obtain ⟨k, hk, hrest⟩ := h i hi
  rw [hk] at hok
  cases hok
  exact ⟨rfl, hrest⟩

/-! ### Putting readers together -/

theorem bind_eq_ok {r : Reader α} {f : α → Reader β} {i k : Input} {b : β}
    (h : (r >>= f) i = .ok b k) : ∃ a j, r i = .ok a j ∧ f a j = .ok b k := by
  change andThen r f i = .ok b k at h
  rw [andThen] at h
  cases hr : r i with
  | ok a j =>
    rw [hr] at h
    exact ⟨a, j, rfl, h⟩
  | fail e j =>
    rw [hr] at h
    cases h

theorem bind_assoc {γ : Type} (r : Reader α) (f : α → Reader β) (g : β → Reader γ) :
    (r >>= f) >>= g = r >>= fun a => f a >>= g := by
  funext i
  show andThen (andThen r f) g i = andThen r (fun a => andThen (f a) g) i
  rw [andThen, andThen, andThen]
  cases r i with
  | ok a j => rfl
  | fail e j => rfl

theorem bind_of_ok {r : Reader α} {f : α → Reader β} {i j : Input} {a : α} (h : r i = .ok a j) :
    (r >>= f) i = f a j := by
  show andThen r f i = f a j
  rw [andThen, h]

theorem bind_of_fail {r : Reader α} {f : α → Reader β} {i j : Input} {e : Error}
    (h : r i = .fail e j) : (r >>= f) i = .fail e j := by
  show andThen r f i = .fail e j
  rw [andThen, h]

namespace Yields

variable {r : Reader α} {bytes mid rest : List UInt8} {a : α}

theorem pure (a : α) (bytes : List UInt8) : (Pure.pure a : Reader α).Yields bytes a bytes := by
  intro i hi
  exact ⟨i, rfl, hi⟩

theorem bind {f : α → Reader β} {b : β} (hr : r.Yields bytes a mid)
    (hf : (f a).Yields mid b rest) : (r >>= f).Yields bytes b rest := by
  intro i hi
  obtain ⟨j, hj, hmid⟩ := hr i hi
  obtain ⟨k, hk, hrest⟩ := hf j hmid
  refine ⟨k, ?_, hrest⟩
  show andThen r f i = .ok b k
  rw [andThen, hj]
  exact hk

theorem placing (h : r.Yields bytes a rest) : (placing r).Yields bytes a rest := by
  intro i hi
  obtain ⟨j, hj, hrest⟩ := h i hi
  refine ⟨j, ?_, hrest⟩
  rw [Reader.placing, hj]

theorem closing {ending : Reader Unit} (hr : r.Yields bytes a mid)
    (he : ending.Yields mid () rest) : (closing r ending).Yields bytes a rest := by
  intro i hi
  obtain ⟨j, hj, hmid⟩ := hr i hi
  obtain ⟨k, hk, hrest⟩ := he j hmid
  refine ⟨k, ?_, hrest⟩
  simp only [Reader.closing, hj, hk]

end Yields

/-! ### Bytes -/

theorem yields_next (b : UInt8) (rest : List UInt8) :
    next.Yields (b :: rest) (some b) rest := by
  intro i hi
  refine ⟨i.skip 1, ?_, ?_⟩
  · rw [next, hi]
  · show i.rest.drop 1 = rest
    rw [hi]
    rfl

theorem yields_peek (bytes : List UInt8) : peek.Yields bytes bytes.head? bytes := by
  intro i hi
  refine ⟨i.look, ?_, hi⟩
  rw [peek, hi]

theorem yields_skip (n : Nat) (bytes : List UInt8) :
    (skip n).Yields bytes () (bytes.drop n) := by
  intro i hi
  refine ⟨i.skip n, rfl, ?_⟩
  show i.rest.drop n = bytes.drop n
  rw [hi]

theorem yields_run (test : UInt8 → Bool) (bytes : List UInt8) :
    (run test).Yields bytes (bytes.takeWhile test) (bytes.dropWhile test) := by
  intro i hi
  have hsplit : i.rest.takeWhile test ++ i.rest.dropWhile test = i.rest :=
    List.takeWhile_append_dropWhile
  -- an empty run leaves the input as it is, a look at the next byte included
  refine ⟨if (i.rest.takeWhile test).isEmpty then i
    else i.skip (i.rest.takeWhile test).length, ?_, ?_⟩
  · rw [← hi]
    rfl
  · rw [← hi]
    split
    · rename_i hempty
      rw [List.isEmpty_iff.mp hempty, List.nil_append] at hsplit
      exact hsplit.symm
    · show i.rest.drop (i.rest.takeWhile test).length = i.rest.dropWhile test
      calc i.rest.drop (i.rest.takeWhile test).length
          = (i.rest.takeWhile test ++ i.rest.dropWhile test).drop
              (i.rest.takeWhile test).length := by rw [hsplit]
        _ = i.rest.dropWhile test := List.drop_left

/-! ### Repetition -/

/-- The first of several repetitions. -/
theorem iterate_succ (step : σ → Reader (σ ⊕ α)) (n : Nat) (s : σ) (i : Input) :
    iterate step (n + 1) s i =
      match step s i with
      | .ok (.inl t) j => iterate step n t j
      | .ok (.inr a) j => .ok a j
      | .fail e j => .fail e j := rfl

/-- More repetitions do not change what a repetition answers. -/
theorem iterate_mono {step : σ → Reader (σ ⊕ α)} {a : α} {j : Input} :
    ∀ {m n : Nat} {s : σ} {i : Input}, m ≤ n → iterate step m s i = .ok a j →
      iterate step n s i = .ok a j := by
  intro m
  induction m with
  | zero =>
    intro n s i _ h
    cases h
  | succ m ih =>
    intro n s i hmn h
    obtain ⟨n, rfl⟩ : ∃ k, n = k + 1 := ⟨n - 1, by omega⟩
    -- the first step is the same under both bounds
    rw [iterate_succ] at h ⊢
    cases hstep : step s i with
    | fail e k =>
      rw [hstep] at h
      cases h
    | ok v k =>
      rw [hstep] at h
      cases v with
      | inl t => exact ih (by omega) h
      | inr b => exact h

namespace Yields

variable {step : σ → Reader (σ ⊕ α)} {s t : σ} {bytes mid rest : List UInt8} {a : α}

/-- The last step of a repetition. -/
theorem loop_stop (h : (step s).Yields bytes (.inr a) rest) :
    (loop step s).Yields bytes a rest := by
  intro i hi
  obtain ⟨j, hj, hrest⟩ := h i hi
  refine ⟨j, ?_, hrest⟩
  rw [loop, iterate_succ, hj]

/-- A step after which the repetition goes on. -/
theorem loop_go (h : (step s).Yields bytes (.inl t) mid) (hlt : mid.length < bytes.length)
    (hnext : (loop step t).Yields mid a rest) : (loop step s).Yields bytes a rest := by
  intro i hi
  obtain ⟨j, hj, hmid⟩ := h i hi
  obtain ⟨k, hk, hrest⟩ := hnext j hmid
  refine ⟨k, ?_, hrest⟩
  -- fewer bytes are left, so the steps that the rest may take are among those of the whole
  have hleft : j.left + 1 ≤ i.left := by
    rw [j.left_eq, i.left_eq, hi, hmid]
    exact hlt
  rw [loop, iterate_succ, hj]
  exact iterate_mono hleft hk

end Yields

/-! ### Tokens -/

/-- After some blanks the byte `b` comes next, and `rest` after it. -/
def Ahead (bytes : List UInt8) (b : UInt8) (rest : List UInt8) : Prop :=
  bytes.dropWhile isBlank = b :: rest

variable {bytes mid rest : List UInt8} {b : UInt8}

theorem ahead_cons (hb : isBlank b = false) (rest : List UInt8) : Ahead (b :: rest) b rest :=
  List.dropWhile_cons_of_neg (by rw [hb]; decide)

theorem ahead_of_blanks {blanks : List UInt8} (hblanks : ∀ c ∈ blanks, isBlank c = true)
    (hb : isBlank b = false) (rest : List UInt8) : Ahead (blanks ++ b :: rest) b rest := by
  rw [Ahead, List.dropWhile_append_of_pos hblanks]
  exact ahead_cons hb rest

theorem Ahead.length_lt (h : Ahead bytes b rest) : rest.length < bytes.length := by
  have hsuffix : bytes.dropWhile isBlank <:+ bytes := List.dropWhile_suffix _
  have hle := hsuffix.length_le
  rw [h, List.length_cons] at hle
  exact hle

theorem yields_token (bytes : List UInt8) :
    token.Yields bytes (bytes.dropWhile isBlank).head? (bytes.dropWhile isBlank) := by
  apply Yields.bind (yields_run isBlank bytes)
  exact yields_peek _

theorem Ahead.token (h : Ahead bytes b rest) : token.Yields bytes (some b) (b :: rest) := by
  have hread := yields_token bytes
  rw [h] at hread
  exact hread

/-- Passing over the byte that was looked at. -/
theorem yields_skip_one (b : UInt8) (rest : List UInt8) :
    (skip 1).Yields (b :: rest) () rest := yields_skip 1 (b :: rest)

theorem Ahead.separator (h : Ahead bytes colon rest) : separator.Yields bytes () rest := by
  apply Yields.bind h.token
  exact yields_skip_one colon rest

theorem Ahead.endObject (h : Ahead bytes closeBrace rest) : endObject.Yields bytes () rest := by
  apply Yields.bind h.token
  exact yields_skip_one closeBrace rest

theorem Ahead.endList (h : Ahead bytes closeBracket rest) : endList.Yields bytes () rest := by
  apply Yields.bind h.token
  exact yields_skip_one closeBracket rest

/-! ### From one item to the next -/

theorem Ahead.noElement (h : Ahead bytes closeBracket rest) (first : Bool) :
    (nextElement first).Yields bytes false (closeBracket :: rest) := by
  apply Yields.bind h.token
  exact Yields.pure false _

theorem Ahead.firstElement (h : Ahead bytes b rest) (hb : b ≠ closeBracket) :
    (nextElement true).Yields bytes true (b :: rest) := by
  apply Yields.bind h.token
  show (if b = closeBracket then _ else _ : Reader Bool).Yields _ _ _
  rw [if_neg hb]
  exact Yields.pure true _

theorem Ahead.laterElement (hcomma : Ahead bytes comma mid) (h : Ahead mid b rest)
    (hb : b ≠ closeBracket) : (nextElement false).Yields bytes true (b :: rest) := by
  apply Yields.bind hcomma.token
  apply Yields.bind (yields_skip_one comma mid)
  apply Yields.bind h.token
  show (if b = closeBracket then _ else _ : Reader Bool).Yields _ _ _
  rw [if_neg hb]
  exact Yields.pure true _

theorem Ahead.noMember (h : Ahead bytes closeBrace rest) (first : Bool) :
    (nextMember first).Yields bytes false (closeBrace :: rest) := by
  apply Yields.bind h.token
  exact Yields.pure false _

theorem Ahead.firstMember (h : Ahead bytes quoteMark rest) :
    (nextMember true).Yields bytes true rest := by
  apply Yields.bind h.token
  apply Yields.bind (yields_skip_one quoteMark rest)
  exact Yields.pure true rest

theorem Ahead.laterMember (hcomma : Ahead bytes comma mid) (h : Ahead mid quoteMark rest) :
    (nextMember false).Yields bytes true rest := by
  apply Yields.bind hcomma.token
  apply Yields.bind (yields_skip_one comma mid)
  apply Yields.bind h.token
  apply Yields.bind (yields_skip_one quoteMark rest)
  exact Yields.pure true rest

end Reader

end Json

end Storyboard
