/-
Storyboard/Proofs/Json/Doubles.lean

Doubles read back inside a text.

Whether a double is read back from its own text depends on how its digits are
scaled, and is assumed here.  What is shown is that it does not depend on where
the text stands: the text of a double holds no blank, so a reader that takes it
for a whole document has read all of it, and it is then read the same in front
of a delimiter.
-/
import Storyboard.Json.Shape
import Storyboard.Proofs.Json.Steady

namespace Storyboard

namespace Json

/-! ### The text of a double -/

/-- No blank, and no character that is one in part. -/
def Unblank (chars : List Char) : Prop := ∀ c ∈ chars, 0x20 < c.toNat

theorem unblank_toDigits (n : Nat) : Unblank (Nat.toDigits 10 n) := by
  intro c hc
  have h := (toNat_of_isDigit (digits_toDigits n c hc)).1
  omega

theorem unblank_append {cs ds : List Char} (hcs : Unblank cs) (hds : Unblank ds) :
    Unblank (cs ++ ds) := by
  intro c hc
  obtain hc | hc := List.mem_append.mp hc
  · exact hcs c hc
  · exact hds c hc

theorem unblank_cons {c : Char} {cs : List Char} (hc : 0x20 < c.toNat) (hcs : Unblank cs) :
    Unblank (c :: cs) := by
  intro d hd
  obtain rfl | hd := List.mem_cons.mp hd
  · exact hc
  · exact hcs d hd

theorem unblank_nil : Unblank [] := fun _ hc => absurd hc List.not_mem_nil

theorem unblank_of_all {chars : List Char} (h : (chars.all fun c => 0x20 < c.toNat) = true) :
    Unblank chars := fun c hc => of_decide_eq_true (List.all_eq_true.mp h c hc)

theorem unblank_of_subset {cs ds : List Char} (h : ∀ c ∈ cs, c ∈ ds) (hds : Unblank ds) :
    Unblank cs := fun c hc => hds c (h c hc)

theorem unblank_zeros (n : Nat) : Unblank (List.replicate n '0') := by
  intro c hc
  rw [List.eq_of_mem_replicate hc]
  decide

theorem unblank_decimal (d : Decimal) : Unblank d.jsonText := by
  have hdigits : Unblank (Nat.toDigits 10 d.digits) := unblank_toDigits d.digits
  have htake (k : Nat) : Unblank ((Nat.toDigits 10 d.digits).take k) :=
    unblank_of_subset (fun _ => List.mem_of_mem_take) hdigits
  have hdrop (k : Nat) : Unblank ((Nat.toDigits 10 d.digits).drop k) :=
    unblank_of_subset (fun _ => List.mem_of_mem_drop) hdigits
  rw [Decimal.jsonText]
  -- written out with the point behind, inside or before the digits, or with an exponent
  split
  · split
    · apply unblank_append (unblank_append hdigits (unblank_zeros _))
      exact unblank_cons (by decide) (unblank_cons (by decide) unblank_nil)
    · exact unblank_append (htake _) (unblank_cons (by decide) (hdrop _))
  split
  · apply unblank_cons (by decide)
    apply unblank_cons (by decide)
    exact unblank_append (unblank_zeros _) hdigits
  · refine unblank_append (unblank_append (htake 1) ?_) ?_
    · split
      · exact unblank_nil
      · exact unblank_cons (by decide) (hdrop 1)
    · apply unblank_cons (by decide)
      apply unblank_cons
      · split <;> decide
      · exact unblank_toDigits _

theorem unblank_jsonText (x : Binary64) : Unblank x.jsonText.toList := by
  rw [Binary64.jsonText]
  split
  · exact unblank_of_all (by decide)
  · rw [String.toList_append]
    apply unblank_append
    · rw [Binary64.signText]
      split
      · exact unblank_of_all (by decide)
      · exact unblank_nil
    · split
      · exact unblank_of_all (by decide)
      · rw [String.toList_ofList]
        exact unblank_decimal _

/-- A byte of such a character is no blank. -/
theorem isBlank_of_mem_encoded {chars : List Char} (h : Unblank chars) :
    ∀ b ∈ encoded chars, isBlank b = false := by
  intro b hb
  rw [encoded, List.mem_flatMap] at hb
  obtain ⟨c, hc, hb⟩ := hb
  have hgt : 0x20 < b.toNat := by
    obtain hval | hge := Utf8.toNat_of_mem_encodeChar hb
    · rw [hval]
      exact h c hc
    · omega
  have hne {k : UInt8} (hk : k.toNat ≤ 0x20) : (b == k) = false := by
    rw [beq_eq_false_iff_ne]
    rintro rfl
    omega
  rw [isBlank, hne (by decide), hne (by decide), hne (by decide), hne (by decide)]
  rfl

/-! ### Reading it back -/

/-- The double is read back from its own text. -/
def ReadsBack (x : Binary64) : Prop :=
  Reader.runOn Reader.float .text (Utf8.encode x.jsonText) = .ok x

namespace Reader

variable {α : Type}

theorem placing_eq_ok {r : Reader α} {i j : Input} {a : α} (h : placing r i = .ok a j) :
    r i = .ok a j := by
  rw [placing] at h
  split at h
  · cases h
  · exact h

theorem fails_wrongKind (expected : String) : Fails (wrongKind expected : Reader α) := by
  intro i a j h
  have hbody := placing_eq_ok h
  obtain ⟨f, k, -, hfail⟩ := bind_eq_ok hbody
  cases hfail

/-- A document that is read has nothing but blanks after its value. -/
theorem document_eq_ok {r : Reader α} {i k : Input} {a : α} (h : document r i = .ok a k) :
    ∃ j, r i = .ok a j ∧ j.rest.dropWhile isBlank = [] := by
  obtain ⟨b, j, hj, hend⟩ := bind_eq_ok h
  obtain ⟨b?, l, hl, hlast⟩ := bind_eq_ok hend
  obtain ⟨rfl, -⟩ := (yields_token j.rest).eq_of_ok rfl hl
  cases hhead : j.rest.dropWhile isBlank with
  | nil =>
    rw [hhead] at hlast
    obtain rfl : b = a := by
      cases hlast
      rfl
    exact ⟨j, hj, hhead⟩
  | cons c rest =>
    rw [hhead] at hlast
    cases hlast

/-- A double that was read was a number. -/
theorem float_eq_ok {i j : Input} {x : Binary64} (h : float i = .ok x j) :
    ∃ b rest k n, i.rest.dropWhile isBlank = b :: rest ∧ beginsNumber b = true ∧
      k.rest = b :: rest ∧ number b k = .ok n j ∧ n.toFloat = x := by
  obtain ⟨b?, k, hk, hvalue⟩ := bind_eq_ok h
  obtain ⟨rfl, hrest⟩ := (yields_token i.rest).eq_of_ok rfl hk
  cases hhead : i.rest.dropWhile isBlank with
  | nil =>
    rw [hhead] at hvalue
    cases hvalue
  | cons b rest =>
    rw [hhead] at hvalue hrest
    by_cases hb : beginsNumber b = true
    · change (if beginsNumber b = true then _ else _ : Reader Binary64) k = _ at hvalue
      rw [if_pos hb] at hvalue
      obtain ⟨n, l, hl, hfloat⟩ := bind_eq_ok (placing_eq_ok hvalue)
      cases hfloat
      exact ⟨b, rest, k, n, rfl, hb, hrest, hl, rfl⟩
    · change (if beginsNumber b = true then _ else _ : Reader Binary64) k = _ at hvalue
      rw [if_neg hb] at hvalue
      exact absurd hvalue (fails_wrongKind _ k x j)

end Reader

/-- A double that is read back from its own text is read back wherever it stands. -/
theorem readsNumber_of_readsBack {x : Binary64} (h : ReadsBack x) :
    ∃ n, n.toFloat = x ∧ Reader.ReadsNumber (Utf8.encode x.jsonText) n := by
  have hblank : ∀ b ∈ Utf8.encode x.jsonText, isBlank b = false :=
    isBlank_of_mem_encoded (unblank_jsonText x)
  have hnone {bytes : List UInt8} (hbytes : ∀ b ∈ bytes, isBlank b = false) :
      bytes.dropWhile isBlank = bytes := by
    cases bytes with
    | nil => rfl
    | cons b rest =>
      rw [List.dropWhile_cons_of_neg (by rw [hbytes b List.mem_cons_self]; decide)]
  -- the text was read as a document, hence as one number with only blanks after it
  obtain ⟨k, hk⟩ : ∃ k, Reader.document Reader.float (.start (Utf8.encode x.jsonText)) =
      .ok x k := by
    rw [ReadsBack, Reader.runOn] at h
    split at h
    · rename_i value k hok
      cases h
      exact ⟨k, hok⟩
    · cases h
  obtain ⟨j, hj, hend⟩ := Reader.document_eq_ok hk
  obtain ⟨b, rest, l, n, hhead, hb, hl, hnumber, hn⟩ := Reader.float_eq_ok hj
  have hbytes : Utf8.encode x.jsonText = b :: rest := by
    rw [← hhead]
    exact (hnone hblank).symm
  obtain ⟨hsuffix, hyields⟩ :=
    Reader.steadyAt_number b (b :: rest) (List.cons_ne_nil b rest) l n j hl hnumber
  -- what is left is blank, and no byte of the text is
  have hall : j.rest = [] := by
    rw [← hend]
    refine (hnone fun c hc => hblank c ?_).symm
    rw [hbytes]
    exact hsuffix.subset hc
  rw [hall] at hyields
  rw [hbytes]
  refine ⟨n, hn, ⟨b, rest, rfl, hb⟩, ?_⟩
  intro c tail hc htail
  obtain rfl : b = c := Option.some.inj hc
  exact hyields tail htail

end Json

end Storyboard
