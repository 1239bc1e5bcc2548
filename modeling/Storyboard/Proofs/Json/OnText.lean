/-
Storyboard/Proofs/Json/OnText.lean

What readers do on texts.

`r.On cs post` speaks of a reader that finds the bytes of the characters `cs` unread.
Either it succeeds, and then it has stopped between two characters and `post` holds of
its answer and of the characters that are left; or it fails, and then not because of
bytes that are no text.  There is one rule for each way of putting readers together, so
what a reader accepts is derived along its definition.

Reading goes byte by byte, and only a byte of ASCII is a character of its own
(`eq_cons_of_head`).  A reader that takes one byte may thus stop inside of a character;
the rule for `next` asks that it fails then.
-/
import Storyboard.Proofs.Json.Trees

namespace Storyboard

namespace Json

/-! ### Bytes of characters -/

theorem encoded_nil : encoded [] = [] := List.flatMap_nil

theorem encoded_cons_of_lt {c : Char} (h : c.toNat < 0x80) (cs : List Char) :
    encoded (c :: cs) = UInt8.ofNat c.toNat :: encoded cs := by
  rw [encoded_cons, Utf8.encodeChar_of_lt h]
  rfl

theorem head_encoded_cons (c : Char) (cs : List Char) :
    ∃ b ∈ String.utf8EncodeChar c, (encoded (c :: cs)).head? = some b := by
  rw [encoded_cons]
  cases h : String.utf8EncodeChar c with
  | nil => exact absurd h String.utf8EncodeChar_ne_nil
  | cons b more => exact ⟨b, List.mem_cons_self, rfl⟩

theorem eq_nil_of_head {cs : List Char} (h : (encoded cs).head? = none) : cs = [] := by
  cases cs with
  | nil => rfl
  | cons c cs =>
    obtain ⟨b, -, hb⟩ := head_encoded_cons c cs
    rw [hb] at h
    cases h

/-- A byte of ASCII is a character. -/
theorem eq_cons_of_head {cs : List Char} {b : UInt8} (h : (encoded cs).head? = some b)
    (hb : b < 0x80) : ∃ rest, cs = Char.ofNat b.toNat :: rest := by
  cases cs with
  | nil => cases h
  | cons c cs =>
    obtain ⟨d, hd, hhead⟩ := head_encoded_cons c cs
    rw [hhead] at h
    obtain rfl : d = b := Option.some.inj h
    have hlt : d.toNat < 0x80 := UInt8.lt_iff_toNat_lt.mp hb
    have hval : d.toNat = c.toNat := (Utf8.toNat_of_mem_encodeChar hd).resolve_right (by omega)
    exact ⟨cs, by rw [hval, Char.ofNat_toNat]⟩

/-- The character of a byte of ASCII. -/
theorem toNat_ofNat_of_lt {b : UInt8} (hb : b < 0x80) : (Char.ofNat b.toNat).toNat = b.toNat := by
  have hall : ∀ n < 0x80, (Char.ofNat n).toNat = n := by decide
  exact hall b.toNat (UInt8.lt_iff_toNat_lt.mp hb)

theorem encoded_ofNat_cons {b : UInt8} (hb : b < 0x80) (cs : List Char) :
    encoded (Char.ofNat b.toNat :: cs) = b :: encoded cs := by
  have hval := toNat_ofNat_of_lt hb
  have hlt : b.toNat < 0x80 := UInt8.lt_iff_toNat_lt.mp hb
  rw [encoded_cons_of_lt (by omega), hval, UInt8.ofNat_toNat]

/-! ### Tests of characters -/

/-- All bytes beyond ASCII are tested alike. -/
def Uniform (test : UInt8 → Bool) : Prop := ∀ b : UInt8, 0x80 ≤ b → test b = test 0x80

/-- What a test of bytes says of a character. -/
def testsChar (test : UInt8 → Bool) (c : Char) : Bool :=
  if c.toNat < 0x80 then test (.ofNat c.toNat) else test 0x80

theorem test_of_mem {test : UInt8 → Bool} (h : Uniform test) {c : Char} {b : UInt8}
    (hb : b ∈ String.utf8EncodeChar c) : test b = testsChar test c := by
  rw [testsChar]
  split
  · rename_i hascii
    rw [Utf8.encodeChar_of_lt hascii] at hb
    rw [List.mem_singleton.mp hb]
  · rename_i hbeyond
    exact h b (Utf8.le_of_mem_encodeChar (Nat.le_of_not_lt hbeyond) hb)

/-- The longest run of tested bytes ends between two characters. -/
theorem exists_run {test : UInt8 → Bool} (h : Uniform test) (cs : List Char) :
    ∃ front rest, cs = front ++ rest ∧ (encoded cs).takeWhile test = encoded front ∧
      (encoded cs).dropWhile test = encoded rest ∧ (∀ c ∈ front, testsChar test c = true) ∧
      ∀ b, (encoded rest).head? = some b → test b = false := by
  induction cs with
  | nil =>
    refine ⟨[], [], rfl, rfl, rfl, fun c hc => absurd hc List.not_mem_nil, fun b hb => ?_⟩
    cases hb
  | cons c cs ih =>
    by_cases hc : testsChar test c = true
    · obtain ⟨front, rest, rfl, htake, hdrop, hfront, hrest⟩ := ih
      have hall : ∀ b ∈ String.utf8EncodeChar c, test b = true := by
        intro b hb
        rw [test_of_mem h hb, hc]
      refine ⟨c :: front, rest, rfl, ?_, ?_, ?_, hrest⟩
      · rw [encoded_cons, List.takeWhile_append_of_pos hall, htake, ← encoded_cons]
      · rw [encoded_cons, List.dropWhile_append_of_pos hall, hdrop]
      · intro d hd
        obtain rfl | hd := List.mem_cons.mp hd
        · exact hc
        · exact hfront d hd
    · -- the first byte already fails the test
      obtain ⟨b, hb, hhead⟩ := head_encoded_cons c cs
      have htest : test b = false := by
        rw [test_of_mem h hb]
        exact Bool.not_eq_true _ ▸ hc
      obtain ⟨more, hbytes⟩ := List.head?_eq_some_iff.mp hhead
      refine ⟨[], c :: cs, rfl, ?_, ?_, fun d hd => absurd hd List.not_mem_nil, fun d hd => ?_⟩
      · rw [hbytes, List.takeWhile_cons_of_neg (by rw [htest]; decide)]
        rfl
      · rw [hbytes, List.dropWhile_cons_of_neg (by rw [htest]; decide)]
      · rw [hhead] at hd
        rw [← Option.some.inj hd]
        exact htest

namespace Reader

variable {α β σ : Type} {cs : List Char} {post : α → List Char → Prop}

/-! ### Outcomes -/

/-- On the bytes of these characters the reader answers as `post` says, or fails for another
reason than bytes that are no text. -/
def On (r : Reader α) (cs : List Char) (post : α → List Char → Prop) : Prop :=
  ∀ i : Input, i.rest = encoded cs →
    match r i with
    | .ok a j => ∃ rest, j.rest = encoded rest ∧ post a rest
    | .fail e _ => e.fault ≠ .invalidUtf8

/-- The reader fails on all bytes, and not because they are no text. -/
def Rejects (r : Reader α) : Prop := ∀ i, ∃ e j, r i = .fail e j ∧ e.fault ≠ .invalidUtf8

theorem rejects_failHere {fault : Fault} (h : fault ≠ .invalidUtf8) :
    Rejects (failHere fault : Reader α) := fun i => ⟨_, i, rfl, h⟩

namespace On

theorem of_rejects {r : Reader α} (h : Rejects r) : r.On cs post := by
  intro i hi
  obtain ⟨e, j, hfail, hfault⟩ := h i
  rw [hfail]
  exact hfault

theorem mono {r : Reader α} {pre : α → List Char → Prop} (h : r.On cs pre)
    (hpost : ∀ a rest, pre a rest → post a rest) : r.On cs post := by
  intro i hi
  have h := h i hi
  cases hr : r i with
  | ok a j =>
    rw [hr] at h
    obtain ⟨rest, hrest, ha⟩ := h
    exact ⟨rest, hrest, hpost a rest ha⟩
  | fail e j =>
    rw [hr] at h
    exact h

/-- What holds of a reader holds of those that agree with it. -/
theorem of_agrees {r s : Reader α} (h : Agrees r s) (hs : s.On cs post) : r.On cs post := by
  intro i hi
  have hs := hs i hi
  have halike := h _ i i hi hi
  generalize r i = x at halike ⊢
  generalize s i = y at halike hs
  cases halike with
  | ok heq =>
    obtain ⟨rest, hrest, ha⟩ := hs
    exact ⟨rest, heq.trans hrest, ha⟩
  | fail hfault =>
    show _ ≠ _
    rw [hfault]
    exact hs

/-! ### Putting readers together -/

theorem pure {a : α} (h : post a cs) : (Pure.pure a : Reader α).On cs post :=
  fun _ hi => ⟨cs, hi, h⟩

theorem bind {r : Reader α} {f : α → Reader β} {pre : α → List Char → Prop}
    {post : β → List Char → Prop} (hr : r.On cs pre)
    (hf : ∀ a mid, pre a mid → (f a).On mid post) : (r >>= f).On cs post := by
  intro i hi
  have hr := hr i hi
  show match andThen r f i with
    | .ok b k => ∃ rest, k.rest = encoded rest ∧ post b rest
    | .fail e _ => e.fault ≠ .invalidUtf8
  rw [andThen]
  cases h : r i with
  | ok a j =>
    rw [h] at hr
    obtain ⟨mid, hmid, ha⟩ := hr
    exact hf a mid ha j hmid
  | fail e j =>
    rw [h] at hr
    exact hr

theorem failHere {fault : Fault} (h : fault ≠ .invalidUtf8) :
    (Reader.failHere fault : Reader α).On cs post := fun _ _ => h

theorem failNext {fault : Fault} (h : fault ≠ .invalidUtf8) :
    (Reader.failNext fault : Reader α).On cs post := fun _ _ => h

theorem failUnplaced {fault : Fault} (h : fault ≠ .invalidUtf8) :
    (Reader.failUnplaced fault : Reader α).On cs post := fun _ _ => h

theorem placing {r : Reader α} (h : r.On cs post) : (Reader.placing r).On cs post := by
  intro i hi
  have h := h i hi
  rw [Reader.placing]
  cases hr : r i with
  | ok a j =>
    rw [hr] at h
    exact h
  | fail e j =>
    rw [hr] at h
    obtain ⟨fault, place?⟩ := e
    cases place? with
    | none => exact h
    | some p => exact h

theorem closing {body : Reader α} {ending : Reader Unit} {pre : α → List Char → Prop}
    (hbody : body.On cs pre)
    (hending : ∀ a mid, pre a mid → ending.On mid fun _ rest => post a rest) :
    (Reader.closing body ending).On cs post := by
  intro i hi
  have hbody := hbody i hi
  rw [Reader.closing]
  cases h : body i with
  | ok a j =>
    rw [h] at hbody
    obtain ⟨mid, hmid, ha⟩ := hbody
    have hending := hending a mid ha j hmid
    cases hk : ending j with
    | ok u k =>
      rw [hk] at hending
      simp only [hk]
      exact hending
    | fail e k =>
      rw [hk] at hending
      simp only [hk]
      exact hending
  | fail e j =>
    -- the error is that of the body, however the end is read
    rw [h] at hbody
    cases hk : ending j with
    | ok u k =>
      simp only [hk]
      exact hbody
    | fail e' k =>
      simp only [hk]
      exact hbody

/-- What every step keeps true holds at the last one. -/
theorem loop {step : σ → Reader (σ ⊕ α)} (inv : σ → List Char → Prop)
    (hstep : ∀ s mid, inv s mid →
      (step s).On mid fun out rest => Sum.elim (fun t => inv t rest) (fun a => post a rest) out)
    {s : σ} (hs : inv s cs) : (Reader.loop step s).On cs post := by
  have hiterate : ∀ (n : Nat) (s : σ) (mid : List Char), inv s mid →
      (iterate step n s).On mid post := by
    intro n
    induction n with
    | zero => intro s mid _; exact On.failHere (by decide)
    | succ n ih =>
      intro s mid hs i hi
      have hstep := hstep s mid hs i hi
      rw [iterate_succ]
      cases h : step s i with
      | fail e j =>
        rw [h] at hstep
        exact hstep
      | ok out j =>
        rw [h] at hstep
        obtain ⟨rest, hrest, hout⟩ := hstep
        cases out with
        | inl t => exact ih t rest hout j hrest
        | inr a => exact ⟨rest, hrest, hout⟩
  intro i hi
  exact hiterate _ s cs hs i hi

end On

/-! ### Bytes -/

/-- The byte that comes next.  Beyond ASCII it is only a part of a character. -/
theorem on_next_bind {f : Option UInt8 → Reader α} (hnone : cs = [] → (f none).On [] post)
    (hascii : ∀ b rest, b < 0x80 → cs = Char.ofNat b.toNat :: rest → (f (some b)).On rest post)
    (hbeyond : ∀ b, 0x80 ≤ b → Rejects (f (some b))) : (next >>= f).On cs post := by
  intro i hi
  show match andThen next f i with
    | .ok b k => ∃ rest, k.rest = encoded rest ∧ post b rest
    | .fail e _ => e.fault ≠ .invalidUtf8
  rw [andThen, next]
  cases h : i.rest with
  | nil =>
    have hcs : cs = [] := eq_nil_of_head (by rw [← hi, h]; rfl)
    subst hcs
    exact hnone rfl i hi
  | cons b bytes =>
    have hhead : (encoded cs).head? = some b := by rw [← hi, h]; rfl
    by_cases hb : b < 0x80
    · obtain ⟨rest, rfl⟩ := eq_cons_of_head hhead hb
      refine hascii b rest hb rfl (i.skip 1) ?_
      show i.rest.drop 1 = encoded rest
      rw [hi, encoded_ofNat_cons hb]
      rfl
    · obtain ⟨e, j, hfail, hfault⟩ := hbeyond b (UInt8.not_lt.mp hb) (i.skip 1)
      simp only [hfail]
      exact hfault

theorem on_peek (cs : List Char) :
    peek.On cs fun b? rest => cs = rest ∧ b? = (encoded cs).head? := by
  intro i hi
  refine ⟨cs, hi, rfl, ?_⟩
  rw [← hi]

/-- Passing over a byte that was looked at. -/
theorem on_skip_bind {f : Unit → Reader α} {b : UInt8} (hhead : (encoded cs).head? = some b)
    (hb : b < 0x80)
    (hf : ∀ rest, cs = Char.ofNat b.toNat :: rest → (f ()).On rest post) :
    (skip 1 >>= f).On cs post := by
  obtain ⟨rest, rfl⟩ := eq_cons_of_head hhead hb
  have hskip : (skip 1).On (Char.ofNat b.toNat :: rest) fun _ mid => rest = mid := by
    intro i hi
    refine ⟨rest, ?_, rfl⟩
    show i.rest.drop 1 = encoded rest
    rw [hi, encoded_ofNat_cons hb]
    rfl
  refine On.bind hskip ?_
  rintro _ _ rfl
  exact hf _ rfl

theorem on_run {test : UInt8 → Bool} (htest : Uniform test) (cs : List Char) :
    (run test).On cs fun bytes rest => ∃ front, cs = front ++ rest ∧ bytes = encoded front ∧
      (∀ c ∈ front, testsChar test c = true) ∧
      ∀ b, (encoded rest).head? = some b → test b = false := by
  obtain ⟨front, rest, hcs, htake, hdrop, hfront, hrest⟩ := exists_run htest cs
  intro i hi
  obtain ⟨j, hj, hjrest⟩ := yields_run test (encoded cs) i hi
  rw [hj]
  exact ⟨rest, by rw [hjrest, hdrop], front, hcs, htake, hfront, hrest⟩

/-! ### Tokens -/

theorem uniform_isBlank : Uniform isBlank := by
  intro b hb
  have hge : 0x80 ≤ b.toNat := UInt8.le_iff_toNat_le.mp hb
  have hne {k : UInt8} (hk : k.toNat < 0x80) : (b == k) = false := by
    rw [beq_eq_false_iff_ne]
    rintro rfl
    omega
  rw [isBlank, hne (by decide), hne (by decide), hne (by decide), hne (by decide)]
  rfl

theorem blank_of_testsChar {c : Char} (h : testsChar isBlank c = true) :
    c = ' ' ∨ c = '\n' ∨ c = '\t' ∨ c = '\r' := by
  rw [testsChar] at h
  split at h
  · rename_i hascii
    simp only [isBlank, Bool.or_eq_true, beq_iff_eq, or_assoc] at h
    have hval {k : UInt8} (hk : UInt8.ofNat c.toNat = k) : c.toNat = k.toNat := by
      rw [← hk, Utf8.toNat_byte (by omega)]
    rcases h with h | h | h | h
    · exact .inl (Char.toNat_inj.mp (hval h))
    · exact .inr (.inl (Char.toNat_inj.mp (hval h)))
    · exact .inr (.inr (.inl (Char.toNat_inj.mp (hval h))))
    · exact .inr (.inr (.inr (Char.toNat_inj.mp (hval h))))
  · cases h

/-- A look at the byte after some white space. -/
theorem on_token_bind {f : Option UInt8 → Reader α}
    (hnone : Starts [] cs [] → (f none).On [] post)
    (hsome : ∀ b mid, Starts [] cs mid → (encoded mid).head? = some b → (f (some b)).On mid post) :
    (token >>= f).On cs post := by
  have htoken : token.On cs fun b? mid => Starts [] cs mid ∧ b? = (encoded mid).head? := by
    refine On.bind (on_run uniform_isBlank cs) ?_
    rintro bytes mid ⟨front, rfl, -, hfront, -⟩
    refine (on_peek mid).mono ?_
    rintro b? _ ⟨rfl, hb⟩
    refine ⟨Starts.blanks (fun c hc => ?_) _, hb⟩
    rw [String.toList_ofList] at hc
    exact blank_of_testsChar (hfront c hc)
  refine On.bind htoken ?_
  rintro b? mid ⟨hstarts, hb⟩
  cases b? with
  | none =>
    obtain rfl := eq_nil_of_head hb.symm
    exact hnone hstarts
  | some b => exact hsome b mid hstarts hb.symm

end Reader

end Json

end Storyboard
