/-
Storyboard/Proofs/Json/Bytewise.lean

Strings from a stream and strings from a text.

A stream gives the bytes of a string one at a time, where a text is searched for the end of
a run.  The two agree: a plain byte that is read alone goes where it would have gone as the
first of a run (`InRuns`), and from one byte to the next this carries over to the whole
string (`InRuns.agrees`).
-/
import Storyboard.Json.Skipping
import Storyboard.Proofs.Json.Alike

namespace Storyboard

namespace Json

namespace Reader

variable {α β σ : Type}

/-! ### Escapes -/

theorem blind_nextInString : Blind nextInString := by
  refine blind_next.bind fun b? => ?_
  cases b? with
  | none => exact Blind.failHere _
  | some b => exact Blind.pure b

theorem nextInString_of_nil {i : Input} (h : i.rest = []) :
    nextInString i = .fail ⟨.endInString, some i.here⟩ i := by
  show andThen next _ i = _
  rw [andThen, next, h]
  rfl

theorem nextInString_of_cons {i : Input} {b : UInt8} {rest : List UInt8} (h : i.rest = b :: rest) :
    nextInString i = .ok b (i.skip 1) ∧ (i.skip 1).rest = rest := by
  refine ⟨?_, ?_⟩
  · show andThen next _ i = _
    rw [andThen, next, h]
    rfl
  · show i.rest.drop 1 = rest
    rw [h]
    rfl

/-- A step that begins with a byte of a string consumes it. -/
theorem advances_nextInString {f : σ → UInt8 → Reader (σ ⊕ α)} (hf : ∀ s b, Blind (f s b)) :
    Advances fun s => nextInString >>= f s := by
  intro s i t j h
  change (nextInString >>= f s) i = .ok (.inl t) j at h
  cases hrest : i.rest with
  | nil =>
    rw [bind_of_fail (nextInString_of_nil hrest)] at h
    cases h
  | cons b rest =>
    rw [bind_of_ok (nextInString_of_cons hrest).1] at h
    have hle : j.left ≤ i.left - 1 := (hf s b).left_le h
    have hpos : 0 < i.left := by rw [i.left_eq, hrest]; exact Nat.succ_pos _
    omega

/-- Before four bytes are read, the string may end. -/
theorem fourDigitsInTurn_of_short {i : Input} (h : i.rest.length < 4) :
    ∃ k, fourDigitsInTurn i = .fail ⟨.endInString, some k.here⟩ k := by
  rw [fourDigitsInTurn]
  cases h₀ : i.rest with
  | nil => exact ⟨i, bind_of_fail (nextInString_of_nil h₀)⟩
  | cons a rest =>
    obtain ⟨ha, h₁⟩ := nextInString_of_cons h₀
    rw [bind_of_ok ha]
    cases rest with
    | nil => exact ⟨_, bind_of_fail (nextInString_of_nil h₁)⟩
    | cons b rest =>
      obtain ⟨hb, h₂⟩ := nextInString_of_cons h₁
      rw [bind_of_ok hb]
      cases rest with
      | nil => exact ⟨_, bind_of_fail (nextInString_of_nil h₂)⟩
      | cons c rest =>
        obtain ⟨hc, h₃⟩ := nextInString_of_cons h₂
        rw [bind_of_ok hc]
        cases rest with
        | nil => exact ⟨_, bind_of_fail (nextInString_of_nil h₃)⟩
        | cons d rest =>
          rw [h₀] at h
          simp only [List.length_cons] at h
          omega

/-- Digits that are read in turn are those that are taken at once. -/
theorem agrees_fourDigits : Agrees fourDigitsInTurn fourDigitsAtOnce := by
  intro bytes i j hi hj
  rw [fourDigitsAtOnce, j.left_eq, hj]
  by_cases hshort : bytes.length < 4
  · obtain ⟨k, hk⟩ := fourDigitsInTurn_of_short (hi ▸ hshort)
    rw [hk, if_pos hshort]
    exact .fail rfl rfl
  · rw [if_neg hshort]
    obtain ⟨a, b, c, d, rest, rfl⟩ : ∃ a b c d rest, bytes = a :: b :: c :: d :: rest := by
      match bytes, Nat.le_of_not_lt hshort with
      | a :: b :: c :: d :: rest, _ => exact ⟨a, b, c, d, rest, rfl⟩
    obtain ⟨ha, h₁⟩ := nextInString_of_cons hi
    obtain ⟨hb, h₂⟩ := nextInString_of_cons h₁
    obtain ⟨hc, h₃⟩ := nextInString_of_cons h₂
    obtain ⟨hd, h₄⟩ := nextInString_of_cons h₃
    have hrest : (j.skip 4).rest = rest := by
      show j.rest.drop 4 = rest
      rw [hj]
      rfl
    have htake : (a :: b :: c :: d :: rest).take 4 = [a, b, c, d] := rfl
    rw [fourDigitsInTurn, bind_of_ok ha, bind_of_ok hb, bind_of_ok hc, bind_of_ok hd, htake]
    cases hexNumber? [a, b, c, d] with
    | none => exact .fail rfl rfl
    | some n =>
      refine .ok (h₄.trans hrest.symm) ?_
      rw [h₄]
      exact List.drop_suffix 4 (a :: b :: c :: d :: rest)

theorem blind_fourDigits : Blind fourDigits := agrees_fourDigits.bySource.blind

theorem blind_pairByte (expected : UInt8) : Blind (pairByte expected) := by
  refine blind_next.bind fun b? => ?_
  cases b? with
  | none => exact Blind.failHere _
  | some b => exact (Blind.pure _).ite (Blind.failHere _)

theorem blind_escapedChar : Blind escapedChar := by
  refine blind_fourDigits.bind fun n => (Blind.failHere _).ite (Blind.ite ?_ (Blind.pure _))
  refine (blind_pairByte _).bind fun _ => (blind_pairByte _).bind fun _ => ?_
  exact blind_fourDigits.bind fun m => (Blind.pure _).ite (Blind.failHere _)

theorem blind_escapeSequence : Blind escapeSequence := by
  refine blind_next.bind fun b? => ?_
  cases b? with
  | none => exact Blind.failHere _
  | some letter =>
    refine (blind_escapedChar.bind fun c => Blind.pure _).ite ?_
    cases simpleEscape? letter with
    | none => exact Blind.failHere _
    | some b => exact Blind.pure _

theorem blind_skipEscape : Blind skipEscape := by
  refine blind_next.bind fun b? => ?_
  cases b? with
  | none => exact Blind.failHere _
  | some letter =>
    exact (blind_fourDigits.bind fun _ => Blind.pure _).ite
      ((Blind.pure _).ite (Blind.failHere _))

/-! ### Runs of plain bytes -/

/-- The next byte does not stand for itself, or there is none. -/
def AtEdge (i : Input) : Prop := ∀ b, i.rest.head? = some b → isPlain b = false

theorem exists_plain {i : Input} (h : ¬ AtEdge i) :
    ∃ b rest, i.rest = b :: rest ∧ isPlain b = true := by
  rw [AtEdge] at h
  cases hrest : i.rest with
  | nil => exact absurd (fun b hb => by rw [hrest] at hb; cases hb) h
  | cons b rest =>
    refine ⟨b, rest, rfl, ?_⟩
    rw [hrest] at h
    cases hb : isPlain b with
    | true => rfl
    | false => exact absurd (fun c hc => by cases hc; exact hb) h

theorem run_isPlain_of_atEdge {i : Input} (h : AtEdge i) : run isPlain i = .ok [] i := by
  have htake : i.rest.takeWhile isPlain = [] := by
    cases hrest : i.rest with
    | nil => rfl
    | cons b rest =>
      have hb : isPlain b = false := h b (by rw [hrest]; rfl)
      rw [List.takeWhile_cons_of_neg (by rw [hb]; decide)]
  rw [run, htake]
  rfl

/-- The first byte of a run may be passed over before. -/
theorem alike_run_bind {f : List UInt8 → Reader β} (hf : ∀ plain, Blind (f plain)) {i : Input}
    {b : UInt8} {rest : List UInt8} (hi : i.rest = b :: rest) (hb : isPlain b = true) :
    ((run isPlain >>= f) i).Alike i.rest
      ((run isPlain >>= fun plain => f (b :: plain)) (i.skip 1)) := by
  have hskip : (i.skip 1).rest = rest := (nextInString_of_cons hi).2
  obtain ⟨j, hj, hjrest⟩ := yields_run isPlain _ i hi
  obtain ⟨k, hk, hkrest⟩ := yields_run isPlain _ (i.skip 1) hskip
  rw [List.takeWhile_cons_of_pos hb] at hj
  rw [List.dropWhile_cons_of_pos hb] at hjrest
  rw [bind_of_ok hj, bind_of_ok hk, hi]
  exact (hf _ _ j k hjrest hkrest).mono ((List.dropWhile_suffix _).trans (List.suffix_cons b rest))

/-- Two steps of a repetition, of which one takes plain bytes one at a time and the other in
runs.  `push` is what a plain byte adds to the state. -/
structure InRuns (byteStep runStep : σ → Reader (σ ⊕ α)) (push : UInt8 → σ → σ) : Prop where
  byte_plain : ∀ s i b rest, i.rest = b :: rest → isPlain b = true →
    byteStep s i = .ok (.inl (push b s)) (i.skip 1)
  run_plain : ∀ s i b rest, i.rest = b :: rest → isPlain b = true →
    (runStep s i).Alike i.rest (runStep (push b s) (i.skip 1))
  edge : ∀ s i, AtEdge i → (byteStep s i).Alike i.rest (runStep s i)
  blind : ∀ s, Blind (runStep s)
  advances : Advances byteStep

namespace InRuns

variable {byteStep runStep : σ → Reader (σ ⊕ α)} {push : UInt8 → σ → σ}

theorem lt_of_atEdge (h : InRuns byteStep runStep push) {s t : σ} {i j : Input}
    (hedge : AtEdge i) (hstep : runStep s i = .ok (.inl t) j) : j.left < i.left := by
  have halike := (h.edge s i hedge).symm
  rw [hstep] at halike
  obtain ⟨k, hk, heq⟩ := halike.eq_ok
  rw [Input.left_eq_left heq]
  exact h.advances s i t k hk

/-- A run ends in a step that is made at its edge, so it consumes bytes as that one does. -/
theorem advances_run (h : InRuns byteStep runStep push) : Advances runStep := by
  intro s i t j hstep
  generalize hbytes : i.rest = bytes
  induction bytes generalizing s i j with
  | nil => exact h.lt_of_atEdge (fun b hb => by rw [hbytes] at hb; cases hb) hstep
  | cons b rest ih =>
    by_cases hedge : AtEdge i
    · exact h.lt_of_atEdge hedge hstep
    · obtain ⟨c, tail, htail, hb⟩ := exists_plain hedge
      obtain ⟨rfl, rfl⟩ := List.cons.inj (hbytes.symm.trans htail)
      have hrun := h.run_plain s i b rest hbytes hb
      rw [hstep] at hrun
      obtain ⟨k, hk, heq⟩ := hrun.eq_ok
      have hlt := ih (push b s) (i.skip 1) k hk (nextInString_of_cons hbytes).2
      rw [Input.left_eq_left heq]
      exact Nat.lt_of_lt_of_le hlt (Nat.sub_le i.left 1)

theorem agrees (h : InRuns byteStep runStep push) (s : σ) :
    Agrees (loop byteStep s) (loop runStep s) := by
  intro bytes
  generalize hn : bytes.length = n
  induction n using Nat.strongRecOn generalizing bytes s with
  | ind n ih =>
  intro i j hi hj
  by_cases hedge : AtEdge i
  · -- both make the step that ends the run
    have hstep := (h.edge s i hedge).trans (h.blind s i.rest i j rfl (hj.trans hi.symm))
    have hlt : ∀ t k, byteStep s i = .ok (.inl t) k → k.left < i.left := h.advances s i
    rw [loop_eq_of_advances h.advances, loop_eq_of_advances h.advances_run]
    rw [hi] at hstep
    generalize byteStep s i = x at hstep hlt ⊢
    generalize runStep s j = y at hstep ⊢
    cases hstep with
    | @ok out k l heq hrest =>
      cases out with
      | inl t =>
        have hlt := hlt t k rfl
        rw [i.left_eq, k.left_eq, hi, hn] at hlt
        exact (ih _ hlt t k.rest rfl k l rfl heq.symm).mono hrest
      | inr a => exact .ok heq hrest
    | fail hfault hplace => exact .fail hfault hplace
  · -- a plain byte alone, and the same one as the first of a run
    obtain ⟨b, rest, hrest, hb⟩ := exists_plain hedge
    obtain rfl : bytes = b :: rest := hi.symm.trans hrest
    have hbyte : loop byteStep s i = loop byteStep (push b s) (i.skip 1) := by
      rw [loop_eq_of_advances h.advances, h.byte_plain s i b rest hi hb]
    have htail : (loop byteStep (push b s) (i.skip 1)).Alike rest
        (loop runStep (push b s) (j.skip 1)) :=
      ih rest.length (by rw [← hn]; exact Nat.lt_succ_self _) (push b s) rest rfl _ _
        (nextInString_of_cons hi).2 (nextInString_of_cons hj).2
    have hrun : (loop runStep s j).Alike (b :: rest) (loop runStep (push b s) (j.skip 1)) :=
      alike_loop h.advances_run h.blind (hj ▸ h.run_plain s j b rest hj hb)
    rw [hbyte]
    exact (htail.mono (List.suffix_cons b rest)).trans hrun.symm

end InRuns

/-! ### Strings -/

theorem blind_contentEdge (found : List UInt8) (b : UInt8) : Blind (contentEdge found b) := by
  refine (Blind.pure _).ite (Blind.ite ?_ (Blind.failHere _))
  exact blind_escapeSequence.bind fun bytes => Blind.pure _

theorem inRuns_content : InRuns contentByteStep contentStep List.cons where
  byte_plain found i b rest hi hb := by
    rw [contentByteStep, bind_of_ok (nextInString_of_cons hi).1, if_pos hb]
    rfl
  run_plain found i b rest hi hb :=
    alike_run_bind (fun _ => blind_nextInString.bind (blind_contentEdge _)) hi hb
  edge found i hedge := by
    rw [contentStep, bind_of_ok (run_isPlain_of_atEdge hedge), contentByteStep]
    show Outcome.Alike _ _ ((nextInString >>= contentEdge found) i)
    cases hrest : i.rest with
    | nil =>
      have hend := nextInString_of_nil hrest
      rw [bind_of_fail hend, bind_of_fail hend]
      exact .fail rfl rfl
    | cons b rest =>
      have hb : isPlain b = false := hedge b (by rw [hrest]; rfl)
      obtain ⟨hnext, htail⟩ := nextInString_of_cons hrest
      rw [bind_of_ok hnext, bind_of_ok hnext, if_neg (by rw [hb]; decide)]
      exact (blind_contentEdge found b _ _ _ htail htail).mono (List.suffix_cons b rest)
  blind found := (blind_run _).bind fun _ => blind_nextInString.bind (blind_contentEdge _)
  advances := advances_nextInString fun found b => (Blind.pure _).ite (blind_contentEdge found b)

/-- The content of a string is the one that is read in runs. -/
theorem agrees_content : Agrees content (loop contentStep []) :=
  (inRuns_content.agrees []).bySource

/-! ### Strings that are passed over -/

theorem blind_skipEdge : Blind skipEdge := by
  refine blind_peek.bind fun b? => ?_
  cases b? with
  | none => exact Blind.failHere _
  | some b =>
    refine Blind.ite ((blind_skip 1).bind fun _ => Blind.pure _) (Blind.ite ?_ (Blind.failHere _))
    exact (blind_skip 1).bind fun _ => blind_skipEscape.bind fun _ => Blind.pure _

theorem inRuns_skip : InRuns skipByteStep skipStringStep fun _ s => s where
  byte_plain s i b rest hi hb := by
    rw [skipByteStep, bind_of_ok (nextInString_of_cons hi).1, if_pos hb]
    rfl
  run_plain s i b rest hi hb := alike_run_bind (fun _ => blind_skipEdge) hi hb
  edge s i hedge := by
    rw [skipStringStep, bind_of_ok (run_isPlain_of_atEdge hedge), skipByteStep]
    cases hrest : i.rest with
    | nil =>
      have hpeek : peek i = .ok none i.look := by rw [peek, hrest]; rfl
      rw [bind_of_fail (nextInString_of_nil hrest), skipEdge, bind_of_ok hpeek]
      exact .fail rfl rfl
    | cons b rest =>
      -- the byte is read by one, and looked at by the other before it is passed over
      have hb : isPlain b = false := hedge b (by rw [hrest]; rfl)
      have hpeek : peek i = .ok (some b) i.look := by rw [peek, hrest]; rfl
      obtain ⟨hnext, htail⟩ := nextInString_of_cons hrest
      have hskip : (i.look.skip 1).rest = rest := (nextInString_of_cons (i := i.look) hrest).2
      have hsuffix : rest <:+ b :: rest := List.suffix_cons b rest
      rw [bind_of_ok hnext, if_neg (by rw [hb]; decide), skipEdge, bind_of_ok hpeek]
      simp only
      split
      · exact .ok (htail.trans hskip.symm) (htail ▸ hsuffix)
      split
      · have hescape : Blind (skipEscape >>= fun _ => pure (.inl ()) : Reader (Unit ⊕ Unit)) :=
          blind_skipEscape.bind fun _ => Blind.pure _
        exact (hescape rest _ _ htail hskip).mono hsuffix
      · exact .fail rfl rfl
  blind s := (blind_run _).bind fun _ => blind_skipEdge
  advances := advances_nextInString fun _ b =>
    (Blind.pure _).ite ((Blind.pure _).ite
      (Blind.ite (blind_skipEscape.bind fun _ => Blind.pure _) (Blind.failHere _)))

/-- The string that is passed over is the one that is passed over in runs. -/
theorem agrees_skipString : Agrees skipString (loop skipStringStep ()) :=
  (inRuns_skip.agrees ()).bySource

end Reader

end Json

end Storyboard
