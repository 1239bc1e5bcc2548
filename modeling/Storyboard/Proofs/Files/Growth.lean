/-
Storyboard/Proofs/Files/Growth.lean

Programs that make directories and change nothing else.

A file system has grown along some paths (`Grown`) if everything in it is still what
it was, and what is new are directories that these paths lead to.  Making one of the
directories is such a step, and steps of this kind compose, because a path that leads
to a directory leads there still when more directories are made.

`Grows` says this of a program, with what its answer satisfies.  The rules for it
follow the constructions of programs, and with them the directory above an output is
made step by step (`grows_makeParent`).
-/
import Storyboard.Output
import Storyboard.Proofs.Files.Walking

namespace Storyboard

namespace FileSystem

/-! ### Growth -/

/-- Everything is still what it was, and what is new are directories that some of these
paths lead to. -/
structure Grown (ways : List Path) (fs fs' : FileSystem) : Prop where
  workingDirectory : fs'.workingDirectory = fs.workingDirectory
  kept : ∀ l n, fs.node? l = some n → fs'.node? l = some n
  made : ∀ l n, fs.node? l = none → fs'.node? l = some n →
    n = .directory ∧ ∃ p ∈ ways, fs'.locate p = .ok l

namespace Grown

variable {ways : List Path} {fs fs' fs'' : FileSystem}

theorem refl (ways : List Path) (fs : FileSystem) : Grown ways fs fs where
  workingDirectory := rfl
  kept := fun _ _ h => h
  made := by
    intro l n hnone hsome
    rw [hnone] at hsome
    cases hsome

theorem keepsDirectories (h : Grown ways fs fs') : KeepsDirectories fs fs' where
  workingDirectory := h.workingDirectory
  directories := fun l hl => h.kept l .directory hl

theorem trans (h : Grown ways fs fs') (h' : Grown ways fs' fs'') : Grown ways fs fs'' where
  workingDirectory := h'.workingDirectory.trans h.workingDirectory
  kept := fun l n hl => h'.kept l n (h.kept l n hl)
  made := by
    intro l n hnone hsome
    cases hl : fs'.node? l with
    | none => exact h'.made l n hl hsome
    | some m =>
      -- made by the first growth, and the second one keeps it
      obtain ⟨rfl, p, hp, hlocate⟩ := h.made l m hnone hl
      obtain rfl : Node.directory = n := Option.some.inj ((h'.kept l _ hl).symm.trans hsome)
      exact ⟨rfl, p, hp, locate_keeps h'.keepsDirectories hlocate hl⟩

theorem makeDirectory {p : Path} (hp : p ∈ ways) (h : fs.makeDirectory p = .ok fs') :
    Grown ways fs fs' := by
  obtain ⟨directory, name, htarget, hlength, hnone, rfl⟩ := makeDirectory_eq_ok h
  have hother : ∀ l ≠ name :: directory, (fs.put (name :: directory) .directory).node? l = fs.node? l :=
    fun l hl => node?_put_of_ne fs hl .directory
  refine ⟨rfl, ?_, ?_⟩
  · intro l n hl
    have hne : l ≠ name :: directory := by
      rintro rfl
      rw [hnone] at hl
      cases hl
    rw [hother l hne]
    exact hl
  · intro l n hl hsome
    by_cases hnew : l = name :: directory
    · subst hnew
      rw [node?_put_self] at hsome
      obtain rfl := Option.some.inj hsome
      exact ⟨rfl, p, hp, locate_put_directory htarget hlength hnone⟩
    · rw [hother l hnew, hl] at hsome
      cases hsome

end Grown

/-! ### Programs -/

/-- The program makes directories on these ways and changes nothing else, and what it
answers satisfies `Q`. -/
def Grows {α : Type} (ways : List Path) (x : StateM FileSystem α) (Q : α → Prop) : Prop :=
  ∀ fs, Grown ways fs (fs.run x).2 ∧ Q (fs.run x).1

namespace Grows

variable {α β : Type} {ways : List Path}

theorem pure {a : α} {Q : α → Prop} (h : Q a) : Grows ways (Pure.pure a) Q :=
  fun fs => ⟨.refl ways fs, h⟩

theorem bind {x : StateM FileSystem α} {f : α → StateM FileSystem β} {P : α → Prop} {Q : β → Prop}
    (hx : Grows ways x P) (hf : ∀ a, P a → Grows ways (f a) Q) : Grows ways (x >>= f) Q := by
  intro fs
  obtain ⟨hgrown, hP⟩ := hx fs
  obtain ⟨hgrown', hQ⟩ := hf _ hP (fs.run x).2
  exact ⟨hgrown.trans hgrown', hQ⟩

theorem makeDirectory {p : Path} (hp : p ∈ ways) :
    Grows ways (Disk.makeDirectory p) fun _ => True := by
  intro fs
  show Grown ways fs (change (·.makeDirectory p) fs).2 ∧ True
  rw [change]
  split
  · rename_i fs' h
    exact ⟨.makeDirectory hp h, trivial⟩
  · exact ⟨.refl ways fs, trivial⟩

theorem isDirectory (p : Path) : Grows ways (Disk.isDirectory p) fun _ => True :=
  fun fs => ⟨.refl ways fs, trivial⟩

end Grows

end FileSystem

/-! ### The directory of an output -/

/-- The directories that lead to an output. -/
def Path.waysTo (out : Path) : List Path :=
  match out.parent? with
  | some parent => parent.ancestry
  | none => []

namespace Output

open FileSystem

variable {ways : List Path}

/-- What is still to be made is on the way. -/
theorem grows_climb {chain pending : List Path} (hchain : ∀ p ∈ chain, p ∈ ways)
    (hpending : ∀ p ∈ pending, p ∈ ways) :
    Grows ways (climb chain pending) fun r => ∀ more, r = .ok more → ∀ p ∈ more, p ∈ ways := by
  induction chain generalizing pending with
  | nil =>
    apply Grows.pure
    rintro more ⟨⟩
    exact hpending
  | cons p above ih =>
    have hp : p ∈ ways := hchain p List.mem_cons_self
    have hdone : Grows ways (pure (.ok pending) : StateM FileSystem (Except FileFault (List Path)))
        fun r => ∀ more, r = .ok more → ∀ p ∈ more, p ∈ ways := by
      apply Grows.pure
      rintro more ⟨⟩
      exact hpending
    have hfailed (e : FileFault) :
        Grows ways (pure (.error e) : StateM FileSystem (Except FileFault (List Path)))
          fun r => ∀ more, r = .ok more → ∀ p ∈ more, p ∈ ways := by
      apply Grows.pure
      intro more h
      cases h
    refine Grows.bind (Grows.makeDirectory hp) fun r _ => ?_
    split
    · exact hdone
    · -- the directory above is missing too
      apply ih fun q hq => hchain q (List.mem_cons_of_mem p hq)
      intro q hq
      rcases List.mem_cons.mp hq with rfl | hq
      · exact hp
      · exact hpending q hq
    · refine Grows.bind (Grows.isDirectory p) fun there _ => ?_
      split
      · exact hdone
      · exact hfailed _
    · exact hfailed _

theorem grows_descend {pending : List Path} (hpending : ∀ p ∈ pending, p ∈ ways) :
    Grows ways (descend pending) fun _ => True := by
  induction pending with
  | nil => exact Grows.pure trivial
  | cons p below ih =>
    have hbelow := ih fun q hq => hpending q (List.mem_cons_of_mem p hq)
    refine Grows.bind (Grows.makeDirectory (hpending p List.mem_cons_self)) fun r _ => ?_
    split
    · exact hbelow
    · refine Grows.bind (Grows.isDirectory p) fun there _ => ?_
      split
      · exact hbelow
      · exact Grows.pure trivial
    · exact Grows.pure trivial

theorem grows_createDirectories (p : Path) :
    Grows p.ancestry (createDirectories p) fun _ => True := by
  refine Grows.bind (grows_climb (fun _ hq => hq) fun _ hq => absurd hq List.not_mem_nil)
    fun r hr => ?_
  split
  · rename_i pending
    exact grows_descend (hr pending rfl)
  · exact Grows.pure trivial

/-- Making the directory of an output only makes directories on the way to it, and fails
in that step if at all. -/
theorem grows_makeParent (out : Path) :
    Grows out.waysTo (makeParent out) fun r =>
      ∀ e, r = .error e → ∃ step cause, e = .output step cause := by
  have hways : ∀ parent, out.parent? = some parent →
      Grows out.waysTo (createDirectories parent) fun _ => True := by
    intro parent hparent
    rw [Path.waysTo, hparent]
    exact grows_createDirectories parent
  generalize out.waysTo = ways at hways
  have hdone : Grows ways (pure (.ok ()) : StateM FileSystem (Except Failure Unit)) fun r =>
      ∀ e, r = .error e → ∃ step cause, e = .output step cause := by
    apply Grows.pure
    intro e h
    cases h
  rw [makeParent]
  cases hparent : out.parent? with
  | none => exact hdone
  | some parent =>
    simp only
    split
    · exact hdone
    · refine Grows.bind (hways parent hparent) fun r _ => ?_
      split
      · exact hdone
      · rename_i e
        apply Grows.pure
        rintro e' ⟨⟩
        exact ⟨_, e, rfl⟩

end Output

end Storyboard
