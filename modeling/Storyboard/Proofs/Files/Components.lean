/-
Storyboard/Proofs/Files/Components.lean

Paths by their components.

The components of a path are what is left of it when its spelling is forgotten: the root,
if the path begins there, and its significant segments.  Slashes that are repeated or
trail the path add nothing, and neither does a point, unless it is the first segment.

Parent and file name are read off the stems of a path, and joining works on its text, so
each of them passes over the insignificant segments on its own.  That they agree comes
from one fact: a segment at the end of a path adds a stem exactly if it adds a component
(`stemsAfter_concat`, `significant_concat`).  Hence the parent has all components but the
last one (`components_of_parent?`), the file name is the last one if it is a name
(`fileName?_eq_some_iff`), and a name that is joined to a path is one component more,
below the path without what trails it (`components_join`, `parent?_join`).
-/
import Mathlib.Data.List.Induction
import Storyboard.Files.Path

namespace Storyboard

namespace Path

/-! ### Texts and segments -/

theorem splitSlash_eq_splitOn (chars : List Char) : splitSlash chars = chars.splitOn '/' := by
  induction chars with
  | nil => rfl
  | cons c rest ih =>
    rw [splitSlash, ih, List.splitOn_cons_eq_if_modifyHead]
    by_cases hc : c = '/'
    · rw [if_pos hc, if_pos (beq_iff_eq.mpr hc)]
    · rw [if_neg hc, if_neg (mt beq_iff_eq.mp hc)]
      cases hrest : rest.splitOn '/' with
      | nil => exact absurd hrest (List.splitOn_ne_nil '/' rest)
      | cons s more => rfl

theorem segments_eq (p : Path) : p.segments = (p.text.toList.splitOn '/').map String.ofList := by
  rw [segments, splitSlash_eq_splitOn]

theorem slash_not_mem_splitSlash {chars segment : List Char} (h : segment ∈ splitSlash chars) :
    '/' ∉ segment := by
  induction chars generalizing segment with
  | nil =>
    obtain rfl := List.mem_singleton.mp h
    exact List.not_mem_nil
  | cons c rest ih =>
    rw [splitSlash] at h
    split at h
    · rcases List.mem_cons.mp h with rfl | h
      · exact List.not_mem_nil
      · exact ih h
    · rename_i hc
      split at h
      · obtain rfl := List.mem_singleton.mp h
        exact fun hmem => hc (List.mem_singleton.mp hmem).symm
      · rename_i s more hrest
        rw [hrest] at ih
        rcases List.mem_cons.mp h with rfl | h
        · intro hmem
          rcases List.mem_cons.mp hmem with hslash | hmem
          · exact hc hslash.symm
          · exact ih List.mem_cons_self hmem
        · exact ih (List.mem_cons_of_mem s h)

theorem slash_not_mem {p : Path} {segment : String} (h : segment ∈ p.segments) :
    '/' ∉ segment.toList := by
  obtain ⟨chars, hchars, rfl⟩ := List.mem_map.mp h
  rw [String.toList_ofList]
  exact slash_not_mem_splitSlash hchars

/-- Segments make a path that has them. -/
theorem segments_ofSegments {segments : List String} (hne : segments ≠ [])
    (hslash : ∀ s ∈ segments, '/' ∉ s.toList) : (ofSegments segments).segments = segments := by
  have hsplit : (['/'].intercalate (segments.map String.toList)).splitOn '/' =
      segments.map String.toList := by
    refine List.splitOn_intercalate '/' ?_ (mt List.map_eq_nil_iff.mp hne)
    intro chars hchars
    obtain ⟨s, hs, rfl⟩ := List.mem_map.mp hchars
    exact hslash s hs
  rw [segments_eq, ofSegments, String.toList_intercalate]
  change ((['/'].intercalate (segments.map String.toList)).splitOn '/').map String.ofList = segments
  rw [hsplit, List.map_map]
  simp [Function.comp_def]

/-- A path begins with a slash if its first segment is empty and not the only one. -/
theorem isAbsolute_iff (p : Path) :
    p.isAbsolute = true ↔ ∃ second rest, p.segments = "" :: second :: rest := by
  rw [isAbsolute, segments, beq_iff_eq]
  cases p.text.toList with
  | nil =>
    refine iff_of_false (fun h => nomatch h) ?_
    rintro ⟨second, rest, h⟩
    cases h
  | cons c chars =>
    rw [splitSlash, List.head?_cons, Option.some.injEq]
    by_cases hc : c = '/'
    · rw [if_pos hc]
      obtain ⟨second, rest, hsplit⟩ : ∃ second rest, splitSlash chars = second :: rest := by
        rw [splitSlash_eq_splitOn]
        exact List.exists_cons_of_ne_nil (List.splitOn_ne_nil '/' chars)
      rw [hsplit]
      exact iff_of_true hc ⟨_, _, rfl⟩
    · rw [if_neg hc]
      refine iff_of_false hc ?_
      rintro ⟨second, rest, h⟩
      -- the first segment begins with the first character
      have hfirst : ∀ s, String.ofList (c :: s) ≠ "" := by
        intro s hs
        simpa using congrArg String.toList hs
      split at h
      · exact hfirst [] (List.cons.inj h).1
      · exact hfirst _ (List.cons.inj h).1

section Beginnings

variable {p : Path} {before : List String} {last : String}

/-- A beginning of a path keeps its segments. -/
theorem segments_beginning (h : before ++ [last] <+: p.segments) :
    (ofSegments (before ++ [last])).segments = before ++ [last] := by
  refine segments_ofSegments (List.append_ne_nil_of_right_ne_nil _ (List.cons_ne_nil _ _)) ?_
  intro s hs
  exact slash_not_mem (h.subset hs)

/-- Up to a segment that is not empty, it begins where the whole path does. -/
theorem isAbsolute_beginning (h : before ++ [last] <+: p.segments) (hlast : last ≠ "") :
    (ofSegments (before ++ [last])).isAbsolute = p.isAbsolute := by
  rw [Bool.eq_iff_iff, isAbsolute_iff, isAbsolute_iff, segments_beginning h]
  obtain ⟨trailing, htrailing⟩ := h
  rw [← htrailing]
  cases before with
  | nil => simp [hlast]
  | cons first more => cases more <;> simp

end Beginnings

/-! ### Components -/

/-- A step along a path. -/
inductive Component where
  | root
  | here
  | up
  | name (text : String)
  deriving DecidableEq

/-- The step that a segment stands for. -/
def Component.ofSegment (segment : String) : Component :=
  if segment = "." then .here else if segment = ".." then .up else .name segment

theorem Component.ofSegment_eq_name {segment text : String} :
    ofSegment segment = .name text ↔ segment ≠ "." ∧ segment ≠ ".." ∧ segment = text := by
  rw [ofSegment]
  split
  · rename_i h
    exact iff_of_false (fun h => nomatch h) fun hname => hname.1 h
  · rename_i hhere
    split
    · rename_i h
      exact iff_of_false (fun h => nomatch h) fun hname => hname.2.1 h
    · rename_i hup
      rw [Component.name.injEq]
      exact ⟨fun h => ⟨hhere, hup, h⟩, fun h => h.2.2⟩

/-- The segments that count: none that is empty, and no point but the first segment. -/
def significant : List String → List String
  | [] => []
  | first :: rest =>
    (if first = "" then [] else [first]) ++ rest.filter fun s => s != "" && s != "."

/-- The first component of a path that begins at the root. -/
def start (p : Path) : List Component := if p.isAbsolute then [.root] else []

/-- The steps of a path. -/
def components (p : Path) : List Component :=
  p.start ++ (significant p.segments).map .ofSegment

/-! ### The last segment that counts -/

/-- A segment at the end adds a stem if it counts. -/
theorem stemsAfter_concat (before segments : List String) (s : String) :
    stemsAfter before (segments ++ [s]) = stemsAfter before segments ++
      if isSignificant (before ++ segments) s then [before ++ segments ++ [s]] else [] := by
  induction segments generalizing before with
  | nil =>
    rw [List.nil_append, List.append_nil]
    rfl
  | cons first rest ih =>
    rw [List.cons_append, stemsAfter, stemsAfter, ih, List.append_assoc before [first] rest]
    simp only [List.singleton_append]
    split
    · rw [List.cons_append]
    · rfl

/-- It adds a component under the same condition. -/
theorem significant_concat (segments : List String) (s : String) :
    significant (segments ++ [s]) =
      significant segments ++ if isSignificant segments s then [s] else [] := by
  cases segments with
  | nil => by_cases hs : s = "" <;> simp [significant, isSignificant, hs]
  | cons first rest =>
    rw [List.cons_append, significant, significant, List.filter_append, List.append_assoc]
    simp [isSignificant, List.filter_cons]

/-- The last of some segments that counts, after the ones before it. -/
structure EndsAt (segments before : List String) (last : String) : Prop where
  counts : isSignificant before last = true
  begins : before ++ [last] <+: segments
  stems : stemsAfter [] segments = stemsAfter [] before ++ [before ++ [last]]
  components : significant segments = significant before ++ [last]

/-- Where segments end at the last one, nothing trails them. -/
theorem endsAt_concat {before : List String} {last : String}
    (h : isSignificant before last = true) : EndsAt (before ++ [last]) before last where
  counts := h
  begins := List.prefix_rfl
  stems := by rw [stemsAfter_concat, List.nil_append, if_pos h]
  components := by rw [significant_concat, if_pos h]

/-- Segments lead nowhere, or there is a last one that counts. -/
theorem nowhere_or_endsAt (segments : List String) :
    (stemsAfter [] segments = [] ∧ significant segments = []) ∨
      ∃ before last, EndsAt segments before last := by
  induction segments using List.reverseRecOn with
  | nil => exact .inl ⟨rfl, rfl⟩
  | append_singleton segments s ih =>
    by_cases hs : isSignificant segments s = true
    · exact .inr ⟨segments, s, endsAt_concat hs⟩
    · -- the segment trails what stands before it
      have hstems : stemsAfter [] (segments ++ [s]) = stemsAfter [] segments := by
        rw [stemsAfter_concat, List.nil_append, if_neg hs, List.append_nil]
      have hcomponents : significant (segments ++ [s]) = significant segments := by
        rw [significant_concat, if_neg hs, List.append_nil]
      rw [hstems, hcomponents]
      rcases ih with hnowhere | ⟨before, last, hends⟩
      · exact .inl hnowhere
      · refine .inr ⟨before, last, hends.counts, ?_, ?_, ?_⟩
        · exact hends.begins.trans (List.prefix_append segments [s])
        · rw [hstems, hends.stems]
        · rw [hcomponents, hends.components]

/-! ### Parents and file names -/

/-- The path as far as some segments of it lead, without what trails them. -/
def upTo (p : Path) (segments : List String) : Path :=
  match (stemsAfter [] segments).reverse with
  | [] => ⟨if p.isAbsolute then "/" else ""⟩
  | stem :: _ => ofSegments stem

/-- The path without what trails it. -/
def trimmed (p : Path) : Path := p.upTo p.segments

section Parents

variable {p q : Path} {segments before : List String} {last name : String}

theorem ne_empty_of_isSignificant (h : isSignificant before last = true) : last ≠ "" := by
  rintro rfl
  cases h

theorem upTo_of_nowhere (h : stemsAfter [] segments = []) :
    p.upTo segments = ⟨if p.isAbsolute then "/" else ""⟩ := by
  rw [upTo, h]
  rfl

theorem upTo_of_endsAt (h : EndsAt segments before last) :
    p.upTo segments = ofSegments (before ++ [last]) := by
  rw [upTo, h.stems, List.reverse_concat]

/-- Segments of a path lead as far as the components that they give. -/
theorem components_upTo (h : segments <+: p.segments) :
    (p.upTo segments).components = p.start ++ (significant segments).map .ofSegment := by
  rcases nowhere_or_endsAt segments with ⟨hstems, hnone⟩ | ⟨before, last, hends⟩
  · rw [upTo_of_nowhere hstems, hnone, start]
    cases p.isAbsolute <;> rfl
  · have hp := hends.begins.trans h
    rw [upTo_of_endsAt hends, components, start,
      isAbsolute_beginning hp (ne_empty_of_isSignificant hends.counts), segments_beginning hp,
      (endsAt_concat hends.counts).components, hends.components]
    rfl

/-- Nothing trails a path that was cut off. -/
theorem trimmed_upTo (h : segments <+: p.segments) :
    (p.upTo segments).trimmed = p.upTo segments := by
  rcases nowhere_or_endsAt segments with ⟨hstems, -⟩ | ⟨before, last, hends⟩
  · rw [upTo_of_nowhere hstems]
    cases p.isAbsolute <;> rfl
  · have hp := hends.begins.trans h
    rw [upTo_of_endsAt hends, trimmed, segments_beginning hp,
      upTo_of_endsAt (endsAt_concat hends.counts)]

/-- A path that nothing trails leads nowhere, or is the first of its own ancestry. -/
theorem ancestry_of_trimmed (h : p.trimmed = p) :
    p = ⟨""⟩ ∨ p = ⟨"/"⟩ ∨ p.ancestry.head? = some p := by
  rcases nowhere_or_endsAt p.segments with ⟨hstems, -⟩ | ⟨before, last, hends⟩
  · rw [trimmed, upTo_of_nowhere hstems] at h
    split at h
    · exact .inr (.inl h.symm)
    · exact .inl h.symm
  · rw [trimmed, upTo_of_endsAt hends] at h
    refine .inr (.inr ?_)
    rw [ancestry, stems, hends.stems, List.reverse_concat, List.map_cons, List.head?_cons, h]

theorem parent?_of_nowhere (h : stemsAfter [] p.segments = []) : p.parent? = none := by
  rw [parent?, stems, h]
  rfl

theorem parent?_of_endsAt (h : EndsAt p.segments before last) :
    p.parent? = some (p.upTo before) := by
  rw [parent?, stems, h.stems, List.reverse_concat, upTo]
  cases (stemsAfter [] before).reverse <;> rfl

/-- **The parent has all components but the last one**, and nothing trails it. -/
theorem components_of_parent? (h : p.parent? = some q) :
    q.trimmed = q ∧ ∃ step, p.components = q.components ++ [step] := by
  rcases nowhere_or_endsAt p.segments with ⟨hstems, -⟩ | ⟨before, last, hends⟩
  · rw [parent?_of_nowhere hstems] at h
    cases h
  · obtain rfl := Option.some.inj ((parent?_of_endsAt hends).symm.trans h)
    have hbefore := (List.prefix_append before [last]).trans hends.begins
    refine ⟨trimmed_upTo hbefore, .ofSegment last, ?_⟩
    rw [components_upTo hbefore, components, hends.components, List.map_append, List.append_assoc]
    rfl

/-- **The file name is the last component, if that is a name.** -/
theorem fileName?_eq_some_iff :
    p.fileName? = some name ↔ p.components.getLast? = some (.name name) := by
  rw [fileName?, stems, components]
  rcases nowhere_or_endsAt p.segments with ⟨hstems, hnone⟩ | ⟨before, last, hends⟩
  · rw [hstems, hnone, start]
    refine iff_of_false (fun h => nomatch h) ?_
    cases p.isAbsolute
    · exact fun h => nomatch h
    · exact fun h => nomatch h
  · rw [hends.stems, hends.components, List.reverse_concat, List.head?_cons, Option.bind_some,
      List.getLast?_concat, List.map_append, ← List.append_assoc, List.map_singleton,
      List.getLast?_concat, Option.some.injEq, Component.ofSegment_eq_name]
    simp only
    split
    · rename_i h
      refine iff_of_false (fun h => nomatch h) ?_
      rintro ⟨hhere, hup, -⟩
      exact h.elim hhere hup
    · rename_i h
      rw [not_or] at h
      rw [Option.some.injEq]
      exact ⟨fun hname => ⟨h.1, h.2, hname⟩, fun hname => hname.2.2⟩

/-- A path with a file name has a parent, and the name is all that it adds to it. -/
theorem exists_parent (h : p.fileName? = some name) :
    ∃ q, p.parent? = some q ∧ q.trimmed = q ∧
      p.components = q.components ++ [Component.name name] := by
  rcases nowhere_or_endsAt p.segments with ⟨hstems, -⟩ | ⟨before, last, hends⟩
  · rw [fileName?, stems, hstems] at h
    cases h
  · have hparent := parent?_of_endsAt hends
    obtain ⟨htrimmed, step, hstep⟩ := components_of_parent? hparent
    have hlast := fileName?_eq_some_iff.mp h
    rw [hstep, List.getLast?_concat, Option.some.injEq] at hlast
    exact ⟨_, hparent, htrimmed, hlast ▸ hstep⟩

theorem slash_not_mem_fileName (h : p.fileName? = some name) : '/' ∉ name.toList := by
  rcases nowhere_or_endsAt p.segments with ⟨hstems, -⟩ | ⟨before, last, hends⟩
  · rw [fileName?, stems, hstems] at h
    cases h
  · have hlast := fileName?_eq_some_iff.mp h
    rw [components, hends.components, List.map_append, ← List.append_assoc, List.map_singleton,
      List.getLast?_concat, Option.some.injEq, Component.ofSegment_eq_name] at hlast
    obtain ⟨-, -, rfl⟩ := hlast
    exact slash_not_mem (hends.begins.subset (List.mem_append_right before List.mem_cons_self))

end Parents

/-! ### Joining a name -/

/-- The text is a name: one segment that is neither empty nor a point nor two. -/
structure IsName (text : String) : Prop where
  noSlash : '/' ∉ text.toList
  notEmpty : text ≠ ""
  notHere : text ≠ "."
  notUp : text ≠ ".."

namespace IsName

variable {name : String}

theorem isSignificant (h : IsName name) (before : List String) :
    isSignificant before name = true := by
  simp [Path.isSignificant, h.notEmpty, h.notHere]

theorem ofSegment (h : IsName name) : Component.ofSegment name = .name name :=
  Component.ofSegment_eq_name.mpr ⟨h.notHere, h.notUp, rfl⟩

end IsName

section Joining

variable {name : String}

/-- A slash stands before the name, unless there is one or nothing stands before it. -/
theorem text_join (p : Path) (name : String) :
    (p.join name).text =
      p.text ++ (if p.text = "" ∨ p.endsInSlash = true then "" else "/") ++ name := by
  rw [join]
  simp only [Bool.or_eq_true, String.isEmpty_iff]
  split
  · rw [String.append_empty]
  · rfl

theorem segments_of_noSlash (h : '/' ∉ name.toList) : segments ⟨name⟩ = [name] := by
  rw [segments_eq, List.splitOn_eq_singleton h, List.map_cons, String.ofList_toList]
  rfl

theorem segments_append_slash (front back : String) :
    segments ⟨front ++ "/" ++ back⟩ = segments ⟨front⟩ ++ segments ⟨back⟩ := by
  have hchars : (front ++ "/" ++ back).toList = front.toList ++ '/' :: back.toList := by simp
  rw [segments_eq, segments_eq, segments_eq, hchars, List.splitOn_append_cons_self, List.map_append]

/-- A joined name is the last segment, and at most an empty one has made place for it. -/
theorem segments_join (p : Path) (h : IsName name) :
    ∃ before, (p.segments = before ∨ p.segments = before ++ [""]) ∧
      (p.join name).segments = before ++ [name] := by
  obtain ⟨text⟩ := p
  have hname := segments_of_noSlash h.noSlash
  rw [join]
  split
  · rename_i hjoin
    rcases Bool.or_eq_true_iff.mp hjoin with hempty | hslash
    · obtain rfl : text = "" := String.isEmpty_iff.mp hempty
      exact ⟨[], .inr rfl, by rw [String.empty_append, hname, List.nil_append]⟩
    · obtain ⟨front, hfront⟩ := List.getLast?_eq_some_iff.mp (beq_iff_eq.mp hslash)
      obtain rfl : text = String.ofList front ++ "/" := by
        rw [← String.toList_inj, hfront]
        simp
      refine ⟨segments ⟨String.ofList front⟩, .inr ?_, ?_⟩
      · have hrest : segments ⟨""⟩ = [""] := segments_of_noSlash List.not_mem_nil
        have hsplit := segments_append_slash (String.ofList front) ""
        rwa [String.append_empty, hrest] at hsplit
      · rw [segments_append_slash, hname]
  · exact ⟨_, .inl rfl, by rw [segments_append_slash, hname]⟩

theorem isAbsolute_join (p : Path) (h : IsName name) : (p.join name).isAbsolute = p.isAbsolute := by
  obtain ⟨text⟩ := p
  by_cases hempty : text = ""
  · subst hempty
    have hhead : name.toList.head? ≠ some '/' := fun hhead => h.noSlash (List.mem_of_head? hhead)
    simp [join, isAbsolute, hhead]
  · obtain ⟨c, rest, hchars⟩ := List.exists_cons_of_ne_nil (mt String.toList_eq_nil_iff.mp hempty)
    rw [join]
    split <;> simp [isAbsolute, hchars]

/-- Before a joined name stands what the path has had, but for what trails it. -/
theorem endsAt_join (p : Path) (h : IsName name) :
    ∃ before, EndsAt (p.join name).segments before name ∧
      stemsAfter [] before = stemsAfter [] p.segments ∧
        significant before = significant p.segments := by
  obtain ⟨before, hbefore, hjoin⟩ := segments_join p h
  refine ⟨before, ?_, ?_⟩
  · rw [hjoin]
    exact endsAt_concat (h.isSignificant before)
  · rcases hbefore with hp | hp
    · rw [hp]
      exact ⟨rfl, rfl⟩
    · -- an empty segment adds nothing
      rw [hp, stemsAfter_concat, significant_concat]
      exact ⟨(List.append_nil _).symm, (List.append_nil _).symm⟩

theorem parent?_join (p : Path) (h : IsName name) : (p.join name).parent? = some p.trimmed := by
  obtain ⟨before, hends, hstems, -⟩ := endsAt_join p h
  rw [parent?_of_endsAt hends, trimmed, upTo, upTo, hstems, isAbsolute_join p h]

/-- **A joined name is one component more.** -/
theorem components_join (p : Path) (h : IsName name) :
    (p.join name).components = p.components ++ [Component.name name] := by
  obtain ⟨before, hends, -, hcomponents⟩ := endsAt_join p h
  rw [components, start, isAbsolute_join p h, hends.components, hcomponents, List.map_append,
    ← List.append_assoc, List.map_singleton, h.ofSegment]
  rfl

theorem fileName?_join (p : Path) (h : IsName name) : (p.join name).fileName? = some name := by
  rw [fileName?_eq_some_iff, components_join p h, List.getLast?_concat]

/-- A name below a path that a slash and a point trail. -/
example :
    let p : Path := ⟨"./maps//../a/."⟩
    p.components = [.here, .name "maps", .up, .name "a"] ∧
      (p.join "b").parent? = some ⟨"./maps//../a"⟩ := by decide

end Joining

end Path

end Storyboard
