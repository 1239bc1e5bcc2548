/-
Storyboard/Proofs/Json/Strict.lean

The values that readers accept: records and alternatives.

What a record may be is said without its table, by a list of `Rule`s: which members
there are, what each of them has to be, and which of them have to be there.  An object
keeps the rules when all of its members are declared, none of them stands twice and
none that is required is missing (`StrictMembers`).  A list holds values for the first
of the rules, and the others require nothing (`InPlace`).

A table obeys rules field by field (`Field.Obeys`).  The reader that all tables share
then accepts nothing but what keeps the rules (`takes_record`), and the one for named
alternatives nothing but one of them (`takes_variant`).  While the members of an object
are read, the names of the slots that are filled are those of its declared members.
-/
import Mathlib.Data.List.Forall2
import Mathlib.Data.List.Nodup
import Storyboard.Proofs.Json.PassedOver

namespace Storyboard

namespace Json

/-! ### Rules -/

/-- What a field asks of a value: its name, what it has to be, and whether it has to be
there. -/
structure Rule where
  name : String
  accepts : Tree → Prop
  required : Bool := true

/-- The texts that the names of the members stand for. -/
def memberNames (ms : List (Spelling × Tree)) : List (Option String) := ms.map fun m => m.1.text?

/-- The member has a name that the rules know. -/
def IsDeclared (rules : List Rule) (m : Spelling × Tree) : Prop :=
  ∃ rule ∈ rules, m.1.text? = some rule.name

instance (rules : List Rule) (m : Spelling × Tree) : Decidable (IsDeclared rules m) :=
  inferInstanceAs (Decidable (∃ rule ∈ rules, _))

/-- The members keep the rules. -/
structure StrictMembers (rules : List Rule) (ms : List (Spelling × Tree)) : Prop where
  /-- Every member is a declared one, and its value is accepted. -/
  declared : ∀ m ∈ ms, ∃ rule ∈ rules, m.1.text? = some rule.name ∧ rule.accepts m.2
  /-- No member occurs twice. -/
  once : (memberNames ms).Nodup
  /-- No member is missing that has to be there. -/
  complete : ∀ rule ∈ rules, rule.required = true → some rule.name ∈ memberNames ms

/-- The values are those of the first rules, in order, and no other rule requires one. -/
inductive InPlace : List Rule → List Tree → Prop where
  | done {rules : List Rule} : (∀ rule ∈ rules, rule.required = false) → InPlace rules []
  | value {rule : Rule} {rules : List Rule} {v : Tree} {vs : List Tree} :
      rule.accepts v → InPlace rules vs → InPlace (rule :: rules) (v :: vs)

/-- The tree is a record: an object, or a list of values in the order of the rules.  Of an
open record only the declared members matter. -/
def Tree.IsRecord (rules : List Rule) (v : Tree) (isOpen : Bool := false) : Prop :=
  (∃ ms, v = .object ms ∧
      StrictMembers rules (if isOpen then ms.filter fun m => IsDeclared rules m else ms)) ∨
    ∃ items, v = .list items ∧ InPlace rules items

/-- One of several alternatives: its name, and the rules of the record that belongs to it. -/
structure Alternative where
  name : String
  rules? : Option (List Rule)

/-- What may stand after the name of an alternative. -/
def Alternative.accepts (a : Alternative) (v : Tree) : Prop :=
  match a.rules? with
  | none => v = .null
  | some rules => v.IsRecord rules

/-- The tree is a bare name, or an object with a name as its only member. -/
def Tree.IsOneOf (alternatives : List Alternative) (v : Tree) : Prop :=
  (∃ s, v = .text s ∧ ∃ a ∈ alternatives, s.text? = some a.name ∧ a.rules? = none) ∨
    ∃ s value, v = .object [(s, value)] ∧
      ∃ a ∈ alternatives, s.text? = some a.name ∧ a.accepts value

/-! ### Tables that obey rules -/

/-- The reader of the field accepts only what the rule accepts. -/
structure Field.Obeys (f : Field) (rule : Rule) : Prop where
  name : f.name = rule.name
  takes : f.read.Takes rule.accepts
  required : rule.required = f.default?.isNone

/-- The value of an alternative is read by the rules. -/
inductive Payload.Obeys {α : Type} : Payload α → Option (List Rule) → Prop where
  | bare (value : α) : Obeys (.bare value) none
  | record {shape : Shape α} {rules : List Rule} : shape.lenient = false →
      (shape.fields.map Field.name).Nodup → List.Forall₂ Field.Obeys shape.fields rules →
      Obeys (.record shape) (some rules)

/-- The alternative has the name and the rules of the other. -/
structure Variant.Obeys {α : Type} (w : Variant α) (a : Alternative) : Prop where
  name : w.name = a.name
  payload : w.payload.Obeys a.rules?

theorem Field.map_name {fs : List Field} {rules : List Rule}
    (h : List.Forall₂ Field.Obeys fs rules) : fs.map Field.name = rules.map Rule.name := by
  induction h with
  | nil => rfl
  | cons hf _ ih => rw [List.map_cons, List.map_cons, hf.name, ih]

theorem Field.exists_obeys {fs : List Field} {rules : List Rule}
    (h : List.Forall₂ Field.Obeys fs rules) {rule : Rule} (hrule : rule ∈ rules) :
    ∃ f ∈ fs, f.Obeys rule := by
  induction h with
  | nil => cases hrule
  | cons hf _ ih =>
    obtain rfl | hrule := List.mem_cons.mp hrule
    · exact ⟨_, List.mem_cons_self, hf⟩
    · obtain ⟨f, hmem, hobeys⟩ := ih hrule
      exact ⟨f, List.mem_cons_of_mem _ hmem, hobeys⟩

/-! ### Slots that are filled -/

/-- The names of the fields that have a value. -/
def Slots.names : (fs : List Field) → Slots fs → List String
  | [], _ => []
  | f :: fs, (slot, slots) =>
    if slot.isSome then f.name :: Slots.names fs slots else Slots.names fs slots

theorem Slots.names_none (fs : List Field) : Slots.names fs (Slots.none fs) = [] := by
  induction fs with
  | nil => rfl
  | cons f fs ih => exact ih

theorem Slots.names_subset {fs : List Field} {slots : Slots fs} {name : String}
    (h : name ∈ Slots.names fs slots) : name ∈ fs.map Field.name := by
  induction fs with
  | nil => cases h
  | cons f fs ih =>
    obtain ⟨slot, slots⟩ := slots
    rw [Slots.names] at h
    rw [List.map_cons, List.mem_cons]
    split at h
    · exact (List.mem_cons.mp h).imp_right ih
    · exact .inr (ih h)

/-- Where the slots are completed, every field that is required has a value. -/
theorem Slots.mem_names_of_complete {fs : List Field} {rules : List Rule}
    (hobeys : List.Forall₂ Field.Obeys fs rules) {slots : Slots fs} {values : Values fs}
    (h : Slots.complete fs slots = .ok values) {rule : Rule} (hrule : rule ∈ rules)
    (hrequired : rule.required = true) : rule.name ∈ Slots.names fs slots := by
  induction hobeys with
  | nil => cases hrule
  | @cons f r fs rules hf _ ih =>
    obtain ⟨slot, slots⟩ := slots
    rw [Slots.complete] at h
    split at h
    · cases h
    rename_i value hvalue
    obtain ⟨others, hothers⟩ : ∃ others, Slots.complete fs slots = .ok others := by
      cases hcomplete : Slots.complete fs slots with
      | error name =>
        rw [hcomplete] at h
        cases h
      | ok others => exact ⟨others, rfl⟩
    rw [Slots.names]
    obtain rfl | hrule := List.mem_cons.mp hrule
    · -- a field without default has its value from a member
      have hdefault : f.default? = Option.none := by
        rw [hf.required] at hrequired
        exact Option.isNone_iff_eq_none.mp hrequired
      rw [hdefault, Option.or_none] at hvalue
      rw [hvalue, ← hf.name]
      exact List.mem_cons_self
    · have hmem := ih hothers hrule
      split
      · exact List.mem_cons_of_mem _ hmem
      · exact hmem

namespace Reader

variable {α : Type} {cs : List Char}

/-- What a reader yields on bytes it answers on their text. -/
theorem Yields.on {r : Reader α} {a : α} {rest : List Char}
    (h : r.Yields (encoded cs) a (encoded rest)) : r.On cs fun b mid => b = a ∧ rest = mid := by
  intro i hi
  obtain ⟨j, hj, hrest⟩ := h i hi
  rw [hj]
  exact ⟨rest, hrest, rfl, rfl⟩

/-! ### Members -/

/-- A name that no field has. -/
theorem not_mem_of_fill_eq_none {fs : List Field} {slots : Slots fs} {name : String}
    (h : fill name fs slots = none) : name ∉ fs.map Field.name := by
  induction fs with
  | nil => exact List.not_mem_nil
  | cons f fs ih =>
    obtain ⟨slot, slots⟩ := slots
    rw [fill] at h
    split at h
    · cases h
    · rename_i hne
      rw [List.map_cons, List.mem_cons, not_or]
      exact ⟨fun heq => hne heq.symm, ih (Option.map_eq_none_iff.mp h)⟩

/-- A member fills a slot that was free, and its value is accepted. -/
theorem on_fill {fs : List Field} {rules : List Rule} (h : List.Forall₂ Field.Obeys fs rules)
    (hnodup : (fs.map Field.name).Nodup) {slots : Slots fs} {name : String}
    {r : Reader (Slots fs)} (hfill : fill name fs slots = some r) (cs : List Char) :
    r.On cs fun filled rest => name ∉ Slots.names fs slots ∧
      (∀ n, n ∈ Slots.names fs filled ↔ n = name ∨ n ∈ Slots.names fs slots) ∧
      ∃ v : Tree, Starts (.colon :: v.tokens) cs rest ∧
        ∃ rule ∈ rules, rule.name = name ∧ rule.accepts v := by
  induction h with
  | nil => cases hfill
  | @cons f rule fs rules hf _ ih =>
    obtain ⟨slot, slots⟩ := slots
    rw [List.map_cons, List.nodup_cons] at hnodup
    rw [fill] at hfill
    split at hfill
    · rename_i hname
      obtain rfl := Option.some.inj hfill
      split
      · exact On.failUnplaced (by intro h; cases h)
      rename_i hslot
      refine On.bind (on_separator cs) ?_
      intro _ mid hcolon
      refine On.bind (hf.takes mid) ?_
      rintro value rest ⟨v, hv, haccepts⟩
      have hfree : name ∉ Slots.names fs slots := by
        rw [← hname]
        exact fun hmem => hnodup.1 (Slots.names_subset hmem)
      refine On.pure ⟨?_, fun n => ?_, v, hcolon.trans hv, rule, List.mem_cons_self,
        hf.name.symm.trans hname, haccepts⟩
      · rw [Slots.names, if_neg hslot]
        exact hfree
      · rw [Slots.names, if_pos Option.isSome_some, Slots.names, if_neg hslot, List.mem_cons, hname]
    · -- the slot of a later field
      rename_i hne
      obtain ⟨r, hr, rfl⟩ := Option.map_eq_some_iff.mp hfill
      refine On.bind (ih hnodup.2 hr) ?_
      rintro filled rest ⟨hfree, hnames, v, hv, rule', hrule', haccepts⟩
      refine On.pure ⟨?_, fun n => ?_, v, hv, rule', List.mem_cons_of_mem _ hrule', haccepts⟩
      · rw [Slots.names]
        split
        · rw [List.mem_cons, not_or]
          exact ⟨fun heq => hne heq.symm, hfree⟩
        · exact hfree
      · rw [Slots.names, Slots.names]
        split
        · rw [List.mem_cons, List.mem_cons, hnames, or_left_comm]
        · exact hnames n

/-- The members that count: all of them, or only those that are declared. -/
def counted (isOpen : Bool) (rules : List Rule) (ms : List (Spelling × Tree)) :
    List (Spelling × Tree) :=
  if isOpen then ms.filter fun m => IsDeclared rules m else ms

theorem counted_append (isOpen : Bool) (rules : List Rule) (ms : List (Spelling × Tree))
    (m : Spelling × Tree) :
    counted isOpen rules (ms ++ [m]) = counted isOpen rules ms ++ counted isOpen rules [m] := by
  rw [counted, counted, counted]
  split
  · exact List.filter_append _ _
  · rfl

/-- Some members of a record have been read: those that count are declared, none of them
stood twice, and they fill the slots. -/
structure MembersRead (shape : Shape α) (rules : List Rule) (cs : List Char)
    (state : Bool × Slots shape.fields) (mid : List Char) (ms : List (Spelling × Tree)) : Prop where
  first : ms.isEmpty = state.1
  starts : Starts (commaSeparated (ms.map Tree.memberToken)) cs mid
  declared : ∀ m ∈ counted shape.lenient rules ms,
    ∃ rule ∈ rules, m.1.text? = some rule.name ∧ rule.accepts m.2
  once : (memberNames (counted shape.lenient rules ms)).Nodup
  slots : ∀ n, n ∈ Slots.names shape.fields state.2 ↔
    some n ∈ memberNames (counted shape.lenient rules ms)

variable {shape : Shape α} {rules : List Rule} {state : Bool × Slots shape.fields}
  {mid : List Char} {ms : List (Spelling × Tree)}

/-- A member that counts. -/
theorem MembersRead.filled {filled : Slots shape.fields} {s : Spelling} {name : String} {v : Tree}
    {next rest : List Char} (h : MembersRead shape rules cs state mid ms)
    (hname : Starts (separation ms.isEmpty ++ [Token.word s.quoted]) mid next)
    (hs : s.text? = some name) (hv : Starts (.colon :: v.tokens) next rest)
    (hrule : ∃ rule ∈ rules, rule.name = name ∧ rule.accepts v)
    (hfree : name ∉ Slots.names shape.fields state.2)
    (hnames : ∀ n, n ∈ Slots.names shape.fields filled ↔
      n = name ∨ n ∈ Slots.names shape.fields state.2) :
    MembersRead shape rules cs (false, filled) rest (ms ++ [(s, v)]) := by
  obtain ⟨rule, hrule, rfl, haccepts⟩ := hrule
  have hone : counted shape.lenient rules [(s, v)] = [(s, v)] := by
    rw [counted]
    split
    · exact List.filter_eq_self.mpr fun m hm => by
        rw [List.mem_singleton.mp hm]
        exact decide_eq_true ⟨rule, hrule, hs⟩
    · rfl
  have hmap : memberNames (counted shape.lenient rules (ms ++ [(s, v)])) =
      memberNames (counted shape.lenient rules ms) ++ [some rule.name] := by
    rw [counted_append, hone, memberNames, memberNames, List.map_append, List.map_singleton, hs]
  have hnew : some rule.name ∉ memberNames (counted shape.lenient rules ms) := fun hmem =>
    hfree ((h.slots _).mpr hmem)
  refine ⟨by cases ms <;> rfl, ?_, ?_, ?_, fun n => ?_⟩
  · rw [List.map_append, List.map_singleton, commaSeparated_concat, List.isEmpty_map]
    have hall := h.starts.trans (hname.trans hv)
    rw [List.append_assoc] at hall
    exact hall
  · rw [counted_append, hone]
    intro m hm
    obtain hm | hm := List.mem_append.mp hm
    · exact h.declared m hm
    · rw [List.mem_singleton.mp hm]
      exact ⟨rule, hrule, hs, haccepts⟩
  · rw [hmap]
    exact h.once.append (List.nodup_singleton _) (List.disjoint_singleton.mpr hnew)
  · rw [hmap, hnames, h.slots, List.mem_append, List.mem_singleton, Option.some.injEq, or_comm]

/-- A member that an open record passes over. -/
theorem MembersRead.passed {s : Spelling} {name : String} {v : Tree} {next rest : List Char}
    (h : MembersRead shape rules cs state mid ms)
    (hname : Starts (separation ms.isEmpty ++ [Token.word s.quoted]) mid next)
    (hs : s.text? = some name) (hv : Starts (.colon :: v.tokens) next rest)
    (hopen : shape.lenient = true) (hunknown : name ∉ rules.map Rule.name) :
    MembersRead shape rules cs (false, state.2) rest (ms ++ [(s, v)]) := by
  have hnone : counted shape.lenient rules (ms ++ [(s, v)]) = counted shape.lenient rules ms := by
    have hempty : counted shape.lenient rules [(s, v)] = [] := by
      rw [counted, if_pos hopen]
      refine List.filter_eq_nil_iff.mpr fun m hm => ?_
      rw [List.mem_singleton.mp hm, decide_eq_true_iff]
      rintro ⟨rule, hrule, hrulename⟩
      rw [hs] at hrulename
      obtain rfl := Option.some.inj hrulename
      exact hunknown (List.mem_map_of_mem hrule)
    rw [counted_append, hempty, List.append_nil]
  refine ⟨by cases ms <;> rfl, ?_, ?_, ?_, ?_⟩
  · rw [List.map_append, List.map_singleton, commaSeparated_concat, List.isEmpty_map]
    have hall := h.starts.trans (hname.trans hv)
    rw [List.append_assoc] at hall
    exact hall
  · rw [hnone]
    exact h.declared
  · rw [hnone]
    exact h.once
  · rw [hnone]
    exact h.slots

/-- One more member, or the end of the object. -/
theorem on_memberStep (hobeys : List.Forall₂ Field.Obeys shape.fields rules)
    (hnodup : (shape.fields.map Field.name).Nodup) (h : MembersRead shape rules cs state mid ms) :
    (memberStep shape state).On mid fun out rest => out.elim
      (fun next => ∃ ms, MembersRead shape rules cs next rest ms)
      (fun slots => slots = state.2 ∧ MembersRead shape rules cs state rest ms) := by
  refine On.bind (on_nextMember state.1 mid) ?_
  intro more next hnext
  split
  · rename_i hmore
    rw [if_pos hmore, if_pos hmore, ← h.first] at hnext
    refine On.bind (on_stringRest next) ?_
    rintro name after ⟨s, rfl, hs⟩
    have hname := starts_quoted hnext
    split
    · rename_i r hfill
      refine On.bind (on_fill hobeys hnodup hfill after) ?_
      rintro filled rest ⟨hfree, hnames, v, hv, hrule⟩
      exact On.pure ⟨_, h.filled hname hs hv hrule hfree hnames⟩
    · rename_i hfill
      have hunknown : name ∉ rules.map Rule.name := by
        rw [← Field.map_name hobeys]
        exact not_mem_of_fill_eq_none hfill
      have hskip : (unknownMember shape name).On after fun _ rest => shape.lenient = true ∧
          ∃ v : Tree, Starts (.colon :: v.tokens) after rest := by
        rw [unknownMember]
        split
        · rename_i hopen
          refine On.bind (on_separator after) ?_
          intro _ mid hcolon
          refine (takes_skipValue mid).mono ?_
          rintro _ rest ⟨v, hv, -⟩
          exact ⟨hopen, v, hcolon.trans hv⟩
        · exact On.failUnplaced (by intro h; cases h)
      refine On.bind hskip ?_
      rintro _ rest ⟨hopen, v, hv⟩
      exact On.pure ⟨_, h.passed hname hs hv hopen hunknown⟩
  · rename_i hmore
    rw [if_neg hmore, if_neg hmore] at hnext
    have hstarts := h.starts.trans hnext
    rw [List.append_nil] at hstarts
    exact On.pure ⟨rfl, h.first, hstarts, h.declared, h.once, h.slots⟩

/-- The members of an object keep the rules. -/
theorem on_members (hobeys : List.Forall₂ Field.Obeys shape.fields rules)
    (hnodup : (shape.fields.map Field.name).Nodup) (cs : List Char) :
    (members shape).On cs fun _ rest => ∃ ms : List (Spelling × Tree),
      Starts (commaSeparated (ms.map Tree.memberToken)) cs rest ∧
        StrictMembers rules (counted shape.lenient rules ms) := by
  have hstart : MembersRead shape rules cs (true, Slots.none shape.fields) cs [] := by
    have hnone : counted shape.lenient rules [] = [] := by
      rw [counted]
      split <;> rfl
    refine ⟨rfl, .refl cs, ?_, ?_, fun n => ?_⟩
    · rw [hnone]
      exact fun m hm => absurd hm List.not_mem_nil
    · rw [hnone]
      exact List.nodup_nil
    · rw [hnone, Slots.names_none]
      exact ⟨fun hn => absurd hn List.not_mem_nil, fun hn => absurd hn List.not_mem_nil⟩
  have hloop : (loop (memberStep shape) (true, Slots.none shape.fields)).On cs fun slots rest =>
      ∃ first ms, MembersRead shape rules cs (first, slots) rest ms := by
    refine On.loop (fun state mid => ∃ ms, MembersRead shape rules cs state mid ms) ?_ ⟨[], hstart⟩
    rintro state mid ⟨ms, hms⟩
    refine (on_memberStep hobeys hnodup hms).mono ?_
    rintro out rest hout
    cases out with
    | inl next => exact hout
    | inr slots =>
      obtain ⟨rfl, hms⟩ := hout
      exact ⟨state.1, ms, hms⟩
  refine On.bind hloop ?_
  rintro slots rest ⟨first, ms, hms⟩
  split
  · rename_i values hcomplete
    refine On.pure ⟨ms, hms.starts, hms.declared, hms.once, fun rule hrule hrequired => ?_⟩
    exact (hms.slots _).mp (Slots.mem_names_of_complete hobeys hcomplete hrule hrequired)
  · exact On.failUnplaced (by intro h; cases h)

/-! ### Values in place -/

/-- After the end of a list only defaults are left. -/
theorem on_positional_end (expected : String) (fs : List Field) (count : Nat)
    (after : List Char) :
    (positional expected fs count).On (']' :: after) fun _ rest => ']' :: after = rest ∧
      ∀ f ∈ fs, f.default?.isSome = true := by
  induction fs with
  | nil => exact On.pure ⟨rfl, fun f hf => absurd hf List.not_mem_nil⟩
  | cons f fs ih =>
    have hclose : Ahead (encoded (']' :: after)) closeBracket (encoded after) := by
      rw [encoded_cons]
      exact ahead_cons rfl _
    have hend := hclose.noElement (count == 0)
    have hbytes : closeBracket :: encoded after = encoded (']' :: after) := by
      rw [encoded_cons]
      rfl
    rw [hbytes] at hend
    refine On.bind hend.on ?_
    rintro _ _ ⟨rfl, rfl⟩
    rw [if_neg (by decide)]
    split
    · rename_i value hvalue
      refine On.bind ih ?_
      rintro values _ ⟨rfl, hfs⟩
      refine On.pure ⟨rfl, fun g hg => ?_⟩
      obtain rfl | hg := List.mem_cons.mp hg
      · rw [hvalue]
        rfl
      · exact hfs g hg
    · exact On.failUnplaced (by intro h; cases h)

/-- The values of a list are in place. -/
theorem on_positional (expected : String) {fs : List Field} {rules : List Rule}
    (hobeys : List.Forall₂ Field.Obeys fs rules) (done : List Tree) {start mid : List Char}
    (hdone : Starts (commaSeparated (done.map Tree.tokens)) start mid) :
    (positional expected fs done.length).On mid fun _ rest => ∃ items : List Tree,
      Starts (commaSeparated ((done ++ items).map Tree.tokens)) start rest ∧
        InPlace rules items := by
  induction hobeys generalizing done mid with
  | nil =>
    refine On.pure ⟨[], ?_, .done fun rule hrule => absurd hrule List.not_mem_nil⟩
    rw [List.append_nil]
    exact hdone
  | @cons f rule fs rules hf hfs ih =>
    have hempty : (done.length == 0) = done.isEmpty := by
      cases done <;> rfl
    refine On.bind (on_nextElement (done.length == 0) mid) ?_
    intro more next hnext
    split
    · rename_i hmore
      rw [if_pos hmore, hempty] at hnext
      refine On.bind (hf.takes next) ?_
      rintro value after ⟨v, hv, haccepts⟩
      have hall : Starts (commaSeparated ((done ++ [v]).map Tree.tokens)) start after := by
        rw [List.map_append, List.map_singleton, commaSeparated_concat, List.isEmpty_map]
        exact hdone.trans (hnext.trans hv)
      have hrec := ih (done ++ [v]) hall
      rw [List.length_append] at hrec
      refine On.bind hrec ?_
      rintro values rest ⟨items, hitems, hplace⟩
      refine On.pure ⟨v :: items, ?_, .value haccepts hplace⟩
      rw [List.append_assoc] at hitems
      exact hitems
    · rename_i hmore
      rw [if_neg hmore] at hnext
      obtain ⟨hnext, after, rfl⟩ := hnext
      split
      · rename_i value hvalue
        refine On.bind (on_positional_end expected fs done.length after) ?_
        rintro values _ ⟨rfl, hdefaults⟩
        refine On.pure ⟨[], ?_, .done fun r hr => ?_⟩
        · have hall := hdone.trans hnext
          rw [List.append_nil] at hall ⊢
          exact hall
        · -- the field of each rule has a default
          obtain rfl | hr := List.mem_cons.mp hr
          · rw [hf.required, hvalue]
            rfl
          · obtain ⟨g, hg, hobeys⟩ := Field.exists_obeys hfs hr
            rw [hobeys.required, Option.isNone_eq_false_iff]
            exact hdefaults g hg
      · exact On.failUnplaced (by intro h; cases h)

/-! ### Records -/

theorem takes_record (hobeys : List.Forall₂ Field.Obeys shape.fields rules)
    (hnodup : (shape.fields.map Field.name).Nodup) :
    (record shape).Takes fun v => v.IsRecord rules shape.lenient := by
  intro cs
  refine on_token_bind (fun _ => On.failNext (by decide)) fun b mid hmid hb => ?_
  dsimp only
  split
  · rename_i hopen
    refine On.placing (on_skip_token_bind .openObject hmid hb hopen (by decide) rfl
      fun rest hstart => ?_)
    refine On.closing (on_members hobeys hnodup rest) ?_
    rintro a after ⟨ms, hms, hstrict⟩
    refine (on_endObject after).mono ?_
    rintro _ more hend
    refine ⟨.object ms, ?_, .inl ⟨ms, rfl, hstrict⟩⟩
    rw [Tree.tokens, Tree.memberTokens_eq_map]
    exact hstart.trans (hms.trans hend)
  split
  · rename_i hopen
    refine On.placing (on_skip_token_bind .openList hmid hb hopen (by decide) rfl
      fun rest hstart => ?_)
    have hvalues := on_positional (arity shape) hobeys [] (.refl rest)
    have hbody : (do
        let values ← positional (arity shape) shape.fields 0
        pure (shape.build values) : Reader α).On rest fun _ after => ∃ items : List Tree,
          Starts (commaSeparated (items.map Tree.tokens)) rest after ∧ InPlace rules items :=
      On.bind hvalues fun _ _ h => On.pure h
    refine On.closing hbody ?_
    rintro a after ⟨items, hitems, hplace⟩
    refine (on_endList after).mono ?_
    rintro _ more hend
    refine ⟨.list items, ?_, .inr ⟨items, rfl, hplace⟩⟩
    rw [Tree.tokens, Tree.itemTokens_eq_map]
    exact hstart.trans (hitems.trans hend)
  · exact on_wrongKind _ mid _

/-! ### Alternatives -/

variable {variants : List (Variant α)} {alternatives : List Alternative}

theorem on_variantName (variants : List (Variant α)) (cs : List Char) :
    (variantName variants).On cs fun k rest => ∃ s : Spelling, cs = s.written ++ '"' :: rest ∧
      s.text? = some (variants.get k).name := by
  refine On.placing (On.bind (on_stringRest cs) ?_)
  rintro name rest ⟨s, rfl, hs⟩
  split
  · rename_i k hk
    have hname : (variants.get k).name = name := by
      have h := (List.findFinIdx?_eq_some_iff.mp hk).1
      exact eq_of_beq h
    exact On.pure ⟨s, rfl, hname ▸ hs⟩
  · exact On.failUnplaced (by intro h; cases h)

theorem takes_payload {p : Payload α} {rules? : Option (List Rule)} (h : p.Obeys rules?)
    {a : Alternative} (ha : a.rules? = rules?) : (payload p).Takes a.accepts := by
  cases h with
  | bare value =>
    intro cs
    refine On.bind (takes_nothing cs) ?_
    rintro _ rest ⟨v, hv, hnull⟩
    refine On.pure ⟨v, hv, ?_⟩
    rw [Alternative.accepts, ha]
    exact hnull
  | record hstrict hnodup hobeys =>
    refine (takes_record hobeys hnodup).mono fun v hv => ?_
    rw [Alternative.accepts, ha]
    rw [hstrict] at hv
    exact hv

theorem takes_variant (h : List.Forall₂ Variant.Obeys variants alternatives) :
    (variant variants).Takes (Tree.IsOneOf alternatives) := by
  have hfind (k : Fin variants.length) : ∃ a ∈ alternatives, (variants.get k).Obeys a :=
    ⟨_, List.get_mem _ _, h.get k.isLt (h.length_eq ▸ k.isLt)⟩
  intro cs
  refine on_token_bind (fun _ => On.failNext (by decide)) fun b mid hmid hb => ?_
  dsimp only
  split
  · -- a bare name
    rename_i hquote
    refine on_skip_bind hb (by rw [hquote]; decide) fun rest hrest => ?_
    rw [hrest, hquote] at hmid
    refine On.bind (on_variantName variants rest) ?_
    rintro k after ⟨s, rfl, hs⟩
    obtain ⟨a, ha, hobeys⟩ := hfind k
    split
    · rename_i value hpayload
      have hbare : a.rules? = none := by
        have hp := hobeys.payload
        rw [hpayload] at hp
        cases hrules : a.rules? with
        | none => rfl
        | some rules =>
          rw [hrules] at hp
          cases hp
      refine On.pure ⟨.text s, ?_, .inl ⟨s, rfl, a, ha, by rw [hs, hobeys.name], hbare⟩⟩
      rw [Tree.tokens]
      exact starts_quoted hmid
    · exact On.failUnplaced (by intro h; cases h)
  split
  · -- an object with the name as its only member
    rename_i hopen
    refine on_skip_token_bind .openObject hmid hb hopen (by decide) rfl fun rest hstart => ?_
    refine on_token_bind (fun _ => On.failNext (by decide)) fun c next hnext hc => ?_
    dsimp only
    split
    · exact On.failNext (by decide)
    split
    · rename_i hquote
      refine on_skip_bind hc (by rw [hquote]; decide) fun rest hrest => ?_
      rw [hrest, hquote] at hnext
      refine On.bind (on_variantName variants rest) ?_
      rintro k after ⟨s, rfl, hs⟩
      have hname := starts_quoted hnext
      obtain ⟨a, ha, hobeys⟩ := hfind k
      refine On.bind (on_separator after) ?_
      intro _ mid hcolon
      refine On.bind (takes_payload hobeys.payload rfl mid) ?_
      rintro value last ⟨v, hv, haccepts⟩
      refine on_token_bind (fun _ => On.failHere (by decide)) fun d end' hend hd => ?_
      dsimp only
      split
      · rename_i hclose
        refine on_skip_token_bind .closeObject hend hd hclose (by decide) rfl fun rest hclose => ?_
        refine On.pure ⟨.object [(s, v)], ?_, .inr ⟨s, v, rfl, a, ha, by rw [hs, hobeys.name],
          haccepts⟩⟩
        rw [Tree.tokens, Tree.memberTokens_eq_map]
        have hall := hstart.trans (hname.trans (hcolon.trans (hv.trans hclose)))
        simp only [List.map_singleton, commaSeparated, Tree.memberToken, List.nil_append,
          List.cons_append] at hall ⊢
        exact hall
      · exact On.failHere (by decide)
    · exact On.failNext (by decide)
  · exact On.failNext (by decide)

/-! ### Whole texts -/

/-- Nothing but white space follows the value. -/
theorem on_document {r : Reader α} {P : Tree → Prop} (h : r.Takes P) (cs : List Char) :
    (document r).On cs fun _ _ => ∃ v : Tree, Starts v.tokens cs [] ∧ P v := by
  refine On.bind (h cs) ?_
  rintro value mid ⟨v, hv, hP⟩
  refine on_token_bind (fun hend => ?_) fun b next _ _ => On.failNext (by decide)
  refine On.pure ⟨v, ?_, hP⟩
  have hall := hv.trans hend
  rw [List.append_nil] at hall
  exact hall

end Reader

end Json

end Storyboard
