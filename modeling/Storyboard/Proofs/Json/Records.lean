/-
Storyboard/Proofs/Json/Records.lean

Readers that read written values: records and alternatives.

While the members of an object are read, the slots hold the values of those
already met and of no others: `Slots.known names` with their names.  Each member
adds its own name, in whatever order they come, so after the last one a field
has its value or was left out, and was then to have its default (`Covered`).
Nothing here knows a particular record; a table enters with the readers of its
fields (`ReadsField`) and the fact that no two of them have one name.
-/
import Mathlib.Data.List.Nodup
import Storyboard.Proofs.Json.Reads

namespace Storyboard

namespace Json

variable {α : Type}

/-! ### Fields -/

/-- The values of the fields with these names. -/
def Slots.known (names : List String) : (fs : List Field) → Values fs → Slots fs
  | [], _ => ()
  | f :: fs, (a, values) =>
    (if f.name ∈ names then some a else Option.none, Slots.known names fs values)

/-- The field with this name reads its value where `v` is written. -/
def ReadsField (name : String) (v : Value) : (fs : List Field) → Values fs → Prop
  | [], _ => False
  | f :: fs, (a, values) => if f.name = name then Reads f.read a v else ReadsField name v fs values

/-- Every field is one of those named, or has the default value. -/
def Covered (names : List String) : (fs : List Field) → Values fs → Prop
  | [], _ => True
  | f :: fs, (a, values) => (f.name ∈ names ∨ f.default? = some a) ∧ Covered names fs values

theorem Slots.known_nil (fs : List Field) (values : Values fs) :
    Slots.known [] fs values = Slots.none fs := by
  induction fs with
  | nil => rfl
  | cons f fs ih =>
    obtain ⟨a, values⟩ := values
    rw [Slots.known, if_neg List.not_mem_nil, ih]
    rfl

theorem Slots.known_cons_of_not_mem {name : String} {fs : List Field}
    (h : name ∉ fs.map Field.name) (names : List String) (values : Values fs) :
    Slots.known (name :: names) fs values = Slots.known names fs values := by
  induction fs with
  | nil => rfl
  | cons f fs ih =>
    obtain ⟨a, values⟩ := values
    rw [List.map_cons, List.mem_cons, not_or] at h
    have hf : f.name ∈ name :: names ↔ f.name ∈ names := by
      rw [List.mem_cons]
      exact or_iff_right (Ne.symm h.1)
    rw [Slots.known, Slots.known, ih h.2]
    simp only [hf]
    rfl

/-- Where every field is covered the values are complete. -/
theorem Slots.complete_known {names : List String} {fs : List Field} {values : Values fs}
    (h : Covered names fs values) :
    Slots.complete fs (Slots.known names fs values) = .ok values := by
  induction fs with
  | nil => rfl
  | cons f fs ih =>
    obtain ⟨a, values⟩ := values
    obtain ⟨hf, hfs⟩ := h
    have hslot : (if f.name ∈ names then some a else Option.none).or f.default? = some a := by
      split
      · rfl
      · rename_i hnot
        exact hf.resolve_left hnot
    rw [Slots.known, Slots.complete, hslot, ih hfs]
    rfl

theorem Covered.of_subset {names more : List String} (hsubset : ∀ name ∈ names, name ∈ more)
    {fs : List Field} {values : Values fs} (h : Covered names fs values) :
    Covered more fs values := by
  induction fs with
  | nil => exact trivial
  | cons f fs ih =>
    obtain ⟨a, values⟩ := values
    exact ⟨h.1.imp_left (hsubset f.name), ih h.2⟩

/-! ### Members -/

variable {tail bytes mid : List UInt8} {name : String} {names : List String}

/-- A member whose name the first field has. -/
theorem fill_cons_self {f : Field} {fs : List Field} (slot : Option f.Carrier)
    (slots : Slots fs) :
    Reader.fill f.name (f :: fs) (slot, slots) = some (do
      if slot.isSome then Reader.failUnplaced (.duplicateMember f.name)
      else do
        Reader.separator
        let value ← f.read
        pure (some value, slots)) := by
  exact if_pos rfl

/-- A member that belongs to a later field. -/
theorem fill_cons_of_ne {f : Field} {fs : List Field} (h : f.name ≠ name)
    (slot : Option f.Carrier) (slots : Slots fs) :
    Reader.fill name (f :: fs) (slot, slots) = (Reader.fill name fs slots).map (fun r => do
      let slots ← r
      pure (slot, slots)) := by
  exact if_neg h

/-- The value of a member that is met for the first time goes to its slot. -/
theorem yields_fill {v : Value} {fs : List Field} {values : Values fs}
    (hnodup : (fs.map Field.name).Nodup) (hnew : name ∉ names)
    (h : ReadsField name v fs values) (hlaid : Laid tail (.colon :: v.tokens) bytes)
    (htail : Delimited tail) :
    ∃ r, Reader.fill name fs (Slots.known names fs values) = some r ∧
      r.Yields bytes (Slots.known (name :: names) fs values) tail := by
  induction fs with
  | nil => exact absurd h id
  | cons f fs ih =>
    obtain ⟨a, values⟩ := values
    rw [List.map_cons, List.nodup_cons] at hnodup
    by_cases hf : f.name = name
    · -- this field, whose slot is still empty; no later one has the name
      subst hf
      rw [ReadsField, if_pos rfl] at h
      obtain ⟨rest, hcolon, hrest⟩ := Laid.colon_ahead hlaid
      rw [Slots.known, Slots.known, if_neg hnew, if_pos List.mem_cons_self,
        Slots.known_cons_of_not_mem hnodup.1]
      refine ⟨_, fill_cons_self _ _, ?_⟩
      apply Reader.Yields.bind hcolon.separator
      apply Reader.Yields.bind (h.yields htail hrest)
      exact Reader.Yields.pure _ tail
    · -- a later field; this slot keeps what it has
      rw [ReadsField, if_neg hf] at h
      obtain ⟨r, hr, hread⟩ := ih hnodup.2 h
      have hslot : f.name ∈ name :: names ↔ f.name ∈ names := by
        rw [List.mem_cons]
        exact or_iff_right hf
      rw [Slots.known, Slots.known]
      simp only [hslot]
      refine ⟨_, (fill_cons_of_ne hf _ _).trans (congrArg _ hr), ?_⟩
      apply Reader.Yields.bind hread
      exact Reader.Yields.pure _ tail

/-! ### Objects -/

/-- The tokens of a member. -/
def memberItem (m : String × Value) : List Token := .text m.1 :: .colon :: m.2.tokens

theorem memberTokens_eq_map (ms : List (String × Value)) :
    memberTokens ms = ms.map memberItem := by
  induction ms with
  | nil => rfl
  | cons m ms ih =>
    obtain ⟨name, v⟩ := m
    rw [memberTokens, ih, List.map_cons]
    rfl

/-- The member that comes next: its name after the quote, its colon and value, and
what is left after it. -/
theorem Laid.member_ahead {m : String × Value} {ts : List Token}
    (h : Laid tail (memberItem m ++ ts) bytes) :
    ∃ mid left rest, Reader.Ahead bytes quoteMark mid ∧ Reader.stringRest.Yields mid m.1 left ∧
      Laid rest (.colon :: m.2.tokens) left ∧ Laid tail ts rest ∧
      rest.length < bytes.length := by
  obtain ⟨mid, left, hahead, hname, hleft, hlt⟩ := Laid.text_ahead h
  obtain ⟨rest, hvalue, hrest⟩ :=
    Laid.split (show Laid tail ((.colon :: m.2.tokens) ++ ts) left from hleft)
  exact ⟨mid, left, rest, hahead, hname, hvalue, hrest, Nat.lt_of_le_of_lt hvalue.length_le hlt⟩

section

variable {shape : Shape α} {values : Values shape.fields}
variable (hfields : (shape.fields.map Field.name).Nodup)
include hfields

/-- One more member, after the step to its name. -/
theorem yields_memberStep {first : Bool} {m : String × Value} {left : List UInt8}
    (hnext : (Reader.nextMember first).Yields bytes true mid)
    (hname : Reader.stringRest.Yields mid m.1 left) (hnew : m.1 ∉ names)
    (hread : ReadsField m.1 m.2 shape.fields values)
    (hlaid : Laid tail (.colon :: m.2.tokens) left) (htail : Delimited tail) :
    (Reader.memberStep shape (first, Slots.known names shape.fields values)).Yields bytes
      (.inl (false, Slots.known (m.1 :: names) shape.fields values)) tail := by
  obtain ⟨r, hr, hslots⟩ := yields_fill hfields hnew hread hlaid htail
  apply Reader.Yields.bind hnext
  apply Reader.Yields.bind hname
  simp only [hr]
  apply Reader.Yields.bind hslots
  exact Reader.Yields.pure _ tail

/-- The members after the first, and the end of the object. -/
theorem yields_laterMembers {ms : List (String × Value)}
    (hread : ∀ m ∈ ms, ReadsField m.1 m.2 shape.fields values)
    (hms : (ms.map Prod.fst).Nodup) (hnew : ∀ m ∈ ms, m.1 ∉ names)
    (hlaid : Laid tail (laterItems (ms.map memberItem) ++ [Token.closeObject]) bytes) :
    (Reader.loop (Reader.memberStep shape) (false, Slots.known names shape.fields values)).Yields
      bytes (Slots.known ((ms.map Prod.fst).reverse ++ names) shape.fields values)
      (closeBrace :: tail) := by
  induction ms generalizing names bytes with
  | nil =>
    have hend : Reader.Ahead bytes closeBrace tail := Laid.closeObject_ahead hlaid
    apply Reader.Yields.loop_stop
    apply Reader.Yields.bind (hend.noMember _)
    exact Reader.Yields.pure _ _
  | cons m ms ih =>
    rw [List.map_cons, laterItems, List.flatMap_cons, List.append_assoc] at hlaid
    rw [List.map_cons, List.nodup_cons] at hms
    obtain ⟨next, hcomma, hnext⟩ := Laid.comma_ahead hlaid
    obtain ⟨mid, left, rest, hahead, hname, hvalue, hrest, hlt⟩ := Laid.member_ahead hnext
    have hdelimited : Delimited rest := delimited_laterItems hrest rfl rfl
    have hstep := yields_memberStep hfields (hcomma.laterMember hahead) hname
      (hnew m List.mem_cons_self) (hread m List.mem_cons_self) hvalue hdelimited
    -- the names of the members to come are new after this one too
    have hlater : ∀ k ∈ ms, k.1 ∉ m.1 :: names := by
      intro k hk hmem
      obtain heq | hold := List.mem_cons.mp hmem
      · exact hms.1 (heq ▸ List.mem_map_of_mem hk)
      · exact hnew k (List.mem_cons_of_mem m hk) hold
    have hrec := ih (fun k hk => hread k (List.mem_cons_of_mem m hk)) hms.2 hlater hrest
    rw [List.map_cons, List.reverse_cons, List.append_assoc]
    exact Reader.Yields.loop_go hstep (Nat.lt_trans hlt hcomma.length_lt) hrec

/-- The members of an object, up to its closing brace. -/
theorem yields_slots {ms : List (String × Value)}
    (hread : ∀ m ∈ ms, ReadsField m.1 m.2 shape.fields values)
    (hms : (ms.map Prod.fst).Nodup)
    (hlaid : Laid tail (commaSeparated (ms.map memberItem) ++ [Token.closeObject]) bytes) :
    (Reader.loop (Reader.memberStep shape) (true, Slots.none shape.fields)).Yields bytes
      (Slots.known (ms.map Prod.fst).reverse shape.fields values) (closeBrace :: tail) := by
  rw [← Slots.known_nil shape.fields values]
  cases ms with
  | nil =>
    have hend : Reader.Ahead bytes closeBrace tail := Laid.closeObject_ahead hlaid
    apply Reader.Yields.loop_stop
    apply Reader.Yields.bind (hend.noMember _)
    exact Reader.Yields.pure _ _
  | cons m ms =>
    rw [List.map_cons, commaSeparated_cons, List.append_assoc] at hlaid
    rw [List.map_cons, List.nodup_cons] at hms
    obtain ⟨mid, left, rest, hahead, hname, hvalue, hrest, hlt⟩ := Laid.member_ahead hlaid
    have hdelimited : Delimited rest := delimited_laterItems hrest rfl rfl
    have hstep := yields_memberStep hfields hahead.firstMember hname List.not_mem_nil
      (hread m List.mem_cons_self) hvalue hdelimited
    have hlater : ∀ k ∈ ms, k.1 ∉ [m.1] := by
      intro k hk hmem
      exact hms.1 (List.mem_singleton.mp hmem ▸ List.mem_map_of_mem hk)
    have hrec := yields_laterMembers hfields
      (fun k hk => hread k (List.mem_cons_of_mem m hk)) hms.2 hlater hrest
    rw [List.map_cons, List.reverse_cons]
    exact Reader.Yields.loop_go hstep hlt hrec

/-- A record is read from an object that has, in any order, each of its members at
most once and leaves out only defaults. -/
theorem reads_record {ms : List (String × Value)}
    (hread : ∀ m ∈ ms, ReadsField m.1 m.2 shape.fields values)
    (hms : (ms.map Prod.fst).Nodup) (hcovered : Covered (ms.map Prod.fst) shape.fields values) :
    Reads (Reader.record shape) (shape.build values) (.object ms) := by
  refine ⟨⟨.openObject, _, openBrace, [], rfl, rfl, rfl⟩, ?_⟩
  intro tail bytes _ hlaid
  rw [Value.tokens, memberTokens_eq_map] at hlaid
  obtain ⟨rest, hahead, hrest⟩ := Laid.openObject_ahead hlaid
  have hbody : (Reader.members shape).Yields rest (shape.build values) (closeBrace :: tail) := by
    have hcomplete : Slots.complete shape.fields
        (Slots.known (ms.map Prod.fst).reverse shape.fields values) = .ok values :=
      Slots.complete_known (hcovered.of_subset fun _ hname => List.mem_reverse.mpr hname)
    apply Reader.Yields.bind (yields_slots hfields hread hms hrest)
    rw [hcomplete]
    exact Reader.Yields.pure _ _
  apply Reader.Yields.bind hahead.token
  apply Reader.Yields.placing
  apply Reader.Yields.bind (Reader.yields_skip_one openBrace rest)
  apply Reader.Yields.closing hbody
  exact (Reader.ahead_cons rfl tail).endObject

end

/-! ### Objects in the order of the table -/

/-- One member for each field, in the order of the table. -/
inductive InOrder : (fs : List Field) → Values fs → List (String × Value) → Prop where
  | nil : InOrder [] () []
  | cons {f : Field} {fs : List Field} {a : f.Carrier} {values : Values fs} {v : Value}
      {ms : List (String × Value)} :
      Reads f.read a v → InOrder fs values ms → InOrder (f :: fs) (a, values) ((f.name, v) :: ms)

namespace InOrder

variable {fs : List Field} {values : Values fs} {ms : List (String × Value)}

theorem names_eq (h : InOrder fs values ms) : ms.map Prod.fst = fs.map Field.name := by
  induction h with
  | nil => rfl
  | cons _ _ ih => rw [List.map_cons, List.map_cons, ih]

theorem readsField (h : InOrder fs values ms) (hfields : (fs.map Field.name).Nodup) :
    ∀ m ∈ ms, ReadsField m.1 m.2 fs values := by
  induction h with
  | nil => exact fun m hm => absurd hm List.not_mem_nil
  | @cons f fs a values v ms hv hms ih =>
    rw [List.map_cons, List.nodup_cons] at hfields
    intro m hm
    obtain rfl | hm := List.mem_cons.mp hm
    · rw [ReadsField, if_pos rfl]
      exact hv
    · have hne : f.name ≠ m.1 := by
        intro heq
        have hmem : m.1 ∈ fs.map Field.name := hms.names_eq ▸ List.mem_map_of_mem hm
        exact hfields.1 (heq ▸ hmem)
      rw [ReadsField, if_neg hne]
      exact ih hfields.2 m hm

end InOrder

/-! ### Objects in any order -/

/-- The members of an object in any order, some that are among the defaults left out. -/
def Loosened (defaults full ms : List (String × Value)) : Prop :=
  ∃ left, (ms ++ left).Perm full ∧ ∀ m ∈ left, m ∈ defaults

/-- The member is what some field has as its default. -/
def DefaultMember (fs : List Field) (m : String × Value) : Prop :=
  ∃ f ∈ fs, f.name = m.1 ∧ ∃ a, f.default? = some a ∧ Reads f.read a m.2

theorem Loosened.refl (defaults full : List (String × Value)) : Loosened defaults full full :=
  ⟨[], by rw [List.append_nil], fun _ hm => absurd hm List.not_mem_nil⟩

theorem laid_flatMap_bytes (tail : List UInt8) (ts : List Token) :
    Laid tail ts (ts.flatMap Token.bytes ++ tail) := by
  induction ts with
  | nil => rfl
  | cons t ts ih =>
    refine ⟨[], _, fun b hb => absurd hb List.not_mem_nil, ?_, ih⟩
    rw [List.flatMap_cons, List.append_assoc]
    rfl

/-- A reader answers one thing where a value is written. -/
theorem Reads.unique {r : Reader α} {a b : α} {v : Value} (ha : Reads r a v) (hb : Reads r b v) :
    a = b := by
  have hend : Delimited [] := fun _ h => nomatch h
  have hlaid : Laid [] v.tokens (v.tokens.flatMap Token.bytes ++ []) := laid_flatMap_bytes [] _
  obtain ⟨j, hj, -⟩ := ha.yields hend hlaid (.start _) rfl
  exact ((hb.yields hend hlaid).eq_of_ok rfl hj).1

/-- Where only defaults are left out, every field is covered. -/
theorem InOrder.covered_of_loosened {fs gs : List Field} {values : Values fs}
    {defaults full ms : List (String × Value)} (h : InOrder fs values full)
    (hfields : (gs.map Field.name).Nodup) (hsubset : ∀ f ∈ fs, f ∈ gs)
    (hdefaults : ∀ m ∈ defaults, DefaultMember gs m)
    (hms : ∀ m ∈ full, m ∈ ms ∨ m ∈ defaults) : Covered (ms.map Prod.fst) fs values := by
  induction h with
  | nil => exact trivial
  | @cons f fs a values v full hv _ ih =>
    refine ⟨?_, ih (fun g hg => hsubset g (List.mem_cons_of_mem f hg))
      fun m hm => hms m (List.mem_cons_of_mem _ hm)⟩
    rcases hms (f.name, v) List.mem_cons_self with hmem | hdefault
    · exact .inl (List.mem_map_of_mem hmem)
    · obtain ⟨g, hg, hname, b, hb, hread⟩ := hdefaults _ hdefault
      obtain rfl := List.inj_on_of_nodup_map hfields hg (hsubset f List.mem_cons_self) hname
      exact .inr (hb.trans (congrArg some (hread.unique hv)))

/-- A record is read from an object that has its members in any order and leaves out only
defaults. -/
theorem reads_record_loosened {shape : Shape α} {values : Values shape.fields}
    {defaults full ms : List (String × Value)} (hfields : (shape.fields.map Field.name).Nodup)
    (h : InOrder shape.fields values full)
    (hdefaults : ∀ m ∈ defaults, DefaultMember shape.fields m)
    (hms : Loosened defaults full ms) :
    Reads (Reader.record shape) (shape.build values) (.object ms) := by
  obtain ⟨left, hperm, hleft⟩ := hms
  apply reads_record hfields
  · intro m hm
    exact h.readsField hfields m (hperm.subset (List.mem_append_left left hm))
  · have hnames : (full.map Prod.fst).Nodup := h.names_eq ▸ hfields
    have hall := (hperm.map Prod.fst).nodup_iff.mpr hnames
    rw [List.map_append] at hall
    exact (List.nodup_append.mp hall).1
  · refine h.covered_of_loosened hfields (fun _ hf => hf) hdefaults fun m hm => ?_
    exact (List.mem_append.mp (hperm.mem_iff.mpr hm)).imp_right (hleft m)

/-! ### Alternatives -/

variable {variants : List (Variant α)} (hvariants : (variants.map Variant.name).Nodup)
include hvariants

theorem yields_variantName {w : Variant α} (hw : w ∈ variants)
    (hname : Reader.stringRest.Yields bytes w.name tail) :
    ∃ k, variants.get k = w ∧ (Reader.variantName variants).Yields bytes k tail := by
  cases hk : variants.findFinIdx? (·.name == w.name) with
  | none =>
    have hnot := List.findFinIdx?_eq_none_iff.mp hk w hw
    exact absurd (beq_self_eq_true w.name) hnot
  | some k =>
    -- the place that was found has the name of `w`, so it is the place of `w`
    have hsame : variants[k].name = w.name := beq_iff_eq.mp (List.findFinIdx?_eq_some_iff.mp hk).1
    refine ⟨k, List.inj_on_of_nodup_map hvariants (List.get_mem variants k) hw hsame, ?_⟩
    apply Reader.Yields.placing
    apply Reader.Yields.bind hname
    rw [hk]
    exact Reader.Yields.pure k tail

/-- An alternative that is a bare name. -/
theorem reads_bareVariant {a : α} (hw : ⟨name, .bare a⟩ ∈ variants) :
    Reads (Reader.variant variants) a (.text name) := by
  refine ⟨⟨.text name, [], quoteMark, _, rfl, encode_quote name, rfl⟩, ?_⟩
  intro tail bytes _ hlaid
  obtain ⟨mid, rest, hahead, hname, rfl, -⟩ := Laid.text_ahead hlaid
  obtain ⟨k, hk, hread⟩ := yields_variantName hvariants hw hname
  apply Reader.Yields.bind hahead.token
  apply Reader.Yields.bind (Reader.yields_skip_one quoteMark mid)
  apply Reader.Yields.bind hread
  rw [hk]
  exact Reader.Yields.pure a rest

/-- An alternative that is a record: an object with its name as the only member. -/
theorem reads_recordVariant {shape : Shape α} {a : α} {v : Value}
    (hw : ⟨name, .record shape⟩ ∈ variants) (h : Reads (Reader.record shape) a v) :
    Reads (Reader.variant variants) a (.object [(name, v)]) := by
  refine ⟨⟨.openObject, _, openBrace, [], rfl, rfl, rfl⟩, ?_⟩
  intro tail bytes _ hlaid
  obtain ⟨rest, hopen, hrest⟩ := Laid.openObject_ahead hlaid
  obtain ⟨mid, left, last, hahead, hname, hvalue, hend, -⟩ :=
    Laid.member_ahead (show Laid tail (memberItem (name, v) ++ [Token.closeObject]) rest from hrest)
  obtain ⟨k, hk, hread⟩ := yields_variantName hvariants hw hname
  obtain ⟨next, hcolon, hnext⟩ := Laid.colon_ahead hvalue
  have hclose : Reader.Ahead last closeBrace tail := Laid.closeObject_ahead hend
  have hdelimited : Delimited last := Laid.delimited hend rfl rfl
  apply Reader.Yields.bind hopen.token
  apply Reader.Yields.bind (Reader.yields_skip_one openBrace rest)
  apply Reader.Yields.bind hahead.token
  apply Reader.Yields.bind (Reader.yields_skip_one quoteMark mid)
  apply Reader.Yields.bind hread
  apply Reader.Yields.bind hcolon.separator
  rw [hk]
  apply Reader.Yields.bind (h.yields hdelimited hnext)
  apply Reader.Yields.bind hclose.token
  apply Reader.Yields.bind (Reader.yields_skip_one closeBrace tail)
  exact Reader.Yields.pure a tail

end Json

end Storyboard
