/-
Storyboard/Json/Shape.lean

Reading typed data from JSON.

A `Shape` describes a record type by its table of fields; the record is read
from an object, with its members in any order, or from a list, with its fields
in the order of the table.  A `Variant` is one of the named alternatives of a
type: a bare name, or an object with the name as its only member.  Both are
read by one reader each, so what holds of the readers holds of every type that
has a table: no member twice, none that the table does not know, none missing
that has no default.
-/
import Storyboard.Json.Skipping

namespace Storyboard

namespace Json

/-! ### Tables -/

/-- One field of a record. -/
structure Field where
  name : String
  Carrier : Type
  read : Reader Carrier
  default? : Option Carrier := none

/-- A value for every field. -/
def Values : List Field → Type
  | [] => Unit
  | f :: fs => f.Carrier × Values fs

/-- A value for some of the fields. -/
def Slots : List Field → Type
  | [] => Unit
  | f :: fs => Option f.Carrier × Slots fs

/-- How a record is read. -/
structure Shape (α : Type) where
  /-- What the record is called in faults. -/
  label : String
  fields : List Field
  build : Values fields → α
  /-- Members that the table does not know are passed over. -/
  lenient : Bool := false

/-- What a name of an alternative stands for. -/
inductive Payload (α : Type) where
  | bare (value : α)
  | record (shape : Shape α)

/-- One of the named alternatives of a type. -/
structure Variant (α : Type) where
  name : String
  payload : Payload α

/-- Nothing is known of any field. -/
def Slots.none : (fs : List Field) → Slots fs
  | [] => ()
  | _ :: fs => (Option.none, Slots.none fs)

/-- The values of all fields, or the first field that has none. -/
def Slots.complete : (fs : List Field) → Slots fs → Except String (Values fs)
  | [], _ => .ok ()
  | f :: fs, (slot, slots) =>
    match slot.or f.default? with
    | Option.none => .error f.name
    | some value => (Slots.complete fs slots).map fun values => (value, values)

namespace Reader

variable {α : Type}

/-! ### Values of the wrong kind -/

/-- The kind of the value that comes next.  Scalars are read to their end,
containers not at all. -/
def found : Reader Found := do
  match ← peek with
  | none => failNext .expectedValue
  | some b =>
    if b = 0x6e then do
      skip 1
      nullRest
      pure .null
    else if b = 0x74 then do
      skip 1
      trueRest
      pure (.boolean true)
    else if b = 0x66 then do
      skip 1
      falseRest
      pure (.boolean false)
    else if b = minus || isDigit b then do
      let n ← number b
      pure n.found
    else if b = quoteMark then do
      skip 1
      let s ← stringRest
      pure (.text s)
    else if b = openBracket then pure .list
    else if b = openBrace then pure .object
    else failNext .expectedValue

/-- A value that is not of the expected kind. -/
def wrongKind (expected : String) : Reader α :=
  placing do
    let f ← found
    failUnplaced (.wrongKind f expected)

/-! ### Scalars -/

/-- A number, handed to what makes a value of it. -/
def numberAs (expected : String) (convert : Number → Reader α) : Reader α := do
  match ← token with
  | none => failNext .endInValue
  | some b =>
    if b = minus || isDigit b then
      placing do
        let n ← number b
        convert n
    else wrongKind expected

/-- A whole number that a type accepts. -/
def integer (expected : String) (accept : Int → Option α) : Reader α :=
  numberAs expected fun n =>
    match n with
    | .natural n => accepted n
    | .negative i => accepted i
    | .float x => failUnplaced (.wrongKind (.float x) expected)
where
  /-- The value of a whole number, if it has one. -/
  accepted (i : Int) : Reader α :=
    match accept i with
    | some a => pure a
    | none => failUnplaced (.wrongInteger i expected)

/-- A double. -/
def float : Reader Binary64 := numberAs "f64" fun n => pure n.toFloat

/-- A string. -/
def string : Reader String := do
  match ← token with
  | none => failNext .endInValue
  | some b =>
    if b = quoteMark then
      placing do
        skip 1
        stringRest
    else wrongKind "a string"

/-- The word for nothing, as the value of a bare name. -/
def nothing : Reader Unit := do
  match ← token with
  | none => failNext .endInValue
  | some b =>
    if b = 0x6e then
      placing do
        skip 1
        nullRest
    else wrongKind "unit"

/-! ### Lists -/

/-- One more element, onto those already found, latest first. -/
def elementStep (element : Reader α) (found : List α) : Reader (List α ⊕ List α) := do
  if ← nextElement found.isEmpty then
    let a ← element
    pure (.inl (a :: found))
  else pure (.inr found.reverse)

/-- A list of any length. -/
def list (element : Reader α) : Reader (List α) := do
  match ← token with
  | none => failNext .endInValue
  | some b =>
    if b = openBracket then
      placing do
        skip 1
        closing (loop (elementStep element) []) endList
    else wrongKind "a sequence"

/-! ### Records -/

/-- Read the value of a named member into its slot; no such field, no reader. -/
def fill (name : String) : (fs : List Field) → Slots fs → Option (Reader (Slots fs))
  | [], _ => none
  | f :: fs, (slot, slots) =>
    if f.name = name then some do
      if slot.isSome then failUnplaced (.duplicateMember name)
      else do
        separator
        let value ← f.read
        pure (some value, slots)
    else
      (fill name fs slots).map fun r => do
        let slots ← r
        pure (slot, slots)

/-- A member that the table does not know. -/
def unknownMember (shape : Shape α) (name : String) : Reader Unit :=
  if shape.lenient then do
    separator
    skipValue
  else failUnplaced (.unknownMember name (shape.fields.map Field.name))

/-- One more member of a record.  The state says whether it is the first. -/
def memberStep (shape : Shape α) (state : Bool × Slots shape.fields) :
    Reader ((Bool × Slots shape.fields) ⊕ Slots shape.fields) := do
  if ← nextMember state.1 then
    let name ← stringRest
    match fill name shape.fields state.2 with
    | some r => do
      let slots ← r
      pure (.inl (false, slots))
    | none => do
      unknownMember shape name
      pure (.inl (false, state.2))
  else pure (.inr state.2)

/-- The members of a record, up to the end of the object. -/
def members (shape : Shape α) : Reader α := do
  let slots ← loop (memberStep shape) (true, Slots.none shape.fields)
  match Slots.complete shape.fields slots with
  | .ok values => pure (shape.build values)
  | .error name => failUnplaced (.missingMember name)

/-- The number of elements that a record has as a list. -/
def arity (shape : Shape α) : String :=
  match shape.fields.length with
  | 1 => shape.label ++ " with 1 element"
  | n => shape.label ++ " with " ++ toString n ++ " elements"

/-- The fields of a record in the order of the table, `count` of which have been
read; `expected` is what a shorter list is not.  At the end of the list, where the
remaining fields take their defaults, looking for an element changes nothing. -/
def positional (expected : String) :
    (fs : List Field) → (count : Nat) → Reader (Values fs)
  | [], _ => pure ()
  | f :: fs, count => do
    if ← nextElement (count == 0) then
      let value ← f.read
      let values ← positional expected fs (count + 1)
      pure (value, values)
    else
      match f.default? with
      | some value => do
        let values ← positional expected fs count
        pure (value, values)
      | none => failUnplaced (.wrongLength count expected)

/-- A record, from an object or a list. -/
def record (shape : Shape α) : Reader α := do
  match ← token with
  | none => failNext .endInValue
  | some b =>
    if b = openBrace then
      placing do
        skip 1
        closing (members shape) endObject
    else if b = openBracket then
      placing do
        skip 1
        closing (do
          let values ← positional (arity shape) shape.fields 0
          pure (shape.build values)) endList
    else wrongKind shape.label

/-! ### Alternatives -/

/-- A name of an alternative, after its opening quote, as its place in the table. -/
def variantName (variants : List (Variant α)) : Reader (Fin variants.length) :=
  placing do
    let name ← stringRest
    match variants.findFinIdx? (·.name == name) with
    | some k => pure k
    | none => failUnplaced (.unknownName name (variants.map Variant.name))

/-- The value that belongs to a name. -/
def payload : Payload α → Reader α
  | .bare value => do
    nothing
    pure value
  | .record shape => record shape

/-- One of several named alternatives. -/
def variant (variants : List (Variant α)) : Reader α := do
  match ← token with
  | none => failNext .endInValue
  | some b =>
    if b = quoteMark then do
      skip 1
      let k ← variantName variants
      match (variants.get k).payload with
      | .bare value => pure value
      | .record _ => failUnplaced (.wrongKind .bareName "struct variant")
    else if b = openBrace then do
      skip 1
      match ← token with
      | none => failNext .endInObject
      | some c =>
        if c = closeBrace then failNext .expectedValue
        else if c = quoteMark then do
          skip 1
          let k ← variantName variants
          separator
          let value ← payload (variants.get k).payload
          match ← token with
          | none => failHere .endInObject
          | some d =>
            if d = closeBrace then do
              skip 1
              pure value
            else failHere .expectedValue
        else failNext .keyNotString
    else failNext .expectedValue

/-! ### Whole texts -/

/-- A value with nothing but blanks after it. -/
def document (r : Reader α) : Reader α := do
  let value ← r
  match ← token with
  | none => pure value
  | some _ => failNext .trailingCharacters

/-- Read all of some bytes. -/
def runOn (r : Reader α) (source : Source) (bytes : List UInt8) : Except Located α :=
  match document r (.start bytes source) with
  | .ok value _ => .ok value
  | .fail e _ => .error ⟨e.fault, e.place?.map fun p => p.position source bytes⟩

end Reader

end Json

end Storyboard
