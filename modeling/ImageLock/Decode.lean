/-
Decoding values out of documents. A record names its fields: a field that is
not among them is refused, and so is the absence of one that is required.
-/
import ImageLock.Document.Node
import ImageLock.Number.Decimal

namespace ImageLock

/-- Why a document does not denote the value that was asked for. -/
inductive Mismatch where
  | unknownField (name : String)
  | unknownVariant (name : String)
  | missingField (name : String)
  | parentNotText
  | devNotBool
  | unfit
deriving DecidableEq, Repr

namespace Mismatch

/-- What a message says about it, if there is more to say than that. -/
def detail? : Mismatch → Option String
  | .unknownField name => some ("unknown field \x60" ++ name ++ "\x60")
  | .unknownVariant name => some ("unknown variant \x60" ++ name ++ "\x60")
  | .missingField name => some ("missing field \x60" ++ name ++ "\x60")
  | .parentNotText => some "derive_from must be a stage name"
  | .devNotBool => some "dev must be a boolean"
  | .unfit => none

end Mismatch

namespace Decode

abbrev Reader (α : Type) := Node → Except Mismatch α

def text : Reader String := fun node =>
  match node.untagged with
  | .text s => .ok s
  | _ => .error .unfit

def boolean : Reader Bool := fun node =>
  match node.untagged with
  | .bool b => .ok b
  | _ => .error .unfit

/-- A natural number below `2 ^ 32`. -/
def count : Reader Nat := fun node =>
  match node.untagged with
  | .int i => if 0 ≤ i ∧ i < 0x100000000 then .ok i.toNat else .error .unfit
  | _ => .error .unfit

/-- A scalar other than null, read as a text. An integer of 63 bits keeps its
digits, larger ones count as numbers with a fraction. -/
def scalar : Reader String
  | .text s => .ok s
  | .int i =>
      .ok (if i < 0x8000000000000000 then Number.intText i
        else Number.versionText (Number.Binary64.ofInt i))
  | .real r => .ok (Number.versionText r)
  | .bool b => .ok (if b then "true" else "false")
  | _ => .error .unfit

def option {α : Type} (read : Reader α) : Reader (Option α)
  | .null => .ok none
  | node => (read node).map some

def list {α : Type} (read : Reader α) : Reader (List α) := fun node =>
  match node.untagged with
  | .list items => items.mapM read
  | .null => .ok []
  | _ => .error .unfit

/-- The fields of a mapping; nothing stands for an empty one. -/
def fields : Reader Fields := fun node =>
  match node.untagged with
  | .map fields => .ok fields
  | .null => .ok []
  | _ => .error .unfit

/-- A mapping from names, in document order. -/
def entries {α : Type} (read : Reader α) : Reader (List (String × α)) := fun node => do
  (← fields node).mapM fun (key, value) => do
    let name ← text key
    return (name, ← read value)

/-- One of several names, written as a text or as the tag of nothing. -/
def variant {α : Type} (variants : List (String × α)) : Reader α := fun node =>
  let named (name : String) : Except Mismatch α :=
    match variants.find? fun v => v.1 == name with
    | some (_, value) => .ok value
    | none => .error (.unknownVariant name)
  match node with
  | .text name => named name
  | .tagged name content => do
      let value ← named name
      match content with
      | .null => return value
      | _ => throw .unfit
  | _ => .error .unfit

/-! Records. -/

/-- A field that a record may have. -/
structure Field where
  name : String
  isRequired : Bool
  check : Node → Except Mismatch Unit

def required {α : Type} (name : String) (read : Reader α) : Field :=
  ⟨name, true, fun node => (read node).map fun _ => ()⟩

def optional {α : Type} (name : String) (read : Reader α) : Field :=
  ⟨name, false, fun node => (read node).map fun _ => ()⟩

def find? (fields : Fields) (name : String) : Option Node :=
  (List.find? (fun e => e.1.untagged.isText name) fields).map (·.2)

/-- Checks fields in document order. -/
def checkFields (known : List Field) (seen : List String) : Fields → Except Mismatch Unit
  | [] => .ok ()
  | (key, value) :: rest => do
      let name ← text key
      match known.find? fun f => f.name == name with
      | none => throw (.unknownField name)
      | some field =>
          if seen.contains name then throw .unfit
          field.check value
          checkFields known (name :: seen) rest

/-- The first required field that is not there, in the record's own order. -/
def checkPresent (known : List Field) (fields : Fields) : Except Mismatch Unit :=
  match known.find? fun f => f.isRequired && (find? fields f.name).isNone with
  | some field => .error (.missingField field.name)
  | none => .ok ()

/-- The fields of a record of the known ones. -/
def record (known : List Field) : Reader Fields := fun node => do
  let fields ← fields node
  checkFields known [] fields
  checkPresent known fields
  return fields

/-- The value of a required field. -/
def need {α : Type} (fields : Fields) (name : String) (read : Reader α) : Except Mismatch α :=
  match find? fields name with
  | some node => read node
  | none => .error (.missingField name)

/-- The value of a field, or `absent`. -/
def get {α : Type} (fields : Fields) (name : String) (read : Reader α) (absent : α) :
    Except Mismatch α :=
  match find? fields name with
  | some node => read node
  | none => .ok absent

end Decode
end ImageLock
