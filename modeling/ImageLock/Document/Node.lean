/-
Document values: what a document denotes once its text is read.

The fields of a mapping have an order, which the reader keeps and the
definition hash shows. Removing a field moves the last one into its place.
-/
import ImageLock.Number.Binary64

namespace ImageLock

inductive Node where
  | null
  | bool (value : Bool)
  | int (value : Int)
  | real (value : Number.Binary64)
  | text (value : String)
  | list (items : List Node)
  | map (fields : List (Node × Node))
  | tagged (tag : String) (value : Node)
deriving Repr, Inhabited

/-- The fields of a mapping, in order. -/
abbrev Fields := List (Node × Node)

namespace Node

mutual
/-- Equality of documents. The order of fields does not count, the two zeros
are equal, and an integer is never equal to a number read as a real. -/
def same : Node → Node → Bool
  | .null, .null => true
  | .bool a, .bool b => a == b
  | .int a, .int b => a == b
  | .real a, .real b => a.same b
  | .text a, .text b => a == b
  | .list a, .list b => sameItems a b
  | .map a, .map b => a.length == b.length && within a b
  | .tagged s a, .tagged t b => s == t && same a b
  | _, _ => false

def sameItems : List Node → List Node → Bool
  | [], [] => true
  | a :: as, b :: bs => same a b && sameItems as bs
  | _, _ => false

/-- Every field of the first mapping is a field of the second. -/
def within : List (Node × Node) → List (Node × Node) → Bool
  | [], _ => true
  | (k, v) :: rest, fields =>
      fields.any (fun (k', v') => same k k' && same v v') && within rest fields
end

def isText (name : String) : Node → Bool
  | .text s => s == name
  | _ => false

/-- The value under all tags. -/
def untagged : Node → Node
  | .tagged _ value => value.untagged
  | value => value

def record (fields : List (String × Node)) : Node :=
  .map (fields.map fun (name, value) => (.text name, value))

def texts (items : List String) : Node := .list (items.map .text)

/-- A field for a value that is there. -/
def optional (name : String) (value : Option Node) : List (String × Node) :=
  match value with
  | some v => [(name, v)]
  | none => []

end Node

namespace Fields

def find? (fields : Fields) (name : String) : Option Node :=
  (List.find? (fun e => e.1.isText name) fields).map (·.2)

def has (fields : Fields) (name : String) : Bool := List.any fields fun e => e.1.isText name

/-- Removes a field; the last field takes its place. -/
def remove (name : String) : Fields → Fields
  | [] => []
  | e :: rest =>
      if e.1.isText name then
        match rest.getLast? with
        | none => []
        | some last => last :: rest.dropLast
      else e :: remove name rest

/-- Replaces the value of a field, or appends the field. -/
def insert (name : String) (value : Node) : Fields → Fields
  | [] => [(.text name, value)]
  | e :: rest =>
      if e.1.isText name then (e.1, value) :: rest else e :: insert name value rest

/-- The field, and the fields without it. -/
def take (fields : Fields) (name : String) : Option Node × Fields :=
  match fields.find? name with
  | some value => (some value, fields.remove name)
  | none => (none, fields)

/-- Takes the named fields out, one after the other. -/
def takeAll (fields : Fields) : List String → Fields × Fields
  | [] => ([], fields)
  | name :: names =>
      match fields.take name with
      | (some value, rest) =>
          let (taken, rest) := takeAll rest names
          ((.text name, value) :: taken, rest)
      | (none, rest) => takeAll rest names

def keys (fields : Fields) : List Node := fields.map (·.1)

end Fields
end ImageLock
