/-
JSON values and their two texts, compact and indented.
-/
import ImageLock.Document.Node
import ImageLock.Number.Decimal
import ImageLock.Text.Quoted
import ImageLock.Text.Cut

namespace ImageLock

inductive Json where
  | null
  | bool (value : Bool)
  | int (value : Int)
  | real (value : Number.Binary64)
  | text (value : String)
  | list (items : List Json)
  | object (fields : List (String × Json))
deriving Repr, Inhabited

namespace Json

def texts (items : List String) : Json := .list (items.map .text)

/-- Two digits, lower case. -/
def hexByte (n : Nat) : List Char := [Text.hexDigit (n / 16 % 16), Text.hexDigit (n % 16)]

def escapeChar (c : Char) : List Char :=
  match c with
  | '"' => ['\\', '"']
  | '\\' => ['\\', '\\']
  | '\n' => ['\\', 'n']
  | '\r' => ['\\', 'r']
  | '\t' => ['\\', 't']
  | '\x08' => ['\\', 'b']
  | '\x0c' => ['\\', 'f']
  | _ => if c.toNat < 0x20 then ['\\', 'u', '0', '0'] ++ hexByte c.toNat else [c]

def stringText (s : String) : String :=
  String.ofList ('"' :: s.toList.flatMap escapeChar ++ ['"'])

def realText (x : Number.Binary64) : String := (Number.documentText? true x).getD "null"

mutual
/-- The text without blanks. -/
def compact : Json → String
  | .null => "null"
  | .bool b => if b then "true" else "false"
  | .int i => Number.intText i
  | .real x => realText x
  | .text s => stringText s
  | .list items => "[" ++ compactItems items ++ "]"
  | .object fields => "\x7b" ++ compactFields fields ++ "\x7d"

def compactItems : List Json → String
  | [] => ""
  | [item] => compact item
  | item :: rest => compact item ++ "," ++ compactItems rest

def compactFields : List (String × Json) → String
  | [] => ""
  | [(name, value)] => stringText name ++ ":" ++ compact value
  | (name, value) :: rest =>
      stringText name ++ ":" ++ compact value ++ "," ++ compactFields rest
end

def indent (depth : Nat) : String := String.ofList (List.replicate (2 * depth) ' ')

mutual
/-- The text with one item or field a line, indented by two blanks a level. -/
def pretty (depth : Nat) : Json → String
  | .list [] => "[]"
  | .list items => "[" ++ prettyItems (depth + 1) items ++ "\n" ++ indent depth ++ "]"
  | .object [] => "\x7b\x7d"
  | .object fields =>
      "\x7b" ++ prettyFields (depth + 1) fields ++ "\n" ++ indent depth ++ "\x7d"
  | .null => "null"
  | .bool b => if b then "true" else "false"
  | .int i => Number.intText i
  | .real x => realText x
  | .text s => stringText s

def prettyItems (depth : Nat) : List Json → String
  | [] => ""
  | [item] => "\n" ++ indent depth ++ pretty depth item
  | item :: rest => "\n" ++ indent depth ++ pretty depth item ++ "," ++ prettyItems depth rest

def prettyFields (depth : Nat) : List (String × Json) → String
  | [] => ""
  | [(name, value)] => "\n" ++ indent depth ++ stringText name ++ ": " ++ pretty depth value
  | (name, value) :: rest =>
      "\n" ++ indent depth ++ stringText name ++ ": " ++ pretty depth value ++ "," ++
        prettyFields depth rest
end

/-- Puts a field in its place among fields sorted by name. -/
def insertField (name : String) (value : Json) : List (String × Json) → List (String × Json)
  | [] => [(name, value)]
  | (n, v) :: rest =>
      if name < n then (name, value) :: (n, v) :: rest
      else if name = n then (name, value) :: rest
      else (n, v) :: insertField name value rest

/-- The text of a scalar key; other nodes cannot be keys of an object. -/
def keyText? : Node → Option String
  | .text s => some s
  | .bool b => some (if b then "true" else "false")
  | .int i => some (Number.intText i)
  | .real x => Number.documentText? true x
  | _ => none

mutual
/-- A document as JSON, fields in the order of the document. -/
def ofNode? : Node → Option Json
  | .null => some .null
  | .bool b => some (.bool b)
  | .int i => some (.int i)
  | .real x => some (if x.isFinite then .real x else .null)
  | .text s => some (.text s)
  | .list items => (ofItems? items).map .list
  | .map fields => (ofFields? fields).map .object
  | .tagged tag value => (ofNode? value).map fun v => .object [("!" ++ tag, v)]

def ofItems? : List Node → Option (List Json)
  | [] => some []
  | item :: rest =>
      match ofNode? item, ofItems? rest with
      | some v, some vs => some (v :: vs)
      | _, _ => none

def ofFields? : List (Node × Node) → Option (List (String × Json))
  | [] => some []
  | (key, value) :: rest =>
      match keyText? key, ofNode? value, ofFields? rest with
      | some name, some v, some vs => some ((name, v) :: vs)
      | _, _, _ => none
end

mutual
/-- The same value with the fields of every object sorted by name. -/
def sorted : Json → Json
  | .list items => .list (sortedItems items)
  | .object fields => .object (sortedFields fields [])
  | value => value

def sortedItems : List Json → List Json
  | [] => []
  | item :: rest => sorted item :: sortedItems rest

def sortedFields : List (String × Json) → List (String × Json) → List (String × Json)
  | [], done => done
  | (name, value) :: rest, done => sortedFields rest (insertField name (sorted value) done)
end

/-- A document whose keys are all names, in the order of the document. -/
def ofRecord (node : Node) : Json := (ofNode? node).getD .null

/-- The same with sorted fields. -/
def ofNode (node : Node) : Json := ((ofNode? node).map sorted).getD .null

end Json
end ImageLock
