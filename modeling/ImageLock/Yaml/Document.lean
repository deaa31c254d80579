/-
Reading a YAML stream of at most one document into a value.
-/
import ImageLock.Yaml.Anchored
import ImageLock.Yaml.Plain

namespace ImageLock.Yaml

/-- Collections nest at most this deep. -/
def depthLimit : Nat := 128

/-- For each node of a document, its aliases may be followed this often. -/
def aliasFactor : Nat := 100

/-- The name of a tag that makes a tagged value. -/
def tagName? (tag : Option TagText) : Option String :=
  match tag with
  | none => none
  | some tag =>
      if !tag.isText then none
      else match tag.text.toList with
        | '!' :: '!' :: c :: rest => some (String.ofList (c :: rest))
        | ['!'] | ['!', '!'] => some "!"
        | '!' :: rest => some (String.ofList rest)
        | _ => none

def plainOrFault (text : String) : Except Fault Node :=
  match plainValue? text with
  | some value => .ok value
  | none => .error .badScalar

/-- A scalar whose tag names a core type, or has no meaning here. -/
def scalarValue (tag : Option TagText) (text : String) (plain : Bool) :
    Except Fault Node :=
  let must (value : Option Node) : Except Fault Node :=
    match value with
    | some value => .ok value
    | none => .error .badScalar
  match tag with
  | none => if plain then plainOrFault text else .ok (.text text)
  | some tag =>
      if tag.text == coreTag "bool" then must ((boolWord? text).map .bool)
      else if tag.text == coreTag "int" then
        must (((integer? text.toList).filter isWord).map .int)
      else if tag.text == coreTag "float" then must ((real? text.toList).map .real)
      else if tag.text == coreTag "null" then
        must (if isNullWord text then some .null else none)
      else if plain && Text.startsWith "!" tag.text then plainOrFault text
      else .ok (.text text)

/-- Counts the aliases followed. -/
abbrev Reading := StateT Nat (Except Fault)

/-- Reads one node. `isTagged` says that the tag of this node was read
already; the keys of a tagged mapping are read in the same way. `fuel` bounds
the calls: at most two for each level of `depth`. -/
def readNode (doc : Linked) (limit : Nat) :
    (fuel depth : Nat) → (isTagged : Bool) → Anchored → Reading Node
  | 0, _, _, _ => throw .tooDeep
  | fuel + 1, depth, isTagged, node => do
      let within (tag : Option TagText) (read : Bool → Reading Node) : Reading Node :=
        match if isTagged then none else tagName? tag with
        | some name => return .tagged name (← read true)
        | none => read isTagged
      match node with
      | .alias slot =>
          let followed := (← get) + 1
          set followed
          if limit < followed then throw .tooManyAliases
          match doc.follow? slot with
          | some node => readNode doc limit fuel depth false node
          | none => throw .unknownAnchor
      | .scalar tag text plain =>
          within tag fun isTagged =>
            if isTagged then (if plain then plainOrFault text else pure (.text text))
            else scalarValue tag text plain
      | .sequence tag items =>
          within tag fun _ => do
            if depth = 0 then throw .tooDeep
            let items ← items.mapM (readNode doc limit fuel (depth - 1) false)
            return .list items
      | .mapping tag fields =>
          within tag fun isTagged => do
            if depth = 0 then throw .tooDeep
            let fields ← fields.foldlM (fun read (key, value) => do
              let key ← readNode doc limit fuel (depth - 1) isTagged key
              if read.any fun e => e.1.same key then throw .duplicateKey
              let value ← readNode doc limit fuel (depth - 1) false value
              return (key, value) :: read) ([] : Fields)
            return .map fields.reverse

def readLinked (doc : Linked) : Except Fault Node :=
  (readNode doc (doc.root.weight * aliasFactor) (2 * depthLimit + 4) depthLimit false
    doc.root).run' 0

/-- The value of the only document of a stream; an empty stream is null. -/
def parse (bytes : ByteArray) : Except Fault Node := do
  match ← readTree (← tokens (← characters bytes)) with
  | some tree => readLinked (← link tree)
  | none => return .null

end ImageLock.Yaml
