/-
The nodes of a YAML document as they are written: tags are spelled out,
anchors and aliases are still names.
-/
import ImageLock.Yaml.Token

namespace ImageLock.Yaml

/-- What may stand before a node. -/
structure Marks where
  anchor : Option String
  tag : Option TagText
deriving DecidableEq, Repr

inductive Tree where
  | alias (name : String)
  | scalar (marks : Marks) (text : String) (plain : Bool)
  | sequence (marks : Marks) (items : List Tree)
  | mapping (marks : Marks) (fields : List (Tree × Tree))
deriving Repr, Inhabited

namespace Tree

def unmarked : Marks := ⟨none, none⟩

/-- The scalar that stands where no node was written. -/
def missing : Tree := .scalar unmarked "" true

end Tree

/-! Directives. -/

/-- Tag handles with what they stand for, those of the document first. -/
abbrev Handles := List (String × TagText)

def coreTag (name : String) : String := "tag:yaml.org,2002:" ++ name

def defaultHandles : Handles := [("!", ⟨"!", true⟩), ("!!", ⟨coreTag "", true⟩)]

/-- Reads the directives before a document. Versions 1.1 and 1.2 are known. -/
def takeDirectives (hasVersion : Bool) (handles : Handles) :
    List Token → Except Fault (Handles × List Token)
  | .versionDirective major minor :: rest =>
      if hasVersion || major != 1 || !(minor == 1 || minor == 2) then .error .badStructure
      else takeDirectives true handles rest
  | .tagDirective handle expansion :: rest =>
      if handles.any fun e => e.1 == handle then .error .badStructure
      else takeDirectives hasVersion ((handle, expansion) :: handles) rest
  | rest => .ok (handles, rest)

def expandTag (handles : Handles) (handle : String) (suffix : TagText) :
    Except Fault TagText :=
  if handle = "" then .ok suffix
  else match handles.find? fun e => e.1 == handle with
    | some (_, expansion) =>
        .ok ⟨expansion.text ++ suffix.text, expansion.isText && suffix.isText⟩
    | none => .error .badStructure

/-- An anchor and a tag, in either order. -/
def takeMarks (handles : Handles) : List Token → Except Fault (Marks × List Token)
  | .anchor name :: .tag handle suffix :: rest => do
      return (⟨some name, some (← expandTag handles handle suffix)⟩, rest)
  | .anchor name :: rest => .ok (⟨some name, none⟩, rest)
  | .tag handle suffix :: .anchor name :: rest => do
      return (⟨some name, some (← expandTag handles handle suffix)⟩, rest)
  | .tag handle suffix :: rest => do
      return (⟨none, some (← expandTag handles handle suffix)⟩, rest)
  | rest => .ok (Tree.unmarked, rest)

/-! Nodes. Every function below reads what its name says from the front of the
tokens and returns the rest. `fuel` bounds the depth of the calls; each call
but the first of a node consumes a token. -/

def Token.endsBlockItem : Option Token → Bool
  | some .blockEntry | some .blockEnd => true
  | _ => false

def Token.endsCompactItem : Option Token → Bool
  | some .blockEntry | some .key | some .value | some .blockEnd => true
  | _ => false

def Token.endsBlockField : Option Token → Bool
  | some .key | some .value | some .blockEnd => true
  | _ => false

def Token.endsFlowKey (closing : Token) : Option Token → Bool
  | some token => token == .value || token == .flowEntry || token == closing
  | none => false

def Token.endsFlowValue (closing : Token) : Option Token → Bool
  | some token => token == .flowEntry || token == closing
  | none => false

/-- What was read, and the tokens after it. -/
abbrev Taken (α : Type) := α × List Token

/-- The comma before every entry of a flow collection but the first. -/
def takeComma (closing : Token) (first : Bool) : List Token → Except Fault (List Token)
  | [] => .error .badStructure
  | token :: rest =>
      if first || token == closing then .ok (token :: rest)
      else if token == .flowEntry then .ok rest
      else .error .badStructure

mutual

/-- A node. `inBlock` admits block collections, and `compact` a block
sequence that has no indentation of its own. -/
def takeNode (handles : Handles) (inBlock compact : Bool) :
    Nat → List Token → Except Fault (Taken Tree)
  | 0, _ => .error .badStructure
  | fuel + 1, tokens =>
      match tokens with
      | .alias name :: rest => .ok (.alias name, rest)
      | _ => do
          let (marks, tokens) ← takeMarks handles tokens
          match tokens with
          | .blockEntry :: _ =>
              if compact then
                let (items, rest) ← takeCompactItems handles fuel tokens
                return (.sequence marks items, rest)
              else takeUnwritten marks tokens
          | .scalar text plain :: rest =>
              let tag := if marks.tag == some ⟨"!", true⟩ then none else marks.tag
              return (.scalar { marks with tag } text plain, rest)
          | .flowSequenceStart :: rest =>
              let (items, rest) ← takeFlowItems handles true fuel rest
              return (.sequence marks items, rest)
          | .flowMappingStart :: rest =>
              let (fields, rest) ← takeFlowFields handles true fuel rest
              return (.mapping marks fields, rest)
          | .blockSequenceStart :: rest =>
              if inBlock then
                let (items, rest) ← takeBlockItems handles fuel rest
                return (.sequence marks items, rest)
              else takeUnwritten marks tokens
          | .blockMappingStart :: rest =>
              if inBlock then
                let (fields, rest) ← takeBlockFields handles fuel rest
                return (.mapping marks fields, rest)
              else takeUnwritten marks tokens
          | _ => takeUnwritten marks tokens

/-- Marks alone make an empty scalar. -/
def takeUnwritten (marks : Marks) (tokens : List Token) : Except Fault (Taken Tree) :=
  if marks == Tree.unmarked then .error .badStructure
  else .ok (.scalar marks "" true, tokens)

def takeBlockItems (handles : Handles) : Nat → List Token → Except Fault (Taken (List Tree))
  | 0, _ => .error .badStructure
  | fuel + 1, .blockEntry :: rest => do
      let (item, rest) ←
        if Token.endsBlockItem rest.head? then pure (Tree.missing, rest)
        else takeNode handles true false fuel rest
      let (items, rest) ← takeBlockItems handles fuel rest
      return (item :: items, rest)
  | _ + 1, .blockEnd :: rest => .ok ([], rest)
  | _ + 1, _ => .error .badStructure

def takeCompactItems (handles : Handles) : Nat → List Token → Except Fault (Taken (List Tree))
  | 0, _ => .error .badStructure
  | fuel + 1, .blockEntry :: rest => do
      let (item, rest) ←
        if Token.endsCompactItem rest.head? then pure (Tree.missing, rest)
        else takeNode handles true false fuel rest
      let (items, rest) ← takeCompactItems handles fuel rest
      return (item :: items, rest)
  | _ + 1, tokens => .ok ([], tokens)

def takeBlockFields (handles : Handles) :
    Nat → List Token → Except Fault (Taken (List (Tree × Tree)))
  | 0, _ => .error .badStructure
  | fuel + 1, .key :: rest => do
      let (key, rest) ← takeBlockSide handles fuel rest
      let (value, rest) ← match rest with
        | .value :: rest => takeBlockSide handles fuel rest
        | rest => pure (Tree.missing, rest)
      let (fields, rest) ← takeBlockFields handles fuel rest
      return ((key, value) :: fields, rest)
  | _ + 1, .blockEnd :: rest => .ok ([], rest)
  | _ + 1, _ => .error .badStructure

/-- The key or the value of a field in a block. -/
def takeBlockSide (handles : Handles) : Nat → List Token → Except Fault (Taken Tree)
  | 0, _ => .error .badStructure
  | fuel + 1, tokens =>
      if Token.endsBlockField tokens.head? then .ok (Tree.missing, tokens)
      else takeNode handles true true fuel tokens

def takeFlowItems (handles : Handles) (first : Bool) :
    Nat → List Token → Except Fault (Taken (List Tree))
  | 0, _ => .error .badStructure
  | fuel + 1, tokens => do
      let tokens ← takeComma .flowSequenceEnd first tokens
      match tokens with
      | .flowSequenceEnd :: rest => return ([], rest)
      | .key :: rest =>
          let (key, rest) ← takePairKey handles fuel rest
          let (value, rest) ← takeFlowValue handles .flowSequenceEnd fuel rest
          let (items, rest) ← takeFlowItems handles false fuel rest
          return (.mapping Tree.unmarked [(key, value)] :: items, rest)
      | tokens =>
          let (item, rest) ← takeNode handles false false fuel tokens
          let (items, rest) ← takeFlowItems handles false fuel rest
          return (item :: items, rest)

/-- The key of a lone pair in a flow sequence. A key that is not written
takes the mark after it with it. -/
def takePairKey (handles : Handles) : Nat → List Token → Except Fault (Taken Tree)
  | 0, _ => .error .badStructure
  | fuel + 1, tokens =>
      if Token.endsFlowKey .flowSequenceEnd tokens.head? then
        .ok (Tree.missing, tokens.drop 1)
      else takeNode handles false false fuel tokens

def takeFlowValue (handles : Handles) (closing : Token) :
    Nat → List Token → Except Fault (Taken Tree)
  | 0, _ => .error .badStructure
  | fuel + 1, .value :: rest =>
      if Token.endsFlowValue closing rest.head? then .ok (Tree.missing, rest)
      else takeNode handles false false fuel rest
  | _ + 1, tokens => .ok (Tree.missing, tokens)

def takeFlowFields (handles : Handles) (first : Bool) :
    Nat → List Token → Except Fault (Taken (List (Tree × Tree)))
  | 0, _ => .error .badStructure
  | fuel + 1, tokens => do
      let tokens ← takeComma .flowMappingEnd first tokens
      match tokens with
      | .flowMappingEnd :: rest => return ([], rest)
      | .key :: rest =>
          let (key, rest) ←
            if Token.endsFlowKey .flowMappingEnd rest.head? then pure (Tree.missing, rest)
            else takeNode handles false false fuel rest
          let (value, rest) ← takeFlowValue handles .flowMappingEnd fuel rest
          let (fields, rest) ← takeFlowFields handles false fuel rest
          return ((key, value) :: fields, rest)
      | tokens =>
          let (key, rest) ← takeNode handles false false fuel tokens
          let (fields, rest) ← takeFlowFields handles false fuel rest
          return ((key, Tree.missing) :: fields, rest)

end

/-! Documents. -/

def Token.startsDocument : Token → Bool
  | .versionDirective _ _ | .tagDirective _ _ | .documentStart => true
  | _ => false

def dropDocumentEnds : List Token → List Token
  | .documentEnd :: rest => dropDocumentEnds rest
  | rest => rest

/-- Nothing but marks of its end may follow a document. -/
def checkEnd (tokens : List Token) : Except Fault Unit :=
  if (dropDocumentEnds tokens).isEmpty then .ok () else .error .severalDocuments

def takeContent (handles : Handles) (tokens : List Token) : Except Fault (Taken Tree) :=
  takeNode handles true false (2 * tokens.length + 4) tokens

/-- The only document of a stream, or `none` if the stream is empty. -/
def readTree (tokens : List Token) : Except Fault (Option Tree) := do
  match tokens with
  | [] => return none
  | token :: _ =>
      if token.startsDocument then
        let (handles, rest) ← takeDirectives false [] tokens
        let handles := handles ++ defaultHandles
        match rest with
        | .documentStart :: rest =>
            let absent := match rest.head? with
              | none | some .documentEnd => true
              | some token => token.startsDocument
            if absent then
              checkEnd rest
              return some Tree.missing
            else
              let (tree, rest) ← takeContent handles rest
              checkEnd rest
              return some tree
        | _ => throw .badStructure
      else
        let (tree, rest) ← takeContent defaultHandles tokens
        checkEnd rest
        return some tree

end ImageLock.Yaml
