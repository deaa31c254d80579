/-
Writing a value as a YAML document: blocks with two columns of indentation,
and the plainest style of scalar that reads back.
-/
import ImageLock.Yaml.Plain
import ImageLock.Number.Decimal

namespace ImageLock.Yaml

/-- A page in the writing. The text is reversed; `isSpaced` says that it ends
in a blank, `isIndented` that only indentation and marks that count as such
stand on the last line. -/
structure Page where
  text : List Char
  column : Nat
  isSpaced : Bool
  isIndented : Bool

namespace Page

def blank : Page := ⟨[], 0, true, true⟩

def put (p : Page) (c : Char) : Page := { p with text := c :: p.text, column := p.column + 1 }

def putAll (p : Page) (cs : List Char) : Page := cs.foldl put p

def newLine (p : Page) (c : Char) : Page := { p with text := c :: p.text, column := 0 }

/-- Goes to a column of an empty line. -/
def indentTo (p : Page) (column : Nat) : Page :=
  let p :=
    if !p.isIndented || column < p.column || (p.column == column && !p.isSpaced) then
      p.newLine '\n'
    else p
  { p.putAll (List.replicate (column - p.column) ' ') with isSpaced := true, isIndented := true }

def space (p : Page) : Page := if p.isSpaced then p else p.put ' '

/-- Writes a mark; one that is `indenting` keeps the line indented. -/
def mark (p : Page) (text : List Char) (spacing indenting : Bool) : Page :=
  { p.putAll text with isSpaced := spacing, isIndented := p.isIndented && indenting }

def closeScalar (p : Page) : Page := { p with isSpaced := false, isIndented := false }

end Page

/-! What a text admits. -/

def isTextBreak (c : Char) : Bool := c == '\n' || c == '\u2028' || c == '\u2029'

def isBreakChar (c : Char) : Bool := isTextBreak c || c == '\r' || c == '\x85'

/-- Characters that are written as they are. -/
def isWritable (c : Char) : Bool :=
  let n := c.toNat
  n == 0x0A || (0x20 ≤ n && n ≤ 0x7E) || (0xA0 ≤ n && n ≤ 0xD7FF) ||
    (0xE000 ≤ n && n ≤ 0xFFFD && n != 0xFEFF) || 0x10000 ≤ n

def isBlankOrEnd : Option Char → Bool
  | none => true
  | some c => c == ' ' || c == '\t' || isBreakChar c

/-- Whether a character marks something else than a text, in its place: the
character before it, itself, and the one after it. -/
def isMark (before : Option Char) (c : Char) (after : Option Char) : Bool :=
  match before with
  | none =>
      ("#,[]\x7b\x7d&*!|>'\"%@\x60".toList.contains c) ||
        ((c == '?' || c == ':' || c == '-') && isBlankOrEnd after)
  | some before =>
      (c == ':' && isBlankOrEnd after) || (c == '#' && isBlankOrEnd (some before))

def hasMark : Option Char → List Char → Bool
  | _, [] => false
  | before, c :: rest => isMark before c rest.head? || hasMark (some c) rest

/-- Whether `p` holds of two neighbours. -/
def hasPair (p : Char → Char → Bool) : List Char → Bool
  | [] | [_] => false
  | a :: b :: rest => p a b || hasPair p (b :: rest)

structure Traits where
  isEmpty : Bool
  isMultiline : Bool
  allowsPlain : Bool
  allowsSingle : Bool
  allowsBlock : Bool

def traits (text : List Char) : Traits :=
  let opens := text.head?
  let ends := text.getLast?
  let edge (p : Char → Bool) := opens.any p || ends.any p
  let lead := text.take 3
  let special := text.any fun c => !isWritable c
  let blankBreak := hasPair (fun a b => a == ' ' && isBreakChar b) text
  let breakBlank := hasPair (fun a b => isBreakChar a && b == ' ') text
  let breaks := text.any isBreakChar
  { isEmpty := text.isEmpty
    isMultiline := breaks
    allowsPlain := !(special || blankBreak || breaks || breakBlank || edge (· == ' ') ||
      edge isBreakChar || lead == ['-', '-', '-'] || lead == ['.', '.', '.'] || hasMark none text)
    allowsSingle := !(special || blankBreak || breakBlank)
    allowsBlock := !(text.isEmpty || special || blankBreak || ends == some ' ') }

inductive Style where
  | plain
  | single
  | double
  | literal
deriving DecidableEq

/-- A text that would be read as another value must be quoted. -/
def isAmbiguous (text : String) : Bool :=
  match plainValue? text with
  | some (.text _) => isPaddedNumber text.toList
  | _ => true

/-- The style of a text; a simple key stands on one line. -/
def style (isKey : Bool) (text : String) : Style :=
  let t := traits text.toList
  let quoted := if t.allowsSingle then Style.single else .double
  if isKey && t.isMultiline then .double
  else if text.toList.contains '\n' then
    if t.allowsBlock && !isKey then .literal else .double
  else if isAmbiguous text || !t.allowsPlain then quoted
  else .plain

/-! Scalars. -/

def upperHex (width n : Nat) : List Char :=
  (List.range width).reverse.map fun i =>
    let d := n / Nat.pow 16 i % 16
    if d < 10 then Char.ofNat (0x30 + d) else Char.ofNat (0x37 + d)

/-- A character between double quotes. -/
def escaped (c : Char) : List Char :=
  if isWritable c && !isTextBreak c && c != '"' && c != '\\' then [c]
  else
    let n := c.toNat
    let long : List Char :=
      if n ≤ 0xFF then 'x' :: upperHex 2 n
      else if n ≤ 0xFFFF then 'u' :: upperHex 4 n
      else 'U' :: upperHex 8 n
    '\\' :: match c with
      | '\x00' => ['0']
      | '\x07' => ['a']
      | '\x08' => ['b']
      | '\t' => ['t']
      | '\n' => ['n']
      | '\x0b' => ['v']
      | '\x0c' => ['f']
      | '\r' => ['r']
      | '\x1b' => ['e']
      | '"' => ['"']
      | '\\' => ['\\']
      | '\x85' => ['N']
      | '\u2028' => ['L']
      | '\u2029' => ['P']
      | _ => long

/-- Text between single quotes. A line after a break is indented. -/
def putSingle (indent : Nat) : Bool → List Char → Page → Page
  | afterBreak, [], p => if afterBreak then p.indentTo indent else p
  | afterBreak, c :: rest, p =>
      if c != ' ' && isBreakChar c then
        putSingle indent true rest { p.newLine c with isIndented := true }
      else
        let p := if afterBreak && c != ' ' then p.indentTo indent else p
        let p := if c == '\'' then p.put c else p
        putSingle indent (afterBreak && c == ' ') rest { p.put c with isIndented := false }

def putLiteral (indent : Nat) : Bool → List Char → Page → Page
  | _, [], p => p
  | afterBreak, c :: rest, p =>
      if isBreakChar c then putLiteral indent true rest { p.newLine c with isIndented := true }
      else
        let p := if afterBreak then p.indentTo indent else p
        putLiteral indent false rest { p.put c with isIndented := false }

/-- The signs after a block mark: the indentation if the text does not show
it, and what happens to the breaks at its end. -/
def blockHints (text : List Char) : List Char :=
  let indentation := if text.head?.any fun c => c == ' ' || isBreakChar c then ['2'] else []
  let chomping := match text.reverse with
    | [] => ['-']
    | [last] => if isBreakChar last then ['+'] else ['-']
    | last :: before :: _ =>
        if !isBreakChar last then ['-'] else if isBreakChar before then ['+'] else []
  indentation ++ chomping

def putText (indent : Int) (isKey : Bool) (text : String) (p : Page) : Page :=
  let chars := text.toList
  let column := (if indent < 0 then 2 else indent + 2).toNat
  match style isKey text with
  | .plain => ((if chars.isEmpty then p else p.space).putAll chars).closeScalar
  | .single =>
      (((putSingle column false chars (p.space.mark ['\''] false false))).mark ['\''] false
        false).closeScalar
  | .double =>
      ((p.space.mark ['"'] false false).putAll (chars.flatMap escaped)
        |>.mark ['"'] false false).closeScalar
  | .literal =>
      let p := (p.space.mark ['|'] false false).mark (blockHints chars) false false
      putLiteral column true chars { p.newLine '\n' with isSpaced := true, isIndented := true }

def realText : Number.Binary64 → String
  | .notANumber => ".nan"
  | .infinite negative => if negative then "-.inf" else ".inf"
  | number => (Number.documentText? false number).getD ""

/-- Characters of a tag that are written as they are. -/
def isTagChar (c : Char) : Bool :=
  Text.isLetter c || Text.isDigit c || "-_;/?:@&=+$,.~*'()[]".toList.contains c

def escapedInTag (c : Char) : List Char :=
  if isTagChar c then [c]
  else (String.ofList [c]).toUTF8.toList.flatMap fun b => '%' :: upperHex 2 b.toNat

/-- A tag behind its mark; the tag that is a mark itself is written in full. -/
def tagMark (tag : String) : List Char :=
  if tag == "!" then "!<%21>".toList else '!' :: tag.toList.flatMap escapedInTag

def putBare (text : String) (p : Page) : Page := (p.space.putAll text.toList).closeScalar

/-- Keys that fit before a colon are one line of at most 128 bytes, and not a
collection with content. -/
def isSimpleKey : Node → Bool
  | .text text =>
      !(traits text.toList).isMultiline && Text.byteLength text.toList ≤ 128
  | .list items => items.isEmpty
  | .map fields => fields.isEmpty
  | .tagged _ value => isSimpleKey value
  | _ => true

/-! Collections. `indent` is the column of the block around, -1 at the top. -/

mutual

def putNode (indent : Int) (inField isKey : Bool) : Node → Page → Page
  | .text text, p => putText indent isKey text p
  | .list [], p => (p.space.mark ['['] true false).mark [']'] false false
  | .list (item :: items), p =>
      let inner : Int :=
        if indent < 0 then 0 else if inField && !p.isIndented then indent else indent + 2
      putItems inner (item :: items) p
  | .map [], p => (p.space.mark ['\x7b'] true false).mark ['\x7d'] false false
  | .map (field :: fields), p =>
      putFields (if indent < 0 then 0 else indent + 2) (field :: fields) p
  | .tagged tag value, p =>
      putNode indent inField isKey value (p.space.putAll (tagMark tag)).closeScalar
  | .null, p => putBare "null" p
  | .bool value, p => putBare (if value then "true" else "false") p
  | .int value, p => putBare (Number.intText value) p
  | .real value, p => putBare (realText value) p

def putItems (indent : Int) : List Node → Page → Page
  | [], p => p
  | item :: rest, p =>
      let p := (p.indentTo indent.toNat).space.mark ['-'] false true
      putItems indent rest (putNode indent false false item p)

def putFields (indent : Int) : List (Node × Node) → Page → Page
  | [], p => p
  | (key, value) :: rest, p =>
      let p := p.indentTo indent.toNat
      let p :=
        if isSimpleKey key then (putNode indent true true key p).mark [':'] false false
        else
          let p := putNode indent true false key (p.space.mark ['?'] false true)
          (p.indentTo indent.toNat).space.mark [':'] false true
      putFields indent rest (putNode indent true false value p)

end

/-- The document of a value. -/
def print (value : Node) : String :=
  String.ofList ((putNode (-1) false false value Page.blank).indentTo 0).text.reverse

end ImageLock.Yaml
