/-
The tokens of a YAML stream.

Blocks open where a line is indented further and close where it is indented
less. A key is only known by the colon after it, so a place where a key may
start is kept as a pending key, and its tokens are put there afterwards. A
pending key lasts for 1024 characters of its line.
-/
import ImageLock.Yaml.Source
import ImageLock.Text.Cut

namespace ImageLock.Yaml

/-- The text of a tag. Escapes in a tag can spell bytes that are not text. -/
structure TagText where
  text : String
  isText : Bool
deriving DecidableEq, Repr

inductive Token where
  | versionDirective (major minor : Nat)
  | tagDirective (handle : String) (expansion : TagText)
  | documentStart
  | documentEnd
  | blockSequenceStart
  | blockMappingStart
  | blockEnd
  | flowSequenceStart
  | flowSequenceEnd
  | flowMappingStart
  | flowMappingEnd
  | blockEntry
  | flowEntry
  | key
  | value
  | alias (name : String)
  | anchor (name : String)
  | tag (handle : String) (suffix : TagText)
  | scalar (text : String) (plain : Bool)
deriving DecidableEq, Repr

/-- The text still to read, and where it starts. -/
structure Cursor where
  rest : List Char
  index : Nat
  line : Nat
  column : Nat

def isBreak (c : Char) : Bool :=
  c == '\n' || c == '\r' || c == '\x85' || c == '\u2028' || c == '\u2029'

def isSpaceOrTab (c : Char) : Bool := c == ' ' || c == '\t'

def isWordChar (c : Char) : Bool := Text.isLetter c || Text.isDigit c || c == '_' || c == '-'

/-- A blank, a line break or the end. -/
def isGap : Option Char → Bool
  | none => true
  | some c => isSpaceOrTab c || isBreak c

def isLineEnd : Option Char → Bool
  | none => true
  | some c => isBreak c

namespace Cursor

def start (text : List Char) : Cursor := ⟨text, 0, 0, 0⟩

def at? (c : Cursor) (n : Nat) : Option Char := c.rest[n]?

def skip (c : Cursor) (n : Nat) : Cursor :=
  ⟨c.rest.drop n, c.index + n, c.line, c.column + n⟩

/-- The break at the cursor as it counts in a scalar, and the cursor behind
it. The two separators of Unicode stand for themselves. -/
def takeBreak (c : Cursor) : List Char × Cursor :=
  match c.rest with
  | '\r' :: '\n' :: rest => (['\n'], ⟨rest, c.index + 2, c.line + 1, 0⟩)
  | ch :: rest =>
      if ch == '\u2028' || ch == '\u2029' then ([ch], ⟨rest, c.index + 1, c.line + 1, 0⟩)
      else if isBreak ch then (['\n'], ⟨rest, c.index + 1, c.line + 1, 0⟩)
      else ([], c)
  | [] => ([], c)

def takeWhile (c : Cursor) (p : Char → Bool) : List Char × Cursor :=
  let taken := c.rest.takeWhile p
  (taken, c.skip taken.length)

def skipWhile (c : Cursor) (p : Char → Bool) : Cursor := (c.takeWhile p).2

/-- Three of `mark` at the start of a line, alone or before a gap. -/
def atDocumentMark (c : Cursor) (mark : Char) : Bool :=
  c.column == 0 && c.rest.take 3 == [mark, mark, mark] && isGap (c.at? 3)

def atDocumentEdge (c : Cursor) : Bool := c.atDocumentMark '-' || c.atDocumentMark '.'

end Cursor

/-! Folding of scalars that run over several lines. -/

/-- The text so far, and the blanks and breaks after it that count only if
more text follows. All parts are reversed. -/
structure Fold where
  text : List Char
  blanks : List Char
  firstBreak : List Char
  moreBreaks : List Char
  onNewLine : Bool

namespace Fold

def empty : Fold := ⟨[], [], [], [], false⟩

/-- Takes the pending blanks into the text. A single line feed becomes a
blank, of several the first is dropped. -/
def join (f : Fold) : Fold :=
  if f.onNewLine then
    let pending :=
      if f.firstBreak == ['\n'] then
        if f.moreBreaks.isEmpty then [' '] else f.moreBreaks
      else f.moreBreaks ++ f.firstBreak
    ⟨pending ++ f.text, [], [], [], false⟩
  else ⟨f.blanks ++ f.text, [], [], [], false⟩

/-- Reads blanks and breaks. With a bound, a tab left of it is refused after
a break. -/
def takeGap (bound : Option Nat) : Nat → Cursor → Fold → Except Fault (Fold × Cursor)
  | 0, c, f => .ok (f, c)
  | fuel + 1, c, f =>
      match c.rest with
      | [] => .ok (f, c)
      | ch :: _ =>
          if isSpaceOrTab ch then
            let abused := match bound with
              | some b => f.onNewLine && c.column < b && ch == '\t'
              | none => false
            if abused then .error .badToken
            else
              let f := if f.onNewLine then f else { f with blanks := ch :: f.blanks }
              takeGap bound fuel (c.skip 1) f
          else if isBreak ch then
            let (br, next) := c.takeBreak
            let f :=
              if f.onNewLine then { f with moreBreaks := br ++ f.moreBreaks }
              else { f with blanks := [], firstBreak := br, onNewLine := true }
            takeGap bound fuel next f
          else .ok (f, c)

end Fold

/-! Quoted scalars. -/

def hexValue? (c : Char) : Option Nat :=
  if Text.isDigit c then some (c.toNat - 0x30)
  else if 'a' ≤ c && c ≤ 'f' then some (c.toNat - 0x57)
  else if 'A' ≤ c && c ≤ 'F' then some (c.toNat - 0x37)
  else none

def hexNumber? (digits : List Char) : Option Nat :=
  digits.foldl (fun n d => match n, hexValue? d with
    | some n, some v => some (n * 16 + v)
    | _, _ => none) (some 0)

/-- The character that a backslash and one more character stand for. -/
def shortEscape? : Char → Option Char
  | '0' => some '\x00'
  | 'a' => some '\x07'
  | 'b' => some '\x08'
  | 't' => some '\t'
  | '\t' => some '\t'
  | 'n' => some '\n'
  | 'v' => some '\x0b'
  | 'f' => some '\x0c'
  | 'r' => some '\r'
  | 'e' => some '\x1b'
  | ' ' => some ' '
  | '"' => some '"'
  | '/' => some '/'
  | '\\' => some '\\'
  | 'N' => some '\x85'
  | '_' => some '\xa0'
  | 'L' => some '\u2028'
  | 'P' => some '\u2029'
  | _ => none

def longEscape? : Char → Option Nat
  | 'x' => some 2
  | 'u' => some 4
  | 'U' => some 8
  | _ => none

/-- The escape at the cursor, which is on its backslash. -/
def takeEscape (c : Cursor) : Except Fault (Char × Cursor) :=
  match c.at? 1 with
  | none => .error .badToken
  | some ch =>
      match shortEscape? ch, longEscape? ch with
      | some plain, _ => .ok (plain, c.skip 2)
      | none, some size =>
          let digits := (c.rest.drop 2).take size
          match hexNumber? digits with
          | some n =>
              if digits.length < size || (0xD800 ≤ n && n ≤ 0xDFFF) || 0x10FFFF < n then
                .error .badToken
              else .ok (Char.ofNat n, c.skip (2 + size))
          | none => .error .badToken
      | none, none => .error .badToken

/-- Reads up to a gap or the closing quote. An escaped break ends the run as
well, and what follows it is on a new line. -/
def takeQuotedRun (single : Bool) : Nat → Cursor → Fold → Except Fault (Fold × Cursor)
  | 0, c, f => .ok (f, c)
  | fuel + 1, c, f =>
      match c.rest with
      | [] => .ok (f, c)
      | ch :: _ =>
          if isGap (some ch) then .ok (f, c)
          else if single && ch == '\'' then
            if c.at? 1 == some '\'' then
              takeQuotedRun single fuel (c.skip 2) { f with text := '\'' :: f.text }
            else .ok (f, c)
          else if !single && ch == '"' then .ok (f, c)
          else if !single && ch == '\\' then
            if (c.at? 1).any isBreak then
              .ok ({ f with onNewLine := true }, (c.skip 1).takeBreak.2)
            else do
              let (escaped, next) ← takeEscape c
              takeQuotedRun single fuel next { f with text := escaped :: f.text }
          else takeQuotedRun single fuel (c.skip 1) { f with text := ch :: f.text }

def takeQuoted (single : Bool) : Nat → Cursor → Fold → Except Fault (List Char × Cursor)
  | 0, _, _ => .error .badToken
  | fuel + 1, c, f => do
      if c.atDocumentEdge || c.rest.isEmpty then throw .badToken
      let (f, c) ← takeQuotedRun single (c.rest.length + 1) c f
      if c.at? 0 == some (if single then '\'' else '"') then
        return (f.text.reverse, c.skip 1)
      let (f, c) ← f.takeGap none (c.rest.length + 1) c
      takeQuoted single fuel c f.join

/-! Plain scalars. -/

/-- Whether a plain scalar ends before the character at the cursor. -/
def endsPlain (inFlow : Bool) (c : Cursor) : Bool :=
  match c.at? 0 with
  | none => true
  | some ':' => isGap (c.at? 1)
  | some ch => inFlow && [',', '[', ']', '{', '}'].contains ch

def takePlainRun (inFlow : Bool) : Nat → Cursor → Fold → Except Fault (Fold × Cursor)
  | 0, c, f => .ok (f, c)
  | fuel + 1, c, f =>
      match c.rest with
      | [] => .ok (f, c)
      | ch :: _ =>
          if isGap (some ch) then .ok (f, c)
          else if inFlow && ch == ':' &&
              (c.at? 1).any (fun d => [',', '?', '[', ']', '{', '}'].contains d) then
            .error .badToken
          else if endsPlain inFlow c then .ok (f, c)
          else
            let f := f.join
            takePlainRun inFlow fuel (c.skip 1) { f with text := ch :: f.text }

/-- A plain scalar whose further lines start at column `bound` or later. The
flag tells that the scalar ended on a new line. -/
def takePlain (inFlow : Bool) (bound : Nat) :
    Nat → Cursor → Fold → Except Fault (List Char × Cursor × Bool)
  | 0, c, f => .ok (f.text.reverse, c, f.onNewLine)
  | fuel + 1, c, f => do
      if c.atDocumentEdge || c.at? 0 == some '#' then
        return (f.text.reverse, c, f.onNewLine)
      let (f, c) ← takePlainRun inFlow (c.rest.length + 1) c f
      if !(c.at? 0).any (fun ch => isSpaceOrTab ch || isBreak ch) then
        return (f.text.reverse, c, f.onNewLine)
      let (f, c) ← f.takeGap (some bound) (c.rest.length + 1) c
      if !inFlow && c.column < bound then
        return (f.text.reverse, c, f.onNewLine)
      takePlain inFlow bound fuel c f

/-! Block scalars. -/

inductive Chomping where
  | strip
  | clip
  | keep
deriving DecidableEq

/-- Indentation and empty lines before the next line of text. While `bound`
is zero the indentation is not known yet; `widest` is the widest seen. -/
def takeEmptyLines (bound : Nat) :
    Nat → Cursor → List Char → Nat → Except Fault (List Char × Cursor × Nat)
  | 0, c, breaks, widest => .ok (breaks, c, widest)
  | fuel + 1, c, breaks, widest =>
      let blanks := c.rest.takeWhile (· == ' ')
      let count := if bound = 0 then blanks.length else min blanks.length (bound - c.column)
      let c := c.skip count
      let widest := max widest c.column
      if (bound = 0 || c.column < bound) && c.at? 0 == some '\t' then .error .badToken
      else if (c.at? 0).any isBreak then
        let (br, next) := c.takeBreak
        takeEmptyLines bound fuel next (br ++ breaks) widest
      else .ok (breaks, c, widest)

/-- The lines of a block scalar. `pendingBreak` ended the last line and
`breaks` are the empty lines after it. -/
def takeBlockLines (literal : Bool) (bound : Nat) :
    Nat → Cursor → List Char → List Char → List Char → Bool →
      Except Fault (List Char × List Char × List Char × Cursor)
  | 0, c, text, pendingBreak, breaks, _ => .ok (text, pendingBreak, breaks, c)
  | fuel + 1, c, text, pendingBreak, breaks, afterBlank => do
      if c.column != bound || c.rest.isEmpty then
        return (text, pendingBreak, breaks, c)
      let startsBlank := (c.at? 0).any isSpaceOrTab
      let joint :=
        if !literal && pendingBreak == ['\n'] && !afterBlank && !startsBlank then
          if breaks.isEmpty then [' '] else []
        else pendingBreak
      let (line, c) := c.takeWhile fun ch => !isBreak ch
      let (br, c) := c.takeBreak
      let (more, c, _) ← takeEmptyLines bound (c.rest.length + 1) c [] 0
      takeBlockLines literal bound fuel c (line.reverse ++ (breaks ++ (joint ++ text))) br more
        startsBlank

/-- The two signs after `|` or `>`, in either order. -/
def takeBlockHeader (c : Cursor) : Except Fault (Chomping × Nat × Cursor) :=
  let chomping? : Option Char → Option Chomping
    | some '+' => some .keep
    | some '-' => some .strip
    | _ => none
  let width? : Option Char → Option Nat
    | some ch => if Text.isDigit ch then some (ch.toNat - 0x30) else none
    | none => none
  let checked (chomping : Chomping) (width : Nat) (c : Cursor) :
      Except Fault (Chomping × Nat × Cursor) :=
    if width = 0 then .error .badToken else .ok (chomping, width, c)
  match chomping? (c.at? 0), width? (c.at? 0) with
  | some chomping, _ =>
      match width? (c.at? 1) with
      | some width => checked chomping width (c.skip 2)
      | none => .ok (chomping, 0, c.skip 1)
  | none, some width =>
      match chomping? (c.at? 1) with
      | some chomping => checked chomping width (c.skip 2)
      | none => checked .clip width (c.skip 1)
  | none, none => .ok (.clip, 0, c)

/-- Blanks and a comment up to the end of the line. -/
def takeLineRest (c : Cursor) : Except Fault Cursor :=
  let c := c.skipWhile isSpaceOrTab
  let c := if c.at? 0 == some '#' then c.skipWhile (fun ch => !isBreak ch) else c
  if isLineEnd (c.at? 0) then .ok c.takeBreak.2 else .error .badToken

/-- A block scalar; `level` is one more than the column of the block around
it, or zero outside every block. -/
def takeBlock (literal : Bool) (level : Nat) (c : Cursor) :
    Except Fault (List Char × Cursor) := do
  let (chomping, width, c) ← takeBlockHeader c
  let c ← takeLineRest c
  let bound := if width = 0 then 0 else (level - 1) + width
  let (breaks, c, widest) ← takeEmptyLines bound (c.rest.length + 1) c [] 0
  let bound := if bound = 0 then max 1 (max widest level) else bound
  let (text, pendingBreak, breaks, c) ←
    takeBlockLines literal bound (c.rest.length + 1) c [] [] breaks false
  let text := if chomping = .strip then text else pendingBreak ++ text
  let text := if chomping = .keep then breaks ++ text else text
  return (text.reverse, c)

/-! Tags and directives. -/

def isUriChar (verbatim : Bool) (c : Char) : Bool :=
  isWordChar c || (";/?:@&=+$.%!~*'()".toList.contains c) ||
    (verbatim && [',', '[', ']'].contains c)

/-- The byte that a percent sign and two digits spell. -/
def escapedByte? (c : Cursor) : Option Nat :=
  match c.rest with
  | '%' :: a :: b :: _ =>
      match hexValue? a, hexValue? b with
      | some x, some y => some (x * 16 + y)
      | _, _ => none
  | _ => none

/-- One escaped character: a first byte and as many more as it announces. -/
def takeUriEscape (c : Cursor) : Except Fault (List UInt8 × Cursor) :=
  match escapedByte? c with
  | none => .error .badToken
  | some b =>
      let more? :=
        if b < 0x80 then some 0
        else if 0xC0 ≤ b && b < 0xE0 then some 1
        else if 0xE0 ≤ b && b < 0xF0 then some 2
        else if 0xF0 ≤ b && b < 0xF8 then some 3
        else none
      let rec trail : Nat → Cursor → List UInt8 → Except Fault (List UInt8 × Cursor)
        | 0, c, bytes => .ok (bytes.reverse, c)
        | n + 1, c, bytes =>
            match escapedByte? c with
            | some t =>
                if 0x80 ≤ t && t < 0xC0 then trail n (c.skip 3) (UInt8.ofNat t :: bytes)
                else .error .badToken
            | none => .error .badToken
      match more? with
      | some n => trail n (c.skip 3) [UInt8.ofNat b]
      | none => .error .badToken

def takeUri (verbatim : Bool) : Nat → Cursor → List UInt8 → Except Fault (List UInt8 × Cursor)
  | 0, c, bytes => .ok (bytes, c)
  | fuel + 1, c, bytes =>
      match c.rest with
      | [] => .ok (bytes, c)
      | ch :: _ =>
          if !isUriChar verbatim ch then .ok (bytes, c)
          else if ch == '%' then do
            let (escaped, next) ← takeUriEscape c
            takeUri verbatim fuel next (escaped.reverse ++ bytes)
          else takeUri verbatim fuel (c.skip 1) (UInt8.ofNat ch.toNat :: bytes)

def tagText (bytes : List UInt8) : TagText :=
  let bytes := ByteArray.mk bytes.toArray
  match Text.ofBytes? bytes with
  | some text => ⟨text, true⟩
  | none => ⟨Text.ofBytesLenient bytes, false⟩

/-- A URI after `lead`, which was read already. Together they are not empty. -/
def takeTagUri (verbatim : Bool) (lead : List Char) (readBefore : Nat) (c : Cursor) :
    Except Fault (TagText × Cursor) := do
  let bytes := lead.reverse.map fun ch => UInt8.ofNat ch.toNat
  let (taken, next) ← takeUri verbatim (c.rest.length + 1) c bytes
  if readBefore = 0 && taken.isEmpty then throw .badToken
  return (tagText taken.reverse, next)

/-- `!`, word characters and a closing `!` if there is one. -/
def takeHandle (c : Cursor) : Except Fault (List Char × Cursor) :=
  if c.at? 0 == some '!' then
    let (word, next) := (c.skip 1).takeWhile isWordChar
    if next.at? 0 == some '!' then .ok ('!' :: word ++ ['!'], next.skip 1)
    else .ok ('!' :: word, next)
  else .error .badToken

def takeTag (inFlow : Bool) (c : Cursor) : Except Fault (Token × Cursor) := do
  let (token, next) ←
    if c.at? 1 == some '<' then do
      let (uri, next) ← takeTagUri true [] 0 (c.skip 2)
      if next.at? 0 == some '>' then pure (Token.tag "" uri, next.skip 1)
      else throw .badToken
    else do
      let (handle, next) ← takeHandle c
      if handle.length > 1 && handle.getLast? == some '!' then do
        let (uri, next) ← takeTagUri false [] 0 next
        pure (Token.tag (String.ofList handle) uri, next)
      else do
        let (uri, next) ← takeTagUri false (handle.drop 1) handle.length next
        if uri.text.isEmpty then pure (Token.tag "" ⟨"!", true⟩, next)
        else pure (Token.tag "!" uri, next)
  if isGap (next.at? 0) || (inFlow && next.at? 0 == some ',') then return (token, next)
  throw .badToken

/-- A number of at most nine digits. -/
def takeVersionNumber (c : Cursor) : Except Fault (Nat × Cursor) :=
  let (digits, next) := c.takeWhile Text.isDigit
  if digits.isEmpty || 9 < digits.length then .error .badToken
  else .ok (digits.foldl (fun n d => n * 10 + (d.toNat - 0x30)) 0, next)

def takeDirective (c : Cursor) : Except Fault (Token × Cursor) := do
  let (name, next) := (c.skip 1).takeWhile isWordChar
  if name.isEmpty || !isGap (next.at? 0) then throw .badToken
  if name = "YAML".toList then
    let (major, next) ← takeVersionNumber (next.skipWhile isSpaceOrTab)
    if next.at? 0 != some '.' then throw .badToken
    let (minor, next) ← takeVersionNumber (next.skip 1)
    return (.versionDirective major minor, ← takeLineRest next)
  else if name = "TAG".toList then
    let (handle, next) ← takeHandle (next.skipWhile isSpaceOrTab)
    if handle != ['!'] && !(handle.length > 1 && handle.getLast? == some '!') then
      throw .badToken
    if !(next.at? 0).any isSpaceOrTab then throw .badToken
    let (uri, next) ← takeTagUri true [] 0 (next.skipWhile isSpaceOrTab)
    if !isGap (next.at? 0) then throw .badToken
    return (.tagDirective (String.ofList handle) uri, ← takeLineRest next)
  else throw .badToken

def takeName (c : Cursor) : Except Fault (String × Cursor) :=
  let (name, next) := (c.skip 1).takeWhile isWordChar
  let closed := isGap (next.at? 0) ||
    (next.at? 0).any fun ch => ['?', ':', ',', ']', '}', '%', '@', '\x60'].contains ch
  if name.isEmpty || !closed then .error .badToken else .ok (String.ofList name, next)

/-! The scanner. -/

/-- A place where a key may have started: the number of tokens before it, and
whether nothing but a key may stand there. -/
structure PendingKey where
  required : Bool
  position : Nat
  index : Nat
  line : Nat
  column : Nat

/-- `level` is one more than the column of the innermost block, or zero;
`levels` are those around it. `keys` has one place for the block context and
one for each flow collection, the innermost first. Tokens are reversed. -/
structure Scanner where
  cursor : Cursor
  level : Nat
  levels : List Nat
  keyAllowed : Bool
  keys : List (Option PendingKey)
  tokens : List Token
  count : Nat

namespace Scanner

def start (text : List Char) : Scanner :=
  ⟨Cursor.start text, 0, [], true, [none], [], 0⟩

def inFlow (s : Scanner) : Bool := 1 < s.keys.length

def push (s : Scanner) (token : Token) : Scanner :=
  { s with tokens := token :: s.tokens, count := s.count + 1 }

/-- Puts tokens where `position` tokens stand before. -/
def insertAt (s : Scanner) (position : Nat) (tokens : List Token) : Scanner :=
  let later := s.count - position
  { s with
    tokens := s.tokens.take later ++ tokens.reverse ++ s.tokens.drop later
    count := s.count + tokens.length }

/-- Gives up the pending key of the innermost context. -/
def dropKey (s : Scanner) : Except Fault Scanner :=
  match s.keys with
  | some key :: rest =>
      if key.required then .error .badToken else .ok { s with keys := none :: rest }
  | _ => .ok s

def saveKey (s : Scanner) : Except Fault Scanner := do
  if !s.keyAllowed then return s
  let required := !s.inFlow && s.level == s.cursor.column + 1
  let s ← s.dropKey
  let key : PendingKey :=
    ⟨required, s.count, s.cursor.index, s.cursor.line, s.cursor.column⟩
  return { s with keys := some key :: s.keys.drop 1 }

/-- Gives up pending keys that are too far behind the cursor. -/
def dropStaleKeys (s : Scanner) : Except Fault Scanner := do
  let keys ← s.keys.mapM fun key? => match key? with
    | some key =>
        if key.line < s.cursor.line || key.index + 1024 < s.cursor.index then
          if key.required then Except.error Fault.badToken else Except.ok none
        else Except.ok (some key)
    | none => Except.ok none
  return { s with keys }

/-- Opens a block at a column right of the innermost block. -/
def openBlock (s : Scanner) (column : Nat) : Option Scanner :=
  if !s.inFlow && s.level ≤ column then
    some { s with level := column + 1, levels := s.level :: s.levels }
  else none

/-- Closes the blocks right of `column`, given as one more than it. -/
def closeBlocks (s : Scanner) (bound : Nat) : Scanner :=
  let rec close : List Nat → Scanner → Scanner
    | [], s => s
    | outer :: rest, s =>
        if bound < s.level then close rest { s.push .blockEnd with level := outer, levels := rest }
        else s
  if s.inFlow then s else close s.levels s

/-- Passes blanks, comments and line breaks. -/
def skipToToken : Nat → Scanner → Scanner
  | 0, s => s
  | fuel + 1, s =>
      let c := s.cursor
      let c := if c.index = 0 && c.at? 0 == some '\uFEFF' then c.skip 1 else c
      let c := c.skipWhile fun ch => ch == ' ' || ((s.inFlow || !s.keyAllowed) && ch == '\t')
      let c := if c.at? 0 == some '#' then c.skipWhile (fun ch => !isBreak ch) else c
      if (c.at? 0).any isBreak then
        skipToToken fuel
          { s with cursor := c.takeBreak.2, keyAllowed := s.keyAllowed || !s.inFlow }
      else { s with cursor := c }

/-- A token of `size` characters. -/
def pushMark (s : Scanner) (token : Token) (size : Nat) : Scanner :=
  { s.push token with cursor := s.cursor.skip size }

def takeBlockMark (s : Scanner) (opening token : Token) : Except Fault Scanner := do
  let column := s.cursor.column
  let s ←
    if s.inFlow then pure s
    else if !s.keyAllowed then throw .badToken
    else match s.openBlock column with
      | some opened => pure (opened.push opening)
      | none => pure s
  let s ← s.dropKey
  return s.pushMark token 1

def takeValueMark (s : Scanner) : Except Fault Scanner := do
  match s.keys with
  | some key :: rest =>
      let s := { s with keys := none :: rest, keyAllowed := false }
      let s := match s.openBlock key.column with
        | some opened => opened.insertAt key.position [.blockMappingStart, .key]
        | none => s.insertAt key.position [.key]
      return s.pushMark .value 1
  | _ =>
      let column := s.cursor.column
      let s ←
        if s.inFlow then pure { s with keyAllowed := false }
        else if !s.keyAllowed then throw .badToken
        else match s.openBlock column with
          | some opened => pure { opened.push .blockMappingStart with keyAllowed := true }
          | none => pure { s with keyAllowed := true }
      return s.pushMark .value 1

def takeFlowStart (s : Scanner) (token : Token) : Except Fault Scanner := do
  let s ← s.saveKey
  return { s.pushMark token 1 with keys := none :: s.keys, keyAllowed := true }

def takeFlowEnd (s : Scanner) (token : Token) : Except Fault Scanner := do
  let s ← s.dropKey
  let keys := if s.inFlow then s.keys.drop 1 else s.keys
  return { s.pushMark token 1 with keys, keyAllowed := false }

/-- Whether a plain scalar may start at the cursor. -/
def startsPlain (s : Scanner) : Bool :=
  let next := s.cursor.at? 1
  match s.cursor.at? 0 with
  | none => false
  | some ch =>
      if ch == '-' then !next.any isSpaceOrTab
      else if ch == '?' || ch == ':' then !s.inFlow && !isGap next
      else !isGap (some ch) && !(",[]\x7b\x7d#&*!|>'\"%@\x60".toList.contains ch)

def takeScalar (s : Scanner) (text : List Char) (plain : Bool) (next : Cursor)
    (keyAllowed : Bool) : Scanner :=
  { s.push (.scalar (String.ofList text) plain) with cursor := next, keyAllowed }

/-- One token, or `none` at the end of the stream. -/
def step (s : Scanner) : Except Fault (Option Scanner) := do
  let s := s.skipToToken (s.cursor.rest.length + 1)
  let s ← s.dropStaleKeys
  let s := s.closeBlocks (s.cursor.column + 1)
  let c := s.cursor
  let fuel := c.rest.length + 1
  match c.at? 0 with
  | none => return none
  | some ch =>
      if c.column == 0 && ch == '%' then
        let s ← (s.closeBlocks 0).dropKey
        let (token, next) ← takeDirective c
        return some { s.push token with cursor := next, keyAllowed := false }
      else if c.atDocumentMark '-' then
        let s ← (s.closeBlocks 0).dropKey
        return some { s.pushMark .documentStart 3 with keyAllowed := false }
      else if c.atDocumentMark '.' then
        let s ← (s.closeBlocks 0).dropKey
        return some { s.pushMark .documentEnd 3 with keyAllowed := false }
      else if ch == '[' then return some (← s.takeFlowStart .flowSequenceStart)
      else if ch == '{' then return some (← s.takeFlowStart .flowMappingStart)
      else if ch == ']' then return some (← s.takeFlowEnd .flowSequenceEnd)
      else if ch == '}' then return some (← s.takeFlowEnd .flowMappingEnd)
      else if ch == ',' then
        let s ← s.dropKey
        return some { s.pushMark .flowEntry 1 with keyAllowed := true }
      else if ch == '-' && isGap (c.at? 1) then
        let s ← s.takeBlockMark .blockSequenceStart .blockEntry
        return some { s with keyAllowed := true }
      else if ch == '?' && (s.inFlow || isGap (c.at? 1)) then
        let s ← s.takeBlockMark .blockMappingStart .key
        return some { s with keyAllowed := !s.inFlow }
      else if ch == ':' && (s.inFlow || isGap (c.at? 1)) then
        return some (← s.takeValueMark)
      else if ch == '*' || ch == '&' then
        let s ← s.saveKey
        let (name, next) ← takeName c
        let token := if ch == '*' then Token.alias name else Token.anchor name
        return some { s.push token with cursor := next, keyAllowed := false }
      else if ch == '!' then
        let s ← s.saveKey
        let (token, next) ← takeTag s.inFlow c
        return some { s.push token with cursor := next, keyAllowed := false }
      else if (ch == '|' || ch == '>') && !s.inFlow then
        let s ← s.dropKey
        let (text, next) ← takeBlock (ch == '|') s.level (c.skip 1)
        return some (s.takeScalar text false next true)
      else if ch == '\'' || ch == '"' then
        let s ← s.saveKey
        let (text, next) ← takeQuoted (ch == '\'') fuel (c.skip 1) Fold.empty
        return some (s.takeScalar text false next false)
      else if s.startsPlain then
        let s ← s.saveKey
        let (text, next, onNewLine) ← takePlain s.inFlow s.level fuel c Fold.empty
        return some (s.takeScalar text true next onNewLine)
      else throw .badToken

def finish (s : Scanner) : Except Fault (List Token) := do
  let s ← (s.closeBlocks 0).dropKey
  return s.tokens.reverse

def run : Nat → Scanner → Except Fault (List Token)
  | 0, _ => .error .badToken
  | fuel + 1, s => do
      match ← s.step with
      | some next => run fuel next
      | none =>
          let s := s.skipToToken (s.cursor.rest.length + 1)
          (← s.dropStaleKeys).finish

end Scanner

def tokens (text : List Char) : Except Fault (List Token) :=
  (Scanner.start text).run (text.length + 2)

end ImageLock.Yaml
