/-
Trimming and splitting of text, as functions on lists of characters. The
`String` forms beside them only convert.
-/
namespace ImageLock.Text

/-- The characters with the White_Space property. -/
def isBlank (c : Char) : Bool :=
  let n := c.toNat
  (0x09 ≤ n && n ≤ 0x0D) || n == 0x20 || n == 0x85 || n == 0xA0 || n == 0x1680 ||
    (0x2000 ≤ n && n ≤ 0x200A) || n == 0x2028 || n == 0x2029 || n == 0x202F ||
    n == 0x205F || n == 0x3000

def isDigit (c : Char) : Bool := '0' ≤ c && c ≤ '9'

def isLetter (c : Char) : Bool := ('a' ≤ c && c ≤ 'z') || ('A' ≤ c && c ≤ 'Z')

def dropEndWhile (p : Char → Bool) (text : List Char) : List Char :=
  (text.reverse.dropWhile p).reverse

def dropBothWhile (p : Char → Bool) (text : List Char) : List Char :=
  dropEndWhile p (text.dropWhile p)

def trimChars : List Char → List Char := dropBothWhile isBlank

/-- Splits at the first `sep`, which belongs to neither half. -/
def cutAt (sep : Char) : List Char → Option (List Char × List Char)
  | [] => none
  | c :: rest =>
      if c = sep then some ([], rest)
      else (cutAt sep rest).map fun (before, after) => (c :: before, after)

/-- The pieces between the characters that `p` holds of; never empty. -/
def splitWhere (p : Char → Bool) : List Char → List (List Char)
  | [] => [[]]
  | c :: rest =>
      if p c then [] :: splitWhere p rest
      else match splitWhere p rest with
        | piece :: pieces => (c :: piece) :: pieces
        | [] => [[c]]

/-- Splits at the first occurrence of the text `sep`. -/
def cutAtText (sep : List Char) : List Char → Option (List Char × List Char)
  | [] => if sep.isEmpty then some ([], []) else none
  | c :: rest =>
      if sep.isPrefixOf (c :: rest) then some ([], (c :: rest).drop sep.length)
      else (cutAtText sep rest).map fun (before, after) => (c :: before, after)

/-- The pieces between occurrences of `sep`, read from the left without
overlap. `skip` counts the characters of an occurrence still to pass. -/
def splitAtText (sep : List Char) : List Char → List Char → Nat → List (List Char)
  | [], piece, _ => [piece.reverse]
  | _ :: rest, piece, skip + 1 => splitAtText sep rest piece skip
  | c :: rest, piece, 0 =>
      if sep.isPrefixOf (c :: rest) then
        piece.reverse :: splitAtText sep rest [] (sep.length - 1)
      else splitAtText sep rest (c :: piece) 0

def piecesBetween (sep text : List Char) : List (List Char) := splitAtText sep text [] 0

def dropCarriageReturn (line : List Char) : List Char :=
  match line.reverse with
  | '\r' :: rest => rest.reverse
  | _ => line

/-- The lines of a text. A carriage return before a line feed belongs to the
line's end; a text that ends in a line feed has no further, empty line. -/
def lineChars (text : List Char) : List (List Char) :=
  let pieces := splitWhere (· == '\n') text
  match pieces.reverse with
  | [] => []
  | last :: ended =>
      let ended := ended.reverse.map dropCarriageReturn
      if last.isEmpty then ended else ended ++ [last]

def dropLeading (lead : List Char) (text : List Char) : Option (List Char) :=
  if lead.isPrefixOf text then some (text.drop lead.length) else none

/-- Whether `part` occurs anywhere in a text. -/
def containsText (part : List Char) : List Char → Bool
  | [] => part.isEmpty
  | c :: rest => part.isPrefixOf (c :: rest) || containsText part rest

def trim (text : String) : String := String.ofList (trimChars text.toList)

def lines (text : String) : List String := (lineChars text.toList).map String.ofList

def cut (sep : Char) (text : String) : Option (String × String) :=
  (cutAt sep text.toList).map fun (before, after) =>
    (String.ofList before, String.ofList after)

/-- What follows `lead` in a text that starts with it. -/
def after? (lead text : String) : Option String :=
  (dropLeading lead.toList text.toList).map String.ofList

def startsWith (lead text : String) : Bool := lead.toList.isPrefixOf text.toList

def contains (part text : String) : Bool := containsText part.toList text.toList

def dropStartWhile (p : Char → Bool) (text : String) : String :=
  String.ofList (text.toList.dropWhile p)

/-- Bytes that a text takes in UTF-8. -/
def byteLength (text : List Char) : Nat :=
  text.foldl (fun n c => n + c.utf8Size) 0

def join (sep : String) : List String → String
  | [] => ""
  | [word] => word
  | word :: rest => word ++ sep ++ join sep rest

end ImageLock.Text
