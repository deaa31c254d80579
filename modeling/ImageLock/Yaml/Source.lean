/-
The characters of a YAML stream, which holds printable characters only.
-/
import ImageLock.Text.Utf8

namespace ImageLock.Yaml

/-- Why a text is not one YAML document. -/
inductive Fault where
  | unreadable
  | badToken
  | badStructure
  | unknownAnchor
  | tooDeep
  | tooManyAliases
  | duplicateKey
  | badScalar
  | severalDocuments
deriving DecidableEq, Repr

def isAllowed (c : Char) : Bool :=
  let n := c.toNat
  n == 0x09 || n == 0x0A || n == 0x0D || (0x20 ≤ n && n ≤ 0x7E) || n == 0x85 ||
    (0xA0 ≤ n && n ≤ 0xD7FF) || (0xE000 ≤ n && n ≤ 0xFFFD) || 0x10000 ≤ n

/-- A stream is encoded in UTF-8, with or without a byte order mark. -/
def characters (bytes : ByteArray) : Except Fault (List Char) :=
  match (Text.ofBytes? bytes).map String.toList with
  | some text => if text.all isAllowed then .ok text else .error .unreadable
  | none => .error .unreadable

end ImageLock.Yaml
