/-
Quoting a text inside a message, and the other way to print values there:
lists of characters that need escaping are written so that every text has one
quoted form on one line.
-/
import ImageLock.Text.Printable

namespace ImageLock.Text

def hexDigit (n : Nat) : Char :=
  if n < 10 then Char.ofNat (0x30 + n) else Char.ofNat (0x57 + n)

/-- Lower case hexadecimal digits, without leading zeros. -/
def hexDigits (n : Nat) : List Char :=
  if _h : n < 16 then [hexDigit n] else hexDigits (n / 16) ++ [hexDigit (n % 16)]
termination_by n

def escapeQuoted (c : Char) : List Char :=
  match c with
  | '\x00' => ['\\', '0']
  | '\t' => ['\\', 't']
  | '\n' => ['\\', 'n']
  | '\r' => ['\\', 'r']
  | '"' => ['\\', '"']
  | '\\' => ['\\', '\\']
  | _ =>
      if isShown c then [c]
      else ['\\', 'u', '\x7b'] ++ hexDigits c.toNat ++ ['\x7d']

/-- The text between double quotes, with what cannot be shown escaped. -/
def quoted (text : String) : String :=
  String.ofList ('"' :: text.toList.flatMap escapeQuoted ++ ['"'])

end ImageLock.Text
