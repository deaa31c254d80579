/-
Reading bytes as UTF-8. The lenient reading puts one replacement character
for every longest piece of a sequence that cannot be completed.
-/
namespace ImageLock.Text

def replacement : Char := '\uFFFD'

/-- What a first byte calls for: how many bytes follow, the bounds of the
first of them, and the bits it contributes itself. -/
def leadByte (b : UInt8) : Option (Nat × UInt8 × UInt8 × Nat) :=
  if b < 0x80 then some (0, 0, 0, b.toNat)
  else if 0xC2 ≤ b && b ≤ 0xDF then some (1, 0x80, 0xBF, b.toNat - 0xC0)
  else if b = 0xE0 then some (2, 0xA0, 0xBF, 0)
  else if b = 0xED then some (2, 0x80, 0x9F, b.toNat - 0xE0)
  else if 0xE1 ≤ b && b ≤ 0xEF then some (2, 0x80, 0xBF, b.toNat - 0xE0)
  else if b = 0xF0 then some (3, 0x90, 0xBF, 0)
  else if 0xF1 ≤ b && b ≤ 0xF3 then some (3, 0x80, 0xBF, b.toNat - 0xF0)
  else if b = 0xF4 then some (3, 0x80, 0x8F, b.toNat - 0xF0)
  else none

/-- A sequence in the making: bytes that must follow, bounds of the next one,
and the value read so far. -/
structure Pending where
  missing : Nat
  low : UInt8
  high : UInt8
  value : Nat

def startSequence (b : UInt8) : Except Unit (Char ⊕ Pending) :=
  match leadByte b with
  | none => .error ()
  | some (0, _, _, value) => .ok (.inl (Char.ofNat value))
  | some (missing, low, high, value) => .ok (.inr ⟨missing, low, high, value⟩)

/-- Reads bytes one at a time; `pending` is the open sequence, if any. -/
def decodeLenient : List UInt8 → Option Pending → List Char
  | [], none => []
  | [], some _ => [replacement]
  | b :: rest, none =>
      match startSequence b with
      | .error () => replacement :: decodeLenient rest none
      | .ok (.inl c) => c :: decodeLenient rest none
      | .ok (.inr pending) => decodeLenient rest (some pending)
  | b :: rest, some pending =>
      if pending.low ≤ b && b ≤ pending.high then
        let value := pending.value * 64 + (b.toNat - 0x80)
        if pending.missing ≤ 1 then Char.ofNat value :: decodeLenient rest none
        else decodeLenient rest (some ⟨pending.missing - 1, 0x80, 0xBF, value⟩)
      else
        replacement ::
          match startSequence b with
          | .error () => replacement :: decodeLenient rest none
          | .ok (.inl c) => c :: decodeLenient rest none
          | .ok (.inr pending) => decodeLenient rest (some pending)

def ofBytesLenient (bytes : ByteArray) : String :=
  match String.fromUTF8? bytes with
  | some text => text
  | none => String.ofList (decodeLenient bytes.toList none)

def ofBytes? (bytes : ByteArray) : Option String := String.fromUTF8? bytes

end ImageLock.Text
