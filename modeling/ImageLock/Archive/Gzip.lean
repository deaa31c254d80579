/-
Reading a compressed file with its header and checksum.
-/
import ImageLock.Archive.Inflate

namespace ImageLock.Archive

/-- Eight steps of the checksum for one byte. -/
def crcByte : Nat → UInt32 → UInt32
  | 0, crc => crc
  | n + 1, crc =>
      crcByte n (if crc &&& 1 = 1 then (crc >>> 1) ^^^ 0xEDB88320 else crc >>> 1)

def crc32 (bytes : ByteArray) : UInt32 :=
  ~~~(bytes.foldl (fun crc byte => crcByte 8 (crc ^^^ byte.toUInt32)) 0xFFFFFFFF)

/-- The number that bytes spell, the lowest first. -/
def littleEndian (bytes : List UInt8) : Nat := bytes.foldr (fun b n => b.toNat + 256 * n) 0

def number? (data : ByteArray) (start width : Nat) : Option Nat :=
  if start + width ≤ data.size then
    some (littleEndian (data.extract start (start + width)).toList)
  else none

/-- The position behind a text that ends in a zero byte. -/
def afterText? (data : ByteArray) : Nat → Nat → Option Nat
  | 0, _ => none
  | fuel + 1, position =>
      match data.data[position]? with
      | some 0 => some (position + 1)
      | some _ => afterText? data fuel (position + 1)
      | none => none

/-- The position of the data behind the header. -/
def afterHeader? (data : ByteArray) : Option Nat := do
  let magic ← number? data 0 3
  let flags ← number? data 3 1
  if magic != 0x088B1F || 32 ≤ flags || data.size < 10 then none
  else
    let has (bit : Nat) : Bool := flags / bit % 2 == 1
    let position ←
      if has 4 then (number? data 10 2).map (12 + ·) else some 10
    let position ← if has 8 then afterText? data (data.size + 1) position else some position
    let position ← if has 16 then afterText? data (data.size + 1) position else some position
    if has 2 then
      let check ← number? data position 2
      if (crc32 (data.extract 0 position)).toNat % 65536 = check then some (position + 2)
      else none
    else if position ≤ data.size then some position else none

/-- The content of a compressed file, if it is whole. Data behind it does not
count. -/
def gunzip? (data : ByteArray) : Option ByteArray := do
  let (content, position) ← inflate data (← afterHeader? data)
  let check ← number? data position 4
  let size ← number? data (position + 4) 4
  if (crc32 content).toNat = check && content.size % 0x100000000 = size then some content else none

end ImageLock.Archive
