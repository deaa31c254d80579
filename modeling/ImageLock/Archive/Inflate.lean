/-
Decompressing deflated data: blocks of literal bytes and of references to
earlier output, in prefix codes that the data describes itself.
-/
namespace ImageLock.Archive

/-- Bits still to read, the lowest of a byte first. -/
structure Bits where
  data : ByteArray
  position : Nat

namespace Bits

def take1 (b : Bits) : Option (Nat × Bits) :=
  (b.data.data[b.position / 8]?).map fun byte =>
    (byte.toNat / Nat.pow 2 (b.position % 8) % 2, { b with position := b.position + 1 })

/-- A number of `n` bits, the lowest bit first. -/
def take : Nat → Bits → Option (Nat × Bits)
  | 0, b => some (0, b)
  | n + 1, b => do
      let (low, b) ← b.take1
      let (high, b) ← take n b
      return (low + 2 * high, b)

/-- Goes on at the next whole byte. -/
def align (b : Bits) : Bits := { b with position := (b.position + 7) / 8 * 8 }

end Bits

/-- A prefix code: how many codes each length has, from length 1 on, and the
symbols in the order of their codes. -/
structure Code where
  counts : List Nat
  symbols : Array Nat

namespace Code

/-- How many codes of fifteen bits are left; negative if there are too many. -/
def left (counts : List Nat) : Int :=
  counts.foldl (fun (left : Int) (count : Nat) => 2 * left - count) 1

/-- The code in which symbol `i` has the length `lengths[i]`. An incomplete
code may have one symbol only. -/
def ofLengths (lengths : List Nat) : Option Code :=
  let sizes := List.range' 1 15
  let counts := sizes.map fun size => lengths.count size
  let symbols := sizes.flatMap fun size =>
    (lengths.zipIdx.filter fun (length, _) => length == size).map (·.2)
  let left := left counts
  if left < 0 || (0 < left && 1 < symbols.length) then none
  else some ⟨counts, symbols.toArray⟩

def decodeFrom (symbols : Array Nat) :
    List Nat → (code first index : Nat) → Bits → Option (Nat × Bits)
  | [], _, _, _, _ => none
  | count :: counts, code, first, index, b => do
      let (bit, b) ← b.take1
      let code := 2 * code + bit
      if code < first + count then
        return (← symbols[index + (code - first)]?, b)
      else decodeFrom symbols counts code (2 * (first + count)) (index + count) b

def decode (c : Code) (b : Bits) : Option (Nat × Bits) :=
  decodeFrom c.symbols c.counts 0 0 0 b

end Code

def lengthBases : List Nat :=
  [3, 4, 5, 6, 7, 8, 9, 10, 11, 13, 15, 17, 19, 23, 27, 31, 35, 43, 51, 59, 67, 83, 99, 115,
    131, 163, 195, 227, 258]

def lengthExtras : List Nat :=
  [0, 0, 0, 0, 0, 0, 0, 0, 1, 1, 1, 1, 2, 2, 2, 2, 3, 3, 3, 3, 4, 4, 4, 4, 5, 5, 5, 5, 0]

def distanceBases : List Nat :=
  [1, 2, 3, 4, 5, 7, 9, 13, 17, 25, 33, 49, 65, 97, 129, 193, 257, 385, 513, 769, 1025, 1537,
    2049, 3073, 4097, 6145, 8193, 12289, 16385, 24577]

def distanceExtras : List Nat :=
  [0, 0, 0, 0, 1, 1, 2, 2, 3, 3, 4, 4, 5, 5, 6, 6, 7, 7, 8, 8, 9, 9, 10, 10, 11, 11, 12, 12,
    13, 13]

/-- Repeats the output from `distance` bytes back. -/
def copyBack (distance : Nat) : Nat → ByteArray → Option ByteArray
  | 0, out => some out
  | n + 1, out =>
      if distance ≤ out.size then
        match out.data[out.size - distance]? with
        | some byte => copyBack distance n (out.push byte)
        | none => none
      else none

/-- The symbols of a block up to its end mark. -/
def takeSymbols (literals distances : Code) : Nat → Bits → ByteArray → Option (Bits × ByteArray)
  | 0, _, _ => none
  | fuel + 1, b, out => do
      let (symbol, b) ← literals.decode b
      if symbol < 256 then takeSymbols literals distances fuel b (out.push (UInt8.ofNat symbol))
      else if symbol = 256 then return (b, out)
      else
        let (extra, b) ← b.take (← lengthExtras[symbol - 257]?)
        let length := (← lengthBases[symbol - 257]?) + extra
        let (symbol, b) ← distances.decode b
        let (extra, b) ← b.take (← distanceExtras[symbol]?)
        let distance := (← distanceBases[symbol]?) + extra
        takeSymbols literals distances fuel b (← copyBack distance length out)

def fixedLengths : List Nat :=
  List.replicate 144 8 ++ List.replicate 112 9 ++ List.replicate 24 7 ++ List.replicate 8 8

/-- The order in which a block gives the lengths of the codes for lengths. -/
def lengthOrder : List Nat := [16, 17, 18, 0, 8, 7, 9, 6, 10, 5, 11, 4, 12, 3, 13, 2, 14, 1, 15]

def takeNumbers (width : Nat) : Nat → Bits → Option (List Nat × Bits)
  | 0, b => some ([], b)
  | n + 1, b => do
      let (number, b) ← b.take width
      let (rest, b) ← takeNumbers width n b
      return (number :: rest, b)

/-- Code lengths up to `wanted`, in reverse; symbols from 16 on repeat. -/
def takeLengths (code : Code) (wanted : Nat) :
    Nat → Bits → List Nat → Option (List Nat × Bits)
  | 0, _, _ => none
  | fuel + 1, b, lengths =>
      if lengths.length = wanted then some (lengths.reverse, b)
      else if wanted < lengths.length then none
      else do
        let (symbol, b) ← code.decode b
        if symbol < 16 then takeLengths code wanted fuel b (symbol :: lengths)
        else
          let (value, least, width) ←
            if symbol = 16 then lengths.head?.map fun last => (last, 3, 2)
            else if symbol = 17 then some (0, 3, 3)
            else some (0, 11, 7)
          let (extra, b) ← b.take width
          takeLengths code wanted fuel b (List.replicate (least + extra) value ++ lengths)

def takeCodes (b : Bits) : Option (Code × Code × Bits) := do
  let (literals, b) ← b.take 5
  let (distances, b) ← b.take 5
  let (sizes, b) ← b.take 4
  let (given, b) ← takeNumbers 3 (sizes + 4) b
  let order := lengthOrder.zip given
  let code ← Code.ofLengths ((List.range 19).map fun i => (order.lookup i).getD 0)
  let wanted := literals + 257 + distances + 1
  let (lengths, b) ← takeLengths code wanted (wanted + 1) b []
  return (← Code.ofLengths (lengths.take (literals + 257)),
    ← Code.ofLengths (lengths.drop (literals + 257)), b)

def takeStored (b : Bits) (out : ByteArray) : Option (Bits × ByteArray) := do
  let (length, b) ← b.align.take 16
  let (check, b) ← b.take 16
  let start := b.position / 8
  if length + check = 65535 && start + length ≤ b.data.size then
    return ({ b with position := b.position + 8 * length },
      out ++ b.data.extract start (start + length))
  else none

def takeBlocks : Nat → Bits → ByteArray → Option (Bits × ByteArray)
  | 0, _, _ => none
  | fuel + 1, b, out => do
      let (last, b) ← b.take 1
      let (form, b) ← b.take 2
      let symbolFuel := 8 * b.data.size + 1
      let (b, out) ←
        match form with
        | 0 => takeStored b out
        | 1 => do
            let literals ← Code.ofLengths fixedLengths
            let distances ← Code.ofLengths (List.replicate 32 5)
            takeSymbols literals distances symbolFuel b out
        | 2 => do
            let (literals, distances, b) ← takeCodes b
            takeSymbols literals distances symbolFuel b out
        | _ => none
      if last = 1 then return (b, out) else takeBlocks fuel b out

/-- The data behind `position` decompressed, and the position after it. -/
def inflate (data : ByteArray) (position : Nat) : Option (ByteArray × Nat) := do
  let (b, out) ← takeBlocks (8 * data.size + 1) ⟨data, 8 * position⟩ ByteArray.empty
  return (out, (b.position + 7) / 8)

end ImageLock.Archive
