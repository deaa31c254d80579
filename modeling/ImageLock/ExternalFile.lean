/-
Files from elsewhere that are added to an image.
-/
import ImageLock.Decode

namespace ImageLock

structure ExternalFile where
  url : String
  isCompressed : Bool := false
  pattern : Option String := none
  destination : String
  checksum : Option String := none
  mode : Option Nat := none
  owner : Option String := none
deriving DecidableEq, Repr

namespace ExternalFile

def toNode (file : ExternalFile) : Node :=
  .record ([("url", .text file.url)] ++
    (if file.isCompressed then [("compressed", .bool true)] else []) ++
    Node.optional "pattern" (file.pattern.map .text) ++
    [("destination", .text file.destination)] ++
    Node.optional "checksum" (file.checksum.map .text) ++
    Node.optional "mode" (file.mode.map fun mode => .int mode) ++
    Node.optional "owner" (file.owner.map .text))

open Decode in
def read : Reader ExternalFile := fun node => do
  let fields ← record
    [required "url" text, optional "compressed" boolean, optional "pattern" (option text),
      required "destination" text, optional "checksum" (option text),
      optional "mode" (option count), optional "owner" (option text)] node
  return {
    url := ← need fields "url" text
    isCompressed := ← get fields "compressed" boolean false
    pattern := ← get fields "pattern" (option text) none
    destination := ← need fields "destination" text
    checksum := ← get fields "checksum" (option text) none
    mode := ← get fields "mode" (option count) none
    owner := ← get fields "owner" (option text) none }

end ExternalFile
end ImageLock
