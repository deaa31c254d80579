/-
The locks of a definition with stages.
-/
import ImageLock.Context
import ImageLock.Names
import ImageLock.OsRelease

namespace ImageLock

/-- The pinned image and its system, the pinned context of the source, and
what each stage has locked. -/
structure StagedLocks (S : Type) where
  image : String
  os : OsRelease
  source : Option Context
  stages : Names S

namespace StagedLocks

variable {S : Type}

def empty : StagedLocks S := ⟨"", OsRelease.empty, none, Names.empty⟩

def toFields (stageNode : S → Node) (locks : StagedLocks S) : List (String × Node) :=
  [("base_image", .text locks.image), ("osrelease", locks.os.toNode)] ++
    Node.optional "source_context" (locks.source.map (·.toNode)) ++
    [("stages", .record (locks.stages.entries.map fun (name, stage) => (name, stageNode stage)))]

open Decode in
def read (readStage : Reader S) : Reader (StagedLocks S) := fun node => do
  let stages := entries readStage
  let fields ← record
    [optional "base_image" text, optional "osrelease" OsRelease.read,
      optional "source_context" (option Context.read), optional "stages" stages] node
  return {
    image := ← get fields "base_image" text ""
    os := ← get fields "osrelease" OsRelease.read OsRelease.empty
    source := ← get fields "source_context" (option Context.read) none
    stages := Names.ofList (← get fields "stages" stages []) }

end StagedLocks
end ImageLock
