/-
The locks of PHP definitions.
-/
import ImageLock.Stage.Locks
import ImageLock.VersionMap

namespace ImageLock.Php

structure StageLocks where
  systemPackages : VersionMap
  extensions : VersionMap
deriving DecidableEq

abbrev Locks := StagedLocks StageLocks

namespace StageLocks

def toNode (locks : StageLocks) : Node :=
  .record [("system_packages", locks.systemPackages.toNode),
    ("extensions", locks.extensions.toNode)]

open Decode in
def read : Reader StageLocks := fun node => do
  let fields ← record
    [optional "system_packages" VersionMap.read, optional "extensions" VersionMap.read] node
  return ⟨← get fields "system_packages" VersionMap.read .empty,
    ← get fields "extensions" VersionMap.read .empty⟩

end StageLocks

namespace Locks

def toNode (locks : Locks) : Node := .record (StagedLocks.toFields StageLocks.toNode locks)

def read : Decode.Reader Locks := StagedLocks.read StageLocks.read

end Locks
end ImageLock.Php
