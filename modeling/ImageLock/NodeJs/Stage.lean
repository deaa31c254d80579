/-
The stages and locks of Node.js images.
-/
import ImageLock.ExternalFile
import ImageLock.Stage.Locks
import ImageLock.Stage.Set
import ImageLock.VersionMap

namespace ImageLock.NodeJs

structure Stage where
  externalFiles : List ExternalFile
  systemPackages : VersionMap
  globalPackages : VersionMap
  buildCommand : Option String
  command : Option (List String)
  configFiles : Names String
  sources : List String
  statefulDirs : List String
  healthcheck : Option Bool
deriving DecidableEq

namespace Stage

def empty : Stage := ⟨[], .empty, .empty, none, none, .empty, [], [], none⟩

/-- Options of the overriding stage win, lists are joined, and maps take its
entries in. -/
def merge (base overriding : Stage) : Stage where
  externalFiles := base.externalFiles ++ overriding.externalFiles
  systemPackages := base.systemPackages.merge overriding.systemPackages
  globalPackages := base.globalPackages.merge overriding.globalPackages
  buildCommand := overriding.buildCommand.or base.buildCommand
  command := overriding.command.or base.command
  configFiles := base.configFiles.merge overriding.configFiles
  sources := base.sources ++ overriding.sources
  statefulDirs := base.statefulDirs ++ overriding.statefulDirs
  healthcheck := overriding.healthcheck.or base.healthcheck

def filesNode (files : Names String) : Node :=
  .record (files.entries.map fun (name, file) => (name, .text file))

def toFields (s : Stage) : List (String × Node) :=
  [("external_files", .list (s.externalFiles.map (·.toNode))),
    ("system_packages", s.systemPackages.toNode),
    ("global_packages", s.globalPackages.toNode)] ++
  Node.optional "build_command" (s.buildCommand.map .text) ++
  Node.optional "command" (s.command.map .texts) ++
  [("config_files", filesNode s.configFiles), ("sources", .texts s.sources),
    ("stateful_dirs", .texts s.statefulDirs)] ++
  Node.optional "healthcheck" (s.healthcheck.map .bool)

open Decode in
def read : Reader Stage := fun node => do
  let externalFiles := list ExternalFile.read
  let texts := list text
  let files := entries text
  let fields ← record
    [optional "external_files" externalFiles, optional "system_packages" VersionMap.read,
      optional "global_packages" VersionMap.read, optional "build_command" (option text),
      optional "command" (option texts), optional "config_files" files,
      optional "sources" texts, optional "stateful_dirs" texts,
      optional "healthcheck" (option boolean)] node
  return {
    externalFiles := ← get fields "external_files" externalFiles []
    systemPackages := ← get fields "system_packages" VersionMap.read .empty
    globalPackages := ← get fields "global_packages" VersionMap.read .empty
    buildCommand := ← get fields "build_command" (option text) none
    command := ← get fields "command" (option texts) none
    configFiles := Names.ofList (← get fields "config_files" files [])
    sources := ← get fields "sources" texts []
    statefulDirs := ← get fields "stateful_dirs" texts []
    healthcheck := ← get fields "healthcheck" (option boolean) none }

instance : StageConfig Stage := ⟨merge, toFields, read⟩

end Stage

structure StageLocks where
  systemPackages : VersionMap
deriving DecidableEq

abbrev Locks := StagedLocks StageLocks

namespace StageLocks

def toNode (locks : StageLocks) : Node :=
  .record [("system_packages", locks.systemPackages.toNode)]

open Decode in
def read : Reader StageLocks := fun node => do
  let fields ← record [optional "system_packages" VersionMap.read] node
  return ⟨← get fields "system_packages" VersionMap.read .empty⟩

end StageLocks

namespace Locks

def toNode (locks : Locks) : Node := .record (StagedLocks.toFields StageLocks.toNode locks)

def read : Decode.Reader Locks := StagedLocks.read StageLocks.read

end Locks
end ImageLock.NodeJs
