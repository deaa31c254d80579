/-
The stages of PHP images.
-/
import ImageLock.ExternalFile
import ImageLock.Healthcheck
import ImageLock.Stage.Set
import ImageLock.VersionMap

namespace ImageLock.Php

structure ConfigFiles where
  ini : Option String
  fpm : Option String
deriving DecidableEq, Repr

/-- How the class loader is dumped. -/
structure DumpFlags where
  apcu : Bool
  authoritative : Bool
deriving DecidableEq, Repr

structure Stage where
  externalFiles : List ExternalFile
  systemPackages : VersionMap
  fpm : Option Bool
  command : Option (List String)
  extensions : VersionMap
  configFiles : ConfigFiles
  dumpFlags : Option DumpFlags
  sources : List String
  integrations : List String
  statefulDirs : List String
  healthcheck : Option Healthcheck
  postInstall : List String
deriving DecidableEq

namespace ConfigFiles

def empty : ConfigFiles := ⟨none, none⟩

def merge (base overriding : ConfigFiles) : ConfigFiles :=
  ⟨overriding.ini.or base.ini, overriding.fpm.or base.fpm⟩

def toNode (files : ConfigFiles) : Node :=
  .record (Node.optional "php.ini" (files.ini.map .text) ++
    Node.optional "fpm.conf" (files.fpm.map .text))

open Decode in
def read : Reader ConfigFiles := fun node => do
  let fields ← record [optional "php.ini" (option text), optional "fpm.conf" (option text)] node
  return ⟨← get fields "php.ini" (option text) none, ← get fields "fpm.conf" (option text) none⟩

end ConfigFiles

namespace DumpFlags

def none : DumpFlags := ⟨false, false⟩

/-- The options of the dump command; the two flags exclude each other. -/
def options? (flags : DumpFlags) : Option String :=
  if flags.apcu && flags.authoritative then Option.none
  else some ("--no-dev --optimize" ++ (if flags.apcu then " --apcu" else "") ++
    (if flags.authoritative then " --classmap-authoritative" else ""))

def toNode (flags : DumpFlags) : Node :=
  .record [("apcu", .bool flags.apcu), ("classmap_authoritative", .bool flags.authoritative)]

open Decode in
def read : Reader DumpFlags := fun node => do
  let fields ← record
    [optional "apcu" boolean, optional "classmap_authoritative" boolean] node
  return ⟨← get fields "apcu" boolean false,
    ← get fields "classmap_authoritative" boolean false⟩

end DumpFlags

namespace Stage

def empty : Stage :=
  ⟨[], .empty, none, none, .empty, .empty, none, [], [], [], none, []⟩

/-- Options of the overriding stage win, lists are joined, and maps take its
entries in. -/
def merge (base overriding : Stage) : Stage where
  externalFiles := base.externalFiles ++ overriding.externalFiles
  systemPackages := base.systemPackages.merge overriding.systemPackages
  fpm := overriding.fpm.or base.fpm
  command := overriding.command.or base.command
  extensions := base.extensions.merge overriding.extensions
  configFiles := base.configFiles.merge overriding.configFiles
  dumpFlags := overriding.dumpFlags.or base.dumpFlags
  sources := base.sources ++ overriding.sources
  integrations := base.integrations ++ overriding.integrations
  statefulDirs := base.statefulDirs ++ overriding.statefulDirs
  healthcheck := overriding.healthcheck.or base.healthcheck
  postInstall := base.postInstall ++ overriding.postInstall

def toFields (s : Stage) : List (String × Node) :=
  [("external_files", .list (s.externalFiles.map (·.toNode))),
    ("system_packages", s.systemPackages.toNode)] ++
  Node.optional "fpm" (s.fpm.map .bool) ++
  Node.optional "command" (s.command.map .texts) ++
  [("extensions", s.extensions.toNode), ("config_files", s.configFiles.toNode)] ++
  Node.optional "composer_dump" (s.dumpFlags.map (·.toNode)) ++
  [("sources", .texts s.sources), ("integrations", .texts s.integrations),
    ("stateful_dirs", .texts s.statefulDirs)] ++
  Node.optional "healthcheck" (s.healthcheck.map (·.toNode)) ++
  [("post_install", .texts s.postInstall)]

open Decode in
def read : Reader Stage := fun node => do
  let files := list ExternalFile.read
  let texts := list text
  let fields ← record
    [optional "external_files" files, optional "system_packages" VersionMap.read,
      optional "fpm" (option boolean), optional "command" (option texts),
      optional "extensions" VersionMap.read, optional "config_files" ConfigFiles.read,
      optional "composer_dump" (option DumpFlags.read), optional "sources" texts,
      optional "integrations" texts, optional "stateful_dirs" texts,
      optional "healthcheck" (option Healthcheck.read), optional "post_install" texts] node
  return {
    externalFiles := ← get fields "external_files" files []
    systemPackages := ← get fields "system_packages" VersionMap.read .empty
    fpm := ← get fields "fpm" (option boolean) none
    command := ← get fields "command" (option texts) none
    extensions := ← get fields "extensions" VersionMap.read .empty
    configFiles := ← get fields "config_files" ConfigFiles.read .empty
    dumpFlags := ← get fields "composer_dump" (option DumpFlags.read) none
    sources := ← get fields "sources" texts []
    integrations := ← get fields "integrations" texts []
    statefulDirs := ← get fields "stateful_dirs" texts []
    healthcheck := ← get fields "healthcheck" (option Healthcheck.read) none
    postInstall := ← get fields "post_install" texts [] }

instance : StageConfig Stage := ⟨merge, toFields, read⟩

end Stage
end ImageLock.Php
