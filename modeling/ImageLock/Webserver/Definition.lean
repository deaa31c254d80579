/-
Definitions of webservers, which stand alone or inside other definitions.
-/
import ImageLock.Definition
import ImageLock.World

namespace ImageLock.Webserver

inductive Error where
  | definition (error : DefinitionError)
  | access (error : AccessError)
  | packages (error : PackageError)
  | noLocks
deriving DecidableEq, Repr

namespace Error

def message : Error → String
  | .definition error => error.message
  | .access error => error.message
  | .packages error => "could not resolve system packages: " ++ error.message
  | .noLocks => "no locks available for webserver. Please update your lockfile"

def causes : Error → List String
  | .definition error => error.causes
  | .access error => error.causes
  | .packages error => error.message :: error.causes
  | .noLocks => []

end Error

inductive Server where
  | nginx
deriving DecidableEq, Repr

namespace Server

def name : Server → String
  | .nginx => "nginx"

def configPath : Server → String
  | .nginx => "/etc/nginx/nginx.conf"

def image : Server → String
  | .nginx => "docker.io/library/nginx:latest"

def read : Decode.Reader Server := Decode.variant [("nginx", .nginx)]

end Server

/-- Files that are copied from the image of the site. -/
structure Asset where
  source : String
  target : String
deriving DecidableEq, Repr

structure Definition where
  server : Server
  systemPackages : VersionMap
  configFile : Option String
  healthcheck : Bool
  assets : List Asset
deriving DecidableEq

structure Locks where
  image : String
  os : OsRelease
  systemPackages : VersionMap
deriving DecidableEq

namespace Asset

def toNode (asset : Asset) : Node :=
  .record [("from", .text asset.source), ("to", .text asset.target)]

open Decode in
def read : Reader Asset := fun node => do
  let fields ← record [required "from" text, required "to" text] node
  return ⟨← need fields "from" text, ← need fields "to" text⟩

end Asset

namespace Locks

def empty : Locks := ⟨"", OsRelease.empty, .empty⟩

def toNode (locks : Locks) : Node :=
  .record [("base_image", .text locks.image), ("osrelease", locks.os.toNode),
    ("system_packages", locks.systemPackages.toNode)]

open Decode in
def read : Reader Locks := fun node => do
  let fields ← record
    [optional "base_image" text, optional "osrelease" OsRelease.read,
      optional "system_packages" VersionMap.read] node
  return {
    image := ← get fields "base_image" text ""
    os := ← get fields "osrelease" OsRelease.read OsRelease.empty
    systemPackages := ← get fields "system_packages" VersionMap.read .empty }

end Locks

namespace Definition

def toNode (d : Definition) : Node :=
  .record ([("type", .text d.server.name), ("system_packages", d.systemPackages.toNode)] ++
    Node.optional "config_file" (d.configFile.map .text) ++
    [("healthcheck", .bool d.healthcheck), ("assets", .list (d.assets.map (·.toNode)))])

/-- A server that is checked needs a tool for it. -/
def addChecker (packages : VersionMap) (healthcheck : Bool) : VersionMap :=
  if healthcheck then packages.add "curl" "*" else packages

open Decode in
/-- The healthcheck is on unless it is turned off. -/
def read : Reader Definition := fun node => do
  let assets := list Asset.read
  let fields ← record
    [optional "type" Server.read, optional "system_packages" VersionMap.read,
      optional "config_file" (option text), optional "healthcheck" (option boolean),
      optional "assets" assets] node
  let healthcheck := (← get fields "healthcheck" (option boolean) none).getD true
  let packages ← get fields "system_packages" VersionMap.read .empty
  return {
    server := ← get fields "type" Server.read .nginx
    systemPackages := addChecker packages healthcheck
    configFile := ← get fields "config_file" (option text) none
    healthcheck
    assets := ← get fields "assets" assets [] }

def ofDefinition (d : ImageLock.Definition) : Except Error (Definition × Locks) := do
  let definition ←
    (ImageLock.Definition.decode "webserver definition" read d.config).mapError .definition
  let locks ←
    (ImageLock.Definition.decodeLocks Locks.read Locks.empty d.locks).mapError .definition
  return (definition, locks)

end Definition
end ImageLock.Webserver
