/-
Node.js definitions and their stages.
-/
import ImageLock.Definition
import ImageLock.NodeJs.Stage
import ImageLock.Stage.Chain
import ImageLock.World

namespace ImageLock.NodeJs

inductive Error where
  | definition (error : DefinitionError)
  | stage (error : StageError)
  | versionAndBase
  | access (error : AccessError)
  | packages (error : PackageError)
  | noLocks (stage : String)
deriving DecidableEq, Repr

namespace Error

def message : Error → String
  | .definition error => error.message
  | .stage error => error.message
  | .versionAndBase =>
      "you can't provide both version and base image parameters at the same time"
  | .access error => error.message
  | .packages error => "could not resolve system packages: " ++ error.message
  | .noLocks name =>
      "no locks available for stage " ++ Text.quoted name ++ ". Please update your lockfile"

def causes : Error → List String
  | .definition error => error.causes
  | .access error => error.causes
  | .packages error => error.message :: error.causes
  | _ => []

end Error

/-- The fields of a definition that are not those of its base stage. -/
structure Params where
  base : Option String
  version : Option String
  alpine : Bool
  frontend : Bool
  stages : StageSet Stage
  source : Option Context

structure Definition where
  baseStage : Stage
  baseImage : String
  version : String
  alpine : Bool
  frontend : Bool
  stages : StageSet Stage
  source : Option Context
  locks : Locks

/-- A stage as it is built. -/
structure Resolved where
  name : String
  baseImage : String
  version : String
  isDev : Bool
  frontend : Bool
  stage : Stage

namespace Params

def names : List String := ["base", "version", "alpine", "frontend", "stages", "source_context"]

open Decode in
def read : Reader Params := fun node => do
  let stages := StageSet.read (S := Stage)
  let fields ← record
    [optional "base" (option text), optional "version" (option scalar),
      optional "alpine" boolean, optional "frontend" boolean, optional "stages" stages,
      optional "source_context" (option Context.read)] node
  return {
    base := ← get fields "base" (option text) none
    version := ← get fields "version" (option scalar) none
    alpine := ← get fields "alpine" boolean false
    frontend := ← get fields "frontend" boolean false
    stages := ← get fields "stages" stages StageSet.empty
    source := ← get fields "source_context" (option Context.read) none }

end Params

namespace Definition

def defaultBaseStage : Stage := { Stage.empty with healthcheck := some true }

def defaultStages : StageSet Stage :=
  Names.ofList [("dev", ⟨Stage.empty, StageSet.baseName, some true⟩),
    ("prod", ⟨Stage.empty, StageSet.baseName, some false⟩)]

def officialImage (version : String) (alpine : Bool) : String :=
  "docker.io/library/node:" ++ version ++ "-" ++ (if alpine then "alpine" else "buster-slim")

def checkSource (source : Option Context) : Except DefinitionError Unit :=
  match source with
  | some context => (context.validate.map fun _ => ()).mapError .badContext
  | none => .ok ()

def ofDefinition (d : ImageLock.Definition) : Except Error Definition := do
  let raw := d.config.remove ImageLock.Definition.webserverField
  let (params, raw) := raw.takeAll Params.names
  let params ← (ImageLock.Definition.decode "nodejs definition" Params.read params).mapError
    .definition
  let base ← (ImageLock.Definition.decode "nodejs base stage" Stage.read raw).mapError
    .definition
  if params.version.isSome && params.base.isSome then throw .versionAndBase
  (checkSource params.source).mapError .definition
  let version := params.version.getD ""
  let locks ← (ImageLock.Definition.decodeLocks Locks.read StagedLocks.empty d.locks).mapError
    .definition
  return {
    baseStage := defaultBaseStage.merge base
    baseImage := params.base.getD (officialImage version params.alpine)
    version
    alpine := params.alpine
    frontend := params.frontend
    stages := defaultStages.merge params.stages
    source := params.source
    locks }

/-- Stages for development and frontends are not checked. -/
def resolveStage (d : Definition) (name : String) : Except Error Resolved := do
  let merged ← (StageSet.resolve d.baseStage d.stages name).mapError .stage
  let stage :=
    if merged.isDev || d.frontend then { merged.stage with healthcheck := some false }
    else merged.stage
  return {
    name, baseImage := d.baseImage, version := d.version, isDev := merged.isDev
    frontend := d.frontend, stage }

end Definition

namespace Resolved

def healthcheck (r : Resolved) : Bool := r.stage.healthcheck.getD false

/-- The global packages as they are named for installation. -/
def globalSpecs (r : Resolved) : List String :=
  r.stage.globalPackages.entries.map fun (name, constraint) =>
    if Packages.isOpen constraint then name else name ++ "@" ++ constraint

def toNode (r : Resolved) : Node :=
  .record ([("name", .text r.name), ("base_image", .text r.baseImage),
      ("version", .text r.version), ("dev", .bool r.isDev), ("frontend", .bool r.frontend)] ++
    r.stage.toFields)

end Resolved
end ImageLock.NodeJs
