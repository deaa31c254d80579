/-
PHP definitions: the base stage, what it is built on, and the stages that
derive from it.
-/
import ImageLock.Php.Error
import ImageLock.Php.Locks
import ImageLock.Php.Stage
import ImageLock.Stage.Chain

namespace ImageLock.Php

/-- The fields of a definition that are not those of its base stage. -/
structure Params where
  base : Option String
  version : Option String
  infer : Option Bool
  stages : StageSet Stage
  source : Option Context

structure Definition where
  baseStage : Stage
  baseImage : String
  version : String
  majorMinor : String
  infer : Bool
  stages : StageSet Stage
  source : Option Context
  locks : Locks

namespace Params

def names : List String := ["base", "version", "infer", "stages", "source_context"]

open Decode in
def read : Reader Params := fun node => do
  let stages := StageSet.read (S := Stage)
  let fields ← record
    [optional "base" (option text), optional "version" (option scalar),
      optional "infer" (option boolean), optional "stages" stages,
      optional "source_context" (option Context.read)] node
  return {
    base := ← get fields "base" (option text) none
    version := ← get fields "version" (option scalar) none
    infer := ← get fields "infer" (option boolean) none
    stages := ← get fields "stages" stages StageSet.empty
    source := ← get fields "source_context" (option Context.read) none }

/-- An image of one's own, or the version of the official one; never both. -/
def baseAndVersion (p : Params) : Except Error (String × String) :=
  match p.base, p.version with
  | some _, some _ => .error .versionAndBase
  | none, none => .error .missingVersionOrBase
  | base, version => .ok (base.getD "", version.getD "")

end Params

namespace Definition

def defaultBaseStage : Stage :=
  { Stage.empty with
    fpm := some true
    healthcheck := some (.toggle true)
    dumpFlags := some ⟨false, true⟩ }

def defaultStages : StageSet Stage :=
  Names.ofList [("dev", ⟨Stage.empty, StageSet.baseName, some true⟩),
    ("prod", ⟨Stage.empty, StageSet.baseName, some false⟩)]

def healthcheckTypes : List HealthcheckType := [.fcgi, .cmd]

def checkHealthcheck (name : String) (stage : Stage) : Except Error Unit :=
  match stage.healthcheck with
  | none => .ok ()
  | some healthcheck =>
      (healthcheck.validate healthcheckTypes).mapError (.invalidHealthcheck name)

/-- Checks the healthchecks of the base and of the declared stages. -/
def checkHealthchecks (base : Stage) (stages : StageSet Stage) : Except Error Unit := do
  checkHealthcheck StageSet.baseName base
  stages.entries.forM fun (name, derived) => checkHealthcheck name derived.stage

/-- The first two numbers of a version. -/
def shortVersion (version : String) : String :=
  match Text.splitWhere (· == '.') version.toList with
  | major :: minor :: _ => String.ofList (major ++ '.' :: minor)
  | _ => version

def officialImage (version : String) (fpm : Bool) : String :=
  "docker.io/library/php:" ++ version ++ "-" ++ (if fpm then "fpm" else "cli") ++ "-buster"

def checkSource (source : Option Context) : Except DefinitionError Unit :=
  match source with
  | some context => (context.validate.map fun _ => ()).mapError .badContext
  | none => .ok ()

def ofDefinition (d : ImageLock.Definition) : Except Error Definition := do
  let raw := d.config.remove ImageLock.Definition.webserverField
  let (params, raw) := raw.takeAll Params.names
  let params ← (ImageLock.Definition.decode "php definition" Params.read params).mapError
    .definition
  let base ← (ImageLock.Definition.decode "php base stage" Stage.read raw).mapError .definition
  let (image, version) ← params.baseAndVersion
  (checkSource params.source).mapError .definition
  checkHealthchecks base params.stages
  let base := defaultBaseStage.merge base
  let locks ← (ImageLock.Definition.decodeLocks Locks.read StagedLocks.empty d.locks).mapError
    .definition
  return {
    baseStage := base
    baseImage := if image.isEmpty then officialImage version (base.fpm.getD true) else image
    version
    majorMinor := shortVersion version
    infer := params.infer.getD true
    stages := defaultStages.merge params.stages
    source := params.source
    locks }

end Definition
end ImageLock.Php
