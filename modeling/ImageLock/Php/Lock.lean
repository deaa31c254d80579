/-
Locking PHP definitions, and planning builds of what is locked.
-/
import ImageLock.Php.Resolved
import ImageLock.Plan
import ImageLock.Request

namespace ImageLock.Php

namespace Error

def ofAccess {α : Type} (act : Act AccessError α) : Act Error α := act.mapError .access

def ofPackages {α : Type} (act : Act PackageError α) : Act Error α := act.mapError .packages

def ofExtensions {α : Type} (act : Act ExtensionError α) : Act Error α :=
  act.mapError .extension

end Error

/-- The requirements of the project in a context. -/
def requirements (world : World) (context : Context) : Act Error VersionMap :=
  (platformRequirements world.backend context).mapError .ofPlatform

/-- What a stage locks. Parts that are not looked up again stay as they were,
if the stage was locked before. -/
def lockStage (world : World) (refresh : Refresh) (image : String) (os : OsRelease)
    (previous : Option StageLocks) (resolved : Resolved) : Act Error StageLocks := do
  let systemPackages ← match previous, refresh.packages with
    | some previous, false => pure previous.systemPackages
    | _, _ => Error.ofPackages (world.resolvePackages image os resolved.stage.systemPackages)
  let extensions ← match previous, refresh.extensions with
    | some previous, false => pure previous.extensions
    | _, _ => Error.ofExtensions (world.lockExtensions resolved.stage.extensions)
  return { systemPackages, extensions }

/-- Locks stages in the order of their names. -/
def lockStages (world : World) (refresh : Refresh) (d : Definition) (image : String)
    (os : OsRelease) (required : VersionMap) :
    List String → Act Error (List (String × StageLocks))
  | [] => return []
  | name :: names => do
      let resolved ← Act.ofExcept (d.resolveStage name required os.family)
      let locks ← lockStage world refresh image os (d.locks.stages.find? name) resolved
      return (name, locks) :: (← lockStages world refresh d image os required names)

def lockDefinition (world : World) (request : Request) (refresh : Refresh)
    (definition : ImageLock.Definition) : Act Error Locks := do
  let d ← Act.ofExcept (Definition.ofDefinition definition)
  let (image, os) ← Error.ofAccess
    (world.lockImage refresh.image (d.locks.image, d.locks.os) d.baseImage)
  let source ← Error.ofAccess (world.lockSource d.source)
  let required ← requirements world (source.getD request.context)
  let stages ← lockStages world refresh d image os required d.stages.keys
  return { image, os, source, stages := Names.ofList stages }

/-- The stage of a request as its locks let it be. -/
def resolve (world : World) (request : Request) (definition : ImageLock.Definition) :
    Act Error (Definition × Resolved) := do
  let d ← Act.ofExcept (Definition.ofDefinition definition)
  let required ← requirements world (d.locks.source.getD request.context)
  return (d, ← Act.ofExcept (d.resolveStage request.stage required d.locks.os.family))

def withDumpOptions (plan : BuildPlan) (resolved : Resolved) : Except Error BuildPlan :=
  if resolved.isDev then .ok plan
  else resolved.dumpOptions.map fun options =>
    plan.withArgument "composer_dump_flags" options

def withHealthcheck (plan : BuildPlan) (resolved : Resolved) : BuildPlan :=
  match resolved.healthcheck? with
  | some config => plan.withArgument "healthcheck" (Json.texts config.test).compact
  | none => plan

def kind : String := "php"

def plan (world : World) (request : Request) (definition : ImageLock.Definition) :
    Act Error BuildPlan := do
  let (d, resolved) ← resolve world request definition
  match d.locks.stages.find? request.stage with
  | none => Act.fail (.noLocks request.stage)
  | some locks =>
      let plan := BuildPlan.make kind request.stage d.locks.image
        (d.locks.source.getD request.context) resolved.isDev (Json.ofNode resolved.toNode)
        (Json.ofNode locks.toNode)
      let plan ← Act.ofExcept (withDumpOptions plan resolved)
      return withHealthcheck plan resolved

/-- The configuration of a stage, for show. -/
def config (world : World) (request : Request) (definition : ImageLock.Definition) :
    Act Error Node := do
  return (← resolve world request definition).2.toNode

end ImageLock.Php
