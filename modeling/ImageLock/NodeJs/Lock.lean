/-
Locking Node.js definitions, and planning builds of what is locked.
-/
import ImageLock.NodeJs.Definition
import ImageLock.Plan
import ImageLock.Request

namespace ImageLock.NodeJs

/-- The tool that installs the dependencies of a project. -/
inductive Installer where
  | yarn
  | npm
deriving DecidableEq, Repr

namespace Installer

def name : Installer → String
  | .yarn => "yarn"
  | .npm => "npm"

def command : Installer → String
  | .yarn => "yarn install --frozen-lockfile"
  | .npm => "npm ci"

def lockFiles : List (String × Installer) := [("yarn.lock", .yarn), ("package-lock.json", .npm)]

/-- The tool of the first lock file that is there. -/
def detectAmong (backend : Backend) (source : Source) :
    List (String × Installer) → Act AccessError Installer
  | [] => return .yarn
  | (file, installer) :: rest => do
      match ← Act.attempt (Act.ofReply (backend.read file source)) with
      | .ok _ => return installer
      | .error error =>
          if error.isNotFound then detectAmong backend source rest else Act.fail error

def detect (backend : Backend) (context : Context) : Act AccessError Installer :=
  detectAmong backend (.buildContext context) lockFiles

end Installer

namespace Error

def ofAccess {α : Type} (act : Act AccessError α) : Act Error α := act.mapError .access

def ofPackages {α : Type} (act : Act PackageError α) : Act Error α := act.mapError .packages

end Error

/-- What a stage locks. Packages that are not looked up again stay as they
were, if the stage was locked before. -/
def lockStage (world : World) (refresh : Refresh) (image : String) (os : OsRelease)
    (previous : Option StageLocks) (resolved : Resolved) : Act Error StageLocks := do
  let systemPackages ← match previous, refresh.packages with
    | some previous, false => pure previous.systemPackages
    | _, _ => Error.ofPackages (world.resolvePackages image os resolved.stage.systemPackages)
  return { systemPackages }

/-- Locks stages in the order of their names. -/
def lockStages (world : World) (refresh : Refresh) (d : Definition) (image : String)
    (os : OsRelease) : List String → Act Error (List (String × StageLocks))
  | [] => return []
  | name :: names => do
      let resolved ← Act.ofExcept (d.resolveStage name)
      let locks ← lockStage world refresh image os (d.locks.stages.find? name) resolved
      return (name, locks) :: (← lockStages world refresh d image os names)

def lockDefinition (world : World) (refresh : Refresh) (definition : ImageLock.Definition) :
    Act Error Locks := do
  let d ← Act.ofExcept (Definition.ofDefinition definition)
  let (image, os) ← Error.ofAccess
    (world.lockImage refresh.image (d.locks.image, d.locks.os) d.baseImage)
  let source ← Error.ofAccess (world.lockSource d.source)
  let stages ← lockStages world refresh d image os d.stages.keys
  return { image, os, source, stages := Names.ofList stages }

def kind : String := "nodejs"

def plan (world : World) (request : Request) (definition : ImageLock.Definition) :
    Act Error BuildPlan := do
  let d ← Act.ofExcept (Definition.ofDefinition definition)
  let resolved ← Act.ofExcept (d.resolveStage request.stage)
  match d.locks.stages.find? request.stage with
  | none => Act.fail (.noLocks request.stage)
  | some locks =>
      let context := d.locks.source.getD request.context
      let installer ← Error.ofAccess (Installer.detect world.backend context)
      let plan := (BuildPlan.make kind request.stage d.locks.image context resolved.isDev
        (Json.ofNode resolved.toNode) (Json.ofNode locks.toNode))
        |>.withArgument "package_manager" installer.name
        |>.withArgument "install_command" installer.command
      return if resolved.isDev then plan else plan.withArgument "node_env" "production"

/-- The configuration of a stage, for show. -/
def config (request : Request) (definition : ImageLock.Definition) : Act Error Node := do
  let d ← Act.ofExcept (Definition.ofDefinition definition)
  return (← Act.ofExcept (d.resolveStage request.stage)).toNode

end ImageLock.NodeJs
