/-
Planning builds, of the stages of a definition and of the webserver inside it.
-/
import ImageLock.Kind
import ImageLock.Load
import ImageLock.Registry
import ImageLock.Yaml.Print

namespace ImageLock

inductive BuildError where
  | load (error : LoadError)
  | unknownKind (error : UnknownKind)
  | kind (error : KindError)
  | definition (error : DefinitionError)
  | outOfSync
  | noEmbeddedWebserver (kind : String)
  | webserverFromDev (stage : String)
  | remoteContext (context : String)
  | write (path : String)
deriving DecidableEq, Repr

namespace BuildError

def message : BuildError → String
  | .load error => error.message
  | .unknownKind error => error.message
  | .kind error => error.message
  | .definition error => error.message
  | .outOfSync =>
      "your lockfile is out-of-sync with your definition file, please run \x60zbuild update\x60"
  | .noEmbeddedWebserver name =>
      "you can't call a webserver stage from a " ++ name ++
        " kind as it doesn't embed webserver definition"
  | .webserverFromDev stage => "webserver cannot be built from dev stage " ++ Text.quoted stage
  | .remoteContext context => "can't write the lock file of remote context " ++ context
  | .write path => "could not write " ++ path

def causes : BuildError → List String
  | .load error => error.causes
  | .kind error => error.causes
  | .definition error => error.causes
  | _ => []

end BuildError

/-- The kinds that there are. -/
def Kind.registry : Registry Kind :=
  ((Registry.empty.register Php.kind .php true).register NodeJs.kind .nodeJs true).register
    Webserver.kind .webserver false

/-- Locks belong to a definition if they hold its hash. -/
def checkLockSync (d : Definition) : Except BuildError Unit := do
  let hash ← d.hash.mapError .definition
  if d.lockedHash? == some hash then return () else throw .outOfSync

/-- What the names of stages of embedded webservers begin with. -/
def webserverStageLead : String := "webserver-"

namespace Build

def loadDefinition (world : World) (request : Request) : Act BuildError Definition :=
  (load world.backend request).mapError .load

def findKind (registry : Registry Kind) (name : String) : Except BuildError Kind :=
  (registry.find name).mapError .unknownKind

/-- A kind that can hold a webserver. -/
def findEmbedding (registry : Registry Kind) (name : String) : Except BuildError Kind := do
  let kind ← findKind registry name
  if registry.embedsWebserver name then return kind else throw (.noEmbeddedWebserver name)

def planWith (kind : Kind) (world : World) (request : Request) (d : Definition) :
    Act BuildError BuildPlan :=
  (kind.plan world request d).mapError .kind

/-- The plan of a stage. A webserver copies from the production stage whose
name follows the lead. -/
def plan (registry : Registry Kind) (world : World) (request : Request) :
    Act BuildError BuildPlan := do
  let d ← loadDefinition world request
  Act.ofExcept (checkLockSync d)
  match Text.after? webserverStageLead request.stage with
  | none => planWith (← Act.ofExcept (findKind registry d.kind)) world request d
  | some stage =>
      let kind ← Act.ofExcept (findEmbedding registry d.kind)
      let parent ← planWith kind world { request with stage } d
      if parent.isDev then Act.fail (.webserverFromDev stage)
      else
        let serverKind ← Act.ofExcept (findKind registry Webserver.kind)
        let request := { request with stage := Webserver.kind }
        return (← planWith serverKind world request d.webserver).withSource parent

/-- The configuration of a stage, or of the webserver. -/
def config (registry : Registry Kind) (world : World) (request : Request) :
    Act BuildError Node := do
  let d ← loadDefinition world request
  if Text.startsWith webserverStageLead request.stage then
    let _ ← Act.ofExcept (findEmbedding registry d.kind)
    let serverKind ← Act.ofExcept (findKind registry Webserver.kind)
    let request := { request with stage := Webserver.kind }
    (serverKind.config world request d.webserver).mapError .kind
  else
    let kind ← Act.ofExcept (findKind registry d.kind)
    (kind.config world request d).mapError .kind

/-- The same as a document. -/
def configText (registry : Registry Kind) (world : World) (request : Request) :
    Act BuildError String := do
  return Yaml.print (← config registry world request)

end Build
end ImageLock
