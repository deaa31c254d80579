/-
Locking webservers, and planning builds of what is locked.
-/
import ImageLock.Plan
import ImageLock.Request
import ImageLock.Webserver.Definition

namespace ImageLock.Webserver

/-- Packages that are locked stay, unless they are to be looked up again. -/
def lockPackages (world : World) (refresh : Refresh) (image : String) (os : OsRelease)
    (previous wanted : VersionMap) : Act Error VersionMap :=
  if refresh.packages || previous.isEmpty then
    (world.resolvePackages image os wanted).mapError .packages
  else pure previous

def lockDefinition (world : World) (refresh : Refresh) (definition : ImageLock.Definition) :
    Act Error Locks := do
  let (d, previous) ← Act.ofExcept (Definition.ofDefinition definition)
  let (image, os) ←
    (world.lockImage refresh.image (previous.image, previous.os) d.server.image).mapError
      .access
  let systemPackages ←
    lockPackages world refresh image os previous.systemPackages d.systemPackages
  return { image, os, systemPackages }

def kind : String := "webserver"

def plan (request : Request) (definition : ImageLock.Definition) : Except Error BuildPlan := do
  let (d, locks) ← Definition.ofDefinition definition
  if locks.image.isEmpty then throw .noLocks
  let plan := BuildPlan.make kind kind locks.image request.context false
    (Json.ofNode d.toNode) (Json.ofNode locks.toNode)
  return plan.withArgument "config_path" d.server.configPath

/-- The configuration of a webserver, for show. -/
def config (definition : ImageLock.Definition) : Except Error Node := do
  return (← Definition.ofDefinition definition).1.toNode

end ImageLock.Webserver
