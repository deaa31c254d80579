/-
Running a command.
-/
import ImageLock.Access.Docker
import ImageLock.Command.Arguments
import ImageLock.Command.Report

namespace ImageLock.Command

/-- What a command finds: the container tool by the name of its binary, the
network, and how long the command took. -/
structure Surroundings where
  docker : String → Docker
  transport : Transport
  hostArch : Arch
  elapsed : Duration

/-- What a command leaves: its exit code, its texts, the disk, and its
questions. -/
structure Outcome where
  code : UInt32
  stdout : String
  stderr : String
  disk : Disk
  trail : Trail

/-- A failure of a command. -/
structure Failure where
  message : String
  causes : List String

def badRepository (spec : String) : Failure :=
  ⟨"Invalid repository " ++ Text.quoted spec ++ ": expected SUITE=URL", []⟩

def repositoryOf (spec : String) : Except Failure Repository :=
  match Text.cut '=' spec with
  | some (suite, url) =>
      if suite.isEmpty || url.isEmpty then .error (badRepository spec)
      else .ok (Repository.make url suite)
  | none => .error (badRepository spec)

/-- Repositories stand for the tools of the images. -/
def packageSources (s : Surroundings) (repositories : List Repository) (ttl : Duration)
    (arch : Option Arch) : PackageSources :=
  if repositories.isEmpty then PackageSources.tools
  else PackageSources.tools.withDepot
    { repositories, arch := (arch.getD s.hostArch).name, ttl, transport := s.transport }

def requestOf (i : Invocation) (stage : String) : Except Failure Request :=
  (Request.make i.file i.context stage).mapError fun error =>
    ⟨"Invalid build context: " ++ i.context, [error.message]⟩

/-- Local contexts start from the working directory. -/
def worldOf (s : Surroundings) (i : Invocation) (disk : Disk) (packages : PackageSources) :
    World where
  backend := (s.docker i.docker).backend disk "." false
  isCancelled := false
  packages
  extensions := ExtensionIndex.remote s.transport ExtensionIndex.defaultAddress

def failing {α : Type} (message : String) (act : Act BuildError α) : Act Failure α :=
  act.mapError fun error => ⟨message, error.message :: error.causes⟩

def configFailure (stage : String) : String :=
  if Text.startsWith webserverStageLead stage then "Failed to resolve the webserver config"
  else "Failed to resolve stage " ++ Text.quoted stage

/-- What a command prints, and the disk after it. -/
def perform (s : Surroundings) (disk : Disk) (i : Invocation) : Act Failure (String × Disk) :=
  match i.action with
  | .update refresh specs ttl arch => do
      let request ← Act.ofExcept (requestOf i "dev")
      let repositories ← Act.ofExcept (specs.mapM repositoryOf)
      let world := worldOf s i disk (packageSources s repositories ttl arch)
      let (report, disk) ← failing ("Failed to update the locks of " ++ i.file)
        (Update.run Kind.registry world disk request refresh)
      return (unlines (updateLines report s.elapsed), disk)
  | .config stage => do
      let request ← Act.ofExcept (requestOf i stage)
      let world := worldOf s i disk PackageSources.tools
      let text ← failing (configFailure stage) (Build.configText Kind.registry world request)
      return (text, disk)
  | .plan stage format => do
      let request ← Act.ofExcept (requestOf i stage)
      let world := worldOf s i disk PackageSources.tools
      let plan ← failing ("Failed to plan stage " ++ Text.quoted stage)
        (Build.plan Kind.registry world request)
      let text := match format with
        | .json => plan.toJson.pretty 0 ++ "\n"
        | .text => unlines (summaryLines plan)
      return (text, disk)

/-- Runs the command that arguments ask for. -/
def run (s : Surroundings) (disk : Disk) (indexes : IndexStore) (arguments : List String) :
    Outcome :=
  let trail := Trail.start indexes
  match parse arguments with
  | .misuse => ⟨2, "", "error: invalid arguments\n", disk, trail⟩
  | .help => ⟨0, "", "", disk, trail⟩
  | .invocation i =>
      let (result, trail) := (perform s disk i).runFrom { indexes with loaded := none }
      match result with
      | .ok (text, disk) => ⟨0, text, "", disk, trail⟩
      | .error failure => ⟨1, "", failureText failure.message failure.causes, disk, trail⟩

end ImageLock.Command
