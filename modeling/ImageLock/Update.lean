/-
Updating lock files.
-/
import ImageLock.Build
import ImageLock.Disk

namespace ImageLock

/-- What an update wrote: where, the hash of the definition, and which entries
of the lock file are new. -/
structure UpdateReport where
  path : String
  hash : String
  updated : List String
  unchanged : List String
deriving DecidableEq, Repr

namespace UpdateReport

def changed (report : UpdateReport) : Bool := !report.updated.isEmpty

/-- The owner writes a lock file, and the group reads it. -/
def fileMode : Nat := 0o640

end UpdateReport

namespace Update

/-- The lock file in the directory of a local context. -/
def lockPath (backend : Backend) (request : Request) : Except BuildError String :=
  match backend.directory request.context with
  | some directory => .ok (Path.join directory request.lockFile)
  | none => .error (.remoteContext request.context.display)

/-- Whether a kind holds a webserver in this definition. -/
def holdsWebserver (registry : Registry Kind) (d : Definition) : Bool :=
  registry.embedsWebserver d.kind && d.config.has Definition.webserverField

def embedWebserver (locks webserver : Fields) : Fields :=
  locks.insert Definition.webserverField (.map webserver)

def lockWith (kind : Kind) (world : World) (request : Request) (refresh : Refresh)
    (d : Definition) : Act BuildError Fields :=
  (kind.lock world request refresh d).mapError .kind

/-- The locks of a definition and of the webserver inside it. -/
def locks (registry : Registry Kind) (world : World) (request : Request) (refresh : Refresh)
    (d : Definition) : Act BuildError Fields := do
  let kind ← Act.ofExcept (Build.findKind registry d.kind)
  let locks ← lockWith kind world request refresh d
  if holdsWebserver registry d then
    let serverKind ← Act.ofExcept (Build.findKind registry Webserver.kind)
    return embedWebserver locks (← lockWith serverKind world request refresh d.webserver)
  else return locks

def entryName? (entry : Node × Node) : Option String :=
  match entry.1 with
  | .text name => if name == Definition.hashField then none else some name
  | _ => none

/-- Whether an entry was there before with the same value. -/
def isKept (previous : Fields) (entry : Node × Node) : Bool :=
  (List.find? (fun e => e.1.same entry.1) previous).any fun e => e.2.same entry.2

def sortedNames (entries : List (Node × Node)) : List String :=
  (entries.filterMap entryName?).mergeSort (· ≤ ·)

/-- The names of new entries and of those that stay, without the hash. -/
def compare (previous current : Fields) : List String × List String :=
  (sortedNames (List.filter (fun e => !isKept previous e) current),
    sortedNames (List.filter (isKept previous) current))

/-- The lock file of a definition with its path, not written yet. -/
def prepare (registry : Registry Kind) (world : World) (request : Request) (refresh : Refresh) :
    Act BuildError (UpdateReport × Fields) := do
  let path ← Act.ofExcept (lockPath world.backend request)
  let d ← Build.loadDefinition world request
  let locks ← locks registry world request refresh d
  let hash ← Act.ofExcept (d.hash.mapError .definition)
  let locks := locks.insert Definition.hashField (.text hash)
  let (updated, unchanged) := compare d.locks locks
  return ({ path, hash, updated, unchanged }, locks)

def content (locks : Fields) : ByteArray := (Yaml.print (.map locks)).toUTF8

/-- Puts a file in place of another, or where there is none. Its directory must
be there. -/
def put (disk : Disk) (path : String) (content : ByteArray) : Except BuildError Disk :=
  match disk.look (Path.parent path), disk.look path with
  | .directory, .file _ | .directory, .missing => .ok (disk.write path content)
  | _, _ => .error (.write path)

/-- Updates the lock file of a request. The disk changes with success only. -/
def run (registry : Registry Kind) (world : World) (disk : Disk) (request : Request)
    (refresh : Refresh) : Act BuildError (UpdateReport × Disk) := do
  let (report, locks) ← prepare registry world request refresh
  return (report, ← Act.ofExcept (put disk report.path (content locks)))

end Update
end ImageLock
