/-
A backend that runs containers, and reads local contexts from the disk.
-/
import ImageLock.Access.Repository
import ImageLock.Disk
import ImageLock.Text.Utf8

namespace ImageLock

/-- What a finished command leaves. A killed one has no exit code. -/
structure Output where
  code : Option Int
  stdout : ByteArray
  stderr : ByteArray

/-- The container tool: what its calls do, or nothing if it cannot be
started. -/
structure Docker where
  binary : String
  execute : List String → Option Output

namespace Docker

/-- Whether a word can be handed to a command. -/
def canBeWord (word : String) : Bool := !word.toList.contains '\x00'

def invoke (d : Docker) (isCancelled : Bool) (words : List String) : Reply AccessError Output :=
  match if (d.binary :: words).all canBeWord then d.execute words else none with
  | none => (.error (.spawn d.binary), [])
  | some out => (if isCancelled then .error .cancelled else .ok out, [.call words])

def succeeded (out : Output) : Bool := out.code == some 0

def runScript (d : Docker) (isCancelled : Bool) (image : String) (commands : List String) :
    Reply AccessError String :=
  let script := Text.join "; " commands
  let (result, events) := d.invoke isCancelled
    ["run", "--rm", "--entrypoint", "/bin/sh", image, "-o", "errexit", "-c", script]
  let result := result.bind fun out =>
    let stdout := Text.ofBytesLenient out.stdout
    if succeeded out then .ok stdout
    else .error (.exitStatus image script out.code stdout (Text.ofBytesLenient out.stderr))
  (result, events)

def readImage (d : Docker) (isCancelled : Bool) (image path : String) :
    Reply AccessError ByteArray :=
  let (result, events) := d.invoke isCancelled ["run", "--rm", "--entrypoint", "cat", image, path]
  let result := result.bind fun out =>
    let stderr := Text.ofBytesLenient out.stderr
    if succeeded out then .ok out.stdout
    else if Text.contains "No such file or directory" stderr then
      .error (.fileNotFound path (Source.image image).display)
    else
      .error (.exitStatus image ("cat " ++ path) out.code (Text.ofBytesLenient out.stdout) stderr)
  (result, events)

def localPath (root : String) (context : Context) (path : String) : String :=
  Path.join (Path.join root context.source) (GitContext.withoutSlashes path)

def readLocal (disk : Disk) (root : String) (context : Context) (path : String) :
    Except AccessError ByteArray :=
  let full := localPath root context path
  match disk.look full with
  | .file content => .ok content
  | .missing => .error (.fileNotFound path (Source.buildContext context).display)
  | .directory | .blocked => .error (.unreadable full)

/-- The exit code of the version control tool for what it does not find. -/
def gitNotFound : Int := 128

def readGit (d : Docker) (isCancelled : Bool) (context : Context) (path : String) :
    Reply AccessError ByteArray :=
  let (result, events) :=
    d.runScript isCancelled GitContext.image (GitContext.showCommands context path)
  match result with
  | .ok out => (.ok out.toUTF8, events)
  | .error (.exitStatus image command code stdout stderr) =>
      if code = some gitNotFound then
        (.error (.fileNotFound path (Source.buildContext context).display), events)
      else (.error (.exitStatus image command code stdout stderr), events)
  | .error error => (.error error, events)

def noDigest (image : String) : AccessError := .imageReference image "no repo digest found"

def inspectCommand (image : String) : List String :=
  ["image", "inspect", "--format", "\x7b\x7bindex .RepoDigests 0\x7d\x7d", image]

/-- Pins a reference to the digest of the image that it names now. -/
def pin (d : Docker) (isCancelled : Bool) (image : String) : Reply AccessError String :=
  if Text.contains "@sha256:" image then (.ok image, [])
  else
    let (pulled, events) := d.invoke isCancelled ["pull", "--quiet", image]
    match pulled with
    | .error error => (.error error, events)
    | .ok pulled =>
        if !succeeded pulled then
          (.error (.imageReference image (Text.trim (Text.ofBytesLenient pulled.stderr))), events)
        else
          let (inspected, more) := d.invoke isCancelled (inspectCommand image)
          let result := inspected.bind fun out =>
            match Text.cut '@' (Text.trim (Text.ofBytesLenient out.stdout)) with
            | some (_, digest) =>
                if succeeded out then .ok (image ++ "@" ++ digest) else .error (noDigest image)
            | none => .error (noDigest image)
          (result, events ++ more)

def backend (d : Docker) (disk : Disk) (root : String) (isCancelled : Bool) : Backend where
  read path source :=
    match source with
    | .buildContext context =>
        if context.isGit then d.readGit isCancelled context path
        else (readLocal disk root context path, [.look (localPath root context path)])
    | .image reference => d.readImage isCancelled reference path
  run image commands := d.runScript isCancelled image commands
  pin image := d.pin isCancelled image
  directory context := if context.isLocal then some (Path.join root context.source) else none

end Docker
end ImageLock
