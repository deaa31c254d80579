/-
The command line. The disk is brought in as far as a command looks at it, and
what the command wrote is written at the end. Nothing here can start the
container tool or reach a network.
-/
import ImageLock.Command.Run
import ImageLock.Draft

namespace ImageLock.Command

/-- What a path leads through, the longest last. -/
def leads (path : String) : List String :=
  let pieces := Disk.pieces path
  (List.range pieces.length).map fun n => Text.join "/" (pieces.take n)

/-- Adds what is at a path. What is there but is no file that can be read
counts as a directory. -/
def observe (disk : Disk) (path : String) : IO Disk := do
  try
    let content ← IO.FS.readBinFile path
    return ((leads path).foldl Disk.addDirectory disk).write path content
  catch
    | .noFileOrDirectory .. => return disk
    | _ => return disk.addDirectory path

/-- The paths that a command looked at. -/
def looks (trail : Trail) : List String :=
  (trail.events.filterMap fun event => match event with
    | .look path => some path
    | _ => none).eraseDups

/-- The surroundings of a command that began at a time in milliseconds. -/
def surroundings (start : Nat) : IO Surroundings := do
  let elapsed := (← IO.monoMsNow) - start
  return {
    docker := fun binary => ⟨binary, fun _ => none⟩
    transport := Transport.unreachable
    hostArch := .amd64
    elapsed := ⟨elapsed / 1000, elapsed % 1000 * 1000000⟩ }

/-- Runs a command until all that it looks at is known: the disk that it saw,
and its outcome. `fuel` bounds the number of looks. -/
def settle (start : Nat) (arguments : List String) :
    Nat → List String → Disk → IO (Disk × Outcome)
  | 0, _, disk => return (disk, run (← surroundings start) disk .empty arguments)
  | fuel + 1, known, disk => do
      let outcome := run (← surroundings start) disk .empty arguments
      match (looks outcome.trail).filter fun path => !known.contains path with
      | [] => return (disk, outcome)
      | paths => settle start arguments fuel (paths ++ known) (← paths.foldlM observe disk)

/-- More looks than any command takes. -/
def lookLimit : Nat := 64

/-- The files that a command wrote. -/
def written (before after : Disk) : List (String × ByteArray) :=
  after.files.entries.filter fun (place, content) =>
    ((before.files.find? place).map (·.data)) != some content.data

/-- The owner writes a file, and the group reads it. -/
def rights : IO.FileRight :=
  { user := { read := true, write := true }, group := { read := true } }

/-- Whether something came off. -/
def comesOff (act : IO Unit) : IO Bool := do
  try
    act
    return true
  catch _ => return false

def fileTools : FileTools IO where
  create path := comesOff do let _ ← IO.FS.Handle.mk path .writeNew
  fill path content := comesOff (IO.FS.writeBinFile path content)
  permit path := comesOff (IO.setAccessRights path rights)
  move old new := comesOff (IO.FS.rename old new)
  remove path := do let _ ← comesOff (IO.FS.removeFile path)

/-- Puts a file in place at once, through a draft with a name of its own. -/
def put (place : String) (content : ByteArray) : IO Bool := do
  let name := ".zbuild-" ++ toString (← IO.monoNanosNow)
  Draft.replace fileTools (Draft.beside place name) place content

/-- Runs the command line, and answers with its exit code. -/
def runMain (arguments : List String) : IO UInt32 := do
  let start ← IO.monoMsNow
  let home := (← IO.currentDir).toString
  let (before, outcome) ← settle start arguments lookLimit [] (Disk.empty home)
  for (place, content) in written before outcome.disk do
    if !(← put place content) then
      IO.eprint (failureText (BuildError.write place).message [])
      return 1
  IO.print outcome.stdout
  IO.eprint outcome.stderr
  return outcome.code

end ImageLock.Command

def main (arguments : List String) : IO UInt32 := ImageLock.Command.runMain arguments
