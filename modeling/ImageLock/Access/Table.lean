/-
A backend whose answers are listed.
-/
import ImageLock.Access.Basic
import ImageLock.Names

namespace ImageLock

/-- What a command in an image does. -/
structure Execution where
  image : String
  command : String
  stdout : String
  code : Int
  stderr : String

/-- Listed answers. A file is listed by its source and path. -/
structure AnswerTable where
  files : List ((String × String) × ByteArray)
  unreadable : List (String × String)
  executions : List Execution
  images : Names String

namespace AnswerTable

def read (t : AnswerTable) (path : String) (source : Source) : Except AccessError ByteArray :=
  let place := (source.display, path)
  if t.unreadable.contains place then .error (.unreadable path)
  else match t.files.find? fun f => f.1 == place with
    | some (_, content) => .ok content
    | none => .error (.fileNotFound path source.display)

/-- A command that is not listed is unknown to the image. -/
def run (t : AnswerTable) (image command : String) : Except AccessError String :=
  match t.executions.find? fun e => e.image == image && e.command == command with
  | some e =>
      if e.code = 0 then .ok e.stdout
      else .error (.exitStatus image command (some e.code) e.stdout e.stderr)
  | none => .error (.exitStatus image command (some 127) "" "unexpected command")

def pin (t : AnswerTable) (image : String) : Except AccessError String :=
  match t.images.find? image with
  | some pinned => .ok pinned
  | none => .error (.imageReference image "unknown image")

def write (t : AnswerTable) (source path : String) (content : ByteArray) : AnswerTable :=
  { t with files := ((source, path), content) :: t.files.filter fun f => f.1 != (source, path) }

def delete (t : AnswerTable) (source path : String) : AnswerTable :=
  { t with files := t.files.filter fun f => f.1 != (source, path) }

/-- Nothing is asked once the work is cancelled. -/
def guarded {α : Type} (isCancelled : Bool) (words : List String)
    (result : Except AccessError α) : Reply AccessError α :=
  if isCancelled then (.error .cancelled, []) else (result, [.call words])

def backend (t : AnswerTable) (isCancelled : Bool) : Backend where
  read path source :=
    guarded isCancelled ["read", source.display, path] (t.read path source)
  run image commands :=
    let command := Text.join "; " commands
    guarded isCancelled ["exec", image, command] (t.run image command)
  pin image := guarded isCancelled ["resolve", image] (t.pin image)
  directory context := if context.isLocal then some context.source else none

end AnswerTable
end ImageLock
