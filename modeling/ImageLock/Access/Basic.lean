/-
Asking the outside: contexts and images are read, commands run and image
references pinned through a backend, and every question is recorded.
-/
import ImageLock.Context
import ImageLock.Number.Decimal

namespace ImageLock

/-- Where a file is read from. -/
inductive Source where
  | buildContext (context : Context)
  | image (reference : String)
deriving DecidableEq, Repr

def Source.display : Source → String
  | .buildContext context => "build context " ++ context.display
  | .image reference => "image " ++ reference

inductive AccessError where
  | fileNotFound (path location : String)
  | cancelled
  | spawn (command : String)
  | exitStatus (image command : String) (code : Option Int) (stdout stderr : String)
  | unreadable (path : String)
  | imageReference (image reason : String)
  | noOsRelease (image : String)
  | badOsRelease (image : String)
deriving DecidableEq, Repr

namespace AccessError

def isNotFound : AccessError → Bool
  | .fileNotFound .. => true
  | _ => false

def codeText : Option Int → String
  | some code => "Some(" ++ Number.intText code ++ ")"
  | none => "None"

def badReleaseText : String := "invalid os-release content: no field ID found"

def message : AccessError → String
  | .fileNotFound path location => "file " ++ path ++ " not found in " ++ location
  | .cancelled => "operation cancelled"
  | .spawn command => "failed to run " ++ command
  | .exitStatus image command code _ stderr =>
      "command " ++ Text.quoted command ++ " in " ++ image ++ " exited with code " ++
        codeText code ++ ": " ++ stderr
  | .unreadable path => "could not read " ++ path
  | .imageReference image reason => "could not resolve image " ++ image ++ ": " ++ reason
  | .noOsRelease image => "could not find /etc/os-release in " ++ image
  | .badOsRelease image =>
      "could not parse /etc/os-release from " ++ image ++ ": " ++ badReleaseText

def causes : AccessError → List String
  | .badOsRelease _ => [badReleaseText]
  | _ => []

end AccessError

/-- A question that was asked: a call of a tool or a listed answer, a file of
the disk, the releases of an extension, or an address. -/
inductive Event where
  | call (words : List String)
  | look (path : String)
  | query (extension : String)
  | request (url : String)
deriving DecidableEq, Repr

/-- An answer, with the questions it took. -/
abbrev Reply (ε α : Type) := Except ε α × List Event

/-- Access to contexts and images. `directory` is the directory of a local
context. -/
structure Backend where
  read : String → Source → Reply AccessError ByteArray
  run : String → List String → Reply AccessError String
  pin : String → Reply AccessError String
  directory : Context → Option String

end ImageLock
