/-
Where the files of a build come from: a local directory, or a repository at a
reference, seen from one of its directories.
-/
import ImageLock.Decode
import ImageLock.Text.Cut
import ImageLock.Text.Quoted

namespace ImageLock

inductive ContextKind where
  | local
  | git
deriving DecidableEq, Repr

def ContextKind.name : ContextKind → String
  | .local => "local"
  | .git => "git"

structure Context where
  kind : ContextKind
  source : String
  reference : String
  path : String
deriving DecidableEq, Repr

inductive ContextError where
  | unknownKind (kind : String)
  | emptySource
deriving DecidableEq, Repr

namespace Context

def ofDirectory (source : String) : Context := ⟨.local, source, "", ""⟩

def isGit (c : Context) : Bool := c.kind == .git

def isLocal (c : Context) : Bool := c.kind == .local

def validate (c : Context) : Except ContextError Context :=
  if c.source.isEmpty then .error .emptySource else .ok c

/-- `source#reference:path`; what is missing is empty. -/
def ofAddress (address : String) : Context :=
  let (source, fragment) := (Text.cut '#' address).getD (address, "")
  let (reference, path) := (Text.cut ':' fragment).getD (fragment, "")
  ⟨.git, source, reference, path⟩

/-- Reads a source. Without a kind, `git://` in front tells a repository. -/
def parse (source : String) (kind : Option String) : Except ContextError Context :=
  match kind with
  | some "git" => (ofAddress source).validate
  | some "local" => (ofDirectory source).validate
  | some other => .error (.unknownKind other)
  | none =>
      if Text.startsWith "git://" source then (ofAddress source).validate
      else (ofDirectory source).validate

def display (c : Context) : String :=
  match c.kind with
  | .local => c.source
  | .git =>
      let fragment :=
        if c.reference.isEmpty && c.path.isEmpty then "" else "#" ++ c.reference
      c.source ++ fragment ++ (if c.path.isEmpty then "" else ":" ++ c.path)

def fieldText (name value : String) : List (String × Node) :=
  if value.isEmpty then [] else [(name, .text value)]

def toNode (c : Context) : Node :=
  .record ([("type", .text c.kind.name), ("source", .text c.source)] ++
    fieldText "reference" c.reference ++ fieldText "path" c.path)

open Decode in
def read : Reader Context := fun node => do
  let kind := variant [("local", ContextKind.local), ("git", .git)]
  let fields ← record
    [optional "type" kind, required "source" text, optional "reference" text,
      optional "path" text] node
  return {
    kind := ← get fields "type" kind .local
    source := ← need fields "source" text
    reference := ← get fields "reference" text ""
    path := ← get fields "path" text "" }

end Context

def ContextError.message : ContextError → String
  | .unknownKind kind =>
      "invalid context type " ++ Text.quoted kind ++
        ": only \"local\" and \"git\" are supported"
  | .emptySource => "invalid context: context source is empty"

end ImageLock
