/-
The extensions that the dependencies of a project require.
-/
import ImageLock.Access.Act
import ImageLock.Document.JsonReader
import ImageLock.VersionMap

namespace ImageLock.Php

/-- Why requirements cannot be told. -/
inductive PlatformError where
  | access (error : AccessError)
  | undecodable
deriving DecidableEq, Repr

def lockFile : String := "composer.lock"

/-- The extension that a platform entry requires; others are not extensions. -/
def requirement? (entry : String × Json) : Option (String × String) :=
  match Text.after? "ext-" entry.1, entry.2 with
  | some extension, .text constraint => some (extension, constraint)
  | _, _ => none

/-- Of two fields of one name the last one counts. -/
def lastFields (fields : List (String × Json)) : List (String × Json) :=
  (Names.ofList fields).entries

def platformOf (platform : Option Json) : VersionMap :=
  match platform with
  | some (.object fields) => VersionMap.ofList ((lastFields fields).filterMap requirement?)
  | _ => VersionMap.empty

/-- The requirements in the lock file of a context; without one there are
none. -/
def platformRequirements (backend : Backend) (context : Context) :
    Act PlatformError VersionMap := do
  match ← Act.attempt (Act.ofReply (backend.read lockFile (.buildContext context))) with
  | .error error => if error.isNotFound then return .empty else Act.fail (.access error)
  | .ok content =>
      match JsonReader.fieldOf? "platform" content with
      | some platform => return platformOf platform
      | none => Act.fail .undecodable

end ImageLock.Php
