/-
Packages of an operating system: what is pinned already, and what is missing.
-/
import ImageLock.Access.Act
import ImageLock.OsRelease
import ImageLock.VersionMap

namespace ImageLock

/-- The package manager of an operating system. -/
inductive PackageManager where
  | apt
  | apk
deriving DecidableEq, Repr

def PackageManager.name : PackageManager → String
  | .apt => "apt"
  | .apk => "apk"

inductive PackageError where
  | missing (names : List String)
  | access (image : String) (error : AccessError)
  | unsupportedSystem (name : String)
  | unsupportedManager (manager : PackageManager)
  | fetch (url reason : String)
  | unusable (path : String)
  | cancelled
deriving DecidableEq, Repr

namespace PackageError

def message : PackageError → String
  | .missing names => "packages " ++ Text.join ", " names ++ " not found"
  | .access image error =>
      "could not resolve packages in " ++ image ++ ": " ++ error.message
  | .unsupportedSystem name =>
      "unsupported OS " ++ Text.quoted name ++
        ": only debian-based and alpine-based base images are supported"
  | .unsupportedManager manager => "no package solver registered for " ++ manager.name
  | .fetch url reason => "could not fetch " ++ url ++ ": " ++ reason
  | .unusable path => "could not access " ++ path
  | .cancelled => "operation cancelled"

def causes : PackageError → List String
  | .access _ error => error.message :: error.causes
  | _ => []

end PackageError

namespace PackageManager

def ofSystem (os : OsRelease) : Except PackageError PackageManager :=
  if os.name = "debian" ∨ os.name = "ubuntu" then .ok .apt
  else if os.name = "alpine" then .ok .apk
  else .error (.unsupportedSystem os.name)

end PackageManager

namespace Packages

/-- A constraint that any version meets. -/
def isOpen (constraint : String) : Bool := constraint.isEmpty || constraint == "*"

/-- The packages that are pinned to a version. -/
def pinned (packages : VersionMap) : VersionMap :=
  VersionMap.ofList (packages.entries.filter fun (_, constraint) => !isOpen constraint)

/-- The names of the others. -/
def openNames (packages : VersionMap) : List String :=
  (packages.entries.filter fun (_, constraint) => isOpen constraint).map (·.1)

/-- Every package that was asked for must be there. -/
def checkComplete (packages resolved : VersionMap) : Except PackageError Unit :=
  let missing := packages.names.filter fun name => !resolved.has name
  if missing.isEmpty then .ok () else .error (.missing missing)

end Packages
end ImageLock
