/-
Where the program finds itself: the architecture of packages, and the
directory for stored files.
-/
import ImageLock.Path

namespace ImageLock

/-- Architectures with packages. -/
inductive Arch where
  | amd64
  | arm64
deriving DecidableEq, Repr

namespace Arch

def name : Arch → String
  | .amd64 => "amd64"
  | .arm64 => "arm64"

def ofName? : String → Option Arch
  | "amd64" => some .amd64
  | "arm64" => some .arm64
  | _ => none

end Arch

namespace Place

/-- The directory for stored files, told by variables of the environment: one
of its own, the general one, or a place below the home directory. -/
def cacheDirectory (read : String → Option String) : String :=
  match read "ZBUILD_CACHE_DIR" with
  | some directory => if directory.isEmpty then general else directory
  | none => general
where
  general : String :=
    let home := (read "HOME").getD ""
    Path.join ((read "XDG_CACHE_HOME").getD (Path.join home ".cache")) "zbuild"

end Place
end ImageLock
