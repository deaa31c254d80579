/-
What a program can ask: contexts and images, package versions, and the
releases of extensions.
-/
import ImageLock.Access.Repository
import ImageLock.Access.System
import ImageLock.Extensions.Lock
import ImageLock.Packages.Resolve

namespace ImageLock

structure World where
  backend : Backend
  isCancelled : Bool
  packages : PackageSources
  extensions : ExtensionIndex

namespace World

/-- The versions of packages in an image with a system. -/
def resolvePackages (world : World) (image : String) (os : OsRelease) (packages : VersionMap) :
    Act PackageError VersionMap := do
  let source ← Act.ofExcept (world.packages.select os)
  source.resolve world.backend world.isCancelled image packages

def lockExtensions (world : World) (extensions : VersionMap) : Act ExtensionError VersionMap :=
  Extensions.lock world.extensions world.isCancelled extensions

/-- The image that is locked already, unless it is to be looked up again or
there is none. -/
def lockImage (world : World) (refresh : Bool) (locked : String × OsRelease) (image : String) :
    Act AccessError (String × OsRelease) :=
  if refresh || locked.1.isEmpty then ImageLock.lockImage world.backend image else pure locked

/-- The context of the source pinned to a revision, if it has its own. -/
def lockSource (world : World) (source : Option Context) : Act AccessError (Option Context) :=
  match source with
  | some context => do return some (← GitContext.lock world.backend context)
  | none => pure none

end World
end ImageLock
