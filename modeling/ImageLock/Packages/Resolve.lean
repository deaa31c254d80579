/-
Resolving the packages of an image, by the means that its system calls for.
-/
import ImageLock.Packages.Apk
import ImageLock.Packages.Apt
import ImageLock.Packages.Depot

namespace ImageLock

/-- Where the versions of packages are found. -/
inductive PackageSource where
  | apt
  | apk
  | depot (depot : Depot)

/-- The source for each package manager, if there is one. -/
structure PackageSources where
  apt : Option PackageSource
  apk : Option PackageSource

namespace PackageSources

def none : PackageSources := ⟨.none, .none⟩

/-- The tools of the images themselves. -/
def tools : PackageSources := ⟨some .apt, some .apk⟩

/-- Debian packages from a depot instead. -/
def withDepot (sources : PackageSources) (depot : Depot) : PackageSources :=
  { sources with apt := some (.depot depot) }

def find? (sources : PackageSources) : PackageManager → Option PackageSource
  | .apt => sources.apt
  | .apk => sources.apk

/-- The source for a system. -/
def select (sources : PackageSources) (os : OsRelease) : Except PackageError PackageSource := do
  let manager ← PackageManager.ofSystem os
  match sources.find? manager with
  | some source => return source
  | Option.none => throw (.unsupportedManager manager)

end PackageSources

def PackageSource.resolve (source : PackageSource) (backend : Backend) (isCancelled : Bool)
    (image : String) (packages : VersionMap) : Act PackageError VersionMap :=
  match source with
  | .apt => Apt.resolve backend image packages
  | .apk => Apk.resolve backend image packages
  | .depot d => d.resolve isCancelled packages

end ImageLock
