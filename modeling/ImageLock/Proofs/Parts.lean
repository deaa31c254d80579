/-
The parts of stages. A part of the locks is kept or looked up anew, and a part
that is looked up has all names that its stage shows.
-/
import ImageLock.Proofs.Coverage
import ImageLock.Proofs.Planning
import ImageLock.Proofs.Shown

namespace ImageLock

open Act

/-- The parts of a stage that are locked by themselves. -/
inductive Part where
  | packages
  | extensions

namespace Part

/-- The field of a part, in definitions and in locks. -/
def field : Part → String
  | .packages => "system_packages"
  | .extensions => "extensions"

/-- Whether an update looks a part up in any case. -/
def refreshed (refresh : Refresh) : Part → Bool
  | .packages => refresh.packages
  | .extensions => refresh.extensions

end Part

def Php.StageLocks.part (locks : Php.StageLocks) : Part → VersionMap
  | .packages => locks.systemPackages
  | .extensions => locks.extensions

def Php.Resolved.part (resolved : Php.Resolved) : Part → VersionMap
  | .packages => resolved.stage.systemPackages
  | .extensions => resolved.stage.extensions

namespace Kind

/-- What locks hold for a part of a stage, as a kind reads them. -/
def kept (kind : Kind) (locks : Fields) (part : Part) (name : String) : Option VersionMap :=
  match kind, part with
  | .php, part =>
      match Definition.decodeLocks Php.Locks.read StagedLocks.empty locks with
      | .ok own => (own.stages.find? name).map (·.part part)
      | .error _ => none
  | .nodeJs, .packages =>
      match Definition.decodeLocks NodeJs.Locks.read StagedLocks.empty locks with
      | .ok own => (own.stages.find? name).map (·.systemPackages)
      | .error _ => none
  | _, _ => none

/-- The names that the configuration of a stage shows for a part. -/
def shown (kind : Kind) (world : World) (request : Request) (d : Definition) (part : Part)
    (name : String) : List String :=
  match ((kind.config world { request with stage := name } d).runFrom .empty).1 with
  | .ok config => Json.namesOf part.field (Json.ofNode config).sorted
  | .error _ => []

/-- Whether an update looks a part of a stage up, or keeps it. -/
def looksUp (kind : Kind) (refresh : Refresh) (locks : Fields) (part : Part) (name : String) :
    Bool :=
  part.refreshed refresh || (kind.kept locks part name).isNone

end Kind

/-! What one part comes to. -/

namespace Php

end Php

namespace NodeJs

end NodeJs

/-! What locks keep, and what stages show. -/

namespace Php

end Php

namespace NodeJs

end NodeJs

end ImageLock
