/-
Locking extensions to versions.
-/
import ImageLock.Access.Act
import ImageLock.Extensions.Catalog
import ImageLock.Extensions.Index
import ImageLock.VersionMap

namespace ImageLock

inductive ExtensionError where
  | invalidStability (text : String)
  | index (error : IndexError)
  | invalidConstraint (name constraint : String)
  | notFound (name constraint : String) (stability : Stability)
deriving DecidableEq, Repr

namespace Extensions

/-- A constraint, and the least stability after its at sign. -/
def splitStability (constraint : String) : Except ExtensionError (String × Stability) :=
  match Text.cut '@' constraint with
  | none => .ok (constraint, .stable)
  | some (constraint, name) =>
      match Stability.ofName? name with
      | some stability => .ok (constraint, stability)
      | none => .error (.invalidStability name)

/-- The version of one extension. Those of the runtime keep their constraint,
and exact versions stand for themselves. -/
def lockOne (index : ExtensionIndex) (isCancelled : Bool) (name constraint : String) :
    Act ExtensionError String := do
  if isCore name then return constraint
  let (constraint, stability) ← Act.ofExcept (splitStability constraint)
  if Constraint.isExact constraint then return constraint
  let releases ← (Act.ofReply (index isCancelled name)).mapError .index
  match Release.select releases constraint stability with
  | none => Act.fail (.invalidConstraint name constraint)
  | some none => Act.fail (.notFound name constraint stability)
  | some (some version) => return version

def lockEntries (index : ExtensionIndex) (isCancelled : Bool) :
    List (String × String) → Act ExtensionError (List (String × String))
  | [] => return []
  | (name, constraint) :: rest => do
      let version ← lockOne index isCancelled name constraint
      return (name, version) :: (← lockEntries index isCancelled rest)

/-- The versions of extensions, looked up in the order of their names. -/
def lock (index : ExtensionIndex) (isCancelled : Bool) (extensions : VersionMap) :
    Act ExtensionError VersionMap := do
  return VersionMap.ofList (← lockEntries index isCancelled extensions.entries)

end Extensions
end ImageLock
