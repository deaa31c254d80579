/-
What a build or an update is asked for.
-/
import ImageLock.Definition
import ImageLock.Path

namespace ImageLock

/-- A definition file in a context, and a stage of it. -/
structure Request where
  file : String
  lockFile : String
  stage : String
  context : Context

namespace Request

/-- The lock file stands beside the definition. -/
def lockPath (file : String) : String := Path.withExtension file "lock"

def make (file context stage : String) : Except ContextError Request := do
  let context ← Context.parse (if context.isEmpty then "." else context) none
  return ⟨file, lockPath file, stage, context⟩

end Request

/-- The parts of a lock file that an update looks up again. -/
structure Refresh where
  image : Bool := true
  packages : Bool := true
  extensions : Bool := true
deriving DecidableEq, Repr

def Refresh.all : Refresh := {}

end ImageLock
