/-
Loading the definition and the locks that a request names.
-/
import ImageLock.Access.Act
import ImageLock.Request

namespace ImageLock

inductive LoadError where
  | notFound (file : String)
  | read (file : String) (error : AccessError)
  | definition (error : DefinitionError)
deriving DecidableEq, Repr

namespace LoadError

def message : LoadError → String
  | .notFound file => "zbuildfile " ++ file ++ " not found"
  | .read file error => "could not load " ++ file ++ ": " ++ error.message
  | .definition error => error.message

def causes : LoadError → List String
  | .notFound _ => []
  | .read _ error => error.message :: error.causes
  | .definition error => error.causes

end LoadError

/-- The definition with its locks. Without a lock file there are none. -/
def load (backend : Backend) (request : Request) : Act LoadError Definition := do
  let source := Source.buildContext request.context
  let definition ← match ← Act.attempt (Act.ofReply (backend.read request.file source)) with
    | .ok content =>
        (Act.ofExcept (Definition.parse request.file content)).mapError .definition
    | .error error =>
        if error.isNotFound then Act.fail (.notFound request.file)
        else Act.fail (.read request.file error)
  match ← Act.attempt (Act.ofReply (backend.read request.lockFile source)) with
  | .ok content =>
      (Act.ofExcept (definition.withLocks request.lockFile content)).mapError .definition
  | .error error =>
      if error.isNotFound then return definition
      else Act.fail (.read request.lockFile error)

end ImageLock
