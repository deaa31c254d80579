/-
The image of a definition: pinned, and its operating system.
-/
import ImageLock.Access.Act
import ImageLock.OsRelease

namespace ImageLock

def OsRelease.ofImage (backend : Backend) (reference : String) : Act AccessError OsRelease := do
  match ← Act.attempt (Act.ofReply (backend.read "/etc/os-release" (.image reference))) with
  | .error error =>
      if error.isNotFound then Act.fail (.noOsRelease reference) else Act.fail error
  | .ok content =>
      match OsRelease.parse? content with
      | some os => return os
      | none => Act.fail (.badOsRelease reference)

/-- The pinned reference of an image and its system. -/
def lockImage (backend : Backend) (image : String) : Act AccessError (String × OsRelease) := do
  let pinned ← Act.ofReply (backend.pin image)
  return (pinned, ← OsRelease.ofImage backend pinned)

end ImageLock
