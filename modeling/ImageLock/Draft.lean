/-
Replacing a file at once. New content is written to a draft beside the file,
which is then moved to its place, so that the file is never seen in part. A
draft that cannot be moved there is removed.
-/
import ImageLock.Path

namespace ImageLock

/-- What is done with files. A step answers whether it came off. -/
structure FileTools (m : Type → Type) where
  /-- Makes an empty file where there is nothing. -/
  create : String → m Bool
  fill : String → ByteArray → m Bool
  /-- Lets the owner write a file, and the group read it. -/
  permit : String → m Bool
  /-- Moves a file to another path at once. -/
  move : String → String → m Bool
  remove : String → m Unit

namespace Draft

/-- A draft of a file, in the directory of the file. -/
def beside (path name : String) : String := Path.join (Path.parent path) name

variable {m : Type → Type} [Monad m]

/-- What is done with a draft that is there. -/
def finish (tools : FileTools m) (draft path : String) (content : ByteArray) : m Bool := do
  if ← tools.fill draft content then
    if ← tools.permit draft then tools.move draft path
    else return false
  else return false

def replace (tools : FileTools m) (draft path : String) (content : ByteArray) : m Bool := do
  if ← tools.create draft then
    if ← finish tools draft path content then return true
    else
      tools.remove draft
      return false
  else return false

end Draft
end ImageLock
