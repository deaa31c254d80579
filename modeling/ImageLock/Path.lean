/-
Paths of files. A path is a text; its parts are separated by slashes, and a
part that is empty or a single dot means nothing but at the front.
-/
import ImageLock.Text.Cut

namespace ImageLock.Path

/-- `inner` seen from `outer`. A path with a slash in front stands alone. -/
def join (outer inner : String) : String :=
  if inner.toList.head? == some '/' || outer.isEmpty then inner
  else if outer.toList.getLast? == some '/' then outer ++ inner
  else outer ++ "/" ++ inner

/-- Drops slashes and lone dots from the end of a path in reverse. -/
def dropTail : List Char → List Char
  | '/' :: rest => dropTail rest
  | '.' :: '/' :: rest => dropTail ('/' :: rest)
  | rest => rest

/-- The directory part, with its slash, and the name of a file. -/
def splitName (path : String) : Option (List Char × List Char) :=
  let reversed := dropTail path.toList.reverse
  let name := (reversed.takeWhile (· != '/')).reverse
  if name.isEmpty || name == ['.'] || name == ['.', '.'] then none
  else some ((reversed.drop name.length).reverse, name)

/-- The directory of a path. What has no directory of its own is in the
present one. -/
def parent (path : String) : String :=
  let reversed := path.toList.reverse.dropWhile (· == '/')
  let directory := (reversed.dropWhile (· != '/')).reverse
  if directory.isEmpty then "." else String.ofList directory

/-- A name without its extension. A dot in front begins no extension. -/
def stem (name : List Char) : List Char :=
  match (name.reverse.dropWhile (· != '.')) with
  | [] | ['.'] => name
  | _ :: rest => rest.reverse

/-- Puts another extension on a file. A path that names no file stays, and so
does what is left of a path when the old extension leaves no file: two dots at
the end are the directory above. -/
def withExtension (path extension : String) : String :=
  match splitName path with
  | some (directory, name) =>
      if stem name == ['.'] && directory ++ name == path.toList then
        String.ofList (directory ++ ['.', '.'])
      else String.ofList (directory ++ stem name) ++ "." ++ extension
  | none => path

/-- The parts of a path that name something, and whether it starts at the
root. -/
def parts (path : String) : Bool × List String :=
  let pieces := Text.splitWhere (· == '/') path.toList
  let named := pieces.filter fun piece => !piece.isEmpty && piece != ['.']
  (path.toList.head? == some '/', named.map String.ofList)

end ImageLock.Path
