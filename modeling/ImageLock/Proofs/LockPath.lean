/-
Where lock files are: the path that a lock file is written to is the one that it
is read from.
-/
import ImageLock.Access.Docker
import ImageLock.Proofs.Disk
import ImageLock.Request

namespace ImageLock

/-! Names at the end of paths. -/

/-- What comes before a name ends in a slash, if there is anything. -/
theorem Disk.ends_of_dropWhile (reversed : List Char) :
    reversed.dropWhile (· != '/') = [] ∨ (reversed.dropWhile (· != '/')).head? = some '/' := by
  cases rest : reversed.dropWhile (· != '/') with
  | nil => exact .inl rfl
  | cons c rest' =>
      right
      have stopped : (reversed.dropWhile (· != '/')).head? = some c := by simp [rest]
      have slash := List.head?_dropWhile_not (· != '/') reversed
      simp only [stopped] at slash
      simpa using slash

theorem Disk.named_of_getLast? {path : String} {last : Char}
    (ends : path.toList.getLast? = some last) (other : last ≠ '/') :
    ∃ directory name, Named path directory name := by
  let reversed := path.toList.reverse
  have first : reversed.head? = some last := by simpa [reversed] using ends
  refine ⟨(reversed.dropWhile (· != '/')).reverse, (reversed.takeWhile (· != '/')).reverse,
    ?_, ?_, ?_, ?_⟩
  · rw [← List.reverse_append, List.takeWhile_append_dropWhile, List.reverse_reverse]
  · intro member
    have kept := List.all_eq_true.mp List.all_takeWhile _ (List.mem_reverse.mp member)
    simp at kept
  · cases tail : reversed with
    | nil => simp [tail] at first
    | cons c rest =>
        have same : c = last := by simpa [tail] using first
        simp [same, other]
  · rw [List.getLast?_reverse, List.reverse_eq_nil_iff]
    exact ends_of_dropWhile reversed

namespace Path

theorem getLast?_join (outer : String) {inner : String} {last : Char}
    (ends : inner.toList.getLast? = some last) :
    (join outer inner).toList.getLast? = some last := by
  have filled : inner.toList ≠ [] := fun empty => by simp [empty] at ends
  unfold join
  split
  · exact ends
  · rw [← ends]
    split <;>
      simp [List.getLast?_append, List.getLast?_cons, List.getLast?_eq_some_getLast filled]

theorem withoutSlashes_of_relative {path : String} (relative : path.toList.head? ≠ some '/') :
    GitContext.withoutSlashes path = path := by
  have stays : path.toList.dropWhile (· == '/') = path.toList := by
    cases chars : path.toList with
    | nil => rfl
    | cons c rest =>
        have other : c ≠ '/' := fun same => relative (by simp [chars, same])
        simp [other]
  simp [GitContext.withoutSlashes, Text.dropStartWhile, stays]

/-! Extensions. -/

theorem dropTail_suffix (reversed : List Char) : dropTail reversed <:+ reversed := by
  fun_induction dropTail reversed with
  | case1 rest ih => exact ih.trans (List.suffix_cons _ _)
  | case2 rest ih => exact ih.trans (List.suffix_cons _ _)
  | case3 reversed => exact List.suffix_refl _

/-- A directory and a name side by side are a path without what was dropped
from its end. -/
theorem splitName_joined {path : String} {directory name : List Char}
    (found : splitName path = some (directory, name)) :
    directory ++ name = (dropTail path.toList.reverse).reverse ∧
      Disk.Named (String.ofList (directory ++ name)) directory name := by
  simp only [splitName] at found
  split at found
  · cases found
  next named =>
    obtain ⟨rfl, rfl⟩ := Prod.mk.inj (Option.some.inj found)
    generalize dropTail path.toList.reverse = reversed at named
    have rest : reversed.drop (reversed.takeWhile (· != '/')).reverse.length =
        reversed.dropWhile (· != '/') := by
      have dropped : (reversed.takeWhile (· != '/') ++ reversed.dropWhile (· != '/')).drop
          (reversed.takeWhile (· != '/')).length = reversed.dropWhile (· != '/') := List.drop_left
      rwa [List.takeWhile_append_dropWhile, ← List.length_reverse] at dropped
    rw [rest]
    refine ⟨?_, by simp, ?_, ?_, ?_⟩
    · rw [← List.reverse_append, List.takeWhile_append_dropWhile]
    · intro member
      have kept := List.all_eq_true.mp List.all_takeWhile _ (List.mem_reverse.mp member)
      simp at kept
    · intro empty
      simp [empty] at named
    · rw [List.getLast?_reverse, List.reverse_eq_nil_iff]
      exact Disk.ends_of_dropWhile reversed

/-- A name and its directory are at the start of their path. -/
theorem splitName_starts {path : String} {directory name : List Char}
    (found : splitName path = some (directory, name)) :
    directory ++ name <+: path.toList ∧ name ≠ [] := by
  obtain ⟨joined, named⟩ := splitName_joined found
  refine ⟨?_, named.named⟩
  rw [joined, ← List.reverse_suffix, List.reverse_reverse]
  exact dropTail_suffix _

theorem stem_starts (name : List Char) : stem name <+: name := by
  unfold stem
  split
  · exact List.prefix_refl _
  · exact List.prefix_refl _
  next rest _ found =>
    have suffix : rest <:+ name.reverse :=
      (List.suffix_cons _ _).trans (found ▸ List.dropWhile_suffix _)
    rw [← List.reverse_suffix, List.reverse_reverse]
    exact suffix

theorem stem_ne_nil {name : List Char} (filled : name ≠ []) : stem name ≠ [] := by
  unfold stem
  split
  · exact filled
  · exact filled
  next c rest notDot found =>
    have dot := List.head?_dropWhile_not (· != '.') name.reverse
    simp only [found, List.head?_cons] at dot
    intro empty
    have last : rest = [] := by simpa using empty
    have same : c = '.' := by simpa using dot
    exact notDot same last

theorem head?_of_starts {front text : List Char} (starts : front <+: text)
    (filled : front ≠ []) : front.head? = text.head? := by
  obtain ⟨rest, rfl⟩ := starts
  cases front with
  | nil => exact absurd rfl filled
  | cons c front => rfl

/-- Putting an extension keeps a path relative. -/
theorem head?_withExtension {path extension : String} (relative : path.toList.head? ≠ some '/') :
    (withExtension path extension).toList.head? ≠ some '/' := by
  unfold withExtension
  split
  next directory name found =>
    obtain ⟨starts, filled⟩ := splitName_starts found
    by_cases here : directory = []
    · subst here
      split
      · simp
      · have same : (stem name).head? = path.toList.head? := by
          rw [head?_of_starts (stem_starts name) (stem_ne_nil filled)]
          exact head?_of_starts starts filled
        rw [String.toList_append, String.toList_append, String.toList_ofList, List.nil_append,
          List.append_assoc, ← head?_of_starts (List.prefix_append _ _) (stem_ne_nil filled), same]
        exact relative
    · have same : directory.head? = path.toList.head? :=
        head?_of_starts ((List.prefix_append _ _).trans starts) here
      split
      · rwa [String.toList_ofList, ← head?_of_starts (List.prefix_append _ _) here, same]
      · rwa [String.toList_append, String.toList_append, String.toList_ofList, List.append_assoc,
          List.append_assoc, ← head?_of_starts (List.prefix_append _ _) here, same]
  next => exact relative

/-- A path that gets an extension ends in it, or in the dots of the directory
above. -/
theorem withExtension_cases (path extension : String) :
    withExtension path extension = path ∨
      (∃ front, (withExtension path extension).toList = front ++ ['.', '.']) ∨
      ∃ front, (withExtension path extension).toList = front ++ '.' :: extension.toList := by
  unfold withExtension
  split
  next directory name _ =>
    right
    split
    · exact .inl ⟨directory, by simp⟩
    · exact .inr ⟨directory ++ stem name, by simp⟩
  next => exact .inl rfl

end Path

/-- A lock file beside its definition has a name of its own, with an extension
or dots at its end. -/
theorem Request.lockFile_ends {request : Request}
    (beside : request.lockFile = lockPath request.file) (other : request.lockFile ≠ request.file) :
    ∃ last, request.lockFile.toList.getLast? = some last ∧ last ≠ '/' := by
  have shape := Path.withExtension_cases request.file "lock"
  rw [← lockPath, ← beside] at shape
  rcases shape with same | ⟨front, dots⟩ | ⟨front, extension⟩
  · exact absurd same other
  · exact ⟨'.', by simp [dots], by decide⟩
  · exact ⟨'k', by simp [extension], by decide⟩

/-! A machine and its lock files. -/

/-- A machine runs containers and has access to packages and extensions. Its
local contexts are below a directory of its disk. -/
structure Machine where
  docker : Docker
  root : String
  isCancelled : Bool
  packages : PackageSources
  extensions : ExtensionIndex

namespace Machine

/-- The world of a machine with a disk. -/
def world (m : Machine) (disk : Disk) : World where
  backend := m.docker.backend disk m.root m.isCancelled
  isCancelled := m.isCancelled
  packages := m.packages
  extensions := m.extensions

variable {m : Machine} {disk disk' : Disk} {request : Request}

theorem lockPath_ok {path : String}
    (placed : Update.lockPath (m.world disk).backend request = .ok path) :
    request.context.isLocal = true ∧
      path = Path.join (Path.join m.root request.context.source) request.lockFile := by
  simp only [Update.lockPath, world, Docker.backend] at placed
  split at placed
  next directory found =>
    split at found
    · cases found
      exact ⟨by assumption, (Except.ok.inj placed).symm⟩
    · cases found
  next => cases placed

theorem isGit_of_isLocal {context : Context} (isLocal : context.isLocal = true) :
    context.isGit = false := by
  have kind : context.kind = .local := by simpa [Context.isLocal] using isLocal
  simp [Context.isGit, kind]

theorem isGit_of_isLocal_false {context : Context} (isLocal : context.isLocal = false) :
    context.isGit = true := by
  cases kind : context.kind <;> simp_all [Context.isLocal, Context.isGit]

theorem read_local {context : Context} (isLocal : context.isLocal = true) (file : String) :
    ((m.world disk).backend.read file (.buildContext context)).1 =
      Docker.readLocal disk m.root context file := by
  simp [world, Docker.backend, isGit_of_isLocal isLocal]

theorem readLocal_ok {root path : String} {context : Context} {content : ByteArray} :
    Docker.readLocal disk root context path = .ok content ↔
      disk.look (Docker.localPath root context path) = .file content := by
  delta Docker.readLocal
  dsimp only
  cases disk.look (Docker.localPath root context path) <;> simp

theorem readLocal_blocked {root path : String} {context : Context}
    (blocked : disk.look (Docker.localPath root context path) = .blocked) :
    Docker.readLocal disk root context path =
      .error (.unreadable (Docker.localPath root context path)) := by
  delta Docker.readLocal
  dsimp only
  rw [blocked]

theorem readLocal_congr {root path : String} {context : Context}
    (same : disk.look (Docker.localPath root context path) =
      disk'.look (Docker.localPath root context path)) :
    Docker.readLocal disk root context path = Docker.readLocal disk' root context path := by
  delta Docker.readLocal
  dsimp only
  rw [same]

/-- Repositories are not on the disk. -/
theorem read_git {context : Context} (isGit : context.isGit = true) (file : String) :
    (m.world disk).backend.read file (.buildContext context) =
      (m.world disk').backend.read file (.buildContext context) := by
  simp [world, Docker.backend, isGit]

/-- A lock file that was written beside its definition. -/
structure Stored (m : Machine) (disk : Disk) (request : Request) (path : String)
    (content : ByteArray) (disk' : Disk) : Prop where
  write : disk' = disk.write path content
  can : disk.CanHold (disk.place path)
  before : disk.look path = disk.at? (disk.place path)
  after : disk'.look path = .file content
  isLocal : request.context.isLocal = true
  path_eq : Docker.localPath m.root request.context request.lockFile = path

theorem stored_of_put {path : String} {content : ByteArray}
    (beside : request.lockFile = Request.lockPath request.file)
    (other : request.lockFile ≠ request.file)
    (relative : request.file.toList.head? ≠ some '/')
    (placed : Update.lockPath (m.world disk).backend request = .ok path)
    (written : Update.put disk path content = .ok disk') :
    Stored m disk request path content disk' := by
  obtain ⟨isLocal, path_eq⟩ := lockPath_ok placed
  -- Reading drops slashes at the start of a path, which writing does not.
  have lockRelative : request.lockFile.toList.head? ≠ some '/' := by
    rw [beside]
    exact Path.head?_withExtension relative
  obtain ⟨last, ends, notSlash⟩ := Request.lockFile_ends beside other
  obtain ⟨directory, name, named⟩ : ∃ directory name, Disk.Named path directory name := by
    refine Disk.named_of_getLast? ?_ notSlash
    rw [path_eq, Path.getLast?_join _ ends]
  have there : disk.look (Path.parent path) = .directory ∧
      (disk.look path = .missing ∨ ∃ old, disk.look path = .file old) ∧
      disk' = disk.write path content := by
    simp only [Update.put] at written
    split at written
    next old inside found =>
      exact ⟨inside, .inr ⟨_, found⟩, (Except.ok.inj written).symm⟩
    next inside found =>
      exact ⟨inside, .inl found, (Except.ok.inj written).symm⟩
    next => cases written
  obtain ⟨inside, free, rfl⟩ := there
  obtain ⟨can, before⟩ := Disk.canHold_of_named named inside free
  refine ⟨rfl, can, before, Disk.look_write_self named inside free content, isLocal, ?_⟩
  rw [Docker.localPath, Path.withoutSlashes_of_relative lockRelative, path_eq]

end Machine
end ImageLock
