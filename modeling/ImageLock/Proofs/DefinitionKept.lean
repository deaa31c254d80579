/-
An update never replaces the definition that it was computed from.

Nothing compares the two paths. A definition that is read for its own locks has a
kind, which no locks have, so that an update of it fails before it writes. A name
with a slash in front is read inside of the context, and its lock file written
outside: there the names at the end of the two paths differ.
-/
import ImageLock.Proofs.AtomicWrite

namespace ImageLock

/-! Places of paths. -/

namespace Disk

variable {disk : Disk} {path path' : String} {directory directory' name name' : List Char}

theorem takeWhile_ofParts {part : String} (whole : '/' ∉ part.toList) (parts : List String) :
    (ofParts (part :: parts)).toList.reverse.takeWhile (· != '/') = part.toList.reverse := by
  have inside : ∀ c ∈ part.toList.reverse, (c != '/') = true := by
    intro c member
    have other : c ≠ '/' := fun same => whole (by simpa [same] using member)
    simpa using other
  have split : (ofParts (part :: parts)).toList.reverse =
      part.toList.reverse ++ '/' :: (ofParts parts).toList.reverse := by
    simp [ofParts_cons]
  rw [split, List.takeWhile_append_of_pos inside]
  simp

theorem place_named (named : Named path directory name) (disk : Disk) :
    ∃ parts, disk.place path = ofParts (enter parts (String.ofList name)) := by
  obtain ⟨split, whole, _, ends⟩ := named
  have single : Text.splitWhere (· == '/') name = [name] := Text.splitWhere_of_notMem whole
  rcases ends with rfl | slash
  · refine ⟨disk.origin path, ?_⟩
    simp [place, pieces, split, single]
  · obtain ⟨front, rfl⟩ := List.getLast?_eq_some_iff.mp slash
    let outer := (Text.splitWhere (· == '/') front).map String.ofList
    refine ⟨outer.foldl enter (disk.origin path), ?_⟩
    simp [outer, place, pieces, split, splitWhere_slash, single]

/-- A name that is no step to a directory. -/
structure Proper (name : List Char) : Prop where
  filled : name ≠ []
  noDot : name ≠ ['.']
  noDots : name ≠ ['.', '.']

theorem enter_proper (proper : Proper name) (parts : List String) :
    enter parts (String.ofList name) = String.ofList name :: parts := by
  have empty : (String.ofList name).isEmpty = false := by
    simpa [String.toList_eq_nil_iff] using proper.filled
  have noDot : String.ofList name ≠ "." := fun same => proper.noDot (by
    simpa using congrArg String.toList same)
  have noDots : String.ofList name ≠ ".." := fun same => proper.noDots (by
    simpa using congrArg String.toList same)
  simp [enter, empty, noDot, noDots]

/-- Files with different names are at different places, wherever their directories
are. -/
theorem place_ne_of_named (named : Named path directory name)
    (named' : Named path' directory' name') (proper : Proper name) (proper' : Proper name')
    (differ : name ≠ name') : disk.place path ≠ disk.place path' := by
  obtain ⟨parts, place_eq⟩ := place_named named disk
  obtain ⟨parts', place_eq'⟩ := place_named named' disk
  rw [place_eq, place_eq', enter_proper proper, enter_proper proper']
  intro same
  have whole : '/' ∉ (String.ofList name).toList := by simpa using named.whole
  have whole' : '/' ∉ (String.ofList name').toList := by simpa using named'.whole
  have last := takeWhile_ofParts whole parts
  rw [same, takeWhile_ofParts whole' parts'] at last
  exact differ (by simpa using last.symm)

/-- What is reached from the root is a directory, with all that is above it. -/
theorem at?_drop_of_follow {parts pieces : List String}
    (above : ∀ n, disk.at? (ofParts parts) = .directory →
      disk.at? (ofParts (parts.drop n)) = .directory)
    (reached : disk.follow parts pieces = .directory) (n : Nat) :
    disk.at? (ofParts ((pieces.foldl enter parts).drop n)) = .directory := by
  induction pieces generalizing parts with
  | nil => exact above n reached
  | cons piece rest ih =>
      simp only [follow] at reached
      split at reached
      next here =>
        split at reached
        · cases reached
        · refine ih (fun k there => ?_) reached
          simp only [enter] at there ⊢
          split
          · exact above k here
          · split
            · rw [List.drop_drop]
              exact above _ here
            · cases k with
              | zero => simpa [*] using there
              | succ k => exact above k here
      next => cases reached
      next notDirectory _ => exact absurd reached notDirectory

/-- What an absolute path can put a file at has a name. Dots at its end would be a
directory. -/
theorem proper_of_canReplace (named : Named path directory name)
    (absolute : path.toList.head? = some '/') (can : Draft.CanReplace disk path) :
    Proper name := by
  obtain ⟨inside, free⟩ := can
  obtain ⟨front, split, reached⟩ := exists_pieces named inside
  obtain ⟨_, here⟩ := canHold_of_named named inside free
  have root : disk.origin path = [] := by simp [origin, absolute]
  have place_eq :
      disk.place path = ofParts (enter (front.foldl enter []) (String.ofList name)) := by
    simp [place, split, root]
  have above := at?_drop_of_follow (fun n there => by simpa using there) (root ▸ reached)
  have there : disk.at? (ofParts (front.foldl enter [])) = .directory := above 0
  rw [here, place_eq] at free
  refine ⟨named.named, ?noDot, ?noDots⟩
  case noDot =>
    rintro rfl
    have stays : enter (front.foldl enter []) (String.ofList ['.']) = front.foldl enter [] := rfl
    rw [stays, there] at free
    simp at free
  case noDots =>
    rintro rfl
    have up : enter (front.foldl enter []) (String.ofList ['.', '.']) =
        (front.foldl enter []).drop 1 := rfl
    rw [up, above 1] at free
    simp at free

end Disk

/-! The names of a definition and of its lock file. -/

namespace Path

theorem dropTail_slashes {reversed : List Char} (slashes : ∀ c ∈ reversed, c = '/') :
    dropTail reversed = [] := by
  induction reversed with
  | nil => rfl
  | cons c rest ih =>
      obtain rfl : c = '/' := slashes c (by simp)
      exact ih fun d member => slashes d (by simp [member])

theorem dropTail_dot {reversed : List Char} (slashes : ∀ c ∈ reversed, c = '/') :
    dropTail ('.' :: reversed) = ['.'] ∨ dropTail ('.' :: reversed) = [] := by
  cases reversed with
  | nil => exact .inl rfl
  | cons c rest =>
      obtain rfl : c = '/' := slashes c (by simp)
      right
      rw [dropTail, dropTail_slashes slashes]

/-- What ends in a name keeps its end, whatever is in front. -/
theorem dropTail_append {reversed : List Char} (kept : dropTail reversed = reversed)
    (filled : reversed ≠ []) (other : reversed ≠ ['.']) (rest : List Char) :
    dropTail (reversed ++ rest) = reversed ++ rest := by
  have shorter (c : Char) (tail : List Char) : dropTail tail ≠ c :: tail := fun same => by
    have bound := (dropTail_suffix tail).length_le
    simp only [same, List.length_cons] at bound
    omega
  unfold dropTail at kept ⊢
  split at kept
  next tail => exact absurd kept (shorter '/' tail)
  next tail => exact absurd kept (shorter '.' ('/' :: tail))
  next noSlash noDot =>
    split
    next tail same =>
      cases reversed with
      | nil => exact absurd rfl filled
      | cons c front =>
          obtain ⟨rfl, _⟩ := List.cons.inj same
          exact absurd rfl (noSlash front)
    next tail same =>
      match reversed with
      | [] => exact absurd rfl filled
      | [c] =>
          obtain ⟨rfl, _⟩ := List.cons.inj same
          exact absurd rfl other
      | c :: d :: front =>
          obtain ⟨rfl, behind⟩ := List.cons.inj same
          obtain ⟨rfl, _⟩ := List.cons.inj behind
          exact absurd rfl (noDot front)
    next => rfl

theorem splitName_proper {path : String} {directory name : List Char}
    (found : splitName path = some (directory, name)) : Disk.Proper name := by
  simp only [splitName] at found
  split at found
  · cases found
  next named =>
    obtain ⟨_, rfl⟩ := Prod.mk.inj (Option.some.inj found)
    simp only [Bool.or_eq_true, not_or, List.isEmpty_iff, beq_iff_eq] at named
    exact ⟨named.1.1, named.1.2, named.2⟩

theorem exists_withoutSlashes (path : String) :
    ∃ slashes, path.toList = slashes ++ (GitContext.withoutSlashes path).toList ∧
      (∀ c ∈ slashes, c = '/') ∧
      (GitContext.withoutSlashes path).toList.head? ≠ some '/' := by
  refine ⟨path.toList.takeWhile (· == '/'), ?_, fun c member => ?_, fun slash => ?_⟩
  · simp [GitContext.withoutSlashes, Text.dropStartWhile]
  · simpa using List.all_eq_true.mp List.all_takeWhile c member
  · have other := List.head?_dropWhile_not (· == '/') path.toList
    simp only [GitContext.withoutSlashes, Text.dropStartWhile, String.toList_ofList] at slash
    simp [slash] at other

/-- Slashes in front are no part of a name. -/
theorem named_withoutSlashes {path : String} {directory name : List Char}
    (named : Disk.Named path directory name) :
    ∃ inside, Disk.Named (GitContext.withoutSlashes path) inside name := by
  obtain ⟨split, whole, filled, ends⟩ := named
  obtain ⟨slashes, path_eq, allSlashes, _⟩ := exists_withoutSlashes path
  rw [split] at path_eq
  rcases List.append_eq_append_iff.mp path_eq with
    ⟨front, slashes_eq, name_eq⟩ | ⟨front, directory_eq, inner_eq⟩
  · cases front with
    | nil => exact ⟨[], by simpa using name_eq.symm, whole, filled, .inl rfl⟩
    | cons c front =>
        obtain rfl : c = '/' := allSlashes c (by simp [slashes_eq])
        exact absurd (by simp [name_eq]) whole
  · refine ⟨front, inner_eq, whole, filled, ?_⟩
    cases front with
    | nil => exact .inl rfl
    | cons c front =>
        right
        rcases ends with rfl | slash
        · simp at directory_eq
        · simpa [directory_eq, List.getLast?_append] using slash

/-- A file that is read inside a context ends in its name. -/
theorem named_of_look {disk : Disk} {outer file : String} {directory name : List Char}
    {content : ByteArray}
    (found : disk.look (join outer (GitContext.withoutSlashes file)) = .file content)
    (split : splitName file = some (directory, name)) : Disk.Named file directory name := by
  obtain ⟨slashes, file_eq, allSlashes, relative⟩ := exists_withoutSlashes file
  obtain ⟨joined, own⟩ := splitName_joined split
  have proper := splitName_proper split
  have kept := dropTail_of_look (toList_join outer relative) found
  generalize GitContext.withoutSlashes file = inner at *
  rw [file_eq, List.reverse_append] at joined
  have allReversed : ∀ c ∈ slashes.reverse, c = '/' := by simpa using allSlashes
  -- A path of slashes, with or without a dot behind them, has no name.
  have filled : inner.toList ≠ [] := by
    intro empty
    simp [empty, dropTail_slashes allReversed, proper.filled] at joined
  have other : inner.toList ≠ ['.'] := by
    intro dot
    rw [dot] at joined
    change directory ++ name = (dropTail ('.' :: slashes.reverse)).reverse at joined
    rcases dropTail_dot allReversed with alone | alone
    · rw [alone] at joined
      have single : directory = [] ∧ name = ['.'] := by
        simpa [List.append_eq_singleton_iff, proper.filled] using joined
      exact proper.noDot single.2
    · simp [alone, proper.filled] at joined
  rw [dropTail_append kept (by simpa using filled) (by simpa using other),
    ← List.reverse_append, List.reverse_reverse, ← file_eq] at joined
  rwa [joined, String.ofList_toList] at own

/-- An absolute path with another extension is no place of a file that is read
inside a context by the path. -/
theorem place_withExtension_ne {disk : Disk} {outer file extension : String}
    {content : ByteArray} (absolute : file.toList.head? = some '/')
    (whole : '/' ∉ extension.toList)
    (found : disk.look (join outer (GitContext.withoutSlashes file)) = .file content)
    (other : withExtension file extension ≠ file)
    (can : Draft.CanReplace disk (withExtension file extension)) :
    disk.place (withExtension file extension) ≠
      disk.place (join outer (GitContext.withoutSlashes file)) := by
  cases split : splitName file with
  | none => exact absurd (by simp [withExtension, split]) other
  | some parts =>
      obtain ⟨directory, name⟩ := parts
      have named := named_of_look found split
      obtain ⟨inside, inner⟩ := named_withoutSlashes named
      obtain ⟨last, named'⟩ := named_withExtension split whole
      obtain ⟨_, _, _, relative⟩ := exists_withoutSlashes file
      have proper := Disk.proper_of_canReplace named' (head?_withExtension_absolute absolute) can
      refine Disk.place_ne_of_named named' (named_join outer relative inner) proper
        (splitName_proper split) fun same => other ?_
      exact String.toList_inj.mp (by rw [named'.split, named.split, same])

theorem join_inj {outer inner inner' : String}
    (alike : inner.toList.head? = some '/' ↔ inner'.toList.head? = some '/') :
    join outer inner = join outer inner' ↔ inner = inner' := by
  refine ⟨fun same => ?_, congrArg _⟩
  by_cases absolute : inner.toList.head? = some '/'
  · simpa [join, absolute, alike.mp absolute] using same
  · have relative : inner'.toList.head? ≠ some '/' := fun slash => absolute (alike.mpr slash)
    have chars := congrArg String.toList same
    rw [toList_join outer absolute, toList_join outer relative] at chars
    exact String.toList_inj.mp (List.append_cancel_left chars)

end Path

theorem Request.head?_lockPath (file : String) :
    (lockPath file).toList.head? = some '/' ↔ file.toList.head? = some '/' := by
  constructor
  · intro absolute
    refine Classical.not_not.mp fun relative => ?_
    exact Path.head?_withExtension relative absolute
  · exact Path.head?_withExtension_absolute

/-! Updates of definitions. -/

/-- Where the definition of a request is read from. -/
def Machine.definitionFile (m : Machine) (request : Request) : String :=
  Docker.localPath m.root request.context request.file

namespace Update

open Draft

/-- The path of a definition, as that of its lock file is computed. -/
def definitionPath (backend : Backend) (request : Request) : Option String :=
  (backend.directory request.context).map fun directory => Path.join directory request.file

/-- What an update that succeeds leaves of the definition that it was computed
from: all of it, and the lock file is at another place. -/
structure KeepsDefinition (m : Machine) (disk : Disk) (request : Request) (report : UpdateReport)
    (disk' : Disk) : Prop where
  apart : disk.place report.path ≠ disk.place (m.definitionFile request)
  kept : ∃ content d, disk.look (m.definitionFile request) = .file content ∧
    Definition.parse request.file content = .ok d ∧ d.hash = .ok report.hash ∧
    disk'.look (m.definitionFile request) = .file content

variable {file context stage : String} {world : World} {disk disk' : Disk} {request : Request}
  {refresh : Refresh} {indexes : IndexStore} {report : UpdateReport} {m : Machine}

theorem lockPath_eq_definitionPath {path : String}
    (made : Request.make file context stage = .ok request)
    (placed : lockPath world.backend request = .ok path)
    (own : definitionPath world.backend request = some path) :
    request.lockFile = request.file := by
  obtain ⟨file_eq, lockFile_eq⟩ := Machine.make_ok made
  have alike := Request.head?_lockPath file
  rw [← lockFile_eq, ← file_eq] at alike
  simp only [lockPath] at placed
  split at placed
  next directory there =>
    rw [definitionPath, there, ← Except.ok.inj placed] at own
    exact ((Path.join_inj alike).mp (Option.some.inj own).symm)
  next => cases placed

theorem exists_definitionPath {path : String}
    (placed : lockPath world.backend request = .ok path) :
    ∃ own, definitionPath world.backend request = some own := by
  simp only [lockPath] at placed
  split at placed
  next directory there => exact ⟨_, by rw [definitionPath, there]; rfl⟩
  next => cases placed

/-- What is read for the locks of a definition that is locked is not the definition. -/
theorem lockRead_ne {d : Definition} {written : Fields} {first last : Trail} {content : ByteArray}
    (loads : Loads world.backend request d)
    (locked : (locks Kind.registry world request refresh d).after first = (.ok written, last))
    (read : (world.backend.read request.file (.buildContext request.context)).1 = .ok content) :
    (world.backend.read request.lockFile (.buildContext request.context)).1 ≠ .ok content := by
  intro same
  have noKind := (locksFit_of_locks locked).has_kind
  rw [Machine.has_kind_of_same loads read same] at noKind
  cases noKind

theorem lockFile_ne_of_prepare {locks : Fields} {first last : Trail}
    (prepared : (prepare Kind.registry world request refresh).after first =
      (.ok (report, locks), last)) : request.lockFile ≠ request.file := by
  intro same
  obtain ⟨_, d, _, own, loaded, locked, _⟩ := prepare_reports prepared
  have loads := loadDefinition_ok loaded
  obtain ⟨content, _, read, _, _⟩ := loads.definition
  exact lockRead_ne loads locked read (same ▸ read)

/-- A lock file that is written is not at the place of its definition. -/
theorem apart_of_prepare {locks : Fields} {first last : Trail}
    (made : Request.make file context stage = .ok request)
    (prepared : (prepare Kind.registry (m.world disk) request refresh).after first =
      (.ok (report, locks), last))
    (can : CanReplace disk report.path) :
    disk.place report.path ≠ disk.place (m.definitionFile request) := by
  obtain ⟨file_eq, lockFile_eq⟩ := Machine.make_ok made
  have other := lockFile_ne_of_prepare prepared
  obtain ⟨_, _, named⟩ := named_of_prepare made prepared
  obtain ⟨placed, d, _, own, loaded, locked, _⟩ := prepare_reports prepared
  obtain ⟨isLocal, path_eq⟩ := Machine.lockPath_ok placed
  have loads := loadDefinition_ok loaded
  obtain ⟨content, _, read, _, _⟩ := loads.definition
  have opened := read
  rw [Machine.read_local isLocal, Machine.readLocal_ok] at opened
  by_cases absolute : request.lockFile.toList.head? = some '/'
  · have beside : request.lockFile = Path.withExtension request.file "lock" := by
      rw [lockFile_eq, file_eq, Request.lockPath]
    have outside : report.path = Path.withExtension request.file "lock" := by
      rw [path_eq, Path.join, absolute, ← beside]
      rfl
    rw [beside] at absolute other
    rw [outside] at can ⊢
    have slash := (Request.head?_lockPath request.file).mp absolute
    exact Path.place_withExtension_ne slash (by decide) opened other can
  · -- A lock file at the place of the definition would have been read as one.
    intro same
    obtain ⟨_, here⟩ := Disk.canHold_of_named named can.inside can.free
    rw [same, Machine.definitionFile, Disk.at?_of_look opened] at here
    refine lockRead_ne loads locked read ?_
    rw [Machine.read_local isLocal, Machine.readLocal_ok, Docker.localPath,
      Path.withoutSlashes_of_relative absolute, ← path_eq, here]

/-- An update that succeeds has prepared a lock file, and put it in its place. -/
theorem carryOut_ok {hindrance : Hindrance} {name : Name}
    (made : Request.make file context stage = .ok request)
    (updated : carryOut Kind.registry world disk request refresh indexes hindrance name =
      (.ok report, disk')) :
    ∃ locks trail,
      (prepare Kind.registry world request refresh).runFrom indexes =
        (.ok (report, locks), trail) ∧
      CanReplace disk report.path ∧ disk' = disk.write report.path (content locks) := by
  rcases carryOut_cases made world disk refresh indexes hindrance name with
    ⟨error, failed⟩ | ⟨report', locks, trail, prepared, can, done⟩
  · cases (Prod.mk.inj (failed.symm.trans updated)).1
  · obtain ⟨report_eq, disk_eq⟩ := Prod.mk.inj (done.symm.trans updated)
    obtain rfl : report' = report := Except.ok.inj report_eq
    exact ⟨locks, trail, prepared, can, disk_eq.symm⟩

/-- An update never replaces the definition that it was computed from. It fails
before it writes where the lock file would be the definition, and writes another
path wherever it succeeds. -/
theorem update_keeps_definition (made : Request.make file context stage = .ok request) :
    (∀ world path, lockPath world.backend request = .ok path →
      definitionPath world.backend request = some path → ∀ refresh indexes,
        ∃ error, ((prepare Kind.registry world request refresh).runFrom indexes).1 =
          .error error ∧ ∀ disk hindrance name,
            carryOut Kind.registry world disk request refresh indexes hindrance name =
              (.error error, disk)) ∧
    (∀ world disk refresh indexes hindrance name report disk',
      carryOut Kind.registry world disk request refresh indexes hindrance name =
        (.ok report, disk') →
      lockPath world.backend request = .ok report.path ∧
        ∃ own, definitionPath world.backend request = some own ∧ report.path ≠ own) ∧
    ∀ (m : Machine) disk refresh indexes hindrance name report disk',
      carryOut Kind.registry (m.world disk) disk request refresh indexes hindrance name =
        (.ok report, disk') → KeepsDefinition m disk request report disk' := by
  refine ⟨?fails, ?elsewhere, ?keeps⟩
  case fails =>
    intro world path placed own refresh indexes
    have same := lockPath_eq_definitionPath made placed own
    cases outcome : (prepare Kind.registry world request refresh).runFrom indexes with
    | mk answer trail =>
        cases answer with
        | error error =>
            exact ⟨error, rfl, fun disk hindrance name => by simp only [carryOut, outcome]⟩
        | ok answer =>
            rw [Act.runFrom_eq] at outcome
            exact absurd same (lockFile_ne_of_prepare outcome)
  case elsewhere =>
    intro world disk refresh indexes hindrance name report disk' updated
    obtain ⟨locks, trail, prepared, _⟩ := carryOut_ok made updated
    rw [Act.runFrom_eq] at prepared
    have other := lockFile_ne_of_prepare prepared
    obtain ⟨placed, _⟩ := prepare_reports prepared
    obtain ⟨own, there⟩ := exists_definitionPath placed
    refine ⟨placed, own, there, fun same => other ?_⟩
    exact lockPath_eq_definitionPath made placed (same ▸ there)
  case keeps =>
    intro m disk refresh indexes hindrance name report disk' updated
    obtain ⟨locks, trail, prepared, can, disk_eq⟩ := carryOut_ok made updated
    obtain ⟨placed, ⟨d, _, _, _, loads, _, hashed, _⟩, others, _⟩ :=
      disk_eq ▸ changes_of_write made prepared can
    obtain ⟨isLocal, _⟩ := Machine.lockPath_ok placed
    rw [Act.runFrom_eq] at prepared
    have apart := apart_of_prepare made prepared can
    obtain ⟨content, bare, read, parsed, d_eq⟩ := loads.definition
    rw [Machine.read_local isLocal, Machine.readLocal_ok] at read
    refine ⟨apart, content, bare, read, parsed, ?_, (others _ apart.symm content).mpr read⟩
    rw [← hashed, d_eq]
    rfl

end Update

namespace Machine

/-- A definition beside its lock file is updated and kept, and one with the name of
a lock file is not updated. -/
theorem update_keeps_definition_zbuild :
    (∃ report disk',
      Update.carryOut Kind.registry (alpine.world (project "zbuild.yml" bare))
        (project "zbuild.yml" bare) (prodOf "zbuild.yml") .all .empty .none draftName =
        (.ok report, disk') ∧
      Update.KeepsDefinition alpine (project "zbuild.yml" bare) (prodOf "zbuild.yml") report
        disk') ∧
    ∃ error,
      Update.carryOut Kind.registry (alpine.world (project "zbuild.lock" bare))
        (project "zbuild.lock" bare) (prodOf "zbuild.lock") .all .empty .none draftName =
        (.error error, project "zbuild.lock" bare) := by
  constructor
  · obtain ⟨_, _, keeps⟩ := Update.update_keeps_definition (make_prodOf "zbuild.yml")
    obtain ⟨report, disk', trail, updated, _⟩ := run_of_prepares prepares_bare bareLocks_readBack
    have fresh : ∀ report locks trail,
        (Update.prepare Kind.registry (alpine.world (project "zbuild.yml" bare))
          (prodOf "zbuild.yml") .all).runFrom .empty = (.ok (report, locks), trail) →
        (project "zbuild.yml" bare).look (Draft.beside report.path draftName.text) = .missing := by
      intro report locks trail prepared
      rw [Act.runFrom_eq] at prepared
      obtain ⟨placed, _⟩ := Update.prepare_ok prepared
      have path_eq : "/src/./zbuild.lock" = report.path := Except.ok.inj placed
      rw [← path_eq]
      exact Found.eq_missing rfl
    have done := Update.carryOut_unhindered (make_prodOf "zbuild.yml") draftName fresh
    rw [updated] at done
    exact ⟨report, disk', done, keeps _ _ _ _ _ _ _ _ done⟩
  · obtain ⟨fails, _⟩ := Update.update_keeps_definition (make_prodOf "zbuild.lock")
    have own : Update.lockPath (alpine.world (project "zbuild.lock" bare)).backend
        (prodOf "zbuild.lock") = .ok "/src/./zbuild.lock" := rfl
    obtain ⟨error, _, unwritten⟩ := fails _ _ own rfl .all .empty
    exact ⟨error, unwritten _ _ _⟩

end Machine
end ImageLock
