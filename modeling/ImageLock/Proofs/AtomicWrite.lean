/-
An update that fails leaves every file as it was, wherever it fails; one that
succeeds changes its lock file and nothing else.

Replacing a file takes several steps on the disk, and each of them can be
hindered. The draft of a replacement is a new file, so that removing it brings
back the disk of before.
-/
import ImageLock.Draft
import ImageLock.Proofs.LockPlace

namespace ImageLock

/-! Replacing a file on a disk. -/

namespace Draft

/-- The steps of a replacement that can fail. -/
inductive Step where
  | create
  | fill
  | permit
  | move
deriving DecidableEq, Repr

/-- What stands in the way of a replacement: the steps that fail, and how much
is written until writing fails. -/
structure Hindrance where
  fails : Step → Bool
  part : Nat

structure Name where
  text : String
  whole : '/' ∉ text.toList
  filled : text.toList ≠ []

def tools (hindrance : Hindrance) : FileTools (StateM Disk) where
  create path disk :=
    match hindrance.fails .create, disk.look (Path.parent path), disk.look path with
    | false, .directory, .missing => (true, disk.write path ByteArray.empty)
    | _, _, _ => (false, disk)
  fill path content disk :=
    if hindrance.fails .fill then (false, disk.write path (content.extract 0 hindrance.part))
    else (true, disk.write path content)
  permit _ disk := (!hindrance.fails .permit, disk)
  move old new disk :=
    match hindrance.fails .move, disk.look old, disk.look (Path.parent new), disk.look new with
    | false, .file content, .directory, .file _ | false, .file content, .directory, .missing =>
        (true, (disk.delete old).write new content)
    | _, _, _, _ => (false, disk)
  remove path disk := ((), disk.delete path)

theorem named_beside (path : String) (name : Name) :
    Disk.Named (beside path name.text) (Path.lead (Path.parent path)) name.text.toList := by
  have relative : name.text.toList.head? ≠ some '/' :=
    fun slash => name.whole (List.mem_of_mem_head? slash)
  have own : Disk.Named name.text [] name.text.toList := ⟨rfl, name.whole, name.filled, .inl rfl⟩
  simpa [beside] using Path.named_join (Path.parent path) relative own

variable {hindrance : Hindrance} {disk disk' : Disk} {draft path : String} {content : ByteArray}

theorem create_true (created : (tools hindrance).create draft disk = (true, disk')) :
    disk.look (Path.parent draft) = .directory ∧ disk.look draft = .missing ∧
      disk' = disk.write draft ByteArray.empty := by
  simp only [tools] at created
  split at created
  next inside missing => exact ⟨inside, missing, (Prod.mk.inj created).2.symm⟩
  next => cases (Prod.mk.inj created).1

theorem create_false (created : (tools hindrance).create draft disk = (false, disk')) :
    disk' = disk := by
  simp only [tools] at created
  split at created
  next => cases (Prod.mk.inj created).1
  next => exact (Prod.mk.inj created).2.symm

/-! One equation for each way that a replacement can go. -/

section Steps

variable {files : FileTools (StateM Disk)} {first second last : Disk}

theorem finish_unfilled (filled : files.fill draft content first = (false, last)) :
    finish files draft path content first = (false, last) := by
  simp only [finish, bind, StateT.bind, filled]
  rfl

theorem finish_unpermitted (filled : files.fill draft content first = (true, second))
    (permitted : files.permit draft second = (false, last)) :
    finish files draft path content first = (false, last) := by
  simp only [finish, bind, StateT.bind, filled, if_true, permitted]
  rfl

theorem finish_permitted (filled : files.fill draft content first = (true, second))
    (permitted : files.permit draft second = (true, last)) :
    finish files draft path content first = files.move draft path last := by
  simp only [finish, bind, StateT.bind, filled, if_true, permitted]

theorem replace_uncreated (created : files.create draft first = (false, last)) :
    replace files draft path content first = (false, last) := by
  simp only [replace, bind, StateT.bind, created]
  rfl

theorem replace_unfinished (created : files.create draft first = (true, second))
    (finished : finish files draft path content second = (false, last)) :
    replace files draft path content first = (false, (files.remove draft last).2) := by
  simp only [replace, bind, StateT.bind, created, if_true, finished]
  rfl

theorem replace_finished (created : files.create draft first = (true, second))
    (finished : finish files draft path content second = (true, last)) :
    replace files draft path content first = (true, last) := by
  simp only [replace, bind, StateT.bind, created, if_true, finished]
  rfl

end Steps

/-- Where a file can be put in place of another, or where there is none. -/
structure CanReplace (disk : Disk) (path : String) : Prop where
  inside : disk.look (Path.parent path) = .directory
  free : disk.look path = .missing ∨ ∃ old, disk.look path = .file old

theorem move_cases (hindrance : Hindrance) (draft path : String) (disk : Disk) :
    (tools hindrance).move draft path disk = (false, disk) ∨
      ∃ content, disk.look draft = .file content ∧ CanReplace disk path ∧
        (tools hindrance).move draft path disk =
          (true, (disk.delete draft).write path content) := by
  simp only [tools]
  split
  next old _ found inside there => exact .inr ⟨_, found, ⟨inside, .inr ⟨old, there⟩⟩, rfl⟩
  next found inside there => exact .inr ⟨_, found, ⟨inside, .inl there⟩, rfl⟩
  next => exact .inl rfl

/-- A draft that is there is all that is changed until the file is replaced. -/
theorem finish_cases (hindrance : Hindrance) (draft path : String) (content text : ByteArray)
    (disk : Disk) :
    (∃ left, finish (tools hindrance) draft path content (disk.write draft text) =
      (false, disk.write draft left)) ∨
    ∃ moved, (disk.write draft content).look draft = .file moved ∧
      CanReplace (disk.write draft content) path ∧
      finish (tools hindrance) draft path content (disk.write draft text) =
        (true, ((disk.write draft content).delete draft).write path moved) := by
  by_cases filling : hindrance.fails .fill
  · have filled : (tools hindrance).fill draft content (disk.write draft text) =
        (false, disk.write draft (content.extract 0 hindrance.part)) := by
      simp [tools, filling, Disk.write_write]
    exact .inl ⟨_, finish_unfilled filled⟩
  · have filled : (tools hindrance).fill draft content (disk.write draft text) =
        (true, disk.write draft content) := by
      simp [tools, filling, Disk.write_write]
    by_cases permitting : hindrance.fails .permit
    · have permitted : (tools hindrance).permit draft (disk.write draft content) =
          (false, disk.write draft content) := by simp [tools, permitting]
      exact .inl ⟨content, finish_unpermitted filled permitted⟩
    · have permitted : (tools hindrance).permit draft (disk.write draft content) =
          (true, disk.write draft content) := by simp [tools, permitting]
      rw [finish_permitted filled permitted]
      rcases move_cases hindrance draft path (disk.write draft content) with
        failed | ⟨moved, found, can, done⟩
      · exact .inl ⟨content, failed⟩
      · exact .inr ⟨moved, found, can, done⟩

/-- Whether a file can be replaced does not depend on another one that is new. -/
theorem canReplace_write {directory name other last : List Char}
    (named : Disk.Named draft directory name) (inside : disk.look (Path.parent draft) = .directory)
    (missing : disk.look draft = .missing) (namedPath : Disk.Named path other last) :
    CanReplace (disk.write draft content) path ↔ CanReplace disk path := by
  obtain ⟨hold, _⟩ := Disk.canHold_of_named named inside (.inl missing)
  constructor
  · rintro ⟨within, free⟩
    have within := (Disk.look_directory_write hold content).mp within
    exact ⟨within, (Disk.look_free_write hold content namedPath within).mp free⟩
  · rintro ⟨within, free⟩
    exact ⟨(Disk.look_directory_write hold content).mpr within,
      (Disk.look_free_write hold content namedPath within).mpr free⟩

/-- A replacement that fails leaves the disk as it was. -/
theorem replace_cases {directory last : List Char} (hindrance : Hindrance) (name : Name)
    (namedPath : Disk.Named path directory last) (content : ByteArray) (disk : Disk) :
    replace (tools hindrance) (beside path name.text) path content disk = (false, disk) ∨
      CanReplace disk path ∧
        replace (tools hindrance) (beside path name.text) path content disk =
          (true, disk.write path content) := by
  cases created : (tools hindrance).create (beside path name.text) disk with
  | mk there drafted =>
      cases there with
      | false =>
          rw [replace_uncreated created, create_false created]
          exact .inl rfl
      | true =>
          obtain ⟨inside, missing, rfl⟩ := create_true created
          have named := named_beside path name
          obtain ⟨_, here⟩ := Disk.canHold_of_named named inside (.inl missing)
          have new : disk.at? (disk.place (beside path name.text)) = .missing := by
            rw [← here, missing]
          rcases finish_cases hindrance (beside path name.text) path content ByteArray.empty disk
            with ⟨left, finished⟩ | ⟨moved, found, can, finished⟩
          · left
            rw [replace_unfinished created finished]
            exact congrArg _ (Disk.delete_write new left)
          · right
            have content_eq : content = moved := by
              rw [Disk.look_write_self named inside (.inl missing)] at found
              exact Found.file.inj found
            refine ⟨(canReplace_write named inside missing namedPath).mp can, ?_⟩
            rw [replace_finished created finished, Disk.delete_write new content, content_eq]

/-! A replacement that something stands in the way of. -/

theorem finish_hindered {step : Step} (fails : hindrance.fails step = true)
    (drafted : step ≠ .create) (draft path : String) (content : ByteArray) (disk : Disk) :
    ∃ left, finish (tools hindrance) draft path content disk = (false, left) := by
  cases filled : (tools hindrance).fill draft content disk with
  | mk isFilled second =>
      cases isFilled with
      | false => exact ⟨_, finish_unfilled filled⟩
      | true =>
          cases permitted : (tools hindrance).permit draft second with
          | mk isPermitted third =>
              cases isPermitted with
              | false => exact ⟨_, finish_unpermitted filled permitted⟩
              | true =>
                  rw [finish_permitted filled permitted]
                  cases step with
                  | create => exact absurd rfl drafted
                  | fill =>
                      simp only [tools, fails, if_true] at filled
                      cases (Prod.mk.inj filled).1
                  | permit =>
                      simp only [tools, fails] at permitted
                      cases (Prod.mk.inj permitted).1
                  | move => exact ⟨third, by simp [tools, fails]⟩

theorem replace_hindered {step : Step} (fails : hindrance.fails step = true)
    (draft path : String) (content : ByteArray) (disk : Disk) :
    ∃ left, replace (tools hindrance) draft path content disk = (false, left) := by
  cases created : (tools hindrance).create draft disk with
  | mk isCreated second =>
      cases isCreated with
      | false => exact ⟨_, replace_uncreated created⟩
      | true =>
          have drafted : step ≠ .create := by
            rintro rfl
            simp only [tools, fails] at created
            cases (Prod.mk.inj created).1
          obtain ⟨left, finished⟩ := finish_hindered fails drafted draft path content second
          exact ⟨_, replace_unfinished created finished⟩

/-! A replacement that nothing stands in the way of. -/

def Hindrance.none : Hindrance := ⟨fun _ => false, 0⟩

/-- The piece behind a slash at the end is empty, and stays where it is. -/
theorem look_here (inside : disk.look "." = .directory) : disk.look "./" = .directory := by
  have first : disk.look "." = disk.follow (Disk.partsOf disk.home) ["."] := rfl
  have second : disk.look "./" = disk.follow (Disk.partsOf disk.home) (["."] ++ [""]) := rfl
  have home : disk.at? (Disk.ofParts (Disk.partsOf disk.home)) = .directory := by
    rcases Disk.follow_cases disk (Disk.partsOf disk.home) ["."] with ends | fails | fails
    · rw [← first, inside] at ends
      exact ends.symm
    · rw [← first, inside] at fails
      cases fails
    · rw [← first, inside] at fails
      cases fails
  rw [second, Disk.follow_append, ← first, inside]
  have stays : ["."].foldl Disk.enter (Disk.partsOf disk.home) = Disk.partsOf disk.home := rfl
  have stays' : Disk.enter (Disk.partsOf disk.home) "" = Disk.partsOf disk.home := rfl
  have short : ¬ Disk.nameLimit < Text.byteLength "".toList := by decide
  simp only [stays, Disk.follow, home, short, if_false, stays']

theorem look_parent_beside {directory last : List Char} (namedPath : Disk.Named path directory last)
    (name : Name) (inside : disk.look (Path.parent path) = .directory) :
    disk.look (Path.parent (beside path name.text)) = .directory := by
  have parent_eq := Disk.parent_eq namedPath
  rw [Disk.parent_eq (named_beside path name), parent_eq]
  rw [parent_eq] at inside
  rcases namedPath.ends with here | slash
  · rw [if_pos here] at inside ⊢
    have lead_eq : (if Path.lead "." = [] then "." else String.ofList (Path.lead ".")) = "./" := by
      decide
    rw [lead_eq]
    exact look_here inside
  · have filled : directory ≠ [] := fun empty => by simp [empty] at slash
    have lead_eq : Path.lead (String.ofList directory) = directory := by
      simp [Path.lead, slash]
    rwa [if_neg filled, lead_eq, if_neg filled] at *

theorem move_unhindered (found : disk.look draft = .file content) (can : CanReplace disk path) :
    (tools .none).move draft path disk = (true, (disk.delete draft).write path content) := by
  rcases can.free with missing | ⟨old, there⟩
  · simp [tools, Hindrance.none, found, can.inside, missing]
  · simp [tools, Hindrance.none, found, can.inside, there]

theorem replace_unhindered {directory last : List Char}
    (namedPath : Disk.Named path directory last) (name : Name)
    (fresh : disk.look (beside path name.text) = .missing) (can : CanReplace disk path)
    (content : ByteArray) :
    replace (tools .none) (beside path name.text) path content disk =
      (true, disk.write path content) := by
  have inside := look_parent_beside namedPath name can.inside
  have named := named_beside path name
  obtain ⟨_, here⟩ := Disk.canHold_of_named named inside (.inl fresh)
  have new : disk.at? (disk.place (beside path name.text)) = .missing := by rw [← here, fresh]
  have created : (tools .none).create (beside path name.text) disk =
      (true, disk.write (beside path name.text) ByteArray.empty) := by
    simp [tools, Hindrance.none, inside, fresh]
  have filled : (tools .none).fill (beside path name.text) content
      (disk.write (beside path name.text) ByteArray.empty) =
        (true, disk.write (beside path name.text) content) := by
    simp [tools, Hindrance.none, Disk.write_write]
  have found := Disk.look_write_self named inside (.inl fresh) content
  have moved := move_unhindered found ((canReplace_write named inside fresh namedPath).mpr can)
  rw [Disk.delete_write new content] at moved
  exact replace_finished created ((finish_permitted filled rfl).trans moved)

end Draft

/-! Updates with their drafts. -/

namespace Update

open Draft

theorem put_ok {disk disk' : Disk} {path : String} {content : ByteArray} :
    put disk path content = .ok disk' ↔ CanReplace disk path ∧ disk' = disk.write path content := by
  constructor
  · intro placed
    obtain ⟨inside, free⟩ := exists_put_iff.mp ⟨disk', placed⟩
    refine ⟨⟨inside, free⟩, ?_⟩
    rcases free with missing | ⟨old, there⟩
    · simpa [put, inside, missing, eq_comm] using placed
    · simpa [put, inside, there, eq_comm] using placed
  · rintro ⟨⟨inside, missing | ⟨old, there⟩⟩, rfl⟩
    · simp [put, inside, missing]
    · simp [put, inside, there]

theorem put_error {disk : Disk} {path : String} {content : ByteArray} {error : BuildError}
    (failed : put disk path content = .error error) :
    error = .write path ∧ ¬ CanReplace disk path := by
  constructor
  · unfold put at failed
    split at failed
    next => cases failed
    next => cases failed
    next => exact (Except.error.inj failed).symm
  · intro can
    rw [put_ok.mpr ⟨can, rfl⟩] at failed
    cases failed

/-- A lock file that is prepared has a name of its own, since it is not the
definition. -/
theorem named_of_prepare {file context stage : String} {world : World} {request : Request}
    {refresh : Refresh} {report : UpdateReport} {locks : Fields} {first last : Trail}
    (made : Request.make file context stage = .ok request)
    (prepared : (prepare Kind.registry world request refresh).after first =
      (.ok (report, locks), last)) :
    ∃ directory name, Disk.Named report.path directory name := by
  obtain ⟨placed, d, middle, loaded, _, _, locked, _⟩ := prepare_ok prepared
  obtain ⟨file_eq, lockFile_eq⟩ := Machine.make_ok made
  have loads := loadDefinition_ok loaded
  have other : request.lockFile ≠ request.file := by
    intro same
    obtain ⟨text, _, read, _, _⟩ := loads.definition
    have noKind := (locksFit_of_locks locked).has_kind
    rw [Machine.has_kind_of_same loads read (by rw [same]; exact read)] at noKind
    cases noKind
  have beside : request.lockFile = Request.lockPath request.file := by rw [lockFile_eq, file_eq]
  obtain ⟨last, ends, notSlash⟩ := Request.lockFile_ends beside other
  refine Disk.named_of_getLast? ?_ notSlash
  simp only [lockPath] at placed
  split at placed
  next directory _ =>
    rw [← Except.ok.inj placed]
    exact Path.getLast?_join directory ends
  next => cases placed

/-- An update with its outcome and the disk after it, also where it fails. The
lock file is replaced through a draft of some name. -/
def carryOut (registry : Registry Kind) (world : World) (disk : Disk) (request : Request)
    (refresh : Refresh) (indexes : IndexStore) (hindrance : Hindrance) (name : Name) :
    Except BuildError UpdateReport × Disk :=
  match ((prepare registry world request refresh).runFrom indexes).1 with
  | .error error => (.error error, disk)
  | .ok (report, locks) =>
      match replace (tools hindrance) (beside report.path name.text) report.path (content locks)
        disk with
      | (true, disk) => (.ok report, disk)
      | (false, disk) => (.error (.write report.path), disk)

/-- What an update that succeeds does to the disk: the lock file holds the new
locks with the hash of the definition that was read, and every other file and
directory is as before. -/
structure Changes (world : World) (disk : Disk) (request : Request) (refresh : Refresh)
    (report : UpdateReport) (disk' : Disk) : Prop where
  placed : lockPath world.backend request = .ok report.path
  locked : ∃ d written first last, Loads world.backend request d ∧
    Wrote Kind.registry world request refresh d first written last ∧
    d.hash = .ok report.hash ∧ written.find? Definition.hashField = some (.text report.hash) ∧
    disk'.look report.path = .file (content written)
  others : ∀ path, disk.place path ≠ disk.place report.path →
    ∀ text, disk'.look path = .file text ↔ disk.look path = .file text
  directories : ∀ path, disk'.look path = .directory ↔ disk.look path = .directory

variable {file context stage : String} {world : World} {disk disk' : Disk} {request : Request}
  {refresh : Refresh} {indexes : IndexStore} {report : UpdateReport}

theorem changes_of_write {written : Fields} {last : Trail}
    (made : Request.make file context stage = .ok request)
    (prepared : (prepare Kind.registry world request refresh).runFrom indexes =
      (.ok (report, written), last))
    (can : CanReplace disk report.path) :
    Changes world disk request refresh report (disk.write report.path (content written)) := by
  rw [Act.runFrom_eq] at prepared
  obtain ⟨_, _, named⟩ := named_of_prepare made prepared
  obtain ⟨hold, _⟩ := Disk.canHold_of_named named can.inside can.free
  obtain ⟨placed, d, middle, own, loaded, locked, hashed, written_eq, _⟩ :=
    prepare_reports prepared
  refine ⟨placed, ?locked, ?others, fun path => Disk.look_directory_write hold _⟩
  case locked =>
    refine ⟨d, written, middle, last, loadDefinition_ok loaded,
      ⟨own, report.hash, locked, hashed, written_eq⟩, hashed, ?_, ?_⟩
    · rw [written_eq, Fields.find?_insert]
    · exact Disk.look_write_self named can.inside can.free _
  case others =>
    intro path elsewhere text
    rcases Disk.look_write hold (content written) path with same | ⟨_, here, _⟩ | ⟨now, before⟩
    · rw [same]
    · exact absurd here elsewhere
    -- What was missing before is behind the new lock file now, and no file either.
    · simp [now, before]

/-- An update that fails leaves the disk as it is, and one that succeeds puts the
lock file that it prepared. -/
theorem carryOut_cases (made : Request.make file context stage = .ok request) (world : World)
    (disk : Disk) (refresh : Refresh) (indexes : IndexStore) (hindrance : Hindrance)
    (name : Name) :
    (∃ error, carryOut Kind.registry world disk request refresh indexes hindrance name =
      (.error error, disk)) ∨
    ∃ report locks trail,
      (prepare Kind.registry world request refresh).runFrom indexes =
        (.ok (report, locks), trail) ∧
      CanReplace disk report.path ∧
      carryOut Kind.registry world disk request refresh indexes hindrance name =
        (.ok report, disk.write report.path (content locks)) := by
  unfold carryOut
  cases outcome : (prepare Kind.registry world request refresh).runFrom indexes with
  | mk answer trail =>
      cases answer with
      | error error => exact .inl ⟨error, rfl⟩
      | ok answer =>
          obtain ⟨report, locks⟩ := answer
          obtain ⟨_, _, named⟩ := named_of_prepare made (Act.runFrom_eq .. ▸ outcome)
          rcases replace_cases hindrance name named (content locks) disk with
            failed | ⟨can, replaced⟩
          · exact .inl ⟨.write report.path, by simp only [failed]⟩
          · exact .inr ⟨report, locks, trail, rfl, can, by simp only [replaced]⟩

theorem carryOut_hindered {hindrance : Hindrance} (step : Step)
    (fails : hindrance.fails step = true) (name : Name) :
    ∃ error disk', carryOut Kind.registry world disk request refresh indexes hindrance name =
      (.error error, disk') := by
  unfold carryOut
  rcases ((prepare Kind.registry world request refresh).runFrom indexes).1 with
    error | ⟨report, locks⟩
  · exact ⟨error, disk, rfl⟩
  · obtain ⟨left, replaced⟩ :=
      replace_hindered fails (beside report.path name.text) report.path (content locks) disk
    exact ⟨.write report.path, left, by simp only [replaced]⟩

theorem runFrom_run : (run Kind.registry world disk request refresh).runFrom indexes =
    match (prepare Kind.registry world request refresh).runFrom indexes with
    | (.ok (report, locks), trail) =>
        ((put disk report.path (content locks)).map fun disk => (report, disk), trail)
    | (.error error, trail) => (.error error, trail) := by
  rw [run, Act.runFrom_eq, Act.after_bind, Act.runFrom_eq]
  rcases (prepare Kind.registry world request refresh).after (Trail.start indexes) with
    ⟨error | ⟨report, locks⟩, trail⟩
  · rfl
  · simp only [Act.after_bind, Act.after_ofExcept]
    cases put disk report.path (content locks) <;> rfl

theorem carryOut_unhindered (made : Request.make file context stage = .ok request) (name : Name)
    (fresh : ∀ report locks trail,
      (prepare Kind.registry world request refresh).runFrom indexes =
        (.ok (report, locks), trail) → disk.look (beside report.path name.text) = .missing) :
    carryOut Kind.registry world disk request refresh indexes .none name =
      match ((run Kind.registry world disk request refresh).runFrom indexes).1 with
      | .ok (report, disk) => (.ok report, disk)
      | .error error => (.error error, disk) := by
  rw [runFrom_run]
  unfold carryOut
  cases outcome : (prepare Kind.registry world request refresh).runFrom indexes with
  | mk answer trail =>
      cases answer with
      | error error => rfl
      | ok answer =>
          obtain ⟨report, locks⟩ := answer
          obtain ⟨_, _, named⟩ := named_of_prepare made (Act.runFrom_eq .. ▸ outcome)
          cases placed : put disk report.path (content locks) with
          | ok disk' =>
              obtain ⟨can, rfl⟩ := put_ok.mp placed
              simp only [replace_unhindered named name (fresh _ _ _ outcome) can, placed]
              rfl
          | error error =>
              obtain ⟨rfl, cannot⟩ := put_error placed
              rcases replace_cases .none name named (content locks) disk with failed | ⟨can, _⟩
              · simp only [failed, placed]
                rfl
              · exact absurd can cannot

/-- An update changes its lock file and nothing else, or nothing at all, wherever
it fails and whatever hinders its draft. If nothing does, it is the update that
runs. -/
theorem update_all_or_nothing (made : Request.make file context stage = .ok request)
    (world : World) (disk : Disk) (refresh : Refresh) (indexes : IndexStore) (name : Name) :
    (∀ hindrance error disk',
      carryOut Kind.registry world disk request refresh indexes hindrance name =
        (.error error, disk') → disk' = disk) ∧
    (∀ hindrance report disk',
      carryOut Kind.registry world disk request refresh indexes hindrance name =
        (.ok report, disk') → Changes world disk request refresh report disk') ∧
    ((∀ report locks trail,
      (prepare Kind.registry world request refresh).runFrom indexes =
        (.ok (report, locks), trail) → disk.look (beside report.path name.text) = .missing) →
      carryOut Kind.registry world disk request refresh indexes .none name =
        match ((run Kind.registry world disk request refresh).runFrom indexes).1 with
        | .ok (report, disk) => (.ok report, disk)
        | .error error => (.error error, disk)) := by
  refine ⟨fun hindrance => ?fails, fun hindrance => ?succeeds, carryOut_unhindered made name⟩
  case fails =>
    rcases carryOut_cases made world disk refresh indexes hindrance name with
      ⟨error, failed⟩ | ⟨report, locks, trail, prepared, can, done⟩
    · rw [failed]
      exact fun _ disk' same => (Prod.mk.inj same).2.symm
    · rw [done]
      intro error disk' same
      cases (Prod.mk.inj same).1
  case succeeds =>
    rcases carryOut_cases made world disk refresh indexes hindrance name with
      ⟨error, failed⟩ | ⟨report, locks, trail, prepared, can, done⟩
    · rw [failed]
      intro report disk' same
      cases (Prod.mk.inj same).1
    · rw [done]
      intro report' disk' same
      obtain ⟨report_eq, rfl⟩ := Prod.mk.inj same
      cases report_eq
      exact changes_of_write made prepared can

end Update

namespace Machine

def draftName : Draft.Name := ⟨".zbuild-1", by decide, by decide⟩

/-- An update of a definition whose draft cannot be moved fails, and succeeds
if it can. -/
theorem update_all_or_nothing_zbuild :
    (∃ report disk',
      Update.carryOut Kind.registry (alpine.world (project "zbuild.yml" bare))
        (project "zbuild.yml" bare) (prodOf "zbuild.yml") .all .empty .none draftName =
        (.ok report, disk') ∧
      Update.Changes (alpine.world (project "zbuild.yml" bare)) (project "zbuild.yml" bare)
        (prodOf "zbuild.yml") .all report disk') ∧
    ∃ error,
      Update.carryOut Kind.registry (alpine.world (project "zbuild.yml" bare))
        (project "zbuild.yml" bare) (prodOf "zbuild.yml") .all .empty ⟨(· == .move), 0⟩
        draftName = (.error error, project "zbuild.yml" bare) := by
  obtain ⟨fails, succeeds, unhindered⟩ := Update.update_all_or_nothing (make_prodOf "zbuild.yml")
    (alpine.world (project "zbuild.yml" bare)) (project "zbuild.yml" bare) .all .empty draftName
  constructor
  · obtain ⟨report, disk', trail, updated, _⟩ := run_of_prepares prepares_bare bareLocks_readBack
    have done := unhindered fun report locks trail prepared => ?fresh
    · rw [updated] at done
      exact ⟨report, disk', done, succeeds _ _ _ done⟩
    · rw [Act.runFrom_eq] at prepared
      obtain ⟨placed, _⟩ := Update.prepare_ok prepared
      have path_eq : "/src/./zbuild.lock" = report.path := Except.ok.inj placed
      rw [← path_eq]
      exact Found.eq_missing rfl
  · have stuck : Draft.Hindrance.fails ⟨(· == .move), 0⟩ .move = true := rfl
    obtain ⟨error, disk', failed⟩ := Update.carryOut_hindered .move stuck draftName
    rw [fails _ _ _ failed] at failed
    exact ⟨error, failed⟩

end Machine
end ImageLock
