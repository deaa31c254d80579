/-
Lock files stand beside their definitions: an update writes the path that the
next load reads, in the directory that the definition was read from.

Reading a file of a context drops the slashes at the front of its name, and
writing a lock file does not. A name with a slash in front is therefore read
inside the context, while its lock file is written outside of it.
-/
import ImageLock.Proofs.AnyLockFile

namespace ImageLock

/-! Paths that name files. -/

/-- A path that ends in a slash, or in a lone dot behind one, is a directory if
it is anything. -/
theorem Disk.look_ne_file {disk : Disk} {path : String} {front tail : List Char}
    (split : path.toList = front ++ '/' :: tail) (stays : tail = [] ∨ tail = ['.'])
    (content : ByteArray) : disk.look path ≠ .file content := by
  intro found
  have pieces_eq : pieces path =
      (Text.splitWhere (· == '/') front).map String.ofList ++ [String.ofList tail] := by
    have single : Text.splitWhere (· == '/') tail = [tail] := by
      rcases stays with rfl | rfl <;> rfl
    simp [pieces, split, splitWhere_slash, single]
  simp only [look] at found
  split at found
  · cases found
  · split at found
    · rw [pieces_eq, follow_append] at found
      split at found
      next reached =>
        -- The last piece stays in the directory that the others lead to.
        have enter_eq (parts : List String) : enter parts (String.ofList tail) = parts := by
          rcases stays with rfl | rfl <;> rfl
        rcases follow_cases disk (disk.origin path)
          ((Text.splitWhere (· == '/') front).map String.ofList) with ends | fails | fails
        · rw [reached] at ends
          simp only [follow, ← ends, enter_eq] at found
          split at found <;> cases found
        · simp [reached] at fails
        · simp [reached] at fails
      next => simp at found
      next notDirectory notFile => exact notFile _ found
    · cases found

namespace Path

theorem dropTail_of_look {disk : Disk} {path : String} {front back : List Char}
    {content : ByteArray} (split : path.toList = front ++ back)
    (found : disk.look path = .file content) : dropTail back.reverse = back.reverse := by
  unfold dropTail
  -- A path that ends in a slash, or in a dot behind one, would be a directory.
  split
  next rest ends =>
    have closed : path.toList = (front ++ rest.reverse) ++ '/' :: [] := by
      rw [split, ← List.reverse_reverse back, ends]
      simp
    exact absurd found (Disk.look_ne_file closed (.inl rfl) content)
  next rest ends =>
    have closed : path.toList = (front ++ rest.reverse) ++ '/' :: ['.'] := by
      rw [split, ← List.reverse_reverse back, ends]
      simp
    exact absurd found (Disk.look_ne_file closed (.inr rfl) content)
  next => rfl

/-- What a relative path is seen behind, with a slash at its end. -/
def lead (outer : String) : List Char :=
  if outer.isEmpty || outer.toList.getLast? == some '/' then outer.toList
  else outer.toList ++ ['/']

theorem toList_join {inner : String} (outer : String) (relative : inner.toList.head? ≠ some '/') :
    (join outer inner).toList = lead outer ++ inner.toList := by
  unfold join lead
  by_cases empty : outer.isEmpty
  · have nothing : outer = "" := by simpa using empty
    simp [nothing]
  · by_cases slash : outer.toList.getLast? = some '/'
    · simp [relative, empty, slash]
    · simp [relative, empty, slash]

theorem getLast?_lead (outer : String) :
    lead outer = [] ∨ (lead outer).getLast? = some '/' := by
  unfold lead
  split
  next closed =>
    rcases Bool.or_eq_true .. ▸ closed with empty | slash
    · exact .inl (by simpa using empty)
    · exact .inr (by simpa using slash)
  next => exact .inr (by simp)

theorem named_join {inner : String} {directory name : List Char} (outer : String)
    (relative : inner.toList.head? ≠ some '/') (named : Disk.Named inner directory name) :
    Disk.Named (join outer inner) (lead outer ++ directory) name := by
  obtain ⟨split, whole, filled, ends⟩ := named
  refine ⟨?_, whole, filled, ?_⟩
  · rw [toList_join outer relative, split, List.append_assoc]
  · rcases ends with rfl | slash
    · simpa using getLast?_lead outer
    · right
      rw [List.getLast?_append, slash]
      rfl

theorem head?_withExtension_absolute {path extension : String}
    (absolute : path.toList.head? = some '/') :
    (withExtension path extension).toList.head? = some '/' := by
  cases found : splitName path with
  | none => simpa [withExtension, found] using absolute
  | some parts =>
      obtain ⟨directory, name⟩ := parts
      obtain ⟨_, _, whole, _, ends⟩ := splitName_joined found
      obtain ⟨starts, filled⟩ := splitName_starts found
      have outside : directory ≠ [] := by
        rintro rfl
        have first : name.head? = path.toList.head? := head?_of_starts starts filled
        exact whole (List.mem_of_mem_head? (by simpa [absolute] using first))
      have same : directory.head? = some '/' := by
        rw [head?_of_starts ((List.prefix_append _ _).trans starts) outside, absolute]
      unfold withExtension
      rw [found]
      dsimp only
      split <;> simp [same]

theorem named_withExtension {path extension : String} {directory name : List Char}
    (found : splitName path = some (directory, name)) (whole : '/' ∉ extension.toList) :
    ∃ other, Disk.Named (withExtension path extension) directory other := by
  obtain ⟨_, _, inside, _, ends⟩ := splitName_joined found
  unfold withExtension
  rw [found]
  dsimp only
  split
  · exact ⟨['.', '.'], by simp, by decide, by simp, ends⟩
  · refine ⟨stem name ++ '.' :: extension.toList, by simp, ?_, by simp, ends⟩
    have stemWhole : '/' ∉ stem name := fun member => inside ((stem_starts name).mem member)
    simp [stemWhole, whole]

/-- A file with another extension is in the same directory. -/
theorem parent_withExtension {disk : Disk} {outer path extension : String}
    {content : ByteArray} (relative : path.toList.head? ≠ some '/')
    (whole : '/' ∉ extension.toList) (found : disk.look (join outer path) = .file content) :
    parent (join outer (withExtension path extension)) = parent (join outer path) := by
  cases split : splitName path with
  | none => simp [withExtension, split]
  | some parts =>
      obtain ⟨directory, name⟩ := parts
      obtain ⟨joined, own⟩ := splitName_joined split
      have here : Disk.Named path directory name := by
        have last := dropTail_of_look (toList_join outer relative) found
        rw [last, List.reverse_reverse] at joined
        rwa [joined, String.ofList_toList] at own
      obtain ⟨other, beside⟩ := named_withExtension split whole
      rw [Disk.parent_eq (named_join outer relative here),
        Disk.parent_eq (named_join outer (head?_withExtension relative) beside)]

end Path

/-! What an update writes, and what is loaded next. -/

namespace Machine

variable {m : Machine} {disk disk' : Disk} {request : Request} {path : String}

/-- Where a file of a context is read from. It is asked for there and nowhere
else, and what is found there is its content. -/
structure ReadsFrom (m : Machine) (context : Context) (file path : String) : Prop where
  asked : ∀ disk, ((m.world disk).backend.read file (.buildContext context)).2 = [.look path]
  content : ∀ disk content,
    ((m.world disk).backend.read file (.buildContext context)).1 = .ok content ↔
      disk.look path = .file content

theorem readsFrom_localPath {context : Context} (isLocal : context.isLocal = true)
    (file : String) : m.ReadsFrom context file (Docker.localPath m.root context file) where
  asked disk := by simp [world, Docker.backend, isGit_of_isLocal isLocal]
  content disk content := by rw [read_local isLocal, readLocal_ok]

theorem ReadsFrom.eq_localPath {context : Context} {file : String}
    (reads : m.ReadsFrom context file path) (isLocal : context.isLocal = true) :
    path = Docker.localPath m.root context file := by
  have asked := (readsFrom_localPath (m := m) isLocal file).asked (Disk.empty "")
  simpa [reads.asked] using asked

theorem Updated.stored {file context stage : String} {refresh : Refresh} {d : Definition}
    {written : Fields} {first last : Trail}
    (updated : Updated m disk request refresh d path disk' written first last)
    (made : Request.make file context stage = .ok request)
    (relative : file.toList.head? ≠ some '/') :
    Stored m disk request path (Update.content written) disk' ∧
      Loads (m.world disk').backend request { d with locks := written } := by
  obtain ⟨loads, wrote, placed, put, parsed⟩ := updated
  obtain ⟨_, _, locked, _⟩ := wrote
  have noKind := (Update.locksFit_of_locks locked).has_kind
  have stored := stored_of_update made relative loads noKind placed put
  exact ⟨stored, loads_stored stored loads noKind parsed⟩

/-- An update of a definition that came to an end, with locks that read back. -/
structure Wrote (m : Machine) (disk : Disk) (request : Request) (refresh : Refresh)
    (d : Definition) (written : Fields) (disk' : Disk) : Prop where
  loads : Loads (m.world disk).backend request d
  run : ∃ indexes report trail,
    (Update.run Kind.registry (m.world disk) disk request refresh).runFrom indexes =
      (.ok (report, disk'), trail) ∧
    (Update.prepare Kind.registry (m.world disk) request refresh).runFrom indexes =
      (.ok (report, written), trail)
  readsBack : Yaml.parse (Update.content written) = .ok (.map written)

theorem Wrote.updated {refresh : Refresh} {d : Definition} {written : Fields}
    (wrote : Wrote m disk request refresh d written disk') :
    ∃ path first last, Updated m disk request refresh d path disk' written first last := by
  obtain ⟨loads, ⟨indexes, report, trail, run, prepared⟩, readsBack⟩ := wrote
  rw [Act.runFrom_eq] at run prepared
  obtain ⟨written', prepared', put⟩ := Update.run_ok.mp run
  have written_eq : written = written' := by
    have answer_eq := Except.ok.inj (Prod.mk.inj (prepared.symm.trans prepared')).1
    exact (Prod.mk.inj answer_eq).2
  rw [← written_eq] at put
  obtain ⟨d', first, _, _, done⟩ := updated_of_prepare prepared put readsBack
  rw [done.loads.unique loads] at done
  exact ⟨report.path, first, trail, done⟩

/-- The lock file of a request has one path, beside the definition: it is
written there and read from there. -/
structure LocksAt (m : Machine) (request : Request) (path : String) : Prop where
  written : ∀ disk, Update.lockPath (m.world disk).backend request = .ok path
  read : m.ReadsFrom request.context request.lockFile path
  beside : ∀ (disk : Disk) definition content, m.ReadsFrom request.context request.file definition →
    disk.look definition = .file content → Path.parent path = Path.parent definition
  next : ∀ disk refresh d locks disk', m.Wrote disk request refresh d locks disk' →
    disk'.look path = .file (Update.content locks) ∧ ∀ stage,
      Act.Answers (Build.loadDefinition (m.world disk') { request with stage })
        (.ok { d with locks })

theorem lockPath_local (isLocal : request.context.isLocal = true) (disk : Disk) :
    Update.lockPath (m.world disk).backend request =
      .ok (Path.join (Path.join m.root request.context.source) request.lockFile) := by
  simp [Update.lockPath, world, Docker.backend, isLocal]

/-- The lock file that is written is the one that is read, if the name of its
definition does not start with a slash. If it does, the lock file is written
outside of the context. -/
theorem lock_written_where_read {file context stage : String}
    (made : Request.make file context stage = .ok request)
    (isLocal : request.context.isLocal = true) :
    (file.toList.head? ≠ some '/' → m.LocksAt request (m.lockFile request)) ∧
    (file.toList.head? = some '/' →
      (∀ disk, Update.lockPath (m.world disk).backend request = .ok request.lockFile) ∧
      m.ReadsFrom request.context request.lockFile (m.lockFile request)) := by
  obtain ⟨file_eq, lockFile_eq⟩ := make_ok made
  have reads := readsFrom_localPath (m := m) isLocal request.lockFile
  refine ⟨fun relative => ?inside, fun absolute => ⟨fun disk => ?outside, reads⟩⟩
  case outside =>
    have starts : request.lockFile.toList.head? = some '/' := by
      rw [lockFile_eq]
      exact Path.head?_withExtension_absolute absolute
    rw [lockPath_local isLocal, Path.join]
    simp [starts]
  case inside =>
    have fileRelative : request.file.toList.head? ≠ some '/' := by rwa [file_eq]
    have lockRelative : request.lockFile.toList.head? ≠ some '/' := by
      rw [lockFile_eq]
      exact Path.head?_withExtension relative
    have path_eq : m.lockFile request =
        Path.join (Path.join m.root request.context.source) request.lockFile := by
      rw [lockFile, Docker.localPath, Path.withoutSlashes_of_relative lockRelative]
    refine ⟨fun disk => ?written, reads, ?beside, ?next⟩
    case written => rw [lockPath_local isLocal, path_eq]
    case beside =>
      intro disk definition content opened found
      rw [opened.eq_localPath isLocal, Docker.localPath,
        Path.withoutSlashes_of_relative fileRelative] at found ⊢
      rw [path_eq, lockFile_eq, ← file_eq]
      exact Path.parent_withExtension fileRelative (by decide) found
    case next =>
      intro disk refresh d locks disk' wrote
      obtain ⟨_, first, last, updated⟩ := wrote.updated
      obtain ⟨stored, loads⟩ := updated.stored made relative
      refine ⟨?_, fun stage => answers_loadDefinition (loads.withStage stage)⟩
      rw [lockFile, stored.path_eq, stored.after]

theorem wrote_of_prepares {locks : Fields} (prepared : prepares m disk request locks = true)
    (reads : Yaml.readsBack (.map locks) = true) :
    ∃ d disk', m.Wrote disk request .all d locks disk' := by
  obtain ⟨report, disk', trail, outcome, placed⟩ := prepared_of_prepares prepared
  have readsBack := Yaml.parse_print_of_readsBack reads
  have updated := Update.run_ok.mpr ⟨locks, outcome, placed⟩
  obtain ⟨d, first, _, _, done⟩ := updated_of_prepare outcome placed readsBack
  exact ⟨d, disk', done.loads, ⟨.empty, report, trail, updated, outcome⟩, readsBack⟩

theorem lock_written_where_read_nested :
    ∃ d disk',
      alpine.Wrote (project "api/zbuild.yml" bare) (prodOf "api/zbuild.yml") .all d bareLocks
        disk' ∧
      alpine.LocksAt (prodOf "api/zbuild.yml") "/src/./api/zbuild.lock" ∧
      disk'.look "/src/./api/zbuild.lock" = .file (Update.content bareLocks) := by
  have prepared : prepares alpine (project "api/zbuild.yml" bare) (prodOf "api/zbuild.yml")
      bareLocks = true := by decide +kernel
  have locksAt : alpine.LocksAt (prodOf "api/zbuild.yml") "/src/./api/zbuild.lock" :=
    (lock_written_where_read (make_prodOf "api/zbuild.yml") rfl).1 (by decide)
  obtain ⟨d, disk', wrote⟩ := wrote_of_prepares prepared bareLocks_readBack
  obtain ⟨found, _⟩ := locksAt.next _ _ _ _ _ wrote
  exact ⟨d, disk', wrote, locksAt, found⟩

/-- Whether an update puts a lock file at a path, and a build does not find it. -/
def loses (m : Machine) (disk : Disk) (request : Request) (path : String) : Bool :=
  ((Update.run Kind.registry (m.world disk) disk request .all).runFrom .empty).1.toOption.any
    fun answer => answer.1.path == path &&
      Act.failure? ((Build.plan Kind.registry (m.world answer.2) request).runFrom .empty).1 ==
        some .outOfSync

/-- A name with a slash in front is read inside the context, and its lock file
is written outside of it. The next build does not find it. -/
theorem lock_written_elsewhere :
    Request.make "/zbuild.yml" "" "prod" = .ok (prodOf "/zbuild.yml") ∧
    alpine.ReadsFrom (prodOf "/zbuild.yml").context "/zbuild.yml" "/src/./zbuild.yml" ∧
    alpine.ReadsFrom (prodOf "/zbuild.yml").context (prodOf "/zbuild.yml").lockFile
      "/src/./zbuild.lock" ∧
    ∃ report disk' trail,
      (Update.run Kind.registry (alpine.world (project "zbuild.yml" bare))
        (project "zbuild.yml" bare) (prodOf "/zbuild.yml") .all).runFrom .empty =
        (.ok (report, disk'), trail) ∧
      report.path = "/zbuild.lock" ∧
      ((Build.plan Kind.registry (alpine.world disk') (prodOf "/zbuild.yml")).runFrom .empty).1 =
        .error .outOfSync := by
  have lost : loses alpine (project "zbuild.yml" bare) (prodOf "/zbuild.yml") "/zbuild.lock" =
      true := by decide +kernel
  refine ⟨make_prodOf "/zbuild.yml", readsFrom_localPath rfl _, readsFrom_localPath rfl _, ?_⟩
  obtain ⟨⟨report, disk'⟩, outcome, checked⟩ := Act.exists_of_any lost
  simp only [Bool.and_eq_true, beq_iff_eq] at checked
  obtain ⟨place, fails⟩ := checked
  exact ⟨report, disk', _, outcome, place, Act.eq_error_of_failure? fails⟩

end Machine
end ImageLock
