/-
Plans after an update. A build plans each stage as the update found it, with the
image, the context and the locks that the update wrote.
-/
import ImageLock.Proofs.LockPath
import ImageLock.Proofs.Planning
import ImageLock.Proofs.Print
import ImageLock.Proofs.ReadBack

namespace ImageLock

namespace Machine

variable {m : Machine} {disk disk' : Disk} {request : Request} {path : String}
  {content : ByteArray}

/-! What is read after an update. -/

theorem holdsLocks_stored (stored : Stored m disk request path content disk') {fields : Fields}
    (parsed : Definition.parseFields request.lockFile content = .ok fields) :
    HoldsLocks (m.world disk').backend request fields := by
  have read : ((m.world disk').backend.read request.lockFile
      (.buildContext request.context)).1 = .ok content := by
    rw [read_local stored.isLocal, readLocal_ok, stored.path_eq, stored.after]
  simpa [HoldsLocks, read] using parsed

theorem parseFields_ok {file : String} {fields : Fields} :
    Definition.parseFields file content = .ok fields ↔
      Yaml.parse content = .ok (.map fields) ∨
        (Yaml.parse content = .ok .null ∧ fields = []) := by
  simp only [Definition.parseFields]
  cases Yaml.parse content with
  | error error => simp
  | ok node => cases node <;> simp [eq_comm]

/-- A definition that is its own lock file cannot be locked. -/
theorem has_kind_of_same {backend : Backend} {d : Definition} (loads : Loads backend request d)
    {text : ByteArray}
    (opened : (backend.read request.file (.buildContext request.context)).1 = .ok text)
    (same : (backend.read request.lockFile (.buildContext request.context)).1 = .ok text) :
    d.locks.has "kind" = true := by
  obtain ⟨⟨text', bare, read, parsed, _⟩, locks⟩ := loads
  have text_eq : text' = text := Except.ok.inj (read.symm.trans opened)
  subst text_eq
  rw [HoldsLocks, same] at locks
  have fields : Definition.parseFields request.file text' = .ok d.locks :=
    parseFields_ok.mpr (parseFields_ok.mp locks)
  simp only [Definition.parse, fields, bind, Except.bind] at parsed
  rw [← Fields.find?_isSome]
  cases kind : d.locks.find? "kind" with
  | some value => rfl
  | none => simp [Fields.take, kind] at parsed

/-- An update leaves its definition as it was. -/
theorem loads_stored (stored : Stored m disk request path content disk') {d : Definition}
    {fields : Fields} (loads : Loads (m.world disk).backend request d)
    (noKind : d.locks.has "kind" = false)
    (parsed : Definition.parseFields request.lockFile content = .ok fields) :
    Loads (m.world disk').backend request { d with locks := fields } := by
  obtain ⟨text, bare, read, bareParsed, same⟩ := loads.definition
  have opened : disk.look (Docker.localPath m.root request.context request.file) = .file text := by
    rw [read_local stored.isLocal] at read
    exact readLocal_ok.mp read
  have kept : disk'.look (Docker.localPath m.root request.context request.file) = .file text := by
    rw [stored.write]
    rcases Disk.look_write stored.can content
      (Docker.localPath m.root request.context request.file) with same | ⟨_, _, old⟩ | ⟨_, old⟩
    · rw [same, opened]
    -- Only a definition that is its own lock file would have been written over.
    · have lockRead : ((m.world disk).backend.read request.lockFile
          (.buildContext request.context)).1 = .ok text := by
        rw [read_local stored.isLocal, readLocal_ok, stored.path_eq, stored.before, ← old, opened]
      rw [has_kind_of_same loads read lockRead] at noKind
      cases noKind
    · rw [opened] at old
      cases old
  refine ⟨⟨text, bare, ?_, bareParsed, ?_⟩, holdsLocks_stored stored parsed⟩
  · rw [read_local stored.isLocal]
    exact readLocal_ok.mpr kept
  · rw [same]

/-- Whether requirements are read from the lock file that was written. -/
def RequirementsInLockFile (m : Machine) (disk' : Disk) (path : String) (context : Context) :
    Prop :=
  context.isLocal = true ∧
    disk'.place (Docker.localPath m.root context Php.lockFile) = disk'.place path ∧
    ∃ text, disk'.look (Docker.localPath m.root context Php.lockFile) = .file text

/-- Locks that were written are no requirements of a project. -/
theorem requirements_inLockFile (stored : Stored m disk request path content disk')
    {context : Context} (inside : RequirementsInLockFile m disk' path context)
    (unreadable : JsonReader.fieldOf? "platform" content = none) :
    Act.Answers (Php.platformRequirements (m.world disk').backend context)
      (.error .undecodable) := by
  obtain ⟨isLocal, place_eq, text, found⟩ := inside
  have here := Disk.at?_of_look found
  have home : (disk.write path content).place path = disk.place path := rfl
  rw [place_eq, stored.write, home, Disk.at?_write stored.can, if_pos rfl] at here
  have same : content = text := Found.file.inj here
  refine Php.platformRequirements_undecodable ?_ unreadable
  rw [read_local isLocal, readLocal_ok, found, same]

/-- Requirements are what they were, or cannot be read any more. -/
theorem requirements_stored (stored : Stored m disk request path content disk')
    {context : Context} (outside : ¬ RequirementsInLockFile m disk' path context)
    {required : Except Php.PlatformError VersionMap}
    (before : Act.Answers (Php.platformRequirements (m.world disk).backend context) required) :
    Act.Answers (Php.platformRequirements (m.world disk').backend context) required ∨
      ∃ error, Act.Answers (Php.platformRequirements (m.world disk').backend context)
        (.error (.access error)) := by
  cases isLocal : context.isLocal with
  | false =>
      left
      rwa [← Php.platformRequirements_congr (read_git (isGit_of_isLocal_false isLocal) _)]
  | true =>
      have found := Disk.look_write stored.can content
        (Docker.localPath m.root context Php.lockFile)
      rw [← stored.write] at found
      rcases found with same | ⟨file, place_eq, _⟩ | ⟨blocked, _⟩
      · left
        have read : (m.world disk').backend.read Php.lockFile (.buildContext context) =
            (m.world disk).backend.read Php.lockFile (.buildContext context) := by
          simp [world, Docker.backend, isGit_of_isLocal isLocal, readLocal_congr same]
        rwa [Php.platformRequirements_congr read]
      -- Only the place of the lock file has other content than before.
      · refine absurd ⟨isLocal, ?_, _, file⟩ outside
        rw [stored.write]
        exact place_eq
      · right
        have read : ((m.world disk').backend.read Php.lockFile (.buildContext context)).1 =
            .error (.unreadable (Docker.localPath m.root context Php.lockFile)) := by
          rw [read_local isLocal, readLocal_blocked blocked]
        exact ⟨_, Php.platformRequirements_error read rfl⟩

end Machine
/-! Plans that say what was locked. -/

/-- A plan with an image and a context, and with the definition and the locks of
its stage. -/
structure BuildPlan.Tells (plan : BuildPlan) (image : String) (context : Context)
    (definition locks : Node) : Prop where
  image : plan.image = image
  context : plan.context = context
  definition : plan.definition = (Json.ofNode definition).sorted
  locks : plan.locks = (Json.ofNode locks).sorted

theorem BuildPlan.Tells.withArgument {plan : BuildPlan} {image : String} {context : Context}
    {definition locks : Node} (tells : plan.Tells image context definition locks)
    (name value : String) :
    (plan.withArgument name value).Tells image context definition locks := by
  obtain ⟨image, context, definition, locks⟩ := tells
  exact ⟨image, context, definition, locks⟩

namespace Php

/-- Flags of the class loader can fail a plan, and nothing else does that
comes after the stage is found. -/
theorem plan_tells (php : Definition) (context : Context) (resolved : Resolved)
    (stage : StageLocks) (name : String) :
    (∃ plan,
      (withDumpOptions (planOf php context resolved stage name) resolved).map
        (withHealthcheck · resolved) = .ok plan ∧
      plan.Tells php.locks.image context resolved.toNode stage.toNode) ∨
    (withDumpOptions (planOf php context resolved stage name) resolved).map
      (withHealthcheck · resolved) = .error .conflictingDumpFlags := by
  have tells : (planOf php context resolved stage name).Tells php.locks.image context
      resolved.toNode stage.toNode := ⟨rfl, rfl, rfl, rfl⟩
  have checked {plan : BuildPlan}
      (tells : plan.Tells php.locks.image context resolved.toNode stage.toNode) :
      (withHealthcheck plan resolved).Tells php.locks.image context resolved.toNode
        stage.toNode := by
    unfold withHealthcheck
    split
    · exact tells.withArgument _ _
    · exact tells
  unfold withDumpOptions
  split
  · exact .inl ⟨_, rfl, checked tells⟩
  · unfold Resolved.dumpOptions
    split
    · exact .inl ⟨_, rfl, checked (tells.withArgument _ _)⟩
    · exact .inr rfl

end Php

theorem NodeJs.planOf_tells {nodeJs : NodeJs.Definition} {context : Context}
    {resolved : NodeJs.Resolved} {stage : NodeJs.StageLocks} {name : String}
    {installer : NodeJs.Installer} :
    (NodeJs.planOf nodeJs context resolved stage name installer).Tells nodeJs.locks.image context
      resolved.toNode stage.toNode := by
  unfold NodeJs.planOf
  simp only
  split
  · exact ⟨rfl, rfl, rfl, rfl⟩
  · exact ⟨rfl, rfl, rfl, rfl⟩

/-! From an update to the plans of its stages. -/

theorem Loads.withStage {backend : Backend} {request : Request} {d : Definition}
    (loads : Loads backend request d) (stage : String) :
    Loads backend { request with stage } d :=
  ⟨loads.definition, by simpa [HoldsLocks] using loads.locks⟩

namespace Machine

variable {m : Machine} {disk disk' : Disk} {request : Request} {path : String}

/-- The text of locks is no record of requirements. -/
theorem unreadable_content {fields : Fields} {image : Node} {rest : Fields}
    (first : fields = (.text "base_image", image) :: rest) :
    JsonReader.fieldOf? "platform" (Update.content fields) = none := by
  have simple : Yaml.isSimpleKey (.text "base_image") = true := rfl
  have plain : Yaml.style true "base_image" = .plain := rfl
  obtain ⟨more, text⟩ := Yaml.print_map_starts simple plain image rest
  rw [first, Update.content]
  exact JsonReader.fieldOf?_of_letter text.symm

/-- The plans of the stages of a definition after an update. A stage is planned
as it was locked, if its requirements are read; they are not if they are to be
read from the lock file itself. -/
structure PhpPlans (m : Machine) (disk' : Disk) (request : Request) (path : String)
    (locks : Php.Locks) (resolved : Php.Resolved) (stage : Php.StageLocks) : Prop where
  inside : m.RequirementsInLockFile disk' path (locks.source.getD request.context) →
    Act.Answers (Build.plan Kind.registry (m.world disk') request)
      (.error (.kind (.php .undecodableRequirements)))
  outside : ¬ m.RequirementsInLockFile disk' path (locks.source.getD request.context) →
    (∃ plan, Act.Answers (Build.plan Kind.registry (m.world disk') request) (.ok plan) ∧
      plan.Tells locks.image (locks.source.getD request.context) resolved.toNode
        stage.toNode) ∨
    Act.Answers (Build.plan Kind.registry (m.world disk') request)
      (.error (.kind (.php .conflictingDumpFlags))) ∨
    ∃ error, Act.Answers (Build.plan Kind.registry (m.world disk') request)
      (.error (.kind (.php (.access error))))

theorem phpPlans_of_stored {content : ByteArray} {d : Definition} {written : Fields}
    {php : Php.Definition} {locks : Php.Locks} {resolved : Php.Resolved}
    {stage : Php.StageLocks} {name : String}
    (stored : Stored m disk request path content disk')
    (loads : Loads (m.world disk').backend request { d with locks := written })
    (inSync : checkLockSync { d with locks := written } = .ok ())
    (unreadable : JsonReader.fieldOf? "platform" content = none)
    (isPhp : d.kind = Php.kind)
    (known : Php.Definition.ofDefinition { d with locks := written } = .ok { php with locks })
    (locked : Php.LockedAs (m.world disk) request php locks name resolved stage)
    (plain : Text.after? webserverStageLead name = none) :
    PhpPlans m disk' { request with stage := name } path locks resolved stage := by
  obtain ⟨required, read, found, there⟩ := locked
  have kind : Build.findKind Kind.registry d.kind = .ok .php := Kind.findKind_iff.mpr isPhp
  have planned {result : Except Php.Error BuildPlan}
      (answers : Act.Answers
        (Php.plan (m.world disk') { request with stage := name } { d with locks := written })
        result) :
      Act.Answers (Build.plan Kind.registry (m.world disk') { request with stage := name })
        ((result.mapError .php).mapError .kind) :=
    Build.answers_plan (loads.withStage name) inSync plain kind
      (Act.answers_mapError KindError.php answers)
  constructor
  case inside =>
    intro inside
    exact planned (Php.answers_plan_error known
      (requirements_inLockFile stored inside unreadable))
  case outside =>
    intro outside
    rcases requirements_stored stored outside read with same | ⟨error, fails⟩
    · have answers := planned (Php.answers_plan (Php.answers_resolve known same found) there)
      rcases Php.plan_tells { php with locks } (locks.source.getD request.context) resolved stage
        name with ⟨plan, plan_eq, tells⟩ | fails
      · left
        refine ⟨plan, ?_, tells⟩
        rwa [plan_eq] at answers
      · right; left
        rwa [fails] at answers
    · right; right
      exact ⟨error, planned (Php.answers_plan_error known fails)⟩

/-- The plans of the stages of a definition after an update. A stage is planned
as it was locked, if the lock files of its project can be looked for. -/
def NodeJsPlans (m : Machine) (disk' : Disk) (request : Request) (locks : NodeJs.Locks)
    (resolved : NodeJs.Resolved) (stage : NodeJs.StageLocks) : Prop :=
  (∃ plan, Act.Answers (Build.plan Kind.registry (m.world disk') request) (.ok plan) ∧
    plan.Tells locks.image (locks.source.getD request.context) resolved.toNode stage.toNode) ∨
  ∃ error, Act.Answers (Build.plan Kind.registry (m.world disk') request)
    (.error (.kind (.nodeJs (.access error))))

theorem nodeJsPlans_of_stored {d : Definition} {written : Fields} {nodeJs : NodeJs.Definition}
    {locks : NodeJs.Locks} {resolved : NodeJs.Resolved} {stage : NodeJs.StageLocks}
    {name : String}
    (loads : Loads (m.world disk').backend request { d with locks := written })
    (inSync : checkLockSync { d with locks := written } = .ok ())
    (isNodeJs : d.kind = NodeJs.kind)
    (known : NodeJs.Definition.ofDefinition { d with locks := written } =
      .ok { nodeJs with locks })
    (locked : NodeJs.LockedAs nodeJs locks name resolved stage)
    (plain : Text.after? webserverStageLead name = none) :
    NodeJsPlans m disk' { request with stage := name } locks resolved stage := by
  obtain ⟨found, there⟩ := locked
  have kind : Build.findKind Kind.registry d.kind = .ok .nodeJs := Kind.findKind_iff.mpr isNodeJs
  obtain ⟨installer, detected⟩ := NodeJs.answers_detectAmong (m.world disk').backend
    (.buildContext (locks.source.getD request.context)) NodeJs.Installer.lockFiles
  have answers : Act.Answers
      (NodeJs.plan (m.world disk') { request with stage := name } { d with locks := written })
      _ := NodeJs.answers_plan known found there detected
  have planned := Build.answers_plan (loads.withStage name) inSync plain kind
    (Act.answers_mapError KindError.nodeJs answers)
  cases installer with
  | error error => exact .inr ⟨error, planned⟩
  | ok installer => exact .inl ⟨_, planned, NodeJs.planOf_tells⟩

theorem make_ok {file context stage : String}
    (made : Request.make file context stage = .ok request) :
    request.file = file ∧ request.lockFile = Request.lockPath file := by
  simp only [Request.make, bind, Except.bind] at made
  split at made
  · cases made
  · cases made
    exact ⟨rfl, rfl⟩

/-- An update of a definition whose locks could be read wrote a file of its own. -/
theorem stored_of_update {file context stage : String} {content : ByteArray} {d : Definition}
    (made : Request.make file context stage = .ok request)
    (relative : file.toList.head? ≠ some '/') (loads : Loads (m.world disk).backend request d)
    (noKind : d.locks.has "kind" = false)
    (placed : Update.lockPath (m.world disk).backend request = .ok path)
    (written : Update.put disk path content = .ok disk') :
    Stored m disk request path content disk' := by
  obtain ⟨file_eq, lockFile_eq⟩ := make_ok made
  refine stored_of_put (by rw [lockFile_eq, file_eq]) ?_ (by rwa [file_eq]) placed written
  intro same
  obtain ⟨text, _, read, _, _⟩ := loads.definition
  rw [has_kind_of_same loads read (by rw [same]; exact read)] at noKind
  cases noKind

/-- An update that wrote locks, which read back. -/
structure Updated (m : Machine) (disk : Disk) (request : Request) (refresh : Refresh)
    (d : Definition) (path : String) (disk' : Disk) (written : Fields) (first last : Trail) :
    Prop where
  loads : Loads (m.world disk).backend request d
  wrote : Update.Wrote Kind.registry (m.world disk) request refresh d first written last
  placed : Update.lockPath (m.world disk).backend request = .ok path
  put : Update.put disk path (Update.content written) = .ok disk'
  parsed : Definition.parseFields request.lockFile (Update.content written) = .ok written

/-- An update that is prepared and put has locked the definition that it loaded,
from the indexes that it started with. -/
theorem updated_of_prepare {refresh : Refresh} {report : UpdateReport} {written : Fields}
    {start last : Trail}
    (prepared : (Update.prepare Kind.registry (m.world disk) request refresh).after start =
      (.ok (report, written), last))
    (put : Update.put disk report.path (Update.content written) = .ok disk')
    (readsBack : Yaml.parse (Update.content written) = .ok (.map written)) :
    ∃ d first, d.hash = .ok report.hash ∧ first.indexes = start.indexes ∧
      Updated m disk request refresh d report.path disk' written first last := by
  obtain ⟨placed, d, first, own, loaded, locked, hashed, written_eq, _⟩ :=
    Update.prepare_reports prepared
  have loads := loadDefinition_ok loaded
  have first_eq : first.indexes = start.indexes := by
    rw [after_loadDefinition loads] at loaded
    rw [← (Prod.mk.inj loaded).2]
    rfl
  exact ⟨d, first, hashed, first_eq, loads, ⟨own, report.hash, locked, hashed, written_eq⟩, placed,
    put, parseFields_ok.mpr (.inl readsBack)⟩

theorem updated_of_run {refresh : Refresh} {indexes : IndexStore} {report : UpdateReport}
    {trail : Trail}
    (updated : (Update.run Kind.registry (m.world disk) disk request refresh).runFrom indexes =
      (.ok (report, disk'), trail))
    (readsBack : ∀ written,
      (Update.prepare Kind.registry (m.world disk) request refresh).runFrom indexes =
        (.ok (report, written), trail) →
      Yaml.parse (Update.content written) = .ok (.map written)) :
    ∃ d written first,
      (Update.prepare Kind.registry (m.world disk) request refresh).runFrom indexes =
        (.ok (report, written), trail) ∧
      d.hash = .ok report.hash ∧ first.indexes = indexes ∧
      Updated m disk request refresh d report.path disk' written first trail := by
  rw [Act.runFrom_eq] at updated
  obtain ⟨written, prepared, put⟩ := Update.run_ok.mp updated
  obtain ⟨d, first, done⟩ := updated_of_prepare prepared put (readsBack written prepared)
  exact ⟨d, written, first, prepared, done⟩

/-- Every stage of a PHP definition is planned as it was locked. -/
def PhpAsLocked (m : Machine) (disk disk' : Disk) (request : Request) (path : String)
    (d : Definition) : Prop :=
  ∃ php locks first last,
    Php.Definition.ofDefinition d = .ok php ∧
    (Php.lockDefinition (m.world disk) request .all d).after first = (.ok locks, last) ∧
    Php.Relocked (m.world disk) request .all php first locks last ∧
    ∀ name ∈ php.stages.keys, Text.after? webserverStageLead name = none →
      ∃ resolved stage, Php.LockedAs (m.world disk) request php locks name resolved stage ∧
        PhpPlans m disk' { request with stage := name } path locks resolved stage

/-- Every stage of a Node.js definition is planned as it was locked. -/
def NodeJsAsLocked (m : Machine) (disk disk' : Disk) (request : Request) (d : Definition) :
    Prop :=
  ∃ nodeJs locks first last,
    NodeJs.Definition.ofDefinition d = .ok nodeJs ∧
    (NodeJs.lockDefinition (m.world disk) .all d).after first = (.ok locks, last) ∧
    NodeJs.Relocked (m.world disk) .all nodeJs first locks last ∧
    ∀ name ∈ nodeJs.stages.keys, Text.after? webserverStageLead name = none →
      ∃ resolved stage, NodeJs.LockedAs nodeJs locks name resolved stage ∧
        NodeJsPlans m disk' { request with stage := name } locks resolved stage

theorem Updated.php {file context stage : String} {d : Definition} {written : Fields}
    {first last : Trail} (made : Request.make file context stage = .ok request)
    (relative : file.toList.head? ≠ some '/')
    (updated : Updated m disk request .all d path disk' written first last)
    (isPhp : d.kind = Php.kind) : PhpAsLocked m disk disk' request path d := by
  obtain ⟨loads, wrote, placed, put, parsed⟩ := updated
  obtain ⟨php, locks, last, known, relocked, writtenAs, image, rest, starts⟩ :=
    Php.wrote_ok isPhp wrote
  have noKind := StagedLocks.has_kind (Php.Definition.decodeLocks_of_ok known)
  have stored := stored_of_update made relative loads noKind placed put
  have loads' := loads_stored stored loads noKind parsed
  have known' := Php.Definition.ofDefinition_written known writtenAs
  refine ⟨php, locks, first, last, known, Php.lockDefinition_ok.mpr ⟨php, known, relocked⟩,
    relocked, fun name member plain => ?_⟩
  obtain ⟨resolved, stage, locked⟩ := relocked.lockedAs member
  exact ⟨resolved, stage, locked, phpPlans_of_stored stored loads' (checkLockSync_wrote wrote)
    (unreadable_content starts) isPhp known' locked plain⟩

theorem Updated.nodeJs {file context stage : String} {d : Definition} {written : Fields}
    {first last : Trail} (made : Request.make file context stage = .ok request)
    (relative : file.toList.head? ≠ some '/')
    (updated : Updated m disk request .all d path disk' written first last)
    (isNodeJs : d.kind = NodeJs.kind) : NodeJsAsLocked m disk disk' request d := by
  obtain ⟨loads, wrote, placed, put, parsed⟩ := updated
  obtain ⟨nodeJs, locks, last, known, relocked, writtenAs, _⟩ := NodeJs.wrote_ok isNodeJs wrote
  have noKind := StagedLocks.has_kind (NodeJs.Definition.decodeLocks_of_ok known)
  have stored := stored_of_update made relative loads noKind placed put
  have loads' := loads_stored stored loads noKind parsed
  have known' := NodeJs.Definition.ofDefinition_written known writtenAs
  refine ⟨nodeJs, locks, first, last, known,
    NodeJs.lockDefinition_ok.mpr ⟨nodeJs, known, relocked⟩, relocked,
    fun name member plain => ?_⟩
  obtain ⟨resolved, stage, locked⟩ := relocked.lockedAs member
  exact ⟨resolved, stage, locked,
    nodeJsPlans_of_stored loads' (checkLockSync_wrote wrote) isNodeJs known' locked plain⟩

/-- After an update that looked everything up, every stage is planned as it was
locked, but for a project whose requirements are in the lock file. -/
theorem plans_of_update {file context stage : String} {indexes : IndexStore}
    {report : UpdateReport} {trail : Trail}
    (made : Request.make file context stage = .ok request)
    (relative : file.toList.head? ≠ some '/')
    (updated : (Update.run Kind.registry (m.world disk) disk request .all).runFrom indexes =
      (.ok (report, disk'), trail))
    (readsBack : ∀ written,
      (Update.prepare Kind.registry (m.world disk) request .all).runFrom indexes =
        (.ok (report, written), trail) →
      Yaml.parse (Update.content written) = .ok (.map written)) :
    ∃ d, Loads (m.world disk).backend request d ∧
      (d.kind = Php.kind → PhpAsLocked m disk disk' request report.path d) ∧
      (d.kind = NodeJs.kind → NodeJsAsLocked m disk disk' request d) := by
  obtain ⟨d, written, first, _, _, _, done⟩ := updated_of_run updated readsBack
  exact ⟨d, done.loads, done.php made relative, done.nodeJs made relative⟩

/-! A machine whose images all hold one system. -/

/-- Whatever is called answers with the release of the system. -/
def alpine : Machine where
  docker := ⟨"docker", fun _ => some ⟨some 0, "ID=alpine\n".toUTF8, ByteArray.empty⟩⟩
  root := "/src"
  isCancelled := false
  packages := .tools
  extensions := ExtensionIndex.ofList []

/-- A directory with a definition and nothing else. -/
def project (file definition : String) : Disk :=
  (Disk.empty "/").write ("/src/" ++ file) definition.toUTF8

def prodOf (file : String) : Request :=
  ⟨file, Request.lockPath file, "prod", Context.ofDirectory "."⟩

theorem make_prodOf (file : String) : Request.make file "" "prod" = .ok (prodOf file) := rfl

/-- A definition without extensions of its own. -/
def bare : String := "kind: php\nbase: a@sha256:b\ninfer: false\n"

def bareLocks : Fields :=
  (lockFields (Php.Locks.toNode
    { image := "a@sha256:b", os := ⟨"alpine", "", ""⟩, source := none
      stages := Names.ofList [("dev", ⟨.empty, .empty⟩), ("prod", ⟨.empty, .empty⟩)] })).insert
    Definition.hashField
    (.text "5c3e2c325ad2aa671d5a53c2d845df23ff2b136371b20b86d93391b93e3ff5db")

theorem bareLocks_readBack : Yaml.readsBack (.map bareLocks) = true := by decide +kernel

/-- Whether an update that looks everything up prepares locks, and can put them. -/
def prepares (m : Machine) (disk : Disk) (request : Request) (locks : Fields) : Bool :=
  ((Update.prepare Kind.registry (m.world disk) request .all).runFrom .empty).1.toOption.any
    fun answer => Node.identicalFields answer.2 locks &&
      (Update.put disk answer.1.path (Update.content answer.2)).toOption.isSome

theorem prepared_of_prepares {locks : Fields} (prepared : prepares m disk request locks = true) :
    ∃ report disk' trail,
      (Update.prepare Kind.registry (m.world disk) request .all).runFrom .empty =
        (.ok (report, locks), trail) ∧
      Update.put disk report.path (Update.content locks) = .ok disk' := by
  obtain ⟨⟨report, written⟩, outcome, checked⟩ := Act.exists_of_any prepared
  simp only [Bool.and_eq_true] at checked
  obtain ⟨same, put⟩ := checked
  have locks_eq := Node.eq_of_identicalFields same
  subst locks_eq
  cases placed : Update.put disk report.path (Update.content written) with
  | error error => simp [placed, Except.toOption] at put
  | ok disk' => exact ⟨report, disk', _, outcome, placed⟩

theorem run_of_prepares {locks : Fields} (prepared : prepares m disk request locks = true)
    (reads : Yaml.readsBack (.map locks) = true) :
    ∃ report disk' trail,
      (Update.run Kind.registry (m.world disk) disk request .all).runFrom .empty =
        (.ok (report, disk'), trail) ∧
      ∀ written,
        (Update.prepare Kind.registry (m.world disk) request .all).runFrom .empty =
          (.ok (report, written), trail) →
        Yaml.parse (Update.content written) = .ok (.map written) := by
  obtain ⟨report, disk', trail, outcome, placed⟩ := prepared_of_prepares prepared
  refine ⟨report, disk', trail, Update.run_ok.mpr ⟨locks, outcome, placed⟩, ?_⟩
  intro written same
  have answer_eq := (Prod.mk.inj (outcome.symm.trans same)).1
  have written_eq : locks = written := (Prod.mk.inj (Except.ok.inj answer_eq)).2
  rw [← written_eq]
  exact Yaml.parse_print_of_readsBack reads

theorem prepares_bare :
    prepares alpine (project "zbuild.yml" bare) (prodOf "zbuild.yml") bareLocks = true := by
  decide +kernel

theorem plans_of_update_zbuild :
    ∃ report disk' trail,
      (Update.run Kind.registry (alpine.world (project "zbuild.yml" bare))
        (project "zbuild.yml" bare) (prodOf "zbuild.yml") .all).runFrom .empty =
        (.ok (report, disk'), trail) ∧
      ∃ d, Loads (alpine.world (project "zbuild.yml" bare)).backend (prodOf "zbuild.yml") d ∧
        PhpAsLocked alpine (project "zbuild.yml" bare) disk' (prodOf "zbuild.yml") report.path
          d := by
  have declared : declares (alpine.world (project "zbuild.yml" bare)).backend
      (prodOf "zbuild.yml") (fun d => d.kind == Php.kind) = true := by decide +kernel
  obtain ⟨report, disk', trail, updated, readsBack⟩ :=
    run_of_prepares prepares_bare bareLocks_readBack
  obtain ⟨d, loads, php, _⟩ :=
    plans_of_update (make_prodOf "zbuild.yml") (by decide) updated readsBack
  have isPhp := loads.check declared
  exact ⟨report, disk', trail, updated, d, loads, php (by simpa using isPhp)⟩

/-! A definition whose lock file has the name of another one. -/

theorem prepares_composer :
    prepares alpine (project "composer.yml" bare) (prodOf "composer.yml") bareLocks = true := by
  decide +kernel

/-- A project in the directory of its definition, with a stage to build. -/
theorem declares_composer :
    declares (alpine.world (project "composer.yml" bare)).backend (prodOf "composer.yml")
      (fun d => d.kind == Php.kind && (Php.Definition.ofDefinition d).toOption.any fun php =>
        php.source.isNone && php.stages.has "prod") = true := by
  decide +kernel

/-- Its requirements are read from what was locked, which fails. -/
theorem plans_of_update_composer :
    ∃ report disk' trail,
      (Update.run Kind.registry (alpine.world (project "composer.yml" bare))
        (project "composer.yml" bare) (prodOf "composer.yml") .all).runFrom .empty =
        (.ok (report, disk'), trail) ∧
      (∀ written,
        (Update.prepare Kind.registry (alpine.world (project "composer.yml" bare))
          (prodOf "composer.yml") .all).runFrom .empty = (.ok (report, written), trail) →
        Yaml.parse (Update.content written) = .ok (.map written)) ∧
      Act.Answers (Build.plan Kind.registry (alpine.world disk') (prodOf "composer.yml"))
        (.error (.kind (.php .undecodableRequirements))) := by
  obtain ⟨report, disk', trail, updated, readsBack⟩ :=
    run_of_prepares prepares_composer bareLocks_readBack
  refine ⟨report, disk', trail, updated, readsBack, ?_⟩
  obtain ⟨d, written, first, _, _, _, done⟩ := updated_of_run updated readsBack
  have checked := done.loads.check declares_composer
  simp only [Bool.and_eq_true, beq_iff_eq] at checked
  obtain ⟨isPhp, own⟩ := checked
  obtain ⟨php, locks, _, _, known, _, relocked, planned⟩ :=
    done.php (make_prodOf "composer.yml") (by decide) isPhp
  obtain ⟨unlocked, _, unlocked_eq, decoded, php_eq⟩ := Php.Definition.ofDefinition_ok.mp known
  have plain : php.source = none ∧ "prod" ∈ php.stages.keys := by
    rw [php_eq, Names.mem_keys]
    simpa [unlocked_eq, Except.toOption] using own
  have unsourced : locks.source = none := by
    obtain ⟨_, _, _, _, _, moved, _, _⟩ := relocked.settled
    rw [plain.1] at moved
    exact (Act.pure_ok.mp moved).1
  have stored := stored_of_update (make_prodOf "composer.yml") (by decide) done.loads
    (StagedLocks.has_kind decoded) done.placed done.put
  have same : Docker.localPath alpine.root (prodOf "composer.yml").context Php.lockFile =
      report.path := stored.path_eq
  have inside : alpine.RequirementsInLockFile disk' report.path (prodOf "composer.yml").context :=
    ⟨rfl, by rw [same], _, by rw [same]; exact stored.after⟩
  obtain ⟨_, _, _, plans⟩ := planned "prod" plain.2 (by decide)
  exact plans.inside (by rw [unsourced]; exact inside)

end Machine
end ImageLock
