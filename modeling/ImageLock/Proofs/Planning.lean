/-
Planning what was locked. Locking and planning decode a definition alike, and
come to the same stages if they read the same requirements.
-/
import ImageLock.Proofs.Selective
import ImageLock.Proofs.Updating
import ImageLock.Proofs.WrittenLocks

namespace ImageLock

variable {ε D L : Type}

/-- A definition that is read with its locks is read without them and then
takes them in. -/
theorem lockedDefinition_ok {unlocked : Except ε D} {locks : Except DefinitionError L}
    {wrap : DefinitionError → ε} {lock : D → L → D} {d : D} :
    (do
      let unlocked ← unlocked
      let locks ← locks.mapError wrap
      return lock unlocked locks) = .ok d ↔
      ∃ bare own, unlocked = .ok bare ∧ locks = .ok own ∧ d = lock bare own := by
  cases unlocked with
  | error error => simp [bind, Except.bind]
  | ok bare =>
      cases locks with
      | error error => simp [bind, Except.bind]
      | ok own => simp [bind, Except.bind, pure, Except.pure, eq_comm]

/-! Locks that an update wrote. -/

/-- The locks of a definition are decoded again without the webserver's. -/
theorem Update.decodedAs_own {registry : Registry Kind} {world : World} {request : Request}
    {refresh : Refresh} {d : Definition} {own fields : Fields} {before after : Trail}
    (beside : ServerLocked registry world request refresh d own before fields after)
    (ofKind : own.OfKind) (hash : String) :
    DecodedAs own (fields.insert Definition.hashField (.text hash)) := by
  obtain ⟨filled, noHash, noServer⟩ := ofKind
  intro α read absent
  unfold ServerLocked at beside
  split at beside
  · obtain ⟨_, server, _, _, rfl⟩ := beside
    exact decodeLocks_embedded read absent filled noHash noServer server hash
  · obtain ⟨rfl, _⟩ := beside
    exact decodeLocks_hashed read absent filled noHash noServer hash

/-- Fields that are decoded as these locks are read, however stages are read. -/
def StagedLocks.WrittenAs {S : Type} (stageNode : S → Node) (locks : StagedLocks S)
    (written : Fields) : Prop :=
  ∀ (T : Type) (readStage : Decode.Reader T) (absent answer : StagedLocks T),
    Definition.decodeLocks (StagedLocks.read readStage) absent written = .ok answer ↔
      StagedLocks.read readStage (.record (toFields stageNode locks)) = .ok answer

/-- Whatever stands beside them, locks are decoded as they were written. -/
theorem StagedLocks.writtenAs {S : Type} {stageNode : S → Node}
    {locks : StagedLocks S} {registry : Registry Kind} {world : World} {request : Request}
    {refresh : Refresh} {d : Definition} {fields : Fields} {middle last : Trail}
    (beside : Update.ServerLocked registry world request refresh d
      (lockFields (.record (toFields stageNode locks))) middle fields last) (hash : String) :
    locks.WrittenAs stageNode (fields.insert Definition.hashField (.text hash)) := by
  intro T readStage absent answer
  rw [Update.decodedAs_own beside (ofKind stageNode locks) hash, Definition.decode_ok]
  rfl

theorem StagedLocks.WrittenAs.decodeLocks {S : Type} {readStage : Decode.Reader S}
    {stageNode : S → Node} {locks : StagedLocks S} {written : Fields}
    (writtenAs : locks.WrittenAs stageNode written)
    (reads : ∀ stage, readStage (stageNode stage) = .ok stage) :
    Definition.decodeLocks (StagedLocks.read readStage) StagedLocks.empty written = .ok locks :=
  (writtenAs S readStage _ _).mpr (read_record_self reads locks)

/-- The image comes first in what is written. -/
theorem StagedLocks.wrote_cons {S : Type} {stageNode : S → Node} {locks : StagedLocks S}
    {registry : Registry Kind} {world : World} {request : Request} {refresh : Refresh}
    {d : Definition} {fields : Fields} {middle last : Trail}
    (beside : Update.ServerLocked registry world request refresh d
      (lockFields (.record (toFields stageNode locks))) middle fields last) (hash : String) :
    ∃ image rest, fields.insert Definition.hashField (.text hash) =
      (.text "base_image", image) :: rest := by
  obtain ⟨rest, own⟩ := lockFields_cons stageNode locks
  have first : ∃ image rest, fields = (.text "base_image", image) :: rest := by
    rw [own, Update.ServerLocked] at beside
    split at beside
    · obtain ⟨_, server, _, _, rfl⟩ := beside
      exact Fields.insert_cons _ _ _ _
    · obtain ⟨rfl, _⟩ := beside
      exact ⟨_, _, rfl⟩
  obtain ⟨image, rest, rfl⟩ := first
  exact Fields.insert_cons _ _ _ _

/-- What was written belongs to the definition that it was written for. -/
theorem checkLockSync_wrote {registry : Registry Kind} {world : World} {request : Request}
    {refresh : Refresh} {d : Definition} {written : Fields} {first last : Trail}
    (wrote : Update.Wrote registry world request refresh d first written last) :
    checkLockSync { d with locks := written } = .ok () := by
  obtain ⟨own, hash, _, hashed, rfl⟩ := wrote
  have digest : ({ d with locks := own.insert Definition.hashField (.text hash) } :
      Definition).hash = .ok hash := hashed
  simp [checkLockSync, digest, Definition.lockedHash?, Fields.find?_insert,
    bind, Except.bind, pure, Except.pure]

theorem Build.answers_plan {registry : Registry Kind} {world : World} {request : Request}
    {d : Definition} {kind : Kind} {result : Except KindError BuildPlan}
    (loads : Loads world.backend request d) (inSync : checkLockSync d = .ok ())
    (plain : Text.after? webserverStageLead request.stage = none)
    (known : findKind registry d.kind = .ok kind)
    (planned : Act.Answers (kind.plan world request d) result) :
    Act.Answers (plan registry world request) (result.mapError .kind) := by
  refine Act.answers_bind (answers_loadDefinition loads) ?_
  refine Act.answers_bind (Act.answers_ofExcept inSync) ?_
  simp only [plain]
  refine Act.answers_bind (Act.answers_ofExcept known) ?_
  exact Act.answers_mapError BuildError.kind planned

/-! Requirements are only read. -/

namespace Php

theorem platformRequirements_error {backend : Backend} {context : Context}
    {error : AccessError} (read : (backend.read lockFile (.buildContext context)).1 = .error error)
    (there : error.isNotFound = false) :
    Act.Answers (platformRequirements backend context) (.error (.access error)) := by
  have asked := Act.answers_attempt PlatformError
    (Act.answers_ofReply (backend.read lockFile (.buildContext context)))
  rw [read] at asked
  refine Act.answers_bind asked ?_
  simpa [there] using Act.answers_fail _

theorem platformRequirements_undecodable {backend : Backend} {context : Context}
    {content : ByteArray}
    (read : (backend.read lockFile (.buildContext context)).1 = .ok content)
    (unreadable : JsonReader.fieldOf? "platform" content = none) :
    Act.Answers (platformRequirements backend context) (.error .undecodable) := by
  have asked := Act.answers_attempt PlatformError
    (Act.answers_ofReply (backend.read lockFile (.buildContext context)))
  rw [read] at asked
  refine Act.answers_bind asked ?_
  simpa [unreadable] using Act.answers_fail _

theorem answers_platformRequirements (backend : Backend) (context : Context) :
    ∃ answer, Act.Answers (platformRequirements backend context) answer := by
  have asked := Act.answers_attempt PlatformError
    (Act.answers_ofReply (backend.read lockFile (.buildContext context)))
  cases read : (backend.read lockFile (.buildContext context)).1 with
  | error error =>
      cases missing : error.isNotFound with
      | false => exact ⟨_, platformRequirements_error read missing⟩
      | true =>
          rw [read] at asked
          refine ⟨.ok .empty, Act.answers_bind asked ?_⟩
          simpa [missing] using Act.answers_pure _
  | ok content =>
      cases found : JsonReader.fieldOf? "platform" content with
      | none => exact ⟨_, platformRequirements_undecodable read found⟩
      | some platform =>
          rw [read] at asked
          refine ⟨.ok (platformOf platform), Act.answers_bind asked ?_⟩
          simpa [found] using Act.answers_pure _

/-- Requirements come from one file. -/
theorem platformRequirements_congr {a b : Backend} {context : Context}
    (same : a.read lockFile (.buildContext context) = b.read lockFile (.buildContext context)) :
    platformRequirements a context = platformRequirements b context := by
  unfold platformRequirements
  rw [same]

/-! The same definition with other locks. -/

namespace Definition

/-- The locks are decoded last, and nothing else depends on them. -/
theorem ofDefinition_eq (d : ImageLock.Definition) :
    ofDefinition d = do
      let unlocked ← ofDefinition { d with locks := [] }
      let locks ← (ImageLock.Definition.decodeLocks Locks.read StagedLocks.empty d.locks).mapError
        .definition
      return { unlocked with locks } := by
  have noLocks : (ImageLock.Definition.decodeLocks Locks.read StagedLocks.empty []).mapError
      Error.definition = pure StagedLocks.empty := rfl
  simp only [ofDefinition, noLocks, bind_assoc, pure_bind]

theorem ofDefinition_ok {d : ImageLock.Definition} {php : Definition} :
    ofDefinition d = .ok php ↔
      ∃ unlocked locks, ofDefinition { d with locks := [] } = .ok unlocked ∧
        ImageLock.Definition.decodeLocks Locks.read StagedLocks.empty d.locks = .ok locks ∧
        php = { unlocked with locks } := by
  rw [ofDefinition_eq]
  exact lockedDefinition_ok

theorem decodeLocks_of_ok {d : ImageLock.Definition} {php : Definition}
    (known : ofDefinition d = .ok php) :
    ImageLock.Definition.decodeLocks Locks.read StagedLocks.empty d.locks = .ok php.locks := by
  obtain ⟨unlocked, locks, _, decoded, rfl⟩ := ofDefinition_ok.mp known
  exact decoded

theorem ofDefinition_withLocks {d : ImageLock.Definition} {php : Definition} {fields : Fields}
    {locks : Locks} (known : ofDefinition d = .ok php)
    (decoded : ImageLock.Definition.decodeLocks Locks.read StagedLocks.empty fields = .ok locks) :
    ofDefinition { d with locks := fields } = .ok { php with locks } := by
  obtain ⟨unlocked, old, bare, _, rfl⟩ := ofDefinition_ok.mp known
  exact ofDefinition_ok.mpr ⟨unlocked, locks, bare, decoded, rfl⟩

/-- A definition is read with what an update wrote for it. -/
theorem ofDefinition_written {d : ImageLock.Definition} {php : Definition} {locks : Locks}
    {written : Fields} (known : ofDefinition d = .ok php)
    (writtenAs : locks.WrittenAs StageLocks.toNode written) :
    ofDefinition { d with locks := written } = .ok { php with locks } :=
  ofDefinition_withLocks known (writtenAs.decodeLocks StageLocks.read_toNode)

end Definition

/-! Plans. -/

theorem answers_resolve {world : World} {request : Request} {d : ImageLock.Definition}
    {php : Definition} {required : VersionMap} {resolved : Resolved}
    (known : Definition.ofDefinition d = .ok php)
    (read : Act.Answers
      (platformRequirements world.backend (php.locks.source.getD request.context)) (.ok required))
    (found : php.resolveStage request.stage required php.locks.os.family = .ok resolved) :
    Act.Answers (resolve world request d) (.ok (php, resolved)) := by
  refine Act.answers_bind (Act.answers_ofExcept known) ?_
  refine Act.answers_bind (Act.answers_mapError Error.ofPlatform read) ?_
  exact Act.answers_bind (Act.answers_ofExcept found) (Act.answers_pure _)

/-- The plan of a stage that is locked. -/
def planOf (php : Definition) (context : Context) (resolved : Resolved) (stage : StageLocks)
    (name : String) : BuildPlan :=
  BuildPlan.make kind name php.locks.image context resolved.isDev (Json.ofNode resolved.toNode)
    (Json.ofNode stage.toNode)

theorem answers_plan {world : World} {request : Request} {d : ImageLock.Definition}
    {php : Definition} {resolved : Resolved} {stage : StageLocks}
    (found : Act.Answers (resolve world request d) (.ok (php, resolved)))
    (locked : php.locks.stages.find? request.stage = some stage) :
    Act.Answers (plan world request d)
      ((withDumpOptions
        (planOf php (php.locks.source.getD request.context) resolved stage request.stage)
        resolved).map (withHealthcheck · resolved)) := by
  refine Act.answers_bind found ?_
  simp only [locked]
  cases options : withDumpOptions
      (planOf php (php.locks.source.getD request.context) resolved stage request.stage)
      resolved with
  | error error => exact Act.answers_bind_error (Act.answers_ofExcept options)
  | ok plan => exact Act.answers_bind (Act.answers_ofExcept options) (Act.answers_pure _)

/-- Without its requirements no stage is planned. -/
theorem answers_plan_error {world : World} {request : Request} {d : ImageLock.Definition}
    {php : Definition} {error : PlatformError}
    (known : Definition.ofDefinition d = .ok php)
    (read : Act.Answers
      (platformRequirements world.backend (php.locks.source.getD request.context))
      (.error error)) :
    Act.Answers (plan world request d) (.error (Error.ofPlatform error)) := by
  refine Act.answers_bind_error (Act.answers_bind (Act.answers_ofExcept known) ?_)
  exact Act.answers_bind_error (Act.answers_mapError Error.ofPlatform read)

/-! From locking to planning. -/

/-- How an update found a stage, and what it locked for it. -/
def LockedAs (world : World) (request : Request) (php : Definition) (locks : Locks)
    (name : String) (resolved : Resolved) (stage : StageLocks) : Prop :=
  ∃ required,
    Act.Answers (platformRequirements world.backend (locks.source.getD request.context))
      (.ok required) ∧
    php.resolveStage name required locks.os.family = .ok resolved ∧
    locks.stages.find? name = some stage

theorem Relocked.lockedAs {world : World} {request : Request} {refresh : Refresh}
    {php : Definition} {locks : Locks} {first last : Trail}
    (relocked : Relocked world request refresh php first locks last) {name : String}
    (member : name ∈ php.stages.keys) :
    ∃ resolved stage, LockedAs world request php locks name resolved stage := by
  obtain ⟨stages, required, _, sourced, read, _, _, asked, turns⟩ := relocked
  rw [← stages] at member
  obtain ⟨stage, there⟩ := Names.exists_of_mem_keys member
  obtain ⟨_, _, resolved, _, found, _, _⟩ := turns.of_mem there
  obtain ⟨answer, reads⟩ :=
    answers_platformRequirements world.backend (locks.source.getD request.context)
  have same := Act.answer_of_ok reads asked
  subst same
  exact ⟨resolved, stage, required, reads, found, Names.find?_of_mem there⟩

/-- An update of a definition has locked it, and its locks are there to decode. -/
theorem wrote_ok {world : World} {request : Request} {refresh : Refresh}
    {d : ImageLock.Definition} {written : Fields} {first last : Trail} (isPhp : d.kind = kind)
    (wrote : Update.Wrote Kind.registry world request refresh d first written last) :
    ∃ php locks middle, Definition.ofDefinition d = .ok php ∧
      Relocked world request refresh php first locks middle ∧
      locks.WrittenAs StageLocks.toNode written ∧
      ∃ image rest, written = (.text "base_image", image) :: rest := by
  obtain ⟨fields, hash, locked, _, rfl⟩ := wrote
  obtain ⟨kind, own, middle, known, locked, beside⟩ := Update.locks_ok.mp locked
  obtain rfl : kind = .php := Except.ok.inj (known.symm.trans (Kind.findKind_iff.mpr isPhp))
  obtain ⟨locks, _, locked, answer⟩ := Act.bind_ok.mp locked
  obtain ⟨rfl, rfl⟩ := Act.pure_ok.mp answer
  obtain ⟨php, read, relocked⟩ := lockDefinition_ok.mp (Act.mapError_ok.mp locked)
  exact ⟨php, locks, _, read, relocked,
    StagedLocks.writtenAs beside hash, StagedLocks.wrote_cons beside hash⟩

end Php

namespace NodeJs

namespace Definition

/-- The locks are decoded last, and nothing else depends on them. -/
theorem ofDefinition_eq (d : ImageLock.Definition) :
    ofDefinition d = do
      let unlocked ← ofDefinition { d with locks := [] }
      let locks ← (ImageLock.Definition.decodeLocks Locks.read StagedLocks.empty d.locks).mapError
        .definition
      return { unlocked with locks } := by
  have noLocks : (ImageLock.Definition.decodeLocks Locks.read StagedLocks.empty []).mapError
      Error.definition = pure StagedLocks.empty := rfl
  simp only [ofDefinition, noLocks, bind_assoc, pure_bind]
  refine bind_congr fun params => bind_congr fun base => ?_
  split
  · rfl
  · simp only [bind_assoc, pure_bind]

theorem ofDefinition_ok {d : ImageLock.Definition} {nodeJs : Definition} :
    ofDefinition d = .ok nodeJs ↔
      ∃ unlocked locks, ofDefinition { d with locks := [] } = .ok unlocked ∧
        ImageLock.Definition.decodeLocks Locks.read StagedLocks.empty d.locks = .ok locks ∧
        nodeJs = { unlocked with locks } := by
  rw [ofDefinition_eq]
  exact lockedDefinition_ok

theorem decodeLocks_of_ok {d : ImageLock.Definition} {nodeJs : Definition}
    (known : ofDefinition d = .ok nodeJs) :
    ImageLock.Definition.decodeLocks Locks.read StagedLocks.empty d.locks = .ok nodeJs.locks := by
  obtain ⟨unlocked, locks, _, decoded, rfl⟩ := ofDefinition_ok.mp known
  exact decoded

theorem ofDefinition_withLocks {d : ImageLock.Definition} {nodeJs : Definition}
    {fields : Fields} {locks : Locks} (known : ofDefinition d = .ok nodeJs)
    (decoded : ImageLock.Definition.decodeLocks Locks.read StagedLocks.empty fields = .ok locks) :
    ofDefinition { d with locks := fields } = .ok { nodeJs with locks } := by
  obtain ⟨unlocked, old, bare, _, rfl⟩ := ofDefinition_ok.mp known
  exact ofDefinition_ok.mpr ⟨unlocked, locks, bare, decoded, rfl⟩

/-- A definition is read with what an update wrote for it. -/
theorem ofDefinition_written {d : ImageLock.Definition} {nodeJs : Definition} {locks : Locks}
    {written : Fields} (known : ofDefinition d = .ok nodeJs)
    (writtenAs : locks.WrittenAs StageLocks.toNode written) :
    ofDefinition { d with locks := written } = .ok { nodeJs with locks } :=
  ofDefinition_withLocks known (writtenAs.decodeLocks StageLocks.read_toNode)

end Definition

/-! Plans. -/

theorem answers_detectAmong (backend : Backend) (source : Source)
    (files : List (String × Installer)) :
    ∃ answer, Act.Answers (Installer.detectAmong backend source files) answer := by
  induction files with
  | nil => exact ⟨_, Act.answers_pure _⟩
  | cons head rest ih =>
      obtain ⟨file, installer⟩ := head
      have read := Act.answers_attempt AccessError
        (Act.answers_ofReply (backend.read file source))
      cases reply : (backend.read file source).1 with
      | ok content =>
          rw [reply] at read
          exact ⟨_, Act.answers_bind read (Act.answers_pure _)⟩
      | error error =>
          rw [reply] at read
          by_cases missing : error.isNotFound
          · obtain ⟨answer, later⟩ := ih
            exact ⟨answer, Act.answers_bind read (by simpa [missing] using later)⟩
          · exact ⟨.error error,
              Act.answers_bind read (by simpa [missing] using Act.answers_fail _)⟩

/-- The plan of a stage that is locked, for an installer. -/
def planOf (nodeJs : Definition) (context : Context) (resolved : Resolved) (stage : StageLocks)
    (name : String) (installer : Installer) : BuildPlan :=
  let plan := (BuildPlan.make kind name nodeJs.locks.image context resolved.isDev
    (Json.ofNode resolved.toNode) (Json.ofNode stage.toNode))
    |>.withArgument "package_manager" installer.name
    |>.withArgument "install_command" installer.command
  if resolved.isDev then plan else plan.withArgument "node_env" "production"

theorem answers_plan {world : World} {request : Request} {d : ImageLock.Definition}
    {nodeJs : Definition} {resolved : Resolved} {stage : StageLocks}
    {installer : Except AccessError Installer}
    (known : Definition.ofDefinition d = .ok nodeJs)
    (found : nodeJs.resolveStage request.stage = .ok resolved)
    (locked : nodeJs.locks.stages.find? request.stage = some stage)
    (detected : Act.Answers
      (Installer.detect world.backend (nodeJs.locks.source.getD request.context)) installer) :
    Act.Answers (plan world request d)
      ((installer.mapError Error.access).map
        (planOf nodeJs (nodeJs.locks.source.getD request.context) resolved stage
          request.stage)) := by
  refine Act.answers_bind (Act.answers_ofExcept known) ?_
  refine Act.answers_bind (Act.answers_ofExcept found) ?_
  simp only [locked]
  have asked := Act.answers_mapError Error.access detected
  cases installer with
  | error error => exact Act.answers_bind_error asked
  | ok installer => exact Act.answers_bind asked (Act.answers_pure _)

/-! From locking to planning. -/

/-- How an update found a stage, and what it locked for it. -/
def LockedAs (nodeJs : Definition) (locks : Locks) (name : String) (resolved : Resolved)
    (stage : StageLocks) : Prop :=
  nodeJs.resolveStage name = .ok resolved ∧ locks.stages.find? name = some stage

theorem Relocked.lockedAs {world : World} {refresh : Refresh} {nodeJs : Definition}
    {locks : Locks} {first last : Trail}
    (relocked : Relocked world refresh nodeJs first locks last) {name : String}
    (member : name ∈ nodeJs.stages.keys) :
    ∃ resolved stage, LockedAs nodeJs locks name resolved stage := by
  obtain ⟨stages, _, _, _, _, turns⟩ := relocked
  rw [← stages] at member
  obtain ⟨stage, there⟩ := Names.exists_of_mem_keys member
  obtain ⟨_, _, resolved, found, _⟩ := turns.of_mem there
  exact ⟨resolved, stage, found, Names.find?_of_mem there⟩

/-- An update of a definition has locked it, and its locks are there to decode. -/
theorem wrote_ok {world : World} {request : Request} {refresh : Refresh}
    {d : ImageLock.Definition} {written : Fields} {first last : Trail}
    (isNodeJs : d.kind = kind)
    (wrote : Update.Wrote Kind.registry world request refresh d first written last) :
    ∃ nodeJs locks middle, Definition.ofDefinition d = .ok nodeJs ∧
      Relocked world refresh nodeJs first locks middle ∧
      locks.WrittenAs StageLocks.toNode written ∧
      ∃ image rest, written = (.text "base_image", image) :: rest := by
  obtain ⟨fields, hash, locked, _, rfl⟩ := wrote
  obtain ⟨kind, own, middle, known, locked, beside⟩ := Update.locks_ok.mp locked
  obtain rfl : kind = .nodeJs := Except.ok.inj (known.symm.trans (Kind.findKind_iff.mpr isNodeJs))
  obtain ⟨locks, _, locked, answer⟩ := Act.bind_ok.mp locked
  obtain ⟨rfl, rfl⟩ := Act.pure_ok.mp answer
  obtain ⟨nodeJs, read, relocked⟩ := lockDefinition_ok.mp (Act.mapError_ok.mp locked)
  exact ⟨nodeJs, locks, _, read, relocked,
    StagedLocks.writtenAs beside hash, StagedLocks.wrote_cons beside hash⟩

end NodeJs
end ImageLock
