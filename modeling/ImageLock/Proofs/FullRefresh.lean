/-
Updates that look everything up again. Locks of before have to be decoded, and
what they say does not matter beyond that.
-/
import ImageLock.Proofs.Agreement
import ImageLock.Proofs.Planning

namespace ImageLock

open Act

variable {a b : World} {request : Request} {ε α : Type}

theorem settle_true (previous : Option α) (lookUp : Act ε α) :
    settle true previous lookUp = lookUp := by
  cases previous <;> rfl

/-! Kinds that lock the same from any locks. -/

namespace Php

end Php

namespace NodeJs

end NodeJs

namespace Webserver

theorem Definition.ofDefinition_ok {d : ImageLock.Definition} {webserver : Definition}
    {locks : Locks} :
    Definition.ofDefinition d = .ok (webserver, locks) ↔
      ImageLock.Definition.decode "webserver definition" Definition.read d.config =
        .ok webserver ∧
      ImageLock.Definition.decodeLocks Locks.read Locks.empty d.locks = .ok locks := by
  unfold Definition.ofDefinition
  cases ImageLock.Definition.decode "webserver definition" Definition.read d.config with
  | error error => simp [bind, Except.bind]
  | ok known =>
      cases ImageLock.Definition.decodeLocks Locks.read Locks.empty d.locks with
      | error error => simp [bind, Except.bind]
      | ok own => simp [bind, Except.bind, pure, Except.pure]

end Webserver

namespace Kind

/-- Whether a kind can decode locks. -/
def ReadsLocks (kind : Kind) (fields : Fields) : Prop :=
  match kind with
  | .php => ∃ locks, Definition.decodeLocks Php.Locks.read StagedLocks.empty fields = .ok locks
  | .nodeJs =>
      ∃ locks, Definition.decodeLocks NodeJs.Locks.read StagedLocks.empty fields = .ok locks
  | .webserver =>
      ∃ locks, Definition.decodeLocks Webserver.Locks.read Webserver.Locks.empty fields =
        .ok locks

/-- What a definition that is locked reads of its project besides its locks. -/
def SameRequirements (a b : World) (request : Request) (d : Definition) : Prop :=
  ∀ php, Php.Definition.ofDefinition d = .ok php →
    (a.backend.read Php.lockFile (.buildContext (php.source.getD request.context))).1 =
      (b.backend.read Php.lockFile (.buildContext (php.source.getD request.context))).1

variable {kind : Kind} {d : Definition} {fields own : Fields} {first first' last : Trail}

/-- A kind that locks a definition has decoded the locks of before. -/
theorem readsLocks_of_lock {refresh : Refresh}
    (run : (kind.lock a request refresh d).after first = (.ok own, last)) :
    kind.ReadsLocks d.locks := by
  cases kind with
  | php =>
      obtain ⟨locks, _, locked, _⟩ := bind_ok.mp run
      obtain ⟨php, known, _⟩ := Php.lockDefinition_ok.mp (mapError_ok.mp locked)
      exact ⟨_, Php.Definition.decodeLocks_of_ok known⟩
  | nodeJs =>
      obtain ⟨locks, _, locked, _⟩ := bind_ok.mp run
      obtain ⟨nodeJs, known, _⟩ := NodeJs.lockDefinition_ok.mp (mapError_ok.mp locked)
      exact ⟨_, NodeJs.Definition.decodeLocks_of_ok known⟩
  | webserver =>
      obtain ⟨locks, _, locked, _⟩ := bind_ok.mp run
      obtain ⟨webserver, previous, known, _⟩ :=
        Webserver.lockDefinition_ok.mp (mapError_ok.mp locked)
      exact ⟨_, (Webserver.Definition.ofDefinition_ok.mp known).2⟩

end Kind

/-! Updates that write the same. -/

namespace Update

/-- Locks that can be decoded by the kind of their definition, and those of the
webserver inside it by the kind of webservers. -/
structure LocksFit (d : Definition) : Prop where
  own : ∃ kind, Build.findKind Kind.registry d.kind = .ok kind ∧ kind.ReadsLocks d.locks
  server : holdsWebserver Kind.registry d = true → Kind.webserver.ReadsLocks d.webserver.locks

variable {d : Definition} {fields own : Fields} {first first' last : Trail}

theorem locksFit_of_locks {refresh : Refresh}
    (run : (locks Kind.registry a request refresh d).after first = (.ok own, last)) :
    LocksFit d := by
  obtain ⟨kind, fields, middle, known, locked, beside⟩ := locks_ok.mp run
  refine ⟨⟨kind, known, Kind.readsLocks_of_lock locked⟩, fun held => ?_⟩
  rw [ServerLocked, if_pos held] at beside
  obtain ⟨serverKind, server, serverKnown, serverLocked, _⟩ := beside
  have same : serverKind = .webserver := (Except.ok.inj serverKnown).symm
  subst same
  exact Kind.readsLocks_of_lock serverLocked

/-- What an update writes, if it comes to an end. -/
def Writes (world : World) (disk : Disk) (request : Request) (refresh : Refresh)
    (indexes : IndexStore) (written : Fields) : Prop :=
  ∃ report disk' trail,
    (prepare Kind.registry world request refresh).runFrom indexes =
      (.ok (report, written), trail) ∧
    put disk report.path (content written) = .ok disk'

/-- Whether an update comes to an end. -/
def succeeds (world : World) (disk : Disk) (request : Request) (refresh : Refresh)
    (indexes : IndexStore) : Bool :=
  ((run Kind.registry world disk request refresh).runFrom indexes).1.toOption.isSome

theorem succeeds_iff {world : World} {disk : Disk} {refresh : Refresh} {indexes : IndexStore} :
    succeeds world disk request refresh indexes = true ↔
      ∃ written, Writes world disk request refresh indexes written := by
  unfold succeeds
  cases outcome : (run Kind.registry world disk request refresh).runFrom indexes with
  | mk result trail =>
      cases result with
      | error error =>
          constructor
          · intro absurd
            cases absurd
          · rintro ⟨written, report, disk', trail', prepared, placed⟩
            have done := run_ok.mpr ⟨written, prepared, placed⟩
            cases outcome.symm.trans done
      | ok answer =>
          obtain ⟨report, disk'⟩ := answer
          obtain ⟨written, prepared, placed⟩ := run_ok.mp outcome
          exact ⟨fun _ => ⟨written, report, disk', trail, prepared, placed⟩, fun _ => rfl⟩

/-- The locks of before are there to decode, or there are none. -/
def Fits (world : World) (request : Request) : Prop :=
  ∃ d, Loads world.backend request d ∧ LocksFit d

theorem prepare_of_wrote {world : World} {refresh : Refresh} {path : String}
    {written : Fields} (placed : lockPath world.backend request = .ok path)
    (loads : Loads world.backend request d)
    (wrote : Wrote Kind.registry world request refresh d
      (loadedTrail world.backend request first) written last) :
    ∃ report, (prepare Kind.registry world request refresh).after first =
      (.ok (report, written), last) ∧ report.path = path := by
  obtain ⟨own, hash, locked, hashed, rfl⟩ := wrote
  have loaded := after_loadDefinition loads first
  have digest : d.hash.mapError BuildError.definition = .ok hash := by
    rw [hashed]
    rfl
  unfold prepare
  simp only [bind_ok, ofExcept_ok]
  exact ⟨_, ⟨path, _, ⟨placed, rfl⟩, d, _, loaded, own, _, locked, hash, _, ⟨digest, rfl⟩,
    pure_ok.mpr ⟨rfl, rfl⟩⟩, rfl⟩

theorem LocksFit.has_kind (fit : LocksFit d) : d.locks.has "kind" = false := by
  obtain ⟨⟨kind, _, reads⟩, _⟩ := fit
  cases kind with
  | php =>
      obtain ⟨_, decoded⟩ := reads
      exact StagedLocks.has_kind decoded
  | nodeJs =>
      obtain ⟨_, decoded⟩ := reads
      exact StagedLocks.has_kind decoded
  | webserver =>
      obtain ⟨_, decoded⟩ := reads
      exact Webserver.Locks.has_kind decoded

theorem exists_put_iff {disk : Disk} {path : String} {content : ByteArray} :
    (∃ disk', put disk path content = .ok disk') ↔
      disk.look (Path.parent path) = .directory ∧
        (disk.look path = .missing ∨ ∃ old, disk.look path = .file old) := by
  unfold put
  cases disk.look (Path.parent path) <;> cases disk.look path <;> simp

end Update

end ImageLock
