/-
What an update that succeeds has done: it loaded a definition, locked it and the
webserver inside it, and hashed it.
-/
import ImageLock.Proofs.Act
import ImageLock.Proofs.Fields
import ImageLock.Proofs.Names
import ImageLock.Update

namespace ImageLock

/-! Loading. -/

/-- What a lock file holds; one that is missing holds nothing. Nothing is read
where this is only passed on, which is why it does not unfold by itself. -/
@[irreducible]
def HoldsLocks (backend : Backend) (request : Request) (fields : Fields) : Prop :=
  match (backend.read request.lockFile (.buildContext request.context)).1 with
  | .ok content => Definition.parseFields request.lockFile content = .ok fields
  | .error error => error.isNotFound = true ∧ fields = []

theorem HoldsLocks.congr {a b : Backend} {request : Request} {fields : Fields}
    (same : (a.read request.lockFile (.buildContext request.context)).1 =
      (b.read request.lockFile (.buildContext request.context)).1)
    (held : HoldsLocks a request fields) : HoldsLocks b request fields := by
  unfold HoldsLocks at held ⊢
  rwa [← same]

theorem HoldsLocks.unique {backend : Backend} {request : Request} {fields fields' : Fields}
    (one : HoldsLocks backend request fields) (other : HoldsLocks backend request fields') :
    fields = fields' := by
  unfold HoldsLocks at one other
  split at one
  next content found =>
    simp only [found] at other
    exact Except.ok.inj (one.symm.trans other)
  next error found =>
    simp only [found] at other
    rw [one.2, other.2]

theorem Definition.parse_locks {file : String} {content : ByteArray} {d : Definition}
    (parsed : Definition.parse file content = .ok d) : d.locks = [] := by
  simp only [Definition.parse, bind, Except.bind] at parsed
  split at parsed
  next => cases parsed
  next fields _ =>
    split at parsed
    next kind config _ =>
      split at parsed
      next => cases parsed
      next => cases parsed; rfl
    next => cases parsed

/-- What is loaded is the definition file with the fields of the lock file. -/
structure Loads (backend : Backend) (request : Request) (d : Definition) : Prop where
  definition : ∃ content bare,
    (backend.read request.file (.buildContext request.context)).1 = .ok content ∧
    Definition.parse request.file content = .ok bare ∧ d = { bare with locks := d.locks }
  locks : HoldsLocks backend request d.locks

theorem Loads.unique {backend : Backend} {request : Request} {d d' : Definition}
    (one : Loads backend request d) (other : Loads backend request d') : d = d' := by
  obtain ⟨⟨content, bare, read, parsed, same⟩, locks⟩ := one
  obtain ⟨⟨content', bare', read', parsed', same'⟩, locks'⟩ := other
  have content_eq : content = content' := Except.ok.inj (read.symm.trans read')
  subst content_eq
  have bare_eq : bare = bare' := Except.ok.inj (parsed.symm.trans parsed')
  subst bare_eq
  rw [same, same', locks.unique locks']

/-- Whether the definition file of a request passes a check, locks aside. -/
def declares (backend : Backend) (request : Request) (check : Definition → Bool) : Bool :=
  (backend.read request.file (.buildContext request.context)).1.toOption.any fun content =>
    (Definition.parse request.file content).toOption.any check

theorem Loads.check {backend : Backend} {request : Request} {check : Definition → Bool}
    {d : Definition} (loads : Loads backend request d)
    (passes : declares backend request check = true) : check { d with locks := [] } = true := by
  obtain ⟨⟨content, bare, read, parsed, same⟩, _⟩ := loads
  have own : { d with locks := [] } = bare := by
    rw [same, ← Definition.parse_locks parsed]
  rw [own]
  simpa [declares, read, parsed, Except.toOption] using passes

/-- What loading leaves behind: it asked for both files. -/
def loadedTrail (backend : Backend) (request : Request) (first : Trail) : Trail :=
  let source := Source.buildContext request.context
  { first with
    events := first.events ++ (backend.read request.file source).2 ++
      (backend.read request.lockFile source).2 }

theorem after_load {backend : Backend} {request : Request} {d : Definition}
    (loads : Loads backend request d) (first : Trail) :
    (load backend request).after first = (.ok d, loadedTrail backend request first) := by
  obtain ⟨⟨content, bare, read, parsed, same⟩, locks⟩ := loads
  refine Act.bind_ok.mpr ⟨.ok content, _, Act.attempt_ofReply_ok.mpr ⟨read.symm, rfl⟩, ?_⟩
  refine Act.bind_ok.mpr
    ⟨bare, _, Act.mapError_ok.mpr (Act.ofExcept_ok.mpr ⟨parsed, rfl⟩), ?_⟩
  unfold HoldsLocks at locks
  cases reply : (backend.read request.lockFile (.buildContext request.context)).1 with
  | ok text =>
      rw [reply] at locks
      have placed : bare.withLocks request.lockFile text = .ok d := by
        rw [Definition.withLocks, locks, same]
        rfl
      refine Act.bind_ok.mpr ⟨.ok text, _, Act.attempt_ofReply_ok.mpr ⟨reply.symm, rfl⟩, ?_⟩
      exact Act.mapError_ok.mpr (Act.ofExcept_ok.mpr ⟨placed, rfl⟩)
  | error error =>
      rw [reply] at locks
      have unlocked : bare = d := by
        rw [same, locks.2, ← Definition.parse_locks parsed]
      refine Act.bind_ok.mpr ⟨.error error, _, Act.attempt_ofReply_ok.mpr ⟨reply.symm, rfl⟩, ?_⟩
      simp only [locks.1, if_true]
      exact Act.pure_ok.mpr ⟨unlocked.symm, rfl⟩

theorem loads_of_ok {backend : Backend} {request : Request} {d : Definition}
    {first last : Trail} (run : (load backend request).after first = (.ok d, last)) :
    Loads backend request d := by
  obtain ⟨file, _, opened, run⟩ := Act.bind_ok.mp run
  obtain ⟨file_eq, rfl⟩ := Act.attempt_ofReply_ok.mp opened
  cases file with
  | error error =>
      by_cases missing : error.isNotFound
      · simp only [missing, if_true] at run
        obtain ⟨_, _, failed, _⟩ := Act.bind_ok.mp run
        exact (Act.fail_ok.mp failed).elim
      · simp only [missing] at run
        obtain ⟨_, _, failed, _⟩ := Act.bind_ok.mp run
        exact (Act.fail_ok.mp failed).elim
  | ok content =>
      obtain ⟨bare, _, read, run⟩ := Act.bind_ok.mp run
      obtain ⟨parsed, rfl⟩ := Act.ofExcept_ok.mp (Act.mapError_ok.mp read)
      obtain ⟨locks, _, opened, run⟩ := Act.bind_ok.mp run
      obtain ⟨locks_eq, rfl⟩ := Act.attempt_ofReply_ok.mp opened
      cases locks with
      | error error =>
          by_cases missing : error.isNotFound
          · simp only [missing, if_true] at run
            obtain ⟨rfl, rfl⟩ := Act.pure_ok.mp run
            refine ⟨⟨content, d, file_eq.symm, parsed, rfl⟩, ?_⟩
            simpa [HoldsLocks, ← locks_eq] using ⟨missing, Definition.parse_locks parsed⟩
          · simp only [missing] at run
            exact (Act.fail_ok.mp run).elim
      | ok text =>
          obtain ⟨placed, rfl⟩ := Act.ofExcept_ok.mp (Act.mapError_ok.mp run)
          cases fields : Definition.parseFields request.lockFile text with
          | error error => simp [Definition.withLocks, fields, bind, Except.bind] at placed
          | ok own =>
              have same : { bare with locks := own } = d := by
                simpa [Definition.withLocks, fields, bind, Except.bind, pure, Except.pure]
                  using placed
              subst same
              refine ⟨⟨content, bare, file_eq.symm, parsed, rfl⟩, ?_⟩
              simpa [HoldsLocks, ← locks_eq] using fields

theorem loadDefinition_ok {world : World} {request : Request} {d : Definition}
    {first last : Trail}
    (run : (Build.loadDefinition world request).after first = (.ok d, last)) :
    Loads world.backend request d :=
  loads_of_ok (Act.mapError_ok.mp run)

theorem after_loadDefinition {world : World} {request : Request} {d : Definition}
    (loads : Loads world.backend request d) (first : Trail) :
    (Build.loadDefinition world request).after first =
      (.ok d, loadedTrail world.backend request first) :=
  Act.mapError_ok.mpr (after_load loads first)

theorem answers_loadDefinition {world : World} {request : Request} {d : Definition}
    (loads : Loads world.backend request d) :
    Act.Answers (Build.loadDefinition world request) (.ok d) := by
  intro trail
  rw [after_loadDefinition loads]
  exact ⟨rfl, rfl⟩

/-! Kinds by their names. -/

namespace Kind

/-- The name that definitions of a kind have. -/
def name : Kind → String
  | .php => Php.kind
  | .nodeJs => NodeJs.kind
  | .webserver => Webserver.kind

/-- A kind is found by its name alone. -/
theorem findKind_iff {name : String} {kind : Kind} :
    Build.findKind registry name = .ok kind ↔ name = kind.name := by
  constructor
  · intro known
    simp only [Build.findKind, Registry.find, registry, Registry.register, Registry.empty,
      Names.find?_insert, Names.find?_empty] at known
    -- The kind that was registered last is looked at first.
    by_cases isServer : Webserver.kind = name
    · rw [if_pos isServer] at known
      rw [← isServer, ← Except.ok.inj known, Kind.name]
    · by_cases isNodeJs : NodeJs.kind = name
      · rw [if_neg isServer, if_pos isNodeJs] at known
        rw [← isNodeJs, ← Except.ok.inj known, Kind.name]
      · by_cases isPhp : Php.kind = name
        · rw [if_neg isServer, if_neg isNodeJs, if_pos isPhp] at known
          rw [← isPhp, ← Except.ok.inj known, Kind.name]
        · rw [if_neg isServer, if_neg isNodeJs, if_neg isPhp] at known
          cases known
  · rintro rfl
    cases kind <;> rfl

end Kind

/-! Locking and hashing. -/

namespace Update

/-- The locks of the webserver inside a definition, if it holds one. -/
def ServerLocked (registry : Registry Kind) (world : World) (request : Request)
    (refresh : Refresh) (d : Definition) (own : Fields) (before : Trail) (written : Fields)
    (after : Trail) : Prop :=
  if holdsWebserver registry d then
    ∃ kind server, Build.findKind registry Webserver.kind = .ok kind ∧
      (kind.lock world request refresh d.webserver).after before = (.ok server, after) ∧
      written = embedWebserver own server
  else written = own ∧ after = before

theorem locks_ok {registry : Registry Kind} {world : World} {request : Request}
    {refresh : Refresh} {d : Definition} {written : Fields} {first last : Trail} :
    (locks registry world request refresh d).after first = (.ok written, last) ↔
      ∃ kind own middle, Build.findKind registry d.kind = .ok kind ∧
        (kind.lock world request refresh d).after first = (.ok own, middle) ∧
        ServerLocked registry world request refresh d own middle written last := by
  unfold locks ServerLocked lockWith
  simp only [Act.bind_ok, Act.ofExcept_ok, Act.mapError_ok]
  by_cases held : holdsWebserver registry d
  · simp only [held, if_true, Act.bind_ok, Act.ofExcept_ok, Act.mapError_ok, Act.pure_ok]
    constructor
    · rintro ⟨kind, _, ⟨known, rfl⟩, own, middle, locked, serverKind, _, ⟨serverKnown, rfl⟩,
        server, _, serverLocked, same, rfl⟩
      exact ⟨kind, own, _, known, locked, serverKind, server, serverKnown, serverLocked, same⟩
    · rintro ⟨kind, own, middle, known, locked, serverKind, server, serverKnown, serverLocked,
        same⟩
      exact ⟨kind, _, ⟨known, rfl⟩, own, middle, locked, serverKind, _, ⟨serverKnown, rfl⟩,
        server, last, serverLocked, same, rfl⟩
  · simp only [held, Bool.false_eq_true, if_false, Act.pure_ok]
    constructor
    · rintro ⟨kind, _, ⟨known, rfl⟩, own, middle, locked, same, end_eq⟩
      exact ⟨kind, own, middle, known, locked, same, end_eq⟩
    · rintro ⟨kind, own, middle, known, locked, same, end_eq⟩
      exact ⟨kind, _, ⟨known, rfl⟩, own, middle, locked, same, end_eq⟩

/-- What an update writes for a definition: its locks and its hash. -/
def Wrote (registry : Registry Kind) (world : World) (request : Request) (refresh : Refresh)
    (d : Definition) (before : Trail) (written : Fields) (after : Trail) : Prop :=
  ∃ own hash, (locks registry world request refresh d).after before = (.ok own, after) ∧
    d.hash = .ok hash ∧ written = own.insert Definition.hashField (.text hash)

/-- What an update reports, and where it comes from. -/
theorem prepare_reports {registry : Registry Kind} {world : World} {request : Request}
    {refresh : Refresh} {report : UpdateReport} {written : Fields} {first last : Trail}
    (run : (prepare registry world request refresh).after first = (.ok (report, written), last)) :
    lockPath world.backend request = .ok report.path ∧
      ∃ d middle own, (Build.loadDefinition world request).after first = (.ok d, middle) ∧
        (locks registry world request refresh d).after middle = (.ok own, last) ∧
        d.hash = .ok report.hash ∧
        written = own.insert Definition.hashField (.text report.hash) ∧
        (report.updated, report.unchanged) = compare d.locks written := by
  simp only [prepare, Act.bind_ok, Act.ofExcept_ok] at run
  obtain ⟨path, _, ⟨placed, rfl⟩, d, middle, loaded, own, _, locked, hash, _, ⟨hashed, rfl⟩,
    run⟩ := run
  obtain ⟨same, rfl⟩ := Act.pure_ok.mp run
  cases same
  cases digest : d.hash with
  | error error => simp [digest] at hashed
  | ok text =>
      have equal : text = hash := by simpa [digest] using hashed
      subst equal
      exact ⟨placed, d, middle, own, loaded, locked, digest, rfl, rfl⟩

theorem prepare_ok {registry : Registry Kind} {world : World} {request : Request}
    {refresh : Refresh} {report : UpdateReport} {written : Fields} {first last : Trail}
    (run : (prepare registry world request refresh).after first = (.ok (report, written), last)) :
    lockPath world.backend request = .ok report.path ∧
      ∃ d middle, (Build.loadDefinition world request).after first = (.ok d, middle) ∧
        Wrote registry world request refresh d middle written last := by
  obtain ⟨placed, d, middle, own, loaded, locked, hashed, written_eq, _⟩ := prepare_reports run
  exact ⟨placed, d, middle, loaded, own, report.hash, locked, hashed, written_eq⟩

/-- An update writes what it prepared, in its place. -/
theorem run_ok {registry : Registry Kind} {world : World} {disk disk' : Disk}
    {request : Request} {refresh : Refresh} {report : UpdateReport} {first last : Trail} :
    (run registry world disk request refresh).after first = (.ok (report, disk'), last) ↔
      ∃ written,
        (prepare registry world request refresh).after first = (.ok (report, written), last) ∧
        put disk report.path (content written) = .ok disk' := by
  simp only [run, Act.bind_ok, Act.ofExcept_ok, Act.pure_ok]
  constructor
  · rintro ⟨⟨report', written⟩, _, prepared, disk', _, ⟨placed, rfl⟩, same, rfl⟩
    cases same
    exact ⟨written, prepared, placed⟩
  · rintro ⟨written, prepared, placed⟩
    exact ⟨(report, written), last, prepared, disk', last, ⟨placed, rfl⟩, rfl, rfl⟩

end Update
end ImageLock
