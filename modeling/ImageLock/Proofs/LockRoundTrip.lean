/-
Lock files hold what was locked: the locks of a definition, those of the
webserver inside it, and the hash are all read back, from the mapping and from
its text.
-/
import ImageLock.Proofs.ReadBack
import ImageLock.Proofs.UpdatedAgain

namespace ImageLock

/-- A definition whose lock file holds locks of its kind, those of the webserver
inside it, and a hash. -/
structure Definition.Recovers {α : Type} (d : Definition) (read : Decode.Reader α)
    (absent locks : α) (server : Webserver.Locks) (hash : String) : Prop where
  locks : decodeLocks read absent d.locks = .ok locks
  server : decodeLocks Webserver.Locks.read Webserver.Locks.empty d.webserver.locks = .ok server
  hash : d.lockedHash? = some hash

theorem Webserver.Locks.ofKind (locks : Webserver.Locks) : (lockFields locks.toNode).OfKind :=
  ⟨List.cons_ne_nil _ _, rfl, rfl⟩

/-- Locks that were read are decoded from fields of their kind. -/
theorem Fields.OfKind.decodeLocks {α : Type} {read : Decode.Reader α} {own : Fields} {locks : α}
    (ofKind : own.OfKind) (reads : read (.map own) = .ok locks) (absent : α) :
    Definition.decodeLocks read absent own = .ok locks :=
  (ofKind.decodedAs α read absent).trans (Definition.decode_ok.mpr reads)

namespace Update

/-- The fields of a lock file: locks, those of a webserver, and a hash. -/
def lockFile (locks server : Node) (hash : String) : Fields :=
  (embedWebserver (lockFields locks) (lockFields server)).insert Definition.hashField
    (.text hash)

theorem lockedHash_lockFile (d : Definition) (locks server : Node) (hash : String) :
    Definition.lockedHash? { d with locks := lockFile locks server hash } = some hash := by
  simp only [Definition.lockedHash?, lockFile, Fields.find?_insert]

/-- A definition recovers what its lock file was made of, as long as locks of its
kind have none of the fields that belong to no kind. -/
theorem recovers_lockFile {α : Type} {read : Decode.Reader α} {node : Node} {locks : α}
    (ofKind : (lockFields node).OfKind) (reads : read (.map (lockFields node)) = .ok locks)
    (d : Definition) (absent : α) (server : Webserver.Locks) (hash : String) :
    Definition.Recovers { d with locks := lockFile node server.toNode hash } read absent locks
      server hash where
  locks := by
    have beside := decodeLocks_embedded read absent ofKind.filled ofKind.noHash ofKind.noServer
      (lockFields server.toNode) hash
    exact beside.trans (Definition.decode_ok.mpr reads)
  server := by
    have nested := webserver_embedded d (lockFields node) (lockFields server.toNode) hash
    rw [lockFile, nested]
    exact server.ofKind.decodeLocks server.read_toNode _
  hash := lockedHash_lockFile d node server.toNode hash

/-- What the text of a lock file denotes is what a definition gets from it. -/
theorem withLocks_content {fields : Fields}
    (readsBack : Yaml.parse (content fields) = .ok (.map fields)) (d : Definition)
    (file : String) : d.withLocks file (content fields) = .ok { d with locks := fields } := by
  simp only [Definition.withLocks, Definition.parseFields, readsBack]
  rfl

/-- Locks of both kinds that hold a webserver are read back from the mapping that is
written of them, with those of the webserver and with the hash, whatever their stages
and packages are named. The text gives the same, if it denotes what it was printed
from. -/
theorem lock_file_round_trips (d : Definition) (file hash : String) (server : Webserver.Locks) :
    (∀ locks : Php.Locks,
      let fields := lockFile (Php.Locks.toNode locks) server.toNode hash
      Definition.Recovers { d with locks := fields } Php.Locks.read StagedLocks.empty locks server
          hash ∧
        (Yaml.parse (content fields) = .ok (.map fields) →
          ∃ loaded, d.withLocks file (content fields) = .ok loaded ∧
            loaded.Recovers Php.Locks.read StagedLocks.empty locks server hash)) ∧
    (∀ locks : NodeJs.Locks,
      let fields := lockFile (NodeJs.Locks.toNode locks) server.toNode hash
      Definition.Recovers { d with locks := fields } NodeJs.Locks.read StagedLocks.empty locks
          server hash ∧
        (Yaml.parse (content fields) = .ok (.map fields) →
          ∃ loaded, d.withLocks file (content fields) = .ok loaded ∧
            loaded.Recovers NodeJs.Locks.read StagedLocks.empty locks server hash)) := by
  constructor
  · intro locks fields
    have recovers := recovers_lockFile (StagedLocks.ofKind Php.StageLocks.toNode locks)
      (Php.Locks.read_toNode locks) d StagedLocks.empty server hash
    exact ⟨recovers, fun readsBack => ⟨_, withLocks_content readsBack d file, recovers⟩⟩
  · intro locks fields
    have recovers := recovers_lockFile (StagedLocks.ofKind NodeJs.StageLocks.toNode locks)
      (NodeJs.Locks.read_toNode locks) d StagedLocks.empty server hash
    exact ⟨recovers, fun readsBack => ⟨_, withLocks_content readsBack d file, recovers⟩⟩

/-- Locks whose stages are named as fields of the lock file are, with packages that
are not there and with none. -/
def clashingLocks : Php.Locks :=
  ⟨"docker.io/library/php@sha256:1", ⟨"debian", "10 (buster)", "10"⟩,
    some ⟨.git, "https://github.com/app.git", "5f3a", ""⟩,
    Names.ofList [("defhash", ⟨.nil, .ofList [("stages", "1.0")]⟩),
      ("stages", ⟨.empty, .nil⟩), ("webserver", ⟨.ofList [("webserver", "*")], .empty⟩)]⟩

theorem clashing_locks_round_trip :
    ∃ loaded, Definition.empty.withLocks "zbuild.lock" (content
        (lockFile (Php.Locks.toNode clashingLocks) Webserver.Locks.empty.toNode "null")) =
          .ok loaded ∧
      loaded.Recovers Php.Locks.read StagedLocks.empty clashingLocks Webserver.Locks.empty
        "null" :=
  ((lock_file_round_trips Definition.empty "zbuild.lock" "null" Webserver.Locks.empty).1
    clashingLocks).2 (Yaml.parse_print_of_readsBack (by decide +kernel))

end Update
end ImageLock
