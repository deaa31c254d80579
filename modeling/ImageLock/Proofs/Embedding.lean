/-
A definition with a webserver, beside the two halves that it is made of: the
definition without the webserver, and the webserver alone. Locking it is locking
both halves, and neither half depends on the other one.
-/
import ImageLock.Proofs.Permuted
import ImageLock.Proofs.ServedAlike
import ImageLock.Proofs.UpdatedAgain

namespace ImageLock

open Act

/-! Two halves of a definition. -/

/-- A definition that holds a webserver, and both of its halves, with the parts of its
lock file that belong to them. The fields of a half can be in any order. -/
structure Definition.Splits (d own server : Definition) : Prop where
  kind : own.kind = d.kind
  config : own.config.Perm (d.config.remove webserverField)
  locks : own.locks.Perm (d.locks.remove webserverField)
  serverKind : server.kind = Webserver.kind
  serverConfig : ∃ nested, d.config.find? webserverField = some (.map nested) ∧
    server.config.Perm nested
  serverLocks : server.locks.Perm (nestedFields d.locks webserverField)

namespace Definition.Splits

variable {d own server : Definition}

/-- Without its webserver a definition holds none. -/
theorem has_own (splits : d.Splits own server) (single : d.config.Single) :
    own.config.has webserverField = false := by
  rw [Fields.has_perm splits.config, single.has_remove]

theorem sameOwn (splits : d.Splits own server) (config : d.config.Single)
    (locks : d.locks.Single) : d.SameOwn own where
  config := by
    rw [ownConfig, ownConfig, Fields.remove_of_absent (splits.has_own config)]
    exact splits.config.symm
  single := config.remove webserverField
  locks := by
    have without := locks.remove webserverField
    have kept : own.locks.Single := without.perm splits.locks.symm
    have absent : (own.locks.remove hashField).has webserverField = false := by
      rw [Fields.has_perm (kept.remove_perm splits.locks hashField),
        Fields.has_perm (locks.remove_comm (by decide)), (locks.remove hashField).has_remove]
    rw [ownLocks, ownLocks, Fields.remove_of_absent absent]
    exact (locks.remove_comm (by decide)).trans
      (kept.remove_perm splits.locks hashField).symm

/-- The webserver inside a definition is read as the one that stands alone. -/
theorem webserver_perm (splits : d.Splits own server) :
    d.webserver.config.Perm server.config ∧ d.webserver.locks.Perm server.locks := by
  obtain ⟨nested, found, config⟩ := splits.serverConfig
  have nested_eq : d.webserver.config = nested := by simp [webserver, nestedFields, found]
  rw [nested_eq]
  exact ⟨config.symm, splits.serverLocks.symm⟩

theorem has_webserver (splits : d.Splits own server) : d.config.has webserverField = true := by
  obtain ⟨nested, found, _⟩ := splits.serverConfig
  rw [← Fields.find?_isSome, found]
  rfl

/-- There is a hash of a definition if there is one of each half. -/
theorem exists_hash_iff (splits : d.Splits own server) :
    (∃ hash, d.hash = .ok hash) ↔ (∃ hash, own.hash = .ok hash) ∧
      ∃ hash, server.hash = .ok hash := by
  obtain ⟨nested, found, config⟩ := splits.serverConfig
  rw [Definition.exists_hash_iff, Definition.exists_hash_iff, Definition.exists_hash_iff,
    expressible_iff found, Fields.Expressible.perm_iff splits.config,
    Fields.Expressible.perm_iff config, ownConfig]

end Definition.Splits

namespace Kind

variable {d d' : Definition}

/-- Kinds that hold webservers do not read them. -/
theorem readsAs_of_sameOwn {kind : Kind} (embeds : registry.embedsWebserver kind.name = true)
    (same : d.SameOwn d') : kind.ReadsAs d d' := by
  cases kind with
  | php => exact fun _ known => Php.Definition.ofDefinition_of_sameOwn same known
  | nodeJs => exact fun _ known => NodeJs.Definition.ofDefinition_of_sameOwn same known
  | webserver => cases embeds

theorem webserver_readsAs_of_perm (config : d.config.Perm d'.config)
    (locks : d.locks.Perm d'.locks) (single : d.locks.Single) :
    Kind.webserver.ReadsAs d d' := by
  have ownLocks : d.ownLocks.Perm d'.ownLocks :=
    (single.remove Definition.hashField).remove_perm
      (single.remove_perm locks Definition.hashField) Definition.webserverField
  exact fun _ known => Webserver.Definition.ofDefinition_perm config ownLocks known

end Kind

/-! Updates of either form. -/

namespace Update

variable {world : World} {request : Request} {refresh : Refresh} {d : Definition}
  {written : Fields} {first last : Trail}

theorem locks_plain {registry : Registry Kind} (plain : holdsWebserver registry d = false) :
    (locks registry world request refresh d).after first = (.ok written, last) ↔
      ∃ kind, Build.findKind registry d.kind = .ok kind ∧
        (kind.lock world request refresh d).after first = (.ok written, last) := by
  simp only [locks_ok, ServerLocked, plain, Bool.false_eq_true, if_false]
  constructor
  · rintro ⟨kind, own, middle, known, locked, rfl, rfl⟩
    exact ⟨kind, known, locked⟩
  · rintro ⟨kind, known, locked⟩
    exact ⟨kind, written, last, known, locked, rfl, rfl⟩

theorem locks_held (held : holdsWebserver Kind.registry d = true) :
    (locks Kind.registry world request refresh d).after first = (.ok written, last) ↔
      ∃ kind own middle server, Build.findKind Kind.registry d.kind = .ok kind ∧
        (kind.lock world request refresh d).after first = (.ok own, middle) ∧
        (Kind.webserver.lock world request refresh d.webserver).after middle =
          (.ok server, last) ∧
        written = embedWebserver own server := by
  simp only [locks_ok, ServerLocked, held, if_true]
  constructor
  · rintro ⟨kind, own, middle, known, locked, serverKind, server, serverKnown, serverLocked, rfl⟩
    obtain rfl : serverKind = .webserver := (Except.ok.inj serverKnown).symm
    exact ⟨kind, own, middle, server, known, locked, serverLocked, rfl⟩
  · rintro ⟨kind, own, middle, server, known, locked, serverLocked, rfl⟩
    exact ⟨kind, own, middle, known, locked, .webserver, server, rfl, serverLocked, rfl⟩

/-- Whether a lock file has a place in a local context. -/
def HasPlace (world : World) (disk : Disk) (request : Request) : Prop :=
  ∃ path, lockPath world.backend request = .ok path ∧
    disk.look (Path.parent path) = .directory ∧
    (disk.look path = .missing ∨ ∃ old, disk.look path = .file old)

/-- What is written are locks and a hash, where there is a place for them. -/
theorem writes_iff {disk : Disk} {indexes : IndexStore} (loads : Loads world.backend request d) :
    Writes world disk request refresh indexes written ↔ HasPlace world disk request ∧
      ∃ last, Wrote Kind.registry world request refresh d
        (loadedTrail world.backend request (Trail.start indexes)) written last := by
  constructor
  · rintro ⟨report, disk', last, prepared, put⟩
    obtain ⟨placed, d', middle, loaded, wrote⟩ := prepare_ok prepared
    obtain ⟨rfl, rfl⟩ : d = d' ∧
        loadedTrail world.backend request (Trail.start indexes) = middle := by
      have outcome := (after_loadDefinition loads _).symm.trans loaded
      exact ⟨Except.ok.inj (Prod.mk.inj outcome).1, (Prod.mk.inj outcome).2⟩
    exact ⟨⟨report.path, placed, exists_put_iff.mp ⟨disk', put⟩⟩, last, wrote⟩
  · rintro ⟨⟨path, placed, free⟩, last, wrote⟩
    obtain ⟨report, prepared, rfl⟩ := prepare_of_wrote placed loads wrote
    obtain ⟨disk', put⟩ := exists_put_iff.mpr free
    exact ⟨report, disk', last, prepared, put⟩

end Update

/-! The whole and its halves, each in a place of its own. -/

/-- Where a request finds a definition. -/
structure Place (request : Request) where
  world : World
  disk : Disk
  definition : Definition
  loads : Loads world.backend request definition

namespace Place

open Definition (hashField webserverField)

variable {request : Request}

/-- What an update writes in a place, if it comes to an end. -/
def Writes (p : Place request) (refresh : Refresh) (indexes : IndexStore) (written : Fields) :
    Prop :=
  Update.Writes p.world p.disk request refresh indexes written

/-- Where locking starts: both files were read, and no index was touched. -/
def start (p : Place request) (indexes : IndexStore) : Trail :=
  loadedTrail p.world.backend request (Trail.start indexes)

/-- The locks that an update comes to for the definition, before there is a hash. -/
def Locks (p : Place request) (refresh : Refresh) (indexes : IndexStore) (locks : Fields) :
    Prop :=
  ∃ last, (Update.locks Kind.registry p.world request refresh p.definition).after
    (p.start indexes) = (.ok locks, last)

/-- A place with a definition that holds a webserver, and two more with one half of it
each. What is asked has the same answers everywhere, a lock file can be put everywhere or
nowhere, and packages of indexes come from one depot. -/
structure Splits (whole own server : Place request) : Prop where
  embeds : Kind.registry.embedsWebserver whole.definition.kind = true
  halves : whole.definition.Splits own.definition server.definition
  answers : SameAnswers whole.world own.world
  serverAnswers : SameAnswers whole.world server.world
  oneDepot : whole.world.packages.OneDepot
  requirements : whole.definition.kind = Php.kind →
    Kind.SameRequirements whole.world own.world request whole.definition
  place : Update.HasPlace whole.world whole.disk request ↔
    Update.HasPlace own.world own.disk request
  serverPlace : Update.HasPlace whole.world whole.disk request ↔
    Update.HasPlace server.world server.disk request

/-- What is written in a place are its locks and its hash. -/
theorem writes_iff {p : Place request} {refresh : Refresh} {indexes : IndexStore}
    {written : Fields} :
    p.Writes refresh indexes written ↔ Update.HasPlace p.world p.disk request ∧
      ∃ locks hash, p.Locks refresh indexes locks ∧ p.definition.hash = .ok hash ∧
        written = locks.insert hashField (.text hash) := by
  rw [Writes, Update.writes_iff p.loads]
  refine and_congr_right fun _ => ⟨?_, ?_⟩
  · rintro ⟨last, locks, hash, locked, hashed, same⟩
    exact ⟨locks, hash, ⟨last, locked⟩, hashed, same⟩
  · rintro ⟨locks, hash, ⟨last, locked⟩, hashed, same⟩
    exact ⟨last, locks, hash, locked, hashed, same⟩

variable {whole own server : Place request} {refresh : Refresh}

namespace Splits

theorem sameOwn (splits : whole.Splits own server) :
    whole.definition.SameOwn own.definition :=
  splits.halves.sameOwn whole.loads.config_single whole.loads.locks_single

theorem holds (splits : whole.Splits own server) :
    Update.holdsWebserver Kind.registry whole.definition = true := by
  rw [Update.holdsWebserver, splits.embeds, splits.halves.has_webserver]
  rfl

theorem own_plain (splits : whole.Splits own server) :
    Update.holdsWebserver Kind.registry own.definition = false := by
  rw [Update.holdsWebserver, splits.halves.has_own whole.loads.config_single, Bool.and_false]

theorem server_plain (splits : whole.Splits own server) :
    Update.holdsWebserver Kind.registry server.definition = false := by
  rw [Update.holdsWebserver, splits.halves.serverKind]
  rfl

theorem server_known (splits : whole.Splits own server) {kind : Kind} :
    Build.findKind Kind.registry server.definition.kind = .ok kind ↔ kind = .webserver := by
  rw [Kind.findKind_iff, splits.halves.serverKind]
  cases kind <;> simp [Kind.name, Webserver.kind, Php.kind, NodeJs.kind]

theorem matches_own (splits : whole.Splits own server) {kind : Kind}
    (known : Build.findKind Kind.registry whole.definition.kind = .ok kind) :
    whole.world.Matches (kind.lock whole.world request refresh whole.definition)
        (kind.lock own.world request refresh own.definition) ∧
      own.world.Matches (kind.lock own.world request refresh own.definition)
        (kind.lock whole.world request refresh whole.definition) := by
  have named := Kind.findKind_iff.mp known
  have embeds : Kind.registry.embedsWebserver kind.name = true := named ▸ splits.embeds
  have oneDepot : own.world.packages.OneDepot := splits.answers.packages ▸ splits.oneDepot
  constructor
  · refine Kind.matches_lock splits.answers splits.oneDepot refresh
      (Kind.readsAs_of_sameOwn embeds splits.sameOwn) ?_
    rintro rfl
    exact splits.requirements named
  · refine Kind.matches_lock splits.answers.symm oneDepot refresh
      (Kind.readsAs_of_sameOwn embeds splits.sameOwn.symm) ?_
    rintro rfl php read
    exact (splits.requirements named php
      (Php.Definition.ofDefinition_of_sameOwn splits.sameOwn.symm read)).symm

theorem matches_server (splits : whole.Splits own server) (refresh : Refresh) :
    whole.world.Matches
        (Kind.webserver.lock whole.world request refresh whole.definition.webserver)
        (Kind.webserver.lock server.world request refresh server.definition) ∧
      server.world.Matches
        (Kind.webserver.lock server.world request refresh server.definition)
        (Kind.webserver.lock whole.world request refresh whole.definition.webserver) := by
  obtain ⟨config, locks⟩ := splits.halves.webserver_perm
  have single := server.loads.locks_single
  have oneDepot : server.world.packages.OneDepot :=
    splits.serverAnswers.packages ▸ splits.oneDepot
  constructor
  · exact Kind.matches_lock splits.serverAnswers splits.oneDepot refresh
      (Kind.webserver_readsAs_of_perm config locks (single.perm locks.symm)) (nomatch ·)
  · exact Kind.matches_lock splits.serverAnswers.symm oneDepot refresh
      (Kind.webserver_readsAs_of_perm config.symm locks.symm single) (nomatch ·)

/-- The whole is locked as its halves are. -/
theorem locks_iff (splits : whole.Splits own server) (indexes : IndexStore) (written : Fields) :
    whole.Locks refresh indexes written ↔
      ∃ locks serverLocks, own.Locks refresh indexes locks ∧
        server.Locks refresh indexes serverLocks ∧
        written = Update.embedWebserver locks serverLocks := by
  simp only [Locks, Update.locks_held splits.holds, Update.locks_plain splits.own_plain,
    Update.locks_plain splits.server_plain, splits.server_known, splits.halves.kind]
  obtain ⟨serverThere, serverBack⟩ := splits.matches_server refresh
  constructor
  · rintro ⟨last, kind, locks, middle, serverLocks, known, locked, serverLocked, same⟩
    obtain ⟨kept, last', locked', _⟩ :=
      (splits.matches_own known).1 _ (own.start indexes) _ _ (.refl indexes) locked
    -- The webserver starts from what the definition left, which serves as before.
    obtain ⟨_, last'', serverLocked', _⟩ :=
      serverThere middle (server.start indexes) _ _ kept.symm serverLocked
    exact ⟨locks, serverLocks, ⟨last', kind, known, locked'⟩,
      ⟨last'', .webserver, rfl, serverLocked'⟩, same⟩
  · rintro ⟨locks, serverLocks, ⟨last', kind, known, locked'⟩, ⟨last'', _, rfl, serverLocked'⟩,
      same⟩
    obtain ⟨kept, middle, locked, alike⟩ :=
      (splits.matches_own known).2 _ (whole.start indexes) _ _ (.refl indexes) locked'
    have served := splits.answers.serveAlike_iff.mpr (kept.trans alike)
    obtain ⟨_, last, serverLocked, _⟩ := serverBack (server.start indexes) middle _ _
      (splits.serverAnswers.serveAlike_iff.mp served) serverLocked'
    exact ⟨last, kind, locks, middle, serverLocks, known, locked, serverLocked, same⟩

end Splits

/-- Locks without those of a webserver are locks of a kind. -/
theorem ofKind_of_plain {p : Place request} {indexes : IndexStore} {locks : Fields}
    (plain : Update.holdsWebserver Kind.registry p.definition = false)
    (locked : p.Locks refresh indexes locks) : locks.OfKind := by
  obtain ⟨_, locked⟩ := locked
  obtain ⟨_, _, locked⟩ := (Update.locks_plain plain).mp locked
  exact Kind.lock_ofKind locked

/-- What is written without a webserver, the hash aside, are locks of a kind. -/
theorem locks_of_writes {p : Place request} {indexes : IndexStore} {written : Fields}
    (plain : Update.holdsWebserver Kind.registry p.definition = false)
    (writes : p.Writes refresh indexes written) :
    p.Locks refresh indexes (written.remove hashField) := by
  obtain ⟨_, locks, hash, locked, _, rfl⟩ := writes_iff.mp writes
  rwa [Fields.remove_insert _ (ofKind_of_plain plain locked).noHash]

namespace Splits

/-- What is written for the whole are the locks of both halves, and its own hash. -/
theorem writes_iff (splits : whole.Splits own server) {indexes : IndexStore}
    {written : Fields} :
    whole.Writes refresh indexes written ↔
      ∃ ownWritten serverWritten hash, own.Writes refresh indexes ownWritten ∧
        server.Writes refresh indexes serverWritten ∧ whole.definition.hash = .ok hash ∧
        written = (Update.embedWebserver (ownWritten.remove hashField)
          (serverWritten.remove hashField)).insert hashField (.text hash) := by
  simp only [@Place.writes_iff _ whole, splits.locks_iff]
  constructor
  · rintro ⟨place, _, hash, ⟨locks, serverLocks, locked, serverLocked, rfl⟩, hashed, rfl⟩
    obtain ⟨⟨ownHash, ownHashed⟩, serverHash, serverHashed⟩ :=
      splits.halves.exists_hash_iff.mp ⟨hash, hashed⟩
    have writes := Place.writes_iff.mpr ⟨splits.place.mp place, locks, ownHash, locked,
      ownHashed, rfl⟩
    have serverWrites := Place.writes_iff.mpr ⟨splits.serverPlace.mp place, serverLocks,
      serverHash, serverLocked, serverHashed, rfl⟩
    refine ⟨_, _, hash, writes, serverWrites, hashed, ?_⟩
    rw [Fields.remove_insert _ (ofKind_of_plain splits.own_plain locked).noHash,
      Fields.remove_insert _ (ofKind_of_plain splits.server_plain serverLocked).noHash]
  · rintro ⟨_, _, hash, writes, serverWrites, hashed, rfl⟩
    have place := splits.place.mpr (Place.writes_iff.mp writes).1
    exact ⟨place, _, hash, ⟨_, _, locks_of_writes splits.own_plain writes,
      locks_of_writes splits.server_plain serverWrites, rfl⟩, hashed, rfl⟩

theorem exists_writes_iff (splits : whole.Splits own server) {indexes : IndexStore} :
    (∃ written, whole.Writes refresh indexes written) ↔
      (∃ written, own.Writes refresh indexes written) ∧
        ∃ written, server.Writes refresh indexes written := by
  simp only [splits.writes_iff]
  constructor
  · rintro ⟨_, written, serverWritten, _, writes, serverWrites, _⟩
    exact ⟨⟨written, writes⟩, serverWritten, serverWrites⟩
  · rintro ⟨⟨written, writes⟩, serverWritten, serverWrites⟩
    obtain ⟨_, _, ownHash, _, ownHashed, _⟩ := Place.writes_iff.mp writes
    obtain ⟨_, _, serverHash, _, serverHashed, _⟩ := Place.writes_iff.mp serverWrites
    obtain ⟨hash, hashed⟩ :=
      splits.halves.exists_hash_iff.mpr ⟨⟨ownHash, ownHashed⟩, serverHash, serverHashed⟩
    exact ⟨_, written, serverWritten, hash, writes, serverWrites, hashed, rfl⟩

end Splits

theorem has_webserver_of_writes {p : Place request} {indexes : IndexStore} {written : Fields}
    (without : p.definition.config.has webserverField = false)
    (writes : p.Writes refresh indexes written) : written.has webserverField = false := by
  have plain : Update.holdsWebserver Kind.registry p.definition = false := by
    rw [Update.holdsWebserver, without, Bool.and_false]
  obtain ⟨_, locks, hash, locked, _, rfl⟩ := Place.writes_iff.mp writes
  rw [Fields.has_insert_of_ne _ _ (by decide), (ofKind_of_plain plain locked).noServer]

/-! Either half can be told from what is written for the whole. -/

theorem Writes.unique {p : Place request} {indexes : IndexStore} {written written' : Fields}
    (one : p.Writes refresh indexes written) (other : p.Writes refresh indexes written') :
    written = written' := by
  obtain ⟨_, _, _, prepared, _⟩ := one
  obtain ⟨_, _, _, prepared', _⟩ := other
  have answer_eq := (Prod.mk.inj (prepared.symm.trans prepared')).1
  exact (Prod.mk.inj (Except.ok.inj answer_eq)).2

theorem Splits.parts_of_writes (splits : whole.Splits own server) {indexes : IndexStore}
    {written : Fields} (writes : whole.Writes refresh indexes written) :
    ∃ ownWritten serverWritten, own.Writes refresh indexes ownWritten ∧
      server.Writes refresh indexes serverWritten ∧
      (written.remove hashField).remove webserverField = ownWritten.remove hashField ∧
      written.find? webserverField = some (.map (serverWritten.remove hashField)) := by
  obtain ⟨ownWritten, serverWritten, hash, ownWrites, serverWrites, _, rfl⟩ :=
    splits.writes_iff.mp writes
  obtain ⟨_, noHash, noServer⟩ :=
    ofKind_of_plain splits.own_plain (locks_of_writes splits.own_plain ownWrites)
  have unhashed : (Update.embedWebserver (ownWritten.remove hashField)
      (serverWritten.remove hashField)).has hashField = false := by
    rw [Update.embedWebserver, Fields.has_insert_of_ne _ _ (by decide), noHash]
  refine ⟨ownWritten, serverWritten, ownWrites, serverWrites, ?_, ?_⟩
  · rw [Fields.remove_insert _ unhashed, Update.embedWebserver, Fields.remove_insert _ noServer]
  · rw [Fields.find?_insert_of_ne _ _ (by decide), Update.embedWebserver, Fields.find?_insert]

/-- An update of a definition that holds a webserver succeeds if and only if an update of
each half does, and what it writes are the locks of the definition, those of the webserver
beside them, and a hash. Where there is no webserver none is written, whatever the lock
file held. So the locks of a half are the same whatever the other half is, and whatever
was locked for it before. -/
theorem embedding_conservative (request : Request) (refresh : Refresh) (indexes : IndexStore) :
    (∀ whole own server : Place request, whole.Splits own server →
      ((∃ written, whole.Writes refresh indexes written) ↔
        (∃ written, own.Writes refresh indexes written) ∧
          ∃ written, server.Writes refresh indexes written) ∧
      ∀ written, whole.Writes refresh indexes written ↔
        ∃ ownWritten serverWritten hash, own.Writes refresh indexes ownWritten ∧
          server.Writes refresh indexes serverWritten ∧ whole.definition.hash = .ok hash ∧
          written = (Update.embedWebserver (ownWritten.remove hashField)
            (serverWritten.remove hashField)).insert hashField (.text hash)) ∧
    (∀ (p : Place request) (written : Fields),
      p.definition.config.has webserverField = false → p.Writes refresh indexes written →
        written.has webserverField = false) ∧
    (∀ (whole whole' own own' server server' : Place request) (written written' : Fields),
      whole.Splits own server → whole'.Splits own' server' →
      whole.Writes refresh indexes written → whole'.Writes refresh indexes written' →
        (own = own' → (written.remove hashField).remove webserverField =
          (written'.remove hashField).remove webserverField) ∧
        (server = server' → written.find? webserverField = written'.find? webserverField)) := by
  refine ⟨?split, ?absent, ?independent⟩
  case split =>
    intro whole own server splits
    exact ⟨splits.exists_writes_iff, fun _ => splits.writes_iff⟩
  case absent => exact fun _ _ without writes => has_webserver_of_writes without writes
  case independent =>
    intro whole whole' own own' server server' written written' splits splits' writes writes'
    obtain ⟨_, _, ownWrites, serverWrites, left, nested⟩ := splits.parts_of_writes writes
    obtain ⟨_, _, ownWrites', serverWrites', left', nested'⟩ := splits'.parts_of_writes writes'
    constructor
    · rintro rfl
      rw [left, left', ownWrites.unique ownWrites']
    · rintro rfl
      rw [nested, nested', serverWrites.unique serverWrites']

end Place

/-! A site with its webserver, and both of them alone. -/

namespace Machine

/-- A project with a lock file. -/
def lockedProject (definition locks : String) : Disk :=
  (project "zbuild.yml" definition).write "/src/zbuild.lock" locks.toUTF8

/-- Whether a definition is the one that is loaded from a disk. -/
def loadsFrom (disk : Disk) (d : Definition) : Bool :=
  ((load (alpine.world disk).backend (prodOf "zbuild.yml")).runFrom .empty).1.toOption.any
    fun own => own.kind == d.kind && Node.identicalFields own.config d.config &&
      Node.identicalFields own.locks d.locks

theorem loads_of_loadsFrom {disk : Disk} {d : Definition} (passes : loadsFrom disk d = true) :
    Loads (alpine.world disk).backend (prodOf "zbuild.yml") d := by
  obtain ⟨own, loaded, checked⟩ := Act.exists_of_any passes
  simp only [Bool.and_eq_true, beq_iff_eq] at checked
  obtain ⟨⟨kind, config⟩, locks⟩ := checked
  have same : own = d := by
    cases own
    cases d
    simp only at kind config locks
    rw [kind, Node.eq_of_identicalFields config, Node.eq_of_identicalFields locks]
  exact same ▸ loads_of_ok loaded

/-- A webserver that was locked before. -/
def serverSite : Definition :=
  ⟨"webserver", [(.text "type", .text "nginx")], [(.text "base_image", .text "n@sha256:s"),
    (.text "system_packages", .map [(.text "curl", .text "a")])]⟩

/-- A site without one. -/
def bareSite : Definition := ⟨"nodejs", [(.text "base", .text "a@sha256:b")], []⟩

/-- The site with the webserver. -/
def wholeSite : Definition :=
  ⟨"nodejs", (.text "webserver", .map serverSite.config) :: bareSite.config,
    [(.text "webserver", .map serverSite.locks)]⟩

theorem wholeSite_splits : wholeSite.Splits bareSite serverSite where
  kind := rfl
  config := .of_eq rfl
  locks := .of_eq rfl
  serverKind := rfl
  serverConfig := ⟨serverSite.config, rfl, .refl _⟩
  serverLocks := .of_eq rfl

def wholeDisk : Disk :=
  lockedProject "kind: nodejs\nbase: a@sha256:b\nwebserver: \x7btype: nginx\x7d\n"
    "webserver: \x7bbase_image: n@sha256:s, system_packages: \x7bcurl: a\x7d\x7d\n"

def bareDisk : Disk := project "zbuild.yml" "kind: nodejs\nbase: a@sha256:b\n"

def serverDisk : Disk :=
  lockedProject "kind: webserver\ntype: nginx\n"
    "base_image: n@sha256:s\nsystem_packages: \x7bcurl: a\x7d\n"

theorem hasPlace_of_put (disk : Disk)
    (put : (Update.put disk "/src/./zbuild.lock" ByteArray.empty).toOption.isSome = true) :
    Update.HasPlace (alpine.world disk) disk (prodOf "zbuild.yml") := by
  obtain ⟨disk', placed⟩ := Option.isSome_iff_exists.mp put
  exact ⟨"/src/./zbuild.lock", rfl,
    Update.exists_put_iff.mp ⟨disk', Act.eq_ok_of_toOption placed⟩⟩

/-- The site is locked as its halves are, and the one without a webserver gets none. -/
theorem embedding_conservative_site :
    ∃ whole own server : Place (prodOf "zbuild.yml"), whole.Splits own server ∧
      ∃ written ownWritten serverWritten hash,
        whole.Writes ⟨false, false, false⟩ .empty written ∧
        own.Writes ⟨false, false, false⟩ .empty ownWritten ∧
        server.Writes ⟨false, false, false⟩ .empty serverWritten ∧
        ownWritten.has Definition.webserverField = false ∧
        written = (Update.embedWebserver (ownWritten.remove Definition.hashField)
          (serverWritten.remove Definition.hashField)).insert Definition.hashField
            (.text hash) := by
  let whole : Place (prodOf "zbuild.yml") :=
    ⟨alpine.world wholeDisk, wholeDisk, wholeSite, loads_of_loadsFrom (by decide +kernel)⟩
  let own : Place (prodOf "zbuild.yml") :=
    ⟨alpine.world bareDisk, bareDisk, bareSite, loads_of_loadsFrom (by decide +kernel)⟩
  let server : Place (prodOf "zbuild.yml") :=
    ⟨alpine.world serverDisk, serverDisk, serverSite, loads_of_loadsFrom (by decide +kernel)⟩
  have place := hasPlace_of_put wholeDisk (by decide +kernel)
  have ownPlace := hasPlace_of_put bareDisk (by decide +kernel)
  have serverPlace := hasPlace_of_put serverDisk (by decide +kernel)
  have splits : whole.Splits own server := {
    embeds := rfl
    halves := wholeSite_splits
    answers := alpine.sameAnswers _ _
    serverAnswers := alpine.sameAnswers _ _
    oneDepot := PackageSources.oneDepot_tools
    requirements := fun isPhp => absurd isPhp (by decide)
    place := iff_of_true place ownPlace
    serverPlace := iff_of_true place serverPlace }
  have succeeds : Update.succeeds (alpine.world wholeDisk) wholeDisk (prodOf "zbuild.yml")
      ⟨false, false, false⟩ .empty = true := by decide +kernel
  obtain ⟨written, writes⟩ := Update.succeeds_iff.mp succeeds
  obtain ⟨split, absent, _⟩ :=
    Place.embedding_conservative (prodOf "zbuild.yml") ⟨false, false, false⟩ .empty
  obtain ⟨ownWritten, serverWritten, hash, ownWrites, serverWrites, _, same⟩ :=
    ((split whole own server splits).2 written).mp writes
  exact ⟨whole, own, server, splits, written, ownWritten, serverWritten, hash, writes, ownWrites,
    serverWrites, absent own ownWritten rfl ownWrites, same⟩

end Machine
end ImageLock
