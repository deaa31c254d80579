/-
Locks that are written read back, whatever else stands beside them.
-/
import ImageLock.NodeJs.Stage
import ImageLock.Php.Locks
import ImageLock.Proofs.Decode
import ImageLock.Proofs.Fields
import ImageLock.Update

namespace ImageLock

open Decode

theorem VersionMap.read_toNode (m : VersionMap) : VersionMap.read m.toNode = .ok m := by
  obtain ⟨content⟩ := m
  cases content with
  | none => rfl
  | some names =>
      have entries := entries_record scalar Node.text id names.entries fun _ _ => rfl
      have read := option_of_ne_null entries (by simp [Node.record])
      simp only [VersionMap.read, VersionMap.toNode, read, bind, Except.bind, pure, Except.pure,
        VersionMap.ofList, VersionMap.ofNames, id, List.map_id', Names.ofList_entries]

theorem OsRelease.read_toNode (os : OsRelease) : OsRelease.read os.toNode = .ok os := by
  have accepted : record [required "name" text, Decode.optional "version_name" text,
      Decode.optional "version_id" text] os.toNode = .ok (named [("name", .text os.name),
        ("version_name", .text os.versionName), ("version_id", .text os.versionId)]) := by
    refine record_named (by simp) ?_ ?_
    · simp
    · simp
  simp [OsRelease.read, accepted, need_named, get_named, bind, Except.bind, pure, Except.pure]

namespace Context

/-- The fields of a context; texts without content are not written. -/
def fields (c : Context) : List (String × Node) :=
  [("type", .text c.kind.name), ("source", .text c.source)] ++
    fieldText "reference" c.reference ++ fieldText "path" c.path

theorem read_kind (kind : ContextKind) :
    variant [("local", ContextKind.local), ("git", .git)] (.text kind.name) = .ok kind := by
  cases kind <;> rfl

theorem read_reference (c : Context) :
    Decode.get (named c.fields) "reference" text "" = .ok c.reference := by
  by_cases reference : c.reference = "" <;> by_cases path : c.path = "" <;>
    simp [get_named, fields, fieldText, reference, path]

theorem read_path (c : Context) : Decode.get (named c.fields) "path" text "" = .ok c.path := by
  by_cases reference : c.reference = "" <;> by_cases path : c.path = "" <;>
    simp [get_named, fields, fieldText, reference, path]

theorem read_toNode (c : Context) : read c.toNode = .ok c := by
  have accepted : record
      [Decode.optional "type" (variant [("local", ContextKind.local), ("git", .git)]),
        required "source" text, Decode.optional "reference" text, Decode.optional "path" text]
      c.toNode = .ok (named c.fields) := by
    refine record_named ?_ ?_ ?_
    · by_cases reference : c.reference = "" <;> by_cases path : c.path = "" <;>
        simp [fieldText, reference, path]
    · by_cases reference : c.reference = "" <;> by_cases path : c.path = "" <;>
        simp [fieldText, reference, path, read_kind c.kind]
    · simp
  have kind : Decode.get (named c.fields) "type"
      (variant [("local", ContextKind.local), ("git", .git)]) .local = .ok c.kind := by
    simp [get_named, fields, read_kind]
  have source : need (named c.fields) "source" text = .ok c.source := by
    simp [need_named, fields]
  simp only [read, accepted, kind, source, read_reference, read_path, bind, Except.bind, pure,
    Except.pure]

end Context

/-- A record that is read accepts no fields but its own. -/
def ReadsOnly {α : Type} (read : Reader α) (known : List Field) : Prop :=
  ∀ node value, read node = .ok value → ∃ fields, record known node = .ok fields

namespace StagedLocks

variable {S T : Type} {readStage : Reader T} {stageNode : S → Node}

/-- The stages of locks, as they are written. -/
def stagesNode (stageNode : S → Node) (locks : StagedLocks S) : Node :=
  .record (locks.stages.entries.map fun (name, stage) => (name, stageNode stage))

/-- Locks read back as their stages do. -/
theorem read_record {locks : StagedLocks S} {stages : List (String × T)}
    (stagesRead : entries readStage (locks.stagesNode stageNode) = .ok stages) :
    StagedLocks.read readStage (.record (toFields stageNode locks)) =
      .ok ⟨locks.image, locks.os, locks.source, Names.ofList stages⟩ := by
  obtain ⟨image, os, source, own⟩ := locks
  simp only [stagesNode] at stagesRead
  have sourceRead (c : Context) : Decode.option Context.read c.toNode = .ok (some c) :=
    option_of_ne_null (Context.read_toNode c) (by simp [Context.toNode, Node.record])
  have accepted : record [Decode.optional "base_image" text,
      Decode.optional "osrelease" OsRelease.read,
      Decode.optional "source_context" (Decode.option Context.read),
      Decode.optional "stages" (entries readStage)]
      (.record (toFields stageNode ⟨image, os, source, own⟩)) =
        .ok (named (toFields stageNode ⟨image, os, source, own⟩)) := by
    refine record_named ?_ ?_ ?_
    · cases source <;> simp [toFields, Node.optional]
    · cases source with
      | none => simp [toFields, Node.optional, OsRelease.read_toNode os, stagesRead]
      | some c =>
          simp [toFields, Node.optional, OsRelease.read_toNode os, stagesRead, sourceRead c]
    · simp
  simp only [StagedLocks.read, accepted, bind, Except.bind]
  cases source <;>
    simp [get_named, toFields, Node.optional, OsRelease.read_toNode, sourceRead, stagesRead, pure,
      Except.pure]

theorem readsOnly (readStage : Reader T) :
    ReadsOnly (StagedLocks.read readStage)
      [optional "base_image" text, optional "osrelease" OsRelease.read,
        optional "source_context" (option Context.read),
        optional "stages" (entries readStage)] := by
  intro node value read
  simp only [StagedLocks.read, bind, Except.bind] at read
  split at read
  next => cases read
  next own accepted => exact ⟨own, accepted⟩

theorem read_record_self {readStage : Reader S}
    (reads : ∀ stage, readStage (stageNode stage) = .ok stage) (locks : StagedLocks S) :
    StagedLocks.read readStage (.record (toFields stageNode locks)) = .ok locks := by
  have stagesRead : entries readStage (locks.stagesNode stageNode) = .ok locks.stages.entries := by
    simpa [stagesNode] using
      entries_record readStage stageNode id locks.stages.entries fun item _ => reads item.2
  rw [read_record stagesRead, Names.ofList_entries]

end StagedLocks

theorem Php.StageLocks.read_toNode (locks : Php.StageLocks) :
    Php.StageLocks.read locks.toNode = .ok locks := by
  have packages := VersionMap.read_toNode locks.systemPackages
  have extensions := VersionMap.read_toNode locks.extensions
  have accepted : record [Decode.optional "system_packages" VersionMap.read,
      Decode.optional "extensions" VersionMap.read] locks.toNode =
        .ok (named [("system_packages", locks.systemPackages.toNode),
          ("extensions", locks.extensions.toNode)]) := by
    refine record_named (by simp) ?_ (by simp)
    simp only [List.mem_cons, List.not_mem_nil, or_false, forall_eq_or_imp, forall_eq]
    exact ⟨⟨_, rfl, optional_check _ packages⟩, ⟨_, rfl, optional_check _ extensions⟩⟩
  simp [Php.StageLocks.read, accepted, get_named, packages, extensions, bind, Except.bind, pure,
    Except.pure]

theorem NodeJs.StageLocks.read_toNode (locks : NodeJs.StageLocks) :
    NodeJs.StageLocks.read locks.toNode = .ok locks := by
  have packages := VersionMap.read_toNode locks.systemPackages
  have accepted : record [Decode.optional "system_packages" VersionMap.read] locks.toNode =
      .ok (named [("system_packages", locks.systemPackages.toNode)]) := by
    refine record_named (by simp) ?_ (by simp)
    simp only [List.mem_cons, List.not_mem_nil, or_false, forall_eq]
    exact ⟨_, rfl, optional_check _ packages⟩
  simp [NodeJs.StageLocks.read, accepted, get_named, packages, bind, Except.bind, pure,
    Except.pure]

theorem Php.Locks.read_toNode (locks : Php.Locks) :
    Php.Locks.read (Php.Locks.toNode locks) = .ok locks :=
  StagedLocks.read_record_self Php.StageLocks.read_toNode locks

theorem NodeJs.Locks.read_toNode (locks : NodeJs.Locks) :
    NodeJs.Locks.read (NodeJs.Locks.toNode locks) = .ok locks :=
  StagedLocks.read_record_self NodeJs.StageLocks.read_toNode locks

theorem Webserver.Locks.read_toNode (locks : Webserver.Locks) :
    Webserver.Locks.read locks.toNode = .ok locks := by
  have os := OsRelease.read_toNode locks.os
  have packages := VersionMap.read_toNode locks.systemPackages
  have accepted : record [Decode.optional "base_image" text,
      Decode.optional "osrelease" OsRelease.read,
      Decode.optional "system_packages" VersionMap.read] locks.toNode =
        .ok (named [("base_image", .text locks.image), ("osrelease", locks.os.toNode),
          ("system_packages", locks.systemPackages.toNode)]) := by
    refine record_named (by simp) ?_ (by simp)
    simp only [List.mem_cons, List.not_mem_nil, or_false, forall_eq_or_imp, forall_eq]
    exact ⟨⟨_, rfl, optional_check _ rfl⟩, ⟨_, rfl, optional_check _ os⟩,
      ⟨_, rfl, optional_check _ packages⟩⟩
  simp [Webserver.Locks.read, accepted, get_named, os, packages, bind, Except.bind, pure,
    Except.pure]

/-! Beside the fields that belong to no kind. -/

theorem Definition.decode_ok {α : Type} {what : String} {read : Reader α} {fields : Fields}
    {value : α} : decode what read fields = .ok value ↔ read (.map fields) = .ok value := by
  unfold decode
  split
  next answer => simp [answer]
  next answer => simp [answer]

/-- Fields that are decoded as others are, whatever stands beside these. -/
def DecodedAs (own fields : Fields) : Prop :=
  ∀ (α : Type) (read : Decode.Reader α) (absent : α),
    Definition.decodeLocks read absent fields = Definition.decode "lock file" read own

/-- Some fields, and none that belongs to no kind. -/
structure Fields.OfKind (own : Fields) : Prop where
  filled : own ≠ []
  noHash : own.has Definition.hashField = false
  noServer : own.has Definition.webserverField = false

theorem Fields.OfKind.decodedAs (ofKind : own.OfKind) : DecodedAs own own := by
  intro α read absent
  simp [Definition.decodeLocks, Fields.remove_of_absent ofKind.noHash,
    Fields.remove_of_absent ofKind.noServer, ofKind.filled]

namespace Update

variable {α : Type} {own : Fields}

/-- The hash does not get into the locks. -/
theorem decodeLocks_hashed (read : Reader α) (absent : α) (filled : own ≠ [])
    (noHash : own.has Definition.hashField = false)
    (noServer : own.has Definition.webserverField = false) (hash : String) :
    Definition.decodeLocks read absent (own.insert Definition.hashField (.text hash)) =
      Definition.decode "lock file" read own := by
  simp [Definition.decodeLocks, Fields.remove_insert _ noHash, Fields.remove_of_absent noServer,
    filled]

/-- Neither do the locks of the webserver. -/
theorem decodeLocks_embedded (read : Reader α) (absent : α) (filled : own ≠ [])
    (noHash : own.has Definition.hashField = false)
    (noServer : own.has Definition.webserverField = false) (server : Fields) (hash : String) :
    Definition.decodeLocks read absent
      ((embedWebserver own server).insert Definition.hashField (.text hash)) =
      Definition.decode "lock file" read own := by
  have noHash' : (embedWebserver own server).has Definition.hashField = false := by
    rw [embedWebserver, Fields.has_insert_of_ne _ _ (by decide), noHash]
  have unembedded : (embedWebserver own server).remove Definition.webserverField = own :=
    Fields.remove_insert _ noServer
  simp [Definition.decodeLocks, Fields.remove_insert _ noHash', unembedded, filled]

end Update

/-- The fields of staged locks are none of those that belong to no kind. -/
theorem StagedLocks.lockFields_has {S : Type} (stageNode : S → Node) (locks : StagedLocks S) :
    (lockFields (.record (toFields stageNode locks))).has Definition.hashField = false ∧
      (lockFields (.record (toFields stageNode locks))).has Definition.webserverField = false := by
  cases source : locks.source <;>
    simp [lockFields, Node.record, toFields, Node.optional, source, Fields.has, Node.isText,
      Definition.hashField, Definition.webserverField]

/-- The image comes first. -/
theorem StagedLocks.lockFields_cons {S : Type} (stageNode : S → Node) (locks : StagedLocks S) :
    ∃ rest, lockFields (.record (toFields stageNode locks)) =
      (.text "base_image", .text locks.image) :: rest :=
  ⟨_, rfl⟩

theorem StagedLocks.ofKind {S : Type} (stageNode : S → Node) (locks : StagedLocks S) :
    (lockFields (.record (toFields stageNode locks))).OfKind := by
  obtain ⟨noHash, noServer⟩ := lockFields_has stageNode locks
  obtain ⟨rest, some⟩ := lockFields_cons stageNode locks
  exact ⟨by simp [some], noHash, noServer⟩

/-- Locks that can be decoded have no other fields than those of their kind, and
those that belong to no kind. -/
theorem Definition.has_of_decodeLocks {α : Type} {read : Reader α} {absent value : α}
    {known : List Field} {fields : Fields} {name : String} (closed : ReadsOnly read known)
    (decoded : decodeLocks read absent fields = .ok value)
    (unknown : ∀ field ∈ known, field.name ≠ name) (notHash : name ≠ hashField)
    (notServer : name ≠ webserverField) : fields.has name = false := by
  refine Bool.eq_false_iff.mpr fun there => ?_
  obtain ⟨⟨key, node⟩, member, named⟩ := List.any_eq_true.mp there
  have key_eq : key = .text name := by
    cases key <;> simp_all [Node.isText]
  subst key_eq
  -- A field of another name outlives the removal of those two, and would have to
  -- be known.
  have kept : (.text name, node) ∈ (fields.remove hashField).remove webserverField :=
    Fields.mem_remove_of_ne (Fields.mem_remove_of_ne member (by simpa [Node.isText]))
      (by simpa [Node.isText])
  have filled : (fields.remove hashField).remove webserverField ≠ [] := List.ne_nil_of_mem kept
  simp only [decodeLocks, List.isEmpty_iff, filled, if_false, decode] at decoded
  split at decoded
  next answer =>
    obtain ⟨own, accepted⟩ := closed _ _ answer
    obtain ⟨own_eq, checked, _⟩ := record_ok accepted
    rw [← Except.ok.inj own_eq] at checked
    obtain ⟨name', text_eq, field, found, _⟩ := known_of_checkFields checked kept
    have field_eq : field.name = name' := by simpa using List.find?_some found
    exact unknown field (List.mem_of_find?_eq_some found)
      (field_eq.trans (Except.ok.inj text_eq).symm)
  next => cases decoded

theorem Webserver.Locks.readsOnly :
    ReadsOnly Webserver.Locks.read
      [optional "base_image" text, optional "osrelease" OsRelease.read,
        optional "system_packages" VersionMap.read] := by
  intro node value read
  simp only [Webserver.Locks.read, bind, Except.bind] at read
  split at read
  next => cases read
  next own accepted => exact ⟨own, accepted⟩

/-- Locks that can be decoded are no definition, which has a kind. -/
theorem StagedLocks.has_kind {S : Type} {readStage : Reader S} {absent locks : StagedLocks S}
    {fields : Fields}
    (decoded : Definition.decodeLocks (StagedLocks.read readStage) absent fields = .ok locks) :
    fields.has "kind" = false :=
  Definition.has_of_decodeLocks (StagedLocks.readsOnly readStage) decoded (by simp) (by decide)
    (by decide)

theorem Webserver.Locks.has_kind {absent locks : Webserver.Locks} {fields : Fields}
    (decoded : Definition.decodeLocks Webserver.Locks.read absent fields = .ok locks) :
    fields.has "kind" = false :=
  Definition.has_of_decodeLocks readsOnly decoded (by simp) (by decide) (by decide)

end ImageLock
