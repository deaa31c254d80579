/-
What the report of an update tells about the lock file before and after it: each
entry of the new lock file is listed, as new or as kept. Entries that are gone
are not listed.
-/
import ImageLock.Proofs.DistinctKeys
import ImageLock.Proofs.LockPlace
import Mathlib.Data.List.Perm.Subperm

namespace ImageLock

/-! Mappings that are equal. -/

namespace Node

theorem within_iff {fields others : Fields} :
    within fields others = true ↔
      ∀ e ∈ fields, ∃ e' ∈ others, e.1.same e'.1 = true ∧ e.2.same e'.2 = true := by
  induction fields with
  | nil => simp [within]
  | cons e rest ih =>
      obtain ⟨key, value⟩ := e
      simp [within, ih]

mutual
/-- Every document equals itself, also one with a number that is none. -/
theorem same_self (node : Node) : node.same node = true := by
  cases node with
  | real value =>
      simp only [same, Number.Binary64.same]
      split
      · rfl
      · exact beq_self_eq_true value
  | list items => rw [same, sameItems_self items]
  | map fields =>
      rw [same, Bool.and_eq_true]
      refine ⟨beq_self_eq_true _, within_iff.mpr fun e member => ?_⟩
      exact ⟨e, member, same_entry fields e member⟩
  | tagged tag value => simp [same, same_self value]
  | _ => simp [same]

theorem sameItems_self (items : List Node) : sameItems items items = true := by
  cases items with
  | nil => rfl
  | cons first rest => simp [sameItems, same_self first, sameItems_self rest]

theorem same_entry (fields : List (Node × Node)) :
    ∀ e ∈ fields, e.1.same e.1 = true ∧ e.2.same e.2 = true := by
  cases fields with
  | nil => simp
  | cons first rest =>
      refine List.forall_mem_cons.mpr ⟨⟨same_self first.1, same_self first.2⟩, same_entry rest⟩
end

end Node

namespace Fields

variable {fields : Fields}

/-- Distinct keys that are texts are different ones. -/
theorem Distinct.nodup_keys (distinct : fields.Distinct)
    (texts : ∀ e ∈ fields, ∃ name, e.1 = .text name) : fields.keys.Nodup := by
  refine List.pairwise_map.mpr ?_
  refine List.Pairwise.imp_of_mem (fun {a b} member _ differ same => ?_) distinct
  obtain ⟨name, key⟩ := texts a member
  rw [← same, key] at differ
  simp [Node.same] at differ

end Fields

namespace Update

variable {previous current : Fields} {name : String}

/-- An entry that two lock files have with equal values. -/
def Kept (previous current : Fields) (name : String) : Prop :=
  ∃ old new, previous.find? name = some old ∧ current.find? name = some new ∧
    old.same new = true

theorem kept_self : Kept current current name ↔ current.has name = true := by
  rw [← Fields.find?_isSome, Option.isSome_iff_exists]
  constructor
  · rintro ⟨old, _, found, _, _⟩
    exact ⟨old, found⟩
  · rintro ⟨old, found⟩
    exact ⟨old, old, found, found, Node.same_self old⟩

/-- A lock file without the hash of its definition. -/
def withoutHash (fields : Fields) : Fields :=
  List.filter (fun e => !e.1.isText Definition.hashField) fields

/-! Lists of names. -/

theorem entryName?_eq {e : Node × Node} :
    entryName? e = some name ↔ e.1 = .text name ∧ name ≠ Definition.hashField := by
  obtain ⟨key, value⟩ := e
  cases key with
  | text own =>
      by_cases hash : own = Definition.hashField
      · simp only [entryName?, hash, beq_self_eq_true, if_true, Node.text.injEq, reduceCtorEq,
          false_iff]
        rintro ⟨same, other⟩
        exact other same.symm
      · simp only [entryName?, beq_iff_eq, hash, if_false, Option.some.injEq, Node.text.injEq]
        constructor
        · rintro rfl
          exact ⟨rfl, hash⟩
        · exact And.left
  | _ => simp [entryName?]

theorem mem_sortedNames {entries : List (Node × Node)} :
    name ∈ sortedNames entries ↔
      name ≠ Definition.hashField ∧ ∃ value, (.text name, value) ∈ entries := by
  simp only [sortedNames, List.mem_mergeSort, List.mem_filterMap, entryName?_eq]
  constructor
  · rintro ⟨⟨key, value⟩, member, rfl, other⟩
    exact ⟨other, value, member⟩
  · rintro ⟨other, value, member⟩
    exact ⟨_, member, rfl, other⟩

theorem pairwise_sortedNames {entries : Fields} (distinct : entries.Distinct) :
    (sortedNames entries).Pairwise (· < ·) := by
  have ordered : (sortedNames entries).Pairwise (· ≤ ·) := by
    have sorted : (sortedNames entries).Pairwise fun a b => decide (a ≤ b) = true := by
      refine List.pairwise_mergeSort ?_ ?_ (entries.filterMap entryName?)
      · intro a b c
        simpa using String.le_trans
      · intro a b
        simpa using String.le_total a b
    exact sorted.imp of_decide_eq_true
  have nodup : (sortedNames entries).Nodup := by
    have apart : (entries.filterMap entryName?).Nodup := by
      refine List.Pairwise.filterMap _ (fun a b differ name found name' found' same => ?_) distinct
      obtain ⟨key, _⟩ := entryName?_eq.mp found
      obtain ⟨key', _⟩ := entryName?_eq.mp found'
      rw [key, key', same] at differ
      simp [Node.same] at differ
    exact (List.mergeSort_perm _ _).nodup_iff.mpr apart
  exact (ordered.and nodup).imp fun both => Std.lt_of_le_of_ne both.1 both.2

theorem isKept_iff {new : Node} :
    isKept previous (.text name, new) = true ↔
      ∃ old, previous.find? name = some old ∧ old.same new = true := by
  have looked : List.find? (fun e => e.1.same (.text name)) previous =
      List.find? (fun e => e.1.isText name) previous := by
    congr 1
    funext e
    rw [Bool.eq_iff_iff, Node.same_text_iff, Node.isText_iff]
  simp only [isKept, looked, Fields.find?, Option.any_eq_true]
  constructor
  · rintro ⟨e, found, same⟩
    exact ⟨e.2, by simp [found], same⟩
  · rintro ⟨old, found, same⟩
    obtain ⟨e, hit, rfl⟩ := Option.map_eq_some_iff.mp found
    exact ⟨e, hit, same⟩

/-! What is told. -/

theorem kept_iff (record : current.IsRecord) :
    (∃ new, (.text name, new) ∈ List.filter (isKept previous) current) ↔
      Kept previous current name := by
  simp only [List.mem_filter, isKept_iff, record.distinct.mem_iff, Kept]
  constructor
  · rintro ⟨new, there, old, found, same⟩
    exact ⟨old, new, found, there, same⟩
  · rintro ⟨old, new, found, there, same⟩
    exact ⟨new, there, old, found, same⟩

theorem changed_iff (record : current.IsRecord) :
    (∃ new, (.text name, new) ∈ List.filter (fun e => !isKept previous e) current) ↔
      current.has name = true ∧ ¬ Kept previous current name := by
  simp only [List.mem_filter, Bool.not_eq_true', Bool.eq_false_iff, ne_eq, isKept_iff,
    record.distinct.mem_iff]
  rw [← Fields.find?_isSome, Option.isSome_iff_exists]
  constructor
  · rintro ⟨new, there, differs⟩
    refine ⟨⟨new, there⟩, ?_⟩
    rintro ⟨old, new', found, there', same⟩
    rw [Option.some.inj (there.symm.trans there')] at differs
    exact differs ⟨old, found, same⟩
  · rintro ⟨⟨new, there⟩, differs⟩
    exact ⟨new, there, fun ⟨old, found, same⟩ => differs ⟨old, new, found, there, same⟩⟩

theorem mem_withoutHash {fields : Fields} {value : Node} :
    (.text name, value) ∈ withoutHash fields ↔
      (.text name, value) ∈ fields ∧ name ≠ Definition.hashField := by
  simp [withoutHash, Node.isText]

theorem texts_withoutHash (record : current.IsRecord) :
    ∀ e ∈ withoutHash current, ∃ name, e.1 = .text name :=
  fun _ member => record.key (List.mem_of_mem_filter member)

/-- Where the first lock file is within the second one, and of the same size, it
has all names of the second one. -/
theorem keys_perm_of_within (distinct : previous.Distinct) (record : current.IsRecord)
    (size : (withoutHash previous).length = (withoutHash current).length)
    (inside : ∀ e ∈ withoutHash previous, ∃ e' ∈ withoutHash current,
      e.1.same e'.1 = true ∧ e.2.same e'.2 = true) :
    (withoutHash previous).keys.Perm (withoutHash current).keys := by
  have sameKey : ∀ e ∈ withoutHash previous, ∃ e' ∈ withoutHash current, e.1 = e'.1 := by
    intro e member
    obtain ⟨e', there, same, _⟩ := inside e member
    obtain ⟨name, key⟩ := texts_withoutHash record e' there
    rw [key, Node.same_text_iff] at same
    exact ⟨e', there, same.trans key.symm⟩
  refine List.Subperm.perm_of_length_le (List.Nodup.subperm ?_ ?_) (by simp [Fields.keys, size])
  · refine (distinct.filter _).nodup_keys fun e member => ?_
    obtain ⟨e', there, key⟩ := sameKey e member
    rw [key]
    exact texts_withoutHash record e' there
  · intro key member
    obtain ⟨e, own, rfl⟩ := List.mem_map.mp member
    obtain ⟨e', there, key⟩ := sameKey e own
    exact List.mem_map.mpr ⟨e', there, key.symm⟩

theorem kept_of_same (distinct : previous.Distinct) (record : current.IsRecord)
    (same : Node.same (.map (withoutHash previous)) (.map (withoutHash current)) = true) :
    (∀ name, name ≠ Definition.hashField → current.has name = true →
      Kept previous current name) ∧
    ∀ e ∈ withoutHash previous, ∃ name, e.1 = .text name ∧ current.has name = true := by
  simp only [Node.same, Bool.and_eq_true, beq_iff_eq, Node.within_iff] at same
  obtain ⟨size, inside⟩ := same
  have named : ∀ e ∈ withoutHash previous, ∃ name, e.1 = .text name ∧
      ∃ new, current.find? name = some new ∧ e.2.same new = true := by
    intro e member
    obtain ⟨⟨key, new⟩, there, sameKey, sameValue⟩ := inside e member
    obtain ⟨name, rfl⟩ := texts_withoutHash record _ there
    exact ⟨name, Node.same_text_iff.mp sameKey, new,
      record.distinct.find?_of_mem (List.mem_of_mem_filter there), sameValue⟩
  constructor
  -- The first lock file is only said to be within the second one. It has each of
  -- its names, since they are as many.
  · intro name other there
    obtain ⟨new, found⟩ := Option.isSome_iff_exists.mp ((Fields.find?_isSome _ _).trans there)
    have key : Node.text name ∈ (withoutHash current).keys :=
      List.mem_map.mpr ⟨_, mem_withoutHash.mpr ⟨Fields.mem_of_find? found, other⟩, rfl⟩
    rw [← (keys_perm_of_within distinct record size inside).mem_iff] at key
    obtain ⟨⟨_, old⟩, member, rfl⟩ := List.mem_map.mp key
    obtain ⟨name', key', new', found', sameValue⟩ := named _ member
    rw [← Node.text.inj key'] at found'
    exact ⟨old, new', distinct.find?_of_mem (List.mem_of_mem_filter member), found', sameValue⟩
  · intro e member
    obtain ⟨name, key, new, found, _⟩ := named e member
    exact ⟨name, key, by rw [← Fields.find?_isSome, found]; rfl⟩

/-- Where each entry of the second lock file is kept, and the first one has no
others, both have the same names. -/
theorem keys_perm_of_kept (distinct : previous.Distinct) (record : current.IsRecord)
    (kept : ∀ name, name ≠ Definition.hashField → current.has name = true →
      Kept previous current name)
    (named : ∀ e ∈ withoutHash previous, ∃ name, e.1 = .text name ∧ current.has name = true) :
    (withoutHash previous).keys.Perm (withoutHash current).keys := by
  refine (List.perm_ext_iff_of_nodup ?_ ?_).mpr fun key => ⟨fun member => ?_, fun member => ?_⟩
  · exact (distinct.filter _).nodup_keys fun e member => (named e member).imp fun _ => And.left
  · exact (record.distinct.filter _).nodup_keys (texts_withoutHash record)
  · obtain ⟨⟨_, old⟩, own, rfl⟩ := List.mem_map.mp member
    obtain ⟨name, rfl, there⟩ := named _ own
    rw [← Fields.find?_isSome, Option.isSome_iff_exists] at there
    obtain ⟨new, found⟩ := there
    have other := (mem_withoutHash.mp own).2
    exact List.mem_map.mpr ⟨_, mem_withoutHash.mpr ⟨Fields.mem_of_find? found, other⟩, rfl⟩
  · obtain ⟨⟨_, new⟩, there, rfl⟩ := List.mem_map.mp member
    obtain ⟨name, rfl⟩ := texts_withoutHash record _ there
    obtain ⟨own, other⟩ := mem_withoutHash.mp there
    have has : current.has name = true := by
      rw [← Fields.find?_isSome, record.distinct.find?_of_mem own]
      rfl
    obtain ⟨old, _, found, _, _⟩ := kept name other has
    exact List.mem_map.mpr ⟨_, mem_withoutHash.mpr ⟨Fields.mem_of_find? found, other⟩, rfl⟩

theorem same_of_kept (distinct : previous.Distinct) (record : current.IsRecord)
    (kept : ∀ name, name ≠ Definition.hashField → current.has name = true →
      Kept previous current name)
    (named : ∀ e ∈ withoutHash previous, ∃ name, e.1 = .text name ∧ current.has name = true) :
    Node.same (.map (withoutHash previous)) (.map (withoutHash current)) = true := by
  have keys := keys_perm_of_kept distinct record kept named
  simp only [Node.same, Bool.and_eq_true, beq_iff_eq, Node.within_iff]
  refine ⟨by simpa [Fields.keys] using keys.length_eq, ?_⟩
  rintro ⟨key, value⟩ member
  obtain ⟨name, rfl, there⟩ := named _ member
  obtain ⟨own, other⟩ := mem_withoutHash.mp member
  obtain ⟨old, new, found, there, same⟩ := kept name other there
  have value_eq : old = value := Option.some.inj (found.symm.trans (distinct.find?_of_mem own))
  rw [value_eq] at same
  exact ⟨_, mem_withoutHash.mpr ⟨Fields.mem_of_find? there, other⟩, by simp [Node.same], same⟩

end Update

/-- What a report tells about the lock file before and after an update. -/
structure UpdateReport.Tells (report : UpdateReport) (previous current : Fields) : Prop where
  updated_sorted : report.updated.Pairwise (· < ·)
  unchanged_sorted : report.unchanged.Pairwise (· < ·)
  disjoint : ∀ name ∈ report.updated, name ∉ report.unchanged
  unchanged : ∀ name, name ∈ report.unchanged ↔
    name ≠ Definition.hashField ∧ Update.Kept previous current name
  updated : ∀ name, name ∈ report.updated ↔
    name ≠ Definition.hashField ∧ current.has name = true ∧ ¬ Update.Kept previous current name
  changed : report.changed = false ↔
    ∀ name, name ≠ Definition.hashField → current.has name = true →
      Update.Kept previous current name
  equal : Node.same (.map (Update.withoutHash previous)) (.map (Update.withoutHash current)) =
      true ↔
    report.changed = false ∧
      ∀ e ∈ Update.withoutHash previous, ∃ name, e.1 = .text name ∧ current.has name = true

theorem UpdateReport.tells_of_compare {report : UpdateReport} {previous current : Fields}
    (distinct : previous.Distinct) (record : current.IsRecord)
    (compared : (report.updated, report.unchanged) = Update.compare previous current) :
    report.Tells previous current := by
  obtain ⟨updated_eq, unchanged_eq⟩ := Prod.mk.inj compared
  have unchanged (name : String) : name ∈ report.unchanged ↔
      name ≠ Definition.hashField ∧ Update.Kept previous current name := by
    rw [unchanged_eq, Update.mem_sortedNames, Update.kept_iff record]
  have updated (name : String) : name ∈ report.updated ↔
      name ≠ Definition.hashField ∧ current.has name = true ∧
        ¬ Update.Kept previous current name := by
    rw [updated_eq, Update.mem_sortedNames, Update.changed_iff record]
  have changed : report.changed = false ↔
      ∀ name, name ≠ Definition.hashField → current.has name = true →
        Update.Kept previous current name := by
    simp only [UpdateReport.changed, Bool.not_eq_false', List.isEmpty_iff,
      List.eq_nil_iff_forall_not_mem, updated, not_and, Classical.not_not]
  refine ⟨?_, ?_, fun name new kept => ?_, unchanged, updated, changed, ?_⟩
  · rw [updated_eq]
    exact Update.pairwise_sortedNames (record.distinct.filter _)
  · rw [unchanged_eq]
    exact Update.pairwise_sortedNames (record.distinct.filter _)
  · exact ((updated name).mp new).2.2 ((unchanged name).mp kept).2
  · rw [changed]
    exact ⟨Update.kept_of_same distinct record,
      fun equal => Update.same_of_kept distinct record equal.1 equal.2⟩

theorem report_tells {world : World} {disk disk' : Disk} {request : Request} {refresh : Refresh}
    {indexes : IndexStore} {report : UpdateReport} {trail : Trail}
    (updated : (Update.run Kind.registry world disk request refresh).runFrom indexes =
      (.ok (report, disk'), trail)) :
    ∃ d written, Loads world.backend request d ∧
      (Update.prepare Kind.registry world request refresh).runFrom indexes =
        (.ok (report, written), trail) ∧
      Update.put disk report.path (Update.content written) = .ok disk' ∧
      report.Tells d.locks written := by
  rw [Act.runFrom_eq] at updated
  obtain ⟨written, prepared, put⟩ := Update.run_ok.mp updated
  obtain ⟨_, d, middle, own, loaded, locked, hashed, written_eq, compared⟩ :=
    Update.prepare_reports prepared
  have loads := loadDefinition_ok loaded
  have wrote : Update.Wrote Kind.registry world request refresh d middle written trail :=
    ⟨own, report.hash, locked, hashed, written_eq⟩
  exact ⟨d, written, loads, prepared, put,
    UpdateReport.tells_of_compare loads.distinct wrote.isRecord compared⟩

namespace Machine

theorem report_tells_zbuild :
    ∃ report disk' trail,
      (Update.run Kind.registry (alpine.world (project "zbuild.yml" bare))
        (project "zbuild.yml" bare) (prodOf "zbuild.yml") .all).runFrom .empty =
        (.ok (report, disk'), trail) ∧
      ∃ d written,
        Loads (alpine.world (project "zbuild.yml" bare)).backend (prodOf "zbuild.yml") d ∧
        report.Tells d.locks written := by
  obtain ⟨report, disk', trail, updated, _⟩ := run_of_prepares prepares_bare bareLocks_readBack
  obtain ⟨d, written, loads, _, _, tells⟩ := report_tells updated
  exact ⟨report, disk', trail, updated, d, written, loads, tells⟩

/-! Locks of a webserver that the definition holds no more. -/

def servedLocks : ByteArray :=
  ("base_image: a@sha256:b\nosrelease:\n  name: alpine\n  version_name: ''\n  version_id: ''\n" ++
    "stages:\n  dev:\n    system_packages: \x7b\x7d\n  prod:\n    system_packages: \x7b\x7d\n" ++
    "webserver:\n  base_image: n@sha256:s\n").toUTF8

/-- Whether an update reports no changes though an entry is gone. -/
def hidesRemoval (m : Machine) (disk : Disk) (request : Request) (name : String) : Bool :=
  (((load (m.world disk).backend request).runFrom .empty).1.toOption.any fun d =>
    d.locks.has name) &&
  ((Update.prepare Kind.registry (m.world disk) request .all).runFrom .empty).1.toOption.any
    fun answer => !answer.1.changed && !answer.2.has name &&
      (Update.put disk answer.1.path (Update.content answer.2)).toOption.isSome

/-- The locks of a webserver are dropped, and all locks are said to be up to
date. -/
theorem report_hides_removed_webserver :
    ∃ d report written disk' trail,
      Loads (alpine.world (nodeWith (some servedLocks))).backend (prodOf "zbuild.yml") d ∧
      (Update.run Kind.registry (alpine.world (nodeWith (some servedLocks)))
        (nodeWith (some servedLocks)) (prodOf "zbuild.yml") .all).runFrom .empty =
        (.ok (report, disk'), trail) ∧
      (Update.prepare Kind.registry (alpine.world (nodeWith (some servedLocks)))
        (prodOf "zbuild.yml") .all).runFrom .empty = (.ok (report, written), trail) ∧
      d.locks.has "webserver" = true ∧ written.has "webserver" = false ∧
      "webserver" ∉ report.updated ∧ report.changed = false := by
  have hidden : hidesRemoval alpine (nodeWith (some servedLocks)) (prodOf "zbuild.yml")
      "webserver" = true := by decide +kernel
  obtain ⟨loaded, prepared⟩ := Bool.and_eq_true .. ▸ hidden
  obtain ⟨d, opened, before⟩ := Act.exists_of_any loaded
  obtain ⟨⟨report, written⟩, outcome, checked⟩ := Act.exists_of_any prepared
  simp only [Bool.and_eq_true, Bool.not_eq_true'] at checked
  obtain ⟨⟨unchanged, gone⟩, put⟩ := checked
  have silent : report.updated = [] := by
    simpa [UpdateReport.changed] using unchanged
  cases placed : Update.put (nodeWith (some servedLocks)) report.path
      (Update.content written) with
  | error error => simp [placed, Except.toOption] at put
  | ok disk' =>
      exact ⟨d, report, written, disk', _, loads_of_ok opened,
        Update.run_ok.mpr ⟨written, outcome, placed⟩, outcome, before, gone, by simp [silent],
        unchanged⟩

end Machine
end ImageLock
