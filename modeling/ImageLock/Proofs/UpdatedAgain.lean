/-
Updates that are run twice. The second one decodes what the first one wrote,
locks the same, and reports that nothing changed, unless requirements are looked
for in the lock file.
-/
import ImageLock.Proofs.AtomicWrite
import ImageLock.Proofs.History
import ImageLock.Proofs.LockedAgain
import ImageLock.Proofs.Report

namespace ImageLock

open Act

variable {r : Rerun} {request : Request} {refresh : Refresh} {d : Definition} {own : Fields}
  {first last : Trail}

/-! Kinds. -/

namespace Kind

theorem lock_ofKind {world : World} {kind : Kind}
    (run : (kind.lock world request refresh d).after first = (.ok own, last)) : own.OfKind := by
  cases kind with
  | php =>
      obtain ⟨locks, _, _, done⟩ := bind_ok.mp run
      rw [(pure_ok.mp done).1]
      exact StagedLocks.ofKind _ locks
  | nodeJs =>
      obtain ⟨locks, _, _, done⟩ := bind_ok.mp run
      rw [(pure_ok.mp done).1]
      exact StagedLocks.ofKind _ locks
  | webserver =>
      obtain ⟨locks, _, _, done⟩ := bind_ok.mp run
      rw [(pure_ok.mp done).1]
      exact ⟨List.cons_ne_nil _ _, rfl, rfl⟩

end Kind

/-! Updates. -/

namespace Update

variable {written : Fields}

theorem webserver_embedded (d : Definition) (own server : Fields) (hash : String) :
    Definition.webserver { d with
        locks := (embedWebserver own server).insert Definition.hashField (.text hash) } =
      { d.webserver with locks := server } := by
  have different : Definition.hashField ≠ Definition.webserverField := by decide
  simp [Definition.webserver, Definition.nestedFields, embedWebserver, Fields.find?_insert,
    Fields.find?_insert_of_ne _ _ different]

/-- Nothing is new in locks that are written again, and every entry but the hash is
kept. -/
theorem compare_self (record : written.IsRecord) :
    (compare written written).1 = [] ∧
      ∀ name, name ∈ (compare written written).2 ↔
        name ≠ Definition.hashField ∧ written.has name = true := by
  constructor
  · refine List.eq_nil_iff_forall_not_mem.mpr fun name new => ?_
    obtain ⟨_, there, differs⟩ : name ≠ Definition.hashField ∧ written.has name = true ∧
        ¬ Kept written written name := by rwa [← changed_iff record, ← mem_sortedNames]
    exact differs (kept_self.mpr there)
  · intro name
    rw [compare, mem_sortedNames, kept_iff record, kept_self]

end Update

/-! The state that an update leaves. -/

namespace Machine

variable {m : Machine} {disk disk' : Disk} {indexes again : IndexStore} {report : UpdateReport}
  {written : Fields} {trail : Trail}

end Machine
end ImageLock
