/-
What is done to maps of versions, one operation after another.

Four operations write to a map, and they differ in when they take effect on a name. Whatever their
order is, a name has in the end what it was given by the last of them that took effect on it, and
nothing that is done to the nil map takes effect.
-/
import ImageLock.Proofs.VersionMaps
import Mathlib.Data.List.Induction

namespace ImageLock.VersionMap

/-! Operations and their runs. -/

/-- What writes to a map. -/
inductive Operation where
  | add (name version : String)
  | overwrite (name version : String)
  | merge (overriding : VersionMap)
  | remove (name : String)

namespace Operation

/-- The map that an operation leaves. -/
def apply (m : VersionMap) : Operation → VersionMap
  | add name version => m.add name version
  | overwrite name version => m.overwrite name version
  | merge overriding => m.merge overriding
  | remove name => m.erase name

/-- Whether an operation takes effect on a name of a map that is given: an addition does where the
name is absent, and the others do wherever they speak of it. -/
def takesEffect (isThere : Bool) (name : String) : Operation → Bool
  | add own _ => own == name && !isThere
  | overwrite own _ => own == name
  | merge overriding => overriding.has name
  | remove own => own == name

/-- What a name has once an operation took effect on it. -/
def given? (name : String) : Operation → Option String
  | add _ version => some version
  | overwrite _ version => some version
  | merge overriding => overriding.get? name
  | remove _ => none

end Operation

def run (m : VersionMap) (ops : List Operation) : VersionMap := ops.foldl Operation.apply m

/-- The operations of a run, each with the map that it found. -/
def points (m : VersionMap) : List Operation → List (VersionMap × Operation)
  | [] => []
  | op :: rest => (m, op) :: points (op.apply m) rest

/-- The last operation of a run that took effect on a name. -/
def lastEffective? (m : VersionMap) (ops : List Operation) (name : String) : Option Operation :=
  ((points m ops).reverse.find? fun point => point.2.takesEffect (point.1.has name) name).map (·.2)

/-- What a name has after a run: what it was given last, or what it had before. -/
def settled? (m : VersionMap) (ops : List Operation) (name : String) : Option String :=
  match lastEffective? m ops name with
  | some op => op.given? name
  | none => m.get? name

/-! Reading. -/

/-- All ways of reading a map tell the same of it. The names are in increasing order. -/
structure ReadsAlike (m : VersionMap) : Prop where
  increasing : m.names.Pairwise (· < ·)
  once : m.names.Nodup
  names_eq : m.names = m.entries.map (·.1)
  size_eq : m.size = m.names.length
  isEmpty_iff : m.isEmpty = true ↔ m.names = []
  has_iff : ∀ name, m.has name = true ↔ name ∈ m.names
  isSome_get? : ∀ name, (m.get? name).isSome = m.has name
  get?_iff : ∀ name version, m.get? name = some version ↔ (name, version) ∈ m.entries

/-- Nothing is read of a map, in whatever way. -/
structure ReadsEmpty (m : VersionMap) : Prop where
  get?_eq : ∀ name, m.get? name = none
  has_eq : ∀ name, m.has name = false
  names_eq : m.names = []
  entries_eq : m.entries = []
  size_eq : m.size = 0
  isEmpty_eq : m.isEmpty = true

theorem readsAlike (m : VersionMap) : m.ReadsAlike where
  increasing := List.pairwise_map.mpr m.toNames.sorted
  once := m.toNames.nodup_keys
  names_eq := rfl
  size_eq := (List.length_map ..).symm
  isEmpty_iff := by simp [isEmpty, size, Names.size, names, Names.keys]
  has_iff _ := mem_names.symm
  isSome_get? := isSome_get?
  get?_iff _ _ := get?_eq_some

theorem readsEmpty_nil : nil.ReadsEmpty := ⟨fun _ => rfl, fun _ => rfl, rfl, rfl, rfl, rfl⟩

/-! One operation. -/

namespace Operation

variable {m : VersionMap}

theorem apply_nil (op : Operation) : op.apply nil = nil := by
  cases op <;> rfl

theorem apply_ne_nil (given : m ≠ nil) (op : Operation) : op.apply m ≠ nil := by
  obtain ⟨content⟩ := m
  cases content with
  | none => exact absurd rfl given
  | some names => cases op <;> nofun

/-- A name has what it is given where an operation takes effect on it, and otherwise what it had. -/
theorem get?_apply (given : m ≠ nil) (op : Operation) (name : String) :
    (op.apply m).get? name =
      if op.takesEffect (m.has name) name then op.given? name else m.get? name := by
  have there := isSome_content.mpr given
  cases op with
  | add own version =>
      rw [apply, get?_add there, takesEffect, ← isSome_get?]
      cases m.get? name <;> simp [given?]
  | overwrite own version =>
      simp [apply, get?_overwrite there, takesEffect, given?]
  | merge overriding =>
      rw [apply, get?_merge given, takesEffect, ← isSome_get?, given?]
      cases overriding.get? name <;> simp
  | remove own =>
      simp [apply, get?_erase, takesEffect, given?]

end Operation

/-! One operation after another. -/

variable {m : VersionMap}

theorem run_concat (m : VersionMap) (ops : List Operation) (op : Operation) :
    run m (ops ++ [op]) = op.apply (run m ops) := by
  simp [run]

theorem points_concat (m : VersionMap) (ops : List Operation) (op : Operation) :
    points m (ops ++ [op]) = points m ops ++ [(run m ops, op)] := by
  induction ops generalizing m with
  | nil => rfl
  | cons first rest ih => exact congrArg ((m, first) :: ·) (ih (first.apply m))

theorem settled?_concat (m : VersionMap) (ops : List Operation) (op : Operation) (name : String) :
    settled? m (ops ++ [op]) name =
      if op.takesEffect ((run m ops).has name) name then op.given? name
      else settled? m ops name := by
  unfold settled? lastEffective?
  rw [points_concat, List.reverse_append, List.reverse_singleton, List.singleton_append,
    List.find?_cons]
  cases op.takesEffect ((run m ops).has name) name <;> rfl

theorem run_nil (ops : List Operation) : run nil ops = nil := by
  induction ops with
  | nil => rfl
  | cons op rest ih => exact (congrArg (run · rest) op.apply_nil).trans ih

theorem run_ne_nil (given : m ≠ nil) (ops : List Operation) : run m ops ≠ nil := by
  induction ops generalizing m with
  | nil => exact given
  | cons op rest ih => exact ih (op.apply_ne_nil given)

theorem get?_run (given : m ≠ nil) (ops : List Operation) (name : String) :
    (run m ops).get? name = settled? m ops name := by
  -- From the end: the last operation takes effect, or what was settled before it stays.
  induction ops using List.reverseRecOn with
  | nil => rfl
  | append_singleton ops op ih =>
      rw [run_concat, op.get?_apply (run_ne_nil given ops), settled?_concat, ih]

/-- Runs of operations on the nil map leave it, and of it nothing is read or removed. Every other
map is a finite map: each name has what was given to it last, and that is what is removed. -/
theorem run_settles (m : VersionMap) (ops : List Operation) :
    (run m ops).ReadsAlike ∧
      (m = nil → run m ops = nil ∧ (run m ops).ReadsEmpty ∧
        ∀ name, (run m ops).remove name = (none, nil)) ∧
      (m ≠ nil → run m ops ≠ nil ∧ ∀ name, (run m ops).get? name = settled? m ops name ∧
        ((run m ops).remove name).1 = settled? m ops name ∧
        ((run m ops).remove name).2.get? name = none) := by
  refine ⟨readsAlike _, ?_, fun given => ⟨run_ne_nil given ops, fun name => ?_⟩⟩
  · rintro rfl
    rw [run_nil]
    exact ⟨rfl, readsEmpty_nil, fun name => rfl⟩
  · have had := get?_run given ops name
    refine ⟨had, had, ?_⟩
    exact (get?_erase _ name name).trans (if_pos rfl)

/-- An addition to a name that is there, one that was overwritten, and one after a removal. -/
theorem run_settles_curl :
    let m := ofList [("curl", "*")]
    let ops : List Operation := [.add "curl" "7.64.0-4", .add "git" "1:2.20",
      .merge (ofList [("git", "1:2.30"), ("unzip", "*")]), .remove "unzip", .merge nil,
      .add "unzip" "6.0"]
    m ≠ nil ∧ (run m ops).get? "curl" = some "*" ∧ ((run m ops).remove "git").1 = some "1:2.30" ∧
      (run m ops).get? "unzip" = some "6.0" ∧ run nil ops = nil := by
  intro m ops
  have given : m ≠ nil := isSome_content.mp rfl
  obtain ⟨-, settles⟩ := (run_settles m ops).2.2 given
  obtain ⟨ignored, -⟩ := (run_settles nil ops).2.1 rfl
  exact ⟨given, (settles "curl").1, (settles "git").2.1, (settles "unzip").1, ignored⟩

end ImageLock.VersionMap
