/-
Finite maps from names, kept sorted by name.
-/
namespace ImageLock

/-- A finite map from names to values. The entries are in increasing order of
their names, so two maps with the same entries are equal. -/
structure Names (α : Type) where
  entries : List (String × α)
  sorted : entries.Pairwise fun a b => a.1 < b.1

namespace Names

variable {α β : Type}

instance [DecidableEq α] : DecidableEq (Names α) := fun a b =>
  if h : a.entries = b.entries then .isTrue (by cases a; cases b; simp_all)
  else .isFalse fun e => h (e ▸ rfl)

instance [Repr α] : Repr (Names α) := ⟨fun m n => reprPrec m.entries n⟩

def empty : Names α := ⟨[], .nil⟩

instance : Inhabited (Names α) := ⟨empty⟩

/-- Puts an entry in its place; an entry of that name is replaced. -/
def insertEntry (name : String) (value : α) : List (String × α) → List (String × α)
  | [] => [(name, value)]
  | (n, v) :: rest =>
      if name < n then (name, value) :: (n, v) :: rest
      else if n < name then (n, v) :: insertEntry name value rest
      else (name, value) :: rest

theorem eq_of_not_lt {a b : String} (h : ¬ a < b) (h' : ¬ b < a) : a = b :=
  String.le_antisymm (String.not_lt.mp h') (String.not_lt.mp h)

theorem mem_insertEntry {name : String} {value : α} {x : String × α}
    {entries : List (String × α)} (h : x ∈ insertEntry name value entries) :
    x = (name, value) ∨ x ∈ entries := by
  induction entries with
  | nil => simpa [insertEntry] using h
  | cons e rest ih =>
      obtain ⟨n, v⟩ := e
      simp only [insertEntry] at h
      split at h
      · simpa using h
      · split at h
        · rcases List.mem_cons.mp h with h | h
          · simp [h]
          · rcases ih h with h | h
            · simp [h]
            · simp [h]
        · rcases List.mem_cons.mp h with h | h
          · simp [h]
          · simp [h]

theorem pairwise_insertEntry (name : String) (value : α) {entries : List (String × α)}
    (h : entries.Pairwise fun a b => a.1 < b.1) :
    (insertEntry name value entries).Pairwise fun a b => a.1 < b.1 := by
  induction entries with
  | nil => simp [insertEntry]
  | cons e rest ih =>
      obtain ⟨n, v⟩ := e
      have later := (List.pairwise_cons.mp h).1
      have tail := (List.pairwise_cons.mp h).2
      simp only [insertEntry]
      split
      next below =>
        refine List.pairwise_cons.mpr ⟨fun x hx => ?_, h⟩
        rcases List.mem_cons.mp hx with rfl | hx
        · exact below
        · exact String.lt_trans below (later x hx)
      next notBelow =>
        split
        next above =>
          refine List.pairwise_cons.mpr ⟨fun x hx => ?_, ih tail⟩
          rcases mem_insertEntry hx with rfl | hx
          · exact above
          · exact later x hx
        next notAbove =>
          have same : name = n := eq_of_not_lt notBelow notAbove
          subst same
          exact List.pairwise_cons.mpr ⟨later, tail⟩

def insert (m : Names α) (name : String) (value : α) : Names α :=
  ⟨insertEntry name value m.entries, pairwise_insertEntry name value m.sorted⟩

def find? (m : Names α) (name : String) : Option α :=
  (m.entries.find? fun e => e.1 == name).map (·.2)

def has (m : Names α) (name : String) : Bool := m.entries.any fun e => e.1 == name

def erase (m : Names α) (name : String) : Names α :=
  ⟨m.entries.filter fun e => e.1 != name, m.sorted.filter _⟩

def keys (m : Names α) : List String := m.entries.map (·.1)

def size (m : Names α) : Nat := m.entries.length

/-- The entries of a list; of two entries of one name the later stays. -/
def ofList (entries : List (String × α)) : Names α :=
  entries.foldl (fun m (name, value) => m.insert name value) empty

/-- `other` on top of `m`. -/
def merge (m other : Names α) : Names α :=
  other.entries.foldl (fun m (name, value) => m.insert name value) m

def mapValues (f : α → β) (m : Names α) : Names β :=
  ⟨m.entries.map fun (name, value) => (name, f value), by
    have := m.sorted
    exact List.pairwise_map.mpr (this.imp fun h => h)⟩

end Names
end ImageLock
