/-
Version maps, seen through look-up.

What is found in a map tells it, and each way of writing has one law that says what is found
afterwards. The nil map has no entries and takes none.
-/
import ImageLock.Proofs.Names
import ImageLock.VersionMap

namespace ImageLock

/-! Look-up in a list of entries. -/

theorem lookup_cons (e : String × String) (rest : List (String × String)) (key : String) :
    (e :: rest).lookup key = if e.1 = key then some e.2 else rest.lookup key := by
  rw [List.lookup_cons]
  by_cases same : e.1 = key
  · simp [same]
  · simp [same, beq_false_of_ne (Ne.symm same)]

theorem mem_of_lookup {entries : List (String × String)} {key value : String}
    (found : entries.lookup key = some value) : (key, value) ∈ entries := by
  induction entries with
  | nil => cases found
  | cons e rest ih =>
      rw [lookup_cons] at found
      split at found
      next same =>
        obtain ⟨rfl⟩ := found
        exact same ▸ List.mem_cons_self
      next => exact List.mem_cons_of_mem _ (ih found)

theorem isSome_lookup {entries : List (String × String)} {key : String} :
    (entries.lookup key).isSome = true ↔ key ∈ entries.map (·.1) := by
  induction entries with
  | nil => simp
  | cons e rest ih =>
      rw [lookup_cons]
      by_cases same : e.1 = key
      · simp [same]
      · simp [same, ih, Ne.symm same]

namespace VersionMap

/-! Reading. -/

theorem mem_names {m : VersionMap} {name : String} : name ∈ m.names ↔ m.has name = true :=
  Names.mem_keys

theorem exists_entry {m : VersionMap} {name : String} (there : m.has name = true) :
    ∃ version, (name, version) ∈ m.entries := by
  obtain ⟨⟨name', version⟩, member, same⟩ := List.any_eq_true.mp there
  have name_eq : name' = name := by simpa using same
  subst name_eq
  exact ⟨version, member⟩

theorem has_ofList {entries : List (String × String)} {name : String} :
    (ofList entries).has name = true ↔ name ∈ entries.map (·.1) := by
  have content : (ofList entries).has name = entries.any fun entry => entry.1 == name :=
    Names.has_ofList entries name
  rw [content, List.any_eq_true]
  simp

variable {m : VersionMap}

theorem get?_eq_some {name version : String} :
    m.get? name = some version ↔ (name, version) ∈ m.entries :=
  ⟨Names.mem_of_find?, Names.find?_of_mem⟩

theorem isSome_get? (name : String) : (m.get? name).isSome = m.has name :=
  Names.isSome_find? m.toNames name

theorem has_of_get? {name version : String} (found : m.get? name = some version) :
    m.has name = true := by
  rw [← isSome_get?, found]
  rfl

theorem ofNames_toNames (there : m.content.isSome = true) : ofNames m.toNames = m := by
  obtain ⟨content⟩ := m
  cases content with
  | none => cases there
  | some names => rfl

theorem lookup_entries (m : VersionMap) (key : String) : m.entries.lookup key = m.get? key :=
  (m.toNames.find?_eq_lookup key).symm

theorem isSome_content {m : VersionMap} : m.content.isSome = true ↔ m ≠ nil := by
  obtain ⟨content⟩ := m
  cases content <;> simp [nil]

/-! Writing. -/

theorem get?_overwrite (there : m.content.isSome = true) (name version key : String) :
    (m.overwrite name version).get? key =
      if name = key then some version else m.get? key := by
  obtain ⟨content⟩ := m
  cases content with
  | none => cases there
  | some names => exact Names.find?_insert names name key version

theorem get?_add (there : m.content.isSome = true) (name version key : String) :
    (m.add name version).get? key =
      (m.get? key).or (if name = key then some version else none) := by
  obtain ⟨content⟩ := m
  cases content with
  | none => cases there
  | some names =>
      have known := isSome_get? (m := ⟨some names⟩) name
      by_cases has : names.has name = true
      · have kept : (⟨some names⟩ : VersionMap).add name version = ⟨some names⟩ := by
          simp [add, has]
        rw [kept]
        by_cases same : name = key
        · subst same
          obtain ⟨own, found⟩ := Option.isSome_iff_exists.mp (known.trans has)
          simp [found]
        · simp [same]
      · have written : (⟨some names⟩ : VersionMap).add name version =
            (⟨some names⟩ : VersionMap).overwrite name version := by
          simp [add, overwrite, has]
        rw [written, get?_overwrite rfl]
        by_cases same : name = key
        · subst same
          have absent : (⟨some names⟩ : VersionMap).get? name = none := by
            rw [← Option.not_isSome_iff_eq_none, known]
            exact has
          simp [absent]
        · simp [same]

theorem get?_erase (m : VersionMap) (name key : String) :
    (m.erase name).get? key = if name = key then none else m.get? key := by
  obtain ⟨content⟩ := m
  cases content with
  | none => exact (ite_self none).symm
  | some names => exact names.find?_erase name key

theorem merge_nil (m : VersionMap) : m.merge nil = m := by
  obtain ⟨content⟩ := m
  cases content <;> rfl

theorem merge_empty (m : VersionMap) : m.merge empty = m := by
  obtain ⟨content⟩ := m
  cases content <;> rfl

theorem merge_eq_nil {a b : VersionMap} : a.merge b = nil ↔ a = nil := by
  obtain ⟨content⟩ := a
  cases content <;> simp [merge, nil]

theorem merge_assoc_of_ne_nil {b : VersionMap} (given : b ≠ nil) (a c : VersionMap) :
    (a.merge b).merge c = a.merge (b.merge c) := by
  obtain ⟨a⟩ := a
  obtain ⟨b⟩ := b
  cases b with
  | none => exact absurd rfl given
  | some names =>
      cases a with
      | none => rfl
      | some own => exact congrArg ofNames (own.merge_assoc names c.toNames)

/-- A map in the middle that is given as nothing loses the map on top of it. -/
theorem merge_assoc_iff (a b c : VersionMap) :
    (a.merge b).merge c = a.merge (b.merge c) ↔ (b = nil → a.merge c = a) := by
  by_cases given : b = nil
  · have lost : nil.merge c = nil := rfl
    simp [given, lost, merge_nil]
  · simp [given, merge_assoc_of_ne_nil given]

theorem merge_ne_nil {below : VersionMap} (given : below ≠ nil) (above : VersionMap) :
    below.merge above ≠ nil := by
  intro none
  exact given (merge_eq_nil.mp none)

theorem get?_merge {below : VersionMap} (given : below ≠ nil) (above : VersionMap)
    (name : String) :
    (below.merge above).get? name = (above.get? name).or (below.get? name) := by
  obtain ⟨content⟩ := below
  cases content with
  | none => exact absurd rfl given
  | some names => exact Names.find?_merge names above.toNames name

/-! Writing many entries. -/

theorem isSome_foldl {σ : Type} (items : List σ) (write : VersionMap → σ → VersionMap)
    (keeps : ∀ m item, (write m item).content.isSome = m.content.isSome) :
    (items.foldl write m).content.isSome = m.content.isSome := by
  induction items generalizing m with
  | nil => rfl
  | cons item rest ih => rw [List.foldl_cons, ih, keeps]

/-- The first entry of a name counts, unless the map has one. -/
theorem get?_foldl_add (entries : List (String × String)) (there : m.content.isSome = true)
    (key : String) :
    (entries.foldl (fun m (e : String × String) => m.add e.1 e.2) m).get? key =
      (m.get? key).or (entries.lookup key) := by
  induction entries generalizing m with
  | nil => simp
  | cons e rest ih =>
      rw [List.foldl_cons, ih (by simpa [add] using there), get?_add there, Option.or_assoc,
        lookup_cons]
      by_cases same : e.1 = key <;> simp [same]

/-- The last entry of a name counts, and what the map had before it otherwise. -/
theorem get?_foldl_overwrite (entries : List (String × String)) (there : m.content.isSome = true)
    (key : String) :
    (entries.foldl (fun m (e : String × String) => m.overwrite e.1 e.2) m).get? key =
      (entries.reverse.lookup key).or (m.get? key) := by
  induction entries generalizing m with
  | nil => simp
  | cons e rest ih =>
      rw [List.foldl_cons, ih (by simpa [overwrite] using there), get?_overwrite there,
        List.reverse_cons, List.lookup_append, Option.or_assoc, lookup_cons]
      by_cases same : e.1 = key <;> simp [same]

theorem isSome_add (m : VersionMap) (name version : String) :
    (m.add name version).content.isSome = m.content.isSome := by
  simp [add]

theorem isSome_addAny (m : VersionMap) (names : List String) :
    (m.addAny names).content.isSome = m.content.isSome :=
  isSome_foldl names _ fun m name => isSome_add m name "*"

theorem get?_addAny (there : m.content.isSome = true) (names : List String) (key : String) :
    (m.addAny names).get? key = (m.get? key).or (if key ∈ names then some "*" else none) := by
  induction names generalizing m with
  | nil => simp [addAny]
  | cons name rest ih =>
      have first : m.addAny (name :: rest) = (m.add name "*").addAny rest := rfl
      rw [first, ih ((isSome_add m name "*").trans there), get?_add there, Option.or_assoc]
      by_cases same : name = key
      · simp [same]
      · simp [same, Ne.symm same]

theorem addAny_append (m : VersionMap) (names more : List String) :
    m.addAny (names ++ more) = (m.addAny names).addAny more :=
  List.foldl_append

theorem foldl_addAny (m : VersionMap) (names : List String) (more : String → List String) :
    names.foldl (fun m name => m.addAny (more name)) m = m.addAny (names.flatMap more) := by
  induction names generalizing m with
  | nil => rfl
  | cons name rest ih => rw [List.foldl_cons, ih, List.flatMap_cons, addAny_append]

theorem get?_foldl_erase (names : List String) (m : VersionMap) (key : String) :
    (names.foldl erase m).get? key = if key ∈ names then none else m.get? key := by
  induction names generalizing m with
  | nil => simp
  | cons name rest ih =>
      rw [List.foldl_cons, ih, get?_erase]
      by_cases same : name = key
      · simp [same]
      · simp [same, Ne.symm same]

/-- Of the names that a map has, the chosen ones are taken out of it. -/
theorem get?_erase_names (m : VersionMap) (chosen : String → Bool) (key : String) :
    ((m.names.filter chosen).foldl erase m).get? key =
      if chosen key = true then none else m.get? key := by
  have taken : key ∈ m.names.filter chosen ↔ (m.get? key).isSome = true ∧ chosen key = true := by
    rw [List.mem_filter, mem_names, isSome_get?]
  rw [get?_foldl_erase]
  by_cases marked : chosen key = true
  · cases found : m.get? key <;> simp [taken, marked, found]
  · simp [taken, marked]

end VersionMap
end ImageLock
