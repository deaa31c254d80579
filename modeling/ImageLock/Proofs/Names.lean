/-
Finite maps from names, seen through look-up.
-/
import ImageLock.Names

namespace ImageLock.Names

variable {α : Type}

theorem ext_entries {m n : Names α} (same : m.entries = n.entries) : m = n := by
  cases m
  cases n
  cases same
  rfl

/-! Look-up in a list of entries. -/

theorem find?_insertEntry (name key : String) (value : α) (entries : List (String × α)) :
    ((insertEntry name value entries).find? fun e => e.1 == key).map (·.2) =
      if name = key then some value else (entries.find? fun e => e.1 == key).map (·.2) := by
  induction entries with
  | nil => by_cases same : name = key <;> simp [insertEntry, same]
  | cons e rest ih =>
      obtain ⟨n, v⟩ := e
      simp only [insertEntry]
      split
      next => by_cases same : name = key <;> simp [same]
      next notBelow =>
        split
        next above =>
          -- The head stays, so the key is its name or one to be found behind it.
          by_cases head : n = key
          · have other : name ≠ key := fun h =>
              String.lt_irrefl n (by rw [← head] at h; rwa [h] at above)
            simp [head, other]
          · simpa [head] using ih
        next notAbove =>
          have equal : name = n := eq_of_not_lt notBelow notAbove
          subst equal
          by_cases same : name = key <;> simp [same]

theorem find?_insert (m : Names α) (name key : String) (value : α) :
    (m.insert name value).find? key = if name = key then some value else m.find? key :=
  find?_insertEntry name key value m.entries

theorem lookup_eq_find? (entries : List (String × α)) (key : String) :
    entries.lookup key = (entries.find? fun e => e.1 == key).map (·.2) := by
  induction entries with
  | nil => rfl
  | cons e rest ih =>
      rw [List.find?_cons, List.lookup_cons, ih, Bool.beq_comm]
      cases e.1 == key <;> rfl

theorem find?_eq_lookup (m : Names α) (key : String) : m.find? key = m.entries.lookup key :=
  (lookup_eq_find? m.entries key).symm

theorem find?_empty (key : String) : (empty : Names α).find? key = none := rfl

theorem isSome_find? (m : Names α) (key : String) : (m.find? key).isSome = m.has key := by
  rw [Bool.eq_iff_iff]
  simp [find?, has, List.find?_isSome]

theorem mem_keys {m : Names α} {key : String} : key ∈ m.keys ↔ m.has key = true := by
  simp [keys, has]

theorem nodup_keys (m : Names α) : m.keys.Nodup := by
  refine List.pairwise_map.mpr (m.sorted.imp fun {a b} below same => ?_)
  rw [same] at below
  exact String.lt_irrefl _ below

theorem mem_of_find? {m : Names α} {key : String} {value : α}
    (found : m.find? key = some value) : (key, value) ∈ m.entries := by
  obtain ⟨e, hit, rfl⟩ := Option.map_eq_some_iff.mp found
  have name : e.1 = key := by simpa using List.find?_some hit
  have member := List.mem_of_find?_eq_some hit
  rwa [← name]

theorem find?_of_mem {m : Names α} {key : String} {value : α}
    (member : (key, value) ∈ m.entries) : m.find? key = some value := by
  obtain ⟨entries, sorted⟩ := m
  simp only [find?] at member ⊢
  induction entries with
  | nil => cases member
  | cons e rest ih =>
      obtain ⟨first, later⟩ := List.pairwise_cons.mp sorted
      rcases List.mem_cons.mp member with rfl | member
      · simp
      · have other : e.1 ≠ key := fun same =>
          String.lt_irrefl key (by simpa [same] using first (key, value) member)
        simpa [other] using ih later member

theorem exists_of_mem_keys {m : Names α} {key : String} (member : key ∈ m.keys) :
    ∃ value, (key, value) ∈ m.entries := by
  obtain ⟨⟨_, value⟩, there, rfl⟩ := List.mem_map.mp member
  exact ⟨value, there⟩

theorem find?_erase (m : Names α) (name key : String) :
    (m.erase name).find? key = if name = key then none else m.find? key := by
  rw [find?, erase, List.find?_filter]
  by_cases same : name = key
  · simp [same]
  · have other : (fun e : String × α => decide ((e.1 != name) = true ∧ (e.1 == key) = true)) =
        fun e => e.1 == key := by
      funext e
      by_cases here : e.1 = key
      · simp [here, Ne.symm same]
      · simp [here]
    rw [other, if_neg same, find?]

/-! Entries that come and go. -/

theorem insert_insert (m : Names α) (name : String) (one other : α) :
    (m.insert name one).insert name other = m.insert name other := by
  refine ext_entries ?_
  obtain ⟨entries, sorted⟩ := m
  simp only [insert]
  clear sorted
  induction entries with
  | nil => simp [insertEntry, String.lt_irrefl]
  | cons e rest ih =>
      obtain ⟨n, v⟩ := e
      by_cases below : name < n
      · simp [insertEntry, below, String.lt_irrefl]
      · by_cases above : n < name
        · simp [insertEntry, below, above, ih]
        · simp [insertEntry, below, above, String.lt_irrefl]

theorem erase_insert (m : Names α) (name : String) (value : α)
    (absent : m.find? name = none) : (m.insert name value).erase name = m := by
  refine ext_entries ?_
  obtain ⟨entries, sorted⟩ := m
  have others : ∀ e ∈ entries, e.1 ≠ name := by
    intro e member same
    have none := List.find?_eq_none.mp (Option.map_eq_none_iff.mp absent) e member
    simp [same] at none
  simp only [insert, erase]
  clear absent sorted
  induction entries with
  | nil => simp [insertEntry]
  | cons e rest ih =>
      obtain ⟨n, v⟩ := e
      have other : n ≠ name := others (n, v) List.mem_cons_self
      have later := ih fun e member => others e (List.mem_cons_of_mem _ member)
      have kept : rest.filter (fun e => e.1 != name) = rest :=
        List.filter_eq_self.mpr fun e member => by simpa using others e (List.mem_cons_of_mem _ member)
      by_cases below : name < n
      · simp [insertEntry, below, other, kept]
      · by_cases above : n < name
        · simp [insertEntry, below, above, other, later]
        · exact absurd (eq_of_not_lt below above).symm other

/-! Lists that are in order already. -/

theorem insertEntry_of_last (name : String) (value : α) {entries : List (String × α)}
    (last : ∀ e ∈ entries, e.1 < name) :
    insertEntry name value entries = entries ++ [(name, value)] := by
  induction entries with
  | nil => rfl
  | cons e rest ih =>
      obtain ⟨n, v⟩ := e
      have below : n < name := last (n, v) List.mem_cons_self
      have notAbove : ¬ name < n := fun above => String.lt_irrefl n (String.lt_trans below above)
      have tail := ih fun e member => last e (List.mem_cons_of_mem _ member)
      simp [insertEntry, notAbove, below, tail]

theorem entries_foldl_insert (entries : List (String × α)) (m : Names α)
    (sorted : (m.entries ++ entries).Pairwise fun a b => a.1 < b.1) :
    (entries.foldl (fun m (e : String × α) => m.insert e.1 e.2) m).entries =
      m.entries ++ entries := by
  induction entries generalizing m with
  | nil => simp
  | cons e rest ih =>
      have last : ∀ x ∈ m.entries, x.1 < e.1 := fun x member =>
        (List.pairwise_append.mp sorted).2.2 x member e List.mem_cons_self
      have inserted : (m.insert e.1 e.2).entries = m.entries ++ [e] :=
        insertEntry_of_last e.1 e.2 last
      rw [List.foldl_cons, ih (m.insert e.1 e.2) (by rw [inserted]; simpa using sorted), inserted]
      simp

theorem entries_ofList {entries : List (String × α)}
    (sorted : entries.Pairwise fun a b => a.1 < b.1) : (ofList entries).entries = entries := by
  simpa [ofList, empty] using entries_foldl_insert entries empty (by simpa [empty] using sorted)

theorem ofList_entries (m : Names α) : ofList m.entries = m :=
  ext_entries (entries_ofList m.sorted)

theorem has_insert (m : Names α) (name key : String) (value : α) :
    (m.insert name value).has key = (name == key || m.has key) := by
  rw [← isSome_find?, find?_insert, ← isSome_find?]
  by_cases same : name = key <;> simp [same]

theorem has_foldl_insert (entries : List (String × α)) (m : Names α) (key : String) :
    (entries.foldl (fun m (e : String × α) => m.insert e.1 e.2) m).has key =
      (m.has key || entries.any fun e => e.1 == key) := by
  induction entries generalizing m with
  | nil => simp
  | cons e rest ih =>
      rw [List.foldl_cons, ih, has_insert, List.any_cons]
      cases e.1 == key <;> cases m.has key <;> rfl

/-- What a list names, the map of the list has. -/
theorem has_ofList (entries : List (String × α)) (key : String) :
    (ofList entries).has key = entries.any fun e => e.1 == key := by
  simpa [ofList, has, empty] using has_foldl_insert entries empty key

/-- Of entries with different names each one is found. -/
theorem find?_ofList_of_mem {entries : List (String × α)} (once : (entries.map (·.1)).Nodup)
    {name : String} {value : α} (member : (name, value) ∈ entries) :
    (ofList entries).find? name = some value := by
  have absent (entries : List (String × α)) (m : Names α) (other : name ∉ entries.map (·.1)) :
      (entries.foldl (fun m e => m.insert e.1 e.2) m).find? name = m.find? name := by
    induction entries generalizing m with
    | nil => rfl
    | cons e rest ih =>
        obtain ⟨differs, later⟩ : name ≠ e.1 ∧ name ∉ rest.map (·.1) := by
          simpa only [List.map_cons, List.mem_cons, not_or] using other
        rw [List.foldl_cons, ih _ later, find?_insert, if_neg (Ne.symm differs)]
  unfold ofList
  generalize empty = m
  induction entries generalizing m with
  | nil => cases member
  | cons e rest ih =>
      obtain ⟨unused, once⟩ := List.nodup_cons.mp once
      rw [List.foldl_cons]
      rcases List.mem_cons.mp member with rfl | later
      · rw [absent rest _ unused, find?_insert, if_pos rfl]
      · exact ih once later _

/-! Maps that are put on top of another. -/

/-- Two maps in which the same is found are one map. -/
theorem ext_find? {m n : Names α} (same : ∀ key, m.find? key = n.find? key) : m = n := by
  have once (m : Names α) : m.entries.Nodup := by
    refine List.Pairwise.imp (fun {a b} below equal => ?_) m.sorted
    rw [equal] at below
    exact String.lt_irrefl b.1 below
  have within {m n : Names α} (same : ∀ key, m.find? key = n.find? key) :
      ∀ e ∈ m.entries, e ∈ n.entries := fun e member =>
    mem_of_find? ((same e.1).symm.trans (find?_of_mem member))
  have perm : m.entries.Perm n.entries := (List.perm_ext_iff_of_nodup (once m) (once n)).mpr
    fun e => ⟨within same e, within (fun key => (same key).symm) e⟩
  exact ext_entries (perm.eq_of_pairwise
    (fun a b _ _ below above => absurd (String.lt_trans below above) (String.lt_irrefl a.1))
    m.sorted n.sorted)

/-- Entries of different names make up one map in any order. -/
theorem ofList_perm {entries entries' : List (String × α)}
    (once : (entries.map (·.1)).Nodup) (perm : entries.Perm entries') :
    ofList entries = ofList entries' := by
  have once' := (perm.map (·.1)).nodup_iff.mp once
  refine ext_find? fun key => ?_
  by_cases named : key ∈ entries.map (·.1)
  · obtain ⟨⟨_, value⟩, member, rfl⟩ := List.mem_map.mp named
    rw [find?_ofList_of_mem once member, find?_ofList_of_mem once' (perm.mem_iff.mp member)]
  · have absent {entries : List (String × α)} (unnamed : key ∉ entries.map (·.1)) :
        (ofList entries).find? key = none := by
      refine Option.not_isSome_iff_eq_none.mp fun found => unnamed ?_
      rw [isSome_find?, has_ofList] at found
      obtain ⟨e, member, here⟩ := List.any_eq_true.mp found
      exact List.mem_map.mpr ⟨e, member, eq_of_beq here⟩
    rw [absent named, absent fun there => named ((perm.map (·.1)).mem_iff.mpr there)]

/-- Entries of increasing names, each combined with what is there under its name. -/
theorem find?_foldl_combine (combine : Option α → α → α) {entries : List (String × α)}
    (sorted : entries.Pairwise fun a b => a.1 < b.1) (m : Names α) (key : String) :
    (entries.foldl (fun m e => m.insert e.1 (combine (m.find? e.1) e.2)) m).find? key =
      match (entries.find? fun e => e.1 == key).map (·.2) with
      | some value => some (combine (m.find? key) value)
      | none => m.find? key := by
  induction entries generalizing m with
  | nil => rfl
  | cons e rest ih =>
      obtain ⟨later, tail⟩ := List.pairwise_cons.mp sorted
      rw [List.foldl_cons, ih tail]
      by_cases here : e.1 = key
      · have gone : rest.find? (fun e => e.1 == key) = none := by
          refine List.find?_eq_none.mpr fun e' member same => ?_
          have below := later e' member
          rw [here, eq_of_beq same] at below
          exact String.lt_irrefl key below
        simp [gone, here, find?_insert]
      · simp [here, find?_insert]

theorem find?_merge (m other : Names α) (key : String) :
    (m.merge other).find? key = (other.find? key).or (m.find? key) := by
  refine (find?_foldl_combine (fun _ value => value) other.sorted m key).trans ?_
  change _ = ((other.entries.find? fun e => e.1 == key).map (·.2)).or (m.find? key)
  cases (other.entries.find? fun e => e.1 == key).map (·.2) <;> rfl

theorem merge_assoc (a b c : Names α) : (a.merge b).merge c = a.merge (b.merge c) :=
  ext_find? fun key => by simp only [find?_merge, Option.or_assoc]

theorem merge_empty (m : Names α) : m.merge empty = m := rfl

end ImageLock.Names
