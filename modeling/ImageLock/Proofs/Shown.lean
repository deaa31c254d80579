/-
Names that plans show. The maps of versions in a document are objects of its
JSON, with the same names in whatever order.
-/
import ImageLock.NodeJs.Definition
import ImageLock.Php.Resolved
import ImageLock.Proofs.Names

namespace ImageLock

namespace Json

/-- The names of an object. -/
def names : Json → List String
  | .object fields => fields.map (·.1)
  | _ => []

/-- The names of an object that is a field of another. -/
def namesOf (field : String) : Json → List String
  | .object fields => ((fields.find? fun e => e.1 == field).map fun e => e.2.names).getD []
  | _ => []

/-- Some field of this name has an object with that name. -/
def Has (field name : String) : Json → Prop
  | .object fields => ∃ value, (field, value) ∈ fields ∧ name ∈ value.names
  | _ => False

theorem has_of_mem_namesOf {field name : String} {value : Json}
    (shown : name ∈ namesOf field value) : Has field name value := by
  cases value with
  | object fields =>
      simp only [namesOf] at shown
      cases found : fields.find? fun e => e.1 == field with
      | none => simp [found] at shown
      | some e =>
          obtain ⟨field', inner⟩ := e
          have same : field' = field := by simpa using List.find?_some found
          subst same
          exact ⟨inner, List.mem_of_find?_eq_some found, by simpa [found] using shown⟩
  | _ => simp [namesOf] at shown

/-! Sorting. -/

theorem mem_insertField {name : String} {value : Json} {fields : List (String × Json)}
    {e : String × Json} (member : e ∈ insertField name value fields) :
    e = (name, value) ∨ e ∈ fields := by
  induction fields with
  | nil => exact .inl (List.mem_singleton.mp member)
  | cons first rest ih =>
      obtain ⟨n, v⟩ := first
      simp only [insertField] at member
      split at member
      · exact List.mem_cons.mp member
      · split at member
        · rcases List.mem_cons.mp member with same | later
          · exact .inl same
          · exact .inr (List.mem_cons_of_mem _ later)
        · rcases List.mem_cons.mp member with same | later
          · exact .inr (same ▸ List.mem_cons_self)
          · rcases ih later with same | later
            · exact .inl same
            · exact .inr (List.mem_cons_of_mem _ later)

theorem mem_sortedFields {fields done : List (String × Json)} {e : String × Json}
    (member : e ∈ sortedFields fields done) :
    (∃ value, (e.1, value) ∈ fields ∧ e.2 = sorted value) ∨ e ∈ done := by
  -- What is done so far grows by one field at a time.
  induction fields generalizing done with
  | nil => exact .inr (by simpa [sortedFields] using member)
  | cons first rest ih =>
      obtain ⟨name, value⟩ := first
      rw [sortedFields] at member
      rcases ih member with ⟨inner, there, same⟩ | earlier
      · exact .inl ⟨inner, List.mem_cons_of_mem _ there, same⟩
      · rcases mem_insertField earlier with rfl | earlier
        · exact .inl ⟨value, List.mem_cons_self, rfl⟩
        · exact .inr earlier

theorem mem_names_insertField {name key : String} {value : Json}
    {fields : List (String × Json)} :
    key ∈ (insertField name value fields).map (·.1) ↔ key = name ∨ key ∈ fields.map (·.1) := by
  induction fields with
  | nil => simp [insertField]
  | cons first rest ih =>
      obtain ⟨n, v⟩ := first
      simp only [insertField]
      split
      · simp
      · split
        next same => simp [same]
        next =>
          simp only [List.map_cons, List.mem_cons, ih]
          constructor
          · rintro (here | here | here)
            · exact .inr (.inl here)
            · exact .inl here
            · exact .inr (.inr here)
          · rintro (here | here | here)
            · exact .inr (.inl here)
            · exact .inl here
            · exact .inr (.inr here)

theorem mem_names_sortedFields {key : String} {fields done : List (String × Json)} :
    key ∈ (sortedFields fields done).map (·.1) ↔
      key ∈ fields.map (·.1) ∨ key ∈ done.map (·.1) := by
  induction fields generalizing done with
  | nil => simp [sortedFields]
  | cons first rest ih =>
      obtain ⟨name, value⟩ := first
      rw [sortedFields, ih, mem_names_insertField, List.map_cons, List.mem_cons]
      constructor
      · rintro (here | here | here)
        · exact .inl (.inr here)
        · exact .inl (.inl here)
        · exact .inr here
      · rintro ((here | here) | here)
        · exact .inr (.inl here)
        · exact .inl here
        · exact .inr (.inr here)

/-- Sorting keeps names. -/
theorem mem_names_sorted {value : Json} {name : String} :
    name ∈ value.sorted.names ↔ name ∈ value.names := by
  cases value with
  | object fields =>
      rw [sorted, names, names, mem_names_sortedFields]
      simp
  | list items => simp [sorted, names]
  | _ => simp [sorted]

theorem has_of_sorted {field name : String} {value : Json} (has : Has field name value.sorted) :
    Has field name value := by
  cases value with
  | object fields =>
      rw [sorted] at has
      obtain ⟨inner, member, shown⟩ := has
      rcases mem_sortedFields member with ⟨value, there, same⟩ | absurd
      · dsimp only at same
        rw [same, mem_names_sorted] at shown
        exact ⟨value, there, shown⟩
      · cases absurd
  | list items => simp [sorted, Has] at has
  | _ => simp [sorted, Has] at has

/-! Documents. -/

theorem mem_of_ofFields? {fields : List (String × Node)} {objects : List (String × Json)}
    (known : ofFields? (fields.map fun (name, value) => (.text name, value)) = some objects)
    {e : String × Json} (member : e ∈ objects) :
    ∃ node, (e.1, node) ∈ fields ∧ ofNode? node = some e.2 := by
  induction fields generalizing objects with
  | nil =>
      have empty : objects = [] := (Option.some.inj known).symm
      rw [empty] at member
      cases member
  | cons first rest ih =>
      obtain ⟨name, node⟩ := first
      simp only [List.map_cons, ofFields?, keyText?] at known
      split at known
      next text value later text_eq value_eq later_eq =>
        obtain rfl := Option.some.inj known
        rcases List.mem_cons.mp member with rfl | member
        · obtain rfl := Option.some.inj text_eq
          exact ⟨node, List.mem_cons_self, value_eq⟩
        · obtain ⟨node', there, same⟩ := ih later_eq member
          exact ⟨node', List.mem_cons_of_mem _ there, same⟩
      next => cases known

/-- What a plan shows of a record is a field of it. -/
theorem exists_field_of_shown {fields : List (String × Node)} {field name : String}
    (shown : name ∈ namesOf field (ofNode (.record fields)).sorted) :
    ∃ node value, (field, node) ∈ fields ∧ ofNode? node = some value ∧ name ∈ value.names := by
  have has := has_of_sorted (has_of_mem_namesOf shown)
  unfold ofNode at has
  cases known : ofNode? (.record fields) with
  | none => simp [known, Has] at has
  | some object =>
      simp only [known, Option.map_some, Option.getD_some] at has
      have inside := has_of_sorted has
      simp only [Node.record, ofNode?] at known
      obtain ⟨objects, objects_eq, rfl⟩ := Option.map_eq_some_iff.mp known
      obtain ⟨value, member, there⟩ := inside
      obtain ⟨node, listed, value_eq⟩ := mem_of_ofFields? objects_eq member
      exact ⟨node, value, listed, value_eq, there⟩

end Json

theorem Json.ofFields?_texts (entries : List (String × String)) :
    ofFields? (entries.map fun (name, version) => (.text name, .text version)) =
      some (entries.map fun e => (e.1, .text e.2)) := by
  induction entries with
  | nil => rfl
  | cons entry rest ih => simp [ofFields?, keyText?, ofNode?, ih]

/-- A map of versions is an object with its names. -/
theorem VersionMap.exists_json (m : VersionMap) :
    ∃ value, Json.ofNode? m.toNode = some value ∧
      ∀ name, name ∈ value.names ↔ m.has name = true := by
  obtain ⟨content⟩ := m
  cases content with
  | none =>
      refine ⟨.null, rfl, fun name => ?_⟩
      simp [Json.names, has, toNames, Names.has, Names.empty]
  | some names =>
      have fields := Json.ofFields?_texts names.entries
      refine ⟨.object (names.entries.map fun e => (e.1, .text e.2)), ?_, ?_⟩
      · simp only [toNode, Node.record, List.map_map, Json.ofNode?, Function.comp_def, fields,
          Option.map_some]
      · intro name
        simp [Json.names, has, toNames, Names.has]

/-! Locks of stages. -/

theorem Php.StageLocks.shown (locks : Php.StageLocks) (name : String) :
    (locks.systemPackages.has name = true →
      name ∈ Json.namesOf "system_packages" (Json.ofNode locks.toNode).sorted) ∧
    (locks.extensions.has name = true →
      name ∈ Json.namesOf "extensions" (Json.ofNode locks.toNode).sorted) := by
  obtain ⟨packages, packages_eq, packageNames⟩ := locks.systemPackages.exists_json
  obtain ⟨extensions, extensions_eq, extensionNames⟩ := locks.extensions.exists_json
  have before : "extensions" < "system_packages" := by decide
  have behind : ¬ "system_packages" < "extensions" := by decide
  -- Documents are sorted when they are made, and once more in plans.
  have object : (Json.ofNode locks.toNode).sorted = .object
      [("extensions", extensions.sorted.sorted), ("system_packages", packages.sorted.sorted)] := by
    simp [Json.ofNode, toNode, Node.record, Json.ofNode?, Json.ofFields?, Json.keyText?,
      packages_eq, extensions_eq, Json.sorted, Json.sortedFields, Json.insertField, before, behind]
  rw [object]
  constructor
  · intro there
    simpa [Json.namesOf, Json.mem_names_sorted] using (packageNames name).mpr there
  · intro there
    simpa [Json.namesOf, Json.mem_names_sorted] using (extensionNames name).mpr there

theorem NodeJs.StageLocks.shown (locks : NodeJs.StageLocks) {name : String}
    (there : locks.systemPackages.has name = true) :
    name ∈ Json.namesOf "system_packages" (Json.ofNode locks.toNode).sorted := by
  obtain ⟨packages, packages_eq, packageNames⟩ := locks.systemPackages.exists_json
  have object : (Json.ofNode locks.toNode).sorted =
      .object [("system_packages", packages.sorted.sorted)] := by
    simp [Json.ofNode, toNode, Node.record, Json.ofNode?, Json.ofFields?, Json.keyText?,
      packages_eq, Json.sorted, Json.sortedFields, Json.insertField]
  rw [object]
  simpa [Json.namesOf, Json.mem_names_sorted] using (packageNames name).mpr there

/-! Configurations of stages. -/

theorem Json.has_of_shown {fields : List (String × Node)} {field : String} {map : VersionMap}
    (only : ∀ node, (field, node) ∈ fields → node = map.toNode) {name : String}
    (shown : name ∈ namesOf field (ofNode (.record fields)).sorted) : map.has name = true := by
  obtain ⟨node, value, member, value_eq, there⟩ := exists_field_of_shown shown
  obtain ⟨own, own_eq, names⟩ := map.exists_json
  rw [only node member, own_eq] at value_eq
  obtain rfl := Option.some.inj value_eq
  exact (names name).mp there

theorem Node.mem_optional {name key : String} {value : Option Node} {node : Node} :
    (key, node) ∈ Node.optional name value ↔ key = name ∧ value = some node := by
  cases value <;> simp [Node.optional, eq_comm]

theorem Php.Resolved.has_of_shown (r : Php.Resolved) (name : String) :
    (name ∈ Json.namesOf "system_packages" (Json.ofNode r.toNode).sorted →
      r.stage.systemPackages.has name = true) ∧
    (name ∈ Json.namesOf "extensions" (Json.ofNode r.toNode).sorted →
      r.stage.extensions.has name = true) := by
  -- Scripts are left out where there are none, so they are a case of their own.
  have scripts (field : String) (node : Node)
      (member : (field, node) ∈ if r.extraScripts.isEmpty then []
        else [("extra_scripts", Node.texts r.extraScripts)]) : field = "extra_scripts" := by
    split at member
    · cases member
    · exact (Prod.mk.inj (List.mem_singleton.mp member)).1
  constructor
  all_goals
    refine Json.has_of_shown fun node member => ?_
    simp only [Stage.toFields, List.mem_append, List.mem_cons, List.not_mem_nil, or_false,
      Prod.mk.injEq, Node.mem_optional] at member
    rcases member with (member | member) | member
    · simp at member
    · simpa using member
    · simpa using scripts _ _ member

theorem NodeJs.Resolved.has_of_shown (r : NodeJs.Resolved) {name : String}
    (shown : name ∈ Json.namesOf "system_packages" (Json.ofNode r.toNode).sorted) :
    r.stage.systemPackages.has name = true := by
  refine Json.has_of_shown (fun node member => ?_) shown
  simp only [Stage.toFields, List.mem_append, List.mem_cons, List.not_mem_nil, or_false,
    Prod.mk.injEq, Node.mem_optional] at member
  rcases member with member | member
  · simp at member
  · simpa using member

end ImageLock
