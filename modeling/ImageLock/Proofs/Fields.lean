/-
Fields of mappings: what is inserted, removed, and found.
-/
import ImageLock.Document.Node

namespace ImageLock.Fields

variable {name : String}

theorem find?_isSome (fields : Fields) (name : String) :
    (fields.find? name).isSome = fields.has name := by
  rw [Bool.eq_iff_iff]
  simp [find?, has, List.find?_isSome]

/-! Inserting. -/

theorem insert_of_absent {fields : Fields} (value : Node) (absent : fields.has name = false) :
    fields.insert name value = fields ++ [(.text name, value)] := by
  induction fields with
  | nil => rfl
  | cons e rest ih =>
      obtain ⟨head, tail⟩ : e.1.isText name = false ∧ has rest name = false := by
        simpa [has] using absent
      simp [insert, head, ih tail]

theorem find?_insert (fields : Fields) (name : String) (value : Node) :
    (fields.insert name value).find? name = some value := by
  induction fields with
  | nil => simp [insert, find?, Node.isText]
  | cons e rest ih =>
      by_cases here : e.1.isText name
      · simp [insert, here, find?]
      · simpa [insert, here, find?] using ih

theorem find?_insert_of_ne (fields : Fields) {other : String} (value : Node)
    (different : name ≠ other) : (fields.insert name value).find? other = fields.find? other := by
  induction fields with
  | nil => simp [insert, find?, Node.isText, different]
  | cons e rest ih =>
      by_cases here : e.1.isText name
      · cases key : e.1 <;> simp_all [insert, find?, Node.isText]
      · cases there : e.1.isText other with
        | true => simp [insert, here, find?, there]
        | false => simpa [insert, here, find?, there] using ih

/-- The first field stays the first one. -/
theorem insert_cons (e : Node × Node) (rest : Fields) (name : String) (value : Node) :
    ∃ value' rest', insert name value (e :: rest) = (e.1, value') :: rest' := by
  by_cases here : e.1.isText name
  · exact ⟨value, rest, by simp [insert, here]⟩
  · exact ⟨e.2, insert name value rest, by simp [insert, here]⟩

/-! Removing. -/

/-- The order apart, removing a field takes the first one of that name out. -/
theorem remove_perm (fields : Fields) (name : String) :
    (fields.remove name).Perm (fields.eraseP fun e => e.1.isText name) := by
  induction fields with
  | nil => exact .nil
  | cons e rest ih =>
      by_cases here : e.1.isText name
      · have gone : (e :: rest).eraseP (fun e => e.1.isText name) = rest :=
          List.eraseP_cons_of_pos here
        rw [remove, if_pos here, gone]
        cases last : rest.getLast? with
        | none => simp [List.getLast?_eq_none_iff.mp last]
        | some field =>
            obtain ⟨front, rfl⟩ := List.getLast?_eq_some_iff.mp last
            simpa using (List.perm_append_singleton field front).symm
      · have stays : (e :: rest).eraseP (fun e => e.1.isText name) =
            e :: rest.eraseP fun e => e.1.isText name := List.eraseP_cons_of_neg here
        rw [remove, if_neg here, stays]
        exact ih.cons e

theorem mem_remove_of_ne {fields : Fields} {e : Node × Node} (member : e ∈ fields)
    (other : e.1.isText name = false) : e ∈ fields.remove name := by
  rw [(remove_perm fields name).mem_iff, List.mem_eraseP_of_neg (by simp [other])]
  exact member

theorem remove_of_absent {fields : Fields} (absent : fields.has name = false) :
    fields.remove name = fields := by
  induction fields with
  | nil => rfl
  | cons e rest ih =>
      obtain ⟨head, tail⟩ : e.1.isText name = false ∧ has rest name = false := by
        simpa [has] using absent
      simp [remove, head, ih tail]

/-- What is added at the end is gone when it is removed. -/
theorem remove_append {fields : Fields} (value : Node) (absent : fields.has name = false) :
    remove name (fields ++ [(.text name, value)]) = fields := by
  induction fields with
  | nil => simp [remove, Node.isText]
  | cons e rest ih =>
      obtain ⟨head, tail⟩ : e.1.isText name = false ∧ has rest name = false := by
        simpa [has] using absent
      simp [remove, head, ih tail]

theorem remove_insert {fields : Fields} (value : Node) (absent : fields.has name = false) :
    (fields.insert name value).remove name = fields := by
  rw [insert_of_absent value absent, remove_append value absent]

theorem has_insert_of_ne (fields : Fields) {other : String} (value : Node)
    (different : name ≠ other) : (fields.insert name value).has other = fields.has other := by
  induction fields with
  | nil => simp [insert, has, Node.isText, different]
  | cons e rest ih =>
      by_cases here : e.1.isText name
      · simp [insert, here, has]
      · simp only [insert, here, has] at ih ⊢
        simpa using congrArg (e.1.isText other || ·) ih

end ImageLock.Fields
