/-
Reading records: what a reader accepts, and that it reads back what is written.
-/
import ImageLock.Definition
import ImageLock.Proofs.Names

namespace ImageLock.Decode

variable {α : Type}

/-! Readers and fields, as they are made. -/

@[simp] theorem text_text (s : String) : text (.text s) = .ok s := rfl

@[simp] theorem required_name (name : String) (read : Reader α) :
    (required name read).name = name := rfl

@[simp] theorem required_isRequired (name : String) (read : Reader α) :
    (required name read).isRequired = true := rfl

@[simp] theorem optional_name (name : String) (read : Reader α) :
    (optional name read).name = name := rfl

@[simp] theorem optional_isRequired (name : String) (read : Reader α) :
    (optional name read).isRequired = false := rfl

@[simp] theorem required_check (name : String) {read : Reader α} {node : Node} {value : α}
    (reads : read node = .ok value) : (required name read).check node = .ok () := by
  simp [required, reads, Except.map]

@[simp] theorem optional_check (name : String) {read : Reader α} {node : Node} {value : α}
    (reads : read node = .ok value) : (optional name read).check node = .ok () := by
  simp [optional, reads, Except.map]

/-! What is accepted. -/

/-- All fields of a record that is accepted are known, and right. -/
theorem known_of_checkFields {known : List Field} {seen : List String} {fields : Fields}
    (accepted : checkFields known seen fields = .ok ()) {e : Node × Node} (member : e ∈ fields) :
    ∃ name, text e.1 = .ok name ∧
      ∃ field, known.find? (fun f => f.name == name) = some field ∧ field.check e.2 = .ok () := by
  -- The names seen so far grow with each field, whichever field is meant.
  induction fields generalizing seen with
  | nil => cases member
  | cons e' rest ih =>
      obtain ⟨key, value⟩ := e'
      simp only [checkFields] at accepted
      cases named : text key with
      | error mismatch => simp [named, bind, Except.bind] at accepted
      | ok name =>
          simp only [named, bind, Except.bind] at accepted
          split at accepted
          next => cases accepted
          next field found =>
            split at accepted
            next => cases accepted
            next =>
              cases checked : field.check value with
              | error mismatch => simp [checked] at accepted
              | ok _ =>
                  rcases List.mem_cons.mp member with rfl | later
                  · exact ⟨name, named, field, found, checked⟩
                  · exact ih (by simpa [checked] using accepted) later

theorem record_ok {known : List Field} {node : Node} {fields : Fields}
    (accepted : record known node = .ok fields) :
    Decode.fields node = .ok fields ∧ checkFields known [] fields = .ok () ∧
      checkPresent known fields = .ok () := by
  simp only [record, bind, Except.bind] at accepted
  cases found : Decode.fields node with
  | error mismatch => simp [found] at accepted
  | ok inner =>
      cases checked : checkFields known [] inner with
      | error mismatch => simp [found, checked] at accepted
      | ok _ =>
          cases present : checkPresent known inner with
          | error mismatch => simp [found, checked, present] at accepted
          | ok _ =>
              have same : inner = fields := by
                simpa [found, checked, present, pure, Except.pure] using accepted
              subst same
              exact ⟨rfl, checked, present⟩

/-! Records that are written read back. -/

/-- The fields of a record by their names. -/
def named (values : List (String × Node)) : Fields :=
  values.map fun (name, value) => (.text name, value)

theorem find?_named (values : List (String × Node)) (name : String) :
    find? (named values) name = (values.find? fun e => e.1 == name).map (·.2) := by
  induction values with
  | nil => rfl
  | cons e rest ih =>
      by_cases here : e.1 = name
      · simp [find?, named, Node.untagged, Node.isText, here]
      · simpa [find?, named, Node.untagged, Node.isText, here] using ih

theorem get_named (values : List (String × Node)) (name : String) (read : Reader α) (absent : α) :
    get (named values) name read absent =
      match values.find? fun e => e.1 == name with
      | some e => read e.2
      | none => .ok absent := by
  rw [get, find?_named]
  cases values.find? fun e => e.1 == name <;> rfl

theorem need_named (values : List (String × Node)) (name : String) (read : Reader α) :
    need (named values) name read =
      match values.find? fun e => e.1 == name with
      | some e => read e.2
      | none => .error (.missingField name) := by
  rw [need, find?_named]
  cases values.find? fun e => e.1 == name <;> rfl

theorem checkFields_named {known : List Field} {seen : List String}
    {values : List (String × Node)} (distinct : (values.map (·.1)).Nodup)
    (fresh : ∀ e ∈ values, e.1 ∉ seen)
    (fits : ∀ e ∈ values, ∃ field,
      known.find? (fun f => f.name == e.1) = some field ∧ field.check e.2 = .ok ()) :
    checkFields known seen (named values) = .ok () := by
  induction values generalizing seen with
  | nil => rfl
  | cons e rest ih =>
      obtain ⟨name, value⟩ := e
      obtain ⟨unused, distinct⟩ := List.nodup_cons.mp distinct
      obtain ⟨field, found, checked⟩ := fits (name, value) List.mem_cons_self
      have new : name ∉ seen := fresh (name, value) List.mem_cons_self
      -- A later name is neither seen before nor the name of this field.
      have tail : checkFields known (name :: seen) (named rest) = .ok () := by
        refine ih distinct ?_ fun e member => fits e (List.mem_cons_of_mem _ member)
        intro e member old
        rcases List.mem_cons.mp old with same | old
        · exact unused (List.mem_map.mpr ⟨e, member, same⟩)
        · exact fresh e (List.mem_cons_of_mem _ member) old
      simp only [named] at tail
      simp [checkFields, named, text, Node.untagged, found, new, checked, tail, bind, Except.bind]

/-- A record with fields that are known, each once and right, and with all that
are required. -/
theorem record_named {known : List Field} {values : List (String × Node)}
    (distinct : (values.map (·.1)).Nodup)
    (fits : ∀ e ∈ values, ∃ field,
      known.find? (fun f => f.name == e.1) = some field ∧ field.check e.2 = .ok ())
    (complete : ∀ field ∈ known, field.isRequired → ∃ e ∈ values, e.1 = field.name) :
    record known (.record values) = .ok (named values) := by
  have checked : checkFields known [] (named values) = .ok () :=
    checkFields_named distinct (fun _ _ => List.not_mem_nil) fits
  have present : checkPresent known (named values) = .ok () := by
    have missing : (known.find? fun f =>
        f.isRequired && (find? (named values) f.name).isNone) = none := by
      refine List.find?_eq_none.mpr fun field member => ?_
      cases required : field.isRequired with
      | false => simp
      | true =>
          obtain ⟨e, there, name⟩ := complete field member required
          have found : (values.find? fun e => e.1 == field.name).isSome :=
            List.find?_isSome.mpr ⟨e, there, by simp [name]⟩
          rw [find?_named]
          simpa [Option.isNone_map] using Option.ne_none_iff_isSome.mpr found
    simp [checkPresent, missing]
  have unfolded : fields (Node.record values) = .ok (named values) := rfl
  simp [record, unfolded, checked, present, bind, Except.bind, pure, Except.pure]

/-- What is written of each item, and read as another one. -/
theorem entries_record {β : Type} (read : Reader β) (node : α → Node) (change : α → β)
    (items : List (String × α))
    (reads : ∀ item ∈ items, read (node item.2) = .ok (change item.2)) :
    entries read (.record (items.map fun (name, value) => (name, node value))) =
      .ok (items.map fun (name, value) => (name, change value)) := by
  have unfolded : fields (Node.record (items.map fun (name, value) => (name, node value))) =
      .ok (items.map fun (name, value) => (.text name, node value)) := by
    simp [fields, Node.record, Node.untagged]
  simp only [entries, unfolded, bind, Except.bind]
  clear unfolded
  induction items with
  | nil => rfl
  | cons item rest ih =>
      have head := reads item List.mem_cons_self
      have tail := ih fun item member => reads item (List.mem_cons_of_mem _ member)
      rw [List.map_cons, List.mapM_cons, tail]
      simp [text, Node.untagged, head, bind, Except.bind, pure, Except.pure]

theorem option_of_ne_null {read : Reader α} {node : Node} {value : α}
    (reads : read node = .ok value) (content : node ≠ .null) :
    option read node = .ok (some value) := by
  cases node <;> simp_all [option, Except.map]

end ImageLock.Decode
