/-
Fields in another order. What a record denotes, what is taken out of a mapping,
and whether there is a hash do not depend on the order of fields. What a message
says first does.
-/
import ImageLock.Proofs.DistinctKeys
import ImageLock.Proofs.FullRefresh
import Mathlib.Data.List.Forall2

namespace ImageLock

/-- Where one element at most is looked for, the order does not matter. -/
theorem find?_eq_of_perm {α : Type} {wanted : α → Bool} {items items' : List α}
    (perm : items.Perm items')
    (single : items.Pairwise fun a b => wanted a = true → wanted b = true → False) :
    items.find? wanted = items'.find? wanted := by
  induction perm with
  | nil => rfl
  | cons item _ ih =>
      rw [List.find?_cons, List.find?_cons, ih (List.pairwise_cons.mp single).2]
  | swap a b rest =>
      have apart := (List.pairwise_cons.mp single).1 a List.mem_cons_self
      cases first : wanted a <;> cases second : wanted b <;> simp_all
  | trans early _ ih ih' =>
      exact (ih single).trans (ih' (early.pairwise single fun apart a b => apart b a))

/-! Steps that give a result. -/

/-- A step that gives a result, and what is done with it. -/
theorem except_bind_ok {ε α β : Type} {step : Except ε α} {next : α → Except ε β} {result : β} :
    step >>= next = .ok result ↔ ∃ value, step = .ok value ∧ next value = .ok result := by
  cases step <;> simp [bind, Except.bind]

theorem except_mapError_ok {ε ε' α : Type} {change : ε → ε'} {step : Except ε α} {value : α} :
    step.mapError change = .ok value ↔ step = .ok value := by
  cases step <;> simp

theorem mapM_ok_iff {ε α β : Type} {step : α → Except ε β} {items : List α} {results : List β} :
    items.mapM step = .ok results ↔
      List.Forall₂ (fun item result => step item = .ok result) items results := by
  induction items generalizing results with
  | nil =>
      constructor
      · rintro ⟨⟩
        exact .nil
      · rintro ⟨⟩
        rfl
  | cons item rest ih =>
      simp only [List.mapM_cons, except_bind_ok, ih]
      constructor
      · rintro ⟨result, head, others, tail, ⟨⟩⟩
        exact .cons head tail
      · rintro (_ | ⟨head, tail⟩)
        exact ⟨_, head, _, tail, rfl⟩

theorem forall₂_left {α β : Type} {related : α → β → Prop} {items : List α} {results : List β}
    (each : List.Forall₂ related items results) {item : α} (member : item ∈ items) :
    ∃ result ∈ results, related item result := by
  induction each with
  | nil => cases member
  | cons head _ ih =>
      rcases List.mem_cons.mp member with rfl | later
      · exact ⟨_, List.mem_cons_self, head⟩
      · obtain ⟨result, inside, known⟩ := ih later
        exact ⟨result, List.mem_cons_of_mem _ inside, known⟩

/-! Mappings. -/

namespace Fields

variable {fields fields' : Fields} {name : String}

/-- Of each name there is one field at most. -/
def Single (fields : Fields) : Prop :=
  fields.Pairwise fun a b => ∀ name, a.1.isText name = true → b.1.isText name = true → False

theorem Distinct.single (distinct : fields.Distinct) : fields.Single := by
  refine List.Pairwise.imp (fun differ name here there => ?_) distinct
  rw [Node.isText_iff.mp here, Node.isText_iff.mp there] at differ
  simp [Node.same] at differ

theorem Single.perm (single : fields.Single) (perm : fields.Perm fields') : fields'.Single :=
  List.Perm.pairwise perm single fun apart name here there => apart name there here

theorem Single.at_most_one (single : fields.Single) (name : String) :
    List.Pairwise (fun a b => a.1.isText name = true → b.1.isText name = true → False) fields :=
  List.Pairwise.imp (fun apart => apart name) single

theorem Single.find?_perm (single : fields.Single) (perm : fields.Perm fields')
    (name : String) : fields.find? name = fields'.find? name :=
  congrArg (Option.map _) (find?_eq_of_perm perm (single.at_most_one name))

theorem Single.remove_perm (single : fields.Single) (perm : fields.Perm fields')
    (name : String) : (fields.remove name).Perm (fields'.remove name) :=
  (Fields.remove_perm fields name).trans
    ((List.Perm.eraseP _ (single.at_most_one name) perm).trans
      (Fields.remove_perm fields' name).symm)

theorem Single.remove (single : fields.Single) (name : String) :
    (Fields.remove name fields).Single :=
  Single.perm (List.Pairwise.sublist List.eraseP_sublist single)
    (Fields.remove_perm fields name).symm

/-- What is found is what is removed. -/
theorem perm_cons_remove {value : Node} (found : fields.find? name = some value) :
    fields.Perm ((.text name, value) :: fields.remove name) := by
  induction fields with
  | nil => cases found
  | cons e rest ih =>
      by_cases here : e.1.isText name
      · have value_eq : e.2 = value := by simpa [find?, here] using found
        have gone : (e :: rest).eraseP (fun e => e.1.isText name) = rest :=
          List.eraseP_cons_of_pos here
        have removed := Fields.remove_perm (e :: rest) name
        rw [gone] at removed
        rw [← value_eq, ← Node.isText_iff.mp here]
        exact removed.symm.cons e
      · have later : Fields.find? rest name = some value := by
          simpa [find?, here] using found
        rw [Fields.remove, if_neg here]
        exact ((ih later).cons e).trans (.swap _ _ _)

/-- A name that was removed is gone. -/
theorem Single.has_remove (single : fields.Single) (name : String) :
    (fields.remove name).has name = false := by
  cases found : fields.find? name with
  | none =>
      have absent : fields.has name = false := by rw [← find?_isSome, found]; rfl
      rw [remove_of_absent absent, absent]
  | some value =>
      have apart := List.pairwise_cons.mp (single.perm (perm_cons_remove found))
      refine List.any_eq_false.mpr fun e member here => ?_
      exact apart.1 e member name (by simp [Node.isText]) here

theorem Single.remove_comm (single : fields.Single) {other : String} (different : name ≠ other) :
    ((fields.remove name).remove other).Perm ((fields.remove other).remove name) := by
  have apart : ∀ e ∈ fields, ¬ e.1.isText name = true ∨ ¬ e.1.isText other = true := by
    intro e _
    by_cases here : e.1.isText name = true
    · rw [Node.isText_iff.mp here]
      exact .inr (by simpa [Node.isText] using different)
    · exact .inl here
  have erased (name other : String) : ((fields.remove name).remove other).Perm
      ((fields.eraseP fun e => e.1.isText name).eraseP fun e => e.1.isText other) :=
    (Fields.remove_perm _ other).trans
      (List.Perm.eraseP _ ((single.remove name).at_most_one other) (Fields.remove_perm _ name))
  have swapped := erased other name
  rw [List.eraseP_comm fun e member => (apart e member).symm] at swapped
  exact (erased name other).trans swapped.symm

theorem has_perm (perm : fields.Perm fields') (name : String) :
    fields.has name = fields'.has name := by
  rw [Bool.eq_iff_iff]
  simp [has, perm.mem_iff]

theorem Single.take_perm (single : fields.Single) (perm : fields.Perm fields')
    (name : String) :
    (fields.take name).1 = (fields'.take name).1 ∧
      (fields.take name).2.Perm (fields'.take name).2 ∧ (fields.take name).2.Single := by
  have found_eq := single.find?_perm perm name
  unfold take
  rw [← found_eq]
  cases fields.find? name with
  | none => exact ⟨rfl, perm, single⟩
  | some value => exact ⟨rfl, single.remove_perm perm name, single.remove name⟩

theorem Single.take (single : fields.Single) (name : String) : (fields.take name).2.Single :=
  (single.take_perm (.refl fields) name).2.2

theorem takeAll_cons (fields : Fields) (name : String) (names : List String) :
    fields.takeAll (name :: names) =
      ((fields.take name).1.toList.map (fun value => (.text name, value)) ++
          ((fields.take name).2.takeAll names).1,
        ((fields.take name).2.takeAll names).2) := by
  rw [takeAll]
  obtain ⟨value, rest⟩ := fields.take name
  cases value <;> rfl

/-- What is taken comes in the order of its names, whatever that of the fields. -/
theorem Single.takeAll_perm (single : fields.Single) (perm : fields.Perm fields')
    (names : List String) :
    (fields.takeAll names).1 = (fields'.takeAll names).1 ∧
      (fields.takeAll names).2.Perm (fields'.takeAll names).2 := by
  induction names generalizing fields fields' with
  | nil => exact ⟨rfl, perm⟩
  | cons name names ih =>
      obtain ⟨taken, rest, kept⟩ := single.take_perm perm name
      obtain ⟨taken', rest'⟩ := ih kept rest
      rw [takeAll_cons, takeAll_cons, taken, taken']
      exact ⟨rfl, rest'⟩

end Fields

/-! Records. -/

namespace Decode

variable {α : Type} {known : List Field}

/-- The entries of a mapping are read one by one. -/
theorem entries_ok_iff {read : Reader α} {node : Node} {values : List (String × α)} :
    entries read node = .ok values ↔ ∃ fields, Decode.fields node = .ok fields ∧
      List.Forall₂ (fun e v => text e.1 = .ok v.1 ∧ read e.2 = .ok v.2) fields values := by
  have entry (e : Node × Node) (v : String × α) :
      (do return (← text e.1, ← read e.2) : Except Mismatch (String × α)) = .ok v ↔
        text e.1 = .ok v.1 ∧ read e.2 = .ok v.2 := by
    simp only [except_bind_ok]
    constructor
    · rintro ⟨name, named, value, known, ⟨⟩⟩
      exact ⟨named, known⟩
    · exact fun ⟨named, known⟩ => ⟨v.1, named, v.2, known, rfl⟩
  simp only [entries, except_bind_ok, mapM_ok_iff, entry]

theorem text_of_isText {key : Node} {name : String} (named : key.untagged.isText name = true) :
    text key = .ok name := by
  rw [text, Node.isText_iff.mp named]

theorem checkFields_cons {seen : List String} {e : Node × Node} {rest : Fields} :
    checkFields known seen (e :: rest) = .ok () ↔
      ∃ name field, text e.1 = .ok name ∧
        known.find? (fun f => f.name == name) = some field ∧ name ∉ seen ∧
        field.check e.2 = .ok () ∧ checkFields known (name :: seen) rest = .ok () := by
  obtain ⟨key, value⟩ := e
  simp only [checkFields, bind, Except.bind]
  cases text key with
  | error mismatch => simp
  | ok name =>
      cases found : known.find? fun f => f.name == name with
      | none => simp [found, throw, throwThe, MonadExceptOf.throw]
      | some field =>
          by_cases old : name ∈ seen
          · simp [found, old, throw, throwThe, MonadExceptOf.throw]
          · cases checked : field.check value <;> simp [found, old, checked]

/-- Fields are accepted one by one, and each name once. -/
theorem checkFields_iff {seen : List String} {fields : Fields} :
    checkFields known seen fields = .ok () ↔
      (∀ e ∈ fields, ∃ name field, text e.1 = .ok name ∧
        known.find? (fun f => f.name == name) = some field ∧ name ∉ seen ∧
        field.check e.2 = .ok ()) ∧
      fields.Pairwise fun a b => ∀ name, text a.1 = .ok name → text b.1 = .ok name → False := by
  -- The names that were seen before are those that none of the fields has.
  induction fields generalizing seen with
  | nil => simp [checkFields]
  | cons e rest ih =>
      rw [checkFields_cons, List.pairwise_cons, List.forall_mem_cons]
      constructor
      · rintro ⟨name, field, named, found, new, checked, later⟩
        obtain ⟨each, apart⟩ := ih.mp later
        refine ⟨⟨⟨name, field, named, found, new, checked⟩, fun e' member => ?_⟩,
          fun e' member other here there => ?_, apart⟩
        · obtain ⟨name', field', named', found', new', checked'⟩ := each e' member
          exact ⟨name', field', named', found', fun old => new' (List.mem_cons_of_mem _ old),
            checked'⟩
        · obtain ⟨name', _, named', _, new', _⟩ := each e' member
          have same : name' = name :=
            (Except.ok.inj (named'.symm.trans there)).trans
              (Except.ok.inj (here.symm.trans named))
          exact new' (same ▸ List.mem_cons_self)
      · rintro ⟨⟨⟨name, field, named, found, new, checked⟩, each⟩, first, apart⟩
        refine ⟨name, field, named, found, new, checked, ih.mpr ⟨fun e' member => ?_, apart⟩⟩
        obtain ⟨name', field', named', found', new', checked'⟩ := each e' member
        refine ⟨name', field', named', found', fun old => ?_, checked'⟩
        rcases List.mem_cons.mp old with same | old
        · exact first e' member name named (same ▸ named')
        · exact new' old

theorem checkFields_perm {fields fields' : Fields} (perm : fields.Perm fields')
    (accepted : checkFields known [] fields = .ok ()) :
    checkFields known [] fields' = .ok () := by
  obtain ⟨each, apart⟩ := checkFields_iff.mp accepted
  refine checkFields_iff.mpr ⟨fun e member => each e (perm.mem_iff.mpr member), ?_⟩
  exact perm.pairwise apart fun apart name here there => apart name there here

/-- A record that is accepted finds its fields in any order. -/
theorem find?_perm {fields fields' : Fields} (perm : fields.Perm fields')
    (accepted : checkFields known [] fields = .ok ()) (name : String) :
    find? fields name = find? fields' name := by
  have apart := (checkFields_iff.mp accepted).2
  refine congrArg (Option.map _) (find?_eq_of_perm perm (apart.imp fun differ here there => ?_))
  exact differ name (text_of_isText here) (text_of_isText there)

/-- A reader that does not depend on the order of fields, as far as it accepts them. -/
def Unordered (read : Reader α) : Prop :=
  ∀ fields fields' value, fields.Perm fields' → read (.map fields) = .ok value →
    read (.map fields') = .ok value

theorem checkPresent_congr {fields fields' : Fields}
    (same : ∀ name, find? fields name = find? fields' name) :
    checkPresent known fields = checkPresent known fields' := by
  simp only [checkPresent, same]

/-- Records do not depend on the order of fields, if all fields are found by name. -/
theorem unordered_record {body : Fields → Except Mismatch α}
    (looks : ∀ fields fields', (∀ name, find? fields name = find? fields' name) →
      body fields = body fields') : Unordered fun node => record known node >>= body := by
  intro fields fields' value perm read
  cases accepted : record known (.map fields) with
  | error mismatch => simp [accepted, bind, Except.bind] at read
  | ok own =>
      obtain ⟨unfolded, checked, present⟩ := record_ok accepted
      obtain rfl : fields = own := Except.ok.inj unfolded
      have same := find?_perm perm checked
      have accepted' : record known (.map fields') = .ok fields' := by
        have unfolded' : Decode.fields (.map fields') = .ok fields' := rfl
        rw [checkPresent_congr same] at present
        simp [record, unfolded', checkFields_perm perm checked, present, bind, Except.bind, pure,
          Except.pure]
      simp only [accepted, accepted', bind, Except.bind] at read ⊢
      rwa [← looks fields fields' same]

end Decode

/-! The records of definitions and of locks. -/

open Decode

theorem StagedLocks.read_unordered {S : Type} (readStage : Reader S) :
    Unordered (read readStage) :=
  unordered_record fun _ _ same => by simp only [Decode.get, same]

theorem Php.Stage.read_unordered : Unordered read :=
  unordered_record fun _ _ same => by simp only [Decode.get, same]

theorem NodeJs.Stage.read_unordered : Unordered read :=
  unordered_record fun _ _ same => by simp only [Decode.get, same]

theorem Webserver.Locks.read_unordered : Unordered read :=
  unordered_record fun _ _ same => by simp only [Decode.get, same]

theorem Webserver.Definition.read_unordered : Unordered read :=
  unordered_record fun _ _ same => by simp only [Decode.get, same]

/-! Definitions that say the same. -/

/-- What becomes of a step and of what is done next, where the one answers with what
the other answers with. -/
theorem bind_ok_of_ok {ε α β : Type} {step step' : Except ε α} {next next' : α → Except ε β}
    {result : β} (first : ∀ value, step = .ok value → step' = .ok value)
    (rest : ∀ value, next value = .ok result → next' value = .ok result)
    (run : step >>= next = .ok result) : step' >>= next' = .ok result := by
  cases answer : step with
  | error error => simp [answer, bind, Except.bind] at run
  | ok value =>
      rw [answer] at run
      rw [first value answer]
      exact rest value run

theorem mapError_ok_of_ok {ε ε' α : Type} {change : ε → ε'} {step step' : Except ε α}
    (same : ∀ value, step = .ok value → step' = .ok value) (value : α)
    (run : step.mapError change = .ok value) : step'.mapError change = .ok value := by
  cases answer : step with
  | error error => simp [answer] at run
  | ok own =>
      rw [answer] at run
      rw [same own answer]
      exact run

namespace Definition

variable {α : Type} {read : Reader α} {d d' : Definition}

/-- The fields of a definition without those of the webserver inside it. -/
def ownConfig (d : Definition) : Fields := d.config.remove webserverField

/-- The fields of a lock file that the kind of the definition decodes. -/
def ownLocks (d : Definition) : Fields := (d.locks.remove hashField).remove webserverField

/-- Two definitions that say the same, the order of their fields and the webservers
inside them apart. -/
structure SameOwn (d d' : Definition) : Prop where
  config : d.ownConfig.Perm d'.ownConfig
  single : d.ownConfig.Single
  locks : d.ownLocks.Perm d'.ownLocks

theorem SameOwn.symm (same : d.SameOwn d') : d'.SameOwn d :=
  ⟨same.config.symm, same.single.perm same.config, same.locks.symm⟩

theorem decode_perm {what : String} {fields fields' : Fields} (unordered : Unordered read)
    (perm : fields.Perm fields') (value : α) (known : decode what read fields = .ok value) :
    decode what read fields' = .ok value :=
  decode_ok.mpr (unordered _ _ _ perm (decode_ok.mp known))

theorem decodeLocks_perm {absent : α} (unordered : Unordered read)
    (perm : d.ownLocks.Perm d'.ownLocks) (value : α)
    (known : decodeLocks read absent d.locks = .ok value) :
    decodeLocks read absent d'.locks = .ok value := by
  unfold ownLocks at perm
  unfold decodeLocks at known ⊢
  simp only [perm.isEmpty_eq] at known ⊢
  split
  next empty => rwa [if_pos empty] at known
  next filled =>
    rw [if_neg filled] at known
    exact decode_perm unordered perm value known

end Definition

theorem Php.Definition.ofDefinition_of_sameOwn {d d' : ImageLock.Definition} {php : Definition}
    (same : d.SameOwn d') (known : ofDefinition d = .ok php) : ofDefinition d' = .ok php := by
  obtain ⟨taken, left⟩ := same.single.takeAll_perm same.config Params.names
  unfold ImageLock.Definition.ownConfig at taken left
  unfold ofDefinition at known ⊢
  dsimp only at known ⊢
  rw [← taken]
  refine bind_ok_of_ok (fun _ => id) (fun params => ?_) known
  refine bind_ok_of_ok (mapError_ok_of_ok (ImageLock.Definition.decode_perm
    Stage.read_unordered left)) fun base => ?_
  refine bind_ok_of_ok (fun _ => id) fun named => ?_
  refine bind_ok_of_ok (fun _ => id) fun _ => ?_
  refine bind_ok_of_ok (fun _ => id) fun _ => ?_
  exact bind_ok_of_ok (mapError_ok_of_ok (ImageLock.Definition.decodeLocks_perm
    (StagedLocks.read_unordered _) same.locks)) fun _ => id

theorem NodeJs.Definition.ofDefinition_of_sameOwn {d d' : ImageLock.Definition}
    {nodeJs : Definition} (same : d.SameOwn d') (known : ofDefinition d = .ok nodeJs) :
    ofDefinition d' = .ok nodeJs := by
  obtain ⟨taken, left⟩ := same.single.takeAll_perm same.config Params.names
  unfold ImageLock.Definition.ownConfig at taken left
  unfold ofDefinition at known ⊢
  dsimp only at known ⊢
  rw [← taken]
  refine bind_ok_of_ok (fun _ => id) (fun params => ?_) known
  refine bind_ok_of_ok (mapError_ok_of_ok (ImageLock.Definition.decode_perm
    Stage.read_unordered left)) fun base => ?_
  split
  · exact id
  · refine bind_ok_of_ok (fun _ => id) fun _ => ?_
    exact bind_ok_of_ok (mapError_ok_of_ok (ImageLock.Definition.decodeLocks_perm
      (StagedLocks.read_unordered _) same.locks)) fun _ => id

theorem Webserver.Definition.ofDefinition_perm {d d' : ImageLock.Definition}
    {read : Definition × Locks} (config : d.config.Perm d'.config)
    (locks : d.ownLocks.Perm d'.ownLocks) (known : ofDefinition d = .ok read) :
    ofDefinition d' = .ok read :=
  bind_ok_of_ok (mapError_ok_of_ok (ImageLock.Definition.decode_perm
    Definition.read_unordered config))
    (fun _ => bind_ok_of_ok (mapError_ok_of_ok (ImageLock.Definition.decodeLocks_perm
      Locks.read_unordered locks)) fun _ => id) known

/-! Mappings that are loaded. -/

theorem Definition.parse_single {file : String} {content : ByteArray} {d : Definition}
    (parsed : parse file content = .ok d) : d.config.Single := by
  simp only [parse, bind, Except.bind] at parsed
  split at parsed
  next => cases parsed
  next fields read =>
    have single := (parseFields_distinct read).single.take "kind"
    split at parsed
    next kind config taken =>
      rw [taken] at single
      split at parsed
      next => cases parsed
      next =>
        cases parsed
        exact single
    next => cases parsed

theorem Loads.config_single {backend : Backend} {request : Request} {d : Definition}
    (loads : Loads backend request d) : d.config.Single := by
  obtain ⟨_, bare, _, parsed, same⟩ := loads.definition
  have single := Definition.parse_single parsed
  rwa [same]

theorem Loads.locks_single {backend : Backend} {request : Request} {d : Definition}
    (loads : Loads backend request d) : d.locks.Single :=
  loads.distinct.single

/-! Hashes. -/

/-- Every field can be told in JSON. -/
def Fields.Expressible (fields : Fields) : Prop :=
  ∀ e ∈ fields, (Json.keyText? e.1).isSome = true ∧ (Json.ofNode? e.2).isSome = true

theorem Fields.Expressible.perm_iff {fields fields' : Fields} (perm : fields.Perm fields') :
    fields.Expressible ↔ fields'.Expressible :=
  forall_congr' fun _ => imp_congr perm.mem_iff Iff.rfl

theorem Json.ofFields?_isSome {fields : Fields} :
    (ofFields? fields).isSome = true ↔ fields.Expressible := by
  induction fields with
  | nil => simp [ofFields?, Fields.Expressible]
  | cons e rest ih =>
      obtain ⟨key, value⟩ := e
      rw [Fields.Expressible, List.forall_mem_cons, ← Fields.Expressible, ← ih, ofFields?]
      cases keyText? key <;> cases ofNode? value <;> cases ofFields? rest <;> simp

theorem Json.ofNode?_map_isSome {fields : Fields} :
    (ofNode? (.map fields)).isSome = true ↔ fields.Expressible := by
  rw [← ofFields?_isSome, ofNode?, Option.isSome_map]

namespace Definition

variable {d : Definition}

theorem exists_hash_iff : (∃ hash, d.hash = .ok hash) ↔ d.config.Expressible := by
  have fields_eq : Json.ofNode? (.record [("kind", .text d.kind), ("raw_config", .map d.config)]) =
      (Json.ofNode? (.map d.config)).map fun config =>
        .object [("kind", .text d.kind), ("raw_config", config)] := by
    simp only [Node.record, List.map_cons, List.map_nil, Json.ofNode?, Json.ofFields?,
      Json.keyText?]
    cases Json.ofFields? d.config <;> rfl
  rw [← Json.ofNode?_map_isSome, hash, hashText?, fields_eq]
  cases Json.ofNode? (.map d.config) <;> simp

/-- There is a hash if there is one of each half. -/
theorem expressible_iff {nested : Fields}
    (found : d.config.find? webserverField = some (.map nested)) :
    d.config.Expressible ↔ d.ownConfig.Expressible ∧ nested.Expressible := by
  rw [Fields.Expressible.perm_iff (Fields.perm_cons_remove found), Fields.Expressible,
    List.forall_mem_cons, ← Fields.Expressible]
  simp [Json.keyText?, Json.ofNode?_map_isSome, and_comm, ownConfig]

end Definition
end ImageLock
