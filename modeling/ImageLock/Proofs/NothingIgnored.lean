/-
Definitions leave nothing out. When an update succeeds, every field of the definition
file is known to what it belongs to, and every stage takes part in its own chain, but for
stages with the names of the base, where the walk ends.
-/
import ImageLock.Proofs.PlanFromLocks
import ImageLock.Proofs.ReadNodes
import ImageLock.Proofs.ShownConfig
import ImageLock.Proofs.StageGroups
import ImageLock.Proofs.Permuted

namespace ImageLock

/-! Names that a reader knows. -/

namespace Decode

variable {α : Type}

/-- A reader that accepts no field but those of these names. -/
def Knows (names : List String) (read : Reader α) : Prop :=
  ∀ node value, read node = .ok value → ∃ fields, Decode.fields node = .ok fields ∧
    ∀ e ∈ fields, ∃ name ∈ names, text e.1 = .ok name

theorem mem_names_of_find? {known : List Field} {name : String} {field : Field}
    (found : known.find? (fun f => f.name == name) = some field) :
    name ∈ known.map (·.name) := by
  have same : field.name = name := by simpa using List.find?_some found
  exact List.mem_map.mpr ⟨field, List.mem_of_find?_eq_some found, same⟩

theorem knows_record {known : List Field} {body : Fields → Except Mismatch α} :
    Knows (known.map (·.name)) fun node => record known node >>= body := by
  intro node value read
  obtain ⟨fields, accepted, -⟩ := except_bind_ok.mp read
  obtain ⟨unfolded, checked, -⟩ := record_ok accepted
  refine ⟨fields, unfolded, fun e member => ?_⟩
  obtain ⟨name, named, field, found, -⟩ := known_of_checkFields checked member
  exact ⟨name, mem_names_of_find? found, named⟩

end Decode

open Decode

theorem Php.Stage.read_knows : Knows Php.Stage.names Php.Stage.read := knows_record

theorem NodeJs.Stage.read_knows : Knows NodeJs.Stage.names NodeJs.Stage.read := knows_record

/-- The names that fields of a webserver have. -/
def Webserver.Definition.names : List String :=
  ["type", "system_packages", "config_file", "healthcheck", "assets"]

theorem Webserver.Definition.read_knows :
    Knows Webserver.Definition.names Webserver.Definition.read := knows_record

namespace Fields

/-- What is in a mapping has this name or stays without it. -/
theorem mem_or_mem_remove {fields : Fields} {e : Node × Node} (member : e ∈ fields)
    (name : String) : (∃ value, fields.find? name = some value ∧ e = (.text name, value)) ∨
      e ∈ fields.remove name := by
  cases found : fields.find? name with
  | some value =>
      rcases List.mem_cons.mp ((perm_cons_remove found).mem_iff.mp member) with same | rest
      · exact .inl ⟨value, rfl, same⟩
      · exact .inr rest
  | none =>
      have absent : fields.has name = false := by rw [← find?_isSome, found]; rfl
      exact .inr (by rwa [remove_of_absent absent])

/-- A field of its name is the one that is found. -/
theorem Single.find?_of_mem {fields : Fields} (single : fields.Single) {name : String}
    {value : Node} (member : (.text name, value) ∈ fields) : fields.find? name = some value := by
  rcases mem_or_mem_remove member name with ⟨_, found, same⟩ | rest
  · rw [found, (Prod.mk.inj same).2]
  · have absent := List.any_eq_false.mp (single.has_remove name) _ rest
    simp [Node.isText] at absent

theorem mem_take {fields : Fields} {e : Node × Node} (member : e ∈ fields) (name : String) :
    (∃ value, (fields.take name).1 = some value ∧ e = (.text name, value)) ∨
      e ∈ (fields.take name).2 := by
  unfold take
  cases found : fields.find? name with
  | none => exact .inr member
  | some value => simpa [found] using mem_or_mem_remove member name

theorem mem_takeAll {fields : Fields} {e : Node × Node} (member : e ∈ fields)
    (names : List String) :
    (e ∈ (fields.takeAll names).1 ∧ ∃ name ∈ names, e.1 = .text name) ∨
      e ∈ (fields.takeAll names).2 := by
  induction names generalizing fields with
  | nil => exact .inr member
  | cons name names ih =>
      rw [takeAll_cons]
      rcases mem_take member name with ⟨value, taken, rfl⟩ | rest
      · exact .inl ⟨by simp [taken], name, List.mem_cons_self, rfl⟩
      · rcases ih rest with ⟨later, other, listed, named⟩ | stays
        · exact .inl ⟨List.mem_append_right _ later, other, List.mem_cons_of_mem _ listed, named⟩
        · exact .inr stays

end Fields

theorem DerivedStage.read_knows {S : Type} [StageConfig S] {names : List String}
    (knows : Knows names (StageConfig.read (S := S))) :
    Knows ("derive_from" :: "dev" :: names) (DerivedStage.read (S := S)) := by
  intro node derived read
  obtain ⟨fields, unfolded, read⟩ := except_bind_ok.mp read
  obtain ⟨parent, -, read⟩ := except_bind_ok.mp read
  obtain ⟨isDev, -, read⟩ := except_bind_ok.mp read
  obtain ⟨stage, own, -⟩ := except_bind_ok.mp read
  obtain ⟨rest, rest_eq, known⟩ := knows _ _ own
  refine ⟨fields, unfolded, fun e member => ?_⟩
  rcases Fields.mem_take member "derive_from" with ⟨value, -, rfl⟩ | member
  · exact ⟨_, List.mem_cons_self, rfl⟩
  · rcases Fields.mem_take member "dev" with ⟨value, -, rfl⟩ | member
    · exact ⟨_, List.mem_cons_of_mem _ List.mem_cons_self, rfl⟩
    · rw [← Except.ok.inj rest_eq] at known
      obtain ⟨name, listed, named⟩ := known e member
      exact ⟨name, List.mem_cons_of_mem _ (List.mem_cons_of_mem _ listed), named⟩

/-! How a kind takes its definition apart. -/

/-- What a kind has read of a definition: its parameters, among them the declared stages,
and the base stage of what is left. -/
structure StagedReading {S : Type} [StageConfig S] (params own : List String)
    (defaults stages : StageSet S) (config : Fields) : Prop where
  base : ∀ e ∈ (config.takeAll params).2, ∃ name ∈ own, text e.1 = .ok name
  once : ∃ known, checkFields known [] (config.takeAll params).1 = .ok ()
  declared : ∃ set, get (config.takeAll params).1 "stages" StageSet.read StageSet.empty = .ok set ∧
    stages = defaults.merge set

theorem Php.Params.read_ok {fields : Fields} {params : Params}
    (read : Params.read (.map fields) = .ok params) :
    (∃ known, checkFields known [] fields = .ok ()) ∧
      get fields "stages" StageSet.read StageSet.empty = .ok params.stages := by
  obtain ⟨own, accepted, read⟩ := except_bind_ok.mp read
  obtain ⟨unfolded, checked, -⟩ := record_ok accepted
  obtain rfl : fields = own := Except.ok.inj unfolded
  obtain ⟨_, -, read⟩ := except_bind_ok.mp read
  obtain ⟨_, -, read⟩ := except_bind_ok.mp read
  obtain ⟨_, -, read⟩ := except_bind_ok.mp read
  obtain ⟨stages, found, read⟩ := except_bind_ok.mp read
  obtain ⟨_, -, read⟩ := except_bind_ok.mp read
  cases read
  exact ⟨⟨_, checked⟩, found⟩

theorem NodeJs.Params.read_ok {fields : Fields} {params : Params}
    (read : Params.read (.map fields) = .ok params) :
    (∃ known, checkFields known [] fields = .ok ()) ∧
      get fields "stages" StageSet.read StageSet.empty = .ok params.stages := by
  obtain ⟨own, accepted, read⟩ := except_bind_ok.mp read
  obtain ⟨unfolded, checked, -⟩ := record_ok accepted
  obtain rfl : fields = own := Except.ok.inj unfolded
  obtain ⟨_, -, read⟩ := except_bind_ok.mp read
  obtain ⟨_, -, read⟩ := except_bind_ok.mp read
  obtain ⟨_, -, read⟩ := except_bind_ok.mp read
  obtain ⟨_, -, read⟩ := except_bind_ok.mp read
  obtain ⟨stages, found, read⟩ := except_bind_ok.mp read
  obtain ⟨_, -, read⟩ := except_bind_ok.mp read
  cases read
  exact ⟨⟨_, checked⟩, found⟩

/-- What an accepted definition is read from: its parameters, and its base stage in what is
left. The checks of health in both have passed. -/
theorem Php.Definition.ofDefinition_read {d : ImageLock.Definition} {php : Definition}
    (known : ofDefinition d = .ok php) : ∃ params base,
      Params.read (.map (d.ownConfig.takeAll Params.names).1) = .ok params ∧
      Stage.read (.map (d.ownConfig.takeAll Params.names).2) = .ok base ∧
      checkHealthchecks base params.stages = .ok () ∧
      php.baseStage = defaultBaseStage.merge base ∧
      php.stages = defaultStages.merge params.stages := by
  obtain ⟨params, decoded, known⟩ := except_bind_ok.mp known
  obtain ⟨base, decoded', known⟩ := except_bind_ok.mp known
  obtain ⟨_, -, known⟩ := except_bind_ok.mp known
  obtain ⟨_, -, known⟩ := except_bind_ok.mp known
  obtain ⟨_, checked, known⟩ := except_bind_ok.mp known
  obtain ⟨_, -, known⟩ := except_bind_ok.mp known
  cases known
  exact ⟨params, base, Definition.decode_ok.mp (except_mapError_ok.mp decoded),
    Definition.decode_ok.mp (except_mapError_ok.mp decoded'), checked, rfl, rfl⟩

theorem NodeJs.Definition.ofDefinition_read {d : ImageLock.Definition} {nodeJs : Definition}
    (known : ofDefinition d = .ok nodeJs) : ∃ params base,
      Params.read (.map (d.ownConfig.takeAll Params.names).1) = .ok params ∧
      Stage.read (.map (d.ownConfig.takeAll Params.names).2) = .ok base ∧
      nodeJs.baseStage = defaultBaseStage.merge base ∧
      nodeJs.stages = defaultStages.merge params.stages := by
  obtain ⟨params, decoded, known⟩ := except_bind_ok.mp known
  obtain ⟨base, decoded', known⟩ := except_bind_ok.mp known
  dsimp only at known
  split at known
  next => cases known
  next =>
    obtain ⟨_, -, known⟩ := except_bind_ok.mp known
    obtain ⟨_, -, known⟩ := except_bind_ok.mp known
    cases known
    exact ⟨params, base, Definition.decode_ok.mp (except_mapError_ok.mp decoded),
      Definition.decode_ok.mp (except_mapError_ok.mp decoded'), rfl, rfl⟩

theorem Php.Definition.reading {d : ImageLock.Definition} {php : Definition}
    (known : ofDefinition d = .ok php) :
    StagedReading Params.names Stage.names defaultStages php.stages
      (d.config.remove ImageLock.Definition.webserverField) := by
  obtain ⟨params, base, read, own, -, -, stages_eq⟩ := ofDefinition_read known
  obtain ⟨once, declared⟩ := Params.read_ok read
  obtain ⟨rest, unfolded, listed⟩ := Stage.read_knows _ _ own
  rw [← Except.ok.inj unfolded] at listed
  exact ⟨listed, once, params.stages, declared, stages_eq⟩

theorem NodeJs.Definition.reading {d : ImageLock.Definition} {nodeJs : Definition}
    (known : ofDefinition d = .ok nodeJs) :
    StagedReading Params.names Stage.names defaultStages nodeJs.stages
      (d.config.remove ImageLock.Definition.webserverField) := by
  obtain ⟨params, base, read, own, -, stages_eq⟩ := ofDefinition_read known
  obtain ⟨once, declared⟩ := Params.read_ok read
  obtain ⟨rest, unfolded, listed⟩ := Stage.read_knows _ _ own
  rw [← Except.ok.inj unfolded] at listed
  exact ⟨listed, once, params.stages, declared, stages_eq⟩

/-! Mappings inside definitions. -/

theorem Decode.fields_ok {node : Node} {fields : Fields} (read : Decode.fields node = .ok fields) :
    node.untagged = .map fields ∨ fields = [] := by
  unfold Decode.fields at read
  split at read
  next own same => exact .inl (same.trans (congrArg _ (Except.ok.inj read)))
  next => exact .inr (Except.ok.inj read).symm
  next => cases read

theorem Node.Regular.fields {node : Node} {fields : Fields} (regular : node.Regular)
    (read : Decode.fields node = .ok fields) : (Node.map fields).Regular := by
  rcases Decode.fields_ok read with same | rfl
  · exact same ▸ regular.untagged
  · exact .map List.Pairwise.nil (by simp) (by simp)

theorem Json.isSome_untagged : ∀ {node : Node}, (ofNode? node).isSome = true →
    (ofNode? node.untagged).isSome = true
  | .tagged _ _, known => by
      rw [ofNode?, Option.isSome_map] at known
      rw [Node.untagged]
      exact isSome_untagged known
  | .null, known | .bool _, known | .int _, known | .real _, known | .text _, known
  | .list _, known | .map _, known => known

theorem Fields.expressible_of_fields {node : Node} {fields : Fields}
    (known : (Json.ofNode? node).isSome = true) (read : Decode.fields node = .ok fields) :
    fields.Expressible := by
  rcases Decode.fields_ok read with same | rfl
  · rw [← Json.ofNode?_map_isSome, ← same]
    exact Json.isSome_untagged known
  · simp [Expressible]

/-- A key that can be told in JSON and read as a text is one. -/
theorem Decode.eq_text {key : Node} {name : String} (known : (Json.keyText? key).isSome = true)
    (named : text key = .ok name) : key = .text name := by
  cases key with
  | text own => rw [Except.ok.inj named]
  | tagged tag value => cases known
  | _ => cases named

/-- The names that a reader knows are those of the fields themselves. -/
theorem Decode.Knows.texts {α : Type} {names : List String} {read : Reader α} {node : Node}
    {value : α} (knows : Knows names read) (known : (Json.ofNode? node).isSome = true)
    (accepted : read node = .ok value) : ∃ fields, Decode.fields node = .ok fields ∧
      ∀ e ∈ fields, ∃ name ∈ names, e.1 = .text name := by
  obtain ⟨fields, unfolded, listed⟩ := knows node value accepted
  refine ⟨fields, unfolded, fun e member => ?_⟩
  obtain ⟨name, inside, named⟩ := listed e member
  exact ⟨name, inside,
    eq_text (Fields.expressible_of_fields known unfolded e member).1 named⟩

/-! Declared stages. -/

/-- What is declared comes first in its chain, if there is one. -/
theorem StageSet.chain_cons {S : Type} {set : StageSet S} {name : String}
    {stage : DerivedStage S} {found : List (DerivedStage S)} (below : isBase name = false)
    (there : set.find? name = some stage) (chained : set.chain name = .ok found) :
    ∃ parents, found = stage :: parents := by
  unfold chain walk at chained
  simp only [below, there, Bool.false_eq_true, if_false, List.contains_nil] at chained
  obtain ⟨parents, -, same⟩ := except_bind_ok.mp chained
  exact ⟨parents, (Except.ok.inj same).symm⟩

theorem StageSet.chain_of_resolve {S : Type} [StageConfig S] {base : S} {set : StageSet S}
    {name : String} {merged : MergedStage S} (resolved : resolve base set name = .ok merged) :
    ∃ found, set.chain name = .ok found := by
  obtain ⟨found, chained, -⟩ := except_bind_ok.mp resolved
  exact ⟨found, chained⟩

theorem StageSet.chain_base {S : Type} (set : StageSet S) {name : String}
    (base : isBase name = true) : set.chain name = .ok [] := by
  unfold chain walk
  rw [if_pos base]

section

variable {S : Type} [StageConfig S]

/-- A field of this name is the one that is found. -/
theorem Decode.find?_of_mem {known : List Field} {fields : Fields} {e : Node × Node}
    {name : String} (once : checkFields known [] fields = .ok ()) (member : e ∈ fields)
    (named : e.1 = .text name) : Decode.find? fields name = some e.2 := by
  obtain ⟨front, back, rfl⟩ := List.append_of_mem member
  have apart := (checkFields_iff.mp once).2.imp fun {a b} differ
      (here : a.1.untagged.isText name = true) (there : b.1.untagged.isText name = true) =>
    differ name (text_of_isText here) (text_of_isText there)
  have wanted : e.1.untagged.isText name = true := by simp [named, Node.untagged, Node.isText]
  simp [Decode.find?, find?_eq_of_perm List.perm_middle apart, wanted]

/-- Every stage that is declared is in the set that is read. -/
theorem StageSet.read_ok {node : Node} {set : StageSet S} (regular : node.Regular)
    (known : (Json.ofNode? node).isSome = true) (read : StageSet.read node = .ok set) :
    ∃ fields, Decode.fields node = .ok fields ∧ ∀ e ∈ fields, ∃ name stage,
      e.1 = .text name ∧ DerivedStage.read e.2 = .ok stage ∧ set.find? name = some stage := by
  obtain ⟨values, accepted, same⟩ := except_bind_ok.mp read
  obtain rfl := Except.ok.inj same
  obtain ⟨fields, unfolded, each⟩ := Decode.entries_ok_iff.mp accepted
  have expressible := Fields.expressible_of_fields known unfolded
  have distinct := (regular.fields unfolded).distinct
  have texts {e : Node × Node} {name : String} (member : e ∈ fields)
      (named : text e.1 = .ok name) : e.1 = .text name :=
    Decode.eq_text (expressible e member).1 named
  -- The names differ as the keys do, so no later stage takes the place of an earlier one.
  have keys_eq : fields.map (·.1) = values.map fun v => Node.text v.1 := by
    clear distinct expressible accepted read unfolded same
    induction each with
    | nil => rfl
    | cons head _ ih =>
        rw [List.map_cons, List.map_cons, texts List.mem_cons_self head.1,
          ih fun member => texts (List.mem_cons_of_mem _ member)]
  have once : (values.map (·.1)).Nodup := by
    have keys : (fields.map (·.1)).Pairwise fun a b => a.same b = false :=
      List.pairwise_map.mpr distinct
    rw [keys_eq] at keys
    refine List.pairwise_map.mpr ((List.pairwise_map.mp keys).imp fun differ same => ?_)
    simp [Node.same, same] at differ
  refine ⟨fields, unfolded, fun e member => ?_⟩
  obtain ⟨⟨name, stage⟩, there, named, own⟩ := forall₂_left each member
  exact ⟨name, stage, texts member named, own, Names.find?_ofList_of_mem once there⟩

/-! Definitions. -/

/-- All that a definition file says counts. Its fields have known names, and so have those
of the webserver inside it and those of its stages. A stage that does not have the name of
the base comes first in the chain of its name, on top of the stage of that name that there
is by default; the chain of a name of the base is empty. -/
structure AccountsFor (params own : List String) (defaults stages : StageSet S)
    (fields : Fields) : Prop where
  top : ∀ e ∈ fields, ∃ name,
    name ∈ "kind" :: Definition.webserverField :: (params ++ own) ∧ e.1 = .text name
  webserver : ∀ nested, (.text Definition.webserverField, .map nested) ∈ fields →
    ∀ e ∈ nested, ∃ name ∈ Webserver.Definition.names, e.1 = .text name
  stages : ∀ node, (.text "stages", node) ∈ fields → ∃ declared,
    Decode.fields node = .ok declared ∧ ∀ e ∈ declared, ∃ name inner stage,
      e.1 = .text name ∧
      Decode.fields e.2 = .ok inner ∧
      (∀ f ∈ inner, ∃ known ∈ "derive_from" :: "dev" :: own, f.1 = .text known) ∧
      DerivedStage.read e.2 = .ok stage ∧
      (StageSet.isBase name = false → ∃ parents,
        stages.chain name = .ok (StageSet.onTop (defaults.find? name) stage :: parents)) ∧
      (StageSet.isBase name = true → stages.chain name = .ok [])

/-- The field of the stages cannot be left for a base stage that does not know it. -/
theorem StagedReading.read_stages {params own : List String} {defaults stages : StageSet S}
    {config : Fields} (reading : StagedReading params own defaults stages config)
    (apart : "stages" ∉ own) {node : Node} (member : (.text "stages", node) ∈ config) :
    ∃ set, StageSet.read node = .ok set ∧ stages = defaults.merge set := by
  obtain ⟨known, once⟩ := reading.once
  obtain ⟨set, read, same⟩ := reading.declared
  have taken := (Fields.mem_takeAll member params).resolve_right fun left => by
    obtain ⟨name, listed, named⟩ := reading.base _ left
    exact apart (Except.ok.inj named ▸ listed)
  rw [Decode.get, Decode.find?_of_mem once taken.1 rfl] at read
  exact ⟨set, read, same⟩

/-- What is declared comes first in its chain, on top of what there is by default. -/
theorem StageSet.chain_merge {defaults set : StageSet S} {name : String} {stage : DerivedStage S}
    (declared : set.find? name = some stage) (below : isBase name = false)
    (chained : ∀ name ∈ (defaults.merge set).keys, ∃ found,
      (defaults.merge set).chain name = .ok found) :
    ∃ parents, (defaults.merge set).chain name =
      .ok (onTop (defaults.find? name) stage :: parents) := by
  have there : (defaults.merge set).find? name = some (onTop (defaults.find? name) stage) := by
    rw [find?_merge, declared]
    cases defaults.find? name <;> rfl
  have listed : name ∈ (defaults.merge set).keys := by
    rw [Names.mem_keys, ← Names.isSome_find?, there]
    rfl
  obtain ⟨found, walked⟩ := chained name listed
  obtain ⟨parents, rfl⟩ := chain_cons below there walked
  exact ⟨parents, walked⟩

/-- A definition whose stages all have chains accounts for all that its file says. -/
theorem StagedReading.accountsFor {d : Definition} {fields : Fields} {params own : List String}
    {defaults stages : StageSet S}
    (reading : StagedReading params own defaults stages
      (d.config.remove Definition.webserverField))
    (knows : Knows own (StageConfig.read (S := S))) (apart : "stages" ∉ own)
    (written : fields.Perm ((.text "kind", .text d.kind) :: d.config))
    (single : d.config.Single) (regular : d.IsRegular) (expressible : d.config.Expressible)
    (served : ∀ nested, d.config.find? Definition.webserverField = some (.map nested) →
      ∃ server, Webserver.Definition.read (.map nested) = .ok server)
    (chained : ∀ name ∈ stages.keys, ∃ found, stages.chain name = .ok found) :
    AccountsFor params own defaults stages fields where
  top := by
    intro e member
    rcases List.mem_cons.mp (written.mem_iff.mp member) with rfl | member
    · exact ⟨_, List.mem_cons_self, rfl⟩
    rcases Fields.mem_or_mem_remove member Definition.webserverField with ⟨_, -, rfl⟩ | rest
    · exact ⟨_, List.mem_cons_of_mem _ List.mem_cons_self, rfl⟩
    rcases Fields.mem_takeAll rest params with ⟨-, name, listed, named⟩ | rest
    · exact ⟨name, by simp [listed], named⟩
    · obtain ⟨name, listed, named⟩ := reading.base e rest
      exact ⟨name, by simp [listed], Decode.eq_text (expressible e member).1 named⟩
  webserver := by
    intro nested member
    have member := (List.mem_cons.mp (written.mem_iff.mp member)).resolve_left
      (by simp [Definition.webserverField])
    obtain ⟨server, read⟩ := served nested (single.find?_of_mem member)
    obtain ⟨own, unfolded, listed⟩ :=
      Webserver.Definition.read_knows.texts (expressible _ member).2 read
    rwa [← Except.ok.inj unfolded] at listed
  stages := by
    intro node member
    have member := (List.mem_cons.mp (written.mem_iff.mp member)).resolve_left (by simp)
    have rest := (Fields.mem_or_mem_remove member Definition.webserverField).resolve_left
      (by simp [Definition.webserverField])
    obtain ⟨set, read, rfl⟩ := reading.read_stages apart rest
    have told := (expressible _ member).2
    obtain ⟨declared, unfolded, each⟩ := StageSet.read_ok (regular _ member) told read
    refine ⟨declared, unfolded, fun e inside => ?_⟩
    obtain ⟨name, stage, named, own, found⟩ := each e inside
    obtain ⟨inner, inner_eq, listed⟩ := (DerivedStage.read_knows knows).texts
      (Fields.expressible_of_fields told unfolded e inside).2 own
    exact ⟨name, inner, stage, named, inner_eq, listed, own,
      fun below => StageSet.chain_merge found below chained, StageSet.chain_base _⟩

end

/-! Updates. -/

/-- Every stage that is locked has a chain. -/
theorem Php.Relocked.chained {world : World} {request : Request} {refresh : Refresh}
    {php : Definition} {locks : Locks} {first last : Trail}
    (relocked : Relocked world request refresh php first locks last) {name : String}
    (member : name ∈ php.stages.keys) : ∃ found, php.stages.chain name = .ok found := by
  obtain ⟨_, _, _, _, resolved, _⟩ := relocked.lockedAs member
  obtain ⟨merged, found, -⟩ := except_bind_ok.mp resolved
  exact StageSet.chain_of_resolve (except_mapError_ok.mp found)

theorem NodeJs.Relocked.chained {world : World} {refresh : Refresh} {nodeJs : Definition}
    {locks : Locks} {first last : Trail}
    (relocked : Relocked world refresh nodeJs first locks last) {name : String}
    (member : name ∈ nodeJs.stages.keys) : ∃ found, nodeJs.stages.chain name = .ok found := by
  obtain ⟨_, _, resolved, _⟩ := relocked.lockedAs member
  obtain ⟨merged, found, -⟩ := except_bind_ok.mp resolved
  exact StageSet.chain_of_resolve (except_mapError_ok.mp found)

/-- The webserver inside a definition has been read where there are locks of it. -/
theorem Update.Wrote.served {world : World} {request : Request} {refresh : Refresh}
    {d : Definition} {written : Fields} {first last : Trail}
    (wrote : Wrote Kind.registry world request refresh d first written last)
    (embeds : Kind.registry.embedsWebserver d.kind = true) {nested : Fields}
    (found : d.config.find? Definition.webserverField = some (.map nested)) :
    ∃ server, Webserver.Definition.read (.map nested) = .ok server := by
  obtain ⟨_, _, locked, _, _⟩ := wrote
  obtain ⟨_, _, _, _, _, beside⟩ := locks_ok.mp locked
  have held : holdsWebserver Kind.registry d = true := by
    rw [holdsWebserver, embeds, ← Fields.find?_isSome, found]
    rfl
  rw [ServerLocked, if_pos held] at beside
  obtain ⟨kind, _, known, locked, _⟩ := beside
  obtain rfl : kind = .webserver := Except.ok.inj (known.symm.trans (Kind.findKind_iff.mpr rfl))
  obtain ⟨_, _, locked, -⟩ := Act.bind_ok.mp locked
  obtain ⟨server, _, known, -⟩ := Webserver.lockDefinition_ok.mp (Act.mapError_ok.mp locked)
  obtain ⟨server, decoded, -⟩ := except_bind_ok.mp known
  have read := Definition.decode_ok.mp (except_mapError_ok.mp decoded)
  rw [Definition.webserver, Definition.nestedFields, found] at read
  exact ⟨server, read⟩

/-- A definition that was read from these fields and accounts for all of them. -/
def Definition.IsComplete (d : Definition) (fields : Fields) : Prop :=
  (d.kind = Php.kind → ∃ php, Php.Definition.ofDefinition d = .ok php ∧
    AccountsFor Php.Params.names Php.Stage.names Php.Definition.defaultStages php.stages fields) ∧
  (d.kind = NodeJs.kind → ∃ nodeJs, NodeJs.Definition.ofDefinition d = .ok nodeJs ∧
    AccountsFor NodeJs.Params.names NodeJs.Stage.names NodeJs.Definition.defaultStages
      nodeJs.stages fields)

theorem Update.Wrote.isComplete {world : World} {request : Request} {refresh : Refresh}
    {d : Definition} {written fields : Fields} {first last : Trail}
    (wrote : Wrote Kind.registry world request refresh d first written last)
    (same : fields.Perm ((.text "kind", .text d.kind) :: d.config))
    (single : d.config.Single) (regular : d.IsRegular) :
    d.IsComplete fields := by
  have expressible : d.config.Expressible := by
    obtain ⟨_, hash, _, hashed, _⟩ := wrote
    exact Definition.exists_hash_iff.mp ⟨hash, hashed⟩
  constructor
  · intro isPhp
    obtain ⟨php, locks, _, known, relocked, _⟩ := Php.wrote_ok isPhp wrote
    exact ⟨php, known, (Php.Definition.reading known).accountsFor Php.Stage.read_knows
      (by decide) same single regular expressible
      (fun _ => wrote.served (by rw [isPhp]; rfl)) fun _ => relocked.chained⟩
  · intro isNodeJs
    obtain ⟨nodeJs, locks, _, known, relocked, _⟩ := NodeJs.wrote_ok isNodeJs wrote
    exact ⟨nodeJs, known, (NodeJs.Definition.reading known).accountsFor NodeJs.Stage.read_knows
      (by decide) same single regular expressible
      (fun _ => wrote.served (by rw [isNodeJs]; rfl)) fun _ => relocked.chained⟩

/-- An update that succeeds has left out nothing that the definition file says. -/
theorem update_ignores_nothing {world : World} {disk disk' : Disk} {request : Request}
    {refresh : Refresh} {report : UpdateReport} {first last : Trail}
    (updated : (Update.run Kind.registry world disk request refresh).after first =
      (.ok (report, disk'), last)) :
    ∃ content fields d,
      (world.backend.read request.file (.buildContext request.context)).1 = .ok content ∧
      Definition.parseFields request.file content = .ok fields ∧
      Loads world.backend request d ∧ d.IsComplete fields := by
  obtain ⟨written, prepared, -⟩ := Update.run_ok.mp updated
  obtain ⟨-, d, middle, loaded, wrote⟩ := Update.prepare_ok prepared
  have loads := loadDefinition_ok loaded
  obtain ⟨content, bare, read, parsed, same⟩ := loads.definition
  obtain ⟨fields, fields_eq, perm⟩ := Definition.parse_ok parsed
  have kind_eq : d.kind = bare.kind := by rw [same]
  have config_eq : d.config = bare.config := by rw [same]
  rw [← kind_eq, ← config_eq] at perm
  exact ⟨content, fields, d, read, fields_eq, loads,
    wrote.isComplete perm loads.config_single loads.isRegular⟩

/-! A stage with the name of the base. -/

/-- Of its two stages the first is never reached. -/
def staged : String :=
  "kind: nodejs\nbase: a@sha256:b\nwebserver:\n  healthcheck: false\nstages:\n" ++
    "  base:\n    sources: [src/]\n  worker:\n    derive_from: dev\n"

/-- Where images have digests, and each holds one system. -/
def pinning : Machine where
  docker := ⟨"docker", fun words =>
    let answer := if words.head? = some "image" then "nginx@sha256:c\n" else "ID=alpine\n"
    some ⟨some 0, answer.toUTF8, ByteArray.empty⟩⟩
  root := "/src"
  isCancelled := false
  packages := .tools
  extensions := .ofList []

def pinningWorld : World := pinning.world (Machine.project "zbuild.yml" staged)

theorem updates_staged : ∃ report disk' trail,
    (Update.run Kind.registry pinningWorld (Machine.project "zbuild.yml" staged)
      (Machine.prodOf "zbuild.yml") .all).runFrom .empty = (.ok (report, disk'), trail) := by
  have passes : ((Update.run Kind.registry pinningWorld (Machine.project "zbuild.yml" staged)
      (Machine.prodOf "zbuild.yml") .all).runFrom .empty).1.toOption.any (fun _ => true) =
        true := by
    decide +kernel
  obtain ⟨⟨report, disk'⟩, run, -⟩ := Act.exists_of_any passes
  exact ⟨report, disk', _, run⟩

theorem declares_staged : declares pinningWorld.backend (Machine.prodOf "zbuild.yml")
    (fun d => d.kind == NodeJs.kind && (NodeJs.Definition.ofDefinition d).toOption.any fun nodeJs =>
      (nodeJs.stages.find? StageSet.baseName).any fun stage =>
        stage.stage.sources == ["src/"]) = true := by
  decide +kernel

theorem update_ignores_nothing_staged : ∃ report disk' trail,
    (Update.run Kind.registry pinningWorld (Machine.project "zbuild.yml" staged)
      (Machine.prodOf "zbuild.yml") .all).runFrom .empty = (.ok (report, disk'), trail) ∧
    ∃ content fields d nodeJs,
      Definition.parseFields "zbuild.yml" content = .ok fields ∧
      Loads pinningWorld.backend (Machine.prodOf "zbuild.yml") d ∧
      NodeJs.Definition.ofDefinition d = .ok nodeJs ∧
      AccountsFor NodeJs.Params.names NodeJs.Stage.names NodeJs.Definition.defaultStages
        nodeJs.stages fields := by
  obtain ⟨report, disk', trail, updated⟩ := updates_staged
  obtain ⟨content, fields, d, -, parsed, loads, -, complete⟩ := update_ignores_nothing updated
  have declared := loads.check declares_staged
  simp only [Bool.and_eq_true, beq_iff_eq] at declared
  obtain ⟨nodeJs, known, accounts⟩ := complete declared.1
  exact ⟨report, disk', trail, updated, content, fields, d, nodeJs, parsed, loads, known, accounts⟩

/-- A stage that is declared under the name of the base is accepted, and nothing of it is in
its chain. -/
theorem update_accepts_shadowed_stage : ∃ report disk' trail,
    (Update.run Kind.registry pinningWorld (Machine.project "zbuild.yml" staged)
      (Machine.prodOf "zbuild.yml") .all).runFrom .empty = (.ok (report, disk'), trail) ∧
    ∃ d nodeJs stage,
      Loads pinningWorld.backend (Machine.prodOf "zbuild.yml") d ∧
      NodeJs.Definition.ofDefinition d = .ok nodeJs ∧
      nodeJs.stages.find? StageSet.baseName = some stage ∧
      stage.stage.sources = ["src/"] ∧
      nodeJs.stages.chain StageSet.baseName = .ok [] := by
  obtain ⟨report, disk', trail, updated⟩ := updates_staged
  obtain ⟨written, prepared, -⟩ := Update.run_ok.mp updated
  obtain ⟨-, d, middle, loaded, wrote⟩ := Update.prepare_ok prepared
  have loads := loadDefinition_ok loaded
  have declared := loads.check declares_staged
  simp only [Bool.and_eq_true, beq_iff_eq] at declared
  obtain ⟨isNodeJs, own⟩ := declared
  obtain ⟨nodeJs, _, _, known, _⟩ := NodeJs.wrote_ok isNodeJs wrote
  obtain ⟨unlocked, _, unlocked_eq, _, nodeJs_eq⟩ := NodeJs.Definition.ofDefinition_ok.mp known
  have stages_eq : nodeJs.stages = unlocked.stages := by rw [nodeJs_eq]
  simp only [unlocked_eq, Except.toOption, Option.any_some, ← stages_eq] at own
  obtain ⟨stage, found, sources⟩ := (Option.any_eq_true _ _).mp own
  exact ⟨report, disk', trail, updated, d, nodeJs, stage, loads, known, found,
    by simpa using sources, StageSet.chain_base _ rfl⟩

end ImageLock
