/-
Configurations as they are shown. A stage that can be planned can be shown, and
the document that is shown is the definition in its plan: the same scalars, lists
and fields.
-/
import ImageLock.Proofs.DistinctKeys
import ImageLock.Proofs.WebserverPlan

namespace ImageLock

/-! Documents and the JSON of the same value. -/

namespace Node

mutual
/-- JSON with the scalars, the lists and the fields of a document. Only the order
of fields may be another one. -/
def ShownAs : Node → Json → Prop
  | .null, .null => True
  | .bool a, .bool b => a = b
  | .int a, .int b => a = b
  | .real a, .real b => a = b
  | .text a, .text b => a = b
  | .list items, .list values => ItemsShownAs items values
  | .map fields, .object values =>
      Fields.IsRecord fields ∧ (values.map (·.1)).Nodup ∧ fields.length = values.length ∧
        FieldsShownAs fields values
  | _, _ => False

def ItemsShownAs : List Node → List Json → Prop
  | [], [] => True
  | item :: items, value :: values => ShownAs item value ∧ ItemsShownAs items values
  | _, _ => False

def FieldsShownAs : List (Node × Node) → List (String × Json) → Prop
  | [], _ => True
  | (key, value) :: rest, values =>
      (∃ name shown, key = .text name ∧ (name, shown) ∈ values ∧ ShownAs value shown) ∧
        FieldsShownAs rest values
end

mutual
/-- A document of scalars, lists, and mappings from distinct texts. -/
def IsPlain : Node → Prop
  | .real x => x.isFinite = true
  | .list items => ItemsPlain items
  | .map fields => Fields.IsRecord fields ∧ FieldsPlain fields
  | .tagged _ _ => False
  | _ => True

def ItemsPlain : List Node → Prop
  | [] => True
  | item :: rest => IsPlain item ∧ ItemsPlain rest

def FieldsPlain : List (Node × Node) → Prop
  | [] => True
  | (_, value) :: rest => IsPlain value ∧ FieldsPlain rest
end

theorem fieldsShownAs_mono {fields : Fields} {values values' : List (String × Json)}
    (shown : FieldsShownAs fields values) (more : values ⊆ values') :
    FieldsShownAs fields values' := by
  induction fields with
  | nil => exact trivial
  | cons e rest ih =>
      obtain ⟨⟨name, value, key, member, same⟩, later⟩ := shown
      exact ⟨⟨name, value, key, more member, same⟩, ih later⟩

theorem itemsPlain_iff {items : List Node} : ItemsPlain items ↔ ∀ item ∈ items, item.IsPlain := by
  induction items with
  | nil => simp [ItemsPlain]
  | cons item rest ih => simp [ItemsPlain, ih]

theorem fieldsPlain_iff {fields : Fields} : FieldsPlain fields ↔ ∀ e ∈ fields, e.2.IsPlain := by
  induction fields with
  | nil => simp [FieldsPlain]
  | cons e rest ih =>
      obtain ⟨key, value⟩ := e
      simp [FieldsPlain, ih]

mutual
/-- A plain document has its JSON. -/
theorem IsPlain.shown : ∀ {node : Node}, node.IsPlain →
    ∃ value, Json.ofNode? node = some value ∧ node.ShownAs value
  | .null, _ => ⟨_, rfl, trivial⟩
  | .bool _, _ => ⟨_, rfl, rfl⟩
  | .int _, _ => ⟨_, rfl, rfl⟩
  | .real x, isFinite => ⟨.real x, by simp_all [Json.ofNode?, IsPlain], rfl⟩
  | .text _, _ => ⟨_, rfl, rfl⟩
  | .list _, plain => by
      obtain ⟨values, known, shown⟩ := ItemsPlain.shown plain
      exact ⟨.list values, by rw [Json.ofNode?, known]; rfl, shown⟩
  | .map fields, ⟨⟨names, nodup, keys⟩, plain⟩ => by
      obtain ⟨values, known, names_eq, shown⟩ := FieldsPlain.shown keys plain
      have sameLength : fields.length = values.length := by
        have := congrArg List.length keys
        simpa [Fields.keys, ← names_eq] using this
      refine ⟨.object values, by rw [Json.ofNode?, known]; rfl, ?_⟩
      exact ⟨⟨names, nodup, keys⟩, names_eq ▸ nodup, sameLength, shown⟩

theorem ItemsPlain.shown : ∀ {items : List Node}, ItemsPlain items →
    ∃ values, Json.ofItems? items = some values ∧ ItemsShownAs items values
  | [], _ => ⟨[], rfl, trivial⟩
  | _ :: _, ⟨first, rest⟩ => by
      obtain ⟨value, known, shown⟩ := first.shown
      obtain ⟨values, later, laterShown⟩ := ItemsPlain.shown rest
      exact ⟨value :: values, by rw [Json.ofItems?, known, later], shown, laterShown⟩

theorem FieldsPlain.shown : ∀ {fields : Fields} {names : List String},
    fields.keys = names.map .text → FieldsPlain fields →
    ∃ values, Json.ofFields? fields = some values ∧ values.map (·.1) = names ∧
      FieldsShownAs fields values
  | [], [], _, _ => ⟨[], rfl, rfl, trivial⟩
  | (_, _) :: _, [], keys, _ => by cases keys
  | [], _ :: _, keys, _ => by cases keys
  | (key, _) :: _, name :: _, keys, ⟨first, later⟩ => by
      obtain ⟨rfl, others⟩ : key = .text name ∧ _ := List.cons.inj keys
      obtain ⟨value, known, shown⟩ := first.shown
      obtain ⟨values, laterKnown, names_eq, laterShown⟩ := FieldsPlain.shown others later
      refine ⟨(name, value) :: values, ?_, by rw [List.map_cons, names_eq], ?_⟩
      · rw [Json.ofFields?, known, laterKnown]
        rfl
      · exact ⟨⟨name, value, rfl, List.mem_cons_self, shown⟩,
          fieldsShownAs_mono laterShown (List.subset_cons_self _ _)⟩
end

end Node

/-! Sorting. -/

namespace Json

theorem perm_insertField {name : String} (value : Json) {fields : List (String × Json)}
    (new : name ∉ fields.map (·.1)) :
    (insertField name value fields).Perm ((name, value) :: fields) := by
  induction fields with
  | nil => exact .refl _
  | cons first rest ih =>
      obtain ⟨n, v⟩ := first
      obtain ⟨other, later⟩ : name ≠ n ∧ name ∉ rest.map (·.1) := by simpa using new
      simp only [insertField]
      split
      · exact .refl _
      · exact ((ih later).cons (n, v)).trans (.swap ..)

/-- Fields of distinct names are all kept, with their values sorted. -/
theorem perm_sortedFields {fields : List (String × Json)} (done : List (String × Json))
    (distinct : ((fields ++ done).map (·.1)).Nodup) :
    (sortedFields fields done).Perm (fields.map (fun e => (e.1, e.2.sorted)) ++ done) := by
  induction fields generalizing done with
  | nil => exact .refl _
  | cons first rest ih =>
      obtain ⟨name, value⟩ := first
      obtain ⟨new, distinct⟩ := List.nodup_cons.mp distinct
      have fresh : name ∉ done.map (·.1) := fun there => new (by simp_all)
      have inserted := perm_insertField value.sorted fresh
      have distinct' : ((rest ++ insertField name value.sorted done).map (·.1)).Nodup := by
        have moved : (rest ++ insertField name value.sorted done).Perm
            ((name, value.sorted) :: (rest ++ done)) :=
          (inserted.append_left rest).trans List.perm_middle
        exact (moved.map _).nodup_iff.mpr (List.nodup_cons.mpr ⟨new, distinct⟩)
      rw [sortedFields]
      refine (ih _ distinct').trans ?_
      exact (inserted.append_left _).trans List.perm_middle

end Json

namespace Node

mutual
/-- Sorted JSON shows the same document. -/
theorem ShownAs.sorted : ∀ {node : Node} {value : Json}, node.ShownAs value →
    node.ShownAs value.sorted
  | .null, .null, shown | .bool _, .bool _, shown | .int _, .int _, shown
  | .real _, .real _, shown | .text _, .text _, shown => shown
  | .list _, .list _, shown => ItemsShownAs.sorted shown
  | .map fields, .object values, ⟨record, distinct, sameLength, shown⟩ => by
      have perm := Json.perm_sortedFields [] (by simpa using distinct)
      rw [List.append_nil] at perm
      refine ⟨record, (perm.map _).nodup_iff.mpr (by simpa [Function.comp_def] using distinct),
        by simpa [perm.length_eq] using sameLength, ?_⟩
      refine FieldsShownAs.sorted shown fun name value member => ?_
      exact perm.mem_iff.mpr (List.mem_map.mpr ⟨(name, value), member, rfl⟩)

theorem ItemsShownAs.sorted : ∀ {items : List Node} {values : List Json},
    ItemsShownAs items values → ItemsShownAs items (Json.sortedItems values)
  | [], [], _ => trivial
  | _ :: _, _ :: _, ⟨first, rest⟩ => ⟨first.sorted, ItemsShownAs.sorted rest⟩

theorem FieldsShownAs.sorted : ∀ {fields : Fields} {values values' : List (String × Json)},
    FieldsShownAs fields values →
    (∀ name value, (name, value) ∈ values → (name, value.sorted) ∈ values') →
    FieldsShownAs fields values'
  | [], _, _, _, _ => trivial
  | (_, _) :: _, _, _, ⟨⟨name, value, key, member, shown⟩, rest⟩, keeps =>
      ⟨⟨name, value.sorted, key, keeps name value member, shown.sorted⟩,
        FieldsShownAs.sorted rest keeps⟩
end

/-- What a plan shows of a plain document. -/
theorem IsPlain.shown_sorted {node : Node} (plain : node.IsPlain) :
    node.ShownAs (Json.ofNode node).sorted := by
  obtain ⟨value, known, shown⟩ := plain.shown
  rw [Json.ofNode, known, Option.map_some, Option.getD_some]
  exact shown.sorted.sorted

/-! Plain values, and records of them. -/

theorem isPlain_text (s : String) : (text s).IsPlain := trivial

theorem isPlain_bool (b : Bool) : (bool b).IsPlain := trivial

theorem isPlain_int (i : Int) : (int i).IsPlain := trivial

theorem isPlain_record {fields : List (String × Node)} (distinct : (fields.map (·.1)).Nodup)
    (plain : ∀ e ∈ fields, e.2.IsPlain) : (record fields).IsPlain := by
  refine ⟨Fields.IsRecord.of_values fields distinct, fieldsPlain_iff.mpr fun e member => ?_⟩
  obtain ⟨field, there, rfl⟩ := List.mem_map.mp member
  exact plain field there

theorem isPlain_list {α : Type} {node : α → Node} (plain : ∀ item, (node item).IsPlain)
    (items : List α) : (list (items.map node)).IsPlain := by
  refine itemsPlain_iff.mpr fun item member => ?_
  obtain ⟨own, _, rfl⟩ := List.mem_map.mp member
  exact plain own

theorem isPlain_texts (items : List String) : (texts items).IsPlain :=
  isPlain_list isPlain_text items

/-- Fields with plain values, in the order of some names, of which some may be left
out. -/
structure PlainFields (names : List String) (fields : List (String × Node)) : Prop where
  named : (fields.map (·.1)).Sublist names
  plain : ∀ e ∈ fields, e.2.IsPlain

namespace PlainFields

variable {names others : List String} {fields more : List (String × Node)}

theorem nil (names : List String) : PlainFields names [] := ⟨List.nil_sublist _, by simp⟩

theorem cons {name : String} {value : Node} (plain : value.IsPlain)
    (rest : PlainFields names fields) : PlainFields (name :: names) ((name, value) :: fields) :=
  ⟨rest.named.cons_cons name, List.forall_mem_cons.mpr ⟨plain, rest.plain⟩⟩

theorem single {name : String} {value : Node} (plain : value.IsPlain) :
    PlainFields [name] [(name, value)] :=
  cons plain (nil [])

theorem append (first : PlainFields names fields) (rest : PlainFields others more) :
    PlainFields (names ++ others) (fields ++ more) where
  named := by
    rw [List.map_append]
    exact first.named.append rest.named
  plain := List.forall_mem_append.mpr ⟨first.plain, rest.plain⟩

theorem optional {α : Type} {node : α → Node} (plain : ∀ value, (node value).IsPlain)
    (name : String) (value : Option α) :
    PlainFields [name] (Node.optional name (value.map node)) := by
  cases value with
  | none => exact nil _
  | some value => exact cons (plain value) (nil _)

theorem record (names : List String) (listed : PlainFields names fields)
    (distinct : names.Nodup) :
    (Node.record fields).IsPlain :=
  isPlain_record (distinct.sublist listed.named) listed.plain

end PlainFields
end Node

open Node

theorem Names.isPlain_record {α : Type} {node : α → Node} (m : Names α)
    (plain : ∀ value, (node value).IsPlain) :
    (Node.record (m.entries.map fun (name, value) => (name, node value))).IsPlain := by
  refine Node.isPlain_record ?_ fun e member => ?_
  · rw [List.map_map]
    exact m.nodup_keys
  · obtain ⟨entry, _, rfl⟩ := List.mem_map.mp member
    exact plain entry.2

theorem VersionMap.isPlain (m : VersionMap) : m.toNode.IsPlain := by
  obtain ⟨content⟩ := m
  cases content with
  | none => exact trivial
  | some names => exact names.isPlain_record isPlain_text

theorem ExternalFile.isPlain (file : ExternalFile) : file.toNode.IsPlain := by
  have compressed : PlainFields ["compressed"]
      (if file.isCompressed then [("compressed", .bool true)] else []) := by
    split
    · exact .single trivial
    · exact .nil _
  refine PlainFields.record (["url"] ++ ["compressed"] ++ ["pattern"] ++
    ["destination"] ++ ["checksum"] ++ ["mode"] ++ ["owner"]) ?_ (by decide)
  refine .append (.append (.append (.append (.append (.append ?_ compressed) ?_) ?_) ?_) ?_) ?_
  · exact .single trivial
  · exact .optional isPlain_text _ _
  · exact .single trivial
  · exact .optional isPlain_text _ _
  · exact .optional (fun mode => isPlain_int mode) _ _
  · exact .optional isPlain_text _ _

/-! Healthchecks. -/

namespace Healthcheck

theorem isPlain_request (req : HealthcheckRequest) : (requestNode req).IsPlain :=
  PlainFields.record _ (.cons trivial (.single trivial)) (by decide)

theorem isPlain_command (cmd : HealthcheckCommand) : (commandNode cmd).IsPlain :=
  PlainFields.record _ (.cons trivial (.single (isPlain_texts _))) (by decide)

theorem isPlain_config (c : HealthcheckConfig) : (configNode c).IsPlain := by
  refine PlainFields.record (["type"] ++ ["http"] ++ ["fcgi"] ++ ["cmd"] ++
    ["interval", "timeout", "retries"]) ?_ (by decide)
  refine .append (.append (.append (.append ?_ ?_) ?_) ?_) ?_
  · exact .single trivial
  · exact .optional isPlain_request _ _
  · exact .optional isPlain_request _ _
  · exact .optional isPlain_command _ _
  · exact .cons trivial (.cons trivial (.single trivial))

theorem isPlain (healthcheck : Healthcheck) : healthcheck.toNode.IsPlain := by
  cases healthcheck with
  | toggle isOn => exact trivial
  | config c => exact isPlain_config c

end Healthcheck

/-! Stages. -/

namespace Php

theorem ConfigFiles.isPlain (files : ConfigFiles) : files.toNode.IsPlain :=
  PlainFields.record _ (.append (.optional isPlain_text "php.ini" files.ini)
    (.optional isPlain_text "fpm.conf" files.fpm)) (by decide)

theorem DumpFlags.isPlain (flags : DumpFlags) : flags.toNode.IsPlain :=
  PlainFields.record _ (.cons trivial (.single trivial)) (by decide)

/-- The names that fields of stages have. -/
def Stage.names : List String :=
  ["external_files", "system_packages"] ++ ["fpm"] ++ ["command"] ++
    ["extensions", "config_files"] ++ ["composer_dump"] ++
    ["sources", "integrations", "stateful_dirs"] ++ ["healthcheck"] ++ ["post_install"]

theorem Stage.plainFields (s : Stage) : PlainFields names s.toFields := by
  refine .append (.append (.append (.append (.append (.append (.append ?_ ?_) ?_) ?_) ?_) ?_)
    ?_) ?_
  · exact .cons (isPlain_list ExternalFile.isPlain _) (.single s.systemPackages.isPlain)
  · exact .optional isPlain_bool _ _
  · exact .optional isPlain_texts _ _
  · exact .cons s.extensions.isPlain (.single s.configFiles.isPlain)
  · exact .optional DumpFlags.isPlain _ _
  · exact .cons (isPlain_texts _) (.cons (isPlain_texts _) (.single (isPlain_texts _)))
  · exact .optional Healthcheck.isPlain _ _
  · exact .single (isPlain_texts _)

theorem Resolved.isPlain (r : Resolved) : r.toNode.IsPlain := by
  have scripts : PlainFields ["extra_scripts"]
      (if r.extraScripts.isEmpty then [] else [("extra_scripts", .texts r.extraScripts)]) := by
    split
    · exact .nil _
    · exact .single (isPlain_texts _)
  refine PlainFields.record (["name", "base_image", "version", "maj_min_version",
    "infer", "dev"] ++ Stage.names ++ ["extra_scripts"]) ?_ (by decide)
  refine .append (.append ?_ r.stage.plainFields) scripts
  exact .cons trivial (.cons trivial (.cons trivial (.cons trivial (.cons trivial
    (.single trivial)))))

end Php

namespace NodeJs

/-- The names that fields of stages have. -/
def Stage.names : List String :=
  ["external_files", "system_packages", "global_packages"] ++ ["build_command"] ++
    ["command"] ++ ["config_files", "sources", "stateful_dirs"] ++ ["healthcheck"]

theorem Stage.plainFields (s : Stage) : PlainFields names s.toFields := by
  refine .append (.append (.append (.append ?_ ?_) ?_) ?_) ?_
  · exact .cons (isPlain_list ExternalFile.isPlain _)
      (.cons s.systemPackages.isPlain (.single s.globalPackages.isPlain))
  · exact .optional isPlain_text _ _
  · exact .optional isPlain_texts _ _
  · exact .cons (s.configFiles.isPlain_record isPlain_text)
      (.cons (isPlain_texts _) (.single (isPlain_texts _)))
  · exact .optional isPlain_bool _ _

theorem Resolved.isPlain (r : Resolved) : r.toNode.IsPlain := by
  refine PlainFields.record (["name", "base_image", "version", "dev", "frontend"] ++
    Stage.names) ?_ (by decide)
  refine .append ?_ r.stage.plainFields
  exact .cons trivial (.cons trivial (.cons trivial (.cons trivial (.single trivial))))

end NodeJs

namespace Webserver

theorem Asset.isPlain (asset : Asset) : asset.toNode.IsPlain :=
  PlainFields.record _ (.cons trivial (.single trivial)) (by decide)

theorem Definition.isPlain (d : Definition) : d.toNode.IsPlain := by
  refine PlainFields.record (["type", "system_packages"] ++ ["config_file"] ++
    ["healthcheck", "assets"]) ?_ (by decide)
  refine .append (.append ?_ ?_) ?_
  · exact .cons trivial (.single d.systemPackages.isPlain)
  · exact .optional isPlain_text _ _
  · exact .cons trivial (.single (isPlain_list Asset.isPlain _))

end Webserver

/-! Configurations of stages that are planned. -/

open Act

variable {world : World} {request : Request} {plan : BuildPlan} {first last : Trail}

theorem Php.config_of_plan {d : ImageLock.Definition}
    (run : (Php.plan world request d).after first = (.ok plan, last)) :
    ∃ resolved : Php.Resolved, Answers (Php.config world request d) (.ok resolved.toNode) ∧
      plan.definition = (Json.ofNode resolved.toNode).sorted := by
  obtain ⟨_, _, resolves, _⟩ := bind_ok.mp run
  obtain ⟨php, _, known, _⟩ := bind_ok.mp resolves
  have known := (ofExcept_ok.mp known).1
  obtain ⟨required, resolved, stage, _, _, asked, found, _, tells⟩ := Php.plan_ok known run
  have read := Reads.answers (answers_platformRequirements world.backend _) asked
  exact ⟨resolved, answers_bind (answers_resolve known read found) (answers_pure _),
    tells.definition⟩

theorem NodeJs.config_of_plan {d : ImageLock.Definition}
    (run : (NodeJs.plan world request d).after first = (.ok plan, last)) :
    ∃ resolved : NodeJs.Resolved, Answers (NodeJs.config request d) (.ok resolved.toNode) ∧
      plan.definition = (Json.ofNode resolved.toNode).sorted := by
  obtain ⟨nodeJs, _, known, _⟩ := bind_ok.mp run
  have known := (ofExcept_ok.mp known).1
  obtain ⟨resolved, stage, found, _, tells⟩ := NodeJs.plan_ok known run
  refine ⟨resolved, answers_bind (answers_ofExcept known) ?_, tells.definition⟩
  exact answers_bind (answers_ofExcept found) (answers_pure _)

theorem Webserver.config_of_plan {d : ImageLock.Definition}
    (planned : Webserver.plan request d = .ok plan) :
    ∃ server locks, Definition.ofDefinition d = .ok (server, locks) ∧
      Webserver.config d = .ok server.toNode ∧
      plan.definition = (Json.ofNode server.toNode).sorted := by
  obtain ⟨server, locks, known, _, rfl⟩ := Webserver.plan_ok.mp planned
  refine ⟨server, locks, known, ?_, rfl⟩
  rw [Webserver.config, known]
  rfl

/-- A stage that a kind can plan it can show, and the plan has what is shown. -/
theorem Kind.config_of_plan {kind : Kind} {d : Definition}
    (run : (kind.plan world request d).after first = (.ok plan, last)) :
    ∃ node : Node, node.IsPlain ∧ Answers (kind.config world request d) (.ok node) ∧
      plan.definition = (Json.ofNode node).sorted := by
  cases kind with
  | php =>
      obtain ⟨resolved, shown, same⟩ := Php.config_of_plan (mapError_ok.mp run)
      exact ⟨_, resolved.isPlain, answers_mapError KindError.php shown, same⟩
  | nodeJs =>
      obtain ⟨resolved, shown, same⟩ := NodeJs.config_of_plan (mapError_ok.mp run)
      exact ⟨_, resolved.isPlain, answers_mapError KindError.nodeJs shown, same⟩
  | webserver =>
      obtain ⟨server, _, _, shown, same⟩ :=
        Webserver.config_of_plan (ofExcept_ok.mp (mapError_ok.mp run)).1
      exact ⟨_, server.isPlain, answers_mapError KindError.webserver (answers_ofExcept shown),
        same⟩

namespace Build

theorem answers_configText {node : Node}
    (shown : Answers (Build.config Kind.registry world request) (.ok node)) :
    Answers (Build.configText Kind.registry world request) (.ok (Yaml.print node)) :=
  answers_bind shown (answers_pure _)

theorem config_plain {d : Definition} {kind : Kind} {node : Node}
    (loads : Loads world.backend request d)
    (plain : Text.startsWith webserverStageLead request.stage = false)
    (known : findKind Kind.registry d.kind = .ok kind)
    (shown : Answers (kind.config world request d) (.ok node)) :
    Answers (Build.config Kind.registry world request) (.ok node) := by
  refine answers_bind (answers_loadDefinition loads) ?_
  simp only [plain, Bool.false_eq_true, if_false]
  exact answers_bind (answers_ofExcept known) (answers_mapError BuildError.kind shown)

theorem config_webserver {d : Definition} {kind : Kind} {node : Node}
    (loads : Loads world.backend request d)
    (lead : Text.startsWith webserverStageLead request.stage = true)
    (known : findKind Kind.registry d.kind = .ok kind)
    (embeds : Kind.registry.embedsWebserver d.kind = true)
    (shown : Webserver.config d.webserver = .ok node) :
    Answers (Build.config Kind.registry world request) (.ok node) := by
  have registered : findKind Kind.registry Webserver.kind = .ok .webserver :=
    Kind.findKind_iff.mpr rfl
  refine answers_bind (answers_loadDefinition loads) ?_
  simp only [lead, if_true]
  refine answers_bind (answers_ofExcept (findEmbedding_ok.mpr ⟨known, embeds⟩)) ?_
  refine answers_bind (answers_ofExcept registered) ?_
  exact answers_mapError BuildError.kind
    (answers_mapError KindError.webserver (answers_ofExcept shown))

/-- A configuration that is shown for a stage is what the plan of the stage has: its
text is there whenever the plan is, and reads back, if it reads back as what was
printed, as the definition of the plan. For a webserver that is the nested
definition. -/
theorem config_shows_plan
    (planned : (Build.plan Kind.registry world request).after first = (.ok plan, last)) :
    ∃ node, Answers (Build.config Kind.registry world request) (.ok node) ∧
      Answers (Build.configText Kind.registry world request) (.ok (Yaml.print node)) ∧
      node.ShownAs plan.definition ∧
      (Yaml.parse (Yaml.print node).toUTF8 = .ok node →
        ∃ value, Yaml.parse (Yaml.print node).toUTF8 = .ok value ∧
          value.ShownAs plan.definition) ∧
      ∀ stage, request.stage = webserverStageLead ++ stage →
        ∃ d server locks, Loads world.backend request d ∧
          Webserver.Definition.ofDefinition d.webserver = .ok (server, locks) ∧
          node = server.toNode := by
  cases lead : Text.startsWith webserverStageLead request.stage with
  | false =>
      obtain ⟨d, kind, loads, _, known, made⟩ := plan_ok_plain lead planned
      obtain ⟨_, ran⟩ := made.run first
      obtain ⟨node, plain, shown, same⟩ := Kind.config_of_plan ran
      have config := config_plain loads lead known shown
      have shownAs : node.ShownAs plan.definition := same ▸ plain.shown_sorted
      refine ⟨node, config, answers_configText config, shownAs, fun read => ⟨node, read, shownAs⟩,
        fun stage named => ?_⟩
      have follows := Text.after?_eq_some.mpr named
      rw [Text.after?_eq_none.mpr lead] at follows
      cases follows
  | true =>
      rcases plan_cases planned with ⟨_, notLead⟩ | ⟨d, stage, parent, built⟩
      · rw [lead] at notLead
        cases notLead
      · obtain ⟨kind, known, _⟩ := built.planned
        obtain ⟨server, locks, decoded, shown, same⟩ := Webserver.config_of_plan built.server
        have config := config_webserver built.loads lead known built.embeds shown
        have shownAs : server.toNode.ShownAs plan.definition :=
          same ▸ server.isPlain.shown_sorted
        exact ⟨server.toNode, config, answers_configText config, shownAs,
          fun read => ⟨_, read, shownAs⟩,
          fun _ _ => ⟨d, server, locks, built.loads, decoded, rfl⟩⟩

end Build

namespace Machine

/-- The definition of the webserver is shown as it is planned. -/
theorem config_shows_plan_served :
    ∃ plan node value, Answers (Build.plan Kind.registry (alpine.world served)
        (stageOf "webserver-prod")) (.ok plan) ∧
      Answers (Build.configText Kind.registry (alpine.world served)
        (stageOf "webserver-prod")) (.ok (Yaml.print node)) ∧
      Yaml.parse (Yaml.print node).toUTF8 = .ok value ∧ value.ShownAs plan.definition := by
  obtain ⟨d, prod, dev, bare, plans, _, decoded⟩ := plans_served
  obtain ⟨_, ran⟩ := plans.ofServer.run (.start .empty)
  obtain ⟨node, _, text, _, readBack, ofServer⟩ := Build.config_shows_plan ran
  obtain ⟨d', own, _, loads, decoded', rfl⟩ := ofServer "prod" (by decide)
  obtain rfl := loads.unique plans.loads
  obtain ⟨rfl, _⟩ := Prod.mk.inj (Except.ok.inj (decoded'.symm.trans decoded))
  obtain ⟨value, read, shown⟩ := readBack (Yaml.parse_print_of_readsBack (by decide +kernel))
  exact ⟨_, server.toNode, value, plans.ofServer, text, read, shown⟩

end Machine
end ImageLock
