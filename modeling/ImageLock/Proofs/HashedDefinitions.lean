/-
What the hash of a definition tells. Two definitions have one hash text just if their
kinds and their documents are the same, as far as JSON tells a document. So a lock file
that belongs to a definition was made from one that is told in the same way, and of two
plain definitions from that definition itself.
-/
import ImageLock.Proofs.JsonText
import ImageLock.Proofs.ReadNodes
import ImageLock.Proofs.ShownConfig
import ImageLock.Proofs.Updating

namespace ImageLock

/-! What JSON tells of a document. -/

namespace Node

/-- JSON has texts for keys alone. -/
def toldKey (key : Node) : Node :=
  match Json.keyText? key with
  | some name => .text name
  | none => key

mutual
/-- A number that is not finite is told as nothing, and a tag as a field. -/
def told : Node → Node
  | .real x => if x.isFinite then .real x else .null
  | .list items => .list (toldItems items)
  | .map fields => .map (toldFields fields)
  | .tagged tag value => .map [(.text ("!" ++ tag), told value)]
  | .null => .null
  | .bool b => .bool b
  | .int i => .int i
  | .text s => .text s

def toldItems : List Node → List Node
  | [] => []
  | item :: rest => told item :: toldItems rest

def toldFields : List (Node × Node) → List (Node × Node)
  | [] => []
  | (key, value) :: rest => (toldKey key, told value) :: toldFields rest
end

theorem keyText?_toldKey (key : Node) : Json.keyText? key.toldKey = Json.keyText? key := by
  unfold toldKey
  cases known : Json.keyText? key with
  | some name => rfl
  | none => exact known

mutual
/-- What is left out is not in the JSON. -/
theorem ofNode?_told : ∀ node : Node, Json.ofNode? node.told = Json.ofNode? node
  | .null | .bool _ | .int _ | .text _ => rfl
  | .real x => by
      unfold told
      split
      next => rfl
      next infinite => simp [Json.ofNode?, infinite]
  | .list items => by rw [told, Json.ofNode?, Json.ofNode?, ofItems?_told items]
  | .map fields => by rw [told, Json.ofNode?, Json.ofNode?, ofFields?_told fields]
  | .tagged tag value => by
      rw [told, Json.ofNode?, Json.ofNode?]
      simp only [Json.ofFields?, Json.keyText?, ofNode?_told value]
      cases Json.ofNode? value <;> rfl

theorem ofItems?_told : ∀ items : List Node, Json.ofItems? (toldItems items) = Json.ofItems? items
  | [] => rfl
  | item :: rest => by
      rw [toldItems, Json.ofItems?, Json.ofItems?, ofNode?_told item, ofItems?_told rest]

theorem ofFields?_told : ∀ fields : List (Node × Node),
    Json.ofFields? (toldFields fields) = Json.ofFields? fields
  | [] => rfl
  | (key, value) :: rest => by
      rw [toldFields, Json.ofFields?, Json.ofFields?, keyText?_toldKey, ofNode?_told value,
        ofFields?_told rest]
end

mutual
/-- All of a plain document is told. -/
theorem IsPlain.told_eq : ∀ {node : Node}, node.IsPlain → node.told = node
  | .null, _ | .bool _, _ | .int _, _ | .text _, _ => rfl
  | .real _, isFinite => by
      rw [IsPlain] at isFinite
      rw [told, if_pos isFinite]
  | .list items, plain => by rw [told, ItemsPlain.told_eq plain]
  | .map fields, ⟨⟨names, _, keys⟩, plain⟩ => by rw [told, FieldsPlain.told_eq keys plain]

theorem ItemsPlain.told_eq : ∀ {items : List Node}, ItemsPlain items → toldItems items = items
  | [], _ => rfl
  | _ :: _, ⟨first, rest⟩ => by rw [toldItems, first.told_eq, ItemsPlain.told_eq rest]

theorem FieldsPlain.told_eq : ∀ {fields : Fields} {names : List String},
    fields.keys = names.map .text → FieldsPlain fields → toldFields fields = fields
  | [], _, _, _ => rfl
  | (_, _) :: _, [], keys, _ => by cases keys
  | (key, _) :: _, name :: _, keys, ⟨first, later⟩ => by
      obtain ⟨rfl, others⟩ : key = .text name ∧ _ := List.cons.inj keys
      rw [toldFields, first.told_eq, FieldsPlain.told_eq others later]
      rfl
end

end Node

namespace Json

mutual
/-- The document that a JSON value is. -/
def asNode : Json → Node
  | .null => .null
  | .bool b => .bool b
  | .int i => .int i
  | .real x => .real x
  | .text s => .text s
  | .list items => .list (asItems items)
  | .object fields => .map (asFields fields)

def asItems : List Json → List Node
  | [] => []
  | item :: rest => asNode item :: asItems rest

def asFields : List (String × Json) → List (Node × Node)
  | [] => []
  | (name, value) :: rest => (.text name, asNode value) :: asFields rest
end

mutual
/-- A document is told by its JSON. -/
theorem told_of_ofNode? : ∀ {node : Node} {value : Json}, ofNode? node = some value →
    node.told = value.asNode
  | .null, _, known | .bool _, _, known | .int _, _, known | .text _, _, known => by
      cases known
      rfl
  | .real x, _, known => by
      cases known
      unfold Node.told
      split <;> rfl
  | .list items, _, known => by
      obtain ⟨values, each, rfl⟩ := Option.map_eq_some_iff.mp known
      rw [Node.told, asNode, toldItems_of_ofItems? each]
  | .map fields, _, known => by
      obtain ⟨values, each, rfl⟩ := Option.map_eq_some_iff.mp known
      rw [Node.told, asNode, toldFields_of_ofFields? each]
  | .tagged tag value, _, known => by
      obtain ⟨own, inner, rfl⟩ := Option.map_eq_some_iff.mp known
      rw [Node.told, told_of_ofNode? inner]
      rfl

theorem toldItems_of_ofItems? : ∀ {items : List Node} {values : List Json},
    ofItems? items = some values → Node.toldItems items = asItems values
  | [], _, known => by
      cases known
      rfl
  | item :: rest, _, known => by
      rw [ofItems?] at known
      split at known
      next first later =>
        cases known
        rw [Node.toldItems, asItems, told_of_ofNode? first, toldItems_of_ofItems? later]
      next => cases known

theorem toldFields_of_ofFields? : ∀ {fields : List (Node × Node)} {values : List (String × Json)},
    ofFields? fields = some values → Node.toldFields fields = asFields values
  | [], _, known => by
      cases known
      rfl
  | (key, value) :: rest, _, known => by
      rw [ofFields?] at known
      split at known
      next name own others named first later =>
        cases known
        rw [Node.toldFields, asFields, Node.toldKey, named, told_of_ofNode? first,
          toldFields_of_ofFields? later]
      next => cases known
end

/-- Two documents have one JSON just if the same is told of both. -/
theorem told_eq_iff {a b : Node} (known : (ofNode? a).isSome = true) :
    a.told = b.told ↔ ofNode? a = ofNode? b := by
  constructor
  · intro same
    rw [← Node.ofNode?_told a, same, Node.ofNode?_told b]
  · intro same
    obtain ⟨value, told⟩ := Option.isSome_iff_exists.mp known
    rw [told_of_ofNode? told, told_of_ofNode? (same ▸ told)]

mutual
theorem numeric_of_ofNode? : ∀ {node : Node} {value : Json}, node.Regular →
    ofNode? node = some value → value.Numeric
  | .null, _, _, known => by
      cases known
      exact .null
  | .bool _, _, _, known => by
      cases known
      exact .bool _
  | .int _, _, _, known => by
      cases known
      exact .int _
  | .text _, _, _, known => by
      cases known
      exact .text _
  | .real x, _, .real proper, known => by
      cases known
      split
      next finite => exact .real proper finite
      next => exact .null
  | .list items, _, .list each, known => by
      obtain ⟨values, inner, rfl⟩ := Option.map_eq_some_iff.mp known
      exact .list (numeric_of_ofItems? each inner)
  | .map fields, _, .map _ _ each, known => by
      obtain ⟨values, inner, rfl⟩ := Option.map_eq_some_iff.mp known
      exact .object (numeric_of_ofFields? each inner)
  | .tagged tag node, _, .tagged _ own, known => by
      obtain ⟨value, inner, rfl⟩ := Option.map_eq_some_iff.mp known
      refine .object fun e member => ?_
      rw [List.mem_singleton.mp member]
      exact numeric_of_ofNode? own inner

theorem numeric_of_ofItems? : ∀ {items : List Node} {values : List Json},
    (∀ item ∈ items, item.Regular) → ofItems? items = some values →
    ∀ value ∈ values, value.Numeric
  | [], _, _, known => by
      cases known
      simp
  | item :: rest, _, each, known => by
      rw [ofItems?] at known
      split at known
      next first later =>
        cases known
        obtain ⟨own, others⟩ := List.forall_mem_cons.mp each
        exact List.forall_mem_cons.mpr
          ⟨numeric_of_ofNode? own first, numeric_of_ofItems? others later⟩
      next => cases known

theorem numeric_of_ofFields? : ∀ {fields : List (Node × Node)} {values : List (String × Json)},
    (∀ e ∈ fields, e.2.Regular) → ofFields? fields = some values →
    ∀ e ∈ values, e.2.Numeric
  | [], _, _, known => by
      cases known
      simp
  | (key, node) :: rest, _, each, known => by
      rw [ofFields?] at known
      split at known
      next first later =>
        cases known
        obtain ⟨own, others⟩ := List.forall_mem_cons.mp each
        exact List.forall_mem_cons.mpr
          ⟨numeric_of_ofNode? own first, numeric_of_ofFields? others later⟩
      next => cases known
end

end Json

/-! Hashes. -/

namespace Definition

variable {d d' : Definition}

theorem hashText?_eq (d : Definition) : d.hashText? = (Json.ofFields? d.config).map fun config =>
    Json.compact (.object [("kind", .text d.kind), ("raw_config", .object config)]) := by
  simp only [hashText?, Node.record, List.map_cons, List.map_nil, Json.ofNode?, Json.ofFields?,
    Json.keyText?]
  cases Json.ofFields? d.config <;> rfl

/-- Only what JSON does not tell can differ. -/
@[mk_iff]
structure ToldAlike (d d' : Definition) : Prop where
  kind : d.kind = d'.kind
  config : (Node.map d.config).told = (Node.map d'.config).told

/-- The text tells the kind and what JSON tells of the configuration, and no more. -/
theorem hashText?_eq_iff (regular : d.IsRegular) (regular' : d'.IsRegular)
    (known : d.config.Expressible) : d.hashText? = d'.hashText? ↔ d.ToldAlike d' := by
  have numeric {kind : String} {own : Fields} {values : List (String × Json)}
      (each : ∀ e ∈ own, e.2.Regular) (found : Json.ofFields? own = some values) :
      (Json.object [("kind", .text kind), ("raw_config", .object values)]).Numeric :=
    .object (List.forall_mem_cons.mpr ⟨.text kind,
      List.forall_mem_singleton.mpr (.object (Json.numeric_of_ofFields? each found))⟩)
  obtain ⟨config, told⟩ := Option.isSome_iff_exists.mp (Json.ofFields?_isSome.mpr known)
  rw [toldAlike_iff, Json.told_eq_iff (Json.ofNode?_map_isSome.mpr known), hashText?_eq,
    hashText?_eq, Json.ofNode?, Json.ofNode?, told]
  cases told' : Json.ofFields? d'.config with
  | none => simp
  | some config' =>
      constructor
      · intro same
        have equal := Json.compact_injective (numeric regular told) (numeric regular' told')
          (Option.some.inj same)
        simp only [Json.object.injEq, List.cons.injEq, Prod.mk.injEq, Json.text.injEq] at equal
        exact ⟨equal.1.2, by simp [equal.2.1.2]⟩
      · rintro ⟨kind_eq, same⟩
        have equal : config = config' := by simpa using same
        rw [kind_eq, equal]

/-- Whatever the locks are, every kind reads the same, also of the webserver inside. -/
structure ReadsAlike (d d' : Definition) : Prop where
  php : ∀ locks, Php.Definition.ofDefinition { d with locks } =
    Php.Definition.ofDefinition { d' with locks }
  nodeJs : ∀ locks, NodeJs.Definition.ofDefinition { d with locks } =
    NodeJs.Definition.ofDefinition { d' with locks }
  alone : ∀ locks, Webserver.Definition.ofDefinition { d with locks } =
    Webserver.Definition.ofDefinition { d' with locks }
  inside : ∀ locks, Webserver.Definition.ofDefinition { d with locks }.webserver =
    Webserver.Definition.ofDefinition { d' with locks }.webserver

/-- Two texts have one digest. -/
def Collides (d d' : Definition) : Prop :=
  ∃ text text', d.hashText? = some text ∧ d'.hashText? = some text' ∧ text ≠ text' ∧
    Digest.sha256 text.toUTF8 = Digest.sha256 text'.toUTF8

def IsPlain (d : Definition) : Prop := (Node.map d.config).IsPlain

theorem IsPlain.expressible (plain : d.IsPlain) : d.config.Expressible := by
  obtain ⟨value, told, -⟩ := plain.shown
  exact Json.ofNode?_map_isSome.mp (by rw [told]; rfl)

theorem ToldAlike.readsAlike (alike : d.ToldAlike d') (plain : d.IsPlain) (plain' : d'.IsPlain) :
    d.ReadsAlike d' := by
  have config_eq : d.config = d'.config := by
    have same := alike.config
    rw [plain.told_eq, plain'.told_eq] at same
    exact Node.map.inj same
  have same (locks : Fields) : { d with locks } = { d' with locks } := by
    rw [alike.kind, config_eq]
  constructor <;> intro locks <;> rw [same]

theorem hash_ok {hash : String} : d.hash = .ok hash ↔
    ∃ text, d.hashText? = some text ∧ Digest.sha256 text.toUTF8 = hash := by
  unfold Definition.hash
  cases d.hashText? <;> simp

theorem checkLockSync_ok : checkLockSync d = .ok () ↔
    ∃ hash, d.hash = .ok hash ∧ d.lockedHash? = some hash := by
  unfold checkLockSync
  cases d.hash with
  | error error => simp [bind, Except.bind]
  | ok hash =>
      by_cases same : d.lockedHash? = some hash <;>
        simp [same, bind, Except.bind, pure, Except.pure, throw, throwThe, MonadExceptOf.throw]

/-- A lock file belongs to what it was made from, as far as a hash can tell. -/
theorem hashText?_eq_of_wrote {world : World} {request : Request} {refresh : Refresh}
    {written : Fields} {first last : Trail}
    (wrote : Update.Wrote Kind.registry world request refresh d' first written last)
    (accepted : checkLockSync { d with locks := written } = .ok ())
    (apart : ¬ d.Collides d') : d.hashText? = d'.hashText? := by
  obtain ⟨own, hash, _, made, rfl⟩ := wrote
  obtain ⟨found, hashed, locked⟩ := checkLockSync_ok.mp accepted
  obtain ⟨text, told, digest⟩ := hash_ok.mp hashed
  obtain ⟨text', told', digest'⟩ := hash_ok.mp made
  have same : hash = found := by
    simpa [lockedHash?, Fields.find?_insert] using locked
  have told : d.hashText? = some text := told
  -- Two texts with the digest that is locked would be a collision.
  by_contra differ
  refine apart ⟨text, text', told, told', fun equal => differ ?_, ?_⟩
  · rw [told, told', equal]
  · rw [digest, digest', same]

end Definition

/-- A lock file that belongs to a definition was made from one that is told alike, and
from one that reads alike if both are plain. -/
theorem hash_tells_definition {d d' : Definition} (regular : d.IsRegular)
    (regular' : d'.IsRegular) :
    (d.config.Expressible → (d.hashText? = d'.hashText? ↔ d.ToldAlike d')) ∧
    (d.IsPlain → d'.IsPlain → d.hashText? = d'.hashText? → d.ReadsAlike d') ∧
    ∀ world request refresh first written last,
      Update.Wrote Kind.registry world request refresh d' first written last →
      checkLockSync { d with locks := written } = .ok () → ¬ d.Collides d' →
      d.ToldAlike d' ∧ (d.IsPlain → d'.IsPlain → d.ReadsAlike d') := by
  refine ⟨Definition.hashText?_eq_iff regular regular', fun plain plain' same => ?_, ?_⟩
  · have alike := (Definition.hashText?_eq_iff regular regular' plain.expressible).mp same
    exact alike.readsAlike plain plain'
  · intro world request refresh first written last wrote accepted apart
    have known : d.config.Expressible := by
      obtain ⟨hash, hashed, -⟩ := Definition.checkLockSync_ok.mp accepted
      exact Definition.exists_hash_iff.mp ⟨hash, hashed⟩
    have alike := (Definition.hashText?_eq_iff regular regular' known).mp
      (Definition.hashText?_eq_of_wrote wrote accepted apart)
    exact ⟨alike, alike.readsAlike⟩

/-! Two versions that JSON tells alike. -/

/-- A version that is not a number. -/
def unnumbered : Definition := ⟨NodeJs.kind, [(.text "version", .real .notANumber)], []⟩

/-- No version at all. -/
def unversioned : Definition := ⟨NodeJs.kind, [(.text "version", .null)], []⟩

/-- Whether a text is read as this definition. -/
def readsAs (text : String) (d : Definition) : Bool :=
  (Definition.parse "zbuild.yml" text.toUTF8).toOption.any fun own =>
    own.kind == d.kind && Node.identicalFields own.config d.config

theorem parse_of_readsAs {text : String} {d : Definition} (passes : readsAs text d = true)
    (bare : d.locks = []) : Definition.parse "zbuild.yml" text.toUTF8 = .ok d := by
  unfold readsAs at passes
  cases parsed : Definition.parse "zbuild.yml" text.toUTF8 with
  | error error =>
      rw [parsed] at passes
      cases passes
  | ok own =>
      rw [parsed] at passes
      simp only [Except.toOption, Option.any_some, Bool.and_eq_true, beq_iff_eq] at passes
      have locks := Definition.parse_locks parsed
      cases own
      cases d
      simp only at passes bare locks
      rw [passes.1, Node.eq_of_identicalFields passes.2, locks, bare]

theorem parse_unnumbered :
    Definition.parse "zbuild.yml" "kind: nodejs\nversion: .nan\n".toUTF8 = .ok unnumbered :=
  parse_of_readsAs (by decide +kernel) rfl

theorem parse_unversioned :
    Definition.parse "zbuild.yml" "kind: nodejs\nversion: ~\n".toUTF8 = .ok unversioned :=
  parse_of_readsAs (by decide +kernel) rfl

theorem alike_unnumbered : unnumbered.ToldAlike unversioned := ⟨rfl, rfl⟩

/-- One text for both, and a lock file that was written for a plain definition. -/
theorem hash_tells_definition_zbuild :
    unnumbered.hashText? = unversioned.hashText? ∧
    ∃ d first written last,
      Loads (Machine.alpine.world (Machine.project "zbuild.yml" Machine.bare)).backend
        (Machine.prodOf "zbuild.yml") d ∧
      Update.Wrote Kind.registry
        (Machine.alpine.world (Machine.project "zbuild.yml" Machine.bare))
        (Machine.prodOf "zbuild.yml") .all d first written last ∧
      checkLockSync { d with locks := written } = .ok () ∧
      { d with locks := written }.ReadsAlike d := by
  have told : unnumbered.config.Expressible := by
    simp [Fields.Expressible, unnumbered, Json.keyText?, Json.ofNode?]
  have one := hash_tells_definition (Definition.parse_regular parse_unnumbered)
    (Definition.parse_regular parse_unversioned)
  refine ⟨(one.1 told).mpr alike_unnumbered, ?_⟩
  have declared : declares
      (Machine.alpine.world (Machine.project "zbuild.yml" Machine.bare)).backend
      (Machine.prodOf "zbuild.yml") (fun d => Node.identicalFields d.config
        [(.text "infer", .bool false), (.text "base", .text "a@sha256:b")]) = true := by
    decide +kernel
  obtain ⟨report, disk', trail, prepared, -⟩ :=
    Machine.prepared_of_prepares Machine.prepares_bare
  obtain ⟨-, d, middle, loaded, wrote⟩ := Update.prepare_ok prepared
  have loads := loadDefinition_ok loaded
  have config_eq : d.config = [(.text "infer", .bool false), (.text "base", .text "a@sha256:b")] :=
    Node.eq_of_identicalFields (loads.check declared)
  have regular := loads.isRegular
  have plain : d.IsPlain := by
    have record : (Node.record [("infer", .bool false), ("base", .text "a@sha256:b")]).IsPlain :=
      Node.isPlain_record (by decide) (by simp [Node.IsPlain])
    unfold Definition.IsPlain
    rwa [config_eq]
  have accepted := checkLockSync_wrote wrote
  have apart : ¬ ({ d with locks := Machine.bareLocks } : Definition).Collides d := by
    rintro ⟨text, text', own, own', differ, -⟩
    exact differ (Option.some.inj (own.symm.trans own'))
  have two := hash_tells_definition (d := { d with locks := Machine.bareLocks }) regular regular
  exact ⟨d, middle, _, trail, loads, wrote, accepted,
    (two.2.2 _ _ _ _ _ _ wrote accepted apart).2 plain plain⟩

/-- Both have one hash, and ask for different images. -/
theorem hash_conflates_versions :
    Definition.parse "zbuild.yml" "kind: nodejs\nversion: .nan\n".toUTF8 = .ok unnumbered ∧
    Definition.parse "zbuild.yml" "kind: nodejs\nversion: ~\n".toUTF8 = .ok unversioned ∧
    unnumbered.locks = unversioned.locks ∧
    unnumbered.hashText? = unversioned.hashText? ∧
    (NodeJs.Definition.ofDefinition unnumbered).toOption.map (·.baseImage) =
      some "docker.io/library/node:NaN-buster-slim" ∧
    (NodeJs.Definition.ofDefinition unversioned).toOption.map (·.baseImage) =
      some "docker.io/library/node:-buster-slim" := by
  refine ⟨parse_unnumbered, parse_unversioned, rfl, ?_, ?_, ?_⟩ <;> decide +kernel

end ImageLock
