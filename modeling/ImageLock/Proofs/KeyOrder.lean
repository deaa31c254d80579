/-
The order of keys does not change the meaning of a definition.

Every reader of definitions and locks reads documents that say the same as the same value,
or refuses both. What is made of a definition depends on what is read of it, so two
definitions that say the same are locked and planned alike, and only their hashes differ.
-/
import ImageLock.Proofs.Reordered

namespace ImageLock

open Decode

variable {a b : Node} {fields fields' : Fields}

/-! Records and maps. -/

theorem VersionMap.read_eq (node : Node) : VersionMap.read node =
    (option (fun node => (Decode.entries scalar node).map Names.ofList) node).map mk := by
  cases node with
  | null => rfl
  | _ =>
      simp only [VersionMap.read, option]
      generalize Decode.entries scalar _ = known
      cases known <;> rfl

@[simp] theorem VersionMap.read_orderless : Orderless VersionMap.read := by
  intro a b alike
  have own := orderless_option (orderless_ofList orderless_scalar) a b alike
  rw [read_eq, read_eq, toOption_map, toOption_map, own]

@[simp] theorem ExternalFile.read_orderless : Orderless ExternalFile.read := by
  refine orderless_record (by simp) fun alike => ?_
  simp [get_alike alike, need_alike alike]

@[simp] theorem Context.read_orderless : Orderless Context.read := by
  refine orderless_record (by simp) fun alike => ?_
  simp [get_alike alike, need_alike alike]

@[simp] theorem OsRelease.read_orderless : Orderless OsRelease.read := by
  refine orderless_record (by simp) fun alike => ?_
  simp [get_alike alike, need_alike alike]

@[simp] theorem Php.ConfigFiles.read_orderless : Orderless Php.ConfigFiles.read := by
  refine orderless_record (by simp) fun alike => ?_
  simp [get_alike alike]

@[simp] theorem Php.DumpFlags.read_orderless : Orderless Php.DumpFlags.read := by
  refine orderless_record (by simp) fun alike => ?_
  simp [get_alike alike]

@[simp] theorem Php.StageLocks.read_orderless : Orderless Php.StageLocks.read := by
  refine orderless_record (by simp) fun alike => ?_
  simp [get_alike alike]

@[simp] theorem NodeJs.StageLocks.read_orderless : Orderless NodeJs.StageLocks.read := by
  refine orderless_record (by simp) fun alike => ?_
  simp [get_alike alike]

@[simp] theorem Webserver.Asset.read_orderless : Orderless Webserver.Asset.read := by
  refine orderless_record (by simp) fun alike => ?_
  simp [need_alike alike]

@[simp] theorem Webserver.Server.read_orderless : Orderless Webserver.Server.read :=
  orderless_variant _

theorem Webserver.Definition.read_orderless : Orderless Webserver.Definition.read := by
  refine orderless_record (by simp) fun alike => ?_
  simp [get_alike alike]

theorem Webserver.Locks.read_orderless : Orderless Webserver.Locks.read := by
  refine orderless_record (by simp) fun alike => ?_
  simp [get_alike alike]

theorem StagedLocks.read_orderless {S : Type} {readStage : Reader S}
    (orderless : Orderless readStage) : Orderless (StagedLocks.read readStage) := by
  refine orderless_record (by simp [orderless]) fun alike => ?_
  refine toOption_bind_congr (get_alike alike (by simp) _ _) fun image => ?_
  refine toOption_bind_congr (get_alike alike (by simp) _ _) fun os => ?_
  refine toOption_bind_congr (get_alike alike (by simp) _ _) fun source => ?_
  refine bind_entries_alike alike orderless _ fun _ _ same => ?_
  simp [same]

theorem Php.Locks.read_orderless : Orderless Php.Locks.read :=
  StagedLocks.read_orderless Php.StageLocks.read_orderless

theorem NodeJs.Locks.read_orderless : Orderless NodeJs.Locks.read :=
  StagedLocks.read_orderless NodeJs.StageLocks.read_orderless

/-! Healthchecks. -/

namespace Healthcheck

/-- A reader that does not see the order. -/
def Steady {α : Type} (read : Read α) : Prop := ∀ a b, a.Alike b → read a = read b

/-- Fields in which the same names are found, with values that say the same. -/
def FindAlike (named named' : List (String × Node)) : Prop :=
  ∀ name, Option.Rel Node.Alike (named.lookup name) (named'.lookup name)

theorem lookup_perm {named named' : List (String × Node)} (once : (named.map (·.1)).Nodup)
    (perm : named.Perm named') (name : String) : named.lookup name = named'.lookup name := by
  rw [Names.lookup_eq_find?, Names.lookup_eq_find?]
  refine congrArg _ (find?_eq_of_perm perm ((List.pairwise_map.mp once).imp ?_))
  exact fun differ here there => differ ((eq_of_beq here).trans (eq_of_beq there).symm)

/-- Fields of the same names in the same order. -/
def NamedAlike (e e' : String × Node) : Prop := e.1 = e'.1 ∧ e.2.Alike e'.2

theorem findAlike_of_forall₂ {named named' : List (String × Node)}
    (each : List.Forall₂ NamedAlike named named') : FindAlike named named' := by
  intro name
  induction each with
  | nil => exact .none
  | @cons e e' _ _ head _ ih =>
      rw [List.lookup_cons, List.lookup_cons, head.1]
      cases name == e'.1 with
      | true => exact .some head.2
      | false => exact ih

theorem names_eq_of_forall₂ {named named' : List (String × Node)}
    (each : List.Forall₂ NamedAlike named named') : named.map (·.1) = named'.map (·.1) := by
  induction each with
  | nil => rfl
  | cons head _ ih => rw [List.map_cons, List.map_cons, head.1, ih]

theorem namedAlike_zip (names : List String) {items items' : List Node}
    (each : List.Forall₂ Node.Alike items items') :
    List.Forall₂ NamedAlike (names.zip items) (names.zip items') := by
  induction each generalizing names with
  | nil => simp
  | cons head _ ih =>
      cases names with
      | nil => exact .nil
      | cons name names => exact .cons ⟨rfl, head⟩ (ih names)

theorem mapM_perm {α β : Type} {step : α → Option β} {items items' : List α}
    (perm : items.Perm items') : Option.Rel List.Perm (items.mapM step) (items'.mapM step) := by
  induction perm with
  | nil => exact .some .nil
  | @cons item items items' _ ih =>
      rw [List.mapM_cons, List.mapM_cons]
      generalize items.mapM step = rest, items'.mapM step = rest' at ih
      cases step item with
      | none => exact .none
      | some result =>
          cases ih with
          | none => exact .none
          | some own => exact .some (own.cons result)
  | swap item other rest =>
      simp only [List.mapM_cons]
      cases step item <;> cases step other <;> cases rest.mapM step <;>
        first | exact .none | exact .some (.swap _ _ _)
  | @trans items items' items'' _ _ ih ih' =>
      generalize items.mapM step = first, items'.mapM step = second, items''.mapM step = third
        at ih ih' ⊢
      cases ih with
      | none => exact ih'
      | some own =>
          cases ih' with
          | some own' => exact .some (own.trans own')

theorem nameOf?_eq {key key' : Node} (reordered : key.Reordered key') (names : List String) :
    nameOf? names key = nameOf? names key' := by
  cases reordered <;> rfl

/-- A field whose key is one of the names, or counts to it. -/
def entryOf? (names : List String) (e : Node × Node) : Option (String × Node) := do
  return (← nameOf? names e.1, e.2)

theorem entriesOf?_alike (names : List String) {middle : Fields}
    (each : List.Forall₂ Node.EntryAlike fields middle) :
    Option.Rel (List.Forall₂ NamedAlike) (fields.mapM (entryOf? names))
      (middle.mapM (entryOf? names)) := by
  induction each with
  | nil => exact .some .nil
  | @cons e e' fields middle head _ ih =>
      have named (e : Node × Node) : entryOf? names e =
          (nameOf? names e.1).bind fun name => some (name, e.2) := rfl
      rw [List.mapM_cons, List.mapM_cons, named, named, nameOf?_eq head.1]
      generalize fields.mapM (entryOf? names) = rest, middle.mapM (entryOf? names) = rest' at ih ⊢
      cases nameOf? names e'.1 with
      | none => exact .none
      | some name =>
          cases ih with
          | none => exact .none
          | some own => exact .some (.cons ⟨rfl, head.2⟩ own)

theorem fieldsOf?_map (names : List String) (fields : Fields) :
    fieldsOf? names (.map fields) = (fields.mapM (entryOf? names)).bind fun named =>
      if (named.map (·.1)).Nodup then some named else none := rfl

theorem fieldsOf?_alike (names : List String) (alike : a.Alike b) :
    Option.Rel FindAlike (fieldsOf? names a) (fieldsOf? names b) := by
  cases alike.reordered with
  | @list items items' =>
      have each := alike.list
      unfold fieldsOf?
      dsimp only
      rw [each.length_eq]
      split
      · exact .some (findAlike_of_forall₂ (namedAlike_zip names each))
      · exact .none
  | @map fields _ fields' =>
      obtain ⟨-, middle, each, perm⟩ := Node.alike_map_iff.mp alike
      have matched := entriesOf?_alike names each
      have turned : Option.Rel List.Perm (middle.mapM (entryOf? names))
        (fields'.mapM (entryOf? names)) := mapM_perm perm
      rw [fieldsOf?_map, fieldsOf?_map]
      generalize fields.mapM (entryOf? names) = here, middle.mapM (entryOf? names) = between,
        fields'.mapM (entryOf? names) = there at matched turned ⊢
      cases matched with
      | none =>
          cases turned
          exact .none
      | some own =>
          cases turned with
          | some moved =>
              have names_eq := names_eq_of_forall₂ own
              simp only [Option.bind_some, names_eq, (moved.map (·.1)).nodup_iff]
              split
              next once =>
                  refine .some fun name => ?_
                  rw [← lookup_perm ((moved.map (·.1)).nodup_iff.mpr once) moved]
                  exact findAlike_of_forall₂ own name
              next => exact .none
  | _ => exact .none

theorem steady_fieldsOf? {α : Type} {names : List String}
    {body : List (String × Node) → Option α}
    (reads : ∀ {named named'}, FindAlike named named' → body named = body named') :
    Steady fun node => fieldsOf? names node >>= body := by
  intro a b alike
  have found := fieldsOf?_alike names alike
  dsimp only
  generalize fieldsOf? names a = here, fieldsOf? names b = there at found
  cases found with
  | none => rfl
  | some own => exact reads own

variable {α : Type} {read : Read α} {named named' : List (String × Node)}

theorem need?_alike (alike : FindAlike named named') (steady : Steady read) (name : String) :
    need? named name read = need? named' name read := by
  unfold need?
  have found := alike name
  generalize named.lookup name = here, named'.lookup name = there at found
  cases found with
  | none => rfl
  | some own => exact steady _ _ own

theorem get?_alike (alike : FindAlike named named') (steady : Steady read) (name : String)
    (absent : α) : get? named name read absent = get? named' name read absent := by
  unfold get?
  have found := alike name
  generalize named.lookup name = here, named'.lookup name = there at found
  cases found with
  | none => rfl
  | some own => exact steady _ _ own

@[simp] theorem steady_text? : Steady text? := by
  intro a b alike
  cases alike.reordered <;> rfl

@[simp] theorem steady_bool? : Steady bool? := by
  intro a b alike
  cases alike.reordered <;> rfl

@[simp] theorem steady_count? : Steady count? := by
  intro a b alike
  cases alike.reordered <;> rfl

@[simp] theorem steady_duration? : Steady duration? := fun a b alike => by
  rw [duration?, duration?, steady_text? a b alike]

theorem mapM_alike (steady : Steady read) {items items' : List Node}
    (each : List.Forall₂ Node.Alike items items') : items.mapM read = items'.mapM read := by
  induction each with
  | nil => rfl
  | cons head _ ih => rw [List.mapM_cons, List.mapM_cons, steady _ _ head, ih]

@[simp] theorem steady_texts? : Steady texts? := by
  intro a b alike
  cases alike.reordered with
  | list => exact mapM_alike steady_text? alike.list
  | _ => rfl

@[simp] theorem steady_option? (steady : Steady read) : Steady (option? read) := by
  intro a b alike
  have own := steady a b alike
  cases alike.reordered <;> simp only [option?, own]

theorem type?_of_length {fields : Fields} (several : fields.length ≠ 1) :
    type? (.map fields) = none := by
  match fields with
  | [] => rfl
  | [_] => exact absurd rfl several
  | (_, value) :: _ :: _ => cases value <;> rfl

@[simp] theorem steady_type? : Steady type? := by
  intro a b alike
  cases alike.reordered with
  | @map fields _ fields' =>
      obtain ⟨-, middle, each, perm⟩ := Node.alike_map_iff.mp alike
      have length_eq : fields.length = fields'.length := each.length_eq.trans perm.length_eq
      by_cases single : fields.length = 1
      · obtain ⟨⟨key, value⟩, rfl⟩ := List.length_eq_one_iff.mp single
        obtain ⟨⟨key', value'⟩, rfl⟩ := List.length_eq_one_iff.mp (length_eq ▸ single)
        obtain rfl := List.perm_singleton.mp perm
        obtain _ | ⟨⟨own, same⟩, _⟩ := each
        dsimp only at own same
        cases same.reordered with
        | null => simp only [type?, nameOf?_eq own]
        | _ => rfl
      · rw [type?_of_length single, type?_of_length (length_eq ▸ single)]
  | _ => rfl

@[simp] theorem steady_request? : Steady request? := by
  refine steady_fieldsOf? fun alike => ?_
  simp [need?_alike alike]

@[simp] theorem steady_command? : Steady command? := by
  refine steady_fieldsOf? fun alike => ?_
  simp [need?_alike alike, get?_alike alike]

theorem steady_config? : Steady config? := by
  refine steady_fieldsOf? fun alike => ?_
  simp [need?_alike alike, get?_alike alike]

@[simp] theorem read_orderless : Orderless Healthcheck.read := by
  intro a b alike
  have own := steady_config? a b alike
  cases alike.reordered <;> simp only [Healthcheck.read, own]

end Healthcheck

/-! Stages. -/

@[simp] theorem Php.Stage.read_orderless : Orderless Php.Stage.read := by
  refine orderless_record (by simp) fun alike => ?_
  simp [get_alike alike]

@[simp] theorem NodeJs.Stage.read_orderless : Orderless NodeJs.Stage.read := by
  refine orderless_record (by simp) fun alike => ?_
  refine toOption_bind_congr (get_alike alike (by simp) _ _) fun externalFiles => ?_
  refine toOption_bind_congr (get_alike alike (by simp) _ _) fun systemPackages => ?_
  refine toOption_bind_congr (get_alike alike (by simp) _ _) fun globalPackages => ?_
  refine toOption_bind_congr (get_alike alike (by simp) _ _) fun buildCommand => ?_
  refine toOption_bind_congr (get_alike alike (by simp) _ _) fun command => ?_
  refine bind_entries_alike alike orderless_text _ fun _ _ same => ?_
  simp [get_alike alike, same]

namespace DerivedStage

/-- What is taken out of a mapping before the rest is read. -/
theorem readParent_alike {node? node?' : Option Node} (alike : Option.Rel Node.Alike node? node?') :
    readParent node? = readParent node?' := by
  cases alike with
  | none => rfl
  | some own => cases own.reordered <;> rfl

theorem readDev_alike {node? node?' : Option Node} (alike : Option.Rel Node.Alike node? node?') :
    readDev node? = readDev node?' := by
  cases alike with
  | none => rfl
  | some own => cases own.reordered <;> rfl

theorem read_orderless {S : Type} [StageConfig S]
    (orderless : Orderless (StageConfig.read (S := S))) :
    Orderless (DerivedStage.read (S := S)) := by
  refine orderless_of_ok fun a b stage alike known => ?_
  obtain ⟨fields, unfolded, known⟩ := except_bind_ok.mp known
  obtain ⟨fields', unfolded', own⟩ := fields_alike alike unfolded
  refine except_bind_ok.mpr ⟨fields', unfolded', ?_⟩
  have parent := readParent_alike (Fields.find?_key_alike own "derive_from")
  have rest := Fields.remove_alike own "derive_from"
  have isDev := readDev_alike (Fields.find?_key_alike rest "dev")
  have rest := Fields.remove_alike rest "dev"
  simp only [Fields.take_eq, parent, isDev] at known ⊢
  rw [← toOption_eq_some_iff] at known ⊢
  rw [← known]
  simp [orderless _ _ rest]

end DerivedStage

@[simp] theorem StageSet.read_orderless {S : Type} [StageConfig S]
    (orderless : Orderless (StageConfig.read (S := S))) : Orderless (StageSet.read (S := S)) := by
  intro a b alike
  have own := orderless_ofList (DerivedStage.read_orderless orderless) a b alike
  simpa [StageSet.read] using own

@[simp] theorem Php.Params.read_orderless : Orderless Php.Params.read := by
  have stages : Orderless (StageSet.read (S := Php.Stage)) :=
    StageSet.read_orderless Php.Stage.read_orderless
  refine orderless_record (by simp [stages]) fun alike => ?_
  simp [get_alike alike, stages]

@[simp] theorem NodeJs.Params.read_orderless : Orderless NodeJs.Params.read := by
  have stages : Orderless (StageSet.read (S := NodeJs.Stage)) :=
    StageSet.read_orderless NodeJs.Stage.read_orderless
  refine orderless_record (by simp [stages]) fun alike => ?_
  simp [get_alike alike, stages]

/-! Definitions. -/

namespace Definition

/-- Definitions of one kind with configurations and locks that are equal but for the order. -/
structure Reordered (d d' : Definition) : Prop where
  kind : d.kind = d'.kind
  config : (Node.map d.config).Reordered (.map d'.config)
  locks : (Node.map d.locks).Reordered (.map d'.locks)

/-- No mapping of the configuration or of the locks has two keys of one name. -/
structure Unambiguous (d : Definition) : Prop where
  config : (Node.map d.config).Unambiguous
  locks : (Node.map d.locks).Unambiguous

/-- Definitions that say the same. -/
structure Alike (d d' : Definition) : Prop where
  kind : d.kind = d'.kind
  config : (Node.map d.config).Alike (.map d'.config)
  locks : (Node.map d.locks).Alike (.map d'.locks)

variable {α : Type} {read : Reader α} {d d' : Definition}

theorem Reordered.alike (reordered : d.Reordered d') (clear : d.Unambiguous) : d.Alike d' :=
  ⟨reordered.kind, ⟨reordered.config, clear.config⟩, ⟨reordered.locks, clear.locks⟩⟩

theorem Alike.symm (alike : d.Alike d') : d'.Alike d :=
  ⟨alike.kind.symm, alike.config.symm, alike.locks.symm⟩

theorem decode_alike (orderless : Orderless read) (what : String)
    (alike : (Node.map fields).Alike (.map fields')) :
    (decode what read fields).toOption = (decode what read fields').toOption := by
  have same (fields : Fields) :
      (decode what read fields).toOption = (read (.map fields)).toOption := by
    unfold decode
    cases read (.map fields) <;> rfl
  rw [same, same, orderless _ _ alike]

theorem decodeLocks_alike (orderless : Orderless read) (absent : α)
    (alike : (Node.map fields).Alike (.map fields')) :
    (decodeLocks read absent fields).toOption = (decodeLocks read absent fields').toOption := by
  have own := Fields.remove_alike (Fields.remove_alike alike hashField) webserverField
  unfold decodeLocks
  simp only [Fields.isEmpty_alike own]
  split
  · rfl
  · exact decode_alike orderless _ own

theorem nestedFields_alike (alike : (Node.map fields).Alike (.map fields')) (name : String) :
    (Node.map (nestedFields fields name)).Alike (.map (nestedFields fields' name)) := by
  have found := Fields.find?_key_alike alike name
  unfold nestedFields
  generalize fields.find? name = here, fields'.find? name = there at found
  cases found with
  | none => exact Node.alike_nil
  | some own =>
      cases own.reordered with
      | map => exact own
      | _ => exact Node.alike_nil

theorem Alike.webserver (alike : d.Alike d') : d.webserver.Alike d'.webserver :=
  ⟨rfl, nestedFields_alike alike.config webserverField,
    nestedFields_alike alike.locks webserverField⟩

end Definition

theorem Php.Definition.ofDefinition_alike {d d' : ImageLock.Definition} (alike : d.Alike d') :
    (ofDefinition d).toOption = (ofDefinition d').toOption := by
  obtain ⟨taken, left⟩ := Fields.takeAll_alike
    (Fields.remove_alike alike.config ImageLock.Definition.webserverField) Params.names (by decide)
  unfold ofDefinition
  dsimp only
  refine toOption_bind_congr (toOption_mapError_congr
    (ImageLock.Definition.decode_alike Params.read_orderless _ taken)) fun params => ?_
  refine toOption_bind_congr (toOption_mapError_congr
    (ImageLock.Definition.decode_alike Stage.read_orderless _ left)) fun base => ?_
  refine toOption_bind_congr rfl fun named => ?_
  refine toOption_bind_congr rfl fun _ => ?_
  refine toOption_bind_congr rfl fun _ => ?_
  exact toOption_bind_congr (toOption_mapError_congr
    (ImageLock.Definition.decodeLocks_alike Locks.read_orderless _ alike.locks)) fun _ => rfl

theorem NodeJs.Definition.ofDefinition_alike {d d' : ImageLock.Definition} (alike : d.Alike d') :
    (ofDefinition d).toOption = (ofDefinition d').toOption := by
  obtain ⟨taken, left⟩ := Fields.takeAll_alike
    (Fields.remove_alike alike.config ImageLock.Definition.webserverField) Params.names (by decide)
  unfold ofDefinition
  dsimp only
  refine toOption_bind_congr (toOption_mapError_congr
    (ImageLock.Definition.decode_alike Params.read_orderless _ taken)) fun params => ?_
  refine toOption_bind_congr (toOption_mapError_congr
    (ImageLock.Definition.decode_alike Stage.read_orderless _ left)) fun base => ?_
  split
  · rfl
  · refine toOption_bind_congr rfl fun _ => ?_
    exact toOption_bind_congr (toOption_mapError_congr
      (ImageLock.Definition.decodeLocks_alike Locks.read_orderless _ alike.locks)) fun _ => rfl

theorem Webserver.Definition.ofDefinition_alike {d d' : ImageLock.Definition}
    (alike : d.Alike d') : (ofDefinition d).toOption = (ofDefinition d').toOption := by
  unfold ofDefinition
  refine toOption_bind_congr (toOption_mapError_congr
    (ImageLock.Definition.decode_alike read_orderless _ alike.config)) fun _ => ?_
  exact toOption_bind_congr (toOption_mapError_congr
    (ImageLock.Definition.decodeLocks_alike Locks.read_orderless _ alike.locks)) fun _ => rfl

/-! What is made of definitions. -/

/-- A program that begins with what is read, and succeeds if it is read at all. -/
theorem Act.after_of_toOption {ε ε' α β γ : Type} {step step' : Except ε α}
    {next : α → Act ε β} {wrap : ε → ε'} {write : β → γ}
    (same : step.toOption = step'.toOption) {first last : Trail} {result : γ}
    (done : (do return write (← (Act.ofExcept step >>= next).mapError wrap) : Act ε' γ).after
      first = (.ok result, last)) :
    (do return write (← (Act.ofExcept step' >>= next).mapError wrap) : Act ε' γ).after
      first = (.ok result, last) := by
  obtain ⟨made, later, known, rest⟩ := Act.bind_ok.mp done
  obtain ⟨value, middle, known, own⟩ := Act.bind_ok.mp (Act.mapError_ok.mp known)
  obtain ⟨read, rfl⟩ := Act.ofExcept_ok.mp known
  rw [← toOption_eq_some_iff, same, toOption_eq_some_iff] at read
  refine Act.bind_ok.mpr ⟨made, later, Act.mapError_ok.mpr (Act.bind_ok.mpr ?_), rest⟩
  exact ⟨value, middle, Act.ofExcept_ok.mpr ⟨read, rfl⟩, own⟩

theorem Kind.lock_alike {d d' : Definition} (alike : d.Alike d') (kind : Kind) (world : World)
    (request : Request) (refresh : Refresh) {first last : Trail} {written : Fields}
    (done : (kind.lock world request refresh d).after first = (.ok written, last)) :
    (kind.lock world request refresh d').after first = (.ok written, last) := by
  cases kind with
  | php => exact Act.after_of_toOption (Php.Definition.ofDefinition_alike alike) done
  | nodeJs => exact Act.after_of_toOption (NodeJs.Definition.ofDefinition_alike alike) done
  | webserver => exact Act.after_of_toOption (Webserver.Definition.ofDefinition_alike alike) done

theorem Update.locks_alike {d d' : Definition} (alike : d.Alike d') (world : World)
    (request : Request) (refresh : Refresh) {first last : Trail} {written : Fields}
    (done : (locks Kind.registry world request refresh d).after first = (.ok written, last)) :
    (locks Kind.registry world request refresh d').after first = (.ok written, last) := by
  have holds : holdsWebserver Kind.registry d = holdsWebserver Kind.registry d' := by
    rw [holdsWebserver, holdsWebserver, alike.kind, Fields.has_alike alike.config]
  unfold locks at done ⊢
  rw [alike.kind, holds] at done
  obtain ⟨kind, middle, known, done⟩ := Act.bind_ok.mp done
  refine Act.bind_ok.mpr ⟨kind, middle, known, ?_⟩
  obtain ⟨own, later, locked, done⟩ := Act.bind_ok.mp done
  refine Act.bind_ok.mpr ⟨own, later, Act.mapError_ok.mpr
    (Kind.lock_alike alike kind world request refresh (Act.mapError_ok.mp locked)), ?_⟩
  split at done
  next held =>
    rw [if_pos held]
    obtain ⟨serverKind, middle, known, done⟩ := Act.bind_ok.mp done
    refine Act.bind_ok.mpr ⟨serverKind, middle, known, ?_⟩
    obtain ⟨server, later, locked, done⟩ := Act.bind_ok.mp done
    exact Act.bind_ok.mpr ⟨server, later, Act.mapError_ok.mpr (Kind.lock_alike alike.webserver
      serverKind world request refresh (Act.mapError_ok.mp locked)), done⟩
  next plain =>
    rw [if_neg plain]
    exact done

namespace Definition

/-- Where no mapping has two keys of one name, the order of keys is of no account: a definition
is read as the same value in any order, or refused in any. So its stages are resolved and locked
alike in every world, and an update writes the same, the hash of the definition apart. -/
theorem Reordered.meaning {d d' : Definition} (reordered : d.Reordered d')
    (clear : d.Unambiguous) :
    (∀ php, Php.Definition.ofDefinition d = .ok php ↔ Php.Definition.ofDefinition d' = .ok php) ∧
    (∀ nodeJs, NodeJs.Definition.ofDefinition d = .ok nodeJs ↔
      NodeJs.Definition.ofDefinition d' = .ok nodeJs) ∧
    (∀ php, Php.Definition.ofDefinition d = .ok php → ∀ world request refresh,
      Php.resolve world request d = Php.resolve world request d' ∧
      Php.lockDefinition world request refresh d = Php.lockDefinition world request refresh d') ∧
    (∀ nodeJs, NodeJs.Definition.ofDefinition d = .ok nodeJs → ∀ world request refresh,
      NodeJs.config request d = NodeJs.config request d' ∧
      NodeJs.lockDefinition world refresh d = NodeJs.lockDefinition world refresh d') ∧
    ∀ world request refresh first written last,
      (Update.locks Kind.registry world request refresh d).after first = (.ok written, last) ↔
      (Update.locks Kind.registry world request refresh d').after first = (.ok written, last) := by
  have alike : d.Alike d' := reordered.alike clear
  have php (php : Php.Definition) : Php.Definition.ofDefinition d = .ok php ↔
      Php.Definition.ofDefinition d' = .ok php := by
    rw [← toOption_eq_some_iff, Php.Definition.ofDefinition_alike alike, toOption_eq_some_iff]
  have nodeJs (nodeJs : NodeJs.Definition) : NodeJs.Definition.ofDefinition d = .ok nodeJs ↔
      NodeJs.Definition.ofDefinition d' = .ok nodeJs := by
    rw [← toOption_eq_some_iff, NodeJs.Definition.ofDefinition_alike alike, toOption_eq_some_iff]
  refine ⟨php, nodeJs, ?_, ?_, ?_⟩
  · intro own known world request refresh
    have known' := (php own).mp known
    exact ⟨by rw [Php.resolve, Php.resolve, known, known'],
      by rw [Php.lockDefinition, Php.lockDefinition, known, known']⟩
  · intro own known world request refresh
    have known' := (nodeJs own).mp known
    exact ⟨by rw [NodeJs.config, NodeJs.config, known, known'],
      by rw [NodeJs.lockDefinition, NodeJs.lockDefinition, known, known']⟩
  · intro world request refresh first written last
    exact ⟨Update.locks_alike alike world request refresh,
      Update.locks_alike alike.symm world request refresh⟩

/-- Fields in their order, or the other way round. -/
def inOrder (turned : Bool) (fields : List (String × Node)) : Fields :=
  named (if turned then fields.reverse else fields)

theorem reordered_inOrder {fields fields' : List (String × Node)}
    (each : List.Forall₂ (fun e e' => e.1 = e'.1 ∧ e.2.Reordered e'.2) fields fields') :
    (Node.map (inOrder false fields)).Reordered (.map (inOrder true fields')) := by
  refine Node.reordered_map_iff.mpr ⟨named fields', ?_, (List.reverse_perm fields').symm.map _⟩
  induction each with
  | nil => exact .nil
  | @cons e e' _ _ head _ ih =>
      obtain ⟨name, value⟩ := e
      obtain ⟨name', value'⟩ := e'
      obtain ⟨rfl, own⟩ := head
      exact .cons ⟨.text name, own⟩ ih

theorem unambiguous_inOrder {fields : List (String × Node)} (once : (fields.map (·.1)).Nodup)
    (each : ∀ e ∈ fields, e.2.Unambiguous) :
    (Node.map (inOrder false fields)).Unambiguous := by
  have names_eq : Fields.names (inOrder false fields) = fields.map (·.1) := by
    simp [Fields.names, inOrder, named, List.filterMap_map, Function.comp_def]
  refine .map (names_eq ▸ once) fun e member => ?_
  obtain ⟨own, inside, rfl⟩ := List.mem_map.mp member
  exact each own inside

/-- A project with an order of keys at every depth. -/
def project (turned : Bool) : Definition where
  kind := "php"
  config := inOrder turned [("version", .text "7.4"),
    ("extensions", .map (inOrder turned [("redis", .text "~5.1"), ("apcu", .text "*")])),
    ("stages", .map (inOrder turned [
      ("worker", .map (inOrder turned [("derive_from", .text "prod"), ("fpm", .bool false)])),
      ("dev", .map (inOrder turned [("sources", .texts ["src/", "tests/"])]))]))]
  locks := inOrder turned [("base_image", .text "php@sha256:00"), ("defhash", .text "00")]

/-- The project is read as one definition, and locked as one. -/
theorem meaning_project :
    (project false).Reordered (project true) ∧ (project false).Unambiguous ∧
    ∃ php, Php.Definition.ofDefinition (project false) = .ok php ∧
      Php.Definition.ofDefinition (project true) = .ok php ∧
      ∀ world request refresh, Php.lockDefinition world request refresh (project false) =
        Php.lockDefinition world request refresh (project true) := by
  have reordered : (project false).Reordered (project true) := by
    refine ⟨rfl, reordered_inOrder ?_, reordered_inOrder ?_⟩
    · refine .cons ⟨rfl, .text _⟩ (.cons ⟨rfl, reordered_inOrder ?_⟩
        (.cons ⟨rfl, reordered_inOrder ?_⟩ .nil))
      · exact .cons ⟨rfl, .text _⟩ (.cons ⟨rfl, .text _⟩ .nil)
      · refine .cons ⟨rfl, reordered_inOrder ?_⟩ (.cons ⟨rfl, reordered_inOrder ?_⟩ .nil)
        · exact .cons ⟨rfl, .text _⟩ (.cons ⟨rfl, .bool _⟩ .nil)
        · exact .cons ⟨rfl, .refl _⟩ .nil
    · exact .cons ⟨rfl, .text _⟩ (.cons ⟨rfl, .text _⟩ .nil)
  have clear : (project false).Unambiguous := by
    have sources : (Node.texts ["src/", "tests/"]).Unambiguous :=
      .list (by simpa using ⟨.text _, .text _⟩)
    constructor
    all_goals
      refine unambiguous_inOrder (by decide) ?_
      simp only [List.forall_mem_cons, List.not_mem_nil, false_imp_iff, implies_true, and_true]
    · refine ⟨.text _, unambiguous_inOrder (by decide) ?_, unambiguous_inOrder (by decide) ?_⟩
      · simpa using ⟨.text _, .text _⟩
      · simp only [List.forall_mem_cons, List.not_mem_nil, false_imp_iff, implies_true, and_true]
        refine ⟨unambiguous_inOrder (by decide) ?_, unambiguous_inOrder (by decide) ?_⟩
        · simpa using ⟨.text _, .bool _⟩
        · simpa using sources
    · exact ⟨.text _, .text _⟩
  have read : (Php.Definition.ofDefinition (project false)).toOption.isSome = true := by
    decide +kernel
  obtain ⟨php, known⟩ := Option.isSome_iff_exists.mp read
  have known := toOption_eq_some_iff.mp known
  obtain ⟨same, -, locked, -, -⟩ := reordered.meaning clear
  exact ⟨reordered, clear, php, known, (same php).mp known,
    fun world request refresh => (locked php known world request refresh).2⟩

/-- Two versions of one package, the first under a name with a tag. -/
def versions (turned : Bool) : Fields :=
  let entries : Fields :=
    [(.tagged "a" (.text "redis"), .text "1.0"), (.text "redis", .text "2.0")]
  if turned then entries.reverse else entries

/-- The keys of the versions differ, and are one name to the reader. -/
def ambiguous (turned : Bool) : Definition :=
  ⟨"php", named [("version", .text "7.4"), ("extensions", .map (versions turned))], []⟩

/-- Keys that differ in a tag: the later of them counts, so that the order does. -/
theorem tagged_keys_are_ordered :
    (ambiguous false).Reordered (ambiguous true) ∧
    (versions false).Distinct ∧ (ambiguous false).config.Distinct ∧
    ∃ php php', Php.Definition.ofDefinition (ambiguous false) = .ok php ∧
      Php.Definition.ofDefinition (ambiguous true) = .ok php' ∧
      php.baseStage.extensions.get? "redis" = some "2.0" ∧
      php'.baseStage.extensions.get? "redis" = some "1.0" := by
  have extensions : (Node.map (versions false)).Reordered (.map (versions true)) :=
    Node.reordered_map_iff.mpr
      ⟨versions false, Node.Reordered.refl_fields _, (List.reverse_perm _).symm⟩
  have config : (Node.map (ambiguous false).config).Reordered (.map (ambiguous true).config) :=
    Node.reordered_map_iff.mpr ⟨(ambiguous true).config,
      .cons ⟨.text _, .text _⟩ (.cons ⟨.text _, extensions⟩ .nil), .refl _⟩
  have reads (turned : Bool) : ∃ php, Php.Definition.ofDefinition (ambiguous turned) = .ok php ∧
      php.baseStage.extensions.get? "redis" = some (if turned then "1.0" else "2.0") := by
    have passes : (Php.Definition.ofDefinition (ambiguous turned)).toOption.any (fun php =>
        php.baseStage.extensions.get? "redis" ==
          some (if turned then "1.0" else "2.0")) = true := by
      cases turned <;> decide +kernel
    obtain ⟨php, known, version⟩ := (Option.any_eq_true _ _).mp passes
    exact ⟨php, toOption_eq_some_iff.mp known, eq_of_beq version⟩
  obtain ⟨php, known, version⟩ := reads false
  obtain ⟨php', known', version'⟩ := reads true
  refine ⟨⟨rfl, config, .refl _⟩, ?_, ?_, php, php', known, known', version, version'⟩
  · unfold Fields.Distinct
    decide
  · unfold Fields.Distinct
    decide

end Definition
end ImageLock
