/-
Stages that are written read back, with the parents that they are derived from.

A record is told by its slots: each of its fields in order, with what is written
for it. What is left out has to be what the reader puts there by itself.
-/
import ImageLock.Php.Stage
import ImageLock.Proofs.DurationText
import ImageLock.Proofs.WrittenLocks

namespace ImageLock

/-! Records by their slots. -/

namespace Decode

variable {α β : Type}

/-- The fields of a record, and what is written for those that are. -/
abbrev Slots := List (String × Option Node)

def present (slots : Slots) : List (String × Node) :=
  slots.flatMap fun slot => Node.optional slot.1 slot.2

/-- What a reader makes of a slot, or the value that stands for nothing. -/
def Fills (read : Reader α) (absent value : α) : Option Node → Prop
  | some node => read node = .ok value
  | none => value = absent

/-- Whether a field of a record takes what is in its slot. -/
structure Takes (field : Field) (slot : String × Option Node) : Prop where
  name : field.name = slot.1
  check : ∀ node, slot.2 = some node → field.check node = .ok ()
  filled : field.isRequired = true → slot.2.isSome = true

theorem Takes.required {read : Reader α} {node : Node} {value : α} {name : String}
    (reads : read node = .ok value) : Takes (required name read) (name, some node) := by
  refine ⟨rfl, ?_, fun _ => rfl⟩
  rintro _ ⟨⟩
  exact required_check name reads

theorem Takes.optional {read : Reader α} {absent value : α} {name : String} {slot : Option Node}
    (fills : Fills read absent value slot) : Takes (optional name read) (name, slot) := by
  refine ⟨rfl, ?_, nofun⟩
  rintro node rfl
  exact optional_check name fills

@[simp] theorem present_nil : present [] = [] := rfl

@[simp] theorem present_cons (name : String) (slot : Option Node) (slots : Slots) :
    present ((name, slot) :: slots) = Node.optional name slot ++ present slots := rfl

theorem mem_present {slots : Slots} {e : String × Node} :
    e ∈ present slots ↔ (e.1, some e.2) ∈ slots := by
  obtain ⟨name, node⟩ := e
  induction slots with
  | nil => simp
  | cons slot rest ih =>
      obtain ⟨other, written⟩ := slot
      cases written with
      | none => simp [Node.optional, ih]
      | some there => simp [Node.optional, ih]

theorem names_present_sublist (slots : Slots) :
    ((present slots).map (·.1)).Sublist (slots.map (·.1)) := by
  induction slots with
  | nil => exact .slnil
  | cons slot rest ih =>
      obtain ⟨name, written⟩ := slot
      cases written with
      | none => simpa [Node.optional] using ih.cons name
      | some there => simpa [Node.optional] using ih

theorem lookup_present {slots : Slots} (distinct : (slots.map (·.1)).Nodup) (name : String) :
    (present slots).lookup name = (slots.lookup name).join := by
  induction slots with
  | nil => rfl
  | cons slot rest ih =>
      obtain ⟨other, written⟩ := slot
      obtain ⟨fresh, distinct⟩ := List.nodup_cons.mp distinct
      by_cases here : name = other
      · subst here
        cases written with
        | none =>
            -- A field that is left out is not there under its name once more.
            have absent : (present rest).lookup name = none := by
              refine List.lookup_eq_none_iff.mpr fun e member => ?_
              refine bne_iff_ne.mpr fun same => fresh ?_
              exact (names_present_sublist rest).subset (List.mem_map.mpr ⟨e, member, same.symm⟩)
            simp [Node.optional, absent]
        | some there => simp [Node.optional]
      · have apart : (name == other) = false := beq_eq_false_iff_ne.mpr here
        rw [List.lookup_cons, apart, ← ih distinct]
        cases written <;> simp [Node.optional, List.lookup_cons, apart]

theorem find?_present {slots : Slots} (distinct : (slots.map (·.1)).Nodup) (name : String) :
    find? (named (present slots)) name = (slots.lookup name).join := by
  rw [find?_named, ← lookup_present distinct]
  induction present slots with
  | nil => rfl
  | cons e rest ih =>
      obtain ⟨other, value⟩ := e
      by_cases here : other = name
      · simp [here]
      · have apart : (name == other) = false := beq_eq_false_iff_ne.mpr (Ne.symm here)
        simp [here, List.lookup_cons, apart, ih]

theorem find?_known {known : List Field} {slots : Slots} (takes : List.Forall₂ Takes known slots)
    (distinct : (slots.map (·.1)).Nodup) {slot : String × Option Node} (member : slot ∈ slots) :
    ∃ field, known.find? (fun f => f.name == slot.1) = some field ∧ Takes field slot := by
  induction takes with
  | nil => cases member
  | @cons field own known slots head tail ih =>
      obtain ⟨fresh, distinct⟩ := List.nodup_cons.mp distinct
      rcases List.mem_cons.mp member with rfl | later
      · exact ⟨field, by simp [head.name], head⟩
      · obtain ⟨field', found, taken⟩ := ih distinct later
        have other : own.1 ≠ slot.1 := by
          intro same
          exact fresh (List.mem_map.mpr ⟨slot, later, same.symm⟩)
        exact ⟨field', by simp [head.name, other, found], taken⟩

/-- Nothing that is required is left out. -/
theorem exists_present {known : List Field} {slots : Slots}
    (takes : List.Forall₂ Takes known slots) {field : Field} (member : field ∈ known)
    (required : field.isRequired = true) : ∃ e ∈ present slots, e.1 = field.name := by
  induction takes with
  | nil => cases member
  | @cons own slot known slots head tail ih =>
      obtain ⟨name, written⟩ := slot
      rcases List.mem_cons.mp member with rfl | later
      · obtain ⟨node, rfl⟩ := Option.isSome_iff_exists.mp (head.filled required)
        exact ⟨(name, node), by simp [Node.optional], head.name.symm⟩
      · obtain ⟨e, there, same⟩ := ih later
        exact ⟨e, by simp [there], same⟩

/-- A record is read whose fields take what is in their slots. -/
theorem record_present {known : List Field} (slots : Slots)
    (distinct : (slots.map (·.1)).Nodup) (takes : List.Forall₂ Takes known slots) :
    record known (.record (present slots)) = .ok (named (present slots)) := by
  refine record_named ((names_present_sublist slots).nodup distinct) ?_ ?_
  · intro e member
    obtain ⟨field, found, taken⟩ := find?_known takes distinct (mem_present.mp member)
    exact ⟨field, found, taken.check e.2 rfl⟩
  · exact fun field member required => exists_present takes member required

theorem get_present {slots : Slots} (distinct : (slots.map (·.1)).Nodup) (name : String)
    {slot : Option Node} (there : slots.lookup name = some slot) {read : Reader α}
    {absent value : α} (fills : Fills read absent value slot) :
    get (named (present slots)) name read absent = .ok value := by
  have found := find?_present distinct name
  rw [get, found, there]
  cases slot with
  | none => exact congrArg _ fills.symm
  | some node => exact fills

theorem need_present {slots : Slots} (distinct : (slots.map (·.1)).Nodup) (name : String)
    {node : Node} (there : slots.lookup name = some (some node)) {read : Reader α} {value : α}
    (reads : read node = .ok value) : need (named (present slots)) name read = .ok value := by
  have found := find?_present distinct name
  rw [need, found, there]
  exact reads

/-! What fills a slot. -/

theorem fills_option {read : Reader α} {node : α → Node} (value : Option α)
    (reads : ∀ v ∈ value, read (node v) = .ok v) (content : ∀ v, node v ≠ .null) :
    Fills (option read) none value (value.map node) := by
  cases value with
  | none => rfl
  | some v => exact option_of_ne_null (reads v rfl) (content v)

theorem fills_text (value : Option String) :
    Fills (option text) none value (value.map .text) :=
  fills_option value (fun _ _ => text_text _) nofun

theorem fills_boolean (value : Option Bool) :
    Fills (option boolean) none value (value.map .bool) :=
  fills_option value (fun _ _ => rfl) nofun

theorem count_int {n : Nat} (fits : n < 0x100000000) : count (.int n) = .ok n := by
  have bound : (n : Int) < 0x100000000 := by omega
  simp [count, Node.untagged, bound]

theorem list_list {read : Reader α} {node : α → Node} {items : List α}
    (reads : ∀ item ∈ items, read (node item) = .ok item) :
    list read (.list (items.map node)) = .ok items := by
  change (items.map node).mapM read = .ok items
  induction items with
  | nil => rfl
  | cons item rest ih =>
      have tail := ih fun item member => reads item (List.mem_cons_of_mem _ member)
      rw [List.map_cons, List.mapM_cons, reads item List.mem_cons_self, tail]
      rfl

theorem list_texts (items : List String) : list text (.texts items) = .ok items :=
  list_list fun _ _ => rfl

end Decode

open Decode

/-! Files and healthchecks. -/

namespace ExternalFile

/-- A file whose mode is a number of 32 bits. -/
def Bounded (file : ExternalFile) : Prop := ∀ mode ∈ file.mode, mode < 0x100000000

def slots (file : ExternalFile) : Slots :=
  [("url", some (.text file.url)),
    ("compressed", if file.isCompressed then some (.bool true) else none),
    ("pattern", file.pattern.map .text), ("destination", some (.text file.destination)),
    ("checksum", file.checksum.map .text), ("mode", file.mode.map fun mode : Nat => .int mode),
    ("owner", file.owner.map .text)]

theorem toNode_eq (file : ExternalFile) : file.toNode = .record (present file.slots) := by
  obtain ⟨_, isCompressed, _, _, _, mode, _⟩ := file
  cases isCompressed <;> cases mode <;> simp [toNode, slots, Node.optional]

theorem read_toNode {file : ExternalFile} (bounded : file.Bounded) :
    read file.toNode = .ok file := by
  have url : text (.text file.url) = .ok file.url := rfl
  have isCompressed : Fills boolean false file.isCompressed
      (if file.isCompressed then some (.bool true) else none) := by
    cases file.isCompressed <;> rfl
  have pattern := fills_text file.pattern
  have destination : text (.text file.destination) = .ok file.destination := rfl
  have checksum := fills_text file.checksum
  have mode := fills_option file.mode (fun mode given => count_int (bounded mode given)) nofun
  have owner := fills_text file.owner
  have distinct : (file.slots.map (·.1)).Nodup := by simp [slots]
  have accepted := record_present file.slots distinct <| .cons (.required url) <|
    .cons (.optional isCompressed) <| .cons (.optional pattern) <|
    .cons (.required destination) <| .cons (.optional checksum) <| .cons (.optional mode) <|
    .cons (.optional owner) .nil
  simp only [read, toNode_eq, accepted, need_present distinct "url" rfl url,
    get_present distinct "compressed" rfl isCompressed,
    get_present distinct "pattern" rfl pattern,
    need_present distinct "destination" rfl destination,
    get_present distinct "checksum" rfl checksum, get_present distinct "mode" rfl mode,
    get_present distinct "owner" rfl owner, bind, Except.bind, pure, Except.pure]

end ExternalFile

namespace HealthcheckConfig

/-- A check whose times can be written, and whose retries are a number of 32 bits. -/
structure Bounded (c : HealthcheckConfig) : Prop where
  interval : c.interval.Bounded
  timeout : c.timeout.Bounded
  retries : c.retries < 0x100000000

end HealthcheckConfig

namespace Healthcheck

def Bounded : Healthcheck → Prop
  | .toggle _ => True
  | .config c => c.Bounded

theorem mapM_named {names : List String} {values : List (String × Node)}
    (known : ∀ e ∈ values, e.1 ∈ names) :
    (named values).mapM (fun e => do return (← nameOf? names e.1, e.2)) = some values := by
  induction values with
  | nil => rfl
  | cons e rest ih =>
      have own : nameOf? names (.text e.1) = some e.1 := by
        simp [nameOf?, known e List.mem_cons_self]
      have tail := ih fun e member => known e (List.mem_cons_of_mem _ member)
      rw [named] at tail ⊢
      rw [List.map_cons, List.mapM_cons, own, tail]
      rfl

theorem fieldsOf?_present {names : List String} {slots : Slots}
    (distinct : (slots.map (·.1)).Nodup) (known : ∀ slot ∈ slots, slot.1 ∈ names) :
    fieldsOf? names (.record (present slots)) = some (present slots) := by
  have once := (names_present_sublist slots).nodup distinct
  have own : ∀ e ∈ present slots, e.1 ∈ names := fun e member => known _ (mem_present.mp member)
  let unique (fields : List (String × Node)) : Option (List (String × Node)) :=
    if (fields.map (·.1)).Nodup then some fields else none
  have unfolded : fieldsOf? names (.record (present slots)) =
      ((named (present slots)).mapM fun (e : Node × Node) =>
        do return (← nameOf? names e.1, e.2)).bind unique :=
    rfl
  rw [unfolded, mapM_named own]
  exact if_pos once

theorem need?_present {slots : Slots} (distinct : (slots.map (·.1)).Nodup) (name : String)
    {node : Node} (there : slots.lookup name = some (some node)) {read : Read α} {value : α}
    (reads : read node = some value) : need? (present slots) name read = some value := by
  rw [need?, lookup_present distinct, there]
  exact reads

/-- What a reader makes of a slot, or the value that stands for nothing. -/
def Fills? (read : Read α) (absent value : α) : Option Node → Prop
  | some node => read node = some value
  | none => value = absent

theorem get?_present {slots : Slots} (distinct : (slots.map (·.1)).Nodup) (name : String)
    {slot : Option Node} (there : slots.lookup name = some slot) {read : Read α}
    {absent value : α} (fills : Fills? read absent value slot) :
    get? (present slots) name read absent = some value := by
  rw [get?, lookup_present distinct, there]
  cases slot with
  | none => exact congrArg some fills.symm
  | some node => exact fills

theorem fills_option? {read : Read α} {node : α → Node} (value : Option α)
    (reads : ∀ v, read (node v) = some v) (content : ∀ v, node v ≠ .null) :
    Fills? (option? read) none value (value.map node) := by
  cases value with
  | none => rfl
  | some v =>
      have filled := content v
      have own := reads v
      change option? read (node v) = some (some v)
      generalize node v = written at filled own
      cases written with
      | null => exact absurd rfl filled
      | _ => simp [option?, own]

@[simp] theorem text?_text (s : String) : text? (.text s) = some s := rfl

@[simp] theorem bool?_bool (b : Bool) : bool? (.bool b) = some b := rfl

theorem texts?_texts (items : List String) : texts? (.texts items) = some items := by
  change (items.map Node.text).mapM text? = some items
  induction items with
  | nil => rfl
  | cons item rest ih => rw [List.map_cons, List.mapM_cons, text?_text, ih]; rfl

theorem count?_int {n : Nat} (fits : n < 0x100000000) : count? (.int n) = some n := by
  have bound : (n : Int) < 0x100000000 := by omega
  simp [count?, bound]

theorem duration?_format {d : Duration} (bounded : d.Bounded) :
    duration? (.text d.format) = some d := Duration.parse?_format bounded

theorem type?_name (type : HealthcheckType) : type? (.text type.name) = some type := by
  cases type <;> rfl

theorem request?_requestNode (req : HealthcheckRequest) :
    request? (requestNode req) = some req := by
  let slots : Slots := [("path", some (.text req.path)), ("expected", some (.text req.expected))]
  have distinct : (slots.map (·.1)).Nodup := by simp [slots]
  have fields : fieldsOf? ["path", "expected"] (requestNode req) = some (present slots) :=
    fieldsOf?_present distinct (by simp [slots])
  simp [request?, fields, need?_present distinct "path" rfl (text?_text _),
    need?_present distinct "expected" rfl (text?_text _)]

theorem command?_commandNode (cmd : HealthcheckCommand) :
    command? (commandNode cmd) = some cmd := by
  let slots : Slots := [("shell", some (.bool cmd.isShell)), ("command", some (.texts cmd.command))]
  have distinct : (slots.map (·.1)).Nodup := by simp [slots]
  have fields : fieldsOf? ["shell", "command"] (commandNode cmd) = some (present slots) :=
    fieldsOf?_present distinct (by simp [slots])
  have isShell : Fills? bool? false cmd.isShell (some (.bool cmd.isShell)) := bool?_bool _
  simp [command?, fields, get?_present distinct "shell" rfl isShell,
    need?_present distinct "command" rfl (texts?_texts _)]

/-- The slots of a check. -/
def slots (c : HealthcheckConfig) : Slots :=
  [("type", some (.text c.type.name)), ("http", c.http.map requestNode),
    ("fcgi", c.fcgi.map requestNode), ("cmd", c.cmd.map commandNode),
    ("interval", some (.text c.interval.format)), ("timeout", some (.text c.timeout.format)),
    ("retries", some (.int c.retries))]

theorem configNode_eq (c : HealthcheckConfig) : configNode c = .record (present (slots c)) := by
  simp [configNode, slots, Node.optional]

theorem config?_configNode {c : HealthcheckConfig} (bounded : c.Bounded) :
    config? (configNode c) = some c := by
  obtain ⟨boundedInterval, boundedTimeout, boundedRetries⟩ := bounded
  have distinct : ((slots c).map (·.1)).Nodup := by simp [slots]
  have fields : fieldsOf? ["type", "http", "fcgi", "cmd", "interval", "timeout", "retries"]
      (configNode c) = some (present (slots c)) := by
    rw [configNode_eq]
    exact fieldsOf?_present distinct (by simp [slots])
  have http := fills_option? c.http request?_requestNode nofun
  have fcgi := fills_option? c.fcgi request?_requestNode nofun
  have cmd := fills_option? c.cmd command?_commandNode nofun
  have interval : Fills? duration? HealthcheckConfig.defaultInterval c.interval
      (some (.text c.interval.format)) := duration?_format boundedInterval
  have timeout : Fills? duration? HealthcheckConfig.defaultTimeout c.timeout
      (some (.text c.timeout.format)) := duration?_format boundedTimeout
  have retries : Fills? count? HealthcheckConfig.defaultRetries c.retries
      (some (.int c.retries)) := count?_int boundedRetries
  simp [config?, fields, need?_present distinct "type" rfl (type?_name _),
    get?_present distinct "http" rfl http, get?_present distinct "fcgi" rfl fcgi,
    get?_present distinct "cmd" rfl cmd, get?_present distinct "interval" rfl interval,
    get?_present distinct "timeout" rfl timeout, get?_present distinct "retries" rfl retries]

theorem read_toNode {check : Healthcheck} (bounded : check.Bounded) :
    read check.toNode = .ok check := by
  cases check with
  | toggle isOn => rfl
  | config c =>
      have read := config?_configNode bounded
      simp only [configNode, Node.record] at read
      simp only [toNode, configNode, Node.record, Healthcheck.read, read]

theorem toNode_ne_null (check : Healthcheck) : check.toNode ≠ .null := by
  cases check <;> nofun

end Healthcheck

/-! Stages. -/

theorem fills_texts (items : List String) : Fills (list text) [] items (some (.texts items)) :=
  list_texts items

theorem fills_versions (m : VersionMap) : Fills VersionMap.read .empty m (some m.toNode) :=
  m.read_toNode

theorem fills_files {files : List ExternalFile} (bounded : ∀ file ∈ files, file.Bounded) :
    Fills (list ExternalFile.read) [] files (some (.list (files.map (·.toNode)))) :=
  list_list fun file member => ExternalFile.read_toNode (bounded file member)

namespace Php

namespace ConfigFiles

def slots (files : ConfigFiles) : Slots :=
  [("php.ini", files.ini.map .text), ("fpm.conf", files.fpm.map .text)]

theorem toNode_eq (files : ConfigFiles) : files.toNode = .record (present files.slots) := by
  simp [toNode, slots]

theorem read_toNode (files : ConfigFiles) : read files.toNode = .ok files := by
  have ini := fills_text files.ini
  have fpm := fills_text files.fpm
  have distinct : (files.slots.map (·.1)).Nodup := by simp [slots]
  have accepted := record_present files.slots distinct <| .cons (.optional ini) <|
    .cons (.optional fpm) .nil
  simp only [read, toNode_eq, accepted, get_present distinct "php.ini" rfl ini,
    get_present distinct "fpm.conf" rfl fpm, bind, Except.bind, pure, Except.pure]

end ConfigFiles

namespace DumpFlags

def slots (flags : DumpFlags) : Slots :=
  [("apcu", some (.bool flags.apcu)),
    ("classmap_authoritative", some (.bool flags.authoritative))]

theorem toNode_eq (flags : DumpFlags) : flags.toNode = .record (present flags.slots) := rfl

theorem read_toNode (flags : DumpFlags) : read flags.toNode = .ok flags := by
  have apcu : Fills boolean false flags.apcu (some (.bool flags.apcu)) := rfl
  have authoritative : Fills boolean false flags.authoritative
      (some (.bool flags.authoritative)) := rfl
  have distinct : (flags.slots.map (·.1)).Nodup := by simp [slots]
  have accepted := record_present flags.slots distinct <| .cons (.optional apcu) <|
    .cons (.optional authoritative) .nil
  simp only [read, toNode_eq, accepted, get_present distinct "apcu" rfl apcu,
    get_present distinct "classmap_authoritative" rfl authoritative, bind, Except.bind, pure,
    Except.pure]

end DumpFlags

namespace Stage

/-- A stage whose numbers fit: those of its files, and those of its check. -/
structure Bounded (s : Stage) : Prop where
  files : ∀ file ∈ s.externalFiles, file.Bounded
  healthcheck : ∀ check ∈ s.healthcheck, check.Bounded

def slots (s : Stage) : Slots :=
  [("external_files", some (.list (s.externalFiles.map (·.toNode)))),
    ("system_packages", some s.systemPackages.toNode), ("fpm", s.fpm.map .bool),
    ("command", s.command.map .texts), ("extensions", some s.extensions.toNode),
    ("config_files", some s.configFiles.toNode), ("composer_dump", s.dumpFlags.map (·.toNode)),
    ("sources", some (.texts s.sources)), ("integrations", some (.texts s.integrations)),
    ("stateful_dirs", some (.texts s.statefulDirs)),
    ("healthcheck", s.healthcheck.map (·.toNode)), ("post_install", some (.texts s.postInstall))]

theorem toFields_eq (s : Stage) : s.toFields = present s.slots := by
  simp [toFields, slots, Node.optional]

theorem read_toFields {s : Stage} (bounded : s.Bounded) : read (.record s.toFields) = .ok s := by
  have files := fills_files bounded.files
  have systemPackages := fills_versions s.systemPackages
  have fpm := fills_boolean s.fpm
  have command := fills_option s.command (fun _ _ => list_texts _) nofun
  have extensions := fills_versions s.extensions
  have configFiles : Fills ConfigFiles.read .empty s.configFiles (some s.configFiles.toNode) :=
    s.configFiles.read_toNode
  have dumpFlags := fills_option s.dumpFlags (fun flags _ => flags.read_toNode) nofun
  have sources := fills_texts s.sources
  have integrations := fills_texts s.integrations
  have statefulDirs := fills_texts s.statefulDirs
  have healthcheck := fills_option s.healthcheck
    (fun check given => Healthcheck.read_toNode (bounded.healthcheck check given))
    Healthcheck.toNode_ne_null
  have postInstall := fills_texts s.postInstall
  have distinct : (s.slots.map (·.1)).Nodup := by simp [slots]
  have accepted := record_present s.slots distinct <| .cons (.optional files) <|
    .cons (.optional systemPackages) <| .cons (.optional fpm) <| .cons (.optional command) <|
    .cons (.optional extensions) <| .cons (.optional configFiles) <|
    .cons (.optional dumpFlags) <| .cons (.optional sources) <|
    .cons (.optional integrations) <| .cons (.optional statefulDirs) <|
    .cons (.optional healthcheck) <| .cons (.optional postInstall) .nil
  simp only [read, toFields_eq, accepted, get_present distinct "external_files" rfl files,
    get_present distinct "system_packages" rfl systemPackages, get_present distinct "fpm" rfl fpm,
    get_present distinct "command" rfl command, get_present distinct "extensions" rfl extensions,
    get_present distinct "config_files" rfl configFiles,
    get_present distinct "composer_dump" rfl dumpFlags,
    get_present distinct "sources" rfl sources,
    get_present distinct "integrations" rfl integrations,
    get_present distinct "stateful_dirs" rfl statefulDirs,
    get_present distinct "healthcheck" rfl healthcheck,
    get_present distinct "post_install" rfl postInstall, bind, Except.bind, pure, Except.pure]

end Stage
end Php

namespace NodeJs.Stage

/-- A stage whose files have modes that fit. -/
def Bounded (s : Stage) : Prop := ∀ file ∈ s.externalFiles, file.Bounded

def slots (s : Stage) : Slots :=
  [("external_files", some (.list (s.externalFiles.map (·.toNode)))),
    ("system_packages", some s.systemPackages.toNode),
    ("global_packages", some s.globalPackages.toNode), ("build_command", s.buildCommand.map .text),
    ("command", s.command.map .texts), ("config_files", some (filesNode s.configFiles)),
    ("sources", some (.texts s.sources)), ("stateful_dirs", some (.texts s.statefulDirs)),
    ("healthcheck", s.healthcheck.map .bool)]

theorem toFields_eq (s : Stage) : s.toFields = present s.slots := by
  simp [toFields, slots, Node.optional]

theorem read_toFields {s : Stage} (bounded : s.Bounded) : read (.record s.toFields) = .ok s := by
  have files := fills_files bounded
  have systemPackages := fills_versions s.systemPackages
  have globalPackages := fills_versions s.globalPackages
  have buildCommand := fills_text s.buildCommand
  have command := fills_option s.command (fun _ _ => list_texts _) nofun
  have configFiles : Fills (entries text) [] s.configFiles.entries
      (some (filesNode s.configFiles)) := by
    have reads := entries_record text Node.text id s.configFiles.entries fun _ _ => rfl
    simpa [filesNode, Fills] using reads
  have sources := fills_texts s.sources
  have statefulDirs := fills_texts s.statefulDirs
  have healthcheck := fills_boolean s.healthcheck
  have distinct : (s.slots.map (·.1)).Nodup := by simp [slots]
  have accepted := record_present s.slots distinct <| .cons (.optional files) <|
    .cons (.optional systemPackages) <| .cons (.optional globalPackages) <|
    .cons (.optional buildCommand) <| .cons (.optional command) <|
    .cons (.optional configFiles) <| .cons (.optional sources) <|
    .cons (.optional statefulDirs) <| .cons (.optional healthcheck) .nil
  simp only [read, toFields_eq, accepted, get_present distinct "external_files" rfl files,
    get_present distinct "system_packages" rfl systemPackages,
    get_present distinct "global_packages" rfl globalPackages,
    get_present distinct "build_command" rfl buildCommand,
    get_present distinct "command" rfl command,
    get_present distinct "config_files" rfl configFiles,
    get_present distinct "sources" rfl sources,
    get_present distinct "stateful_dirs" rfl statefulDirs,
    get_present distinct "healthcheck" rfl healthcheck, Names.ofList_entries, bind, Except.bind,
    pure, Except.pure]

end NodeJs.Stage

/-! Stages with what they derive from. -/

namespace Fields

/-- A field that is taken out leaves the others as they were, if at most one of
them is behind it. -/
theorem remove_between {name : String} {front back : Fields} (absent : front.has name = false)
    (short : back.length ≤ 1) (value : Node) :
    remove name (front ++ (.text name, value) :: back) = front ++ back := by
  induction front with
  | nil =>
      match back, short with
      | [], _ => simp [remove, Node.isText]
      | [e], _ => simp [remove, Node.isText]
  | cons e rest ih =>
      obtain ⟨head, tail⟩ : e.1.isText name = false ∧ has rest name = false := by
        simpa [has] using absent
      simp [remove, head, ih tail]

theorem take_between {name : String} {front back : Fields} (absent : front.has name = false)
    (absent' : back.has name = false) (short : back.length ≤ 1) (value : Option Node) :
    take (front ++ named (Node.optional name value) ++ back) name = (value, front ++ back) := by
  have before : List.find? (fun e => e.1.isText name) front = none := by
    simpa [has] using absent
  cases value with
  | none =>
      have behind : List.find? (fun e => e.1.isText name) back = none := by
        simpa [has] using absent'
      simp [take, find?, Node.optional, named, before, behind]
  | some value =>
      have split : front ++ named (Node.optional name (some value)) ++ back =
          front ++ (.text name, value) :: back := by simp [Node.optional, named]
      have own : (Node.text name).isText name = true := by simp [Node.isText]
      rw [split, take, remove_between absent short]
      simp [find?, before, own]

theorem has_named {values : List (String × Node)} {name : String}
    (other : ∀ e ∈ values, e.1 ≠ name) : has (named values) name = false := by
  simpa [has, named, Node.isText] using other

end Fields

namespace DerivedStage

variable {S : Type} [StageConfig S]

/-- The fields that derive a stage. -/
def ownNames : List String := ["derive_from", "dev"]

/-- A stage that reads back, and has none of the fields that derive it. -/
structure ReadsBack (stage : S) : Prop where
  reads : StageConfig.read (.record (StageConfig.toFields stage)) = .ok stage
  apart : ((StageConfig.toFields stage).map (·.1) ++ ownNames).Nodup

/-- The fields that derive a stage are taken out, whatever its own fields are. -/
theorem read_toNode {d : DerivedStage S} (readsBack : ReadsBack d.stage) :
    read d.toNode = .ok d := by
  obtain ⟨reads, apart⟩ := readsBack
  have own : ∀ e ∈ StageConfig.toFields d.stage, e.1 ≠ "derive_from" ∧ e.1 ≠ "dev" := by
    intro e member
    have other := (List.nodup_append.mp apart).2.2 e.1 (List.mem_map_of_mem member)
    exact ⟨other _ (by simp [ownNames]), other _ (by simp [ownNames])⟩
  obtain ⟨stage, parent, isDev⟩ := d
  let fields := named (StageConfig.toFields stage)
  let parentNode : Option Node := if parent.isEmpty then none else some (.text parent)
  let devFields := named (Node.optional "dev" (isDev.map .bool))
  have written : Decode.fields (toNode ⟨stage, parent, isDev⟩) =
      .ok (fields ++ named (Node.optional "derive_from" parentNode) ++ devFields) := by
    by_cases root : parent = "" <;>
      simp [toNode, fields, parentNode, devFields, root, Decode.fields, Node.record, Node.untagged,
        named, Node.optional]
  have noParent : fields.has "derive_from" = false :=
    Fields.has_named fun e member => (own e member).1
  have noDev : fields.has "dev" = false := Fields.has_named fun e member => (own e member).2
  have behind : devFields.has "derive_from" = false := by cases isDev <;> rfl
  have short : devFields.length ≤ 1 := by cases isDev <;> simp [devFields, Node.optional, named]
  have parentTaken := Fields.take_between noParent behind short parentNode
  have devTaken : Fields.take (fields ++ devFields) "dev" = (isDev.map .bool, fields) := by
    have last : Fields.has [] "dev" = false := rfl
    simpa [devFields] using Fields.take_between noDev last (Nat.zero_le 1) (isDev.map Node.bool)
  have parentRead : readParent parentNode = .ok parent := by
    by_cases root : parent = "" <;> simp [parentNode, root, readParent]
  have devRead : readDev (isDev.map .bool) = .ok isDev := by cases isDev <;> rfl
  have stageRead : StageConfig.read (.map fields) = .ok stage := reads
  simp only [read, written, parentTaken, parentRead, devTaken, devRead, stageRead, bind,
    Except.bind, pure, Except.pure]

end DerivedStage

/-! Sets of stages. -/

namespace StageSet

variable {S : Type} [StageConfig S]

theorem read_toNode_of_stages {set : StageSet S}
    (readsBack : ∀ e ∈ set.entries, DerivedStage.ReadsBack e.2.stage) :
    read set.toNode = .ok set := by
  have entries := entries_record DerivedStage.read DerivedStage.toNode id set.entries
    fun e member => DerivedStage.read_toNode (readsBack e member)
  rw [read, toNode, entries]
  exact congrArg Except.ok (by simp [Names.ofList_entries])

end StageSet

theorem names_nodup_of_slots {slots : Slots} {names : List String}
    (distinct : (slots.map (·.1) ++ names).Nodup) :
    ((present slots).map (·.1) ++ names).Nodup :=
  ((names_present_sublist slots).append_right names).nodup distinct

theorem Php.Stage.names_nodup (s : Php.Stage) :
    (s.toFields.map (·.1) ++ DerivedStage.ownNames).Nodup := by
  rw [toFields_eq]
  exact names_nodup_of_slots (by simp [slots, DerivedStage.ownNames])

theorem NodeJs.Stage.names_nodup (s : NodeJs.Stage) :
    (s.toFields.map (·.1) ++ DerivedStage.ownNames).Nodup := by
  rw [toFields_eq]
  exact names_nodup_of_slots (by simp [slots, DerivedStage.ownNames])

/-- Sets of stages read back as they were written: the fields of a stage are never
those that derive it, and what is left out stands for what it was. -/
theorem StageSet.read_written :
    (∀ s : Php.Stage, (s.toFields.map (·.1) ++ DerivedStage.ownNames).Nodup) ∧
    (∀ set : StageSet Php.Stage, (∀ e ∈ set.entries, e.2.stage.Bounded) →
      StageSet.read set.toNode = .ok set) ∧
    (∀ s : NodeJs.Stage, (s.toFields.map (·.1) ++ DerivedStage.ownNames).Nodup) ∧
    ∀ set : StageSet NodeJs.Stage, (∀ e ∈ set.entries, e.2.stage.Bounded) →
      StageSet.read set.toNode = .ok set := by
  refine ⟨Php.Stage.names_nodup, fun set bounded => ?php, NodeJs.Stage.names_nodup,
    fun set bounded => ?nodeJs⟩
  case php =>
    refine read_toNode_of_stages fun e member => ⟨?_, Php.Stage.names_nodup _⟩
    exact Php.Stage.read_toFields (bounded e member)
  case nodeJs =>
    refine read_toNode_of_stages fun e member => ⟨?_, NodeJs.Stage.names_nodup _⟩
    exact NodeJs.Stage.read_toFields (bounded e member)

def checkedEachMinute : HealthcheckConfig :=
  ⟨.cmd, none, none, some ⟨true, ["pidof", "php"]⟩, ⟨90, 5⟩, .ofSeconds 1, 3⟩

/-- A worker with a check of its own, and without any extensions. -/
def worker : DerivedStage Php.Stage :=
  ⟨{ Php.Stage.empty with
      fpm := some false
      extensions := .nil
      externalFiles :=
        [⟨"https://blackfire.io/api/v1/releases/probe/php/linux/amd64", true, none, "/probe", none,
          some 0o644, none⟩]
      healthcheck := some (.config checkedEachMinute) }, "dev", some false⟩

def assets : DerivedStage NodeJs.Stage :=
  ⟨{ NodeJs.Stage.empty with
      healthcheck := some false
      configFiles := Names.ofList [("app.json", "config/app.json")] }, "", none⟩

theorem StageSet.read_written_worker :
    StageSet.read (toNode (Names.ofList [("worker", worker)])) =
        .ok (Names.ofList [("worker", worker)]) ∧
      StageSet.read (toNode (Names.ofList [("assets", assets)])) =
        .ok (Names.ofList [("assets", assets)]) := by
  obtain ⟨_, php, _, nodeJs⟩ := StageSet.read_written
  refine ⟨php _ fun e member => ?_, nodeJs _ fun e member => ?_⟩
  · rw [List.mem_singleton.mp member]
    refine ⟨?files, ?check⟩
    case files =>
      intro file given mode there
      rw [List.mem_singleton.mp given] at there
      obtain rfl : 0o644 = mode := Option.some.inj there
      decide
    case check =>
      intro check there
      obtain rfl : Healthcheck.config checkedEachMinute = check := Option.some.inj there
      exact ⟨⟨by decide, by decide⟩, ⟨by decide, by decide⟩, by decide⟩
  · rw [List.mem_singleton.mp member]
    exact nofun

end ImageLock
