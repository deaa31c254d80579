/-
What a stage inherits. The stage that a chain makes of its base is told from what the
definition declares, level by level: an option is that of the most derived level that
sets it, a list joins the lists of all levels from the base on, and a map has under each
name what the most derived level with that name has.
-/
import ImageLock.Proofs.ChainWalk
import ImageLock.Proofs.NothingIgnored
import ImageLock.Proofs.PackageVersions

namespace ImageLock

/-! Maps. -/

namespace VersionMap

/-- A map that is given, and has under each name what the first of the maps with that name
has. -/
structure Gathers (m : VersionMap) (maps : List VersionMap) : Prop where
  given : m ≠ nil
  entries : ∀ name, m.get? name = maps.findSome? (·.get? name)

end VersionMap

/-! Stages that are there by default. -/

namespace StageSet

variable {S : Type}

/-- The flags of the stages that are there by default. -/
def builtIn? (name : String) : Option Bool :=
  if name = "dev" then some true else if name = "prod" then some false else none

theorem find?_defaults (silent : S) (name : String) :
    (Names.ofList [("dev", ⟨silent, baseName, some true⟩),
      ("prod", ⟨silent, baseName, some false⟩)] : StageSet S).find? name =
    (builtIn? name).map fun isDev => ⟨silent, baseName, some isDev⟩ := by
  have two : (Names.ofList [("dev", ⟨silent, baseName, some true⟩),
      ("prod", ⟨silent, baseName, some false⟩)] : StageSet S) =
    (Names.empty.insert "dev" ⟨silent, baseName, some true⟩).insert "prod"
      ⟨silent, baseName, some false⟩ := rfl
  rw [two, Names.find?_insert, Names.find?_insert, Names.find?_empty, builtIn?]
  by_cases isDev : name = "dev"
  · simp [isDev]
  · by_cases isProd : name = "prod"
    · simp [isProd]
    · simp [isDev, isProd, Ne.symm isDev, Ne.symm isProd]

end StageSet

section

variable {S : Type} [StageConfig S] {α : Type} {given : S → Prop}

/-! Fields, and the rules that join them. -/

/-- Above a stage whose maps are given, an option counts where it is set. -/
def Overrides (given : S → Prop) (field : S → Option α) : Prop :=
  ∀ below above, given below →
    field (StageConfig.merge below above) = (field above).or (field below)

/-- A list comes after the one below. -/
def Appends (field : S → List α) : Prop :=
  ∀ below above, field (StageConfig.merge below above) = field below ++ field above

/-- What is given stays given, whatever comes above it. -/
def Stays (given : S → Prop) : Prop :=
  ∀ below above, given below → given (StageConfig.merge below above)

namespace StageSet

variable {silent ground base : S} {defaults declared : StageSet S}

theorem given_mergeChain (stays : Stays given) (start : given base)
    (chain : List (DerivedStage S)) : given (mergeChain base chain).stage := by
  induction chain with
  | nil => exact start
  | cons derived rest ih =>
      rw [mergeChain_cons]
      exact stays _ _ ih

theorem mergeChain_overrides {field : S → Option α} (rule : Overrides given field)
    (stays : Stays given) (start : given base) (chain : List (DerivedStage S)) :
    field (mergeChain base chain).stage =
      (chain.findSome? fun derived => field derived.stage).or (field base) := by
  induction chain with
  | nil => rfl
  | cons derived rest ih =>
      rw [mergeChain_cons, rule _ _ (given_mergeChain stays start rest), ih, List.findSome?_cons]
      cases field derived.stage <;> rfl

theorem mergeChain_appends {field : S → List α} (rule : Appends field) (base : S)
    (chain : List (DerivedStage S)) :
    field (mergeChain base chain).stage =
      field base ++ chain.reverse.flatMap fun derived => field derived.stage := by
  induction chain with
  | nil => simp [mergeChain]
  | cons derived rest ih =>
      rw [mergeChain_cons, rule, ih]
      simp

theorem isDev_mergeChain (base : S) (chain : List (DerivedStage S)) :
    (mergeChain base chain).isDev = (chain.findSome? (·.isDev)).getD false := by
  induction chain with
  | nil => rfl
  | cons derived rest ih =>
      rw [mergeChain_cons, List.findSome?_cons]
      cases own : derived.isDev with
      | some isDev => rfl
      | none => exact ih

/-! Levels as they are declared. -/

theorem merge_cases {name : String} {stage : DerivedStage S}
    (found : (defaults.merge declared).find? name = some stage) :
    declared.find? name = none ∧ defaults.find? name = some stage ∨
      ∃ above, declared.find? name = some above ∧ stage = onTop (defaults.find? name) above := by
  rw [find?_merge] at found
  cases own : declared.find? name with
  | none => exact .inl ⟨rfl, by simpa [own] using found⟩
  | some above =>
      refine .inr ⟨above, rfl, ?_⟩
      cases below : defaults.find? name with
      | none => simpa [own, below, onTop, eq_comm] using found
      | some default => simpa [own, below, onTop, Option.merge, eq_comm] using found

/-- What is declared of a stage. A stage that is there by default need not be declared, and
says nothing then. -/
def said (declared : StageSet S) (silent : S) (name : String) : S :=
  ((declared.find? name).map (·.stage)).getD silent

/-- What is said on each level, from the most derived stage of these names to the base. -/
def levels (declared : StageSet S) (silent base : S) (names : List String) : List S :=
  names.map (declared.said silent) ++ [base]

/-- Whether a stage is for development, as far as it says so. -/
def flag? (declared : StageSet S) (name : String) : Option Bool :=
  ((declared.find? name).bind (·.isDev)).or (builtIn? name)

/-- What there is below the stages that are declared: a base, and stages that say nothing
but their flags. -/
structure Grounds (given : S → Prop) (silent ground : S) (defaults : StageSet S) : Prop where
  stays : Stays given
  given_silent : given silent
  given_ground : given ground
  default : ∀ name, defaults.find? name =
    (builtIn? name).map fun isDev => ⟨silent, baseName, some isDev⟩

namespace Grounds

variable {name last : String} {stage : DerivedStage S} {met : List (String × DerivedStage S)}

theorem quiet (grounds : Grounds given silent ground defaults)
    (found : defaults.find? name = some stage) :
    stage.stage = silent ∧ stage.isDev = builtIn? name := by
  rw [grounds.default] at found
  obtain ⟨isDev, known, rfl⟩ := Option.map_eq_some_iff.mp found
  exact ⟨rfl, known.symm⟩

/-- A stage of the set is what is declared of it, above a default one where there is one. -/
theorem stage_cases (grounds : Grounds given silent ground defaults)
    (found : (defaults.merge declared).find? name = some stage) :
    stage.stage = declared.said silent name ∨
      stage.stage = StageConfig.merge silent (declared.said silent name) := by
  rcases merge_cases found with ⟨absent, below⟩ | ⟨above, own, rfl⟩
  · exact .inl (by simp [said, absent, (grounds.quiet below).1])
  · cases below : defaults.find? name with
    | none => exact .inl (by simp [said, own, onTop])
    | some default =>
        exact .inr (by simp [said, own, onTop, DerivedStage.merge, (grounds.quiet below).1])

theorem flag_eq (grounds : Grounds given silent ground defaults)
    (found : (defaults.merge declared).find? name = some stage) :
    stage.isDev = declared.flag? name := by
  unfold flag?
  rcases merge_cases found with ⟨absent, below⟩ | ⟨above, own, rfl⟩
  · simp [absent, (grounds.quiet below).2]
  · cases below : defaults.find? name with
    | none =>
        have unnamed : builtIn? name = none := by simpa [below] using (grounds.default name).symm
        simp [own, onTop, unnamed]
    | some default => simp [own, onTop, DerivedStage.merge, (grounds.quiet below).2]

/-- What a field has in the set on the way to the base, it has in what is declared. -/
theorem map_met {view : S → α} (grounds : Grounds given silent ground defaults)
    (same : ∀ above, view (StageConfig.merge silent above) = view above)
    (leads : Leads (defaults.merge declared) name met last) :
    met.map (fun e => view e.2.stage) =
      met.map fun e => view (declared.said silent e.1) := by
  apply List.map_congr_left
  intro e member
  rcases grounds.stage_cases (leads.declared member).2 with own | joined
  · rw [own]
  · rw [joined, same]

theorem overrides (field : S → Option α) (grounds : Grounds given silent ground defaults)
    (rule : Overrides given field) (unset : field silent = none)
    (leads : Leads (defaults.merge declared) name met last) (base : S) :
    field (mergeChain (StageConfig.merge ground base) (met.map (·.2))).stage =
      ((declared.levels silent base (met.map (·.1))).findSome? field).or (field ground) := by
  have same : ∀ above, field (StageConfig.merge silent above) = field above := by
    intro above
    rw [rule _ _ grounds.given_silent, unset, Option.or_none]
  have told := congrArg (List.findSome? id) (grounds.map_met same leads)
  simp only [List.findSome?_map, Function.comp_def, id] at told
  rw [mergeChain_overrides rule grounds.stays (grounds.stays _ _ grounds.given_ground),
    rule _ _ grounds.given_ground]
  simp [levels, List.findSome?_append, List.findSome?_map, Function.comp_def, told,
    Option.or_assoc]

/-- An option that the base does not set by default. -/
theorem overrides_unset (field : S → Option α) (grounds : Grounds given silent ground defaults)
    (rule : Overrides given field) (unset : field silent = none) (bare : field ground = none)
    (leads : Leads (defaults.merge declared) name met last) (base : S) :
    field (mergeChain (StageConfig.merge ground base) (met.map (·.2))).stage =
      (declared.levels silent base (met.map (·.1))).findSome? field := by
  rw [grounds.overrides field rule unset leads, bare, Option.or_none]

theorem appends (field : S → List α) (grounds : Grounds given silent ground defaults)
    (rule : Appends field) (unset : field silent = []) (bare : field ground = [])
    (leads : Leads (defaults.merge declared) name met last) (base : S) :
    field (mergeChain (StageConfig.merge ground base) (met.map (·.2))).stage =
      (declared.levels silent base (met.map (·.1))).reverse.flatMap field := by
  have same : ∀ above, field (StageConfig.merge silent above) = field above := by
    intro above
    rw [rule, unset, List.nil_append]
  have told := congrArg (fun lists => lists.reverse.flatten) (grounds.map_met same leads)
  simp only [← List.map_reverse, ← List.flatMap_def] at told
  rw [mergeChain_appends rule, rule, bare, List.nil_append]
  simp [levels, List.flatMap_map, Function.comp_def, ← List.map_reverse, told]

theorem gathers (field : S → VersionMap) (grounds : Grounds given silent ground defaults)
    (there : ∀ s, given s → field s ≠ .nil)
    (rule : ∀ below above,
      field (StageConfig.merge below above) = (field below).merge (field above))
    (unset : field silent = .empty) (bare : field ground = .empty)
    (leads : Leads (defaults.merge declared) name met last) (base : S) :
    (field (mergeChain (StageConfig.merge ground base) (met.map (·.2))).stage).Gathers
      ((declared.levels silent base (met.map (·.1))).map field) where
  given := there _ (given_mergeChain grounds.stays (grounds.stays _ _ grounds.given_ground) _)
  entries key := by
    have entry : Overrides given fun s => (field s).get? key := by
      intro below above given
      change (field (StageConfig.merge below above)).get? key = _
      rw [rule, VersionMap.get?_merge (there below given)]
    rw [List.findSome?_map]
    exact grounds.overrides_unset _ entry (by rw [unset]; rfl) (by rw [bare]; rfl) leads base

theorem isDev_eq (grounds : Grounds given silent ground defaults)
    (leads : Leads (defaults.merge declared) name met last) (base : S) :
    (mergeChain base (met.map (·.2))).isDev =
      ((met.map (·.1)).findSome? declared.flag?).getD false := by
  have told : met.map (fun e => e.2.isDev) = met.map fun e => declared.flag? e.1 := by
    apply List.map_congr_left
    intro e member
    exact grounds.flag_eq (leads.declared member).2
  have first := congrArg (List.findSome? id) told
  simp only [List.findSome?_map, Function.comp_def, id] at first
  rw [isDev_mergeChain]
  simp [List.findSome?_map, Function.comp_def, first]

end Grounds

end StageSet

/-! Definitions. -/

/-- The base stage and the other stages that a definition declares, as they are read. -/
structure Declares (params : List String) (d : Definition) (base : S) (declared : StageSet S) :
    Prop where
  base : StageConfig.read (.map (d.ownConfig.takeAll params).2) = .ok base
  stages : Decode.get (d.ownConfig.takeAll params).1 "stages" StageSet.read StageSet.empty =
    .ok declared

/-- Every stage that has a chain is made of the levels on its way to the base. -/
def InheritsAll (inherits : List S → S → Prop) (silent base : S) (declared : StageSet S)
    (baseStage : S) (stages : StageSet S) : Prop :=
  ∀ name chain, stages.chain name = .ok chain → ∃ met last merged,
    StageSet.Leads stages name met last ∧ StageSet.isBase last = true ∧ met.map (·.2) = chain ∧
    StageSet.resolve baseStage stages name = .ok merged ∧
    inherits (declared.levels silent base (met.map (·.1))) merged.stage ∧
    merged.isDev = ((met.map (·.1)).findSome? declared.flag?).getD false

theorem StageSet.Grounds.inheritsAll {silent ground base : S} {defaults declared : StageSet S}
    {inherits : List S → S → Prop} (grounds : Grounds given silent ground defaults)
    (rules : ∀ name met last, Leads (defaults.merge declared) name met last →
      inherits (declared.levels silent base (met.map (·.1)))
        (mergeChain (StageConfig.merge ground base) (met.map (·.2))).stage) :
    InheritsAll inherits silent base declared (StageConfig.merge ground base)
      (defaults.merge declared) := by
  intro name chain chained
  obtain ⟨met, last, leads, ends, rfl⟩ := chain_eq_iff.mp chained
  refine ⟨met, last, _, leads, ends, rfl, ?_, rules name met last leads, grounds.isDev_eq leads _⟩
  rw [resolve, chained]
  rfl

end

/-! PHP. -/

namespace Php

/-- How a stage comes about from what is said on its levels, the most derived one first. -/
structure Stage.Inherits (levels : List Stage) (merged : Stage) : Prop where
  fpm : merged.fpm = (levels.findSome? (·.fpm)).or (some true)
  command : merged.command = levels.findSome? (·.command)
  iniFile : merged.configFiles.ini = levels.findSome? (·.configFiles.ini)
  fpmFile : merged.configFiles.fpm = levels.findSome? (·.configFiles.fpm)
  dumpFlags : merged.dumpFlags = (levels.findSome? (·.dumpFlags)).or (some ⟨false, true⟩)
  healthcheck : merged.healthcheck = (levels.findSome? (·.healthcheck)).or (some (.toggle true))
  externalFiles : merged.externalFiles = levels.reverse.flatMap (·.externalFiles)
  sources : merged.sources = levels.reverse.flatMap (·.sources)
  integrations : merged.integrations = levels.reverse.flatMap (·.integrations)
  statefulDirs : merged.statefulDirs = levels.reverse.flatMap (·.statefulDirs)
  postInstall : merged.postInstall = levels.reverse.flatMap (·.postInstall)
  systemPackages : merged.systemPackages.Gathers (levels.map (·.systemPackages))
  extensions : merged.extensions.Gathers (levels.map (·.extensions))

/-- Both maps of a stage are given. -/
def Stage.HasMaps (s : Stage) : Prop := s.systemPackages ≠ .nil ∧ s.extensions ≠ .nil

theorem Definition.grounds :
    StageSet.Grounds Stage.HasMaps Stage.empty defaultBaseStage defaultStages where
  stays _ _ given := ⟨VersionMap.merge_ne_nil given.1 _, VersionMap.merge_ne_nil given.2 _⟩
  given_silent := ⟨by decide, by decide⟩
  given_ground := ⟨by decide, by decide⟩
  default := StageSet.find?_defaults Stage.empty

theorem Definition.inherits {declared : StageSet Stage} {name last : String}
    {met : List (String × DerivedStage Stage)}
    (leads : StageSet.Leads (defaultStages.merge declared) name met last) (base : Stage) :
    Stage.Inherits (declared.levels Stage.empty base (met.map (·.1)))
      (StageSet.mergeChain (defaultBaseStage.merge base) (met.map (·.2))).stage where
  fpm := grounds.overrides (·.fpm) (fun _ _ _ => rfl) rfl leads base
  command := grounds.overrides_unset (·.command) (fun _ _ _ => rfl) rfl rfl leads base
  iniFile := grounds.overrides_unset (·.configFiles.ini) (fun _ _ _ => rfl) rfl rfl leads base
  fpmFile := grounds.overrides_unset (·.configFiles.fpm) (fun _ _ _ => rfl) rfl rfl leads base
  dumpFlags := grounds.overrides (·.dumpFlags) (fun _ _ _ => rfl) rfl leads base
  healthcheck := grounds.overrides (·.healthcheck) (fun _ _ _ => rfl) rfl leads base
  externalFiles := grounds.appends (·.externalFiles) (fun _ _ => rfl) rfl rfl leads base
  sources := grounds.appends (·.sources) (fun _ _ => rfl) rfl rfl leads base
  integrations := grounds.appends (·.integrations) (fun _ _ => rfl) rfl rfl leads base
  statefulDirs := grounds.appends (·.statefulDirs) (fun _ _ => rfl) rfl rfl leads base
  postInstall := grounds.appends (·.postInstall) (fun _ _ => rfl) rfl rfl leads base
  systemPackages :=
    grounds.gathers (·.systemPackages) (fun _ => And.left) (fun _ _ => rfl) rfl rfl leads base
  extensions :=
    grounds.gathers (·.extensions) (fun _ => And.right) (fun _ _ => rfl) rfl rfl leads base

theorem Definition.declares {d : ImageLock.Definition} {php : Definition}
    (known : ofDefinition d = .ok php) : ∃ base declared, Declares Params.names d base declared ∧
      php.baseStage = defaultBaseStage.merge base ∧ php.stages = defaultStages.merge declared := by
  obtain ⟨params, base, read, own, -, base_eq, stages_eq⟩ := ofDefinition_read known
  exact ⟨base, params.stages, ⟨own, (Params.read_ok read).2⟩, base_eq, stages_eq⟩

end Php

/-! Node.js. -/

namespace NodeJs

/-- How a stage comes about from what is said on its levels, the most derived one first. -/
structure Stage.Inherits (levels : List Stage) (merged : Stage) : Prop where
  buildCommand : merged.buildCommand = levels.findSome? (·.buildCommand)
  command : merged.command = levels.findSome? (·.command)
  healthcheck : merged.healthcheck = (levels.findSome? (·.healthcheck)).or (some true)
  externalFiles : merged.externalFiles = levels.reverse.flatMap (·.externalFiles)
  sources : merged.sources = levels.reverse.flatMap (·.sources)
  statefulDirs : merged.statefulDirs = levels.reverse.flatMap (·.statefulDirs)
  systemPackages : merged.systemPackages.Gathers (levels.map (·.systemPackages))
  globalPackages : merged.globalPackages.Gathers (levels.map (·.globalPackages))
  configFiles : ∀ file, merged.configFiles.find? file = levels.findSome? (·.configFiles.find? file)

/-- Both version maps of a stage are given. -/
def Stage.HasMaps (s : Stage) : Prop := s.systemPackages ≠ .nil ∧ s.globalPackages ≠ .nil

theorem Definition.grounds :
    StageSet.Grounds Stage.HasMaps Stage.empty defaultBaseStage defaultStages where
  stays _ _ given := ⟨VersionMap.merge_ne_nil given.1 _, VersionMap.merge_ne_nil given.2 _⟩
  given_silent := ⟨by decide, by decide⟩
  given_ground := ⟨by decide, by decide⟩
  default := StageSet.find?_defaults Stage.empty

theorem Definition.inherits {declared : StageSet Stage} {name last : String}
    {met : List (String × DerivedStage Stage)}
    (leads : StageSet.Leads (defaultStages.merge declared) name met last) (base : Stage) :
    Stage.Inherits (declared.levels Stage.empty base (met.map (·.1)))
      (StageSet.mergeChain (defaultBaseStage.merge base) (met.map (·.2))).stage where
  buildCommand := grounds.overrides_unset (·.buildCommand) (fun _ _ _ => rfl) rfl rfl leads base
  command := grounds.overrides_unset (·.command) (fun _ _ _ => rfl) rfl rfl leads base
  healthcheck := grounds.overrides (·.healthcheck) (fun _ _ _ => rfl) rfl leads base
  externalFiles := grounds.appends (·.externalFiles) (fun _ _ => rfl) rfl rfl leads base
  sources := grounds.appends (·.sources) (fun _ _ => rfl) rfl rfl leads base
  statefulDirs := grounds.appends (·.statefulDirs) (fun _ _ => rfl) rfl rfl leads base
  systemPackages :=
    grounds.gathers (·.systemPackages) (fun _ => And.left) (fun _ _ => rfl) rfl rfl leads base
  globalPackages :=
    grounds.gathers (·.globalPackages) (fun _ => And.right) (fun _ _ => rfl) rfl rfl leads base
  configFiles file := grounds.overrides_unset (·.configFiles.find? file)
    (fun below above _ => Names.find?_merge below.configFiles above.configFiles file) rfl rfl
    leads base

theorem Definition.declares {d : ImageLock.Definition} {nodeJs : Definition}
    (known : ofDefinition d = .ok nodeJs) :
    ∃ base declared, Declares Params.names d base declared ∧
      nodeJs.baseStage = defaultBaseStage.merge base ∧
      nodeJs.stages = defaultStages.merge declared := by
  obtain ⟨params, base, read, own, base_eq, stages_eq⟩ := ofDefinition_read known
  exact ⟨base, params.stages, ⟨own, (Params.read_ok read).2⟩, base_eq, stages_eq⟩

end NodeJs

/-- What stages inherit. In a definition that is accepted, of either kind, every stage with a
chain is made of what the definition declares on the way from that stage to the base: options
of the most derived level that sets them, else the defaults of the kind; lists of all levels,
the base first; maps that are given, and have each name from the most derived level with that
name, and no other names. It is for development if the most derived stage that says anything
about it says so, where the flags of the default stages count unless others are declared. -/
theorem stages_inherit :
    (∀ d php, Php.Definition.ofDefinition d = .ok php →
      ∃ base declared, Declares Php.Params.names d base declared ∧
        InheritsAll Php.Stage.Inherits .empty base declared php.baseStage php.stages) ∧
    ∀ d nodeJs, NodeJs.Definition.ofDefinition d = .ok nodeJs →
      ∃ base declared, Declares NodeJs.Params.names d base declared ∧
        InheritsAll NodeJs.Stage.Inherits .empty base declared nodeJs.baseStage nodeJs.stages := by
  constructor
  · intro d php known
    obtain ⟨base, declared, declares, base_eq, stages_eq⟩ := Php.Definition.declares known
    refine ⟨base, declared, declares, ?_⟩
    rw [base_eq, stages_eq]
    apply Php.Definition.grounds.inheritsAll
    intro name met last leads
    exact Php.Definition.inherits leads base
  · intro d nodeJs known
    obtain ⟨base, declared, declares, base_eq, stages_eq⟩ := NodeJs.Definition.declares known
    refine ⟨base, declared, declares, ?_⟩
    rw [base_eq, stages_eq]
    apply NodeJs.Definition.grounds.inheritsAll
    intro name met last leads
    exact NodeJs.Definition.inherits leads base

/-! A stage on three levels. -/

/-- A worker on top of a stage that is there by default. The top level and the stage in
between each give a map as nothing. -/
def tiered : Definition :=
  ⟨Php.kind, [(.text "version", .text "7.4"), (.text "sources", .texts ["lib/"]),
    (.text "system_packages", .null),
    (.text "extensions", .record [("intl", .text "*"), ("redis", .text "5.0.0")]),
    (.text "stages", .record
      [("dev", .record [("extensions", .null), ("sources", .texts ["dev/"])]),
        ("worker", .record [("derive_from", .text "dev"), ("sources", .texts ["worker/"]),
          ("system_packages", .record [("git", .text "*")]),
          ("extensions", .record [("redis", .text "5.1.0")])])])], []⟩

/-- Files of the top level, one of them under another name in a stage above it. -/
def tieredFiles : Definition :=
  ⟨NodeJs.kind, [(.text "base", .text "a@sha256:b"),
    (.text "config_files", .record [("env", .text "a"), ("npmrc", .text "b")]),
    (.text "stages", .record
      [("prod", .record [("config_files", .record [("env", .text "c")]),
        ("global_packages", .null)])])], []⟩

theorem stages_inherit_worker :
    (∃ php base declared chain met last merged,
      Php.Definition.ofDefinition tiered = .ok php ∧
      Declares Php.Params.names tiered base declared ∧
      php.stages.chain "worker" = .ok chain ∧
      StageSet.Leads php.stages "worker" met last ∧
      StageSet.resolve php.baseStage php.stages "worker" = .ok merged ∧
      Php.Stage.Inherits (declared.levels .empty base (met.map (·.1))) merged.stage ∧
      merged.stage.sources = ["lib/", "dev/", "worker/"] ∧
      merged.stage.systemPackages.entries = [("git", "*")] ∧
      merged.stage.extensions.entries = [("intl", "*"), ("redis", "5.1.0")] ∧
      merged.isDev = true) ∧
    ∃ nodeJs base declared chain met last merged,
      NodeJs.Definition.ofDefinition tieredFiles = .ok nodeJs ∧
      Declares NodeJs.Params.names tieredFiles base declared ∧
      nodeJs.stages.chain "prod" = .ok chain ∧
      StageSet.Leads nodeJs.stages "prod" met last ∧
      StageSet.resolve nodeJs.baseStage nodeJs.stages "prod" = .ok merged ∧
      NodeJs.Stage.Inherits (declared.levels .empty base (met.map (·.1))) merged.stage ∧
      merged.stage.configFiles.entries = [("env", "c"), ("npmrc", "b")] ∧
      merged.isDev = false := by
  constructor
  · have passes : (Php.Definition.ofDefinition tiered).toOption.any (fun php =>
        (StageSet.resolve php.baseStage php.stages "worker").toOption.any fun merged =>
          merged.stage.sources == ["lib/", "dev/", "worker/"] &&
            merged.stage.systemPackages.entries == [("git", "*")] &&
            merged.stage.extensions.entries == [("intl", "*"), ("redis", "5.1.0")] &&
            merged.isDev) = true := by
      decide +kernel
    obtain ⟨php, known, passes⟩ := (Option.any_eq_true _ _).mp passes
    obtain ⟨merged, resolved, passes⟩ := (Option.any_eq_true _ _).mp passes
    have known := Act.eq_ok_of_toOption known
    have resolved := Act.eq_ok_of_toOption resolved
    obtain ⟨chain, chained⟩ := StageSet.chain_of_resolve resolved
    obtain ⟨base, declared, declares, inherits⟩ := stages_inherit.1 tiered php known
    obtain ⟨met, last, _, leads, -, -, resolved', own, -⟩ := inherits "worker" chain chained
    obtain rfl := Except.ok.inj (resolved.symm.trans resolved')
    simp only [Bool.and_eq_true, beq_iff_eq] at passes
    exact ⟨php, base, declared, chain, met, last, merged, known, declares, chained, leads,
      resolved, own, passes.1.1.1, passes.1.1.2, passes.1.2, passes.2⟩
  · have passes : (NodeJs.Definition.ofDefinition tieredFiles).toOption.any (fun nodeJs =>
        (StageSet.resolve nodeJs.baseStage nodeJs.stages "prod").toOption.any fun merged =>
          merged.stage.configFiles.entries == [("env", "c"), ("npmrc", "b")] &&
            !merged.isDev) = true := by
      decide +kernel
    obtain ⟨nodeJs, known, passes⟩ := (Option.any_eq_true _ _).mp passes
    obtain ⟨merged, resolved, passes⟩ := (Option.any_eq_true _ _).mp passes
    have known := Act.eq_ok_of_toOption known
    have resolved := Act.eq_ok_of_toOption resolved
    obtain ⟨chain, chained⟩ := StageSet.chain_of_resolve resolved
    obtain ⟨base, declared, declares, inherits⟩ := stages_inherit.2 tieredFiles nodeJs known
    obtain ⟨met, last, _, leads, -, -, resolved', own, -⟩ := inherits "prod" chain chained
    obtain rfl := Except.ok.inj (resolved.symm.trans resolved')
    simp only [Bool.and_eq_true, beq_iff_eq, Bool.not_eq_true'] at passes
    exact ⟨nodeJs, base, declared, chain, met, last, merged, known, declares, chained, leads,
      resolved, own, passes.1, passes.2⟩

end ImageLock
