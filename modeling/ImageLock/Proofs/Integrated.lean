/-
What integrations add to a stage. They are applied one after the other, those of the base
first, and the first one that is refused is the reason why a stage is. Each of them adds to
lists and to nothing else, so what a stage gets is told by how often each is named, and the
client of its check comes after everything else.
-/
import ImageLock.Proofs.Inferred

namespace ImageLock.Php

/-! Levels of a stage. -/

/-- What is said on the way from a stage to the base of an accepted definition, the most
derived level first. -/
def IsLevels (d : ImageLock.Definition) (php : Definition) (name : String)
    (levels : List Stage) : Prop :=
  ∃ base declared met last, Declares Params.names d base declared ∧
    StageSet.Leads php.stages name met last ∧ StageSet.isBase last = true ∧
    levels = declared.levels .empty base (met.map (·.1))

/-- A stage comes about from its levels, and the checks of health in them have passed. -/
theorem Definition.resolve_levels {d : ImageLock.Definition} {php : Definition} {name : String}
    {merged : MergedStage Stage} (known : ofDefinition d = .ok php)
    (chain : StageSet.resolve php.baseStage php.stages name = .ok merged) :
    ∃ base declared met last, Declares Params.names d base declared ∧
      StageSet.Leads php.stages name met last ∧ StageSet.isBase last = true ∧
      checkHealthchecks base declared = .ok () ∧
      Stage.Inherits (declared.levels .empty base (met.map (·.1))) merged.stage := by
  obtain ⟨params, base, read, own, checked, base_eq, stages_eq⟩ := ofDefinition_read known
  obtain ⟨stages, chained⟩ := StageSet.chain_of_resolve chain
  obtain ⟨met, last, leads, ends, rfl⟩ := StageSet.chain_eq_iff.mp chained
  have merged_eq : StageSet.mergeChain php.baseStage (met.map (·.2)) = merged := by
    rw [StageSet.resolve, chained] at chain
    exact Except.ok.inj chain
  rw [base_eq] at merged_eq
  refine ⟨base, params.stages, met, last, ⟨own, (Params.read_ok read).2⟩, leads, ends, checked, ?_⟩
  rw [← merged_eq]
  exact inherits (stages_eq ▸ leads) base

/-! Which integrations there are. -/

/-- An integration that works with a version. -/
inductive Supported (majorMinor : String) : String → Prop where
  | symfony : Supported majorMinor "symfony"
  | blackfire {directory : String} (known : Extensions.directory? majorMinor = some directory) :
      Supported majorMinor "blackfire"

/-- Why an integration is refused for a version. -/
inductive Refused (majorMinor : String) : String → Error → Prop where
  | unknown {name : String} (notSymfony : name ≠ "symfony") (notBlackfire : name ≠ "blackfire") :
      Refused majorMinor name (.unknownIntegration name)
  | unsupported (missing : Extensions.directory? majorMinor = none) :
      Refused majorMinor "blackfire" (.unsupportedProbe majorMinor)

/-- The first of these integrations that is refused, is refused for this reason. -/
def RefusedFirst (majorMinor : String) (names : List String) (error : Error) : Prop :=
  ∃ front name back, names = front ++ name :: back ∧
    (∀ earlier ∈ front, Supported majorMinor earlier) ∧ Refused majorMinor name error

variable {majorMinor name : String} {names : List String} {error : Error}

theorem Supported.directory (fine : Supported majorMinor name) (named : name = "blackfire") :
    ∃ directory, Extensions.directory? majorMinor = some directory := by
  cases fine with
  | symfony => exact absurd named (by decide)
  | blackfire known => exact ⟨_, known⟩

theorem supported_or_refused (majorMinor name : String) :
    Supported majorMinor name ∨ ∃ error, Refused majorMinor name error := by
  by_cases symfony : name = "symfony"
  · exact .inl (symfony ▸ .symfony)
  · by_cases blackfire : name = "blackfire"
    · subst blackfire
      cases known : Extensions.directory? majorMinor with
      | some directory => exact .inl (.blackfire known)
      | none => exact .inr ⟨_, .unsupported known⟩
    · exact .inr ⟨_, .unknown symfony blackfire⟩

theorem all_supported_or_refusedFirst (majorMinor : String) (names : List String) :
    (∀ name ∈ names, Supported majorMinor name) ∨ ∃ error, RefusedFirst majorMinor names error := by
  induction names with
  | nil => exact .inl (by simp)
  | cons name rest ih =>
      rcases supported_or_refused majorMinor name with fine | ⟨error, refused⟩
      · rcases ih with all | ⟨error, front, later, back, rfl, earlier, refused⟩
        · exact .inl (List.forall_mem_cons.mpr ⟨fine, all⟩)
        · exact .inr ⟨error, name :: front, later, back, rfl,
            List.forall_mem_cons.mpr ⟨fine, earlier⟩, refused⟩
      · exact .inr ⟨error, [], name, rest, rfl, by simp, refused⟩

namespace Resolved

/-! What they add. -/

/-- The probes of integrations that are named so often. -/
def probes (majorMinor : String) (count : Nat) : List ExternalFile :=
  match Extensions.directory? majorMinor with
  | some directory => List.replicate count (probeFile directory majorMinor)
  | none => []

theorem probes_zero (majorMinor : String) : probes majorMinor 0 = [] := by
  unfold probes
  split <;> rfl

theorem probes_add (majorMinor : String) (count more : Nat) :
    probes majorMinor (count + more) = probes majorMinor count ++ probes majorMinor more := by
  unfold probes
  cases Extensions.directory? majorMinor with
  | some directory => exact List.replicate_add ..
  | none => rfl

/-- As many probes as there are integrations that ask for one, where all are supported. -/
theorem probes_supported (all : ∀ name ∈ names, Supported majorMinor name) :
    (probes majorMinor (names.count "blackfire")).length = names.count "blackfire" ∧
      ∀ probe ∈ probes majorMinor (names.count "blackfire"), ∃ directory,
        Extensions.directory? majorMinor = some directory ∧
          probe = probeFile directory majorMinor := by
  unfold probes
  cases known : Extensions.directory? majorMinor with
  | some directory =>
      refine ⟨List.length_replicate, fun probe member => ⟨directory, rfl, ?_⟩⟩
      exact List.eq_of_mem_replicate member
  | none =>
      have absent : "blackfire" ∉ names := by
        intro member
        obtain ⟨directory, found⟩ := (all _ member).directory rfl
        cases known.symm.trans found
      simp [List.count_eq_zero.mpr absent]

/-- A stage with what integrations of these names add to it. -/
def integrated (r : Resolved) (names : List String) : Resolved :=
  let warmed := names.count "symfony"
  r.withAdded (r.stage.externalFiles ++ probes r.majorMinor (names.count "blackfire"))
    (r.stage.sources ++ (List.replicate warmed ["app/", "src/"]).flatten)
    (List.replicate warmed warmUp ++ r.stage.postInstall)
    (r.extraScripts ++ (List.replicate warmed ["bin/console", "web/app.php"]).flatten)

theorem integrated_nil (r : Resolved) : r.integrated [] = r := by
  simp [integrated, probes_zero, withAdded]

/-- Integrations one after the other add what they add together. -/
theorem integrated_append (r : Resolved) (names more : List String) :
    (r.integrated names).integrated more = r.integrated (names ++ more) := by
  have files (count other : Nat) : r.stage.externalFiles ++ probes r.majorMinor count ++
      probes r.majorMinor other = r.stage.externalFiles ++ probes r.majorMinor (count + other) := by
    rw [probes_add, List.append_assoc]
  have lists (start item : List String) (count other : Nat) :
      start ++ (List.replicate count item).flatten ++ (List.replicate other item).flatten =
        start ++ (List.replicate (count + other) item).flatten := by
    rw [List.replicate_add, List.flatten_append, List.append_assoc]
  have commands (count other : Nat) :
      List.replicate other warmUp ++ (List.replicate count warmUp ++ r.stage.postInstall) =
        List.replicate (count + other) warmUp ++ r.stage.postInstall := by
    rw [Nat.add_comm, List.replicate_add, List.append_assoc]
  simp only [integrated, withAdded, List.count_append, files, lists, commands]

theorem addIntegration_supported {r : Resolved} (fine : Supported r.majorMinor name) :
    r.addIntegration name = .ok (r.integrated [name]) := by
  cases fine with
  | symfony =>
      simp [addIntegration, integrated, withAdded, probes_zero]
  | blackfire known =>
      simp [addIntegration, integrated, withAdded, probes, known]

theorem addIntegration_refused {r : Resolved} (refused : Refused r.majorMinor name error) :
    r.addIntegration name = .error error := by
  cases refused with
  | unknown notSymfony notBlackfire =>
      unfold addIntegration
      split
      · contradiction
      · contradiction
      · rfl
  | unsupported missing => simp only [addIntegration, missing]

theorem foldlM_supported {r : Resolved} (all : ∀ name ∈ names, Supported r.majorMinor name) :
    names.foldlM addIntegration r = .ok (r.integrated names) := by
  induction names generalizing r with
  | nil => exact congrArg Except.ok r.integrated_nil.symm
  | cons name rest ih =>
      obtain ⟨fine, all⟩ := List.forall_mem_cons.mp all
      have later : rest.foldlM addIntegration (r.integrated [name]) = _ := ih all
      rw [List.foldlM_cons, addIntegration_supported fine]
      exact later.trans (congrArg Except.ok (r.integrated_append [name] rest))

theorem foldlM_refused {r : Resolved} (refused : RefusedFirst r.majorMinor names error) :
    names.foldlM addIntegration r = .error error := by
  obtain ⟨front, name, back, rfl, earlier, refused⟩ := refused
  have stops : (r.integrated front).addIntegration name = .error error :=
    addIntegration_refused refused
  rw [List.foldlM_append, foldlM_supported earlier]
  change List.foldlM addIntegration (r.integrated front) (name :: back) = _
  rw [List.foldlM_cons, stops]
  rfl

/-- The client for the check of a stage, if its check needs one. -/
def clients (r : Resolved) : List ExternalFile :=
  if r.healthcheck?.any fun config => config.type == .fcgi then [clientFile] else []

theorem addClient_eq (r : Resolved) :
    r.addClient = r.withAdded (r.stage.externalFiles ++ r.clients) r.stage.sources
      r.stage.postInstall r.extraScripts := by
  unfold addClient clients
  split
  · rfl
  · simp [withAdded]

theorem addIntegrations_supported {r : Resolved}
    (all : ∀ name ∈ r.stage.integrations, Supported r.majorMinor name) :
    r.addIntegrations = .ok (r.integrated r.stage.integrations).addClient := by
  unfold addIntegrations
  rw [foldlM_supported all]
  rfl

theorem addIntegrations_refused {r : Resolved}
    (refused : RefusedFirst r.majorMinor r.stage.integrations error) :
    r.addIntegrations = .error error := by
  unfold addIntegrations
  rw [foldlM_refused refused]
  rfl

end Resolved

/-- A stage has a process manager or a command of its own. -/
def Runs (merged : Stage) : Prop := merged.fpm.getD true = true ∨ merged.command.isSome = true

/-- What integrations make of the lists of a stage: commands come before its own ones, and
sources, probes and at most one client after its own ones. -/
structure Integrates (majorMinor : String) (merged : Stage) (resolved : Resolved) : Prop where
  commands : resolved.stage.postInstall =
    List.replicate (merged.integrations.count "symfony") Resolved.warmUp ++ merged.postInstall
  sources : resolved.stage.sources = merged.sources ++
    (List.replicate (merged.integrations.count "symfony") ["app/", "src/"]).flatten
  scripts : resolved.extraScripts =
    (List.replicate (merged.integrations.count "symfony") ["bin/console", "web/app.php"]).flatten
  files : ∃ probes, probes.length = merged.integrations.count "blackfire" ∧
    (∀ probe ∈ probes, ∃ directory, Extensions.directory? majorMinor = some directory ∧
      probe = Resolved.probeFile directory majorMinor) ∧
    resolved.stage.externalFiles = merged.externalFiles ++ probes ++ resolved.clients

namespace Definition

variable {d : Definition} {merged : MergedStage Stage}

theorem runs_iff (d : Definition) (name : String) (merged : MergedStage Stage) :
    (!(d.settle name merged).fpm && (d.settle name merged).stage.command.isNone) = false ↔
      Runs merged.stage := by
  change (!merged.stage.fpm.getD true && merged.stage.command.isNone) = false ↔ _
  cases command : merged.stage.command <;> simp [Runs, command]

/-- A stage that runs, with nothing inferred. -/
theorem resolveStage_of_runs
    (chain : StageSet.resolve d.baseStage d.stages name = .ok merged) (runs : Runs merged.stage)
    (required : VersionMap) (family : String) :
    d.resolveStage name required family =
      (d.settle name merged).addIntegrations.map fun complete =>
        if d.infer then complete.inferAll required family else complete := by
  rw [d.resolveStage_of_ok chain, (d.runs_iff name merged).mpr runs]
  rfl

/-- What a stage is once its integrations are in. -/
structure Completes (d : Definition) (merged : MergedStage Stage) (resolved : Resolved) :
    Prop where
  integrates : Integrates d.majorMinor merged.stage resolved
  isDev : resolved.isDev = merged.isDev
  fpm : resolved.stage.fpm = merged.stage.fpm
  healthcheck : resolved.stage.healthcheck =
    some (effectiveHealthcheck merged.stage merged.isDev (merged.stage.fpm.getD true))

theorem completes_integrated (d : Definition) (name : String) {merged : MergedStage Stage}
    (all : ∀ integration ∈ merged.stage.integrations, Supported d.majorMinor integration) :
    d.Completes merged
      ((d.settle name merged).integrated merged.stage.integrations).addClient := by
  rw [Resolved.addClient_eq]
  obtain ⟨often, each⟩ := Resolved.probes_supported all
  exact ⟨⟨rfl, rfl, List.nil_append _, _, often, each, rfl⟩, rfl, rfl, rfl⟩

theorem Completes.inferAll {resolved : Resolved} (completes : d.Completes merged resolved)
    (required : VersionMap) (family : String) :
    d.Completes merged (resolved.inferAll required family) :=
  ⟨⟨completes.integrates.commands, completes.integrates.sources, completes.integrates.scripts,
    completes.integrates.files⟩, completes.isDev, completes.fpm, completes.healthcheck⟩

theorem resolveStage_supported
    (chain : StageSet.resolve d.baseStage d.stages name = .ok merged) (runs : Runs merged.stage)
    (all : ∀ integration ∈ merged.stage.integrations, Supported d.majorMinor integration)
    (required : VersionMap) (family : String) :
    ∃ resolved, d.resolveStage name required family = .ok resolved ∧
      d.Completes merged resolved := by
  have added : (d.settle name merged).addIntegrations = _ := Resolved.addIntegrations_supported all
  rw [resolveStage_of_runs chain runs, added]
  have completes := d.completes_integrated name all
  by_cases infer : d.infer = true
  · exact ⟨_, congrArg Except.ok (if_pos infer), completes.inferAll required family⟩
  · exact ⟨_, congrArg Except.ok (if_neg infer), completes⟩

theorem resolveStage_refused
    (chain : StageSet.resolve d.baseStage d.stages name = .ok merged) (runs : Runs merged.stage)
    (refused : RefusedFirst d.majorMinor merged.stage.integrations error)
    (required : VersionMap) (family : String) :
    d.resolveStage name required family = .error error := by
  have added : (d.settle name merged).addIntegrations = .error error :=
    Resolved.addIntegrations_refused refused
  rw [resolveStage_of_runs chain runs, added]
  rfl

/-- A stage that is resolved has its integrations in. -/
theorem resolveStage_completes {resolved : Resolved} {required : VersionMap} {family : String}
    (found : d.resolveStage name required family = .ok resolved) :
    ∃ merged, StageSet.resolve d.baseStage d.stages name = .ok merged ∧
      d.Completes merged resolved := by
  cases chain : StageSet.resolve d.baseStage d.stages name with
  | error error =>
      rw [d.resolveStage_of_error chain] at found
      cases found
  | ok merged =>
      have runs : Runs merged.stage := by
        rw [← d.runs_iff name merged]
        rw [d.resolveStage_of_ok chain] at found
        by_contra stuck
        rw [if_pos (by simpa using stuck)] at found
        cases found
      rcases all_supported_or_refusedFirst d.majorMinor merged.stage.integrations with
        all | ⟨error, refused⟩
      · obtain ⟨_, found', completes⟩ := resolveStage_supported chain runs all required family
        cases found.symm.trans found'
        exact ⟨merged, rfl, completes⟩
      · cases found.symm.trans (resolveStage_refused chain runs refused required family)

/-- Integrations, exactly. They are those of all levels, the base's first. A stage that runs
fails for the first of them that is unknown, or that has no probe for the version; where there
is none, the stage is resolved, and its lists are the merged ones with what the integrations
add. -/
theorem resolveStage_integrations {d : ImageLock.Definition} {php : Definition} {name : String}
    {merged : MergedStage Stage} (known : ofDefinition d = .ok php)
    (chain : StageSet.resolve php.baseStage php.stages name = .ok merged)
    (runs : Runs merged.stage) (required : VersionMap) (family : String) :
    (∃ levels, IsLevels d php name levels ∧
      merged.stage.integrations = levels.reverse.flatMap (·.integrations)) ∧
    (∀ error, php.resolveStage name required family = .error error ↔
      RefusedFirst php.majorMinor merged.stage.integrations error) ∧
    ((∃ resolved, php.resolveStage name required family = .ok resolved ∧
        Integrates php.majorMinor merged.stage resolved) ↔
      ∀ integration ∈ merged.stage.integrations, Supported php.majorMinor integration) := by
  have sorted := all_supported_or_refusedFirst php.majorMinor merged.stage.integrations
  refine ⟨?_, fun error => ⟨fun failed => ?_, fun refused => ?_⟩, ?_, fun all => ?_⟩
  · obtain ⟨base, declared, met, last, declares, leads, ends, -, inherits⟩ :=
      resolve_levels known chain
    exact ⟨_, ⟨base, declared, met, last, declares, leads, ends, rfl⟩, inherits.integrations⟩
  · rcases sorted with all | ⟨other, refused⟩
    · obtain ⟨resolved, found, -⟩ := resolveStage_supported chain runs all required family
      cases failed.symm.trans found
    · cases failed.symm.trans (resolveStage_refused chain runs refused required family)
      exact refused
  · exact resolveStage_refused chain runs refused required family
  · rintro ⟨resolved, found, -⟩
    rcases sorted with all | ⟨error, refused⟩
    · exact all
    · cases found.symm.trans (resolveStage_refused chain runs refused required family)
  · obtain ⟨resolved, found, completes⟩ := resolveStage_supported chain runs all required family
    exact ⟨resolved, found, completes.integrates⟩

/-- A definition of this version whose base has one integration, and production these too. -/
def integrating (version : String) (integrations : List String) : ImageLock.Definition :=
  ⟨Php.kind, [(.text "version", .text version), (.text "sources", .texts ["lib/"]),
    (.text "integrations", .texts ["symfony"]),
    (.text "stages", .record [("prod", .record
      [("integrations", .texts integrations), ("post_install", .texts ["bin/seed"])])])], []⟩

theorem resolveStage_integrations_prod :
    (∃ php merged resolved, ofDefinition (integrating "7.4.1" ["blackfire", "symfony"]) = .ok php ∧
      StageSet.resolve php.baseStage php.stages "prod" = .ok merged ∧ Runs merged.stage ∧
      php.resolveStage "prod" .empty "debian" = .ok resolved ∧
      Integrates php.majorMinor merged.stage resolved ∧
      resolved.stage.postInstall = [Resolved.warmUp, Resolved.warmUp, "bin/seed"] ∧
      resolved.stage.externalFiles.map (·.destination) =
        ["/usr/local/lib/php/extensions/no-debug-non-zts-20190902/blackfire.so",
          "/usr/local/bin/fcgi-client"]) ∧
    ∃ php merged, ofDefinition (integrating "8.1" ["blackfire", "drupal"]) = .ok php ∧
      StageSet.resolve php.baseStage php.stages "prod" = .ok merged ∧ Runs merged.stage ∧
      RefusedFirst "8.1" ["symfony", "blackfire", "drupal"] (.unsupportedProbe "8.1") ∧
      php.resolveStage "prod" .empty "debian" = .error (.unsupportedProbe "8.1") := by
  constructor
  · have passes : (ofDefinition (integrating "7.4.1" ["blackfire", "symfony"])).toOption.any
        (fun php => php.majorMinor == "7.4" &&
          (StageSet.resolve php.baseStage php.stages "prod").toOption.any fun merged =>
            merged.stage.fpm.getD true &&
              merged.stage.integrations == ["symfony", "blackfire", "symfony"] &&
              (php.resolveStage "prod" .empty "debian").toOption.any fun resolved =>
                resolved.stage.postInstall == [Resolved.warmUp, Resolved.warmUp, "bin/seed"] &&
                  resolved.stage.externalFiles.map (·.destination) ==
                    ["/usr/local/lib/php/extensions/no-debug-non-zts-20190902/blackfire.so",
                      "/usr/local/bin/fcgi-client"]) = true := by
      decide +kernel
    obtain ⟨php, known, passes⟩ := (Option.any_eq_true _ _).mp passes
    obtain ⟨version, passes⟩ := Bool.and_eq_true_iff.mp passes
    obtain ⟨merged, chain, passes⟩ := (Option.any_eq_true _ _).mp passes
    obtain ⟨passes, shown⟩ := Bool.and_eq_true_iff.mp passes
    obtain ⟨fpm, named⟩ := Bool.and_eq_true_iff.mp passes
    obtain ⟨resolved, found, passes⟩ := (Option.any_eq_true _ _).mp shown
    obtain ⟨commands, files⟩ := Bool.and_eq_true_iff.mp passes
    have known := Act.eq_ok_of_toOption known
    have chain := Act.eq_ok_of_toOption chain
    have found := Act.eq_ok_of_toOption found
    have probed : Supported php.majorMinor "blackfire" := by
      rw [eq_of_beq version]
      exact .blackfire rfl
    have all : ∀ integration ∈ merged.stage.integrations,
        Supported php.majorMinor integration := by
      rw [eq_of_beq named]
      simp [probed, Supported.symfony]
    obtain ⟨resolved', found', integrates⟩ :=
      (resolveStage_integrations known chain (.inl fpm) .empty "debian").2.2.mpr all
    cases found.symm.trans found'
    exact ⟨php, merged, resolved, known, chain, .inl fpm, found, integrates, eq_of_beq commands,
      eq_of_beq files⟩
  · have passes : (ofDefinition (integrating "8.1" ["blackfire", "drupal"])).toOption.any
        (fun php => php.majorMinor == "8.1" &&
          (StageSet.resolve php.baseStage php.stages "prod").toOption.any fun merged =>
            merged.stage.fpm.getD true &&
              merged.stage.integrations == ["symfony", "blackfire", "drupal"]) = true := by
      decide +kernel
    obtain ⟨php, known, passes⟩ := (Option.any_eq_true _ _).mp passes
    obtain ⟨version, passes⟩ := Bool.and_eq_true_iff.mp passes
    obtain ⟨merged, chain, passes⟩ := (Option.any_eq_true _ _).mp passes
    obtain ⟨fpm, named⟩ := Bool.and_eq_true_iff.mp passes
    have known := Act.eq_ok_of_toOption known
    have chain := Act.eq_ok_of_toOption chain
    have refused : RefusedFirst "8.1" ["symfony", "blackfire", "drupal"]
        (.unsupportedProbe "8.1") :=
      ⟨["symfony"], "blackfire", ["drupal"], rfl, by simp [Supported.symfony], .unsupported rfl⟩
    have told := (resolveStage_integrations known chain (.inl fpm) .empty "debian").2.1
    rw [eq_of_beq version, eq_of_beq named] at told
    exact ⟨php, merged, known, chain, .inl fpm, refused, (told _).mpr refused⟩

end Definition
end ImageLock.Php
