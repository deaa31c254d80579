/-
The health of PHP images. Checks are validated where they are declared, level by level, and
a stage takes the one of its most derived level. What takes effect in the end is a check that
can be run: of a type that such images have the means for, with all that its test needs.
-/
import ImageLock.Proofs.Integrated

namespace ImageLock

theorem forM_ok {ε α : Type} {check : α → Except ε Unit} {items : List α}
    (run : items.forM check = .ok ()) : ∀ item ∈ items, check item = .ok () := by
  induction items with
  | nil => simp
  | cons item rest ih =>
      obtain ⟨⟨⟩, first, later⟩ := except_bind_ok.mp run
      exact List.forall_mem_cons.mpr ⟨first, ih later⟩

/-! Checks that can be run. -/

namespace HealthcheckConfig

variable {config : HealthcheckConfig}

/-- A check by a request to the process manager or by a command, which says what request or
what command that is. -/
def Runnable (config : HealthcheckConfig) : Prop :=
  config.type = .fcgi ∧ config.fcgi.isSome = true ∨
    config.type = .cmd ∧ config.cmd.isSome = true

theorem isEnabled_iff : config.isEnabled = true ↔ config.type ≠ .disabled := by
  simp [isEnabled]

theorem runnable_of_validate
    (valid : config.validate Php.Definition.healthcheckTypes = .ok ())
    (enabled : config.isEnabled = true) : config.Runnable := by
  unfold validate at valid
  rw [enabled] at valid
  cases type : config.type with
  | disabled => exact absurd type (isEnabled_iff.mp enabled)
  | http => simp [type, Php.Definition.healthcheckTypes] at valid
  | fcgi => simpa [Runnable, type, Php.Definition.healthcheckTypes, hasSection,
      Option.isSome_iff_ne_none] using valid
  | cmd => simpa [Runnable, type, Php.Definition.healthcheckTypes, hasSection,
      Option.isSome_iff_ne_none] using valid

/-- The test of a check that can be run is a command. -/
theorem Runnable.test (runnable : config.Runnable) :
    ∃ form words, config.test = form :: words ∧ form ∈ ["CMD", "CMD-SHELL"] := by
  unfold HealthcheckConfig.test
  rcases runnable with ⟨type, there⟩ | ⟨type, there⟩
  · obtain ⟨request, own⟩ := Option.isSome_iff_exists.mp there
    rw [type, own]
    exact ⟨_, _, rfl, by simp⟩
  · obtain ⟨command, own⟩ := Option.isSome_iff_exists.mp there
    rw [type, own]
    refine ⟨_, _, rfl, ?_⟩
    cases command.isShell <;> simp

end HealthcheckConfig

namespace Healthcheck

/-- A check that is stated is switched on: it is neither the switch that is off nor of the
type that is disabled. -/
def On (stated : Healthcheck) : Prop :=
  stated ≠ .toggle false ∧ ∀ config, stated = .config config → config.type ≠ .disabled

/-- What a stated check comes to: the check itself, or the default for the switch. -/
inductive Becomes (default : HealthcheckConfig) : Healthcheck → HealthcheckConfig → Prop where
  | default : Becomes default (.toggle true) default
  | own {config : HealthcheckConfig} : Becomes default (.config config) config

theorem isSome_resolve (stated : Healthcheck) (default : HealthcheckConfig) :
    (stated.resolve default).isSome = true ↔ stated.On := by
  cases stated with
  | toggle isOn => cases isOn <;> simp [resolve, On]
  | config config => simp [resolve, On, ← HealthcheckConfig.isEnabled_iff]

theorem becomes_of_resolve {stated : Healthcheck} {default config : HealthcheckConfig}
    (resolved : stated.resolve default = some config) : Becomes default stated config := by
  cases stated with
  | toggle isOn =>
      cases isOn with
      | true =>
          cases resolved
          exact .default
      | false => cases resolved
  | config own =>
      obtain ⟨-, same⟩ := Option.ite_none_right_eq_some.mp resolved
      cases same
      exact .own

/-- A check that comes of one that is switched on is enabled. -/
theorem isEnabled_of_resolve {stated : Healthcheck} {default config : HealthcheckConfig}
    (enabled : default.isEnabled = true) (resolved : stated.resolve default = some config) :
    config.isEnabled = true := by
  have on := (isSome_resolve stated default).mp (Option.isSome_of_eq_some resolved)
  cases becomes_of_resolve resolved with
  | default => exact enabled
  | own => exact HealthcheckConfig.isEnabled_iff.mpr (on.2 _ rfl)

end Healthcheck

namespace Php

/-- How a stage is checked for which this check is stated, and the files it has before its
check asks for more. -/
structure ChecksHealth (stated : Healthcheck) (files : List ExternalFile) (resolved : Resolved) :
    Prop where
  checked_iff : resolved.healthcheck?.isSome = true ↔
    resolved.isDev = false ∧ resolved.fpm = true ∧ stated.On
  config : ∀ config, resolved.healthcheck? = some config →
    Healthcheck.Becomes (.ofFcgi "/ping" "pong") stated config
  runnable : ∀ config, resolved.healthcheck? = some config →
    config.Runnable ∧ config.test ≠ ["NONE"]
  client : ∀ config, resolved.healthcheck? = some config → config.type = .fcgi →
    resolved.stage.externalFiles = files ++ [Resolved.clientFile]
  noClient : (∀ config, resolved.healthcheck? = some config → config.type ≠ .fcgi) →
    resolved.stage.externalFiles = files
  unchecked : resolved.healthcheck? = none → resolved.stage.healthcheck = some (.toggle false)

namespace Definition

/-- What levels state has passed its check. -/
theorem validate_of_levels {base : Stage} {declared : StageSet Stage}
    (passed : checkHealthchecks base declared = .ok ()) {names : List String} {level : Stage}
    (member : level ∈ declared.levels .empty base names) {stated : Healthcheck}
    (own : level.healthcheck = some stated) : stated.validate healthcheckTypes = .ok () := by
  have valid {name : String} {stage : Stage} (passed : checkHealthcheck name stage = .ok ())
      (own : stage.healthcheck = some stated) : stated.validate healthcheckTypes = .ok () := by
    unfold checkHealthcheck at passed
    rw [own] at passed
    exact except_mapError_ok.mp passed
  obtain ⟨⟨⟩, ofBase, ofStages⟩ := except_bind_ok.mp passed
  rcases List.mem_append.mp member with said | isBase
  · obtain ⟨name, -, rfl⟩ := List.mem_map.mp said
    unfold StageSet.said at own
    cases found : declared.find? name with
    | none =>
        rw [found] at own
        cases own
    | some derived =>
        rw [found] at own
        exact valid (forM_ok ofStages _ (Names.mem_of_find? found)) own
  · obtain rfl := List.mem_singleton.mp isBase
    exact valid ofBase own

/-- The check that a stage comes to, for which this one is stated. -/
def effect (stated : Healthcheck) (serves : Bool) : Option HealthcheckConfig :=
  if serves then stated.resolve defaultHealthcheck else none

variable {d : Definition} {merged : MergedStage Stage} {resolved : Resolved}
  {stated : Healthcheck}

theorem isSome_effect (stated : Healthcheck) (serves : Bool) :
    (effect stated serves).isSome = true ↔ serves = true ∧ stated.On := by
  cases serves with
  | true => simp [effect, Healthcheck.isSome_resolve]
  | false => simp [effect]

theorem resolve_of_effect {serves : Bool} {config : HealthcheckConfig}
    (effective : effect stated serves = some config) :
    stated.resolve defaultHealthcheck = some config :=
  (Option.ite_none_right_eq_some.mp effective).2

theorem Completes.healthcheck_eq (completes : d.Completes merged resolved)
    (own : merged.stage.healthcheck = some stated) :
    resolved.stage.healthcheck =
      some (((effect stated resolved.serves).map Healthcheck.config).getD (.toggle false)) := by
  have serves : resolved.serves = (!merged.isDev && merged.stage.fpm.getD true) := by
    simp [Resolved.serves, Resolved.fpm, completes.isDev, completes.fpm]
  rw [completes.healthcheck, effectiveHealthcheck, own, serves, effect, Option.bind_some]
  generalize (if (!merged.isDev && merged.stage.fpm.getD true) = true then
    stated.resolve defaultHealthcheck else none) = effective
  cases effective <;> rfl

theorem Completes.healthcheck?_eq (completes : d.Completes merged resolved)
    (own : merged.stage.healthcheck = some stated) :
    resolved.healthcheck? = effect stated resolved.serves := by
  unfold Resolved.healthcheck?
  rw [completes.healthcheck_eq own]
  cases effective : effect stated resolved.serves with
  | none => rfl
  | some config =>
      have enabled := Healthcheck.isEnabled_of_resolve rfl (resolve_of_effect effective)
      exact if_pos enabled

/-- A valid check that takes effect can be run. -/
theorem runnable_of_effect {serves : Bool} {config : HealthcheckConfig}
    (valid : stated.validate healthcheckTypes = .ok ())
    (effective : effect stated serves = some config) : config.Runnable := by
  have resolved := resolve_of_effect effective
  cases Healthcheck.becomes_of_resolve resolved with
  | default => exact .inl ⟨rfl, rfl⟩
  | own =>
      exact HealthcheckConfig.runnable_of_validate valid
        (Healthcheck.isEnabled_of_resolve rfl resolved)

theorem checksHealth_of_effect {files : List ExternalFile}
    (checked : resolved.healthcheck? = effect stated resolved.serves)
    (shown : resolved.stage.healthcheck =
      some (((effect stated resolved.serves).map Healthcheck.config).getD (.toggle false)))
    (valid : stated.validate healthcheckTypes = .ok ())
    (added : resolved.stage.externalFiles = files ++ resolved.clients) :
    ChecksHealth stated files resolved where
  checked_iff := by
    rw [checked, isSome_effect]
    simp [Resolved.serves, and_assoc]
  config config own :=
    Healthcheck.becomes_of_resolve (resolve_of_effect (checked.symm.trans own))
  runnable config own := by
    have runnable := runnable_of_effect valid (checked.symm.trans own)
    obtain ⟨form, words, same, isCommand⟩ := runnable.test
    refine ⟨runnable, fun isNone => ?_⟩
    cases same.symm.trans isNone
    exact absurd isCommand (by decide)
  client config own isFcgi := by
    rw [added, Resolved.clients, own]
    simp [isFcgi]
  noClient other := by
    have unneeded : resolved.clients = [] := by
      refine if_neg fun asks => ?_
      obtain ⟨config, own, isFcgi⟩ := (Option.any_eq_true _ _).mp asks
      exact other config own (eq_of_beq isFcgi)
    rw [added, unneeded, List.append_nil]
  unchecked unchecked := by
    rw [shown, ← checked, unchecked]
    rfl

/-- The health of a stage, exactly. Only production stages with a process manager are
checked, and these are unless the most derived level that states a check switches it off. The
check is the one that is stated, or the default one for a switch; it can be run; and the client
for it comes last among the files of the stage, behind those of its levels and the probes, if
the check needs one. -/
theorem resolveStage_healthcheck {d : ImageLock.Definition} {php : Definition}
    {name family : String} {required : VersionMap} {resolved : Resolved}
    (known : ofDefinition d = .ok php)
    (found : php.resolveStage name required family = .ok resolved) :
    ∃ levels probes, IsLevels d php name levels ∧
      (∀ probe ∈ probes, ∃ directory, probe = Resolved.probeFile directory php.majorMinor) ∧
      ChecksHealth ((levels.findSome? (·.healthcheck)).getD (.toggle true))
        (levels.reverse.flatMap (·.externalFiles) ++ probes) resolved := by
  obtain ⟨merged, chain, completes⟩ := resolveStage_completes found
  obtain ⟨base, declared, met, last, declares, leads, ends, passed, inherits⟩ :=
    resolve_levels known chain
  obtain ⟨probes, -, each, files⟩ := completes.integrates.files
  set levels := declared.levels .empty base (met.map (·.1))
  set stated := (levels.findSome? (·.healthcheck)).getD (.toggle true)
  have own : merged.stage.healthcheck = some stated := by
    rw [inherits.healthcheck]
    exact Option.or_some
  have valid : stated.validate healthcheckTypes = .ok () := by
    cases first : levels.findSome? (·.healthcheck) with
    | none => simp [stated, first, Healthcheck.validate]
    | some check =>
        obtain ⟨level, member, states⟩ := List.exists_of_findSome?_eq_some first
        simpa [stated, first] using validate_of_levels passed member states
  have checked := completes.healthcheck?_eq own
  refine ⟨levels, probes, ⟨base, declared, met, last, declares, leads, ends, rfl⟩,
    fun probe member => ?_, ?_⟩
  · obtain ⟨directory, -, same⟩ := each probe member
    exact ⟨directory, same⟩
  · rw [inherits.externalFiles] at files
    exact checksHealth_of_effect (completes.healthcheck?_eq own) (completes.healthcheck_eq own)
      valid files

/-- A definition whose base is checked by a command, and a stage above production that wants
the default check. -/
def pinging : ImageLock.Definition :=
  ⟨Php.kind, [(.text "version", .text "7.4"),
    (.text "healthcheck", .record [("type", .text "cmd"),
      ("cmd", .record [("command", .texts ["php", "bin/health.php"])])]),
    (.text "stages", .record
      [("api", .record [("derive_from", .text "prod"), ("healthcheck", .bool true)])])], []⟩

theorem resolveStage_healthcheck_api : ∃ php resolved levels probes,
    ofDefinition pinging = .ok php ∧ php.resolveStage "api" .empty "debian" = .ok resolved ∧
    IsLevels pinging php "api" levels ∧
    ChecksHealth ((levels.findSome? (·.healthcheck)).getD (.toggle true))
      (levels.reverse.flatMap (·.externalFiles) ++ probes) resolved ∧
    resolved.healthcheck? = some (.ofFcgi "/ping" "pong") ∧
    resolved.stage.externalFiles = [Resolved.clientFile] := by
  have passes : (ofDefinition pinging).toOption.any (fun php =>
      (php.resolveStage "api" .empty "debian").toOption.any fun resolved =>
        resolved.healthcheck? == some (.ofFcgi "/ping" "pong") &&
          resolved.stage.externalFiles == [Resolved.clientFile]) = true := by
    decide +kernel
  obtain ⟨php, known, passes⟩ := (Option.any_eq_true _ _).mp passes
  obtain ⟨resolved, found, passes⟩ := (Option.any_eq_true _ _).mp passes
  obtain ⟨checked, files⟩ := Bool.and_eq_true_iff.mp passes
  have known := Act.eq_ok_of_toOption known
  have found := Act.eq_ok_of_toOption found
  obtain ⟨levels, probes, above, -, checks⟩ := resolveStage_healthcheck known found
  exact ⟨php, resolved, levels, probes, known, found, above, checks, eq_of_beq checked,
    eq_of_beq files⟩

end Definition
end Php
end ImageLock
