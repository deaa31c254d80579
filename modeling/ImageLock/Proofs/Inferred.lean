/-
What is inferred for a stage of a PHP image. Inference touches nothing but the extensions
and the packages of the system, whatever else is done to a stage before and after it. Which
extensions there are is told by rules, of which the first counts that says something about
a name, and the packages are those that are declared, the tools, and what the extensions
need that are there in the end.
-/
import ImageLock.Proofs.Inherited

namespace ImageLock

/-! What extensions need. -/

namespace Extensions

/-- An extension needs a package, by the table for a family of systems. -/
def Needs (family extension package : String) : Prop :=
  ∃ debian alpine, (extension, debian, alpine) ∈ packages ∧
    package ∈ if family = "alpine" then alpine else debian

/-- No extension has two rows. -/
theorem lookup_packages : ∀ row ∈ packages, packages.lookup row.1 = some row.2 := by
  decide +kernel

theorem mem_packagesOf {extension family package : String} :
    package ∈ packagesOf extension family ↔ Needs family extension package := by
  constructor
  · intro member
    unfold packagesOf at member
    split at member
    next debian alpine found =>
      obtain ⟨before, after, whole, -⟩ := List.lookup_eq_some_iff.mp found
      exact ⟨debian, alpine, by simp [whole], member⟩
    next => cases member
  · rintro ⟨debian, alpine, row, member⟩
    have found := lookup_packages _ row
    simpa [packagesOf, found] using member

end Extensions

namespace Php

/-! What inference makes of the maps of a stage. -/

/-- A merged stage is for production, with a process manager unless it says otherwise. -/
def serves (merged : MergedStage Stage) : Bool := !merged.isDev && merged.stage.fpm.getD true

/-- The constraint that inference gives an extension, or none where the extension is left
out: the first rule counts that says something about it. -/
def constraint? (declared required : VersionMap) (serving : Bool) (name : String) :
    Option String :=
  if name ∈ ["filter", "json", "reflection", "session", "spl", "standard"] then none
  else if let some own := declared.get? name then some own
  else if serving = true ∧ name ∈ ["apcu", "opcache"] then some "*"
  else if let some own := required.get? name then some own
  else if name = "sockets" ∧ (declared.has "soap" = true ∨ required.has "soap" = true) then
    some "*"
  else if name = "zip" then some "*"
  else none

/-- An extension that is declared or required, that production is better with, or that
something else does not work without. -/
inductive Wanted (declared required : VersionMap) (serving : Bool) : String → Prop where
  | declared {name : String} (own : declared.has name = true) :
      Wanted declared required serving name
  | accelerator {name : String} (on : serving = true) (member : name ∈ ["apcu", "opcache"]) :
      Wanted declared required serving name
  | required {name : String} (own : required.has name = true) :
      Wanted declared required serving name
  | sockets (soap : declared.has "soap" = true ∨ required.has "soap" = true) :
      Wanted declared required serving "sockets"
  | zip : Wanted declared required serving "zip"

theorem wanted_iff {declared required : VersionMap} {serving : Bool} {name : String} :
    Wanted declared required serving name ↔ declared.has name = true ∨
      (serving = true ∧ name ∈ ["apcu", "opcache"]) ∨ required.has name = true ∨
      (name = "sockets" ∧ (declared.has "soap" = true ∨ required.has "soap" = true)) ∨
      name = "zip" := by
  constructor
  · intro wanted
    cases wanted with
    | declared own => exact .inl own
    | accelerator on member => exact .inr (.inl ⟨on, member⟩)
    | required own => exact .inr (.inr (.inl own))
    | sockets soap => exact .inr (.inr (.inr (.inl ⟨rfl, soap⟩)))
    | zip => exact .inr (.inr (.inr (.inr rfl)))
  · rintro (own | ⟨on, member⟩ | own | ⟨rfl, soap⟩ | rfl)
    · exact .declared own
    · exact .accelerator on member
    · exact .required own
    · exact .sockets soap
    · exact .zip

/-- The rules one after the other, each for what those before it say nothing about. -/
theorem constraint?_eq_or (declared required : VersionMap) (serving : Bool) (name : String) :
    constraint? declared required serving name =
      if name ∈ ["filter", "json", "reflection", "session", "spl", "standard"] then none
      else (declared.get? name).or
        ((if serving = true ∧ name ∈ ["apcu", "opcache"] then some "*" else none).or
          ((required.get? name).or
            ((if name = "sockets" ∧ (declared.has "soap" = true ∨ required.has "soap" = true) then
                some "*" else none).or
              (if name = "zip" then some "*" else none)))) := by
  unfold constraint?
  split
  · rfl
  · cases declared.get? name with
    | some own => rfl
    | none =>
        by_cases served : serving = true ∧ name ∈ ["apcu", "opcache"]
        · simp only [if_pos served, Option.none_or, Option.some_or]
        · simp only [if_neg served, Option.none_or]
          cases required.get? name with
          | some own => rfl
          | none =>
              by_cases sound : name = "sockets" ∧
                  (declared.has "soap" = true ∨ required.has "soap" = true)
              · simp only [if_pos sound, Option.none_or, Option.some_or]
              · simp only [if_neg sound, Option.none_or]

/-- An extension has a constraint if it is wanted and not in every image already. -/
theorem isSome_constraint? {declared required : VersionMap} {serving : Bool} {name : String} :
    (constraint? declared required serving name).isSome = true ↔
      Wanted declared required serving name ∧
        name ∉ ["filter", "json", "reflection", "session", "spl", "standard"] := by
  rw [constraint?_eq_or, wanted_iff]
  by_cases preinstalled : name ∈ ["filter", "json", "reflection", "session", "spl", "standard"]
  · simp only [preinstalled, if_true, Option.isSome_none, Bool.false_eq_true, not_true, and_false]
  · have star (rule : Prop) [Decidable rule] :
        (if rule then some "*" else none).isSome = true ↔ rule := by
      by_cases holds : rule <;> simp [holds]
    simp only [preinstalled, if_false, not_false_eq_true, and_true, Option.isSome_or,
      Bool.or_eq_true, VersionMap.isSome_get?, star]

/-- A package that one of the extensions needs, or that images are made with. -/
def Needed (extensions : VersionMap) (family package : String) : Prop :=
  package ∈ ["libpcre3-dev", "unzip", "git"] ∨
    ∃ extension, extensions.has extension = true ∧ Extensions.Needs family extension package

/-- The packages are those that are declared, as they are declared, and any version of what
is needed beside them. -/
structure Supplies (declared extensions : VersionMap) (family : String) (packages : VersionMap) :
    Prop where
  kept : ∀ package version, declared.get? package = some version →
    packages.get? package = some version
  needed : ∀ package, declared.get? package = none → Needed extensions family package →
    packages.get? package = some "*"
  only : ∀ package, packages.has package = true →
    declared.has package = true ∨ Needed extensions family package

namespace Resolved

variable {m : VersionMap}

theorem isSome_addRequired (m required : VersionMap) :
    (addRequired m required).content.isSome = m.content.isSome :=
  VersionMap.isSome_foldl required.entries _ fun m e => VersionMap.isSome_add m e.1 e.2

theorem get?_addRequired (there : m.content.isSome = true) (required : VersionMap)
    (name : String) :
    (addRequired m required).get? name = (m.get? name).or (required.get? name) := by
  rw [← VersionMap.lookup_entries required]
  exact VersionMap.get?_foldl_add required.entries there name

theorem get?_completeExtensions (there : m.content.isSome = true) (name : String) :
    (completeExtensions m).get? name =
      if Extensions.isPreinstalled name = true then none
      else ((m.get? name).or
        (if name = "sockets" ∧ m.has "soap" = true then some "*" else none)).or
        (if name = "zip" then some "*" else none) := by
  unfold completeExtensions
  dsimp only
  generalize whole : (if m.has "soap" = true then m.add "sockets" "*" else m) = sound
  have given : sound.content.isSome = true := by
    rw [← whole]
    split
    · exact (VersionMap.isSome_add m "sockets" "*").trans there
    · exact there
  have entry : sound.get? name = (m.get? name).or
      (if name = "sockets" ∧ m.has "soap" = true then some "*" else none) := by
    rw [← whole]
    by_cases soap : m.has "soap" = true
    · rw [if_pos soap, VersionMap.get?_add there]
      simp [soap, eq_comm]
    · simp [soap]
  rw [VersionMap.get?_erase_names, VersionMap.get?_add given, entry]
  simp only [eq_comm]

/-- The extensions of a stage, with those that production is better with. -/
def accelerated (m : VersionMap) (serving : Bool) : VersionMap :=
  if serving then addAccelerators m else m

theorem isSome_accelerated (m : VersionMap) (serving : Bool) :
    (accelerated m serving).content.isSome = m.content.isSome := by
  cases serving with
  | false => rfl
  | true => exact VersionMap.isSome_addAny m ["apcu", "opcache"]

theorem get?_accelerated (there : m.content.isSome = true) (serving : Bool) (name : String) :
    (accelerated m serving).get? name = (m.get? name).or
      (if serving = true ∧ name ∈ ["apcu", "opcache"] then some "*" else none) := by
  cases serving with
  | false => simp [accelerated]
  | true =>
      have added := VersionMap.get?_addAny there ["apcu", "opcache"] name
      simpa [accelerated, addAccelerators] using added

/-- Inference gives every extension the constraint of the first rule that says something. -/
theorem get?_inferExtensions (there : m.content.isSome = true) (required : VersionMap)
    (serving : Bool) (name : String) :
    (inferExtensions (accelerated m serving) required).get? name =
      constraint? m required serving name := by
  have given := (isSome_accelerated m serving).trans there
  have entry (key : String) := (get?_addRequired given required key).trans
    (congrArg (·.or (required.get? key)) (get?_accelerated there serving key))
  have soap : (addRequired (accelerated m serving) required).has "soap" = true ↔
      m.has "soap" = true ∨ required.has "soap" = true := by
    rw [← VersionMap.isSome_get?, entry, ← VersionMap.isSome_get?, ← VersionMap.isSome_get?]
    simp
  have marked : Extensions.isPreinstalled name = true ↔
      name ∈ ["filter", "json", "reflection", "session", "spl", "standard"] :=
    List.contains_iff_mem
  rw [inferExtensions, get?_completeExtensions ((isSome_addRequired _ required).trans given), entry,
    constraint?_eq_or]
  simp only [soap, marked, Option.or_assoc]

theorem inferPackages_eq (packages extensions : VersionMap) (family : String) :
    inferPackages packages extensions family = packages.addAny
      (["libpcre3-dev"] ++ extensions.names.flatMap (Extensions.packagesOf · family) ++
        ["unzip", "git"]) := by
  rw [VersionMap.addAny_append, VersionMap.addAny_append, ← VersionMap.foldl_addAny]
  rfl

/-- What is added to the packages is needed. -/
theorem mem_needed {extensions : VersionMap} {family package : String} :
    package ∈ ["libpcre3-dev"] ++ extensions.names.flatMap (Extensions.packagesOf · family) ++
      ["unzip", "git"] ↔ Needed extensions family package := by
  simp only [List.mem_append, List.mem_flatMap, VersionMap.mem_names, Extensions.mem_packagesOf,
    Needed, List.mem_cons, List.not_mem_nil, or_false]
  exact or_right_comm

theorem supplies_inferPackages {packages : VersionMap} (there : packages.content.isSome = true)
    (extensions : VersionMap) (family : String) :
    Supplies packages extensions family (inferPackages packages extensions family) := by
  classical
  have entry (package : String) : (inferPackages packages extensions family).get? package =
      (packages.get? package).or (if Needed extensions family package then some "*" else none) := by
    rw [inferPackages_eq, VersionMap.get?_addAny there]
    simp only [mem_needed]
  constructor
  · intro package version own
    rw [entry, own, Option.some_or]
  · intro package absent needed
    rw [entry, absent, Option.none_or, if_pos needed]
  · intro package has
    rw [← VersionMap.isSome_get?, entry] at has
    by_cases needed : Needed extensions family package
    · exact .inr needed
    · rw [if_neg needed, Option.or_none, VersionMap.isSome_get?] at has
      exact .inl has

/-! What does not touch the maps. -/

/-- A stage with other extensions and packages, and another mark of whether they are
inferred. -/
def withInferred (r : Resolved) (infer : Bool) (extensions systemPackages : VersionMap) :
    Resolved :=
  { r with infer, stage := { r.stage with extensions, systemPackages } }

variable {r r' : Resolved}

theorem fpm_withInferred (r : Resolved) (infer : Bool) (extensions packages : VersionMap) :
    (r.withInferred infer extensions packages).fpm = r.fpm := rfl

theorem command_withInferred (r : Resolved) (infer : Bool) (extensions packages : VersionMap) :
    (r.withInferred infer extensions packages).stage.command = r.stage.command := rfl

theorem addIntegration_withInferred (r : Resolved) (infer : Bool)
    (extensions packages : VersionMap) (name : String) :
    (r.withInferred infer extensions packages).addIntegration name =
      (r.addIntegration name).map (·.withInferred infer extensions packages) := by
  unfold addIntegration
  split
  · simp only [withInferred]
    cases Extensions.directory? r.majorMinor <;> rfl
  · rfl
  · rfl

theorem foldlM_addIntegration_withInferred (names : List String) (r : Resolved) (infer : Bool)
    (extensions packages : VersionMap) :
    names.foldlM addIntegration (r.withInferred infer extensions packages) =
      (names.foldlM addIntegration r).map (·.withInferred infer extensions packages) := by
  induction names generalizing r with
  | nil => rfl
  | cons name rest ih =>
      rw [List.foldlM_cons, List.foldlM_cons, addIntegration_withInferred]
      cases r.addIntegration name with
      | error error => rfl
      | ok added => exact ih added

theorem addClient_withInferred (r : Resolved) (infer : Bool) (extensions packages : VersionMap) :
    (r.withInferred infer extensions packages).addClient =
      r.addClient.withInferred infer extensions packages := by
  have same : (r.withInferred infer extensions packages).healthcheck? = r.healthcheck? := rfl
  unfold addClient
  rw [same]
  split <;> rfl

theorem addIntegrations_withInferred (r : Resolved) (infer : Bool)
    (extensions packages : VersionMap) :
    (r.withInferred infer extensions packages).addIntegrations =
      r.addIntegrations.map (·.withInferred infer extensions packages) := by
  have same : (r.withInferred infer extensions packages).stage.integrations =
    r.stage.integrations := rfl
  unfold addIntegrations
  rw [same, foldlM_addIntegration_withInferred]
  cases r.stage.integrations.foldlM addIntegration r with
  | error error => rfl
  | ok added => exact congrArg Except.ok (addClient_withInferred added infer extensions packages)

/-- A stage that has more files, sources, scripts, and commands after installation. -/
def withAdded (r : Resolved) (files : List ExternalFile) (sources commands scripts : List String) :
    Resolved :=
  { r with
    stage := { r.stage with externalFiles := files, sources, postInstall := commands }
    extraScripts := scripts }

/-- An integration adds to lists and does nothing else. -/
theorem addIntegration_ok {name : String} (added : r.addIntegration name = .ok r') :
    ∃ files sources commands scripts, r' = r.withAdded files sources commands scripts := by
  unfold addIntegration at added
  split at added
  · cases directory : Extensions.directory? r.majorMinor with
    | none =>
        rw [directory] at added
        cases added
    | some path =>
        rw [directory] at added
        cases added
        exact ⟨_, _, _, _, rfl⟩
  · cases added
    exact ⟨_, _, _, _, rfl⟩
  · cases added

theorem foldlM_addIntegration_ok {names : List String}
    (added : names.foldlM addIntegration r = .ok r') :
    ∃ files sources commands scripts, r' = r.withAdded files sources commands scripts := by
  induction names generalizing r with
  | nil =>
      cases added
      exact ⟨_, _, _, _, rfl⟩
  | cons name rest ih =>
      rw [List.foldlM_cons] at added
      obtain ⟨middle, first, later⟩ := except_bind_ok.mp added
      obtain ⟨_, _, _, _, rfl⟩ := addIntegration_ok first
      obtain ⟨_, _, _, _, rfl⟩ := ih later
      exact ⟨_, _, _, _, rfl⟩

theorem addIntegrations_ok (added : r.addIntegrations = .ok r') :
    ∃ files sources commands scripts, r' = r.withAdded files sources commands scripts := by
  obtain ⟨middle, each, last⟩ := except_bind_ok.mp added
  obtain ⟨_, _, _, _, rfl⟩ := foldlM_addIntegration_ok each
  cases last
  unfold addClient
  split
  · exact ⟨_, _, _, _, rfl⟩
  · exact ⟨_, _, _, _, rfl⟩

/-- A stage without what is inferred. -/
def uninferred (r : Resolved) : Resolved := r.withInferred false .nil .nil

/-- A production stage with a process manager. -/
def serves (r : Resolved) : Bool := !r.isDev && r.fpm

/-- Inference, as it is done on a stage that has everything else. -/
def inferring (r : Resolved) (infer : Bool) (required : VersionMap) (family : String) : Resolved :=
  if infer then
    let extensions := inferExtensions (accelerated r.stage.extensions r.serves) required
    r.withInferred true extensions (inferPackages r.stage.systemPackages extensions family)
  else r

theorem uninferred_inferring (r : Resolved) (infer : Bool) (required : VersionMap)
    (family : String) : (r.inferring infer required family).uninferred = r.uninferred := by
  cases infer <;> rfl

theorem extensions_inferring (r : Resolved) (infer : Bool) (required : VersionMap)
    (family family' : String) :
    (r.inferring infer required family).stage.extensions =
      (r.inferring infer required family').stage.extensions := by
  cases infer <;> rfl

end Resolved

namespace Definition

/-- A definition with another mark of whether its stages are inferred. -/
def withInfer (d : Definition) (infer : Bool) : Definition := { d with infer }

/-- A stage with nothing inferred. -/
def resolveBare (d : Definition) (name : String) : Except Error Resolved :=
  (d.withInfer false).resolveStage name .nil ""

theorem resolveBare_withInfer (d : Definition) (infer : Bool) (name : String) :
    (d.withInfer infer).resolveBare name = d.resolveBare name := rfl

theorem resolveStage_of_error (d : Definition) {name : String} {error : StageError}
    (chain : StageSet.resolve d.baseStage d.stages name = .error error) (required : VersionMap)
    (family : String) : d.resolveStage name required family = .error (.stage error) := by
  unfold resolveStage
  rw [chain]
  rfl

/-- What is done with a stage once its chain is merged. -/
theorem resolveStage_of_ok (d : Definition) {name : String} {merged : MergedStage Stage}
    (chain : StageSet.resolve d.baseStage d.stages name = .ok merged) (required : VersionMap)
    (family : String) :
    d.resolveStage name required family =
      if !(d.settle name merged).fpm && (d.settle name merged).stage.command.isNone then
        .error .fpmWithoutCommand
      else (d.settle name merged).addIntegrations.map fun complete =>
        if d.infer then complete.inferAll required family else complete := by
  unfold resolveStage
  rw [chain]
  dsimp only [Act.ok_mapError, bind, Except.bind]
  split
  · rfl
  · cases (d.settle name merged).addIntegrations <;> rfl

/-- A stage with nothing inferred has the maps of its chain. -/
theorem resolveBare_ok {d : Definition} {name : String} {bare : Resolved}
    (found : d.resolveBare name = .ok bare) :
    ∃ merged, StageSet.resolve d.baseStage d.stages name = .ok merged ∧
      bare.isDev = merged.isDev ∧ bare.stage.fpm = merged.stage.fpm ∧
      bare.stage.extensions = merged.stage.extensions ∧
      bare.stage.systemPackages = merged.stage.systemPackages := by
  unfold resolveBare at found
  cases chain : StageSet.resolve d.baseStage d.stages name with
  | error error =>
      rw [resolveStage_of_error (d.withInfer false) chain] at found
      cases found
  | ok merged =>
      rw [resolveStage_of_ok (d.withInfer false) chain] at found
      split at found
      · cases found
      · cases added : ((d.withInfer false).settle name merged).addIntegrations with
        | error error =>
            rw [added] at found
            cases found
        | ok complete =>
            rw [added] at found
            obtain ⟨files, sources, commands, scripts, rfl⟩ := Resolved.addIntegrations_ok added
            cases found
            exact ⟨merged, rfl, rfl, rfl, rfl, rfl⟩

theorem settle_eq_withInferred (d : Definition) (name : String) (merged : MergedStage Stage) :
    d.settle name merged = ((d.withInfer false).settle name merged).withInferred d.infer
      (Resolved.accelerated merged.stage.extensions
        (d.infer && !merged.isDev && merged.stage.fpm.getD true))
      merged.stage.systemPackages := rfl

/-- Resolving a stage is resolving it with nothing inferred, and inferring afterwards. -/
theorem resolveStage_eq (d : Definition) (name : String) (required : VersionMap)
    (family : String) :
    d.resolveStage name required family =
      (d.resolveBare name).map (·.inferring d.infer required family) := by
  unfold resolveBare
  cases chain : StageSet.resolve d.baseStage d.stages name with
  | error error =>
      rw [d.resolveStage_of_error chain, (d.withInfer false).resolveStage_of_error chain]
      rfl
  | ok merged =>
      rw [d.resolveStage_of_ok chain, (d.withInfer false).resolveStage_of_ok chain,
        d.settle_eq_withInferred, Resolved.addIntegrations_withInferred,
        Resolved.fpm_withInferred, Resolved.command_withInferred]
      split
      · rfl
      · cases added : ((d.withInfer false).settle name merged).addIntegrations with
        | error error => rfl
        | ok complete =>
            -- Integrations add to lists, so the maps and the flags are those of the chain.
            obtain ⟨files, sources, commands, scripts, rfl⟩ := Resolved.addIntegrations_ok added
            cases d with
            | mk baseStage baseImage version majorMinor infer stages source locks =>
                cases infer with
                | false => rfl
                | true => rfl

/-- The maps of a stage are those of its chain, with inference done on them or as they are. -/
theorem resolveStage_ok {d : Definition} {name family : String} {required : VersionMap}
    {resolved : Resolved} (found : d.resolveStage name required family = .ok resolved) :
    ∃ merged, StageSet.resolve d.baseStage d.stages name = .ok merged ∧
      if d.infer = true then
        resolved.stage.extensions = Resolved.inferExtensions
          (Resolved.accelerated merged.stage.extensions (serves merged)) required ∧
        resolved.stage.systemPackages = Resolved.inferPackages merged.stage.systemPackages
          resolved.stage.extensions family
      else resolved.stage.extensions = merged.stage.extensions ∧
        resolved.stage.systemPackages = merged.stage.systemPackages := by
  rw [resolveStage_eq] at found
  cases begun : d.resolveBare name with
  | error error =>
      rw [begun] at found
      cases found
  | ok bare =>
      rw [begun] at found
      obtain ⟨merged, chain, isDev, fpm, extensions, packages⟩ := resolveBare_ok begun
      have same : bare.serves = serves merged := by
        simp [Resolved.serves, Resolved.fpm, serves, isDev, fpm]
      refine ⟨merged, chain, ?_⟩
      obtain rfl : bare.inferring d.infer required family = resolved := Except.ok.inj found
      cases d.infer with
      | true =>
          rw [if_pos rfl, ← same, ← extensions, ← packages]
          exact ⟨rfl, rfl⟩
      | false => exact ⟨extensions, packages⟩

/-- In a definition that is accepted, the maps of every stage are given. -/
theorem hasMaps {d : ImageLock.Definition} {php : Definition} {name : String}
    {merged : MergedStage Stage} (known : ofDefinition d = .ok php)
    (chain : StageSet.resolve php.baseStage php.stages name = .ok merged) :
    merged.stage.HasMaps := by
  obtain ⟨base, declared, -, base_eq, stages_eq⟩ := declares known
  obtain ⟨stages, chained⟩ := StageSet.chain_of_resolve chain
  rw [StageSet.resolve, chained, base_eq] at chain
  cases chain
  exact StageSet.given_mergeChain grounds.stays (grounds.stays _ _ grounds.given_ground) stages

/-- Inferred extensions, exactly. They are those of the chain where nothing is inferred. -/
theorem resolveStage_extensions {d : ImageLock.Definition} {php : Definition}
    {name family : String} {required : VersionMap} {resolved : Resolved}
    (known : ofDefinition d = .ok php)
    (found : php.resolveStage name required family = .ok resolved) :
    ∃ merged, StageSet.resolve php.baseStage php.stages name = .ok merged ∧
      if php.infer = true then
        ∀ extension, resolved.stage.extensions.get? extension =
          constraint? merged.stage.extensions required (serves merged) extension
      else resolved.stage.extensions = merged.stage.extensions := by
  obtain ⟨merged, chain, maps⟩ := resolveStage_ok found
  refine ⟨merged, chain, ?_⟩
  have given := VersionMap.isSome_content.mpr (hasMaps known chain).2
  by_cases on : php.infer = true
  · rw [if_pos on] at maps ⊢
    intro extension
    rw [maps.1]
    exact Resolved.get?_inferExtensions given required (serves merged) extension
  · rw [if_neg on] at maps ⊢
    exact maps.1

/-- A definition with extensions that are declared, a stage that gives none, and what
dependencies require of it. -/
def sounding : ImageLock.Definition :=
  ⟨Php.kind, [(.text "version", .text "7.4"),
    (.text "system_packages", .record [("git", .text "1:2.30")]),
    (.text "extensions", .record
      [("apcu", .text "5.1.0"), ("json", .text "*"), ("soap", .text "*")]),
    (.text "stages", .record [("prod", .record [("extensions", .null)])])], []⟩

def soundingRequired : VersionMap :=
  .ofList [("filter", "*"), ("intl", "*"), ("redis", "^5"), ("soap", "^1")]

theorem resolveStage_extensions_sounding : ∃ php resolved merged,
    ofDefinition sounding = .ok php ∧
    php.resolveStage "prod" soundingRequired "alpine" = .ok resolved ∧
    StageSet.resolve php.baseStage php.stages "prod" = .ok merged ∧
    (∀ extension, resolved.stage.extensions.get? extension =
      constraint? merged.stage.extensions soundingRequired (serves merged) extension) ∧
    resolved.stage.extensions.entries = [("apcu", "5.1.0"), ("intl", "*"), ("opcache", "*"),
      ("redis", "^5"), ("soap", "*"), ("sockets", "*"), ("zip", "*")] := by
  have passes : (ofDefinition sounding).toOption.any (fun php => php.infer &&
      (php.resolveStage "prod" soundingRequired "alpine").toOption.any fun resolved =>
        resolved.stage.extensions.entries == [("apcu", "5.1.0"), ("intl", "*"), ("opcache", "*"),
          ("redis", "^5"), ("soap", "*"), ("sockets", "*"), ("zip", "*")]) = true := by
    decide +kernel
  obtain ⟨php, known, passes⟩ := (Option.any_eq_true _ _).mp passes
  obtain ⟨on, passes⟩ := Bool.and_eq_true_iff.mp passes
  obtain ⟨resolved, found, entries⟩ := (Option.any_eq_true _ _).mp passes
  have known := Act.eq_ok_of_toOption known
  have found := Act.eq_ok_of_toOption found
  obtain ⟨merged, chain, told⟩ := resolveStage_extensions known found
  rw [if_pos on] at told
  exact ⟨php, resolved, merged, known, found, chain, told, eq_of_beq entries⟩

/-- Inferred packages, exactly. Those that are declared stay as they are declared, nothing
that is needed is missing, and nothing else is there; what is needed is told by the
extensions that are there in the end. -/
theorem resolveStage_packages {d : ImageLock.Definition} {php : Definition}
    {name family : String} {required : VersionMap} {resolved : Resolved}
    (known : ofDefinition d = .ok php)
    (found : php.resolveStage name required family = .ok resolved) :
    ∃ merged, StageSet.resolve php.baseStage php.stages name = .ok merged ∧
      if php.infer = true then
        Supplies merged.stage.systemPackages resolved.stage.extensions family
          resolved.stage.systemPackages ∧
        ∀ extension, resolved.stage.extensions.has extension = true ↔
          Wanted merged.stage.extensions required (serves merged) extension ∧
            extension ∉ ["filter", "json", "reflection", "session", "spl", "standard"]
      else resolved.stage.systemPackages = merged.stage.systemPackages := by
  obtain ⟨merged, chain, maps⟩ := resolveStage_ok found
  refine ⟨merged, chain, ?_⟩
  have given := hasMaps known chain
  by_cases on : php.infer = true
  · rw [if_pos on] at maps ⊢
    constructor
    · rw [maps.2]
      exact Resolved.supplies_inferPackages (VersionMap.isSome_content.mpr given.1)
        resolved.stage.extensions family
    · intro extension
      rw [← VersionMap.isSome_get?, maps.1,
        Resolved.get?_inferExtensions (VersionMap.isSome_content.mpr given.2)]
      exact isSome_constraint?
  · rw [if_neg on] at maps ⊢
    exact maps.2

theorem resolveStage_packages_sounding : ∃ php resolved merged,
    ofDefinition sounding = .ok php ∧
    php.resolveStage "prod" soundingRequired "alpine" = .ok resolved ∧
    StageSet.resolve php.baseStage php.stages "prod" = .ok merged ∧
    Supplies merged.stage.systemPackages resolved.stage.extensions "alpine"
      resolved.stage.systemPackages ∧
    (∀ extension, resolved.stage.extensions.has extension = true ↔
      Wanted merged.stage.extensions soundingRequired (serves merged) extension ∧
        extension ∉ ["filter", "json", "reflection", "session", "spl", "standard"]) ∧
    resolved.stage.systemPackages.entries = [("git", "1:2.30"), ("icu-dev", "*"),
      ("libpcre3-dev", "*"), ("libxml2-dev", "*"), ("libzip-dev", "*"), ("openssl-dev", "*"),
      ("unzip", "*")] := by
  have passes : (ofDefinition sounding).toOption.any (fun php => php.infer &&
      (php.resolveStage "prod" soundingRequired "alpine").toOption.any fun resolved =>
        resolved.stage.systemPackages.entries == [("git", "1:2.30"), ("icu-dev", "*"),
          ("libpcre3-dev", "*"), ("libxml2-dev", "*"), ("libzip-dev", "*"), ("openssl-dev", "*"),
          ("unzip", "*")]) = true := by
    decide +kernel
  obtain ⟨php, known, passes⟩ := (Option.any_eq_true _ _).mp passes
  obtain ⟨on, passes⟩ := Bool.and_eq_true_iff.mp passes
  obtain ⟨resolved, found, entries⟩ := (Option.any_eq_true _ _).mp passes
  have known := Act.eq_ok_of_toOption known
  have found := Act.eq_ok_of_toOption found
  obtain ⟨merged, chain, told⟩ := resolveStage_packages known found
  rw [if_pos on] at told
  exact ⟨php, resolved, merged, known, found, chain, told.1, told.2, eq_of_beq entries⟩

/-- Inference touches nothing but the mark, the extensions and the packages of a stage, and
the extensions are the same on every family of systems. -/
theorem resolveStage_alike (d : Definition) (name : String) (infer infer' : Bool)
    (required required' : VersionMap) (family family' : String) :
    ((d.withInfer infer).resolveStage name required family).map Resolved.uninferred =
        ((d.withInfer infer').resolveStage name required' family').map Resolved.uninferred ∧
      ((d.withInfer infer).resolveStage name required family).map (·.stage.extensions) =
        ((d.withInfer infer).resolveStage name required family').map (·.stage.extensions) := by
  simp only [resolveStage_eq, resolveBare_withInfer]
  cases d.resolveBare name with
  | error error => exact ⟨rfl, rfl⟩
  | ok found =>
      constructor
      · have one := found.uninferred_inferring infer required family
        have other := found.uninferred_inferring infer' required' family'
        exact congrArg Except.ok (one.trans other.symm)
      · exact congrArg Except.ok (found.extensions_inferring infer required family family')

end Definition
end Php

end ImageLock
