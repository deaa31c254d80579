/-
A stage of a PHP definition with everything that follows from it: its
healthcheck, what its integrations add, and the extensions and packages that
are inferred.
-/
import ImageLock.Php.Definition

namespace ImageLock.Php

structure Resolved where
  name : String
  baseImage : String
  version : String
  majorMinor : String
  infer : Bool
  isDev : Bool
  stage : Stage
  extraScripts : List String

namespace Resolved

def fpm (r : Resolved) : Bool := r.stage.fpm.getD true

def healthcheck? (r : Resolved) : Option HealthcheckConfig :=
  match r.stage.healthcheck with
  | some (.config config) => if config.isEnabled then some config else none
  | _ => none

def dumpOptions (r : Resolved) : Except Error String :=
  match (r.stage.dumpFlags.getD DumpFlags.none).options? with
  | some options => .ok options
  | none => .error .conflictingDumpFlags

def toNode (r : Resolved) : Node :=
  .record ([("name", .text r.name), ("base_image", .text r.baseImage),
      ("version", .text r.version), ("maj_min_version", .text r.majorMinor),
      ("infer", .bool r.infer), ("dev", .bool r.isDev)] ++
    r.stage.toFields ++
    (if r.extraScripts.isEmpty then [] else [("extra_scripts", .texts r.extraScripts)]))

/-! Integrations. -/

def probeFile (directory majorMinor : String) : ExternalFile :=
  { url := "https://blackfire.io/api/v1/releases/probe/php/linux/amd64/" ++
      String.ofList (majorMinor.toList.filter (· != '.'))
    isCompressed := true
    pattern := some "blackfire-*.so"
    destination := directory ++ "/blackfire.so"
    mode := some 0o644 }

def clientFile : ExternalFile :=
  { url := "https://github.com/NiR-/fcgi-client/releases/download/v0.1.0/fcgi-client.phar"
    destination := "/usr/local/bin/fcgi-client"
    mode := some 0o750
    owner := some "1000:1000" }

def warmUp : String := "php -d display_errors=on bin/console cache:warmup --env=prod"

def addIntegration (r : Resolved) (name : String) : Except Error Resolved :=
  match name with
  | "blackfire" =>
      match Extensions.directory? r.majorMinor with
      | none => .error (.unsupportedProbe r.majorMinor)
      | some directory =>
          let files := r.stage.externalFiles ++ [probeFile directory r.majorMinor]
          .ok { r with stage := { r.stage with externalFiles := files } }
  | "symfony" =>
      let stage := { r.stage with
        postInstall := warmUp :: r.stage.postInstall
        sources := r.stage.sources ++ ["app/", "src/"] }
      .ok { r with stage, extraScripts := r.extraScripts ++ ["bin/console", "web/app.php"] }
  | other => .error (.unknownIntegration other)

/-- A request to the process manager needs a client for it. -/
def addClient (r : Resolved) : Resolved :=
  if r.healthcheck?.any fun config => config.type == .fcgi then
    { r with stage := { r.stage with externalFiles := r.stage.externalFiles ++ [clientFile] } }
  else r

def addIntegrations (r : Resolved) : Except Error Resolved := do
  return (← r.stage.integrations.foldlM addIntegration r).addClient

/-! Inference. -/

/-- The extensions that production images are better with. -/
def addAccelerators (extensions : VersionMap) : VersionMap :=
  extensions.addAny ["apcu", "opcache"]

def addRequired (extensions requirements : VersionMap) : VersionMap :=
  requirements.entries.foldl (fun extensions (name, constraint) =>
    extensions.add name constraint) extensions

/-- `soap` works with `sockets` only, and dependencies are installed from
archives. What every image has is left out. -/
def completeExtensions (extensions : VersionMap) : VersionMap :=
  let extensions := if extensions.has "soap" then extensions.add "sockets" "*" else extensions
  let extensions := extensions.add "zip" "*"
  (extensions.names.filter Extensions.isPreinstalled).foldl VersionMap.erase extensions

def inferExtensions (extensions requirements : VersionMap) : VersionMap :=
  completeExtensions (addRequired extensions requirements)

/-- The packages that the extensions need, and what dependencies are installed
with. -/
def inferPackages (packages extensions : VersionMap) (family : String) : VersionMap :=
  let packages := packages.add "libpcre3-dev" "*"
  let packages := extensions.names.foldl (fun packages name =>
    packages.addAny (Extensions.packagesOf name family)) packages
  packages.addAny ["unzip", "git"]

def inferAll (r : Resolved) (requirements : VersionMap) (family : String) : Resolved :=
  let extensions := inferExtensions r.stage.extensions requirements
  let packages := inferPackages r.stage.systemPackages extensions family
  { r with stage := { r.stage with extensions, systemPackages := packages } }

end Resolved

namespace Definition

def defaultHealthcheck : HealthcheckConfig := .ofFcgi "/ping" "pong"

/-- Only production stages with a process manager are checked. -/
def effectiveHealthcheck (stage : Stage) (isDev fpm : Bool) : Healthcheck :=
  let config := if !isDev && fpm then stage.healthcheck.bind (·.resolve defaultHealthcheck)
    else none
  match config with
  | some config => .config config
  | none => .toggle false

/-- The merged stage as it is before integrations and inference. -/
def settle (d : Definition) (name : String) (merged : MergedStage Stage) : Resolved :=
  let stage := merged.stage
  let fpm := stage.fpm.getD true
  let files := if fpm then stage.configFiles else { stage.configFiles with fpm := none }
  let extensions :=
    if d.infer && !merged.isDev && fpm then Resolved.addAccelerators stage.extensions
    else stage.extensions
  { name
    baseImage := d.baseImage
    version := d.version
    majorMinor := d.majorMinor
    infer := d.infer
    isDev := merged.isDev
    stage := { stage with
      configFiles := files
      extensions
      healthcheck := some (effectiveHealthcheck stage merged.isDev fpm) }
    extraScripts := [] }

/-- A stage with all that follows from it, for a system's family of package
names and what the project's dependencies require. -/
def resolveStage (d : Definition) (name : String) (requirements : VersionMap)
    (family : String) : Except Error Resolved := do
  let merged ← (StageSet.resolve d.baseStage d.stages name).mapError .stage
  let settled := d.settle name merged
  if !settled.fpm && settled.stage.command.isNone then throw .fpmWithoutCommand
  let complete ← settled.addIntegrations
  return if d.infer then complete.inferAll requirements family else complete

end Definition
end ImageLock.Php
