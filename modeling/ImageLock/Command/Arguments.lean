/-
The arguments of the command line.
-/
import ImageLock.Command.Place
import ImageLock.Duration
import ImageLock.Packages.Depot
import ImageLock.Request

namespace ImageLock.Command

inductive Format where
  | text
  | json
deriving DecidableEq, Repr

inductive Action where
  | update (refresh : Refresh) (repositories : List String) (ttl : Duration) (arch : Option Arch)
  | config (stage : String)
  | plan (stage : String) (format : Format)
deriving DecidableEq, Repr

structure Invocation where
  file : String
  context : String
  docker : String
  action : Action
deriving DecidableEq, Repr

/-- What arguments ask for. -/
inductive Parsed where
  | invocation (invocation : Invocation)
  | help
  | misuse
deriving DecidableEq, Repr

/-! Options. -/

/-- An option: its long and short names, whether it has a value, and whether
it may be given more than once. -/
structure OptionName where
  long : String
  short : Option Char
  hasValue : Bool := true
  isRepeatable : Bool := false

def globalOptions : List OptionName :=
  [⟨"file", some 'f', true, false⟩, ⟨"context", some 'c', true, false⟩,
    ⟨"log-level", none, true, false⟩, ⟨"docker-bin", none, true, false⟩,
    ⟨"timeout", none, true, false⟩, ⟨"help", some 'h', false, false⟩]

def versionOption : OptionName := ⟨"version", some 'V', false, false⟩

def stageOption : OptionName := ⟨"stage", some 's', true, false⟩

/-- The options of a command, or nothing if there is no such command. -/
def commandOptions? : String → Option (List OptionName)
  | "update" =>
      some [⟨"no-image-update", none, false, false⟩, ⟨"no-packages-update", none, false, false⟩,
        ⟨"no-extensions-update", none, false, false⟩, ⟨"dpkg-repo", none, true, true⟩,
        ⟨"index-ttl", none, true, false⟩, ⟨"arch", none, true, false⟩]
  | "debug-config" => some [stageOption]
  | "plan" => some [stageOption, ⟨"output", some 'o', true, false⟩]
  | _ => none

/-- Options that were given, with their values, the last one first. -/
abbrev Given := List (String × String)

/-- The next argument as a value: it must not look like an option. -/
def takeValue : List String → Option (String × List String)
  | [] => none
  | value :: rest =>
      match value.toList with
      | '-' :: _ :: _ => none
      | _ => some (value, rest)

/-- An option at the front of the arguments. -/
def takeOption (options : List OptionName) (argument : String) (rest : List String) :
    Option (OptionName × String × List String) :=
  match argument.toList with
  | '-' :: '-' :: long => do
      let (name, value?) := match Text.cutAt '=' long with
        | some (name, value) => (String.ofList name, some (String.ofList value))
        | none => (String.ofList long, none)
      let option ← options.find? fun o => o.long == name
      match option.hasValue, value? with
      | true, some value => return (option, value, rest)
      | true, none =>
          let (value, rest) ← takeValue rest
          return (option, value, rest)
      | false, none => return (option, "", rest)
      | false, some _ => none
  | '-' :: short :: attached => do
      let option ← options.find? fun o => o.short == some short
      match option.hasValue, attached with
      | true, [] =>
          let (value, rest) ← takeValue rest
          return (option, value, rest)
      | true, '=' :: value => return (option, String.ofList value, rest)
      | true, value => return (option, String.ofList value, rest)
      | false, [] => return (option, "", rest)
      | false, _ => none
  | _ => none

/-- Why reading options ended early. -/
inductive Stop where
  | help
  | misuse

def valueFits (option value : String) : Bool :=
  match option with
  | "timeout" | "index-ttl" => (Duration.parse? value).isSome
  | "arch" => (Arch.ofName? value).isSome
  | "output" => value == "text" || value == "json"
  | _ => true

/-- Reads options up to the first argument that is none. `fuel` bounds their
number. -/
def takeOptions (options : List OptionName) :
    Nat → List String → Given → Except Stop (Given × List String)
  | 0, _, _ => .error .misuse
  | fuel + 1, arguments, given =>
      match arguments with
      | [] => .ok (given, [])
      | argument :: rest =>
          match argument.toList with
          | '-' :: _ :: _ =>
              if argument == "--" then .ok (given, argument :: rest)
              else match takeOption options argument rest with
                | none => .error .misuse
                | some (option, value, rest) =>
                    if option.long == "help" || option.long == "version" then .error .help
                    else if !option.isRepeatable && given.any (·.1 == option.long) then
                      .error .misuse
                    else if !valueFits option.long value then .error .misuse
                    else takeOptions options fuel rest ((option.long, value) :: given)
          | _ => .ok (given, argument :: rest)

def refreshOf (given : Given) : Refresh :=
  let isGiven (name : String) : Bool := given.any (·.1 == name)
  { image := !isGiven "no-image-update"
    packages := !isGiven "no-packages-update"
    extensions := !isGiven "no-extensions-update" }

def defaultFile : String := "zbuild.yml"

def actionOf (command : String) (given : Given) : Action :=
  let stage := (given.lookup "stage").getD "dev"
  match command with
  | "update" =>
      .update (refreshOf given)
        ((given.filter (·.1 == "dpkg-repo")).map (·.2)).reverse
        (((given.lookup "index-ttl").bind Duration.parse?).getD Depot.defaultTtl)
        ((given.lookup "arch").bind Arch.ofName?)
  | "plan" =>
      .plan stage (if given.lookup "output" == some "text" then .text else .json)
  | _ => .config stage

def invocationOf (command : String) (given : Given) : Invocation where
  file := (given.lookup "file").getD defaultFile
  context := (given.lookup "context").getD "."
  docker := (given.lookup "docker-bin").getD "docker"
  action := actionOf command given

/-- Reads a command with the options before and behind it; those behind it
count more. -/
def parse (arguments : List String) : Parsed :=
  let fuel := arguments.length + 1
  match takeOptions (versionOption :: globalOptions) fuel arguments [] with
  | .error .help => .help
  | .error .misuse => .misuse
  | .ok (_, []) => .misuse
  | .ok (before, command :: rest) =>
      if command == "help" && rest.all (fun name => (commandOptions? name).isSome) then .help
      else match commandOptions? command with
        | none => .misuse
        | some options =>
            match takeOptions (options ++ globalOptions) fuel rest [] with
            | .error .help => .help
            | .error .misuse => .misuse
            | .ok (behind, left) =>
                if left.isEmpty || left == ["--"] then
                  .invocation (invocationOf command (behind ++ before))
                else .misuse

end ImageLock.Command
