/-
How the health of a container is checked.

A healthcheck is a switch, which stands for the default check of its kind, or
a check of its own: a request whose answer is known, or a command.
-/
import ImageLock.Decode
import ImageLock.Duration

namespace ImageLock

inductive HealthcheckType where
  | disabled
  | http
  | fcgi
  | cmd
deriving DecidableEq, Repr

namespace HealthcheckType

def name : HealthcheckType → String
  | .disabled => "disabled"
  | .http => "http"
  | .fcgi => "fcgi"
  | .cmd => "cmd"

def all : List HealthcheckType := [.disabled, .http, .fcgi, .cmd]

def ofName? (name : String) : Option HealthcheckType := all.find? fun t => t.name == name

end HealthcheckType

/-- A request whose answer must be the expected text. -/
structure HealthcheckRequest where
  path : String
  expected : String
deriving DecidableEq, Repr

structure HealthcheckCommand where
  isShell : Bool
  command : List String
deriving DecidableEq, Repr

structure HealthcheckConfig where
  type : HealthcheckType
  http : Option HealthcheckRequest
  fcgi : Option HealthcheckRequest
  cmd : Option HealthcheckCommand
  interval : Duration
  timeout : Duration
  retries : Nat
deriving DecidableEq, Repr

/-- A healthcheck as a definition states it. -/
inductive Healthcheck where
  | toggle (isOn : Bool)
  | config (config : HealthcheckConfig)
deriving DecidableEq, Repr

inductive HealthcheckError where
  | unsupportedType (type : HealthcheckType)
  | missingSection (type : HealthcheckType)
deriving DecidableEq, Repr

def HealthcheckError.message : HealthcheckError → String
  | .unsupportedType t => "healthcheck type " ++ t.name ++ " is not supported here"
  | .missingSection t =>
      "healthcheck type " ++ t.name ++ " requires a " ++ t.name ++ " section"

namespace HealthcheckConfig

def defaultInterval : Duration := .ofSeconds 10

def defaultTimeout : Duration := .ofSeconds 1

def defaultRetries : Nat := 3

/-- A request to the process manager that listens next to the check. -/
def ofFcgi (path expected : String) : HealthcheckConfig :=
  ⟨.fcgi, none, some ⟨path, expected⟩, none, defaultInterval, defaultTimeout, defaultRetries⟩

def isEnabled (c : HealthcheckConfig) : Bool := c.type != .disabled

def hasSection (c : HealthcheckConfig) : Bool :=
  match c.type with
  | .http => c.http.isSome
  | .fcgi => c.fcgi.isSome
  | .cmd => c.cmd.isSome
  | .disabled => true

/-- An enabled check must be of an allowed type and have its section. -/
def validate (allowed : List HealthcheckType) (c : HealthcheckConfig) :
    Except HealthcheckError Unit :=
  if !c.isEnabled then .ok ()
  else if !allowed.contains c.type then .error (.unsupportedType c.type)
  else if !c.hasSection then .error (.missingSection c.type)
  else .ok ()

/-- The test of an image: the words of its command. -/
def test (c : HealthcheckConfig) : List String :=
  let answers (request expected : String) : List String :=
    ["CMD", "http_proxy= test \"$(" ++ request ++ ")\" = \"" ++ expected ++ "\""]
  match c.type, c.http, c.fcgi, c.cmd with
  | .http, some req, _, _ =>
      answers ("curl --fail http://127.0.0.1/" ++ Text.dropStartWhile (· == '/') req.path)
        req.expected
  | .fcgi, _, some req, _ =>
      answers ("fcgi-client get 127.0.0.1:9000 " ++ req.path) req.expected
  | .cmd, _, _, some cmd => (if cmd.isShell then "CMD-SHELL" else "CMD") :: cmd.command
  | _, _, _, _ => ["NONE"]

end HealthcheckConfig

namespace Healthcheck

/-- The check that takes effect, if there is one. -/
def resolve (default : HealthcheckConfig) : Healthcheck → Option HealthcheckConfig
  | .toggle true => some default
  | .toggle false => none
  | .config c => if c.isEnabled then some c else none

def validate (allowed : List HealthcheckType) : Healthcheck → Except HealthcheckError Unit
  | .toggle _ => .ok ()
  | .config c => c.validate allowed

/-! Documents. -/

def requestNode (req : HealthcheckRequest) : Node :=
  .record [("path", .text req.path), ("expected", .text req.expected)]

def commandNode (cmd : HealthcheckCommand) : Node :=
  .record [("shell", .bool cmd.isShell), ("command", .texts cmd.command)]

def configNode (c : HealthcheckConfig) : Node :=
  .record ([("type", .text c.type.name)] ++
    Node.optional "http" (c.http.map requestNode) ++
    Node.optional "fcgi" (c.fcgi.map requestNode) ++
    Node.optional "cmd" (c.cmd.map commandNode) ++
    [("interval", .text c.interval.format), ("timeout", .text c.timeout.format),
      ("retries", .int c.retries)])

def toNode : Healthcheck → Node
  | .toggle isOn => .bool isOn
  | .config c => configNode c

/-- Names one of several names, or counts to it. -/
def nameOf? (names : List String) : Node → Option String
  | .text name => if names.contains name then some name else none
  | .int i => if 0 ≤ i then names[i.toNat]? else none
  | _ => none

/-- The fields of a record, which may also be written as a list of their
values in order. -/
def fieldsOf? (names : List String) : Node → Option (List (String × Node))
  | .map fields => do
      let named ← fields.mapM fun (key, value) => do return (← nameOf? names key, value)
      if (named.map (·.1)).Nodup then some named else none
  | .list items => if items.length ≤ names.length then some (names.zip items) else none
  | _ => none

abbrev Read (α : Type) := Node → Option α

def text? : Read String
  | .text s => some s
  | _ => none

def bool? : Read Bool
  | .bool b => some b
  | _ => none

def texts? : Read (List String)
  | .list items => items.mapM text?
  | _ => none

def count? : Read Nat
  | .int i => if 0 ≤ i ∧ i < 0x100000000 then some i.toNat else none
  | _ => none

def duration? (node : Node) : Option Duration := (text? node).bind Duration.parse?

def option? {α : Type} (read : Read α) : Read (Option α)
  | .null => some none
  | node => (read node).map some

/-- A text, or a mapping with one entry that has no value. -/
def type? : Read HealthcheckType
  | .text name => HealthcheckType.ofName? name
  | .map [(key, .null)] =>
      (nameOf? (HealthcheckType.all.map (·.name)) key).bind HealthcheckType.ofName?
  | _ => none

def need? {α : Type} (fields : List (String × Node)) (name : String) (read : Read α) :
    Option α :=
  (fields.lookup name).bind read

def get? {α : Type} (fields : List (String × Node)) (name : String) (read : Read α)
    (absent : α) : Option α :=
  match fields.lookup name with
  | some node => read node
  | none => some absent

def request? : Read HealthcheckRequest := fun node => do
  let fields ← fieldsOf? ["path", "expected"] node
  return ⟨← need? fields "path" text?, ← need? fields "expected" text?⟩

def command? : Read HealthcheckCommand := fun node => do
  let fields ← fieldsOf? ["shell", "command"] node
  return ⟨← get? fields "shell" bool? false, ← need? fields "command" texts?⟩

def config? : Read HealthcheckConfig := fun node => do
  let fields ← fieldsOf? ["type", "http", "fcgi", "cmd", "interval", "timeout", "retries"] node
  return {
    type := ← need? fields "type" type?
    http := ← get? fields "http" (option? request?) none
    fcgi := ← get? fields "fcgi" (option? request?) none
    cmd := ← get? fields "cmd" (option? command?) none
    interval := ← get? fields "interval" duration? HealthcheckConfig.defaultInterval
    timeout := ← get? fields "timeout" duration? HealthcheckConfig.defaultTimeout
    retries := ← get? fields "retries" count? HealthcheckConfig.defaultRetries }

/-- A switch or a check; what is wrong in a check is not told. Tagged values
are refused, as none of the forms below has them. -/
def read : Decode.Reader Healthcheck
  | .bool isOn => .ok (.toggle isOn)
  | node =>
      match config? node with
      | some c => .ok (.config c)
      | none => .error .unfit

end Healthcheck
end ImageLock
