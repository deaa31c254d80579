/-
The kinds of definitions, and what each of them can do.
-/
import ImageLock.NodeJs.Lock
import ImageLock.Php.Lock
import ImageLock.Webserver.Lock

namespace ImageLock

inductive Kind where
  | php
  | nodeJs
  | webserver
deriving DecidableEq, Repr

inductive KindError where
  | php (error : Php.Error)
  | nodeJs (error : NodeJs.Error)
  | webserver (error : Webserver.Error)
deriving DecidableEq, Repr

namespace KindError

def message : KindError → String
  | .php error => error.message
  | .nodeJs error => error.message
  | .webserver error => error.message

def causes : KindError → List String
  | .php error => error.causes
  | .nodeJs error => error.causes
  | .webserver error => error.causes

end KindError

/-- The fields of a lock file, from the names in a record. -/
def lockFields (fields : Node) : Fields :=
  match fields with
  | .map fields => fields
  | _ => []

namespace Kind

/-- The locks of a definition, as fields of its lock file. -/
def lock (kind : Kind) (world : World) (request : Request) (refresh : Refresh)
    (definition : Definition) : Act KindError Fields :=
  match kind with
  | .php => do
      let locks ← (Php.lockDefinition world request refresh definition).mapError .php
      return lockFields (Php.Locks.toNode locks)
  | .nodeJs => do
      let locks ← (NodeJs.lockDefinition world refresh definition).mapError .nodeJs
      return lockFields (NodeJs.Locks.toNode locks)
  | .webserver => do
      let locks ← (Webserver.lockDefinition world refresh definition).mapError .webserver
      return lockFields locks.toNode

/-- The plan of the stage that a request names. -/
def plan (kind : Kind) (world : World) (request : Request) (definition : Definition) :
    Act KindError BuildPlan :=
  match kind with
  | .php => (Php.plan world request definition).mapError .php
  | .nodeJs => (NodeJs.plan world request definition).mapError .nodeJs
  | .webserver => (Act.ofExcept (Webserver.plan request definition)).mapError .webserver

/-- The configuration of the stage that a request names. -/
def config (kind : Kind) (world : World) (request : Request) (definition : Definition) :
    Act KindError Node :=
  match kind with
  | .php => (Php.config world request definition).mapError .php
  | .nodeJs => (NodeJs.config request definition).mapError .nodeJs
  | .webserver => (Act.ofExcept (Webserver.config definition)).mapError .webserver

end Kind
end ImageLock
