/-
The kinds that are known by name, and which of them can hold a webserver.
-/
import ImageLock.Names
import ImageLock.Text.Quoted

namespace ImageLock

/-- What is registered under a name. -/
structure Registration (α : Type) where
  handler : α
  embedsWebserver : Bool

abbrev Registry (α : Type) := Names (Registration α)

/-- No kind has this name. -/
structure UnknownKind where
  name : String
deriving DecidableEq, Repr

def UnknownKind.message (error : UnknownKind) : String :=
  "unknown kind " ++ Text.quoted error.name

namespace Registry

variable {α : Type}

def empty : Registry α := Names.empty

/-- Registers a name, in place of what it stood for before. -/
def register (registry : Registry α) (name : String) (handler : α) (embeds : Bool) :
    Registry α :=
  registry.insert name ⟨handler, embeds⟩

def find (registry : Registry α) (name : String) : Except UnknownKind α :=
  match registry.find? name with
  | some registration => .ok registration.handler
  | none => .error ⟨name⟩

def embedsWebserver (registry : Registry α) (name : String) : Bool :=
  (registry.find? name).any (·.embedsWebserver)

end Registry
end ImageLock
