/-
Programs that ask the outside. What they asked, and the package indexes they
stored, remain when they fail.
-/
import ImageLock.Access.Basic
import ImageLock.Names

namespace ImageLock

/-- An index file as it was downloaded, and when. -/
structure StoredIndex where
  content : ByteArray
  storedAt : Rat

/-- Stored index files by name, as far as they can be read, the index that was
loaded from them, and the present time in seconds. -/
structure IndexStore where
  files : Names StoredIndex
  loaded : Option (Names String)
  now : Rat

def IndexStore.empty : IndexStore := ⟨Names.empty, none, 0⟩

/-- What is left behind: the questions in order, and the stored indexes. -/
structure Trail where
  events : List Event
  indexes : IndexStore

def Trail.start (indexes : IndexStore) : Trail := ⟨[], indexes⟩

abbrev Act (ε : Type) := ExceptT ε (StateM Trail)

namespace Act

variable {ε ε' α : Type}

def fail (error : ε) : Act ε α := ExceptT.mk (pure (.error error))

def ofExcept (result : Except ε α) : Act ε α := ExceptT.mk (pure result)

/-- Records the questions of an answer, whatever it says. -/
def ofReply (reply : Reply ε α) : Act ε α :=
  ExceptT.mk do
    modify fun trail => { trail with events := trail.events ++ reply.2 }
    return reply.1

def mapError (f : ε → ε') (act : Act ε α) : Act ε' α := ExceptT.adapt f act

/-- Goes on with what became of a program, also if it failed. -/
def attempt (act : Act ε α) : Act ε' (Except ε α) := ExceptT.mk do
  return .ok (← act.run)

def getIndexes : Act ε IndexStore := do return (← get).indexes

def setIndexes (indexes : IndexStore) : Act ε Unit :=
  modify fun trail => { trail with indexes }

/-- The outcome of a program, and what it left behind. -/
def runFrom (act : Act ε α) (indexes : IndexStore) : Except ε α × Trail :=
  (act.run).run (Trail.start indexes)

end Act
end ImageLock
