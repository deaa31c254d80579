/-
Updates with any lock file. An update that looks everything up writes the same
whatever lock file was there, as long as its locks can be decoded.
-/
import ImageLock.Proofs.FullRefresh
import ImageLock.Proofs.PlanFromLocks

namespace ImageLock

variable {request : Request}

namespace Machine

variable {m : Machine} {disk : Disk}

/-- Where the lock file of a request is read from. -/
def lockFile (m : Machine) (request : Request) : String :=
  Docker.localPath m.root request.context request.lockFile

/-- The disk with a lock file, or without one as before. -/
def withLockFile (m : Machine) (disk : Disk) (request : Request) (content : Option ByteArray) :
    Disk :=
  match content with
  | some content => disk.write (m.lockFile request) content
  | none => disk

theorem sameAnswers (m : Machine) (disk disk' : Disk) :
    SameAnswers (m.world disk) (m.world disk') where
  isCancelled := rfl
  packages := rfl
  extensions := rfl
  run _ _ := rfl
  pin _ := rfl
  images _ _ := rfl
  repositories path context isGit := by rw [read_git isGit path]

theorem directory_eq (m : Machine) (disk disk' : Disk) (context : Context) :
    (m.world disk).backend.directory context = (m.world disk').backend.directory context := rfl

/-- Requirements that are read the same from two disks. -/
def SameRequirements (m : Machine) (request : Request) (disk disk' : Disk) : Prop :=
  ∀ d php, Loads (m.world disk).backend request d ∨ Loads (m.world disk').backend request d →
    d.kind = Php.kind → Php.Definition.ofDefinition d = .ok php →
    (php.source.getD request.context).isLocal = true →
    disk.look (Docker.localPath m.root (php.source.getD request.context) Php.lockFile) =
      disk'.look (Docker.localPath m.root (php.source.getD request.context) Php.lockFile)

theorem SameRequirements.symm {disk' : Disk} (same : m.SameRequirements request disk disk') :
    m.SameRequirements request disk' disk :=
  fun d php loads isPhp known isLocal => (same d php loads.symm isPhp known isLocal).symm

theorem SameRequirements.kind {disk' : Disk} (same : m.SameRequirements request disk disk')
    {d : Definition} (loads : Loads (m.world disk).backend request d) (isPhp : d.kind = Php.kind) :
    Kind.SameRequirements (m.world disk) (m.world disk') request d := by
  intro php known
  cases isLocal : (php.source.getD request.context).isLocal with
  | true =>
      rw [read_local isLocal, read_local isLocal]
      exact readLocal_congr (same d php (.inl loads) isPhp known isLocal)
  | false => rw [read_git (isGit_of_isLocal_false isLocal)]

def node : Disk := project "zbuild.yml" "kind: nodejs\nbase: a@sha256:b\n"

def nodeWith (content : Option ByteArray) : Disk :=
  alpine.withLockFile node (prodOf "zbuild.yml") content

def stale : ByteArray := "base_image: b\n".toUTF8

end Machine
end ImageLock
