/-
Package versions from the indexes of repositories, which are kept for some
time after they were downloaded.
-/
import ImageLock.Archive.Gzip
import ImageLock.Digest.Sha256
import ImageLock.Duration
import ImageLock.Packages.Basic
import ImageLock.Packages.Index
import ImageLock.Remote
import ImageLock.Text.Utf8

namespace ImageLock

/-- Repositories in the order in which they are looked through, and how long a
downloaded index stays good. -/
structure Depot where
  repositories : List Repository
  arch : String
  ttl : Duration
  transport : Transport

namespace Depot

def defaultTtl : Duration := .ofSeconds (6 * 60 * 60)

/-- The name of the file that keeps the index of an address. -/
def fileName (url : String) : String :=
  String.ofList ((Digest.sha256 url.toUTF8).toList.take 16) ++ ".gz"

/-- A file of the future is as little use as one that is too old. -/
def isFresh (ttl : Duration) (now : Rat) (file : StoredIndex) : Bool :=
  let age := now - file.storedAt
  0 ≤ age && age < ttl.inSeconds

def download (d : Depot) (url : String) : Act PackageError ByteArray := do
  let response ← (Act.ofReply (d.transport url)).mapError (.fetch url)
  if response.isSuccess then return response.body
  else Act.fail (.fetch url response.statusText)

/-- The compressed index of an address, stored or downloaded. -/
def fetch (d : Depot) (isCancelled : Bool) (url : String) : Act PackageError ByteArray := do
  let store ← Act.getIndexes
  let stored := (store.files.find? (fileName url)).filter (isFresh d.ttl store.now)
  match stored with
  | some file => return file.content
  | none =>
      if isCancelled then Act.fail .cancelled
      else
        let content ← d.download url
        let store ← Act.getIndexes
        Act.setIndexes
          { store with files := store.files.insert (fileName url) ⟨content, store.now⟩ }
        return content

/-- The index of one repository. -/
def readIndex (url : String) (content : ByteArray) : Except PackageError (Names String) :=
  match (Archive.gunzip? content).bind Text.ofBytes? with
  | some text => .ok (PackageIndex.parse text)
  | none => .error (.unusable url)

/-- Loads the indexes of all repositories; an earlier one comes first. -/
def load (d : Depot) (isCancelled : Bool) : Act PackageError (Names String) :=
  d.repositories.foldlM (fun index repository => do
    let url := repository.indexUrl d.arch
    let content ← d.fetch isCancelled url
    return PackageIndex.addMissing index (← Act.ofExcept (readIndex url content))) Names.empty

/-- The index, loaded once. -/
def index (d : Depot) (isCancelled : Bool) : Act PackageError (Names String) := do
  match (← Act.getIndexes).loaded with
  | some index => return index
  | none =>
      let index ← d.load isCancelled
      let store ← Act.getIndexes
      Act.setIndexes { store with loaded := some index }
      return index

/-- Adds the versions that the index has. -/
def addIndexed (resolved : VersionMap) (index : Names String) (names : List String) :
    VersionMap :=
  names.foldl (fun resolved name =>
    match index.find? name with
    | some version => resolved.overwrite name version
    | none => resolved) resolved

def resolve (d : Depot) (isCancelled : Bool) (packages : VersionMap) :
    Act PackageError VersionMap := do
  let pinned := Packages.pinned packages
  let names := Packages.openNames packages
  if names.isEmpty then return pinned
  let resolved := addIndexed pinned (← d.index isCancelled) names
  Act.ofExcept (Packages.checkComplete packages resolved)
  return resolved

end Depot
end ImageLock
