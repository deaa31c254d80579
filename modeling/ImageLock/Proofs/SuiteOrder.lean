/-
Suites in order.

The indexes of the repositories are read one after the other, and what an earlier one has for a
name stands, whatever is in the later ones. So the first stanza of the first suite counts.
-/
import ImageLock.Proofs.OneIndex
import ImageLock.Proofs.Stanzas

namespace ImageLock

open Act PackageIndex

namespace Depot

variable {d : Depot} {isCancelled : Bool} {first : Trail} {indexes : List (List Stanza)}

/-- A compressed text of stanzas. -/
def Packs (content : ByteArray) (stanzas : List Stanza) : Prop :=
  ∃ text, (Archive.gunzip? content).bind Text.ofBytes? = some text ∧ Lists stanzas text.toList

/-- For each repository in order, from where the one before it was left, a text of stanzas is
stored or served. -/
inductive Provides (d : Depot) (isCancelled : Bool) :
    List Repository → Trail → List (List Stanza) → Prop where
  | done (first : Trail) : Provides d isCancelled [] first []
  | next {repository : Repository} {rest : List Repository} {first middle : Trail}
      {content : ByteArray} {stanzas : List Stanza} {indexes : List (List Stanza)}
      (fetched : (d.fetch isCancelled (repository.indexUrl d.arch)).after first =
        (.ok content, middle))
      (packs : Packs content stanzas) (later : Provides d isCancelled rest middle indexes) :
      Provides d isCancelled (repository :: rest) first (stanzas :: indexes)

/-- The version in the first of the indexes that has the package. -/
def firstIn? (indexes : List (List Stanza)) (package : String) : Option String :=
  indexes.findSome? fun stanzas => firstVersion? stanzas package

theorem readIndex_of_packs {content : ByteArray} {stanzas : List Stanza}
    (packs : Packs content stanzas) (url : String) :
    ∃ own, readIndex url content = .ok own ∧
      ∀ name, own.find? name = firstVersion? stanzas name := by
  obtain ⟨text, unpacked, lists⟩ := packs
  exact ⟨parse text, by rw [readIndex, unpacked], find?_parse lists⟩

/-- What is there already stays, and the repositories fill in the rest in order. -/
theorem addIndexes_provided {repositories : List Repository}
    (provides : d.Provides isCancelled repositories first indexes) (start : Names String) :
    ∃ index last, (d.addIndexes isCancelled repositories start).after first = (.ok index, last) ∧
      ∀ name, index.find? name = (start.find? name).or (firstIn? indexes name) := by
  induction provides generalizing start with
  | done first => exact ⟨start, first, rfl, fun name => (Option.or_none).symm⟩
  | @next repository rest first middle content stanzas indexes fetched packs later ih =>
      obtain ⟨own, read, finds⟩ := readIndex_of_packs packs (repository.indexUrl d.arch)
      obtain ⟨index, last, run, found⟩ := ih (addMissing start own)
      refine ⟨index, last, ?_, fun name => ?_⟩
      · simp only [addIndexes, List.foldlM_cons, bind_ok, ofExcept_ok, pure_ok]
        exact ⟨_, _, ⟨content, middle, fetched, own, _, ⟨read, rfl⟩, rfl, rfl⟩, run⟩
      · rw [found, find?_addMissing, finds, Option.or_assoc, firstIn?, firstIn?,
          List.findSome?_cons]
        cases firstVersion? stanzas name <;> rfl

/-- An index goes by what the suites have in order. -/
theorem completed_of_loaded {index : Names String} (loaded : first.indexes.loaded = some index)
    (packages : VersionMap) :
    Packages.Completed packages (fun name version => index.find? name = some version)
      ((d.resolve isCancelled packages).after first).1 := by
  by_cases closed : Packages.openNames packages = []
  · rw [resolve_eq, resolveBy_closed _ _ closed]
    exact completed_of_closed closed _
  · rw [resolve_eq, after_resolveBy _ _ closed, after_loadOnce, loaded]
    exact goesBy_of_holds d packages

/-- The first stanza of the first suite that has a package gives its version, and a package that
no suite has is missing. What was loaded for one call is good for the calls after it. -/
theorem resolves_in_order (d : Depot) (isCancelled : Bool) (packages : VersionMap) (first : Trail)
    (indexes : List (List Stanza)) (unloaded : first.indexes.loaded = none)
    (provides : d.Provides isCancelled d.repositories first indexes) :
    let outcome := (d.resolve isCancelled packages).after first
    let gives := fun name version => firstIn? indexes name = some version
    Packages.Completed packages gives outcome.1 ∧
      (Packages.openNames packages ≠ [] → ∀ cancelledLater packagesLater,
        Packages.Completed packagesLater gives
          ((d.resolve cancelledLater packagesLater).after outcome.2).1) := by
  obtain ⟨index, last, run, found⟩ := addIndexes_provided provides Names.empty
  have finds : (fun name version => firstIn? indexes name = some version) =
      fun name version => index.find? name = some version := by
    funext name version
    rw [found, Names.find?_empty, Option.none_or]
  have loads : (d.load isCancelled).after first = (.ok index, last) := run
  simp only [finds]
  by_cases closed : Packages.openNames packages = []
  · rw [resolve_eq, resolveBy_closed _ _ closed]
    exact ⟨completed_of_closed closed _, fun opened => absurd closed opened⟩
  · rw [resolve_eq, after_resolveBy _ _ closed, after_loadOnce, unloaded]
    simp only [loads]
    exact ⟨goesBy_of_holds d packages, fun _ _ later => completed_of_loaded rfl later⟩

/-! Servers. -/

/-- The server has a text of stanzas for each repository, a file that is still good has it too,
and a file is not one of two different indexes. -/
structure Stocks (d : Depot) (indexes : List (Repository × List Stanza)) (store : IndexStore) :
    Prop where
  served : ∀ index ∈ indexes, ∃ content,
    served d.transport (index.1.indexUrl d.arch) = .ok content ∧ Packs content index.2
  stored : ∀ index ∈ indexes, ∀ file, d.fresh? store (index.1.indexUrl d.arch) = some file →
    Packs file.content index.2
  apart : ∀ one ∈ indexes, ∀ other ∈ indexes,
    fileName (one.1.indexUrl d.arch) = fileName (other.1.indexUrl d.arch) → one.2 = other.2

/-- A look at one repository leaves the others served. -/
theorem Stocks.fetch {indexes : List (Repository × List Stanza)}
    (stocks : d.Stocks indexes first.indexes) {index : Repository × List Stanza}
    (member : index ∈ indexes) :
    ∃ content last, (d.fetch false (index.1.indexUrl d.arch)).after first = (.ok content, last) ∧
      Packs content index.2 ∧ d.Stocks indexes last.indexes := by
  rw [after_fetch]
  cases found : d.fresh? first.indexes (index.1.indexUrl d.arch) with
  | some file => exact ⟨file.content, first, rfl, stocks.stored index member file found, stocks⟩
  | none =>
      obtain ⟨content, served, packs⟩ := stocks.served index member
      simp only [Bool.false_eq_true, if_false, served]
      refine ⟨content, _, rfl, packs, stocks.served, fun other inside file fresh => ?_,
        stocks.apart⟩
      obtain ⟨stored, good⟩ := fresh?_eq_some.mp fresh
      by_cases same : fileName (index.1.indexUrl d.arch) = fileName (other.1.indexUrl d.arch)
      · rw [Names.find?_insert, if_pos same] at stored
        obtain rfl := Option.some.inj stored
        rw [← stocks.apart index member other inside same]
        exact packs
      · rw [Names.find?_insert, if_neg same] at stored
        exact stocks.stored other inside file (fresh?_eq_some.mpr ⟨stored, good⟩)

theorem provides_of_stocks {served indexes : List (Repository × List Stanza)}
    (stocks : d.Stocks served first.indexes) (inside : ∀ index ∈ indexes, index ∈ served) :
    d.Provides false (indexes.map (·.1)) first (indexes.map (·.2)) := by
  induction indexes generalizing first with
  | nil => exact .done first
  | cons index rest ih =>
      obtain ⟨member, later⟩ := List.forall_mem_cons.mp inside
      obtain ⟨content, last, fetched, packs, left⟩ := stocks.fetch member
      exact .next fetched packs (ih left later)

/-! Two suites. -/

def plainField (name value : String) (clean : (':' ∉ name.toList ∧ '\n' ∉ name.toList) ∧
    '\n' ∉ value.toList) : Field :=
  ⟨name.toList, value.toList, [], clean.1, clean.2, nofun⟩

def olderCurl : Stanza where
  fields := [plainField "Package" " curl" (by decide),
    plainField "Priority" " optional" (by decide), plainField "Version" " 7.64.0-4" (by decide)]
  filled := nofun
  once := by decide

def newerCurl : Stanza where
  fields := [plainField "Package" "curl" (by decide), plainField "Version" "7.74" (by decide)]
  filled := nofun
  once := by decide

def onlyNewer : Stanza where
  fields := [plainField "Package" "jq" (by decide), plainField "Version" "1.6" (by decide)]
  filled := nofun
  once := by decide

def packedOlder : ByteArray :=
  ⟨#[31, 139, 8, 0, 0, 0, 0, 0, 0, 255, 1, 51, 0, 204, 255, 80, 97, 99, 107, 97, 103, 101, 58, 32,
    99, 117, 114, 108, 10, 80, 114, 105, 111, 114, 105, 116, 121, 58, 32, 111, 112, 116, 105, 111,
    110, 97, 108, 10, 86, 101, 114, 115, 105, 111, 110, 58, 32, 55, 46, 54, 52, 46, 48, 45, 52, 10,
    127, 4, 118, 161, 51, 0, 0, 0]⟩

def packedNewer : ByteArray :=
  ⟨#[31, 139, 8, 0, 0, 0, 0, 0, 0, 255, 1, 50, 0, 205, 255, 80, 97, 99, 107, 97, 103, 101, 58, 99,
    117, 114, 108, 10, 86, 101, 114, 115, 105, 111, 110, 58, 55, 46, 55, 52, 10, 10, 80, 97, 99,
    107, 97, 103, 101, 58, 106, 113, 10, 86, 101, 114, 115, 105, 111, 110, 58, 49, 46, 54, 10, 164,
    25, 186, 13, 50, 0, 0, 0]⟩

/-- A server of an older suite and of a newer one, which are asked in this order. -/
def twoSuites : Depot where
  repositories := [⟨"http://deb.test/debian", "buster"⟩, ⟨"http://deb.test/debian", "bullseye"⟩]
  arch := "amd64"
  ttl := defaultTtl
  transport := fun url =>
    let newer := url = "http://deb.test/debian/dists/bullseye/main/binary-amd64/Packages.gz"
    (.ok ⟨200, if newer then packedNewer else packedOlder⟩, [.request url])

def suites : List (Repository × List Stanza) :=
  [(⟨"http://deb.test/debian", "buster"⟩, [olderCurl]),
    (⟨"http://deb.test/debian", "bullseye"⟩, [newerCurl, onlyNewer])]

theorem packs_older : Packs packedOlder [olderCurl] :=
  ⟨String.ofList (olderCurl.text ++ ['\n']), by decide +kernel, by
    rw [String.toList_ofList]
    exact .last olderCurl (.inr rfl)⟩

theorem packs_newer : Packs packedNewer [newerCurl, onlyNewer] :=
  ⟨String.ofList (newerCurl.text ++ '\n' :: '\n' :: (onlyNewer.text ++ ['\n'])),
    by decide +kernel, by
    rw [String.toList_ofList]
    exact .next newerCurl (.last onlyNewer (.inr rfl))⟩

theorem fileName_suites :
    fileName ((⟨"http://deb.test/debian", "buster"⟩ : Repository).indexUrl "amd64") ≠
      fileName ((⟨"http://deb.test/debian", "bullseye"⟩ : Repository).indexUrl "amd64") := by
  decide +kernel

theorem stocks_twoSuites : twoSuites.Stocks suites .empty := by
  refine ⟨fun index member => ?_, fun _ _ _ fresh => ?_, fun one member other inside same => ?_⟩
  · rcases List.mem_cons.mp member with rfl | later
    · exact ⟨packedOlder, by rfl, packs_older⟩
    · obtain rfl := List.mem_singleton.mp later
      exact ⟨packedNewer, by rfl, packs_newer⟩
  · cases (fresh?_eq_some.mp fresh).1
  · simp only [suites, List.mem_cons, List.not_mem_nil, or_false] at member inside
    rcases member with rfl | rfl <;> rcases inside with rfl | rfl
    · rfl
    · exact absurd same fileName_suites
    · exact absurd same.symm fileName_suites
    · rfl

/-- The older version of a package that both suites have, and one that only the newer has. -/
theorem resolves_in_order_twoSuites :
    let asked : VersionMap := .ofList [("curl", "*"), ("jq", "")]
    let first := Trail.start IndexStore.empty
    let indexes := [[olderCurl], [newerCurl, onlyNewer]]
    first.indexes.loaded = none ∧ twoSuites.Provides false twoSuites.repositories first indexes ∧
      Packages.Completed asked (fun name version => firstIn? indexes name = some version)
        ((twoSuites.resolve false asked).after first).1 ∧
      firstIn? indexes "curl" = some "7.64.0-4" ∧ firstIn? indexes "jq" = some "1.6" ∧
      firstIn? indexes "git" = none := by
  have provides : twoSuites.Provides false twoSuites.repositories (Trail.start .empty)
      [[olderCurl], [newerCurl, onlyNewer]] :=
    provides_of_stocks stocks_twoSuites fun index (member : index ∈ suites) => member
  exact ⟨rfl, provides, (resolves_in_order twoSuites false _ _ _ rfl provides).1, by decide +kernel,
    by decide +kernel, by decide +kernel⟩

end Depot
end ImageLock
