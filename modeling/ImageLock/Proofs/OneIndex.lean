/-
One index for all calls.

The first call that has something to look up loads the index, and every later
call goes by it. A load that fails leaves nothing, so that the next call goes
through the repositories anew and meets the files as they are by then.
-/
import ImageLock.Proofs.IndexLooks

namespace ImageLock

open Act

namespace Depot

/-- Packages that are asked for, and what is met at each repository if they have
to be looked up. -/
structure Call (d : Depot) where
  packages : VersionMap
  visits : List (Repository × Turn)
  inOrder : visits.map (·.1) = d.repositories

/-- An index is loaded unless there is one. -/
def loadOnce (load : Act PackageError (Names String)) : Act PackageError (Names String) := do
  match (← Act.getIndexes).loaded with
  | some index => return index
  | none =>
      let index ← load
      let store ← Act.getIndexes
      Act.setIndexes { store with loaded := some index }
      return index

def resolveBy (index : Act PackageError (Names String)) (packages : VersionMap) :
    Act PackageError VersionMap := do
  let pinned := Packages.pinned packages
  let names := Packages.openNames packages
  if names.isEmpty then return pinned
  let resolved := addIndexed pinned (← index) names
  Act.ofExcept (Packages.checkComplete packages resolved)
  return resolved

theorem resolve_eq (d : Depot) (isCancelled : Bool) (packages : VersionMap) :
    d.resolve isCancelled packages = resolveBy (loadOnce (d.load isCancelled)) packages := rfl

def Call.run {d : Depot} (call : Call d) : Act PackageError VersionMap :=
  resolveBy (loadOnce (d.loadAmid call.visits Names.empty)) call.packages

end Depot

/-- A call of a depot, and what it comes to. -/
structure Passage where
  depot : Depot
  call : depot.Call
  first : Trail
  result : Except PackageError VersionMap
  last : Trail

def Depot.pass (d : Depot) (call : d.Call) (first : Trail) : Passage :=
  let outcome := call.run.after first
  ⟨d, call, first, outcome.1, outcome.2⟩

/-- Calls of a depot, one after the other. -/
def Depot.passages (d : Depot) : List d.Call → Trail → List Passage
  | [], _ => []
  | call :: rest, first =>
      let passage := d.pass call first
      passage :: d.passages rest passage.last

namespace Passage

/-- The looks that a call takes: those of loading, if there is something to look
up and no index yet. -/
def looks (p : Passage) : List Look :=
  if Packages.openNames p.call.packages ≠ [] ∧ p.first.indexes.loaded = none then
    p.depot.looks p.call.visits p.first
  else []

/-- What is looked up goes by an index. -/
def GoesBy (p : Passage) (index : Names String) : Prop :=
  Packages.Completed p.call.packages (fun name version => index.find? name = some version) p.result

/-- What a call does. Only a call that has something to look up and no index
takes looks. If one of them fails, the call fails with it and there is no index
after it either; otherwise it goes by the index that was loaded. -/
structure Abides (p : Passage) : Prop where
  idle : Packages.openNames p.call.packages = [] →
    p.result = .ok (.ofNames p.call.packages.toNames) ∧ p.last = p.first
  known : ∀ index, p.first.indexes.loaded = some index → p.last = p.first ∧ p.GoesBy index
  goes : Packages.openNames p.call.packages ≠ [] → p.first.indexes.loaded = none →
    p.depot.Goes p.call.visits p.first p.looks
  fails : ∀ error, Look.merged p.looks Names.empty = .error error →
    p.result = .error error ∧ p.last.indexes.loaded = none ∧
      ∃ look, p.looks.getLast? = some look ∧ look.result = .error error ∧ p.last = look.last ∧
        ((∀ url, error ≠ .unusable url) → p.last.indexes.files = look.store.files)
  loads : Packages.openNames p.call.packages ≠ [] → p.first.indexes.loaded = none →
    ∀ index, Look.merged p.looks Names.empty = .ok index →
      let final := Look.finish p.looks p.first
      p.GoesBy index ∧
        p.last = { final with indexes := { final.indexes with loaded := some index } }

end Passage

namespace Depot

variable {d : Depot} {isCancelled : Bool} {packages : VersionMap} {first : Trail}

theorem after_loadOnce (load : Act PackageError (Names String)) (first : Trail) :
    (loadOnce load).after first =
      match first.indexes.loaded with
      | some index => (.ok index, first)
      | none =>
          match load.after first with
          | (.ok index, last) =>
              (.ok index, { last with indexes := { last.indexes with loaded := some index } })
          | (.error error, last) => (.error error, last) := by
  have step : (loadOnce load).after first = Act.after (match first.indexes.loaded with
      | some index => (pure index : Act PackageError (Names String))
      | none => do
          let index ← load
          let store ← Act.getIndexes
          Act.setIndexes { store with loaded := some index }
          return index) first := rfl
  rw [step]
  cases first.indexes.loaded with
  | some index => rfl
  | none =>
      simp only
      rw [after_bind]
      cases load.after first with
      | mk result last => cases result <;> rfl

theorem after_resolveBy (index : Act PackageError (Names String)) (first : Trail)
    (opened : Packages.openNames packages ≠ []) :
    (resolveBy index packages).after first =
      match index.after first with
      | (.error error, last) => (.error error, last)
      | (.ok index, last) =>
          let resolved :=
            addIndexed (Packages.pinned packages) index (Packages.openNames packages)
          ((Packages.checkComplete packages resolved).map fun _ => resolved, last) := by
  have asked : (Packages.openNames packages).isEmpty = false := by simpa using opened
  simp only [resolveBy, asked, Bool.false_eq_true, if_false]
  rw [after_bind]
  cases index.after first with
  | mk result last =>
      cases result with
      | error error => rfl
      | ok index => exact Packages.after_checked ..

theorem resolveBy_closed (index : Act PackageError (Names String)) (first : Trail)
    (closed : Packages.openNames packages = []) :
    (resolveBy index packages).after first = (.ok (.ofNames packages.toNames), first) := by
  have pinned := Packages.pinned_eq closed
  simp [resolveBy, closed, pinned, after_pure]

/-- Where nothing is open, any index does. -/
theorem completed_of_closed (closed : Packages.openNames packages = [])
    (gives : String → String → Prop) :
    Packages.Completed packages gives (.ok (.ofNames packages.toNames)) := by
  intro name constraint found
  split
  next opened =>
    have member := Packages.mem_openNames.mpr ⟨constraint, found, opened⟩
    rw [closed] at member
    cases member
  next => exact found

theorem goesBy_of_holds {index : Names String} (d : Depot) (packages : VersionMap) :
    Packages.Completed packages (fun name version => index.find? name = some version)
      ((Packages.checkComplete packages
        (addIndexed (Packages.pinned packages) index (Packages.openNames packages))).map
          fun _ => addIndexed (Packages.pinned packages) index (Packages.openNames packages)) :=
  PackageSource.completed_of_holds (PackageSource.holds_indexed d packages index)

theorem pass_run (call : d.Call) (first : Trail) :
    call.run.after first = ((d.pass call first).result, (d.pass call first).last) := rfl

theorem looks_pass (call : d.Call) (first : Trail) :
    (d.pass call first).looks =
      if Packages.openNames call.packages ≠ [] ∧ first.indexes.loaded = none then
        d.looks call.visits first else [] := rfl

theorem abides_idle (call : d.Call) (first : Trail)
    (closed : Packages.openNames call.packages = []) : (d.pass call first).Abides := by
  have run := pass_run call first
  rw [Call.run, resolveBy_closed _ _ closed, Prod.mk.injEq] at run
  have taken := (looks_pass call first).trans (if_neg (by simp [closed]))
  refine ⟨fun _ => ⟨run.1.symm, run.2.symm⟩, fun index _ => ⟨run.2.symm, ?_⟩,
    fun opened => absurd closed opened, fun error failed => ?_,
    fun opened => absurd closed opened⟩
  · rw [Passage.GoesBy, ← run.1]
    exact completed_of_closed closed _
  · rw [taken] at failed
    cases failed

theorem abides_known (call : d.Call) (first : Trail)
    (opened : Packages.openNames call.packages ≠ []) {index : Names String}
    (loaded : first.indexes.loaded = some index) : (d.pass call first).Abides := by
  have run := pass_run call first
  rw [Call.run, after_resolveBy _ _ opened, after_loadOnce, loaded] at run
  simp only [Prod.mk.injEq] at run
  have taken := (looks_pass call first).trans (if_neg (by simp [loaded]))
  refine ⟨fun closed => absurd closed opened, fun own same => ⟨run.2.symm, ?_⟩,
    fun _ none => ?_, fun error failed => ?_, fun _ none => ?_⟩
  · obtain ⟨rfl⟩ := Option.some.inj (loaded.symm.trans same)
    rw [Passage.GoesBy, ← run.1]
    exact goesBy_of_holds d call.packages
  · cases loaded.symm.trans none
  · rw [taken] at failed
    cases failed
  · cases loaded.symm.trans none

theorem abides_unloaded (call : d.Call) (first : Trail)
    (opened : Packages.openNames call.packages ≠ []) (unloaded : first.indexes.loaded = none) :
    (d.pass call first).Abides := by
  have run := pass_run call first
  rw [Call.run, after_resolveBy _ _ opened, after_loadOnce, unloaded] at run
  simp only [after_loadAmid] at run
  have taken := (looks_pass call first).trans (if_pos ⟨opened, unloaded⟩)
  have goes := goes_looks d call.visits first
  rw [← taken] at run goes
  refine ⟨fun closed => absurd closed opened, fun own same => ?_, fun _ _ => goes,
    fun error failed => ?_, fun _ _ index loaded => ?_⟩
  · cases unloaded.symm.trans same
  · simp only [failed, Prod.mk.injEq] at run
    obtain ⟨look, at_end, obeys, result, last⟩ := goes.failed failed
    refine ⟨run.1.symm, ?_, look, at_end, result, run.2.symm.trans last, fun usable => ?_⟩
    · rw [← run.2, goes.loaded, unloaded]
    · rw [← run.2, last]
      exact obeys.files result usable
  · simp only [loaded, Prod.mk.injEq] at run
    refine ⟨?_, run.2.symm⟩
    rw [Passage.GoesBy, ← run.1]
    exact goesBy_of_holds d call.packages

theorem pass_abides (d : Depot) (call : d.Call) (first : Trail) : (d.pass call first).Abides := by
  by_cases closed : Packages.openNames call.packages = []
  · exact abides_idle call first closed
  · cases loaded : first.indexes.loaded with
    | some index => exact abides_known call first closed loaded
    | none => exact abides_unloaded call first closed loaded

/-! Calls one after the other. -/

theorem abides_of_mem {calls : List d.Call} {first : Trail} {p : Passage}
    (member : p ∈ d.passages calls first) : p.Abides := by
  induction calls generalizing first with
  | nil => cases member
  | cons call rest ih =>
      rcases List.mem_cons.mp member with rfl | member
      · exact pass_abides d call first
      · exact ih member

theorem depot_of_mem {calls : List d.Call} {first : Trail} {p : Passage}
    (member : p ∈ d.passages calls first) : p.depot = d := by
  induction calls generalizing first with
  | nil => cases member
  | cons call rest ih =>
      rcases List.mem_cons.mp member with rfl | member
      · rfl
      · exact ih member

/-- What comes after a call goes on from what it left. -/
theorem passages_after {calls : List d.Call} {first : Trail} {early late : List Passage}
    {p : Passage} (split : d.passages calls first = early ++ p :: late) :
    ∃ rest, late = d.passages rest p.last := by
  induction early generalizing calls first with
  | nil =>
      cases calls with
      | nil => cases split
      | cons call rest =>
          obtain ⟨rfl, rfl⟩ := List.cons.inj split
          exact ⟨rest, rfl⟩
  | cons _ early ih =>
      cases calls with
      | nil => cases split
      | cons call rest => exact ih (List.cons.inj split).2

/-- Once there is an index, calls go by it and leave everything as it is. -/
theorem passages_known {calls : List d.Call} {first : Trail} {index : Names String}
    (loaded : first.indexes.loaded = some index) {p : Passage}
    (member : p ∈ d.passages calls first) : p.first = first ∧ p.last = first ∧ p.GoesBy index := by
  induction calls generalizing first with
  | nil => cases member
  | cons call rest ih =>
      obtain ⟨kept, goesBy⟩ := (pass_abides d call first).known index loaded
      rcases List.mem_cons.mp member with rfl | member
      · exact ⟨rfl, kept, goesBy⟩
      · rw [kept] at member
        exact ih loaded member

/-- A call goes by the index that there is after it. -/
theorem goesBy_of_loaded {p : Passage} (abides : p.Abides) {index : Names String}
    (loaded : p.last.indexes.loaded = some index) : p.GoesBy index := by
  cases before : p.first.indexes.loaded with
  | some own =>
      obtain ⟨kept, goesBy⟩ := abides.known own before
      rw [kept, before] at loaded
      obtain ⟨rfl⟩ := loaded
      exact goesBy
  | none =>
      by_cases closed : Packages.openNames p.call.packages = []
      · rw [(abides.idle closed).2, before] at loaded
        cases loaded
      · cases read : Look.merged p.looks Names.empty with
        | error error =>
            rw [(abides.fails error read).2.1] at loaded
            cases loaded
        | ok own =>
            obtain ⟨goesBy, last⟩ := abides.loads closed before own read
            rw [last] at loaded
            obtain ⟨rfl⟩ := loaded
            exact goesBy

/-- No file is younger than no time at all. -/
theorem isDue_of_zero {look : Look} (zero : look.ttl.inSeconds = 0) : look.IsDue := by
  intro file _
  rw [zero, ← Rat.le_iff_sub_nonneg, ← Rat.not_lt]
  exact Decidable.em _

/-- A turn at which the server is as it was, and nobody else was at the files. -/
def steadyTurn (d : Depot) (isCancelled : Bool) (now : Rat) : Turn :=
  ⟨now, id, d.transport, if isCancelled then .before else .never⟩

/-- The call of a depot that meets such turns only while no time passes. -/
def Call.steady (d : Depot) (isCancelled : Bool) (packages : VersionMap) (now : Rat) : d.Call where
  packages := packages
  visits := d.repositories.map fun repository => (repository, d.steadyTurn isCancelled now)
  inOrder := by simp [Function.comp_def]

theorem after_lookAt_steady {now : Rat} (same : first.indexes.now = now) (url : String) :
    (d.lookAt (d.steadyTurn isCancelled now) url).after first =
      (d.fetch isCancelled url >>= fun content => Act.ofExcept (readIndex url content)).after
        first := by
  have met : (d.steadyTurn isCancelled now).meet first.indexes = first.indexes := by
    rw [← same]
    rfl
  rw [after_lookAt, after_bind, after_fetch]
  simp only [met]
  cases d.fresh? first.indexes url with
  | some file => rfl
  | none =>
      cases isCancelled with
      | true => rfl
      | false =>
          simp only [steadyTurn, Turn.served, reduceCtorEq, if_false, Bool.false_eq_true]
          cases served d.transport url <;> rfl

theorem after_loadAmid_steady (repositories : List Repository) (index : Names String) {now : Rat}
    (same : first.indexes.now = now) :
    (d.loadAmid (repositories.map fun repository => (repository, d.steadyTurn isCancelled now))
      index).after first = (d.addIndexes isCancelled repositories index).after first := by
  induction repositories generalizing index first with
  | nil => rfl
  | cons repository rest ih =>
      have step : (d.lookAt (d.steadyTurn isCancelled now) (repository.indexUrl d.arch)).after
          first = _ := after_lookAt_steady same (repository.indexUrl d.arch)
      have now_eq : ((d.lookAt (d.steadyTurn isCancelled now)
          (repository.indexUrl d.arch)).after first).2.indexes.now = now :=
        (look_obeys d (d.steadyTurn isCancelled now) (repository.indexUrl d.arch) first).now
      rw [step] at now_eq
      rw [List.map_cons, loadAmid, addIndexes, List.foldlM_cons, List.foldlM_cons, ← bind_assoc,
        after_bind, after_bind, after_bind, after_bind, step]
      cases outcome : (d.fetch isCancelled (repository.indexUrl d.arch) >>= fun content =>
          Act.ofExcept (readIndex (repository.indexUrl d.arch) content)).after first with
      | mk result middle =>
          rw [outcome] at now_eq
          cases result with
          | error error => rfl
          -- The rest goes on from where the first repository was left.
          | ok own => exact ih _ now_eq

/-- Resolving only goes by what loading comes to. -/
theorem resolveBy_congr {load load' : Act PackageError (Names String)}
    (same : load.after first = load'.after first) :
    (resolveBy (loadOnce load) packages).after first =
      (resolveBy (loadOnce load') packages).after first := by
  by_cases closed : Packages.openNames packages = []
  · rw [resolveBy_closed _ _ closed, resolveBy_closed _ _ closed]
  · rw [after_resolveBy _ _ closed, after_resolveBy _ _ closed, after_loadOnce, after_loadOnce,
      same]

/-- A depot by itself makes the calls of a steady server. -/
theorem after_steady (d : Depot) (isCancelled : Bool) (packages : VersionMap) (first : Trail) :
    (d.resolve isCancelled packages).after first =
      (Call.steady d isCancelled packages first.indexes.now).run.after first :=
  resolveBy_congr (after_loadAmid_steady d.repositories Names.empty rfl).symm

theorem Goes.ttl {visits : List (Repository × Turn)} {looks : List Look}
    (goes : d.Goes visits first looks) {look : Look} (member : look ∈ looks) :
    look.ttl = d.ttl := by
  induction goes with
  | done => cases member
  | stops _ _ own _ ttl => rwa [List.mem_singleton.mp member]
  | passes _ _ own later _ ttl _ _ _ _ ih =>
      rcases List.mem_cons.mp member with rfl | member
      · exact ttl
      · exact ih member

/-- One index for all calls. Each call goes through the repositories in order up
to the first failure if it has something to look up and no index yet; it asks for
the indexes that are missing, of the future or too old, unless it is cancelled,
and reuses the others. A load that fails leaves no index, and leaves the files
alone unless it is the index itself that is no good. Once there is an index, the
calls leave everything as it is and all go by that index. -/
theorem one_index (d : Depot) (calls : List d.Call) (first : Trail) :
    (∀ p ∈ d.passages calls first, p.Abides) ∧
    (∀ early p late index, d.passages calls first = early ++ p :: late →
      p.last.indexes.loaded = some index →
        p.GoesBy index ∧ ∀ q ∈ late, q.first = p.last ∧ q.last = p.last ∧ q.GoesBy index) ∧
    (d.ttl.inSeconds = 0 → ∀ p ∈ d.passages calls first, ∀ look ∈ p.looks, look.IsDue) ∧
    ∀ isCancelled packages,
      (d.resolve isCancelled packages).after first =
        (Call.steady d isCancelled packages first.indexes.now).run.after first := by
  refine ⟨fun p member => abides_of_mem member, fun early p late index split loaded => ?_,
    fun zero p member look taken => ?_,
    fun isCancelled packages => after_steady d isCancelled packages first⟩
  · have member : p ∈ d.passages calls first := by simp [split]
    obtain ⟨rest, rfl⟩ := passages_after split
    exact ⟨goesBy_of_loaded (abides_of_mem member) loaded,
      fun q later => passages_known loaded later⟩
  · refine isDue_of_zero ?_
    unfold Passage.looks at taken
    split at taken
    next => rw [(goes_looks _ _ _).ttl taken, depot_of_mem member, zero]
    next => cases taken

/-- One repository, and a server that has an empty answer. -/
def single : Depot :=
  ⟨[⟨"http://deb.test/debian", "buster"⟩], "amd64", defaultTtl,
    fun url => (.ok ⟨200, ByteArray.empty⟩, [.request url])⟩

/-- A cancelled call asks for nothing, though the index is missing. -/
theorem cancelled_asks_nothing :
    let p := single.pass (.steady single true (.ofList [("curl", "*")]) 0) (Trail.start .empty)
    p.result = .error .cancelled ∧ p.last.events = [] ∧
      ∃ look, p.looks = [look] ∧ look.file? = none ∧ look.IsDue := by
  refine ⟨rfl, rfl, _, rfl, rfl, fun file found => ?_⟩
  cases found

end Depot
end ImageLock
