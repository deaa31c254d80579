/-
Looks at the indexes of repositories.

While the repositories are gone through, time passes, others touch the stored
files, servers come and go, and the call may be cancelled. Each look meets such a
turn of things. It reuses the stored file unless that is missing, of the future
or too old, and only what was downloaded is stored.
-/
import ImageLock.Proofs.IndexFiles
import ImageLock.Proofs.PackageVersions

namespace ImageLock

open Act

/-- What a server has at an address; only a success counts. -/
def Depot.served (transport : Transport) (url : String) : Except PackageError ByteArray :=
  match (transport url).1 with
  | .error reason => .error (.fetch url reason)
  | .ok response =>
      if response.isSuccess then .ok response.body else .error (.fetch url response.statusText)

/-- When a call is cancelled, seen from one of its looks: before the look, or
while that waits for the server. -/
inductive Cancellation where
  | never
  | before
  | amid
deriving DecidableEq

/-- What a look meets: the time, what others did to the stored files since the
look before it, the server, and the state of the call. -/
structure Turn where
  now : Rat
  touch : Names StoredIndex → Names StoredIndex
  transport : Transport
  cancellation : Cancellation

namespace Turn

def meet (turn : Turn) (store : IndexStore) : IndexStore :=
  { store with files := turn.touch store.files, now := turn.now }

/-- A server that is not waited for is asked all the same. -/
def reach (turn : Turn) : Transport := fun url =>
  if turn.cancellation = .amid then (.error "", (turn.transport url).2) else turn.transport url

def tell (turn : Turn) (error : PackageError) : PackageError :=
  if turn.cancellation = .amid then .cancelled else error

/-- What is downloaded if the server is asked. -/
def served (turn : Turn) (url : String) : Except PackageError ByteArray :=
  if turn.cancellation = .amid then .error .cancelled else Depot.served turn.transport url

end Turn

/-- A look at the index of an address: what it met, what came of it, and what it
left behind. -/
structure Look where
  ttl : Duration
  turn : Turn
  url : String
  first : Trail
  result : Except PackageError (Names String)
  last : Trail

namespace Look

variable {look : Look}

/-- The stored files as the look finds them. -/
def store (look : Look) : IndexStore := look.turn.meet look.first.indexes

def file? (look : Look) : Option StoredIndex := look.store.files.find? (Depot.fileName look.url)

/-- The stored file is missing, of the future, or too old. -/
def IsDue (look : Look) : Prop :=
  ∀ file, look.file? = some file →
    look.turn.now < file.storedAt ∨ look.ttl.inSeconds ≤ look.turn.now - file.storedAt

/-- The server is asked. -/
def Asks (look : Look) : Prop := look.IsDue ∧ look.turn.cancellation ≠ .before

/-- The trail of a look that asked, with the files that it leaves. -/
def asked (look : Look) (files : Names StoredIndex) : Trail where
  events := look.first.events ++ (look.turn.transport look.url).2
  indexes := { look.store with files }

/-- A look reuses what is stored, or the call is cancelled before the server is
asked, or the server is asked in vain, or what it serves is stored. -/
inductive Obeys (look : Look) : Prop where
  | reuses (file : StoredIndex) (found : look.file? = some file) (fresh : ¬ look.IsDue)
      (result : look.result = Depot.readIndex look.url file.content)
      (last : look.last = { look.first with indexes := look.store })
  | cancels (due : look.IsDue) (before : look.turn.cancellation = .before)
      (result : look.result = .error .cancelled)
      (last : look.last = { look.first with indexes := look.store })
  | fails (error : PackageError) (asks : look.Asks)
      (served : look.turn.served look.url = .error error)
      (result : look.result = .error error)
      (last : look.last = look.asked look.store.files)
  | stores (content : ByteArray) (asks : look.Asks)
      (served : look.turn.served look.url = .ok content)
      (result : look.result = Depot.readIndex look.url content)
      (last : look.last = look.asked
        (look.store.files.insert (Depot.fileName look.url) ⟨content, look.turn.now⟩))

end Look

namespace Depot

/-- One step of loading, as things are at a turn. -/
def lookAt (d : Depot) (turn : Turn) (url : String) : Act PackageError (Names String) := do
  Act.setIndexes (turn.meet (← Act.getIndexes))
  let isCancelled := turn.cancellation == Cancellation.before
  let content ← Act.mapError turn.tell ({ d with transport := turn.reach }.fetch isCancelled url)
  Act.ofExcept (readIndex url content)

def look (d : Depot) (turn : Turn) (url : String) (first : Trail) : Look :=
  let outcome := (d.lookAt turn url).after first
  ⟨d.ttl, turn, url, first, outcome.1, outcome.2⟩

theorem after_download (d : Depot) (url : String) (first : Trail) :
    (d.download url).after first =
      (served d.transport url, first.asking (d.transport url).2) := by
  unfold download served
  rw [after_bind, after_mapError, after_ofReply]
  cases (d.transport url).1 with
  | error reason => rfl
  | ok response => by_cases success : response.isSuccess = true <;> simp [success] <;> rfl

theorem after_fetch (d : Depot) (isCancelled : Bool) (url : String) (first : Trail) :
    (d.fetch isCancelled url).after first =
      match d.fresh? first.indexes url with
      | some file => (.ok file.content, first)
      | none =>
          if isCancelled then (.error .cancelled, first)
          else
            let asked := first.asking (d.transport url).2
            match served d.transport url with
            | .error error => (.error error, asked)
            | .ok content =>
                (.ok content, { asked with indexes := { first.indexes with
                  files := first.indexes.files.insert (fileName url)
                    ⟨content, first.indexes.now⟩ } }) := by
  unfold fetch
  rw [after_bind]
  change Act.after (match d.fresh? first.indexes url with | some file => _ | none => _) first = _
  cases d.fresh? first.indexes url with
  | some file => rfl
  | none =>
      cases isCancelled with
      | true => rfl
      | false =>
          simp only [Bool.false_eq_true, if_false]
          rw [after_bind, after_download]
          cases served d.transport url <;> rfl

/-- A stored file is good unless it is of the future or too old. -/
theorem isFresh_eq_false {ttl : Duration} {now : Rat} {file : StoredIndex} :
    isFresh ttl now file = false ↔
      now < file.storedAt ∨ ttl.inSeconds ≤ now - file.storedAt := by
  simp only [isFresh, Bool.and_eq_false_iff, decide_eq_false_iff_not, Rat.not_le, Rat.not_lt]
  refine or_congr_left ?_
  rw [← Rat.not_le, ← Rat.not_le, Rat.le_iff_sub_nonneg file.storedAt now]

end Depot

namespace Look

variable {look : Look}

/-- The server is only asked if there is no good file. -/
theorem isDue_iff : look.IsDue ↔
    look.file?.filter (Depot.isFresh look.ttl look.turn.now) = none := by
  simp only [IsDue, Option.filter_eq_none_iff, Bool.not_eq_true, Depot.isFresh_eq_false]

end Look

namespace Depot

theorem after_lookAt (d : Depot) (turn : Turn) (url : String) (first : Trail) :
    (d.lookAt turn url).after first =
      let store := turn.meet first.indexes
      match d.fresh? store url with
      | some file => (readIndex url file.content, { first with indexes := store })
      | none =>
          if turn.cancellation = .before then
            (.error .cancelled, { first with indexes := store })
          else
            let events := first.events ++ (turn.transport url).2
            match turn.served url with
            | .error error => (.error error, ⟨events, store⟩)
            | .ok content => (readIndex url content, ⟨events, { store with
                files := store.files.insert (fileName url) ⟨content, store.now⟩ }⟩) := by
  have step : (d.lookAt turn url).after first =
      (Act.mapError turn.tell ({ d with transport := turn.reach }.fetch
        (turn.cancellation == Cancellation.before) url) >>= fun content =>
          Act.ofExcept (readIndex url content)).after
        { first with indexes := turn.meet first.indexes } := rfl
  rw [step, after_bind, after_mapError, after_fetch]
  have same : { d with transport := turn.reach }.fresh? (turn.meet first.indexes) url =
      d.fresh? (turn.meet first.indexes) url := rfl
  simp only [same]
  cases d.fresh? (turn.meet first.indexes) url with
  | some file => rfl
  | none =>
      cases cancelled : turn.cancellation with
      | before => simp [Turn.tell, cancelled]
      | amid => simp [Turn.tell, Turn.reach, Turn.served, served, cancelled, Trail.asking]
      | never =>
          have reach : turn.reach = turn.transport := by
            funext url
            simp [Turn.reach, cancelled]
          simp only [reach, Turn.served, cancelled, reduceCtorEq, if_false, beq_iff_eq]
          cases served turn.transport url with
          | error error => simp [Turn.tell, cancelled, Trail.asking]
          | ok content => rfl

theorem look_obeys (d : Depot) (turn : Turn) (url : String) (first : Trail) :
    (d.look turn url first).Obeys := by
  have run : ((d.look turn url first).result, (d.look turn url first).last) =
    (d.lookAt turn url).after first := rfl
  have due : (d.look turn url first).IsDue ↔ d.fresh? (turn.meet first.indexes) url = none :=
    Look.isDue_iff
  rw [after_lookAt] at run
  cases stored : d.fresh? (turn.meet first.indexes) url with
  | some file =>
      simp only [stored, reduceCtorEq, iff_false, Prod.mk.injEq] at run due
      exact .reuses file (fresh?_eq_some.mp stored).1 due run.1 run.2
  | none =>
      simp only [stored, iff_true] at run due
      by_cases before : turn.cancellation = .before
      · simp only [before, if_true, Prod.mk.injEq] at run
        exact .cancels due before run.1 run.2
      · simp only [before, if_false] at run
        cases served : turn.served url with
        | error error =>
            simp only [served, Prod.mk.injEq] at run
            exact .fails error ⟨due, before⟩ served run.1 run.2
        | ok content =>
            simp only [served, Prod.mk.injEq] at run
            exact .stores content ⟨due, before⟩ served run.1 run.2

/-! Going through repositories. -/

/-- Loading, as things are at the turn of each repository. -/
def loadAmid (d : Depot) (visits : List (Repository × Turn)) (index : Names String) :
    Act PackageError (Names String) :=
  visits.foldlM (fun index visit => do
    return PackageIndex.addMissing index (← d.lookAt visit.2 (visit.1.indexUrl d.arch))) index

/-- The looks that loading takes. -/
def looks (d : Depot) : List (Repository × Turn) → Trail → List Look
  | [], _ => []
  | (repository, turn) :: rest, first =>
      let look := d.look turn (repository.indexUrl d.arch) first
      match look.result with
      | .ok _ => look :: d.looks rest look.last
      | .error _ => [look]

/-- Looks that go through repositories in order, each from what the one before it
left, up to the first that fails. -/
inductive Goes (d : Depot) : List (Repository × Turn) → Trail → List Look → Prop where
  | done (first : Trail) : Goes d [] first []
  | stops (repository : Repository) (rest : List (Repository × Turn)) (look : Look)
      (obeys : look.Obeys) (ttl : look.ttl = d.ttl) (url : look.url = repository.indexUrl d.arch)
      (error : PackageError) (failed : look.result = .error error) :
      Goes d ((repository, look.turn) :: rest) look.first [look]
  | passes (repository : Repository) (rest : List (Repository × Turn)) (look : Look)
      (later : List Look)
      (obeys : look.Obeys) (ttl : look.ttl = d.ttl) (url : look.url = repository.indexUrl d.arch)
      (index : Names String) (read : look.result = .ok index) (goes : Goes d rest look.last later) :
      Goes d ((repository, look.turn) :: rest) look.first (look :: later)

theorem goes_looks (d : Depot) (visits : List (Repository × Turn)) (first : Trail) :
    d.Goes visits first (d.looks visits first) := by
  induction visits generalizing first with
  | nil => exact .done first
  | cons visit rest ih =>
      obtain ⟨repository, turn⟩ := visit
      have obeys := look_obeys d turn (repository.indexUrl d.arch) first
      simp only [looks]
      split
      next index read =>
        exact .passes repository rest _ _ obeys rfl rfl index read (ih _)
      next error failed => exact .stops repository rest _ obeys rfl rfl error failed

end Depot

namespace Look

/-- What looks leave behind. -/
def finish (looks : List Look) (first : Trail) : Trail := (looks.getLast?.map last).getD first

/-- What the indexes have together, the earlier ones first, or the failure. -/
def merged (looks : List Look) (index : Names String) : Except PackageError (Names String) :=
  looks.foldlM (fun index look => look.result.map (PackageIndex.addMissing index)) index

theorem finish_cons (look : Look) (later : List Look) (first : Trail) :
    finish (look :: later) first = finish later look.last := by
  rw [finish, finish, List.getLast?_cons]
  cases later.getLast? <;> rfl

theorem merged_cons {look : Look} {index own : Names String} (later : List Look)
    (read : look.result = .ok own) :
    merged (look :: later) index = merged later (PackageIndex.addMissing index own) := by
  rw [merged, List.foldlM_cons, read]
  rfl

theorem merged_failed {look : Look} {index : Names String} {error : PackageError}
    (failed : look.result = .error error) (later : List Look) :
    merged (look :: later) index = .error error := by
  rw [merged, List.foldlM_cons, failed]
  rfl

end Look

namespace Depot

theorem after_loadAmid (d : Depot) (visits : List (Repository × Turn)) (index : Names String)
    (first : Trail) :
    (d.loadAmid visits index).after first =
      (Look.merged (d.looks visits first) index, Look.finish (d.looks visits first) first) := by
  induction visits generalizing index first with
  | nil => rfl
  | cons visit rest ih =>
      obtain ⟨repository, turn⟩ := visit
      have step : (d.lookAt turn (repository.indexUrl d.arch)).after first =
        ((d.look turn (repository.indexUrl d.arch) first).result,
          (d.look turn (repository.indexUrl d.arch) first).last) := rfl
      rw [loadAmid, List.foldlM_cons, after_bind, after_bind, step]
      simp only [looks]
      cases read : (d.look turn (repository.indexUrl d.arch) first).result with
      | error error =>
          simp only
          rw [Look.merged_failed read, Look.finish_cons]
          rfl
      | ok own =>
          simp only [after_pure]
          rw [Look.merged_cons _ read, Look.finish_cons]
          exact ih _ _

end Depot

/-! What looks leave alone. -/

namespace Look

variable {look : Look} {error : PackageError}

theorem Obeys.loaded (obeys : look.Obeys) :
    look.last.indexes.loaded = look.first.indexes.loaded := by
  cases obeys <;> simp_all only [asked, store, Turn.meet]

theorem Obeys.now (obeys : look.Obeys) : look.last.indexes.now = look.turn.now := by
  cases obeys <;> simp_all only [asked, store, Turn.meet]

/-- Only an index that cannot be read is stored in spite of the failure. -/
theorem Obeys.files (obeys : look.Obeys) (failed : look.result = .error error)
    (usable : ∀ url, error ≠ .unusable url) : look.last.indexes.files = look.store.files := by
  have read {content : ByteArray}
      (result : look.result = Depot.readIndex look.url content) : False := by
    rw [failed, Depot.readIndex] at result
    split at result
    next => cases result
    next => exact usable _ (Except.error.inj result)
  cases obeys with
  | reuses file found fresh result last => exact (read result).elim
  | cancels due before result last => rw [last]
  | fails error asks served result last => rw [last]; rfl
  | stores content asks served result last => exact (read result).elim

end Look

namespace Depot

variable {d : Depot} {visits : List (Repository × Turn)} {first : Trail} {looks : List Look}

theorem Goes.loaded (goes : d.Goes visits first looks) :
    (Look.finish looks first).indexes.loaded = first.indexes.loaded := by
  induction goes with
  | done first => rfl
  | stops _ _ look obeys => exact obeys.loaded
  | passes _ _ look later obeys _ _ _ _ _ ih =>
      rw [Look.finish_cons, ih, obeys.loaded]

/-- Loading fails as its last look does. -/
theorem Goes.failed (goes : d.Goes visits first looks) {index : Names String}
    {error : PackageError} (failed : Look.merged looks index = .error error) :
    ∃ look, looks.getLast? = some look ∧ look.Obeys ∧ look.result = .error error ∧
      Look.finish looks first = look.last := by
  induction goes generalizing index with
  | done first => cases failed
  | stops _ _ look obeys _ _ own result =>
      rw [Look.merged_failed result] at failed
      obtain ⟨rfl⟩ := failed
      exact ⟨look, rfl, obeys, result, rfl⟩
  | passes _ _ look later _ _ _ own read _ ih =>
      rw [Look.merged_cons _ read] at failed
      obtain ⟨final, at_end, rest⟩ := ih failed
      refine ⟨final, ?_, ?_⟩
      · rw [List.getLast?_cons, at_end]
        rfl
      · rwa [Look.finish_cons]

end Depot
end ImageLock
