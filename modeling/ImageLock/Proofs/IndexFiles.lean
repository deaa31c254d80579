/-
Index files that are stored, and the index that is loaded from them.

A file that is still good stays as it is while others are downloaded, and one
that was downloaded is good at once, unless none ever is. So the files that
loading leaves behind make the same index when it is loaded anew.
-/
import ImageLock.Packages.Depot
import ImageLock.Proofs.Act
import ImageLock.Proofs.Names

namespace ImageLock

/-- The store of a program that is started anew, with the files that are there. -/
def IndexStore.restarted (store : IndexStore) : IndexStore := { store with loaded := none }

namespace Depot

open Act

variable {d : Depot} {isCancelled : Bool} {url : String} {content : ByteArray}
  {index : Names String} {first middle last trail : Trail}

/-! Files. -/

/-- A file is no older than one that is stored now. -/
theorem isFresh_new {ttl : Duration} {now : Rat} {file : StoredIndex}
    (fresh : isFresh ttl now file = true) (content : ByteArray) :
    isFresh ttl now ⟨content, now⟩ = true := by
  simp only [isFresh, Bool.and_eq_true, decide_eq_true_eq, Rat.sub_self] at fresh ⊢
  exact ⟨Rat.le_refl, Std.lt_of_le_of_lt fresh.1 fresh.2⟩

/-- Between two stores no time passes, and files that are good stay. -/
structure KeepsFresh (d : Depot) (before after : IndexStore) : Prop where
  now : after.now = before.now
  files : ∀ name file, before.files.find? name = some file →
    isFresh d.ttl before.now file = true → after.files.find? name = some file

theorem KeepsFresh.refl (store : IndexStore) : d.KeepsFresh store store := ⟨rfl, fun _ _ h _ => h⟩

theorem KeepsFresh.trans {before between after : IndexStore}
    (early : d.KeepsFresh before between) (late : d.KeepsFresh between after) :
    d.KeepsFresh before after := by
  refine ⟨late.now.trans early.now, fun name file found fresh => ?_⟩
  exact late.files name file (early.files name file found fresh) (by rwa [early.now])

/-- The file of an address that is still good. -/
def fresh? (d : Depot) (store : IndexStore) (url : String) : Option StoredIndex :=
  (store.files.find? (fileName url)).filter (isFresh d.ttl store.now)

theorem fresh?_eq_some {store : IndexStore} {file : StoredIndex} :
    d.fresh? store url = some file ↔
      store.files.find? (fileName url) = some file ∧ isFresh d.ttl store.now file = true := by
  simp [fresh?, Option.filter_eq_some_iff]

theorem answers_download (ok : (d.download url).after first = (.ok content, last)) :
    Act.Answers (d.download url) (.ok content) := by
  obtain ⟨response, _, asked, rest⟩ := bind_ok.mp ok
  have reply := answers_mapError (PackageError.fetch url) (answers_ofReply (d.transport url))
  rw [answer_of_ok reply asked] at reply
  refine answers_bind reply ?_
  split at rest
  next success =>
    obtain ⟨rfl, _⟩ := pure_ok.mp rest
    rw [if_pos success]
    exact answers_pure _
  next => exact (fail_ok.mp rest).elim

theorem fetch_ok :
    (d.fetch isCancelled url).after first = (.ok content, last) ↔
      (∃ file, d.fresh? first.indexes url = some file ∧ content = file.content ∧ last = first) ∨
      (d.fresh? first.indexes url = none ∧ isCancelled = false ∧ ∃ middle,
        (d.download url).after first = (.ok content, middle) ∧
        last = { middle with indexes := { middle.indexes with
          files :=
            middle.indexes.files.insert (fileName url) ⟨content, middle.indexes.now⟩ } }) := by
  unfold Depot.fetch
  simp only [bind_ok, getIndexes_ok]
  constructor
  · rintro ⟨_, _, ⟨rfl, rfl⟩, run⟩
    split at run
    next file stored =>
      obtain ⟨rfl, rfl⟩ := pure_ok.mp run
      exact .inl ⟨file, stored, rfl, rfl⟩
    next stale =>
      split at run
      next => exact (fail_ok.mp run).elim
      next active =>
        simp only [bind_ok, pure_ok, getIndexes_ok] at run
        obtain ⟨own, middle, downloaded, _, _, ⟨rfl, rfl⟩, _, _, set, rfl, rfl⟩ := run
        exact .inr ⟨stale, by simpa using active, _, downloaded, setIndexes_ok.mp set⟩
  · rintro (⟨file, stored, rfl, rfl⟩ | ⟨stale, active, middle, downloaded, last_eq⟩)
    · refine ⟨_, _, ⟨rfl, rfl⟩, ?_⟩
      rw [fresh?] at stored
      rw [stored]
      exact pure_ok.mpr ⟨rfl, rfl⟩
    · refine ⟨_, _, ⟨rfl, rfl⟩, ?_⟩
      rw [fresh?] at stale
      rw [stale]
      simp only [active, Bool.false_eq_true, if_false, bind_ok, pure_ok, getIndexes_ok]
      exact ⟨content, middle, downloaded, _, _, ⟨rfl, rfl⟩, (), last,
        setIndexes_ok.mpr last_eq, rfl, rfl⟩

theorem download_indexes (ok : (d.download url).after first = (.ok content, last)) :
    last.indexes = first.indexes := by
  have unchanged := (answers_download ok first).2
  rwa [ok] at unchanged

/-- Fetching a file leaves the good ones, and the same file is found where those
it leaves are. -/
theorem fetch_again (run : (d.fetch isCancelled url).after first = (.ok content, last)) :
    d.KeepsFresh first.indexes last.indexes ∧
      ∀ trail, d.KeepsFresh last.indexes trail.indexes →
        ∃ after, (d.fetch isCancelled url).after trail = (.ok content, after) := by
  rcases fetch_ok.mp run with ⟨file, stored, rfl, rfl⟩ | ⟨stale, active, middle, downloaded, rfl⟩
  · refine ⟨.refl _, fun trail kept => ⟨trail, fetch_ok.mpr (.inl ⟨file, ?_, rfl, rfl⟩)⟩⟩
    obtain ⟨found, fresh⟩ := fresh?_eq_some.mp stored
    exact fresh?_eq_some.mpr ⟨kept.files _ _ found fresh, by rwa [kept.now]⟩
  · have indexes_eq := download_indexes downloaded
    constructor
    · refine ⟨by rw [indexes_eq], fun name file found fresh => ?_⟩
      have other : fileName url ≠ name := by
        rintro rfl
        rw [fresh?_eq_some.mpr ⟨found, fresh⟩] at stale
        cases stale
      simp only [Names.find?_insert, if_neg other, indexes_eq, found]
    · intro trail kept
      cases again : d.fresh? trail.indexes url with
      | some file =>
          obtain ⟨found, fresh⟩ := fresh?_eq_some.mp again
          rw [kept.now] at fresh
          -- A file that was stored just now is good if any file is.
          have own := kept.files (fileName url) _ (by rw [Names.find?_insert, if_pos rfl])
            (isFresh_new fresh content)
          have file_eq := Option.some.inj (found.symm.trans own)
          exact ⟨trail, fetch_ok.mpr (.inl ⟨file, again, by rw [file_eq], rfl⟩)⟩
      | none =>
          have answered := (answers_download downloaded trail).1
          exact ⟨_, fetch_ok.mpr (.inr ⟨again, active, _, Prod.ext answered rfl, rfl⟩)⟩

/-! Indexes. -/

/-- One repository after the other is read into an index. -/
def addIndexes (d : Depot) (isCancelled : Bool) (repositories : List Repository)
    (index : Names String) : Act PackageError (Names String) :=
  repositories.foldlM (fun index repository => do
    let url := repository.indexUrl d.arch
    let content ← d.fetch isCancelled url
    return PackageIndex.addMissing index (← Act.ofExcept (readIndex url content))) index

theorem addIndexes_again {repositories : List Repository} {start : Names String}
    (run : (d.addIndexes isCancelled repositories start).after first = (.ok index, last)) :
    d.KeepsFresh first.indexes last.indexes ∧
      ∀ trail, d.KeepsFresh last.indexes trail.indexes →
        ∃ after,
          (d.addIndexes isCancelled repositories start).after trail = (.ok index, after) := by
  induction repositories generalizing start first with
  | nil =>
      obtain ⟨rfl, rfl⟩ := pure_ok.mp run
      exact ⟨.refl _, fun trail _ => ⟨trail, rfl⟩⟩
  | cons repository rest ih =>
      simp only [addIndexes, List.foldlM_cons, bind_ok, ofExcept_ok, pure_ok] at run
      obtain ⟨_, _, ⟨content, middle, fetched, own, _, ⟨read, rfl⟩, rfl, rfl⟩, run⟩ := run
      obtain ⟨early, fetchAgain⟩ := fetch_again fetched
      obtain ⟨late, restAgain⟩ := ih run
      refine ⟨early.trans late, fun trail kept => ?_⟩
      -- What the rest leaves has the files that the first repository left.
      obtain ⟨between, fetched'⟩ := fetchAgain trail (late.trans kept)
      obtain ⟨after, run'⟩ := restAgain between (kept.trans (fetch_again fetched').1)
      refine ⟨after, ?_⟩
      simp only [addIndexes, List.foldlM_cons, bind_ok, ofExcept_ok, pure_ok]
      exact ⟨_, _, ⟨content, between, fetched', own, _, ⟨read, rfl⟩, rfl, rfl⟩, run'⟩

theorem index_ok :
    (d.index isCancelled).after first = (.ok index, last) ↔
      (first.indexes.loaded = some index ∧ last = first) ∨
      (first.indexes.loaded = none ∧ ∃ middle,
        (d.load isCancelled).after first = (.ok index, middle) ∧
        last = { middle with indexes := { middle.indexes with loaded := some index } }) := by
  unfold Depot.index
  simp only [bind_ok, getIndexes_ok]
  constructor
  · rintro ⟨_, _, ⟨rfl, rfl⟩, run⟩
    split at run
    next own loaded =>
      obtain ⟨rfl, rfl⟩ := pure_ok.mp run
      exact .inl ⟨loaded, rfl⟩
    next unloaded =>
      simp only [bind_ok, getIndexes_ok, pure_ok] at run
      obtain ⟨own, middle, read, _, _, ⟨rfl, rfl⟩, _, _, set, rfl, rfl⟩ := run
      exact .inr ⟨unloaded, _, read, setIndexes_ok.mp set⟩
  · rintro (⟨loaded, rfl⟩ | ⟨unloaded, middle, read, last_eq⟩)
    · refine ⟨_, _, ⟨rfl, rfl⟩, ?_⟩
      rw [loaded]
      exact pure_ok.mpr ⟨rfl, rfl⟩
    · refine ⟨_, _, ⟨rfl, rfl⟩, ?_⟩
      rw [unloaded]
      simp only [bind_ok, getIndexes_ok, pure_ok]
      exact ⟨index, middle, read, _, _, ⟨rfl, rfl⟩, (), last, setIndexes_ok.mpr last_eq, rfl, rfl⟩

theorem loaded_of_index (run : (d.index isCancelled).after first = (.ok index, last)) :
    last.indexes.loaded = some index := by
  rcases index_ok.mp run with ⟨loaded, rfl⟩ | ⟨_, _, _, rfl⟩
  · exact loaded
  · rfl

/-- The index that a depot comes to from a store, whatever was asked before. -/
def Serves (d : Depot) (isCancelled : Bool) (store : IndexStore) (index : Names String) : Prop :=
  ∀ trail, trail.indexes = store →
    ∃ after, (d.index isCancelled).after trail = (.ok index, after)

theorem serves_loaded {store : IndexStore} (loaded : store.loaded = some index) :
    d.Serves isCancelled store index :=
  fun trail stored => ⟨trail, index_ok.mpr (.inl ⟨by rw [stored, loaded], rfl⟩)⟩

/-- An index that was loaded from files is loaded from them again. -/
theorem serves_restarted (unloaded : first.indexes.loaded = none)
    (run : (d.index isCancelled).after first = (.ok index, last)) :
    d.Serves isCancelled last.indexes.restarted index := by
  rcases index_ok.mp run with ⟨loaded, _⟩ | ⟨_, middle, read, rfl⟩
  · rw [unloaded] at loaded
    cases loaded
  · intro trail stored
    have kept : d.KeepsFresh middle.indexes trail.indexes := by
      rw [stored]
      exact ⟨rfl, fun _ _ found _ => found⟩
    obtain ⟨after, read'⟩ := (addIndexes_again read).2 trail kept
    exact ⟨_, index_ok.mpr (.inr ⟨by rw [stored]; rfl, after, read', rfl⟩)⟩

end Depot
end ImageLock
