/-
An index that cannot be read.

What was downloaded is stored before it is read. So solvers that share their
stored files fail with an index that cannot be read until its file is too old,
whatever the server has by then.
-/
import ImageLock.Proofs.OneIndex

namespace ImageLock

open Act

/-- Solvers that share stored files, and the index that each has loaded. -/
structure Shared where
  files : Names StoredIndex
  loaded : Nat → Option (Names String)

/-- A call of one of the solvers. -/
structure Run (depots : Nat → Depot) where
  solver : Nat
  call : (depots solver).Call

namespace Shared

variable {depots : Nat → Depot}

/-- A run starts with the files as they were left; its looks tell the time. -/
def pass (shared : Shared) (run : Run depots) : Passage :=
  (depots run.solver).pass run.call (.start ⟨shared.files, shared.loaded run.solver, 0⟩)

def after (shared : Shared) (run : Run depots) : Shared :=
  let left := (shared.pass run).last.indexes
  { files := left.files
    loaded := fun solver => if solver = run.solver then left.loaded else shared.loaded solver }

def passages : Shared → List (Run depots) → List Passage
  | _, [] => []
  | shared, run :: rest => shared.pass run :: (shared.after run).passages rest

/-- The looks of all runs, in order. -/
def looks (shared : Shared) (runs : List (Run depots)) : List Look :=
  (shared.passages runs).flatMap Passage.looks

end Shared

/-- A download does not fail by what it brings. -/
theorem Turn.usable_of_served {turn : Turn} {url : String} {error : PackageError}
    (served : turn.served url = .error error) (path : String) : error ≠ .unusable path := by
  rintro rfl
  unfold Turn.served Depot.served at served
  split at served
  next => cases served
  next =>
    split at served
    next => cases served
    next => split at served <;> cases served

namespace Look

variable {look next : Look} {looks later : List Look} {files final : Names StoredIndex}
  {name : String} {file : StoredIndex}

/-- Looks that find the files as the one before left them, but for what others
did in between. -/
def Linked : Names StoredIndex → List Look → Names StoredIndex → Prop
  | files, [], final => files = final
  | files, look :: rest, final =>
      look.Obeys ∧ look.first.indexes.files = files ∧ Linked look.last.indexes.files rest final

theorem linked_append :
    Linked files (looks ++ later) final ↔
      ∃ middle, Linked files looks middle ∧ Linked middle later final := by
  induction looks generalizing files with
  | nil => simp [Linked]
  | cons look rest ih =>
      simp only [List.cons_append, Linked, ih]
      constructor
      · rintro ⟨obeys, same, middle, early, late⟩
        exact ⟨middle, ⟨obeys, same, early⟩, late⟩
      · rintro ⟨middle, ⟨obeys, same, early⟩, late⟩
        exact ⟨obeys, same, middle, early, late⟩

/-- Nobody else was at a file since the look before. -/
def Spares (look : Look) (name : String) : Prop :=
  look.store.files.find? name = look.first.indexes.files.find? name

/-- Only a look that asks for a file writes it. -/
theorem Obeys.find? (obeys : look.Obeys) (spares : look.Spares name)
    (other : look.Asks → Depot.fileName look.url ≠ name) :
    look.last.indexes.files.find? name = look.first.indexes.files.find? name := by
  cases obeys with
  | reuses file found fresh result last => rw [last]; exact spares
  | cancels due before result last => rw [last]; exact spares
  | fails error asks served result last => rw [last]; exact spares
  | stores content asks served result last =>
      rw [last, asked, Names.find?_insert, if_neg (other asks)]
      exact spares

/-- A file stays while it is not asked for and nobody else is at it. -/
theorem Linked.find? (linked : Linked files looks final)
    (others : ∀ look ∈ looks, look.Asks → Depot.fileName look.url ≠ name)
    (spared : ∀ look ∈ looks, look.Spares name) : final.find? name = files.find? name := by
  induction looks generalizing files with
  | nil => rw [linked]
  | cons look rest ih =>
      obtain ⟨obeys, rfl, linked⟩ := linked
      rw [ih linked (fun own member => others own (List.mem_cons_of_mem _ member))
        fun own member => spared own (List.mem_cons_of_mem _ member)]
      exact obeys.find? (spared look List.mem_cons_self) (others look List.mem_cons_self)

theorem Obeys.of_fresh (obeys : look.Obeys) (found : look.file? = some file)
    (fresh : ¬ look.IsDue) :
    look.result = Depot.readIndex look.url file.content ∧
      look.last.events = look.first.events := by
  cases obeys with
  | reuses own known _ result last =>
      obtain ⟨rfl⟩ := Option.some.inj (found.symm.trans known)
      exact ⟨result, by rw [last]⟩
  | cancels due => exact absurd due fresh
  | fails _ asks => exact absurd asks.1 fresh
  | stores _ asks => exact absurd asks.1 fresh

theorem Obeys.of_asks (obeys : look.Obeys) (asks : look.Asks) :
    look.result = (look.turn.served look.url >>= Depot.readIndex look.url) ∧
      look.last.events = look.first.events ++ (look.turn.transport look.url).2 := by
  cases obeys with
  | reuses _ _ fresh => exact absurd asks.1 fresh
  | cancels _ before => exact absurd before asks.2
  | fails error _ served result last => exact ⟨by rw [result, served]; rfl, by rw [last]; rfl⟩
  | stores content _ served result last => exact ⟨by rw [result, served]; rfl, by rw [last]; rfl⟩

/-- What a look that asked in vain for an index to read left behind. -/
theorem Obeys.stored (obeys : look.Obeys) (asks : look.Asks)
    (unusable : look.result = .error (.unusable look.url)) :
    ∃ content, look.turn.served look.url = .ok content ∧
      Depot.readIndex look.url content = .error (.unusable look.url) ∧
      look.last.indexes.files.find? (Depot.fileName look.url) = some ⟨content, look.turn.now⟩ := by
  cases obeys with
  | reuses file found fresh result last => exact absurd asks.1 fresh
  | cancels due before result last => exact absurd before asks.2
  | fails error asks served result last =>
      exact absurd (Except.error.inj (result.symm.trans unusable)) (Turn.usable_of_served served _)
  | stores content asks served result last =>
      refine ⟨content, served, result.symm.trans unusable, ?_⟩
      rw [last, asked, Names.find?_insert, if_pos rfl]

end Look

namespace Depot

variable {d : Depot} {visits : List (Repository × Turn)} {first : Trail} {looks : List Look}

theorem Goes.linked (goes : d.Goes visits first looks) :
    Look.Linked first.indexes.files looks (Look.finish looks first).indexes.files := by
  induction goes with
  | done first => rfl
  | stops _ _ look obeys => exact ⟨obeys, rfl, rfl⟩
  | passes _ _ look later obeys _ _ _ _ _ ih =>
      rw [Look.finish_cons]
      exact ⟨obeys, rfl, ih⟩

/-- Only the last look can fail, and then loading fails with it. -/
theorem Goes.merged (goes : d.Goes visits first looks) {look : Look} (member : look ∈ looks)
    {error : PackageError} (failed : look.result = .error error) (index : Names String) :
    Look.merged looks index = .error error := by
  induction goes generalizing index with
  | done first => cases member
  | stops _ _ own =>
      obtain rfl := List.mem_singleton.mp member
      exact Look.merged_failed failed _
  | passes _ _ own later _ _ _ _ read _ ih =>
      rw [Look.merged_cons _ read]
      rcases List.mem_cons.mp member with rfl | member
      · cases read.symm.trans failed
      · exact ih member _

end Depot

namespace Passage

variable {p : Passage}

/-- A call either goes through repositories or leaves everything as it is. -/
theorem Abides.goes_or (abides : p.Abides) :
    (p.depot.Goes p.call.visits p.first p.looks ∧
      p.last.indexes.files = (Look.finish p.looks p.first).indexes.files) ∨
      p.looks = [] ∧ p.last = p.first := by
  by_cases closed : Packages.openNames p.call.packages = []
  · exact .inr ⟨if_neg (by simp [closed]), (abides.idle closed).2⟩
  · cases loaded : p.first.indexes.loaded with
    | some index => exact .inr ⟨if_neg (by simp [loaded]), (abides.known index loaded).1⟩
    | none =>
        refine .inl ⟨abides.goes closed loaded, ?_⟩
        cases read : Look.merged p.looks Names.empty with
        | error error =>
            obtain ⟨_, _, look, at_end, _, last, _⟩ := abides.fails error read
            rw [last, Look.finish, at_end]
            rfl
        | ok index => rw [(abides.loads closed loaded index read).2]

theorem Abides.linked (abides : p.Abides) :
    Look.Linked p.first.indexes.files p.looks p.last.indexes.files := by
  rcases abides.goes_or with ⟨goes, left⟩ | ⟨none, left⟩
  · rw [left]
    exact goes.linked
  · rw [none, left]
    rfl

theorem Abides.failed (abides : p.Abides) {look : Look} (member : look ∈ p.looks)
    {error : PackageError} (failed : look.result = .error error) : p.result = .error error := by
  rcases abides.goes_or with ⟨goes, _⟩ | ⟨none, _⟩
  · exact (abides.fails error (goes.merged member failed _)).1
  · rw [none] at member
    cases member

end Passage

namespace Shared

variable {depots : Nat → Depot}

theorem abides_of_mem {shared : Shared} {runs : List (Run depots)} {p : Passage}
    (member : p ∈ shared.passages runs) : p.Abides := by
  induction runs generalizing shared with
  | nil => cases member
  | cons run rest ih =>
      rcases List.mem_cons.mp member with rfl | member
      · exact Depot.pass_abides ..
      · exact ih member

theorem linked (shared : Shared) (runs : List (Run depots)) :
    ∃ final, Look.Linked shared.files (shared.looks runs) final := by
  induction runs generalizing shared with
  | nil => exact ⟨shared.files, rfl⟩
  | cons run rest ih =>
      obtain ⟨final, later⟩ := ih (shared.after run)
      have early := (Depot.pass_abides _ run.call (.start
        ⟨shared.files, shared.loaded run.solver, 0⟩)).linked
      exact ⟨final, Look.linked_append.mpr ⟨_, early, later⟩⟩

/-- What was stored of an index that cannot be read decides the next look at it,
by whatever solver: the server is asked again just if the file is of the future
or too old by then. Otherwise the look fails with the file as it is, whatever the
server has, and so does the call; and if the server is asked, what it has
counts. -/
theorem unusable_kept {shared : Shared} {runs : List (Run depots)}
    {early between late : List Look} {bad next : Look}
    (trace : shared.looks runs = early ++ bad :: (between ++ next :: late))
    (asks : bad.Asks) (unusable : bad.result = .error (.unusable bad.url))
    (same : next.url = bad.url)
    (unasked : ∀ look ∈ between, look.Asks →
      Depot.fileName look.url ≠ Depot.fileName bad.url)
    (spared : ∀ look ∈ between ++ [next], look.Spares (Depot.fileName bad.url)) :
    (next.IsDue ↔ next.turn.now < bad.turn.now ∨
      next.ttl.inSeconds ≤ next.turn.now - bad.turn.now) ∧
    (¬ next.IsDue → next.result = .error (.unusable bad.url) ∧
      next.last.events = next.first.events) ∧
    (next.Asks → next.result = (next.turn.served bad.url >>= Depot.readIndex bad.url) ∧
      next.last.events = next.first.events ++ (next.turn.transport bad.url).2) ∧
    ∀ p ∈ shared.passages runs, next ∈ p.looks → ∀ error, next.result = .error error →
      p.result = .error error := by
  obtain ⟨final, linked⟩ := shared.linked runs
  rw [trace] at linked
  obtain ⟨_, _, badObeys, _, rest⟩ := Look.linked_append.mp linked
  obtain ⟨_, kept, obeys, left, _⟩ := Look.linked_append.mp rest
  obtain ⟨content, _, read, stored⟩ := badObeys.stored asks unusable
  have found : next.file? = some ⟨content, bad.turn.now⟩ := by
    rw [Look.file?, same, spared next (by simp), left,
      kept.find? unasked fun look member => spared look (List.mem_append_left _ member), stored]
  have due : next.IsDue ↔ next.turn.now < bad.turn.now ∨
      next.ttl.inSeconds ≤ next.turn.now - bad.turn.now := by
    simp [Look.IsDue, found]
  refine ⟨due, fun fresh => ?_, fun again => ?_, fun p member => ?_⟩
  · obtain ⟨result, events⟩ := obeys.of_fresh found fresh
    exact ⟨by rw [result, same, read], events⟩
  · have answered := obeys.of_asks again
    rwa [same] at answered
  · exact fun taken error failed => (abides_of_mem member).failed taken failed

/-! A server whose index is no good at first. -/

/-- A server that has one answer to everything. -/
def serving (now : Rat) (body : ByteArray) : Turn :=
  ⟨now, id, fun url => (.ok ⟨200, body⟩, [.request url]), .never⟩

def garbage : ByteArray := "not gzip".toUTF8

/-- The index of one package, compressed. -/
def packed : ByteArray :=
  ⟨#[31, 139, 8, 0, 0, 0, 0, 0, 0, 255, 1, 32, 0, 223, 255, 80, 97, 99, 107, 97, 103, 101, 58, 32,
    99, 117, 114, 108, 10, 86, 101, 114, 115, 105, 111, 110, 58, 32, 55, 46, 54, 52, 46, 48, 45, 52,
    10, 60, 242, 148, 77, 32, 0, 0, 0]⟩

def address : String := "http://deb.test/debian/dists/buster/main/binary-amd64/Packages.gz"

def asking (turn : Turn) : Depot.single.Call :=
  ⟨.ofList [("curl", "*")], [(⟨"http://deb.test/debian", "buster"⟩, turn)], rfl⟩

def untouched : Shared := ⟨Names.empty, fun _ => none⟩

def garbledRun : Run fun _ => Depot.single := ⟨0, asking (serving 0 garbage)⟩

/-- A solver asks while the index is no good, and a minute later a new one does
while the server has a good index. -/
def mended : List (Run fun _ => Depot.single) := [garbledRun, ⟨1, asking (serving 60 packed)⟩]

/-- The look of the first solver. -/
def garbledLook : Look :=
  Depot.single.look (serving 0 garbage) address (.start ⟨Names.empty, none, 0⟩)

/-- The look of the second, which finds what the first left. -/
def mendedLook : Look :=
  Depot.single.look (serving 60 packed) address
    (.start ⟨garbledLook.last.indexes.files, none, 0⟩)

theorem looks_asking (turn : Turn) (first : Trail) (unloaded : first.indexes.loaded = none) :
    (Depot.single.pass (asking turn) first).looks = [Depot.single.look turn address first] := by
  have opened : Packages.openNames (.ofList [("curl", "*")]) ≠ [] := by decide
  rw [Depot.looks_pass, if_pos ⟨opened, unloaded⟩]
  simp only [asking, Depot.looks]
  split <;> rfl

theorem looks_mended : untouched.looks mended = [garbledLook, mendedLook] := by
  have early := looks_asking (serving 0 garbage) (.start ⟨Names.empty, none, 0⟩) rfl
  have left : (untouched.after garbledRun).files = garbledLook.last.indexes.files := by
    rcases (Depot.pass_abides Depot.single (asking (serving 0 garbage))
      (.start ⟨Names.empty, none, 0⟩)).goes_or with ⟨_, left⟩ | ⟨none, _⟩
    · rw [early] at left
      exact left
    · cases early.symm.trans none
  have late := looks_asking (serving 60 packed)
    (.start ⟨garbledLook.last.indexes.files, none, 0⟩) rfl
  have step : untouched.looks mended =
      (Depot.single.pass (asking (serving 0 garbage)) (.start ⟨Names.empty, none, 0⟩)).looks ++
        ((Depot.single.pass (asking (serving 60 packed))
          (.start ⟨(untouched.after garbledRun).files, none, 0⟩)).looks ++ []) := rfl
  rw [step, early, left, late]
  rfl

theorem garbled_asks : garbledLook.Asks := by
  refine ⟨fun file found => ?_, by decide⟩
  cases found

theorem garbled_unusable : garbledLook.result = .error (.unusable address) :=
  eq_error_of_failure? (by decide +kernel)

theorem mended_fresh : mendedLook.file? = some ⟨garbage, 0⟩ ∧ ¬ mendedLook.IsDue := by
  have found : mendedLook.file? = some ⟨garbage, 0⟩ :=
    (Names.find?_insert Names.empty (Depot.fileName address) _ _).trans (if_pos rfl)
  refine ⟨found, fun due => ?_⟩
  have late := due _ found
  revert late
  decide +kernel

theorem unusable_kept_mended :
    untouched.looks mended = [garbledLook, mendedLook] ∧ garbledLook.Asks ∧
      garbledLook.result = .error (.unusable address) ∧
      ¬ mendedLook.IsDue ∧ mendedLook.result = .error (.unusable address) := by
  have trace : untouched.looks mended = [] ++ garbledLook :: ([] ++ mendedLook :: []) :=
    looks_mended
  have kept := unusable_kept trace garbled_asks garbled_unusable rfl (by simp)
    fun look member => by
      obtain rfl := List.mem_singleton.mp member
      rfl
  exact ⟨looks_mended, garbled_asks, garbled_unusable, mended_fresh.2,
    (kept.2.1 mended_fresh.2).1⟩

/-- An index that cannot be read is served from its file though the server has a
good one by then. -/
theorem unusable_served_again :
    untouched.looks mended = [garbledLook, mendedLook] ∧ garbledLook.Asks ∧
      garbledLook.result = .error (.unusable garbledLook.url) ∧
      mendedLook.url = garbledLook.url ∧
      ((mendedLook.turn.served mendedLook.url >>= Depot.readIndex mendedLook.url).toOption.any
        fun index => index.find? "curl" == some "7.64.0-4") = true ∧
      ¬ mendedLook.Asks ∧ mendedLook.last.events = [] ∧
      mendedLook.result = .error (.unusable mendedLook.url) := by
  obtain ⟨found, fresh⟩ := mended_fresh
  obtain ⟨result, events⟩ := (Depot.look_obeys _ _ _ _ : mendedLook.Obeys).of_fresh found fresh
  have unusable : Depot.readIndex mendedLook.url garbage = .error (.unusable mendedLook.url) :=
    eq_error_of_failure? (by decide +kernel)
  exact ⟨looks_mended, garbled_asks, garbled_unusable, rfl, by decide +kernel,
    fun asks => fresh asks.1, events, result.trans unusable⟩

end Shared
end ImageLock
