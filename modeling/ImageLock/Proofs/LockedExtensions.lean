/-
Locking extensions. Each extension goes one way, which its name, its constraint and the
answer of the index fix. A map of extensions is locked name by name up to the first that
fails, and the index is asked for those only that are looked up on the way.
-/
import ImageLock.Extensions.Lock
import ImageLock.Proofs.Act
import ImageLock.Proofs.Names
import ImageLock.Proofs.Pieces
import Mathlib.Data.List.Forall2

namespace ImageLock.Extensions

open Act

/-! What a constraint asks for. -/

/-- A constraint asks for what `text` admits, of releases at least as finished as `least`,
which stands behind the first at sign. -/
inductive Asks : String → String → Stability → Prop
  | bare {text : String} (whole : '@' ∉ text.toList) : Asks text text .stable
  | marked {text : String} (least : Stability) (first : '@' ∉ text.toList) :
      Asks (text ++ "@" ++ least.name) text least

/-- No stability is called what stands behind the first at sign. -/
inductive AsksUnknown : String → String → Prop
  | marked {text name : String} (first : '@' ∉ text.toList)
      (unknown : ∀ stability : Stability, stability.name ≠ name) :
      AsksUnknown (text ++ "@" ++ name) name

theorem cut_marked {text : String} (first : '@' ∉ text.toList) (name : String) :
    Text.cut '@' (text ++ "@" ++ name) = some (text, name) := by
  have whole : (text ++ "@" ++ name).toList = text.toList ++ '@' :: name.toList := by simp
  rw [Text.cut, whole, Text.cutAt_append first]
  simp

theorem ofName?_name (stability : Stability) :
    Stability.ofName? stability.name = some stability := by
  cases stability <;> rfl

theorem ofName?_eq_none {name : String} :
    Stability.ofName? name = none ↔ ∀ stability : Stability, stability.name ≠ name := by
  rw [Stability.ofName?, List.find?_eq_none]
  constructor
  · intro none stability
    have listed : stability ∈ Stability.all := by cases stability <;> decide
    simpa using none stability listed
  · intro none stability _
    simpa using none stability

theorem splitStability_of_asks {constraint text : String} {least : Stability}
    (asks : Asks constraint text least) : splitStability constraint = .ok (text, least) := by
  cases asks with
  | bare whole => simp [splitStability, Text.cut, Text.cutAt_of_notMem whole]
  | marked _ first => simp [splitStability, cut_marked first, ofName?_name]

theorem splitStability_of_unknown {constraint name : String}
    (unknown : AsksUnknown constraint name) :
    splitStability constraint = .error (.invalidStability name) := by
  cases unknown with
  | marked first unknown =>
      simp [splitStability, cut_marked first, ofName?_eq_none.mpr unknown]

theorem asks_or_unknown (constraint : String) :
    (∃ text least, Asks constraint text least) ∨ ∃ name, AsksUnknown constraint name := by
  by_cases marked : '@' ∈ constraint.toList
  · obtain ⟨front, behind, whole, first⟩ := List.eq_append_cons_of_mem marked
    have first : '@' ∉ (String.ofList front).toList := by simpa using first
    have same : constraint = String.ofList front ++ "@" ++ String.ofList behind := by
      rw [← String.toList_inj]
      simp [whole]
    rw [same]
    cases known : Stability.ofName? (String.ofList behind) with
    | none => exact .inr ⟨_, .marked first (ofName?_eq_none.mp known)⟩
    | some least =>
        have name : least.name = String.ofList behind := by
          simpa using List.find?_some known
        rw [← name]
        exact .inl ⟨_, _, .marked least first⟩
  · exact .inl ⟨_, _, .bare marked⟩

theorem Asks.unique {constraint text text' : String} {least least' : Stability}
    (asks : Asks constraint text least) (asks' : Asks constraint text' least') :
    text = text' ∧ least = least' := by
  have same := (splitStability_of_asks asks).symm.trans (splitStability_of_asks asks')
  cases same
  exact ⟨rfl, rfl⟩

/-! One extension. -/

/-- An extension that is looked up: it does not belong to the runtime, and what its
constraint asks for is no single version. -/
def IsLookedUp (name constraint : String) : Prop :=
  isCore name = false ∧
    ∃ text least, Asks constraint text least ∧ Constraint.isExact text = false

/-- What an extension is locked to, or why it is not. -/
inductive Goes (index : ExtensionIndex) (isCancelled : Bool) (name : String) :
    String → Except ExtensionError String → Prop
  | core {constraint : String} (isCore : isCore name = true) :
      Goes index isCancelled name constraint (.ok constraint)
  | unknown {constraint stability : String} (community : Extensions.isCore name = false)
      (unknown : AsksUnknown constraint stability) :
      Goes index isCancelled name constraint (.error (.invalidStability stability))
  | exact {constraint text : String} {least : Stability}
      (community : Extensions.isCore name = false) (asks : Asks constraint text least)
      (exact : Constraint.isExact text = true) :
      Goes index isCancelled name constraint (.ok text)
  | unanswered {constraint text : String} {least : Stability} {error : IndexError}
      (community : Extensions.isCore name = false) (asks : Asks constraint text least)
      (range : Constraint.isExact text = false)
      (answer : (index isCancelled name).1 = .error error) :
      Goes index isCancelled name constraint (.error (.index error))
  | unreadable {constraint text : String} {least : Stability} {releases : List Release}
      (community : Extensions.isCore name = false) (asks : Asks constraint text least)
      (range : Constraint.isExact text = false)
      (answer : (index isCancelled name).1 = .ok releases)
      (invalid : Release.select releases text least = none) :
      Goes index isCancelled name constraint (.error (.invalidConstraint name text))
  | unmatched {constraint text : String} {least : Stability} {releases : List Release}
      (community : Extensions.isCore name = false) (asks : Asks constraint text least)
      (range : Constraint.isExact text = false)
      (answer : (index isCancelled name).1 = .ok releases)
      (nothing : Release.select releases text least = some none) :
      Goes index isCancelled name constraint (.error (.notFound name text least))
  | selected {constraint text version : String} {least : Stability} {releases : List Release}
      (community : Extensions.isCore name = false) (asks : Asks constraint text least)
      (range : Constraint.isExact text = false)
      (answer : (index isCancelled name).1 = .ok releases)
      (picked : Release.select releases text least = some (some version)) :
      Goes index isCancelled name constraint (.ok version)

/-- The index is asked once for an extension that is looked up, and not for others. -/
def AskedFor (name constraint : String) (asked : List String) : Prop :=
  asked = [name] ∧ IsLookedUp name constraint ∨ asked = [] ∧ ¬IsLookedUp name constraint

variable {index : ExtensionIndex} {isCancelled : Bool} {name constraint : String}

theorem AskedFor.mem_iff {first : String} {asked : List String}
    (asks : AskedFor first constraint asked) :
    name ∈ asked ↔ name = first ∧ IsLookedUp first constraint := by
  rcases asks with ⟨rfl, looked⟩ | ⟨rfl, not⟩
  · simp [looked]
  · simp [not]

theorem AskedFor.sublist {asked : List String} (asks : AskedFor name constraint asked) :
    asked.Sublist [name] := by
  rcases asks with ⟨rfl, -⟩ | ⟨rfl, -⟩
  · exact List.Sublist.refl _
  · exact List.nil_sublist _

/-- The trail behind the questions for some names. -/
def asking (index : ExtensionIndex) (isCancelled : Bool) (names : List String) (trail : Trail) :
    Trail :=
  { trail with events := trail.events ++ names.flatMap fun name => (index isCancelled name).2 }

theorem asking_nil (trail : Trail) : asking index isCancelled [] trail = trail := by
  simp [asking]

theorem asking_append (names more : List String) (trail : Trail) :
    asking index isCancelled (names ++ more) trail =
      asking index isCancelled more (asking index isCancelled names trail) := by
  simp [asking]

theorem lockOne_core (isCore : isCore name = true) (trail : Trail) :
    (lockOne index isCancelled name constraint).after trail = (.ok constraint, trail) := by
  rw [lockOne, if_pos isCore]
  rfl

theorem lockOne_unknown {stability : String} (community : isCore name = false)
    (unknown : AsksUnknown constraint stability) (trail : Trail) :
    (lockOne index isCancelled name constraint).after trail =
      (.error (.invalidStability stability), trail) := by
  rw [lockOne, if_neg (by simp [community]), splitStability_of_unknown unknown]
  rfl

theorem lockOne_exact {text : String} {least : Stability} (community : isCore name = false)
    (asks : Asks constraint text least) (exact : Constraint.isExact text = true)
    (trail : Trail) :
    (lockOne index isCancelled name constraint).after trail = (.ok text, trail) := by
  rw [lockOne, if_neg (by simp [community]), splitStability_of_asks asks, ofExcept_ok_bind]
  simp only [exact, if_true]
  rfl

/-- What the answer of the index comes to. -/
def chosen (name text : String) (least : Stability) :
    Except IndexError (List Release) → Except ExtensionError String
  | .error error => .error (.index error)
  | .ok releases =>
      match Release.select releases text least with
      | none => .error (.invalidConstraint name text)
      | some none => .error (.notFound name text least)
      | some (some version) => .ok version

theorem lockOne_lookedUp {text : String} {least : Stability} (community : isCore name = false)
    (asks : Asks constraint text least) (range : Constraint.isExact text = false)
    (trail : Trail) :
    (lockOne index isCancelled name constraint).after trail =
      (chosen name text least (index isCancelled name).1,
        asking index isCancelled [name] trail) := by
  rw [lockOne, if_neg (by simp [community]), splitStability_of_asks asks, ofExcept_ok_bind]
  simp only [range, Bool.false_eq_true, if_false]
  rw [after_bind, after_mapError, after_ofReply]
  cases answer : (index isCancelled name).1 with
  | error error => simp [chosen, asking]
  | ok releases =>
      cases picked : Release.select releases text least with
      | none => simp [chosen, picked, after_fail, asking]
      | some best => cases best <;> simp [chosen, picked, after_fail, after_pure, asking]

theorem goes_chosen {text : String} {least : Stability} (community : isCore name = false)
    (asks : Asks constraint text least) (range : Constraint.isExact text = false) :
    Goes index isCancelled name constraint (chosen name text least (index isCancelled name).1) := by
  cases answer : (index isCancelled name).1 with
  | error error => exact .unanswered community asks range answer
  | ok releases =>
      unfold chosen
      dsimp only
      split
      · exact .unreadable community asks range answer ‹_›
      · exact .unmatched community asks range answer ‹_›
      · exact .selected community asks range answer ‹_›

/-- An extension goes one of the ways, and is asked for if it is looked up. -/
theorem lockOne_goes (index : ExtensionIndex) (isCancelled : Bool) (name constraint : String)
    (trail : Trail) :
    ∃ outcome asked, (lockOne index isCancelled name constraint).after trail =
        (outcome, asking index isCancelled asked trail) ∧
      Goes index isCancelled name constraint outcome ∧ AskedFor name constraint asked := by
  cases runtime : isCore name with
  | true =>
      refine ⟨_, [], ?_, .core runtime, .inr ⟨rfl, ?_⟩⟩
      · rw [lockOne_core runtime, asking_nil]
      · intro looked
        rw [looked.1] at runtime
        cases runtime
  | false =>
      rcases asks_or_unknown constraint with ⟨text, least, asks⟩ | ⟨stability, unknown⟩
      · cases exact : Constraint.isExact text with
        | true =>
            refine ⟨_, [], ?_, .exact runtime asks exact, .inr ⟨rfl, ?_⟩⟩
            · rw [lockOne_exact runtime asks exact, asking_nil]
            · rintro ⟨-, text', least', asks', range⟩
              rw [← (asks.unique asks').1, exact] at range
              cases range
        | false =>
            exact ⟨_, [name], lockOne_lookedUp runtime asks exact trail,
              goes_chosen runtime asks exact, .inl ⟨rfl, runtime, text, least, asks, exact⟩⟩
      · refine ⟨_, [], ?_, .unknown runtime unknown, .inr ⟨rfl, ?_⟩⟩
        · rw [lockOne_unknown runtime unknown, asking_nil]
        · rintro ⟨-, text, least, asks, -⟩
          have same := (splitStability_of_unknown unknown).symm.trans (splitStability_of_asks asks)
          cases same

/-- No extension goes two ways. -/
theorem Goes.unique {outcome outcome' : Except ExtensionError String}
    (goes : Goes index isCancelled name constraint outcome)
    (goes' : Goes index isCancelled name constraint outcome') : outcome = outcome' := by
  have run {outcome : Except ExtensionError String}
      (goes : Goes index isCancelled name constraint outcome) (trail : Trail) :
      ((lockOne index isCancelled name constraint).after trail).1 = outcome := by
    cases goes with
    | core isCore => rw [lockOne_core isCore]
    | unknown community unknown => rw [lockOne_unknown community unknown]
    | exact community asks exact => rw [lockOne_exact community asks exact]
    | unanswered community asks range answer =>
        rw [lockOne_lookedUp community asks range, answer]
        rfl
    | unreadable community asks range answer invalid =>
        rw [lockOne_lookedUp community asks range, answer]
        simp only [chosen, invalid]
    | unmatched community asks range answer nothing =>
        rw [lockOne_lookedUp community asks range, answer]
        simp only [chosen, nothing]
    | selected community asks range answer picked =>
        rw [lockOne_lookedUp community asks range, answer]
        simp only [chosen, picked]
  exact (run goes (Trail.start .empty)).symm.trans (run goes' _)

theorem Goes.run {outcome : Except ExtensionError String}
    (goes : Goes index isCancelled name constraint outcome) (trail : Trail) :
    ∃ last, (lockOne index isCancelled name constraint).after trail = (outcome, last) := by
  obtain ⟨outcome', asked, run, goes', -⟩ := lockOne_goes index isCancelled name constraint trail
  rw [goes.unique goes', run]
  exact ⟨_, rfl⟩

/-- What is not looked up does not depend on the index. -/
theorem lockOne_congr {index' : ExtensionIndex}
    (same : IsLookedUp name constraint → index' isCancelled name = index isCancelled name) :
    lockOne index' isCancelled name constraint = lockOne index isCancelled name constraint := by
  by_cases runtime : isCore name = true
  · rw [lockOne, lockOne, if_pos runtime, if_pos runtime]
  · have community := Bool.eq_false_iff.mpr runtime
    rw [lockOne, lockOne, if_neg runtime, if_neg runtime]
    rcases asks_or_unknown constraint with ⟨text, least, asks⟩ | ⟨stability, unknown⟩
    · rw [splitStability_of_asks asks, ofExcept_ok_bind, ofExcept_ok_bind]
      by_cases exact : Constraint.isExact text = true
      · simp only [exact, if_true]
      · rw [same ⟨community, text, least, asks, Bool.eq_false_iff.mpr exact⟩]
    · rw [splitStability_of_unknown unknown]
      rfl

/-! One extension after the other. -/

/-- What extensions in a row are locked to, or why one of them is not, and for which the index
is asked. -/
inductive Runs (index : ExtensionIndex) (isCancelled : Bool) :
    List (String × String) → Except ExtensionError (List (String × String)) → List String → Prop
  | done : Runs index isCancelled [] (.ok []) []
  | stopped {name constraint : String} {error : ExtensionError} {asked : List String}
      (goes : Goes index isCancelled name constraint (.error error))
      (asks : AskedFor name constraint asked) (rest : List (String × String)) :
      Runs index isCancelled ((name, constraint) :: rest) (.error error) asked
  | next {name constraint version : String} {asked more : List String}
      {rest : List (String × String)} {outcome : Except ExtensionError (List (String × String))}
      (goes : Goes index isCancelled name constraint (.ok version))
      (asks : AskedFor name constraint asked)
      (later : Runs index isCancelled rest outcome more) :
      Runs index isCancelled ((name, constraint) :: rest) (outcome.map ((name, version) :: ·))
        (asked ++ more)

theorem lockEntries_runs (index : ExtensionIndex) (isCancelled : Bool)
    (entries : List (String × String)) (trail : Trail) :
    ∃ outcome asked, (lockEntries index isCancelled entries).after trail =
        (outcome, asking index isCancelled asked trail) ∧
      Runs index isCancelled entries outcome asked := by
  induction entries generalizing trail with
  | nil => exact ⟨_, [], by rw [asking_nil]; rfl, .done⟩
  | cons entry rest ih =>
      obtain ⟨name, constraint⟩ := entry
      obtain ⟨outcome, asked, run, goes, asks⟩ :=
        lockOne_goes index isCancelled name constraint trail
      cases outcome with
      | error error =>
          refine ⟨_, asked, ?_, .stopped goes asks rest⟩
          rw [lockEntries, after_bind, run]
      | ok version =>
          obtain ⟨outcome, more, later, runs⟩ := ih (asking index isCancelled asked trail)
          refine ⟨_, asked ++ more, ?_, .next goes asks runs⟩
          rw [lockEntries, after_bind, run]
          dsimp only
          rw [after_bind, later, asking_append]
          cases outcome <;> rfl

/-- An extension of a row comes up if all before it are locked. -/
def Reached (index : ExtensionIndex) (isCancelled : Bool) (entries : List (String × String))
    (name constraint : String) : Prop :=
  ∃ before later, entries = before ++ (name, constraint) :: later ∧
    ∀ e ∈ before, ∃ version, Goes index isCancelled e.1 e.2 (.ok version)

theorem reached_nil : ¬Reached index isCancelled [] name constraint := by
  rintro ⟨before, later, whole, -⟩
  cases before <;> cases whole

theorem reached_cons {entry : String × String} {rest : List (String × String)} :
    Reached index isCancelled (entry :: rest) name constraint ↔
      (name, constraint) = entry ∨
        (∃ version, Goes index isCancelled entry.1 entry.2 (.ok version)) ∧
          Reached index isCancelled rest name constraint := by
  constructor
  · rintro ⟨before, later, whole, locked⟩
    cases before with
    | nil => exact .inl (List.cons.inj whole).1.symm
    | cons first before =>
        obtain ⟨same, behind⟩ := List.cons.inj whole
        subst same
        exact .inr ⟨locked _ List.mem_cons_self, before, later, behind,
          fun e member => locked e (List.mem_cons_of_mem _ member)⟩
  · rintro (rfl | ⟨locked, before, later, rfl, earlier⟩)
    · exact ⟨[], rest, rfl, nofun⟩
    · exact ⟨entry :: before, later, rfl, List.forall_mem_cons.mpr ⟨locked, earlier⟩⟩

variable {entries : List (String × String)} {asked : List String}
  {outcome : Except ExtensionError (List (String × String))}

/-- All extensions of a row are locked if each one of them can be. -/
theorem Runs.ok_iff (runs : Runs index isCancelled entries outcome asked)
    (locked : List (String × String)) :
    outcome = .ok locked ↔ List.Forall₂ (fun e l => l.1 = e.1 ∧
      Goes index isCancelled e.1 e.2 (.ok l.2)) entries locked := by
  induction runs generalizing locked with
  | done =>
      rw [List.forall₂_nil_left_iff, Except.ok.injEq]
      exact eq_comm
  | stopped goes _ rest =>
      constructor
      · nofun
      · intro each
        obtain ⟨_, _, ⟨-, goes'⟩, -, -⟩ := List.forall₂_cons_left_iff.mp each
        cases goes.unique goes'
  | @next name constraint version _ _ rest outcome goes _ _ ih =>
      rw [List.forall₂_cons_left_iff]
      constructor
      · intro answered
        cases outcome with
        | error error => cases answered
        | ok later =>
            cases answered
            exact ⟨(name, version), later, ⟨rfl, goes⟩, (ih later).mp rfl, rfl⟩
      · rintro ⟨⟨name', version'⟩, later, ⟨rfl, goes'⟩, each, rfl⟩
        cases goes.unique goes'
        rw [(ih later).mpr each]
        rfl

/-- What stops a row is the first of its extensions that cannot be locked. -/
theorem Runs.error_iff (runs : Runs index isCancelled entries outcome asked)
    (error : ExtensionError) :
    outcome = .error error ↔ ∃ name constraint,
      Reached index isCancelled entries name constraint ∧
        Goes index isCancelled name constraint (.error error) := by
  induction runs with
  | done =>
      constructor
      · nofun
      · rintro ⟨_, _, reached, -⟩
        exact absurd reached reached_nil
  | @stopped name constraint failure _ goes _ rest =>
      constructor
      · intro same
        cases same
        exact ⟨name, constraint, reached_cons.mpr (.inl rfl), goes⟩
      · rintro ⟨_, _, reached, goes'⟩
        rcases reached_cons.mp reached with here | ⟨⟨version, locked⟩, -⟩
        · cases here
          exact congrArg _ (Except.error.inj (goes.unique goes'))
        · cases goes.unique locked
  | @next name constraint version _ _ rest outcome goes _ _ ih =>
      have onward : outcome.map ((name, version) :: ·) = .error error ↔
          outcome = .error error := by
        cases outcome <;> simp [Except.map]
      rw [onward, ih]
      constructor
      · rintro ⟨name', constraint', reached, fails⟩
        exact ⟨name', constraint', reached_cons.mpr (.inr ⟨⟨version, goes⟩, reached⟩), fails⟩
      · rintro ⟨name', constraint', reached, fails⟩
        rcases reached_cons.mp reached with here | ⟨-, reached⟩
        · cases here
          cases goes.unique fails
        · exact ⟨name', constraint', reached, fails⟩

/-- The index is asked for what is looked up and comes up. -/
theorem Runs.mem_asked (runs : Runs index isCancelled entries outcome asked) (name : String) :
    name ∈ asked ↔ ∃ constraint, Reached index isCancelled entries name constraint ∧
      IsLookedUp name constraint := by
  induction runs with
  | done => simp [reached_nil]
  | @stopped first constraint error _ goes asks rest =>
      rw [asks.mem_iff]
      constructor
      · rintro ⟨rfl, looked⟩
        exact ⟨constraint, reached_cons.mpr (.inl rfl), looked⟩
      · rintro ⟨_, reached, looked⟩
        rcases reached_cons.mp reached with here | ⟨⟨version, locked⟩, -⟩
        · cases here
          exact ⟨rfl, looked⟩
        · cases goes.unique locked
  | @next first constraint version _ _ rest _ goes asks _ ih =>
      rw [List.mem_append, asks.mem_iff, ih]
      constructor
      · rintro (⟨rfl, looked⟩ | ⟨constraint', reached, looked⟩)
        · exact ⟨constraint, reached_cons.mpr (.inl rfl), looked⟩
        · exact ⟨constraint', reached_cons.mpr (.inr ⟨⟨version, goes⟩, reached⟩), looked⟩
      · rintro ⟨constraint', reached, looked⟩
        rcases reached_cons.mp reached with here | ⟨-, reached⟩
        · cases here
          exact .inl ⟨rfl, looked⟩
        · exact .inr ⟨constraint', reached, looked⟩

/-- The index is asked in the order of the row, and once for each of its extensions. -/
theorem Runs.sublist (runs : Runs index isCancelled entries outcome asked) :
    asked.Sublist (entries.map (·.1)) := by
  induction runs with
  | done => exact List.Sublist.refl _
  | stopped _ asks rest =>
      exact asks.sublist.trans (List.singleton_sublist.mpr List.mem_cons_self)
  | next _ asks _ ih => exact asks.sublist.append ih

/-- Where two indexes answer the same questions alike, the same comes of them. -/
theorem Runs.congr {index' : ExtensionIndex}
    (runs : Runs index isCancelled entries outcome asked)
    (same : ∀ name ∈ asked, index' isCancelled name = index isCancelled name) (trail : Trail) :
    (lockEntries index' isCancelled entries).after trail =
      (lockEntries index isCancelled entries).after trail := by
  induction runs generalizing trail with
  | done => rfl
  | stopped goes asks rest =>
      have alike := lockOne_congr fun looked => same _ (asks.mem_iff.mpr ⟨rfl, looked⟩)
      obtain ⟨last, run⟩ := goes.run trail
      rw [lockEntries, lockEntries, after_bind, after_bind, alike, run]
  | next goes asks _ ih =>
      have alike := lockOne_congr fun looked =>
        same _ (List.mem_append_left _ (asks.mem_iff.mpr ⟨rfl, looked⟩))
      have later := ih fun name member => same name (List.mem_append_right _ member)
      obtain ⟨last, run⟩ := goes.run trail
      rw [lockEntries, lockEntries, after_bind, after_bind, alike, run]
      dsimp only
      rw [after_bind, after_bind, later]

/-! A map of extensions. -/

theorem lock_after (extensions : VersionMap) (trail : Trail) :
    (lock index isCancelled extensions).after trail =
      (((lockEntries index isCancelled extensions.entries).after trail).1.map VersionMap.ofList,
        ((lockEntries index isCancelled extensions.entries).after trail).2) := by
  rw [lock, after_bind]
  rcases (lockEntries index isCancelled extensions.entries).after trail with ⟨_ | _, _⟩ <;> rfl

/-- Entries of the names of a map are those of the map that they make. -/
theorem entries_ofList_of_forall₂ {extensions : VersionMap} {locked : List (String × String)}
    {relation : String × String → String × String → Prop}
    (each : List.Forall₂ (fun e l => l.1 = e.1 ∧ relation e l) extensions.entries locked) :
    (VersionMap.ofList locked).entries = locked := by
  have names : locked.map (·.1) = extensions.entries.map (·.1) := by
    generalize extensions.entries = entries at each
    induction each with
    | nil => rfl
    | cons same _ ih => rw [List.map_cons, List.map_cons, same.1, ih]
  have sorted : (locked.map (·.1)).Pairwise (· < ·) := by
    rw [names]
    exact List.pairwise_map.mpr extensions.toNames.sorted
  exact Names.entries_ofList (List.pairwise_map.mp sorted)

theorem ofList_entries_of_ne_nil {m : VersionMap} (given : m ≠ .nil) :
    VersionMap.ofList m.entries = m := by
  obtain ⟨_ | names⟩ := m
  · exact absurd rfl given
  · exact congrArg VersionMap.ofNames (Names.ofList_entries names)

theorem lock_ok_iff {extensions locked : VersionMap} {trail : Trail} :
    ((lock index isCancelled extensions).after trail).1 = .ok locked ↔ locked ≠ .nil ∧
      List.Forall₂ (fun e l => l.1 = e.1 ∧ Goes index isCancelled e.1 e.2 (.ok l.2))
        extensions.entries locked.entries := by
  obtain ⟨outcome, asked, run, runs⟩ := lockEntries_runs index isCancelled extensions.entries trail
  rw [lock_after, run]
  constructor
  · intro answered
    cases outcome with
    | error error => cases answered
    | ok entries =>
        cases answered
        have each := (runs.ok_iff entries).mp rfl
        rw [entries_ofList_of_forall₂ each]
        exact ⟨nofun, each⟩
  · rintro ⟨given, each⟩
    rw [(runs.ok_iff _).mpr each]
    exact congrArg Except.ok (ofList_entries_of_ne_nil given)

/-- A map of extensions is locked if each of them can be, each to what it goes to. Else the
first that cannot says why. The index is asked once for each extension that is looked up, in
the order of their names, as far as all before it are locked; nothing else of the index
matters. -/
theorem lock_goes (index : ExtensionIndex) (isCancelled : Bool) (extensions : VersionMap)
    (trail : Trail) :
    let outcome := (lock index isCancelled extensions).after trail
    (∀ locked, outcome.1 = .ok locked ↔ locked ≠ .nil ∧
      List.Forall₂ (fun e l => l.1 = e.1 ∧ Goes index isCancelled e.1 e.2 (.ok l.2))
        extensions.entries locked.entries) ∧
    (∀ error, outcome.1 = .error error ↔ ∃ name constraint,
      Reached index isCancelled extensions.entries name constraint ∧
        Goes index isCancelled name constraint (.error error)) ∧
    ∃ asked : List String, asked.Sublist extensions.names ∧
      (∀ name, name ∈ asked ↔ ∃ constraint,
        Reached index isCancelled extensions.entries name constraint ∧
          IsLookedUp name constraint) ∧
      outcome.2 = asking index isCancelled asked trail ∧
      ∀ index' : ExtensionIndex,
        (∀ name ∈ asked, index' isCancelled name = index isCancelled name) →
          (lock index' isCancelled extensions).after trail = outcome := by
  intro outcome
  obtain ⟨answer, asked, run, runs⟩ := lockEntries_runs index isCancelled extensions.entries trail
  have whole : outcome = (answer.map VersionMap.ofList, asking index isCancelled asked trail) := by
    have locked : outcome = _ := lock_after extensions trail
    rw [locked, run]
  refine ⟨fun locked => lock_ok_iff, fun error => ?_, asked, runs.sublist, runs.mem_asked, ?_,
    fun index' same => ?_⟩
  · rw [← runs.error_iff, whole]
    cases answer <;> simp [Except.map]
  · rw [whole]
  · rw [whole, lock_after, runs.congr same trail, run]

end ImageLock.Extensions
