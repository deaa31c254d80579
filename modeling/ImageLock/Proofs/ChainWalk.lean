/-
The walk from a stage up to the base. Whatever the parents of a set are, the walk
ends, and its three outcomes are told by the stages that it meets: it reaches the
base, or a name that is not declared, or a name that it has met before.
-/
import Mathlib.Data.List.Nodup
import Mathlib.Data.List.Perm.Subperm
import ImageLock.Stage.Chain
import ImageLock.Proofs.Names

namespace ImageLock.StageSet

variable {S : Type} {set : StageSet S}

/-! Following parents. -/

/-- Following parents from a name meets these stages, under these names, and gets to
`last`. Nothing is followed beyond the base. -/
inductive Leads (set : StageSet S) : String → List (String × DerivedStage S) → String → Prop where
  | here (name : String) : Leads set name [] name
  | parent {name last : String} {stage : DerivedStage S} {met : List (String × DerivedStage S)}
      (below : isBase name = false) (found : set.find? name = some stage)
      (rest : Leads set stage.parent met last) : Leads set name ((name, stage) :: met) last

/-- Where there is no parent to follow. -/
def Stops (set : StageSet S) (name : String) : Prop :=
  isBase name = true ∨ set.find? name = none

namespace Leads

variable {name last : String} {met met' : List (String × DerivedStage S)}

theorem declared (leads : Leads set name met last) {e : String × DerivedStage S}
    (member : e ∈ met) : isBase e.1 = false ∧ set.find? e.1 = some e.2 := by
  induction leads with
  | here => cases member
  | parent below found _ ih =>
      rcases List.mem_cons.mp member with rfl | later
      · exact ⟨below, found⟩
      · exact ih later

/-- From each stage that is met the same way goes on. -/
theorem of_mem (leads : Leads set name met last) {m : String} (member : m ∈ met.map (·.1)) :
    ∃ front stage back, met = front ++ (m, stage) :: back ∧
      Leads set m ((m, stage) :: back) last := by
  induction leads with
  | here => cases member
  | @parent name last stage met below found rest ih =>
      rcases List.mem_cons.mp member with rfl | later
      · exact ⟨[], stage, met, rfl, .parent below found rest⟩
      · obtain ⟨front, stage', back, split, onward⟩ := ih later
        exact ⟨(name, stage) :: front, stage', back, by rw [split]; rfl, onward⟩

/-- There is only one way: of two, one goes on where the other ends. -/
theorem linear {m m' : String} (leads : Leads set name met m) (leads' : Leads set name met' m') :
    (∃ rest, met' = met ++ rest ∧ Leads set m rest m') ∨
      ∃ rest, met = met' ++ rest ∧ Leads set m' rest m := by
  induction leads generalizing met' with
  | here name => exact .inl ⟨met', rfl, leads'⟩
  | @parent name m stage met below found rest ih =>
      cases leads' with
      | here => exact .inr ⟨_, rfl, .parent below found rest⟩
      | @parent _ _ stage' met' _ found' rest' =>
          obtain rfl : stage = stage' := Option.some.inj (found.symm.trans found')
          rcases ih rest' with ⟨more, split, onward⟩ | ⟨more, split, onward⟩
          · exact .inl ⟨more, by rw [split]; rfl, onward⟩
          · exact .inr ⟨more, by rw [split]; rfl, onward⟩

theorem eq_nil_of_stops (leads : Leads set name met last) (stops : set.Stops name) :
    met = [] ∧ name = last := by
  cases leads with
  | here => exact ⟨rfl, rfl⟩
  | parent below found _ =>
      rcases stops with base | missing
      · simp [below] at base
      · simp [found] at missing

/-- A way that comes to an end goes on from wherever another way got to. -/
theorem onward {m : String} (leads : Leads set name met m) (whole : Leads set name met' last)
    (stops : set.Stops last) : ∃ rest, met' = met ++ rest ∧ Leads set m rest last := by
  rcases leads.linear whole with more | ⟨rest, split, back⟩
  · exact more
  · obtain ⟨rfl, rfl⟩ := back.eq_nil_of_stops stops
    exact ⟨[], by simpa using split.symm, .here _⟩

/-- All ways that come to an end are one way. -/
theorem stops_unique {last' : String} (leads : Leads set name met last) (stops : set.Stops last)
    (leads' : Leads set name met' last') (stops' : set.Stops last') :
    met = met' ∧ last = last' := by
  obtain ⟨rest, split, onward⟩ := leads.onward leads' stops'
  obtain ⟨rfl, same⟩ := onward.eq_nil_of_stops stops
  exact ⟨by simpa using split.symm, same⟩

/-- A way that comes to an end never meets a name twice: between the two it would
have gone around, and would go around again. -/
theorem nodup_of_stops (leads : Leads set name met last) (stops : set.Stops last) :
    (met.map (·.1)).Nodup := by
  induction leads with
  | here => exact List.nodup_nil
  | @parent name last stage met below found rest ih =>
      refine List.nodup_cons.mpr ⟨fun again => ?_, ih stops⟩
      obtain ⟨front, stage', back, split, onward⟩ := rest.of_mem again
      have whole : Leads set name ((name, stage) :: met) last := .parent below found rest
      obtain ⟨more, longer, -⟩ := whole.onward onward stops
      have counted := congrArg List.length longer
      rw [split] at counted
      simp at counted
      omega

/-- A way that has met a name twice has no end. -/
theorem not_stops_of_again {m : String} (leads : Leads set name met m)
    (again : m ∈ met.map (·.1)) (whole : Leads set name met' last) : ¬ set.Stops last := by
  intro stops
  obtain ⟨rest, split, onward⟩ := leads.onward whole stops
  obtain ⟨front, stage, back, there, around⟩ := leads.of_mem again
  have once := whole.nodup_of_stops stops
  cases onward with
  | here =>
      obtain ⟨below, found⟩ := leads.declared (e := (last, stage)) (by rw [there]; simp)
      rcases stops with base | missing
      · simp [below] at base
      · simp [found] at missing
  | parent _ _ _ =>
      rw [split, List.map_append, List.nodup_append] at once
      exact once.2.2 m again m (by simp) rfl

/-- The first name that is met twice is one name. -/
theorem again_unique {m m' : String} (leads : Leads set name met m)
    (once : (met.map (·.1)).Nodup) (again : m ∈ met.map (·.1)) (leads' : Leads set name met' m')
    (once' : (met'.map (·.1)).Nodup) (again' : m' ∈ met'.map (·.1)) : m = m' := by
  have apart {m m' : String} {met met' rest : List (String × DerivedStage S)}
      (again : m ∈ met.map (·.1)) (once' : (met'.map (·.1)).Nodup) (split : met' = met ++ rest)
      (onward : Leads set m rest m') : m = m' := by
    cases onward with
    | here => rfl
    | parent _ _ _ =>
        rw [split, List.map_append, List.nodup_append] at once'
        exact absurd rfl (once'.2.2 m again m (by simp))
  rcases leads.linear leads' with ⟨rest, split, onward⟩ | ⟨rest, split, onward⟩
  · exact apart again once' split onward
  · exact (apart again' once split onward).symm

end Leads

/-! The walk. -/

/-- The walk as it goes, without any bound: how many stages it looks up, and how it
ends. -/
inductive Walks (set : StageSet S) :
    List String → String → Nat → Except StageError (List (DerivedStage S)) → Prop where
  | base {visited : List String} {name : String} (base : isBase name = true) :
      Walks set visited name 0 (.ok [])
  | again {visited : List String} {name : String} (below : isBase name = false)
      (again : name ∈ visited) : Walks set visited name 0 (.error (.cyclic name))
  | missing {visited : List String} {name : String} (below : isBase name = false)
      (new : name ∉ visited) (missing : set.find? name = none) :
      Walks set visited name 1 (.error (.notFound name))
  | stage {visited : List String} {name : String} {stage : DerivedStage S} {lookups : Nat}
      {outcome : Except StageError (List (DerivedStage S))} (below : isBase name = false)
      (new : name ∉ visited) (found : set.find? name = some stage)
      (rest : Walks set (name :: visited) stage.parent lookups outcome) :
      Walks set visited name (lookups + 1) (outcome.map (stage :: ·))

/-- Names that are all declared, and each once, are no more than the stages. -/
theorem length_le_size (set : StageSet S) {names : List String} (once : names.Nodup)
    (declared : ∀ name ∈ names, set.has name = true) : names.length ≤ set.size := by
  have within : names ⊆ set.keys := fun name member => Names.mem_keys.mpr (declared name member)
  simpa [Names.keys, Names.size] using (once.subperm within).length_le

/-- Each step of the walk leaves one stage less to meet, so the bound is never what
ends it. -/
theorem walks_walk (set : StageSet S) (fuel : Nat) (visited : List String) (name : String)
    (once : visited.Nodup) (declared : ∀ n ∈ visited, set.has n = true)
    (enough : set.size ≤ fuel + visited.length) :
    ∃ lookups, lookups + visited.length ≤ set.size + 1 ∧
      Walks set visited name lookups (walk set fuel visited name) := by
  have few := length_le_size set once declared
  have longer {name : String} {stage : DerivedStage S} {visited : List String}
      (once : visited.Nodup) (declared : ∀ n ∈ visited, set.has n = true) (new : name ∉ visited)
      (found : set.find? name = some stage) :
      (name :: visited).Nodup ∧ ∀ n ∈ name :: visited, set.has n = true := by
    have known : set.has name = true := by rw [← Names.isSome_find?, found]; rfl
    exact ⟨List.nodup_cons.mpr ⟨new, once⟩, by simpa [known] using declared⟩
  fun_induction walk set fuel visited name with
  | case1 fuel visited name base => exact ⟨0, by omega, .base base⟩
  | case2 fuel visited name below again =>
      exact ⟨0, by omega, .again (by simpa using below) (by simpa using again)⟩
  | case3 fuel visited name below new missing =>
      exact ⟨1, by omega, .missing (by simpa using below) (by simpa using new) missing⟩
  | case4 visited name below new stage found =>
      obtain ⟨once, declared⟩ := longer once declared (by simpa using new) found
      have more := length_le_size set once declared
      simp at more
      omega
  | case5 visited name below new stage fuel found ih =>
      obtain ⟨once, declared⟩ := longer once declared (by simpa using new) found
      obtain ⟨lookups, bounded, walks⟩ :=
        ih once declared (by simp; omega) (length_le_size set once declared)
      have step := Walks.stage (by simpa using below) (by simpa using new) found walks
      refine ⟨lookups + 1, by simp at bounded; omega, ?_⟩
      cases walked : walk set fuel (name :: visited) stage.parent <;>
        simpa [walked, Except.map, bind, Except.bind, pure, Except.pure] using step

theorem walks_chain (set : StageSet S) (name : String) :
    ∃ lookups ≤ set.size + 1, Walks set [] name lookups (set.chain name) := by
  obtain ⟨lookups, bounded, walks⟩ :=
    walks_walk set (set.size + 1) [] name List.nodup_nil (by simp) (by simp)
  exact ⟨lookups, by simpa using bounded, walks⟩

/-- What the stages that are met say of an outcome, beside names visited earlier. -/
def Ends (set : StageSet S) (visited : List String) (name : String) :
    Except StageError (List (DerivedStage S)) → Prop
  | .ok stages => ∃ met last, Leads set name met last ∧ isBase last = true ∧ met.map (·.2) = stages
  | .error (.notFound m) => ∃ met, Leads set name met m ∧ isBase m = false ∧ set.find? m = none
  | .error (.cyclic m) => ∃ met, Leads set name met m ∧ (met.map (·.1)).Nodup ∧
      (∀ n ∈ met.map (·.1), n ∉ visited) ∧ m ∈ visited ++ met.map (·.1)

theorem Walks.ends {visited : List String} {name : String} {lookups : Nat}
    {outcome : Except StageError (List (DerivedStage S))}
    (walks : Walks set visited name lookups outcome) : Ends set visited name outcome := by
  induction walks with
  | base base => exact ⟨[], _, .here _, base, rfl⟩
  | again below again => exact ⟨[], .here _, List.nodup_nil, by simp, by simpa using again⟩
  | missing below new missing => exact ⟨[], .here _, below, missing⟩
  | @stage visited name stage lookups outcome below new found rest ih =>
      rcases outcome with (m | m) | stages
      · obtain ⟨met, leads, ends⟩ := ih
        exact ⟨(name, stage) :: met, .parent below found leads, ends⟩
      · -- A name met later is neither this one nor one from before, by what `ih` says of
        -- the names visited by then.
        obtain ⟨met, leads, once, fresh, again⟩ := ih
        refine ⟨(name, stage) :: met, .parent below found leads, List.nodup_cons.mpr
          ⟨fun later => (fresh name later) List.mem_cons_self, once⟩, ?_, ?_⟩
        · intro n member
          rcases List.mem_cons.mp member with rfl | later
          · exact new
          · exact fun old => fresh n later (List.mem_cons_of_mem _ old)
        · simp only [List.mem_append, List.mem_cons, List.map_cons] at again ⊢
          tauto
      · obtain ⟨met, last, leads, base, same⟩ := ih
        exact ⟨(name, stage) :: met, last, .parent below found leads, base, by simp [same]⟩

/-- No two outcomes fit one name. -/
theorem Ends.unique {name : String} {outcome outcome' : Except StageError (List (DerivedStage S))}
    (ends : Ends set [] name outcome) (ends' : Ends set [] name outcome') :
    outcome = outcome' := by
  -- Either both ways come to an end, which is then the same one, or both go around.
  rcases outcome with (m | m) | stages <;> rcases outcome' with (m' | m') | stages'
  · obtain ⟨_, leads, -, missing⟩ := ends
    obtain ⟨_, leads', -, missing'⟩ := ends'
    rw [(leads.stops_unique (.inr missing) leads' (.inr missing')).2]
  · obtain ⟨_, leads, -, missing⟩ := ends
    obtain ⟨_, leads', -, -, again⟩ := ends'
    exact absurd (.inr missing) (leads'.not_stops_of_again (by simpa using again) leads)
  · obtain ⟨_, leads, below, missing⟩ := ends
    obtain ⟨_, _, leads', base, -⟩ := ends'
    obtain ⟨-, rfl⟩ := leads.stops_unique (.inr missing) leads' (.inl base)
    simp [below] at base
  · obtain ⟨_, leads, -, -, again⟩ := ends
    obtain ⟨_, leads', -, missing⟩ := ends'
    exact absurd (.inr missing) (leads.not_stops_of_again (by simpa using again) leads')
  · obtain ⟨_, leads, once, -, again⟩ := ends
    obtain ⟨_, leads', once', -, again'⟩ := ends'
    rw [leads.again_unique once (by simpa using again) leads' once' (by simpa using again')]
  · obtain ⟨_, leads, -, -, again⟩ := ends
    obtain ⟨_, _, leads', base, -⟩ := ends'
    exact absurd (.inl base) (leads.not_stops_of_again (by simpa using again) leads')
  · obtain ⟨_, _, leads, base, -⟩ := ends
    obtain ⟨_, leads', below, missing⟩ := ends'
    obtain ⟨-, rfl⟩ := leads.stops_unique (.inl base) leads' (.inr missing)
    simp [below] at base
  · obtain ⟨_, _, leads, base, -⟩ := ends
    obtain ⟨_, leads', -, -, again⟩ := ends'
    exact absurd (.inl base) (leads'.not_stops_of_again (by simpa using again) leads)
  · obtain ⟨_, _, leads, base, rfl⟩ := ends
    obtain ⟨_, _, leads', base', rfl⟩ := ends'
    rw [(leads.stops_unique (.inl base) leads' (.inl base')).1]

theorem chain_eq_iff {name : String} {outcome : Except StageError (List (DerivedStage S))} :
    set.chain name = outcome ↔ Ends set [] name outcome := by
  obtain ⟨_, -, walks⟩ := walks_chain set name
  exact ⟨fun answer => answer ▸ walks.ends, walks.ends.unique⟩

/-- The chain of a name, exactly. The walk ends after at most one look-up more than there are
stages. It is the list of the stages met on the way to the base, the most derived first,
where the way from the name gets there; these have distinct names, and none is named like
the base. It fails on the first name that is not declared, or on the first name that is met
for the second time, where the way gets there. -/
theorem chain_exact (set : StageSet S) (name : String) :
    (∃ lookups ≤ set.size + 1, Walks set [] name lookups (set.chain name)) ∧
    (∀ stages, set.chain name = .ok stages ↔
      ∃ met last, Leads set name met last ∧ isBase last = true ∧ met.map (·.2) = stages) ∧
    (∀ met last, Leads set name met last → isBase last = true →
      (met.map (·.1)).Nodup ∧ ∀ e ∈ met, isBase e.1 = false) ∧
    (∀ m, set.chain name = .error (.notFound m) ↔
      ∃ met, Leads set name met m ∧ (met.map (·.1)).Nodup ∧ isBase m = false ∧
        set.find? m = none) ∧
    ∀ m, set.chain name = .error (.cyclic m) ↔
      ∃ met, Leads set name met m ∧ (met.map (·.1)).Nodup ∧ m ∈ met.map (·.1) := by
  obtain ⟨lookups, bounded, walks⟩ := walks_chain set name
  refine ⟨⟨lookups, bounded, walks⟩, fun stages => chain_eq_iff, fun met last leads base => ?_,
    fun m => ?_, fun m => ?_⟩
  · exact ⟨leads.nodup_of_stops (.inl base), fun e member => (leads.declared member).1⟩
  · rw [chain_eq_iff]
    constructor
    · rintro ⟨met, leads, below, missing⟩
      exact ⟨met, leads, leads.nodup_of_stops (.inr missing), below, missing⟩
    · rintro ⟨met, leads, -, below, missing⟩
      exact ⟨met, leads, below, missing⟩
  · rw [chain_eq_iff]
    constructor
    · rintro ⟨met, leads, once, -, again⟩
      exact ⟨met, leads, once, by simpa using again⟩
    · rintro ⟨met, leads, once, again⟩
      exact ⟨met, leads, once, by simp, by simpa using again⟩

end ImageLock.StageSet
