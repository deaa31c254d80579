/-
Merging stages in groups. Where a map is given as nothing, merging loses what is
put on top of it, and the way stages are grouped shows; nowhere else does it.
-/
import ImageLock.NodeJs.Stage
import ImageLock.Php.Stage
import ImageLock.Stage.Chain
import ImageLock.Proofs.VersionMaps

namespace ImageLock

open StageConfig (merge)

/-! Stages with version maps. -/

/-- Merging goes on map by map, and beside the maps the grouping does not matter. -/
structure MergesByMaps (S : Type) [StageConfig S] (maps : List (S → VersionMap)) (rest : S → S) :
    Prop where
  ext : ∀ a b, rest a = rest b → (∀ map ∈ maps, map a = map b) → a = b
  map_merge : ∀ map ∈ maps, ∀ a b, map (merge a b) = (map a).merge (map b)
  rest_merge : ∀ a b, rest (merge a b) = merge (rest a) (rest b)
  rest_assoc : ∀ a b c, merge (merge (rest a) (rest b)) (rest c) =
    merge (rest a) (merge (rest b) (rest c))

namespace DerivedStage

variable {S : Type} [StageConfig S]

theorem merge_assoc_iff (a b c : DerivedStage S) :
    (a.merge b).merge c = a.merge (b.merge c) ↔
      StageConfig.merge (StageConfig.merge a.stage b.stage) c.stage =
        StageConfig.merge a.stage (StageConfig.merge b.stage c.stage) := by
  simp [DerivedStage.merge, Option.or_assoc]

/-- A piece of a chain as one stage, merged from its far end. -/
def joined (piece : List (DerivedStage S)) (last : DerivedStage S) : DerivedStage S :=
  piece.foldr (fun derived below => below.merge derived) last

end DerivedStage

namespace MergesByMaps

variable {S : Type} [StageConfig S] {maps : List (S → VersionMap)} {rest : S → S}

theorem eq_iff (laws : MergesByMaps S maps rest) {a b : S} (same : rest a = rest b) :
    a = b ↔ ∀ map ∈ maps, map a = map b :=
  ⟨fun equal _ _ => by rw [equal], laws.ext a b same⟩

theorem assoc_iff (laws : MergesByMaps S maps rest) (a b c : S) :
    merge (merge a b) c = merge a (merge b c) ↔
      ∀ map ∈ maps, map b = .nil → (map a).merge (map c) = map a := by
  have beside : rest (merge (merge a b) c) = rest (merge a (merge b c)) := by
    simp only [laws.rest_merge, laws.rest_assoc]
  rw [laws.eq_iff beside]
  refine forall₂_congr fun map member => ?_
  rw [laws.map_merge map member, laws.map_merge map member, laws.map_merge map member,
    laws.map_merge map member, VersionMap.merge_assoc_iff]

theorem nil_joined (laws : MergesByMaps S maps rest) {map : S → VersionMap} (member : map ∈ maps)
    (piece : List (DerivedStage S)) (last : DerivedStage S) :
    map (DerivedStage.joined piece last).stage = .nil ↔ map last.stage = .nil := by
  induction piece with
  | nil => rfl
  | cons derived piece ih =>
      have own : (DerivedStage.joined (derived :: piece) last).stage =
        merge (DerivedStage.joined piece last).stage derived.stage := rfl
      rw [own, laws.map_merge map member, VersionMap.merge_eq_nil, ih]

end MergesByMaps

/-! Chains. -/

namespace StageSet

variable {S : Type} [StageConfig S]

theorem mergeChain_cons (base : S) (derived : DerivedStage S) (chain : List (DerivedStage S)) :
    mergeChain base (derived :: chain) =
      ⟨StageConfig.merge (mergeChain base chain).stage derived.stage,
        derived.isDev.getD (mergeChain base chain).isDev⟩ := rfl

theorem mergeChain_append (base : S) (front : List (DerivedStage S))
    {chain chain' : List (DerivedStage S)} (same : mergeChain base chain = mergeChain base chain') :
    mergeChain base (front ++ chain) = mergeChain base (front ++ chain') := by
  induction front with
  | nil => exact same
  | cons derived front ih => rw [List.cons_append, List.cons_append, mergeChain_cons, ih]; rfl

theorem isDev_joined (base : S) (piece back : List (DerivedStage S)) (last : DerivedStage S) :
    (mergeChain base (piece ++ last :: back)).isDev =
      (mergeChain base (DerivedStage.joined piece last :: back)).isDev := by
  induction piece with
  | nil => rfl
  | cons derived piece ih =>
      rw [List.cons_append, mergeChain_cons, ih, mergeChain_cons, mergeChain_cons]
      change derived.isDev.getD ((DerivedStage.joined piece last).isDev.getD _) =
        (derived.isDev.or (DerivedStage.joined piece last).isDev).getD _
      cases derived.isDev <;> rfl

variable {maps : List (S → VersionMap)} {rest : S → S}

theorem rest_joined (laws : MergesByMaps S maps rest) (base : S)
    (piece back : List (DerivedStage S)) (last : DerivedStage S) :
    rest (mergeChain base (piece ++ last :: back)).stage =
      rest (mergeChain base (DerivedStage.joined piece last :: back)).stage := by
  induction piece with
  | nil => rfl
  | cons derived piece ih =>
      have own : (DerivedStage.joined (derived :: piece) last).stage =
        StageConfig.merge (DerivedStage.joined piece last).stage derived.stage := rfl
      rw [List.cons_append, mergeChain_cons, laws.rest_merge, ih, mergeChain_cons, mergeChain_cons,
        own, laws.rest_merge, laws.rest_merge, laws.rest_merge, laws.rest_assoc]

/-- What a piece makes of a map stays what it is when the piece is joined, unless its far
end gives the map as nothing. -/
theorem map_joined (laws : MergesByMaps S maps rest) {map : S → VersionMap} (member : map ∈ maps)
    (base : S) (piece back : List (DerivedStage S)) (last : DerivedStage S)
    (given : map last.stage ≠ .nil) :
    map (mergeChain base (piece ++ last :: back)).stage =
      map (mergeChain base (DerivedStage.joined piece last :: back)).stage := by
  induction piece with
  | nil => rfl
  | cons derived piece ih =>
      have own : (DerivedStage.joined (derived :: piece) last).stage =
        StageConfig.merge (DerivedStage.joined piece last).stage derived.stage := rfl
      have below : map (DerivedStage.joined piece last).stage ≠ .nil := fun none =>
        given ((laws.nil_joined member piece last).mp none)
      rw [List.cons_append, mergeChain_cons, laws.map_merge map member, ih, mergeChain_cons,
        mergeChain_cons, own, laws.map_merge map member, laws.map_merge map member,
        laws.map_merge map member, VersionMap.merge_assoc_of_ne_nil below]

theorem mergeChain_joined_iff (laws : MergesByMaps S maps rest) (base : S)
    (piece back : List (DerivedStage S)) (last : DerivedStage S) :
    mergeChain base (piece ++ last :: back) =
        mergeChain base (DerivedStage.joined piece last :: back) ↔
      ∀ map ∈ maps, map last.stage = .nil →
        map (mergeChain base (piece ++ last :: back)).stage = map (mergeChain base back).stage := by
  have stages : mergeChain base (piece ++ last :: back) =
        mergeChain base (DerivedStage.joined piece last :: back) ↔
      (mergeChain base (piece ++ last :: back)).stage =
        (mergeChain base (DerivedStage.joined piece last :: back)).stage := by
    refine ⟨congrArg _, fun same => ?_⟩
    have dev := isDev_joined base piece back last
    cases left : mergeChain base (piece ++ last :: back)
    cases right : mergeChain base (DerivedStage.joined piece last :: back)
    rw [left, right] at same dev
    cases same
    cases dev
    rfl
  rw [stages, laws.eq_iff (rest_joined laws base piece back last)]
  refine forall₂_congr fun map member => ?_
  by_cases given : map last.stage = .nil
  · -- The joined piece gives the map as nothing too, so it leaves it as it is below.
    have kept : map (mergeChain base (DerivedStage.joined piece last :: back)).stage =
        map (mergeChain base back).stage := by
      rw [mergeChain_cons, laws.map_merge map member, (laws.nil_joined member piece last).mpr given,
        VersionMap.merge_nil]
    simp [given, kept]
  · simp [given, map_joined laws member base piece back last given]

/-! Sets. -/

/-- A stage on top of what is there. -/
def onTop (below? : Option (DerivedStage S)) (stage : DerivedStage S) : DerivedStage S :=
  match below? with
  | some below => below.merge stage
  | none => stage

theorem merge_eq (base overriding : StageSet S) :
    base.merge overriding = overriding.entries.foldl
      (fun merged e => merged.insert e.1 (onTop (merged.find? e.1) e.2)) base := by
  refine congrArg (fun step => overriding.entries.foldl step base) (funext fun merged =>
    funext fun e => ?_)
  cases found : Names.find? merged e.1 <;> simp [found, onTop]

theorem find?_merge (base overriding : StageSet S) (name : String) :
    (base.merge overriding).find? name =
      Option.merge DerivedStage.merge (base.find? name) (overriding.find? name) := by
  rw [merge_eq, Names.find?_foldl_combine onTop overriding.sorted]
  change _ = Option.merge _ (base.find? name)
    ((overriding.entries.find? fun e => e.1 == name).map (·.2))
  cases (overriding.entries.find? fun e => e.1 == name).map (·.2) <;>
    cases base.find? name <;> rfl

theorem merge_assoc_iff (a b c : StageSet S) :
    (a.merge b).merge c = a.merge (b.merge c) ↔
      ∀ name x y z, a.find? name = some x → b.find? name = some y → c.find? name = some z →
        (x.merge y).merge z = x.merge (y.merge z) := by
  constructor
  · intro same name x y z inA inB inC
    have found := congrArg (Names.find? · name) same
    simpa [find?_merge, inA, inB, inC, Option.merge] using found
  · intro each
    refine Names.ext_find? fun name => ?_
    simp only [find?_merge]
    -- Only a stage that is in all three sets is merged twice.
    cases inA : a.find? name <;> cases inB : b.find? name <;> cases inC : c.find? name <;>
      simp [Option.merge]
    next x y z => exact each name x y z inA inB inC

end StageSet

/-! The kinds of stages. -/

theorem Php.Stage.mergesByMaps : MergesByMaps Php.Stage [(·.systemPackages), (·.extensions)]
    fun s => { s with systemPackages := .empty, extensions := .empty } where
  ext a b beside maps := by
    cases a
    cases b
    simp_all
  map_merge map member a b := by
    simp only [List.mem_cons, List.not_mem_nil, or_false] at member
    rcases member with rfl | rfl <;> rfl
  rest_merge a b := rfl
  rest_assoc a b c := by
    simp [StageConfig.merge, Php.Stage.merge, ConfigFiles.merge, Option.or_assoc, VersionMap.merge_empty]

theorem NodeJs.Stage.mergesByMaps :
    MergesByMaps NodeJs.Stage [(·.systemPackages), (·.globalPackages)]
      fun s => { s with systemPackages := .empty, globalPackages := .empty } where
  ext a b beside maps := by
    cases a
    cases b
    simp_all
  map_merge map member a b := by
    simp only [List.mem_cons, List.not_mem_nil, or_false] at member
    rcases member with rfl | rfl <;> rfl
  rest_merge a b := rfl
  rest_assoc a b c := by
    simp [StageConfig.merge, NodeJs.Stage.merge, Option.or_assoc, Names.merge_assoc, VersionMap.merge_empty]

theorem Php.Stage.merge_empty (stage : Php.Stage) : stage.merge .empty = stage := by
  cases stage
  simp [Php.Stage.merge, Php.Stage.empty, ConfigFiles.merge, ConfigFiles.empty,
    VersionMap.merge_empty]

theorem NodeJs.Stage.merge_empty (stage : NodeJs.Stage) : stage.merge .empty = stage := by
  cases stage
  simp [NodeJs.Stage.merge, NodeJs.Stage.empty, Names.merge_empty, VersionMap.merge_empty]

/-- How far the grouping of stages does not matter. A stage that says nothing changes
nothing. For three stages, for a piece of a chain that is joined first, wherever it is cut
out of the chain, and for three sets of stages, the one thing that shows is a map given as
nothing by a stage that is not the lowest one to be merged: what is put on top of it is lost
if that is merged first. -/
structure MergesInGroups (S : Type) [StageConfig S] (empty : S) (maps : List (S → VersionMap)) :
    Prop where
  neutral : ∀ stage, merge stage empty = stage
  stages : ∀ a b c, merge (merge a b) c = merge a (merge b c) ↔
    ∀ map ∈ maps, map b = .nil → (map a).merge (map c) = map a
  chains : ∀ base piece last back,
    (∀ front, StageSet.mergeChain base (front ++ (piece ++ last :: back)) =
      StageSet.mergeChain base (front ++ DerivedStage.joined piece last :: back)) ↔
    ∀ map ∈ maps, map last.stage = .nil →
      map (StageSet.mergeChain base (piece ++ last :: back)).stage =
        map (StageSet.mergeChain base back).stage
  sets : ∀ a b c : StageSet S, (a.merge b).merge c = a.merge (b.merge c) ↔
    ∀ name x y z, a.find? name = some x → b.find? name = some y → c.find? name = some z →
      ∀ map ∈ maps, map y.stage = .nil → (map x.stage).merge (map z.stage) = map x.stage

theorem MergesByMaps.mergesInGroups {S : Type} [StageConfig S] {maps : List (S → VersionMap)}
    {rest : S → S} (laws : MergesByMaps S maps rest) {empty : S}
    (neutral : ∀ stage, merge stage empty = stage) : MergesInGroups S empty maps where
  neutral
  stages := laws.assoc_iff
  chains base piece last back := by
    rw [← StageSet.mergeChain_joined_iff laws]
    exact ⟨fun all => all [], fun same front => StageSet.mergeChain_append base front same⟩
  sets a b c := by
    simp only [StageSet.merge_assoc_iff, DerivedStage.merge_assoc_iff, laws.assoc_iff]

/-- Stages of both kinds can be merged in any groups, as far as no map that is given as
nothing comes in between. -/
theorem stages_merge_in_groups :
    MergesInGroups Php.Stage .empty [(·.systemPackages), (·.extensions)] ∧
      MergesInGroups NodeJs.Stage .empty [(·.systemPackages), (·.globalPackages)] :=
  ⟨Php.Stage.mergesByMaps.mergesInGroups Php.Stage.merge_empty,
    NodeJs.Stage.mergesByMaps.mergesInGroups NodeJs.Stage.merge_empty⟩

/-- Three stages that documents denote: one that says nothing, one that gives its packages
as nothing, and one with a package. Whether that package is there in the end depends on
which two are merged first. -/
theorem merge_loses_packages : ∃ a b c : NodeJs.Stage,
    NodeJs.Stage.read (.record []) = .ok a ∧
    NodeJs.Stage.read (.record [("system_packages", .null)]) = .ok b ∧
    NodeJs.Stage.read (.record [("system_packages", .record [("curl", .text "*")])]) = .ok c ∧
    ((a.merge b).merge c).systemPackages.get? "curl" = some "*" ∧
    (a.merge (b.merge c)).systemPackages.get? "curl" = none ∧
    (a.merge b).merge c ≠ a.merge (b.merge c) :=
  ⟨.empty, { NodeJs.Stage.empty with systemPackages := .nil },
    { NodeJs.Stage.empty with systemPackages := .ofList [("curl", "*")] },
    rfl, rfl, rfl, by decide, by decide, by decide⟩

end ImageLock
