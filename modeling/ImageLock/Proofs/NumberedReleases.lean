/-
Releases as extensions number them: alphas, betas and candidates of a release follow each
other by their numbers, candidates after betas and betas after alphas. Precedence reads what
stands behind the numbers as one word, so that it takes candidates for the first of these and
compares the numbers behind a word digit by digit. All else it orders as extensions do.
-/
import ImageLock.Proofs.BestRelease
import ImageLock.Proofs.NumberText

namespace ImageLock

/-- The digits of a number, which may have zeros in front. -/
structure Digits where
  chars : List Char
  nonempty : chars ≠ []
  all : Number.AllDigits chars

namespace Digits

def value (d : Digits) : Nat := Number.digitsValue d.chars

def ofNat (n : Nat) : Digits :=
  ⟨Number.natDigits n, Number.natDigits_ne_nil n, Number.allDigits_natDigits n⟩

end Digits

/-- What a prerelease is called. -/
inductive Milestone where
  | alpha
  | beta
  | candidate
deriving DecidableEq, Repr

namespace Milestone

def word : Milestone → List Char
  | .alpha => ['a', 'l', 'p', 'h', 'a']
  | .beta => ['b', 'e', 't', 'a']
  | .candidate => ['R', 'C']

/-- The order in which a release goes through its milestones. -/
def place : Milestone → Nat
  | .alpha => 0
  | .beta => 1
  | .candidate => 2

end Milestone

/-- Three numbers, and behind those of a prerelease its milestone and the count of it. -/
structure Numbered where
  major : Digits
  minor : Digits
  patch : Digits
  milestone : Option (Milestone × Digits)

namespace Numbered

def suffix (n : Numbered) : List Char :=
  match n.milestone with
  | none => []
  | some (milestone, count) => milestone.word ++ count.chars

def numbers (n : Numbered) : List Char :=
  n.major.chars ++ '.' :: (n.minor.chars ++ '.' :: n.patch.chars)

def text (n : Numbered) : String := String.ofList (n.numbers ++ n.suffix)

def core (n : Numbered) : Core := ⟨n.major.value, n.minor.value, n.patch.value⟩

/-- How far a release is; a final one is behind all its milestones. -/
def progress (n : Numbered) : List Nat :=
  match n.milestone with
  | none => [3, 0]
  | some (milestone, count) => [milestone.place, count.value]

/-- `n` was released after `p`: the numbers decide from the first to the last, then how far
the releases are. -/
def Before (p n : Numbered) : Prop :=
  [p.major.value, p.minor.value, p.patch.value] ++ p.progress <
    [n.major.value, n.minor.value, n.patch.value] ++ n.progress

/-- `n` was released after `p` and is a milestone of the same release, but is a candidate of
what only had alphas and betas before, or has a greater count whose digits come first in a
dictionary. -/
def Misordered (p n : Numbered) : Prop :=
  p.core = n.core ∧ ∃ former count latter count', p.milestone = some (former, count) ∧
    n.milestone = some (latter, count') ∧
      (former ≠ .candidate ∧ latter = .candidate ∨
        former = latter ∧ count.value < count'.value ∧ count'.chars < count.chars)

/-! Reading. -/

def version (n : Numbered) : Version :=
  ⟨n.core, match n.milestone with
    | none => []
    | some (milestone, count) => [milestone.word ++ count.chars]⟩

/-- A digit is no letter and none of the marks of a version. -/
theorem other_of_isDigit {c : Char} (digit : Text.isDigit c = true) :
    Text.isLetter c = false ∧ c ≠ '.' ∧ c ≠ '-' ∧ c ≠ '+' := by
  have bounds := Number.toNat_of_isDigit digit
  refine ⟨?_, ?_, ?_, ?_⟩
  · simp only [Text.isLetter, Bool.or_eq_false_iff, Bool.and_eq_false_iff,
      decide_eq_false_iff_not]
    change (¬0x61 ≤ c.toNat ∨ ¬c.toNat ≤ 0x7a) ∧ (¬0x41 ≤ c.toNat ∨ ¬c.toNat ≤ 0x5a)
    omega
  · rintro rfl
    exact absurd bounds (by decide)
  · rintro rfl
    exact absurd bounds (by decide)
  · rintro rfl
    exact absurd bounds (by decide)

/-- Numbers that are too large do not read as one. -/
theorem number?_digits {d : Digits} {value : Nat} (read : Version.number? d.chars = some value) :
    value = d.value := by
  have unsigned : ∀ rest, d.chars ≠ '+' :: rest := fun rest same =>
    (other_of_isDigit (d.all '+' (by simp [same]))).2.2.2 rfl
  simp only [Version.number?] at read
  -- Digits have no sign in front, so that the text is read as it is.
  split at read
  · cases read
  · split at read <;> cases read
    rfl

theorem notLetter_of_mem_numbers (n : Numbered) {c : Char} (member : c ∈ n.numbers) :
    (!Text.isLetter c) = true := by
  have digit (d : Digits) (inside : c ∈ d.chars) : (!Text.isLetter c) = true := by
    simp [(other_of_isDigit (d.all c inside)).1]
  simp only [numbers, List.mem_append, List.mem_cons] at member
  rcases member with inside | rfl | inside | rfl | inside
  · exact digit _ inside
  · rfl
  · exact digit _ inside
  · rfl
  · exact digit _ inside

theorem takeWhile_suffix (n : Numbered) :
    n.suffix.takeWhile (fun c => !Text.isLetter c) = [] := by
  unfold suffix
  rcases n.milestone with _ | ⟨_ | _ | _, count⟩ <;> rfl

/-- The numbers end in a digit. -/
theorem dropEndWhile_numbers (n : Numbered) :
    Text.dropEndWhile (fun c => c == '.' || c == '-') n.numbers = n.numbers := by
  obtain ⟨front, last, patch⟩ :=
    (List.eq_nil_or_concat n.patch.chars).resolve_left n.patch.nonempty
  have digit := other_of_isDigit (n.patch.all last (by simp [patch]))
  have whole :
      n.numbers = (n.major.chars ++ '.' :: (n.minor.chars ++ '.' :: front)) ++ [last] := by
    simp [numbers, patch]
  rw [whole, Text.dropEndWhile, List.reverse_append]
  simp [digit.2.1, digit.2.2.1]

theorem splitWhere_numbers (n : Numbered) :
    Text.splitWhere (· == '.') n.numbers = [n.major.chars, n.minor.chars, n.patch.chars] := by
  have whole (d : Digits) : Text.splitWhere (· == '.') d.chars = [d.chars] :=
    Text.splitWhere_of_none fun c member => by simp [(other_of_isDigit (d.all c member)).2.1]
  rw [numbers, Text.splitWhere_append rfl, Text.splitWhere_append rfl, whole, whole, whole]
  rfl

theorem eq_core_of_core? {n : Numbered} {core : Core}
    (read : Version.core? n.numbers = some core) : core = n.core := by
  simp only [Version.core?, splitWhere_numbers] at read
  obtain ⟨major, readMajor, read⟩ := Option.bind_eq_some_iff.mp read
  obtain ⟨minor, readMinor, read⟩ := Option.bind_eq_some_iff.mp read
  obtain ⟨patch, readPatch, read⟩ := Option.bind_eq_some_iff.mp read
  cases read
  rw [number?_digits readMajor, number?_digits readMinor, number?_digits readPatch]
  rfl

theorem eq_of_parse? {n : Numbered} {milestone : Milestone} {count : Digits}
    (isMilestone : n.milestone = some (milestone, count)) {prerelease : Prerelease}
    (read : Prerelease.parse? n.suffix = some prerelease) : prerelease = [n.suffix] := by
  have whole : Text.splitWhere (· == '.') n.suffix = [n.suffix] := by
    refine Text.splitWhere_of_none fun c member => ?_
    simp only [suffix, isMilestone, List.mem_append] at member
    have dotless : milestone.word.all (fun c => !(c == '.')) = true := by cases milestone <;> rfl
    rcases member with inside | inside
    · simpa using List.all_eq_true.mp dotless c inside
    · simp [(other_of_isDigit (count.all c inside)).2.1]
  simp only [Prerelease.parse?, whole] at read
  split at read <;> cases read
  rfl

/-- The numbers of a release end where its milestone begins. -/
theorem ofRelease?_text (n : Numbered) : Version.ofRelease? n.text = do
    let core ← Version.core? n.numbers
    if n.suffix.isEmpty then return ⟨core, []⟩
    else return ⟨core, ← Prerelease.parse? n.suffix⟩ := by
  have front : (n.numbers ++ n.suffix).takeWhile (fun c => !Text.isLetter c) = n.numbers := by
    rw [List.takeWhile_append_of_pos fun c member => notLetter_of_mem_numbers n member,
      takeWhile_suffix, List.append_nil]
  simp only [Version.ofRelease?, text, String.toList_ofList, front, List.drop_left,
    dropEndWhile_numbers]

/-- If the text of a release reads as a version at all, then as this one. -/
theorem eq_version_of_ofRelease? {n : Numbered} {v : Version}
    (read : Version.ofRelease? n.text = some v) : v = n.version := by
  rw [ofRelease?_text] at read
  obtain ⟨core, readCore, read⟩ := Option.bind_eq_some_iff.mp read
  rw [eq_core_of_core? readCore] at read
  cases final : n.milestone with
  | none =>
      simp only [suffix, final, List.isEmpty_nil, if_true] at read
      cases read
      simp only [version, final]
  | some milestone =>
      have isMilestone : ¬n.suffix.isEmpty = true := by
        rcases milestone with ⟨_ | _ | _, count⟩ <;> simp [suffix, final, Milestone.word]
      rw [if_neg isMilestone] at read
      obtain ⟨prerelease, readSuffix, read⟩ := Option.bind_eq_some_iff.mp read
      cases read
      rw [eq_of_parse? final readSuffix]
      simp only [version, final, suffix]

/-! Precedence. -/

theorem compareChars_lt_iff {a b : List Char} : Prerelease.compareChars a b = .lt ↔ a < b := by
  induction a generalizing b with
  | nil => cases b <;> simp [Prerelease.compareChars]
  | cons c rest ih =>
      cases b with
      | nil => simp [Prerelease.compareChars]
      | cons d others =>
          rw [Prerelease.compareChars, Ordering.then_eq_lt, ih, List.cons_lt_cons_iff,
            Nat.compare_eq_lt, Nat.compare_eq_eq, Char.toNat_inj]
          rfl

theorem compare_words {a b : List Char} (word : Prerelease.isNumeric a = false)
    (word' : Prerelease.isNumeric b = false) : Prerelease.compare [a] [b] = .lt ↔ a < b := by
  simp [Prerelease.compare, Prerelease.compareLists, Prerelease.compareIdentifiers, word, word',
    compareChars_lt_iff]

theorem isNumeric_word (milestone : Milestone) (count : List Char) :
    Prerelease.isNumeric (milestone.word ++ count) = false := by
  cases milestone <;> rfl

/-- The order of a dictionary on what milestones are called. -/
theorem word_lt_iff {former latter : Milestone} {count count' : List Char} :
    latter.word ++ count' < former.word ++ count ↔
      latter = .candidate ∧ former ≠ .candidate ∨ latter = .alpha ∧ former = .beta ∨
        latter = former ∧ count' < count := by
  cases former <;> cases latter <;> simp [Milestone.word, List.cons_lt_cons_iff]

theorem pair_lt_iff {a b c d : Nat} : [a, b] < [c, d] ↔ a < c ∨ a = c ∧ b < d := by
  simp [List.cons_lt_cons_iff]

theorem core_lt_iff {a b : Core} : a.compare b = .lt ↔
    [a.major, a.minor, a.patch] < [b.major, b.minor, b.patch] := by
  simp only [Core.compare, Ordering.then_eq_lt, Ordering.then_eq_eq, List.cons_lt_cons_iff,
    Nat.compare_eq_lt, Nat.compare_eq_eq, List.not_lt_nil, and_false, or_false]
  simp only [and_or_left, or_assoc, and_assoc]

theorem before_iff {p n : Numbered} :
    p.Before n ↔ p.core.compare n.core = .lt ∨ p.core = n.core ∧ p.progress < n.progress := by
  simp only [Before, core_lt_iff, core, List.cons_append, List.nil_append, List.cons_lt_cons_iff,
    List.not_lt_nil, and_false, or_false, Core.mk.injEq]
  simp only [and_or_left, or_assoc, and_assoc]

theorem version_lt_iff {p n : Numbered} : n.version < p.version ↔ n.core.compare p.core = .lt ∨
    n.core = p.core ∧ Prerelease.compare n.version.prerelease p.version.prerelease = .lt := by
  change (n.core.compare p.core).then _ = .lt ↔ _
  rw [Ordering.then_eq_lt, Std.LawfulEqCmp.compare_eq_iff_eq]

/-- Milestones of one release that a dictionary has the other way round. -/
theorem milestones_iff {p n : Numbered} :
    p.progress < n.progress ∧
        Prerelease.compare n.version.prerelease p.version.prerelease = .lt ↔
      ∃ former count latter count', p.milestone = some (former, count) ∧
        n.milestone = some (latter, count') ∧
          (former ≠ .candidate ∧ latter = .candidate ∨
            former = latter ∧ count.value < count'.value ∧ count'.chars < count.chars) := by
  simp only [progress, version]
  rcases p.milestone with _ | ⟨former, count⟩
  · rcases n.milestone with _ | ⟨latter, count'⟩
    · simp
    · rw [pair_lt_iff]
      cases latter <;> simp [Milestone.place]
  · rcases n.milestone with _ | ⟨latter, count'⟩
    · simp [Prerelease.compare]
    · rw [pair_lt_iff, compare_words (isNumeric_word ..) (isNumeric_word ..), word_lt_iff]
      cases former <;> cases latter <;> simp [Milestone.place]

/-- Precedence takes the earlier release for the higher one exactly of these. -/
theorem misordered_iff {p n : Numbered} :
    p.Misordered n ↔ p.Before n ∧ n.version < p.version := by
  rw [Misordered, ← milestones_iff, before_iff, version_lt_iff]
  constructor
  · rintro ⟨same, later, below⟩
    exact ⟨.inr ⟨same, later⟩, .inr ⟨same.symm, below⟩⟩
  · rintro ⟨before, below⟩
    -- Precedence compares the numbers first as well, so that they cannot differ.
    have same : p.core = n.core := by
      rcases before with earlier | ⟨same, -⟩
      · rcases below with lower | ⟨same, -⟩
        · have swapped : p.core.compare n.core = (n.core.compare p.core).swap :=
            Std.OrientedCmp.eq_swap
          rw [swapped, lower] at earlier
          cases earlier
        · exact same.symm
      · exact same
    have even : Core.compare n.core n.core = .eq := Std.ReflCmp.compare_self
    rw [same, even] at before below
    exact ⟨same, (before.resolve_left nofun).2, (below.resolve_left nofun).2⟩

/-- The version of a release tells how far it is. -/
theorem progress_eq_of_version_eq {p n : Numbered} (same : p.version = n.version) :
    p.progress = n.progress := by
  have suffixes := congrArg Version.prerelease same
  simp only [version, progress] at suffixes ⊢
  generalize p.milestone = before at suffixes ⊢
  generalize n.milestone = after at suffixes ⊢
  rcases before with _ | ⟨former, count⟩ <;> rcases after with _ | ⟨latter, count'⟩
  · rfl
  · cases suffixes
  · cases suffixes
  · have values : former = latter ∧ count.chars = count'.chars := by
      revert suffixes
      cases former <;> cases latter <;> simp [Milestone.word]
    simp [Digits.value, values]

theorem version_ne_of_before {p n : Numbered} (before : p.Before n) : p.version ≠ n.version := by
  intro same
  have sameCore : p.core = n.core := congrArg Version.core same
  have even : Core.compare n.core n.core = .eq := Std.ReflCmp.compare_self
  rw [before_iff, sameCore, progress_eq_of_version_eq same, even] at before
  exact before.elim nofun fun later => List.lt_irrefl _ later.2

theorem misordered_of_le {p n : Numbered} (before : p.Before n)
    (notAbove : n.version ≤ p.version) : p.Misordered n :=
  misordered_iff.mpr ⟨before, lt_of_le_of_ne notAbove (version_ne_of_before before).symm⟩

end Numbered

/-! The pick. -/

namespace Release

def ofNumbered (listed : Numbered × Stability) : Release := ⟨listed.1.text, listed.2⟩

variable {text : String} {least : Stability} {listed : List (Numbered × Stability)}

theorem Qualifies.eq_version {n : Numbered × Stability} {v : Version}
    (qualifies : Qualifies text least (ofNumbered n) v) : v = n.1.version :=
  Numbered.eq_version_of_ofRelease? qualifies.version

theorem qualifies_open {n : Numbered} {v : Version} (read : Version.ofRelease? n.text = some v) :
    Qualifies "*" least (ofNumbered (n, least)) v :=
  ⟨le_rfl, read, fun _ notStar => absurd rfl notStar⟩

/-- What is picked of numbered releases has the highest version of those that qualify. -/
theorem IsBest.numbered {version : String}
    (isBest : IsBest (listed.map ofNumbered) text least (some version)) :
    ∃ picked ∈ listed, picked.1.text = version ∧
      (∃ v, Qualifies text least (ofNumbered picked) v) ∧
      ∀ other ∈ listed, (∃ v, Qualifies text least (ofNumbered other) v) →
        other.1.version ≤ picked.1.version := by
  obtain ⟨r, member, same, v, qualifies, above⟩ := isBest.highest version rfl
  obtain ⟨picked, inside, rfl⟩ := List.mem_map.mp member
  refine ⟨picked, inside, same, ⟨v, qualifies⟩, fun other listed ⟨w, qualified⟩ => ?_⟩
  rw [← qualifies.eq_version, ← qualified.eq_version]
  exact Version.le_iff.mpr (above _ (List.mem_map_of_mem listed) w qualified)

/-- No release that qualifies came after the one that is picked, unless it is misordered with
it; and of two that are misordered the earlier one is picked. -/
theorem select_numbered (text : String) (least : Stability) :
    (∀ (listed : List (Numbered × Stability)) (version : String),
      select (listed.map ofNumbered) text least = some (some version) →
      ∃ picked ∈ listed, picked.1.text = version ∧
        (∃ v, Qualifies text least (ofNumbered picked) v) ∧
        ∀ other ∈ listed, (∃ v, Qualifies text least (ofNumbered other) v) →
          picked.1.Before other.1 → picked.1.Misordered other.1) ∧
    ∀ first second : Numbered × Stability, first.1.Misordered second.1 →
      (constraint? text).isSome = true →
      (∃ v, Qualifies text least (ofNumbered first) v) →
      (∃ v, Qualifies text least (ofNumbered second) v) →
      first.1.Before second.1 ∧ ∀ listed : List (Numbered × Stability),
        listed.Perm [first, second] →
          select (listed.map ofNumbered) text least = some (some first.1.text) := by
  refine ⟨fun listed version selected => ?_,
    fun first second misordered reads qualifies qualified => ?_⟩
  · obtain ⟨picked, inside, same, qualifies, above⟩ := (isBest_of_select selected).numbered
    exact ⟨picked, inside, same, qualifies, fun other member qualified before =>
      Numbered.misordered_of_le before (above other member qualified)⟩
  · obtain ⟨before, lower⟩ := Numbered.misordered_iff.mp misordered
    refine ⟨before, fun listed both => ?_⟩
    rw [← isSome_select (listed.map ofNumbered) text least] at reads
    obtain ⟨best, selected⟩ := Option.isSome_iff_exists.mp reads
    have isBest := isBest_of_select selected
    have memberFirst : first ∈ listed := both.mem_iff.mpr (by simp)
    obtain _ | version := best
    · obtain ⟨v, qualifies⟩ := qualifies
      exact absurd qualifies (isBest.none_iff.mp rfl _ (List.mem_map_of_mem memberFirst) v)
    · obtain ⟨picked, inside, rfl, -, above⟩ := isBest.numbered
      have either : picked = first ∨ picked = second := by simpa using both.mem_iff.mp inside
      rcases either with rfl | rfl
      · exact selected
      · exact absurd (above first memberFirst qualifies) (not_le.mpr lower)

/-- Two candidates behind a final release, of which the earlier one is picked, whichever comes
first. -/
theorem select_numbered_candidates :
    let final : Numbered := ⟨.ofNat 2, .ofNat 8, .ofNat 0, none⟩
    let second : Numbered := ⟨.ofNat 2, .ofNat 9, .ofNat 0, some (.candidate, .ofNat 2)⟩
    let tenth : Numbered := ⟨.ofNat 2, .ofNat 9, .ofNat 0, some (.candidate, .ofNat 10)⟩
    let listed := [(second, Stability.beta), (final, .stable), (tenth, .beta)]
    select (listed.map ofNumbered) "*" .beta = some (some "2.9.0RC2") ∧
      (∃ picked ∈ listed, picked.1.text = "2.9.0RC2" ∧
        (∃ v, Qualifies "*" .beta (ofNumbered picked) v) ∧
        ∀ other ∈ listed, (∃ v, Qualifies "*" .beta (ofNumbered other) v) →
          picked.1.Before other.1 → picked.1.Misordered other.1) ∧
      second.Misordered tenth ∧ second.Before tenth ∧
      select ([(tenth, Stability.beta), (second, .beta)].map ofNumbered) "*" .beta =
        some (some second.text) := by
  intro final second tenth listed
  have selected : select (listed.map ofNumbered) "*" .beta = some (some "2.9.0RC2") := by
    decide +kernel
  have misordered : second.Misordered tenth :=
    ⟨rfl, _, _, _, _, rfl, rfl, .inr ⟨rfl, by decide +kernel, by decide +kernel⟩⟩
  have pair := (select_numbered "*" .beta).2 (second, .beta) (tenth, .beta) misordered rfl
    ⟨second.version, qualifies_open (by decide +kernel)⟩
    ⟨tenth.version, qualifies_open (by decide +kernel)⟩
  exact ⟨selected, (select_numbered "*" .beta).1 listed _ selected, misordered, pair.1,
    pair.2 _ (.swap _ _ _)⟩

/-- Of two candidates the second is picked and not the tenth, and a beta though there is a
candidate. -/
theorem select_not_latest :
    let second : Numbered := ⟨.ofNat 2, .ofNat 9, .ofNat 0, some (.candidate, .ofNat 2)⟩
    let tenth : Numbered := ⟨.ofNat 2, .ofNat 9, .ofNat 0, some (.candidate, .ofNat 10)⟩
    let third : Numbered := ⟨.ofNat 6, .ofNat 0, .ofNat 0, some (.beta, .ofNat 3)⟩
    let first : Numbered := ⟨.ofNat 6, .ofNat 0, .ofNat 0, some (.candidate, .ofNat 1)⟩
    ∀ pair ∈ [(second, tenth), (third, first)],
      select ([pair.1, pair.2].map fun n => ofNumbered (n, .beta)) "*" .beta =
          some (some pair.1.text) ∧
        (∃ v, Qualifies "*" .beta (ofNumbered (pair.2, .beta)) v) ∧ pair.1.Before pair.2 := by
  intro second tenth third first
  refine List.forall_mem_cons.mpr ⟨⟨by decide +kernel,
    ⟨tenth.version, qualifies_open (by decide +kernel)⟩, ?_⟩, List.forall_mem_singleton.mpr
    ⟨by decide +kernel, ⟨first.version, qualifies_open (by decide +kernel)⟩, ?_⟩⟩ <;>
  · unfold Numbered.Before
    decide +kernel

end Release
end ImageLock
