/-
Ranges of versions, as package managers denote them and as they are read here. Both differ for
a version without a sign, which is read as a caret's, and where a comparator that compares whole
versions has numbers missing.
-/
import ImageLock.Proofs.DottedVersions
import ImageLock.Proofs.Words

namespace ImageLock

/-- A comparator of a constraint. -/
inductive Range where
  | plain (v : Dotted)
  | signed (operator : Operator) (v : Dotted)
  | anyPatch (major minor : Digits)

namespace Range

def word : Range → List Char
  | plain v => v.chars
  | signed operator v => operator.sign ++ v.chars
  | anyPatch major minor => major.chars ++ '.' :: (minor.chars ++ ['.', '*'])

/-- The versions that a package manager means. -/
def Denotes : Range → Core → Prop
  | plain v, w | signed .exact v, w => w = v.core
  | signed .greater v, w => v.core < w
  | signed .greaterEq v, w => v.core ≤ w
  | signed .less v, w => w < v.core
  | signed .lessEq v, w => w ≤ v.core
  | signed .caret v, w => v.core ≤ w ∧ w < v.nextBreaking
  | signed .tilde v, w => v.core ≤ w ∧ w < v.tildeEnd
  | anyPatch major minor, w => (Dotted.two major minor).Heads w

/-- The number that bounds a tilde in front of two numbers has no more than 64 bits. -/
def Wraps : Dotted → Prop
  | .two major _ => major.value + 1 = Version.numberBound
  | _ => False

/-- The versions that are read. -/
def Reads : Range → Core → Prop
  | signed .exact v, w => v.Heads w
  | signed .greater v, w => v.core < w ∧ ¬v.Heads w
  | signed .greaterEq v, w => v.core ≤ w
  | signed .less v, w => w < v.core
  | signed .lessEq v, w => w ≤ v.core ∨ v.Heads w
  | plain v, w | signed .caret v, w => v.core ≤ w ∧ w < v.nextBreaking
  | signed .tilde v, w => (v.core ≤ w ∧ w < v.tildeEnd) ∧ ¬Wraps v
  | anyPatch major minor, w => (Dotted.two major minor).Heads w

/-- What is read are not the versions that are meant. -/
def Misread : Range → Prop
  | plain v => v.patch? = none ∨ 0 < v.core.major ∨ 0 < v.core.minor
  | signed .exact v | signed .greater v | signed .lessEq v => v.patch? = none
  | signed .tilde v => Wraps v
  | _ => False

/-- The version behind the first one that `v` stands for. -/
def successor (v : Dotted) : Core := ⟨v.core.major, v.core.minor, v.core.patch + 1⟩

theorem core_lt_successor (v : Dotted) : v.core < successor v := by
  simp [Core.lt_iff, successor]

theorem core_le_successor (v : Dotted) : v.core ≤ successor v := by
  simp [Core.le_iff, successor]

theorem not_successor_le (v : Dotted) : ¬successor v ≤ v.core := by
  simp [Core.le_iff, successor]

theorem successor_ne (v : Dotted) : successor v ≠ v.core := by
  intro same
  exact absurd (congrArg Core.patch same) (by simp [successor])

theorem heads_successor {v : Dotted} (missing : v.patch? = none) : v.Heads (successor v) := by
  cases v with
  | one => exact rfl
  | two => exact ⟨rfl, rfl⟩
  | three => cases missing

theorem heads_iff_eq {v : Dotted} (whole : v.patch? ≠ none) (w : Core) :
    v.Heads w ↔ w = v.core := by
  cases v with
  | one => exact absurd rfl whole
  | two => exact absurd rfl whole
  | three major minor patch =>
      cases w
      simp [Dotted.Heads, Dotted.core, Dotted.major, Dotted.minor?, Dotted.patch?]

/-- A caret allows more than one version, but for those that begin with two zeros. -/
theorem successor_lt_nextBreaking {v : Dotted} :
    successor v < v.nextBreaking ↔ (plain v).Misread := by
  rw [Core.lt_iff]
  cases v <;> simp only [Misread, Dotted.nextBreaking, successor, Dotted.core, Dotted.major,
    Dotted.minor?, Dotted.patch?, Option.elim] <;> grind

theorem core_lt_nextBreaking (v : Dotted) : v.core < v.nextBreaking := by
  rw [Core.lt_iff]
  cases v <;> simp only [Dotted.nextBreaking, Dotted.core, Dotted.major, Dotted.minor?,
    Dotted.patch?, Option.elim] <;> grind

theorem core_lt_tildeEnd (v : Dotted) : v.core < v.tildeEnd := by
  rw [Core.lt_iff]
  cases v <;> simp [Dotted.tildeEnd, Dotted.core, Dotted.major, Dotted.minor?]

theorem eq_of_lt_nextBreaking {v : Dotted} (single : ¬(plain v).Misread) {w : Core}
    (above : v.core ≤ w) (below : w < v.nextBreaking) : w = v.core := by
  rw [Core.le_iff] at above
  rw [Core.lt_iff] at below
  rw [Core.mk.injEq]
  cases v <;> simp only [Misread, Dotted.nextBreaking, Dotted.core, Dotted.major, Dotted.minor?,
    Dotted.patch?, Option.elim] at single above below ⊢ <;> grind

/-- What is read is what is meant, unless it is misread. -/
theorem reads_iff_denotes (range : Range) :
    (∀ w, range.Reads w ↔ range.Denotes w) ↔ ¬range.Misread := by
  cases range with
  | plain v =>
      constructor
      · intro same misread
        exact successor_ne v ((same _).mp
          ⟨core_le_successor v, successor_lt_nextBreaking.mpr misread⟩)
      · intro single w
        constructor
        · exact fun read => eq_of_lt_nextBreaking single read.1 read.2
        · rintro rfl
          exact ⟨Core.le_rfl, core_lt_nextBreaking v⟩
  | signed operator v =>
      cases operator with
      | exact =>
          constructor
          · intro same missing
            exact successor_ne v ((same _).mp (heads_successor missing))
          · exact heads_iff_eq
      | greater =>
          constructor
          · intro same missing
            exact ((same _).mpr (core_lt_successor v)).2 (heads_successor missing)
          · intro whole w
            simp only [Reads, Denotes, heads_iff_eq whole, and_iff_left_iff_imp]
            rintro above rfl
            simp [Core.lt_iff] at above
      | lessEq =>
          constructor
          · intro same missing
            exact not_successor_le v ((same _).mp (.inr (heads_successor missing)))
          · intro whole w
            simp only [Reads, Denotes, heads_iff_eq whole, or_iff_left_iff_imp]
            rintro rfl
            exact Core.le_rfl
      | tilde =>
          constructor
          · intro same wraps
            exact ((same v.core).mpr ⟨Core.le_rfl, core_lt_tildeEnd v⟩).2 wraps
          · intro proper w
            exact and_iff_left proper
      | greaterEq => simp [Reads, Denotes, Misread]
      | less => simp [Reads, Denotes, Misread]
      | caret => simp [Reads, Denotes, Misread]
  | anyPatch major minor => simp [Reads, Denotes, Misread]

/-! Words. -/

open Constraint Comparator

def version : Range → Dotted
  | plain v | signed _ v => v
  | anyPatch major minor => .two major minor

def operator : Range → Operator
  | plain _ => .caret
  | signed operator _ => operator
  | anyPatch _ _ => .exact

/-- All numbers can be read; the first one behind a tilde with two may have zeros in front. -/
def IsReadable : Range → Prop
  | signed .tilde (.two major minor) => major.value < Version.numberBound ∧ minor.IsPlain
  | range => range.version.IsPlain

/-- How many comparators a range is read as. -/
def size : Range → Nat
  | signed .tilde (.two _ _) => 2
  | _ => 1

theorem splitWhere_dotted (v : Dotted) : Text.splitWhere (· == '.') v.chars =
    v.major.chars :: (v.minor?.toList ++ v.patch?.toList).map Digits.chars := by
  have whole (d : Digits) : Text.splitWhere (· == '.') d.chars = [d.chars] :=
    Text.splitWhere_of_none fun c member => by
      simp [(Numbered.other_of_isDigit (d.all c member)).2.1]
  cases v <;> simp [Dotted.chars, Dotted.major, Dotted.minor?, Dotted.patch?, Dotted.behindDot,
    Text.splitWhere_append, whole]

theorem tildePair?_tilde (v : Dotted) : tildePair? ('~' :: v.chars) = match v with
    | .two major minor => (Version.number? major.chars).map fun n => (n, minor.chars)
    | _ => none := by
  obtain ⟨c, rest, same, digit⟩ := v.exists_cons
  have closed : (v.chars.head?.any fun c => c == '>' || c == '=') = false := by
    have notAbove : c ≠ '>' := Digits.ne_of_isDigit digit rfl
    have notEqual : c ≠ '=' := Digits.ne_of_isDigit digit rfl
    simp [same, notAbove, notEqual]
  simp only [tildePair?, closed, splitWhere_dotted]
  cases v <;> rfl

theorem tildePair?_of_head {word : List Char} (other : word.head? ≠ some '~') :
    tildePair? word = none := by
  unfold tildePair?
  split
  · exact absurd rfl other
  · rfl

theorem ofWord?_word_iff (range : Range) {comparator : Comparator} :
    ofWord? range.word = some comparator ↔
      range.version.IsPlain ∧ range.version.comparator range.operator = comparator := by
  cases range with
  | plain v => exact v.ofWord?_plain_iff
  | signed operator v => exact v.ofWord?_signed_iff operator
  | anyPatch major minor => exact Dotted.ofWord?_wildcard_iff major minor

/-- A tilde in front of two numbers is read as the comparators of its bounds. -/
def bounds (major minor : Digits) : List Range :=
  [signed .greaterEq (.three (.ofNat major.value) minor (.ofNat 0)),
    signed .less (.three (.ofNat ((major.value + 1) % Version.numberBound)) (.ofNat 0) (.ofNat 0))]

/-- The ranges that a range is spelled out with. -/
def spelled : Range → List Range
  | signed .tilde (.two major minor) =>
      if major.value < Version.numberBound then bounds major minor
      else [signed .tilde (.two major minor)]
  | range => [range]

/-- A range that is no tilde in front of two numbers is one comparator. -/
structure IsSingle (range : Range) : Prop where
  spelled : range.spelled = [range]
  size : range.size = 1
  readable : range.IsReadable ↔ range.version.IsPlain
  other : range.operator = .tilde → ∀ major minor, range.version ≠ .two major minor

theorem single_or_tilde (range : Range) :
    range.IsSingle ∨ ∃ major minor, range = signed .tilde (.two major minor) := by
  cases range with
  | plain v => exact .inl ⟨rfl, rfl, .rfl, nofun⟩
  | anyPatch major minor => exact .inl ⟨rfl, rfl, .rfl, nofun⟩
  | signed operator v =>
      cases operator with
      | tilde =>
          cases v with
          | two major minor => exact .inr ⟨major, minor, rfl⟩
          | one => exact .inl ⟨rfl, rfl, .rfl, nofun⟩
          | three => exact .inl ⟨rfl, rfl, .rfl, nofun⟩
      | _ => exact .inl ⟨rfl, rfl, .rfl, nofun⟩

theorem natDigits_zero : Number.natDigits 0 = ['0'] := by
  rw [Number.natDigits]
  rfl

theorem map_word_bounds (major minor : Digits) : (bounds major minor).map word =
    [atLeast major.value minor.chars, belowNext major.value] := by
  have numeral (n : Nat) : (Digits.ofNat n).chars = Number.natDigits n := rfl
  simp [bounds, word, atLeast, belowNext, Operator.sign, Dotted.chars, Dotted.major, Dotted.minor?,
    Dotted.patch?, Dotted.behindDot, natDigits_zero, numeral]

theorem head_word_ne {range : Range} (other : range.operator ≠ .tilde) :
    range.word.head? ≠ some '~' := by
  have digit (d : Digits) (rest : List Char) : (d.chars ++ rest).head? ≠ some '~' := by
    obtain ⟨c, behind, same, digit⟩ := d.exists_cons
    simpa [same] using Digits.ne_of_isDigit digit rfl
  cases range with
  | plain v => exact digit _ _
  | signed operator v => cases operator <;> simp_all [word, Operator.sign, Range.operator]
  | anyPatch major minor => exact digit _ _

/-- Words are spelled out as the ranges that they are read as. -/
theorem spelledOut_word (range : Range) : spelledOut range.word = range.spelled.map word := by
  by_cases other : range.operator = .tilde
  · cases range with
    | plain v => cases other
    | anyPatch major minor => cases other
    | signed operator v =>
        cases other
        have same : (signed .tilde v).word = '~' :: v.chars := rfl
        rw [spelledOut, same, tildePair?_tilde]
        cases v with
        | one => rfl
        | two major minor =>
            by_cases small : major.value < Version.numberBound
            · simp only [spelled, Digits.number?_chars, if_pos small]
              exact (map_word_bounds major minor).symm
            · simp only [spelled, Digits.number?_chars, if_neg small]
              rfl
        | three => rfl
  · rw [spelledOut, tildePair?_of_head (head_word_ne other)]
    cases range with
    | plain v => rfl
    | anyPatch major minor => rfl
    | signed operator v => cases operator <;> first | rfl | exact absurd rfl other

/-- What the words that a range is spelled out with demand. -/
theorem forall_spelledOut_iff (range : Range) (holds : Comparator → Prop) :
    (∀ part ∈ spelledOut range.word, ∃ comparator, ofWord? part = some comparator ∧
      holds comparator) ↔
      ∀ r ∈ range.spelled, r.version.IsPlain ∧ holds (r.version.comparator r.operator) := by
  rw [spelledOut_word]
  simp [ofWord?_word_iff, and_assoc]

/-- The numbers of the bounds of a tilde can be read if its second number can. -/
theorem bounds_plain_iff {major : Digits} (small : major.value < Version.numberBound)
    (minor : Digits) : (∀ r ∈ bounds major minor, r.version.IsPlain) ↔ minor.IsPlain := by
  have next : (major.value + 1) % Version.numberBound < Version.numberBound :=
    Nat.mod_lt _ (by decide)
  have zero : (Digits.ofNat 0).IsPlain := Digits.isPlain_ofNat (by decide)
  simp [bounds, version, Dotted.isPlain_three, Digits.isPlain_ofNat small, zero,
    Digits.isPlain_ofNat next]

theorem readable_iff (range : Range) :
    (∀ part ∈ spelledOut range.word, ∃ comparator, ofWord? part = some comparator) ↔
      range.IsReadable := by
  have plain := range.forall_spelledOut_iff fun _ => True
  simp only [and_true] at plain
  rw [plain]
  rcases range.single_or_tilde with single | ⟨major, minor, rfl⟩
  · rw [single.spelled, single.readable, List.forall_mem_singleton]
  · rw [spelled, IsReadable]
    by_cases small : major.value < Version.numberBound
    · rw [if_pos small, bounds_plain_iff small, and_iff_right small]
    · rw [if_neg small, List.forall_mem_singleton]
      simp only [small, false_and, iff_false]
      exact fun plain => small plain.major.2

theorem length_spelledOut_word {range : Range} (readable : range.IsReadable) :
    (spelledOut range.word).length = range.size := by
  rw [spelledOut_word, List.length_map]
  rcases range.single_or_tilde with single | ⟨major, minor, rfl⟩
  · rw [single.spelled, single.size]
    rfl
  · rw [spelled, if_pos readable.1]
    rfl

/-- The versions that meet a range which is one comparator. -/
theorem admits_iff_reads {range : Range} (single : range.IsSingle) (w : Core) :
    (range.version.comparator range.operator).admits w = true ↔ range.Reads w := by
  cases range with
  | plain v => exact v.matchesCaret_iff w _
  | anyPatch major minor => exact Dotted.matchesExact_iff _ w _
  | signed operator v =>
      cases operator with
      | exact => exact v.matchesExact_iff w _
      | greater => exact v.matchesGreater_iff w _
      | greaterEq =>
          rw [Reads, Dotted.core_le_iff, ← v.matchesGreater_iff w .greaterEq,
            ← v.matchesExact_iff w .greaterEq, ← Bool.or_eq_true]
          rfl
      | less => exact v.matchesLess_iff w _
      | lessEq =>
          rw [Reads, Dotted.le_core_or_heads_iff, ← v.matchesLess_iff w .lessEq,
            ← v.matchesExact_iff w .lessEq, ← Bool.or_eq_true]
          rfl
      | tilde =>
          have proper : ¬Wraps v := by
            cases v with
            | two major minor => exact absurd rfl (single.other rfl major minor)
            | one => exact nofun
            | three => exact nofun
          exact (v.matchesTilde_iff w _ (single.other rfl)).trans (and_iff_left proper).symm
      | caret => exact v.matchesCaret_iff w _

/-- The bounds of a tilde in front of two numbers are those of the range, unless the upper one
has no 64 bits. -/
theorem reads_bounds_iff {major minor : Digits} (small : major.value < Version.numberBound)
    (w : Core) : (∀ r ∈ bounds major minor, r.Reads w) ↔
      (signed .tilde (.two major minor)).Reads w := by
  rw [bounds, List.forall_mem_cons, List.forall_mem_singleton]
  simp only [Reads, Wraps, Core.lt_iff, Core.le_iff, Dotted.core, Dotted.tildeEnd, Dotted.major,
    Dotted.minor?, Dotted.patch?, Option.elim, Digits.value_ofNat]
  by_cases wraps : major.value + 1 = Version.numberBound
  · rw [wraps, Nat.mod_self]
    omega
  · rw [Nat.mod_eq_of_lt (by omega)]
    omega

theorem isSingle_of_mem_bounds {major minor : Digits} : ∀ r ∈ bounds major minor, r.IsSingle :=
  List.forall_mem_cons.mpr ⟨⟨rfl, rfl, .rfl, nofun⟩,
    List.forall_mem_singleton.mpr ⟨rfl, rfl, .rfl, nofun⟩⟩

/-- A word demands what its range reads. -/
theorem meetsWord_iff {range : Range} (readable : range.IsReadable) (w : Core) :
    MeetsWord range.word w ↔ range.Reads w := by
  rw [MeetsWord, forall_spelledOut_iff]
  rcases range.single_or_tilde with single | ⟨major, minor, rfl⟩
  · rw [single.spelled, List.forall_mem_singleton, admits_iff_reads single,
      and_iff_right (single.readable.mp readable)]
  · rw [← reads_bounds_iff readable.1, spelled, if_pos readable.1]
    have plain := (bounds_plain_iff readable.1 minor).mpr readable.2
    refine forall₂_congr fun r member => ?_
    rw [and_iff_right (plain r member), admits_iff_reads (isSingle_of_mem_bounds r member)]

/-! Rows. -/

/-- Each range of a row can be read, and there are not too many comparators. -/
structure IsReadableRow (row : List Range) : Prop where
  readable : ∀ range ∈ row, range.IsReadable
  few : (row.map size).sum ≤ Requirement.sizeLimit

theorem afterWildcard?_word (range : Range) : afterWildcard? range.word = none := by
  cases range with
  | plain v => exact v.major.afterWildcard?_append _
  | signed operator v => cases operator <;> rfl
  | anyPatch major minor => exact major.afterWildcard?_append _

theorem not_isWildcard (row : List Range) :
    ¬Requirement.IsWildcard ((row.map word).flatMap spelledOut) := by
  rintro ⟨part, alone, wildcard⟩
  have member : part ∈ (row.map word).flatMap spelledOut := by simp [alone]
  obtain ⟨text, inside, member⟩ := List.mem_flatMap.mp member
  obtain ⟨range, -, rfl⟩ := List.mem_map.mp inside
  rw [spelledOut_word] at member
  obtain ⟨r, -, rfl⟩ := List.mem_map.mp member
  rw [afterWildcard?_word] at wildcard
  cases wildcard

theorem length_flatMap_spelledOut {row : List Range} (readable : ∀ range ∈ row, range.IsReadable) :
    ((row.map word).flatMap spelledOut).length = (row.map size).sum := by
  rw [List.flatMap_map, List.length_flatMap]
  exact congrArg List.sum (List.map_congr_left fun range member =>
    length_spelledOut_word (readable range member))

variable {alternative : List Char} {row : List Range}

/-- Whether a row can be read depends on its numbers and its length. -/
theorem exists_requirement?_iff (any : row ≠ []) (same : words alternative = row.map word) :
    (∃ requirement, requirement? alternative = some requirement) ↔ IsReadableRow row := by
  simp only [requirement?_iff, same, not_isWildcard, false_and, false_or, ne_eq,
    List.map_eq_nil_iff, any, not_false_eq_true, true_and]
  constructor
  · rintro ⟨requirement, few, reads⟩
    have readable : ∀ range ∈ row, range.IsReadable := fun range member =>
      range.readable_iff.mp fun part inside => exists_of_mapM reads part
        (List.mem_flatMap.mpr ⟨range.word, List.mem_map_of_mem member, inside⟩)
    exact ⟨readable, length_flatMap_spelledOut readable ▸ few⟩
  · rintro ⟨readable, few⟩
    have each : ∀ part ∈ (row.map word).flatMap spelledOut, ∃ comparator,
        ofWord? part = some comparator := by
      simp only [List.forall_mem_flatMap, List.forall_mem_map]
      exact fun range member => range.readable_iff.mpr (readable range member)
    obtain ⟨requirement, reads⟩ := mapM_of_exists each
    exact ⟨requirement, (length_flatMap_spelledOut readable).trans_le few, reads⟩

theorem admits_row_iff (any : row ≠ []) (same : words alternative = row.map word)
    {requirement : Requirement} (read : requirement? alternative = some requirement) (w : Core) :
    requirement.admits w = true ↔ ∀ range ∈ row, range.Reads w := by
  obtain ⟨readable, -⟩ := (exists_requirement?_iff any same).mp ⟨requirement, read⟩
  rcases requirement?_iff.mp read with ⟨wildcard, -⟩ | ⟨-, -, reads⟩
  · exact absurd (same ▸ wildcard) (not_isWildcard row)
  · rw [admits_iff_meetsWord reads, same, List.forall_mem_map]
    exact forall₂_congr fun range member => meetsWord_iff (readable range member) w

end Range
end ImageLock
