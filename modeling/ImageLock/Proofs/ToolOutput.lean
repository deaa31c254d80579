/-
What the output of the package tools tells.

A line of three columns lists a version, and the first line of a package counts.
A header stands at the start of a line; of the names that can be read there the
longest counts, reading goes on behind the header, and the last header of a
package counts. Both are said here without the functions that read them.
-/
import ImageLock.Packages.Apk
import ImageLock.Packages.Apt

namespace ImageLock

namespace Text

/-- The text in front of the first `sep`, and the text behind it. -/
def CutBy (sep text front behind : List Char) : Prop :=
  text = front ++ (sep ++ behind) ∧ ∀ n < front.length, ¬ sep <+: text.drop n

theorem cutAtText_eq_some {sep : List Char} (filled : sep ≠ []) {text front behind : List Char} :
    cutAtText sep text = some (front, behind) ↔ CutBy sep text front behind := by
  induction text generalizing front with
  | nil =>
      have none : cutAtText sep [] = none := by simp [cutAtText, filled]
      rw [none]
      constructor
      · intro some
        cases some
      · rintro ⟨same, _⟩
        simp [filled] at same
  | cons c rest ih =>
      by_cases here : sep <+: c :: rest
      · have cut : cutAtText sep (c :: rest) = some ([], (c :: rest).drop sep.length) := by
          simp [cutAtText, here]
        rw [cut]
        constructor
        · intro same
          obtain ⟨rfl, rfl⟩ := Prod.mk.inj (Option.some.inj same)
          obtain ⟨behind, same⟩ := here
          exact ⟨by simp [← same], by simp⟩
        · rintro ⟨same, first⟩
          cases front with
          | nil => simp [same]
          | cons d front => exact absurd here (first 0 (by simp))
      · have cut : cutAtText sep (c :: rest) =
            (cutAtText sep rest).map fun cut => (c :: cut.1, cut.2) := by
          simp [cutAtText, here]
        rw [cut, Option.map_eq_some_iff]
        constructor
        · rintro ⟨⟨front, behind⟩, found, same⟩
          obtain ⟨rfl, rfl⟩ := Prod.mk.inj same
          obtain ⟨rfl, first⟩ := ih.mp found
          refine ⟨rfl, fun n below => ?_⟩
          cases n with
          | zero => exact here
          | succ n => exact first n (by simpa using below)
        · rintro ⟨same, first⟩
          cases front with
          | nil => exact absurd ⟨behind, same.symm⟩ here
          | cons d front =>
              obtain ⟨rfl, rfl⟩ := List.cons.inj same
              refine ⟨(front, behind), ih.mpr ⟨rfl, fun n below => ?_⟩, rfl⟩
              exact first (n + 1) (by simpa using below)

theorem dropLeading_eq_some {lead text rest : List Char} :
    dropLeading lead text = some rest ↔ text = lead ++ rest := by
  unfold dropLeading
  by_cases leads : lead <+: text
  · obtain ⟨own, rfl⟩ := leads
    simp
  · simp only [List.isPrefixOf_iff_prefix, if_neg leads, reduceCtorEq, false_iff]
    exact fun same => leads ⟨rest, same.symm⟩

theorem dropLeading_eq_none {lead text : List Char} :
    dropLeading lead text = none ↔ ¬lead <+: text := by
  simp [dropLeading]

end Text

/-- The first of some items that tells a value for a name. -/
theorem lookup_filterMap_eq_some {σ β : Type} {tells : σ → Option (String × β)} {items : List σ}
    {name : String} {value : β} :
    (items.filterMap tells).lookup name = some value ↔
      ∃ early item late, items = early ++ item :: late ∧ tells item = some (name, value) ∧
        ∀ other ∈ early, ∀ own, tells other ≠ some (name, own) := by
  induction items with
  | nil => simp
  | cons item rest ih =>
      by_cases here : ∃ own, tells item = some (name, own)
      · obtain ⟨own, told⟩ := here
        rw [List.filterMap_cons_some told, List.lookup_cons_self]
        constructor
        · rintro ⟨rfl⟩
          exact ⟨[], item, rest, rfl, told, by simp⟩
        · rintro ⟨early, first, late, split, told', others⟩
          cases early with
          | nil =>
              obtain ⟨rfl, rfl⟩ := List.cons.inj split
              rw [told] at told'
              exact congrArg some (Prod.mk.inj (Option.some.inj told')).2
          | cons e early =>
              obtain ⟨rfl, rfl⟩ := List.cons.inj split
              exact absurd told (others item List.mem_cons_self own)
      · -- The item tells nothing for the name, so it is one of the early ones.
        have skipped : ((item :: rest).filterMap tells).lookup name =
            (rest.filterMap tells).lookup name := by
          cases told : tells item with
          | none => rw [List.filterMap_cons_none told]
          | some entry =>
              have other : (name == entry.1) = false := by
                simpa using fun same => here ⟨entry.2, by rw [told, same]⟩
              rw [List.filterMap_cons_some told, List.lookup_cons, other]
        rw [skipped, ih]
        constructor
        · rintro ⟨early, first, late, rfl, told, others⟩
          refine ⟨item :: early, first, late, rfl, told, fun other member own told' => ?_⟩
          rcases List.mem_cons.mp member with rfl | member
          · exact here ⟨own, told'⟩
          · exact others other member own told'
        · rintro ⟨early, first, late, split, told, others⟩
          cases early with
          | nil =>
              obtain ⟨rfl, _⟩ := List.cons.inj split
              exact absurd ⟨value, told⟩ here
          | cons e early =>
              obtain ⟨rfl, rfl⟩ := List.cons.inj split
              exact ⟨early, first, late, rfl, told,
                fun other member => others other (List.mem_cons_of_mem _ member)⟩

namespace Apt

/-- A line that lists a version of a package: a name, a version and a rest. -/
def Lists (line : List Char) (name version : String) : Prop :=
  ∃ first second behind rest,
    Text.CutBy bar line first behind ∧ Text.CutBy bar behind second rest ∧
    name = String.ofList (Text.trimChars first) ∧ version = String.ofList (Text.trimChars second)

theorem entry?_eq_some {line : List Char} {name version : String} :
    entry? line = some (name, version) ↔ Lists line name version := by
  have filled : bar ≠ [] := by decide
  unfold entry? Lists
  simp only [Option.bind_eq_bind, Option.bind_eq_some_iff, Prod.exists, Option.pure_def,
    Option.some.injEq, Prod.mk.injEq, Text.cutAtText_eq_some filled]
  constructor
  · rintro ⟨first, behind, cut, second, rest, cut', rfl, rfl⟩
    exact ⟨first, second, behind, rest, cut, cut', rfl, rfl⟩
  · rintro ⟨first, second, behind, rest, cut, cut', rfl, rfl⟩
    exact ⟨first, behind, cut, second, rest, cut', rfl, rfl⟩

/-- The first line that bears the name of a package tells its version. -/
def Gives (out : String) (name version : String) : Prop :=
  ∃ early line late, Text.lineChars out.toList = early ++ line :: late ∧
    Lists line name version ∧ ∀ other ∈ early, ∀ own, ¬ Lists other name own

/-- What is listed, in order. -/
def listed (out : String) : List (String × String) :=
  (Text.lineChars out.toList).filterMap entry?

theorem lookup_listed {out name version : String} :
    (listed out).lookup name = some version ↔ Gives out name version := by
  simp only [listed, lookup_filterMap_eq_some, Gives, entry?_eq_some, ne_eq]

end Apt

namespace Apk

/-- A header at the start of a text, and what is behind it: a name, and a version
that begins with a digit and has no blank in it. -/
def IsHeader (text : List Char) (name : String) (version rest : List Char) : Prop :=
  text = name.toList ++ '-' :: (version ++ " description:".toList ++ rest) ∧
    version.head?.any Text.isDecimalDigit = true ∧ ∀ c ∈ version, c ≠ ' ' ∧ c ≠ '\n'

/-- A header of the longest name that there is one of. -/
def Heads (names : List String) (text : List Char) (name : String)
    (version rest : List Char) : Prop :=
  name ∈ names ∧ IsHeader text name version rest ∧
    ∀ other ∈ names, ∀ version rest, IsHeader text other version rest →
      other.toList.length ≤ name.toList.length

/-- The headers in a text. A line that starts with none, or that a header reaches
into, is passed character by character. -/
inductive Scans (names : List String) : Bool → List Char → List (String × String) → Prop
  | done (atStart : Bool) : Scans names atStart [] []
  | header {text : List Char} {name : String} {version rest : List Char}
      {found : List (String × String)} :
      Heads names text name version rest → Scans names false rest found →
      Scans names true text ((name, String.ofList version) :: found)
  | pass {atStart : Bool} {c : Char} {rest : List Char} {found : List (String × String)} :
      (atStart = true → ∀ name version behind, ¬ Heads names (c :: rest) name version behind) →
      Scans names (c == '\n') rest found → Scans names atStart (c :: rest) found

/-! One header. -/

theorem versionAfter?_eq_some {text version : List Char} :
    versionAfter? text = some version ↔
      ∃ rest, text = '-' :: (version ++ " description:".toList ++ rest) ∧
        version.head?.any Text.isDecimalDigit = true ∧ ∀ c ∈ version, c ≠ ' ' ∧ c ≠ '\n' := by
  -- A version ends at the first blank, and what follows it begins with one.
  have ends : ∀ version rest : List Char, (∀ c ∈ version, c ≠ ' ' ∧ c ≠ '\n') →
      (version ++ " description:".toList ++ rest).takeWhile (fun c => c != ' ' && c != '\n') =
        version := by
    intro version rest plain
    rw [List.append_assoc, List.takeWhile_append_of_pos (by simpa using plain)]
    simp
  cases text with
  | nil => simp [versionAfter?]
  | cons c text =>
      by_cases dash : c = '-'
      · subst dash
        simp only [versionAfter?, Bool.and_eq_true, List.isPrefixOf_iff_prefix]
        constructor
        · intro found
          split at found
          next shape =>
            obtain rfl := Option.some.inj found
            obtain ⟨digit, rest, behind⟩ := shape
            refine ⟨rest, ?_, digit, fun c member => ?_⟩
            · rw [List.append_assoc, behind, List.prefix_iff_eq_append.mp (List.takeWhile_prefix _)]
            · simpa using List.all_eq_true.mp List.all_takeWhile c member
          next => cases found
        · rintro ⟨rest, same, digit, plain⟩
          obtain ⟨_, rfl⟩ := List.cons.inj same
          rw [ends version rest plain, if_pos ⟨digit, rest, by simp⟩]
      · have none : versionAfter? (c :: text) = none := by
          unfold versionAfter?
          split
          next same => exact absurd (List.cons.inj same).1 dash
          next => rfl
        rw [none]
        constructor
        · intro some
          cases some
        · rintro ⟨rest, same, _⟩
          exact absurd (List.cons.inj same).1 dash

theorem byteLength_append (a b : List Char) :
    Text.byteLength (a ++ b) = Text.byteLength a + Text.byteLength b := by
  have shift : ∀ (text : List Char) (n : Nat),
      text.foldl (fun n c => n + c.utf8Size) n = n + text.foldl (fun n c => n + c.utf8Size) 0 := by
    intro text
    induction text with
    | nil => simp
    | cons c rest ih =>
        intro n
        rw [List.foldl_cons, ih, List.foldl_cons, ih (0 + _)]
        omega
  rw [Text.byteLength, List.foldl_append, shift]
  rfl

theorem byteLength_lt_of_prefix {a b : List Char} (leads : a <+: b)
    (shorter : a.length < b.length) :
    Text.byteLength a < Text.byteLength b := by
  obtain ⟨rest, rfl⟩ := leads
  cases rest with
  | nil => simp at shorter
  | cons c rest =>
      have single : Text.byteLength [c] = c.utf8Size := by simp [Text.byteLength]
      have size := Char.utf8Size_pos c
      rw [List.append_cons, byteLength_append, byteLength_append, single]
      omega

/-- A name is read before those that are no longer. -/
theorem ordered_pairwise (names : List String) :
    (ordered names).Pairwise fun a b =>
      Text.byteLength b.toList ≤ Text.byteLength a.toList := by
  have sorted : (ordered names).Pairwise fun a b => comesBefore a b = true := by
    refine List.pairwise_mergeSort ?_ ?_ names
    · intro a b c
      simp only [comesBefore, Bool.or_eq_true, Bool.and_eq_true, decide_eq_true_eq, beq_iff_eq]
      rintro (ab | ⟨ab, le⟩) (bc | ⟨bc, le'⟩)
      · exact .inl (Nat.lt_trans bc ab)
      · exact .inl (bc ▸ ab)
      · exact .inl (ab ▸ bc)
      · exact .inr ⟨ab.trans bc, String.le_trans le le'⟩
    · intro a b
      simp only [comesBefore, Bool.or_eq_true, Bool.and_eq_true, decide_eq_true_eq, beq_iff_eq]
      rcases Nat.lt_trichotomy (Text.byteLength a.toList) (Text.byteLength b.toList)
        with less | same | more
      · exact .inr (.inl less)
      · rcases String.le_total a b with le | le
        · exact .inl (.inr ⟨same, le⟩)
        · exact .inr (.inr ⟨same.symm, le⟩)
      · exact .inl (.inl more)
  refine sorted.imp fun {a b} before => ?_
  simp only [comesBefore, Bool.or_eq_true, Bool.and_eq_true, decide_eq_true_eq,
    beq_iff_eq] at before
  omega

theorem headerOf_eq_some {text version : List Char} {other name : String} :
    (do
      let rest ← Text.dropLeading other.toList text
      return (other, ← versionAfter? rest) : Option (String × List Char)) = some (name, version) ↔
      other = name ∧ ∃ rest, IsHeader text name version rest := by
  simp only [Option.bind_eq_bind, Option.bind_eq_some_iff, Text.dropLeading_eq_some,
    versionAfter?_eq_some, Option.pure_def, Option.some.injEq, Prod.mk.injEq, IsHeader]
  constructor
  · rintro ⟨_, rfl, version, ⟨rest, rfl, shape⟩, rfl, rfl⟩
    exact ⟨rfl, rest, rfl, shape⟩
  · rintro ⟨rfl, rest, rfl, shape⟩
    exact ⟨_, rfl, version, ⟨rest, rfl, shape⟩, rfl, rfl⟩

theorem IsHeader.name_prefix {text version rest : List Char} {name : String}
    (header : IsHeader text name version rest) : name.toList <+: text :=
  ⟨_, header.1.symm⟩

theorem longest_of_header? {names : List String} {text version : List Char} {name : String}
    (found : header? (ordered names) text = some (name, version)) :
    ∃ rest, Heads names text name version rest := by
  obtain ⟨early, own, late, split, told, others⟩ := List.findSome?_eq_some_iff.mp found
  obtain ⟨rfl, rest, header⟩ := headerOf_eq_some.mp told
  have sorted := ordered_pairwise names
  rw [split] at sorted
  have mem : ∀ other, other ∈ ordered names ↔ other ∈ names := fun _ => List.mem_mergeSort
  refine ⟨rest, (mem own).mp (by simp [split]), header,
    fun other member version' rest' header' => ?_⟩
  -- A name that is read later is no longer, and an early one would have been found.
  rcases Nat.lt_or_ge own.toList.length other.toList.length with longer | notLonger
  · have leads := List.prefix_of_prefix_length_le header.name_prefix header'.name_prefix
      (Nat.le_of_lt longer)
    have bytes := byteLength_lt_of_prefix leads longer
    have place := (mem other).mpr member
    rw [split] at place
    rcases List.mem_append.mp place with first | last
    · have some := headerOf_eq_some.mpr ⟨rfl, rest', header'⟩
      rw [others other first] at some
      cases some
    · rcases List.mem_cons.mp last with rfl | last
      · exact Nat.le_refl _
      · have later := (List.pairwise_cons.mp (List.pairwise_append.mp sorted).2.1).1 other last
        omega
  · exact notLonger

/-- A header that is read has one version and one rest. -/
theorem Heads.unique {names : List String} {text version version' rest rest' : List Char}
    {name name' : String} (one : Heads names text name version rest)
    (other : Heads names text name' version' rest') :
    name = name' ∧ version = version' ∧ rest = rest' := by
  obtain ⟨member, header, longest⟩ := one
  obtain ⟨member', header', longest'⟩ := other
  have length : name.toList.length = name'.toList.length :=
    Nat.le_antisymm (longest' _ member _ _ header) (longest _ member' _ _ header')
  have names_eq := List.append_inj (header.1.symm.trans header'.1) length
  have name_eq : name = name' := String.toList_inj.mp names_eq.1
  subst name_eq
  have dashed := names_eq.2
  -- Both versions are what is read behind the name.
  have version_eq : version = version' := by
    have read := versionAfter?_eq_some.mpr ⟨rest, rfl, header.2⟩
    rw [dashed, versionAfter?_eq_some.mpr ⟨rest', rfl, header'.2⟩] at read
    exact (Option.some.inj read).symm
  subst version_eq
  exact ⟨rfl, rfl, List.append_cancel_left (List.cons.inj dashed).2⟩

/-- A header of one of the names is found, and it is of the longest one. -/
theorem header?_eq_some {names : List String} {text version : List Char} {name : String} :
    header? (ordered names) text = some (name, version) ↔
      ∃ rest, Heads names text name version rest := by
  refine ⟨longest_of_header?, ?_⟩
  rintro ⟨rest, heads⟩
  cases found : header? (ordered names) text with
  | none =>
      have nothing := List.findSome?_eq_none_iff.mp found name (List.mem_mergeSort.mpr heads.1)
      rw [headerOf_eq_some.mpr ⟨rfl, rest, heads.2.1⟩] at nothing
      cases nothing
  | some own =>
      obtain ⟨name', version'⟩ := own
      obtain ⟨rest', heads'⟩ := longest_of_header? found
      obtain ⟨rfl, rfl, _⟩ := heads.unique heads'
      rfl

/-! All headers. -/

theorem headers_skip (names : List String) (skip : Nat) (text : List Char) :
    headers names skip false text = headers names 0 false (text.drop skip) := by
  induction text generalizing skip with
  | nil => cases skip <;> simp [headers]
  | cons c rest ih =>
      cases skip with
      | zero => rfl
      | succ skip => simpa [headers] using ih skip

theorem described_length : " description:".length = 13 := by decide

theorem headers_header {names : List String} {text version rest : List Char} {name : String}
    (heads : Heads names text name version rest) :
    headers (ordered names) 0 true text =
      (name, String.ofList version) :: headers (ordered names) 0 false rest := by
  have found := header?_eq_some.mpr ⟨rest, heads⟩
  have same := heads.2.1.1
  cases text with
  | nil => simp at same
  | cons c behind =>
      simp only [headers, if_true, found]
      rw [headers_skip]
      -- What is dropped is the rest of the header that the character begins.
      have dropped : behind.drop (name.toList.length + 1 + version.length +
          " description:".length - 1) = rest := by
        have whole := congrArg
          (List.drop (name.toList.length + 1 + version.length + " description:".length)) same
        rw [show name.toList ++ '-' :: (version ++ " description:".toList ++ rest) =
            (name.toList ++ ['-'] ++ version ++ " description:".toList) ++ rest by simp,
          List.drop_left' (by simp [described_length]; omega)] at whole
        rw [← whole, show name.toList.length + 1 + version.length + " description:".length =
          (name.toList.length + 1 + version.length + " description:".length - 1) + 1 by omega,
          List.drop_succ_cons]
        simp
      rw [dropped]

theorem headers_pass {names : List String} {atStart : Bool} {c : Char} {rest : List Char}
    (none : atStart = true → ∀ name version behind,
      ¬ Heads names (c :: rest) name version behind) :
    headers (ordered names) 0 atStart (c :: rest) =
      headers (ordered names) 0 (c == '\n') rest := by
  have nothing : (if atStart then header? (ordered names) (c :: rest) else .none) = .none := by
    cases atStart with
    | false => rfl
    | true =>
        refine Option.eq_none_iff_forall_not_mem.mpr fun entry found => ?_
        obtain ⟨behind, heads⟩ := header?_eq_some.mp found
        exact none rfl _ _ _ heads
  simp only [headers, nothing]

theorem scans_headers (names : List String) (atStart : Bool) (text : List Char) :
    Scans names atStart text (headers (ordered names) 0 atStart text) := by
  -- What is behind a header, or behind a character, is shorter.
  induction size : text.length using Nat.strongRecOn generalizing text atStart with
  | ind size ih =>
      subst size
      cases text with
      | nil => exact .done atStart
      | cons c rest =>
          by_cases here : atStart = true ∧ ∃ name version behind,
              Heads names (c :: rest) name version behind
          · obtain ⟨rfl, name, version, behind, heads⟩ := here
            rw [headers_header heads]
            refine .header heads (ih behind.length ?_ false behind rfl)
            rw [heads.2.1.1]
            simp
            omega
          · have none : atStart = true → ∀ name version behind,
                ¬ Heads names (c :: rest) name version behind :=
              fun started name version behind heads => here ⟨started, name, version, behind, heads⟩
            rw [headers_pass none]
            exact .pass none (ih rest.length (by simp) _ rest rfl)

/-- The headers that are read are those that the rules tell. -/
theorem scans_iff {names : List String} {atStart : Bool} {text : List Char}
    {found : List (String × String)} :
    Scans names atStart text found ↔ headers (ordered names) 0 atStart text = found := by
  constructor
  · intro scans
    induction scans with
    | done atStart => rfl
    | header heads _ ih => rw [headers_header heads, ih]
    | pass none _ ih => rw [headers_pass none, ih]
  · rintro rfl
    exact scans_headers names atStart text

/-- The last header that bears the name of a package tells its version. -/
def Gives (names : List String) (out : String) (name version : String) : Prop :=
  ∃ early late, Scans names true out.toList (early ++ (name, version) :: late) ∧
    ∀ own, (name, own) ∉ late

/-- What the headers tell, in order. -/
def headed (names : List String) (out : String) : List (String × String) :=
  headers (ordered names) 0 true out.toList

theorem lookup_headed {names : List String} {out name version : String} :
    (headed names out).reverse.lookup name = some version ↔ Gives names out name version := by
  have first : ((headed names out).reverse.filterMap some).lookup name = some version ↔ _ :=
    lookup_filterMap_eq_some
  rw [List.filterMap_some] at first
  rw [first]
  constructor
  · rintro ⟨late, _, early, split, ⟨rfl⟩, others⟩
    refine ⟨early.reverse, late.reverse, scans_iff.mpr ?_, fun own member => ?_⟩
    · rw [← headed, ← List.reverse_reverse (headed names out), split]
      simp
    · exact others _ (List.mem_reverse.mp member) own rfl
  · rintro ⟨early, late, scans, others⟩
    refine ⟨late.reverse, _, early.reverse, ?_, rfl, fun other member own same => ?_⟩
    · rw [headed, scans_iff.mp scans]
      simp
    · obtain ⟨rfl⟩ := same
      exact others own (List.mem_reverse.mp member)

/-- A header is of one of the names, and its version begins with a digit. -/
theorem Scans.of_mem {names : List String} {atStart : Bool} {text : List Char}
    {found : List (String × String)} (scans : Scans names atStart text found)
    {name version : String} (member : (name, version) ∈ found) :
    name ∈ names ∧ version.toList.head?.any Text.isDecimalDigit = true := by
  induction scans with
  | done atStart => cases member
  | header heads _ ih =>
      rcases List.mem_cons.mp member with same | later
      · obtain ⟨rfl, rfl⟩ := Prod.mk.inj same
        exact ⟨heads.1, by simpa using heads.2.1.2.1⟩
      · exact ih later
  | pass _ _ ih => exact ih member

end Apk
end ImageLock
