/-
Descriptions of packages.

The tool of Alpine writes a header for each package and free text below it. A dash stands between
the name and the version, and may stand in the name as well. A version has one dash itself, and no
digit behind it: so a name that goes on where another one ends never has a version of its own in
the same header, and each header is read as it was meant.
-/
import ImageLock.Proofs.PackageVersions
import ImageLock.Proofs.Pieces

namespace ImageLock.Apk

/-! What the tool writes. -/

/-- A version as packages are numbered: a digit comes first, and the only dash is in front of the
revision. -/
structure Numbering where
  base : List Char
  revision : List Char
  digit : base.head?.any Text.isDecimalDigit = true
  plain : ∀ c ∈ base ++ revision, c ≠ ' ' ∧ c ≠ '\n' ∧ c ≠ '-'

def Numbering.chars (v : Numbering) : List Char := v.base ++ '-' :: 'r' :: v.revision

/-- The header of a package, with what is behind it in the line, or a line that none of the names
can be read as a header of. -/
inductive Line (names : List String) where
  | header (name : String) (asked : name ∈ names) (version : Numbering) (behind : List Char)
      (inLine : '\n' ∉ behind)
  | free (text : List Char) (inLine : '\n' ∉ text)
      (other : ∀ name ∈ names, ∀ version rest, ¬IsHeader text name version rest)

namespace Line

variable {names : List String}

def chars : Line names → List Char
  | header name _ version behind _ =>
      name.toList ++ '-' :: (version.chars ++ " description:".toList ++ behind)
  | free text _ _ => text

/-- What a header tells. -/
def headed? : Line names → Option (String × String)
  | header name _ version _ _ => some (name, String.ofList version.chars)
  | free .. => none

def printed (lines : List (Line names)) : List Char := Text.joinLines (lines.map chars)

/-- The version in the last header of a name. -/
def lastVersion? (lines : List (Line names)) (name : String) : Option String :=
  (lines.filterMap headed?).reverse.lookup name

theorem lastVersion?_of_notMem (lines : List (Line names)) {name : String}
    (other : name ∉ names) : lastVersion? lines name = none := by
  refine Option.eq_none_iff_forall_ne_some.mpr fun version found => other ?_
  obtain ⟨line, -, told⟩ := List.mem_filterMap.mp (List.mem_reverse.mp (mem_of_lookup found))
  cases line with
  | header own asked =>
      cases told
      exact asked
  | free => cases told

end Line

/-- Names that can be told apart from what is around them. -/
def PlainNames (names : List String) : Prop := ∀ name ∈ names, ∀ c ∈ name.toList, c ≠ ' ' ∧ c ≠ '\n'

/-! One header. -/

theorem Numbering.plain_chars (v : Numbering) : ∀ c ∈ v.chars, c ≠ ' ' ∧ c ≠ '\n' := by
  have inside (c : Char) (member : c ∈ v.base ++ v.revision) : c ≠ ' ' ∧ c ≠ '\n' :=
    ⟨(v.plain c member).1, (v.plain c member).2.1⟩
  intro c member
  rcases List.mem_append.mp member with inBase | member
  · exact inside c (List.mem_append_left _ inBase)
  · rcases List.mem_cons.mp member with rfl | member
    · decide
    · rcases List.mem_cons.mp member with rfl | inRevision
      · decide
      · exact inside c (List.mem_append_right _ inRevision)

theorem Numbering.digit_chars (v : Numbering) :
    v.chars.head?.any Text.isDecimalDigit = true := by
  have digit := v.digit
  cases same : v.base with
  | nil => simp [same] at digit
  | cons c rest =>
      rw [same] at digit
      rw [chars, same]
      exact digit

/-- Behind a dash of a version there is the letter of the revision. -/
theorem Numbering.letter_behind_dash (v : Numbering) {front back : List Char}
    (split : v.chars = front ++ '-' :: back) : back = 'r' :: v.revision := by
  have noDash (c : Char) (member : c ∈ v.base ++ v.revision) : c ≠ '-' := (v.plain c member).2.2
  have inBase : '-' ∉ v.base := fun dash => noDash _ (List.mem_append_left _ dash) rfl
  have inRevision : '-' ∉ 'r' :: v.revision := fun dash =>
    (List.mem_cons.mp dash).elim (by decide) fun dash => noDash _ (List.mem_append_right _ dash) rfl
  rcases List.append_eq_append_iff.mp split with ⟨more, rfl, same⟩ | ⟨more, same, same'⟩
  · cases more with
    | nil => exact (List.cons.inj same).2.symm
    | cons c more =>
        obtain ⟨-, same⟩ := List.cons.inj same
        exact absurd (by simp [same]) inRevision
  · cases more with
    | nil => exact (List.cons.inj same').2
    | cons c more =>
        obtain ⟨rfl, -⟩ := List.cons.inj same'
        exact absurd (by simp [same]) inBase

/-- Text without a mark ends in front of the first one. -/
theorem prefix_of_notMem {α : Type} {mark : α} {front behind text rest : List α}
    (unmarked : mark ∉ front) (same : front ++ behind = text ++ mark :: rest) :
    ∃ more, text = front ++ more ∧ behind = more ++ mark :: rest := by
  rcases List.append_eq_append_iff.mp same with ⟨more, rfl, rest⟩ | ⟨more, rfl, rest'⟩
  · exact ⟨more, rfl, rest⟩
  · cases more with
    | nil => exact ⟨[], by simp, by simpa using rest'.symm⟩
    | cons c more =>
        obtain ⟨rfl, -⟩ := List.cons.inj rest'
        simp at unmarked

variable {names : List String}

theorem isHeader_header (name : String) (version : Numbering) (rest : List Char) :
    IsHeader (name.toList ++ '-' :: (version.chars ++ " description:".toList ++ rest)) name
      version.chars rest :=
  ⟨rfl, version.digit_chars, version.plain_chars⟩

/-- No name that begins like the one of a header, and goes on behind it, has a header there. -/
theorem not_isHeader_of_longer (plain : PlainNames names) {name other : String}
    (asked : other ∈ names) (version : Numbering) (rest : List Char)
    (longer : name.toList.length < other.toList.length) (version' rest' : List Char) :
    ¬IsHeader (name.toList ++ '-' :: (version.chars ++ " description:".toList ++ rest)) other
      version' rest' := by
  rintro ⟨same, digit, -⟩
  have leads : name.toList <+: other.toList :=
    List.prefix_of_prefix_length_le ⟨_, rfl⟩ ⟨_, same.symm⟩ (Nat.le_of_lt longer)
  obtain ⟨more, split⟩ := leads
  -- The longer name goes on with a dash and a part of the version.
  rw [← split, List.append_assoc name.toList more] at same
  have shared := List.append_cancel_left same
  cases more with
  | nil => simp [← split] at longer
  | cons c more =>
      obtain ⟨rfl, onward⟩ := List.cons.inj shared
      have blank : ' ' ∉ more := fun blank =>
        (plain other asked ' ' (by simp [← split, blank])).1 rfl
      have ended : more ++ '-' :: (version' ++ " description:".toList ++ rest') =
          version.chars ++ ' ' :: ("description:".toList ++ rest) :=
        onward.symm.trans (List.append_assoc ..)
      obtain ⟨back, parted, behind⟩ := prefix_of_notMem blank ended
      -- What is left of the version begins with the dash of the revision.
      cases back with
      | nil => cases behind
      | cons d back =>
          obtain ⟨rfl, remains⟩ := List.cons.inj behind
          rw [version.letter_behind_dash parted] at remains
          cases version' with
          | nil => cases digit
          | cons e version' =>
              obtain ⟨rfl, -⟩ := List.cons.inj remains
              have letter : Text.isDecimalDigit 'r' = false := by decide
              cases letter.symm.trans digit

theorem heads_header (plain : PlainNames names) {name : String} (asked : name ∈ names)
    (version : Numbering) (rest : List Char) :
    Heads names (name.toList ++ '-' :: (version.chars ++ " description:".toList ++ rest)) name
      version.chars rest := by
  refine ⟨asked, isHeader_header name version rest, fun other member version' rest' header => ?_⟩
  refine Nat.not_lt.mp fun longer => ?_
  exact not_isHeader_of_longer plain member version rest longer version' rest' header

/-- A header ends in the line in which it begins. -/
theorem IsHeader.inLine (plain : PlainNames names) {name : String} (asked : name ∈ names)
    {text rest version behind : List Char}
    (header : IsHeader (text ++ '\n' :: rest) name version behind) :
    ∃ behind, IsHeader text name version behind := by
  obtain ⟨same, digit, word⟩ := header
  have unmarked : '\n' ∉ name.toList ++ '-' :: (version ++ " description:".toList) := by
    simp only [List.mem_append, List.mem_cons, not_or]
    exact ⟨fun feed => (plain name asked _ feed).2 rfl, by decide,
      fun feed => (word _ feed).2 rfl, by decide⟩
  have ended : (name.toList ++ '-' :: (version ++ " description:".toList)) ++ behind =
      text ++ '\n' :: rest := by
    rw [same]
    simp
  obtain ⟨more, rfl, -⟩ := prefix_of_notMem unmarked ended
  exact ⟨more, by simp, digit, word⟩

theorem Line.not_heads (plain : PlainNames names) {text : List Char}
    (other : ∀ name ∈ names, ∀ version rest, ¬IsHeader text name version rest)
    (rest : List Char) (name : String) (version behind : List Char) :
    ¬Heads names (text ++ '\n' :: rest) name version behind := by
  rintro ⟨asked, header, -⟩
  obtain ⟨behind, header⟩ := header.inLine plain asked
  exact other name asked version behind header

/-! All lines. -/

/-- What is left of a line is passed. -/
theorem scans_line {text : List Char} (inLine : '\n' ∉ text) {rest : List Char}
    {found : List (String × String)} (later : Scans names true rest found) :
    Scans names false (text ++ '\n' :: rest) found := by
  induction text with
  | nil => exact .pass nofun later
  | cons c text ih =>
      obtain ⟨first, others⟩ := not_or.mp (mt List.mem_cons.mpr inLine)
      refine .pass nofun ?_
      rw [beq_false_of_ne (Ne.symm first)]
      exact ih others

theorem scans_last {text : List Char} (inLine : '\n' ∉ text) : Scans names false text [] := by
  induction text with
  | nil => exact .done false
  | cons c text ih =>
      obtain ⟨first, others⟩ := not_or.mp (mt List.mem_cons.mpr inLine)
      refine .pass nofun ?_
      rw [beq_false_of_ne (Ne.symm first)]
      exact ih others

namespace Line

/-- A line that is free is passed, whatever is read of it after its first character. -/
theorem scans_free {text : List Char} {found : List (String × String)}
    (none : ∀ name version behind, ¬Heads names text name version behind)
    (later : Scans names false text found) : Scans names true text found := by
  cases later with
  | done => exact .done true
  | pass _ later => exact .pass (fun _ => none) later

/-- The first line is read, and the lines below it by themselves. -/
theorem scans_cons (plain : PlainNames names) (line : Line names) {rest : List Char}
    {found : List (String × String)} (later : Scans names true rest found) :
    Scans names true (line.chars ++ '\n' :: rest) (line.headed?.toList ++ found) := by
  cases line with
  | header name asked version behind inLine =>
      have heads := heads_header plain asked version (behind ++ '\n' :: rest)
      refine cast (congrArg (Scans names true · _) ?_)
        (Scans.header heads (scans_line inLine later))
      simp [chars]
  | free text inLine other =>
      exact scans_free (not_heads plain other rest) (scans_line inLine later)

theorem scans_single (plain : PlainNames names) (line : Line names) :
    Scans names true line.chars line.headed?.toList := by
  cases line with
  | header name asked version behind inLine =>
      exact .header (heads_header plain asked version behind) (scans_last inLine)
  | free text inLine other =>
      refine scans_free (fun name version behind heads => ?_) (scans_last inLine)
      exact other name heads.1 version behind heads.2.1

/-- The headers that are read are those that were written. -/
theorem scans_printed (plain : PlainNames names) (lines : List (Line names)) :
    Scans names true (printed lines) (lines.filterMap headed?) := by
  induction lines with
  | nil => exact .done true
  | cons line rest ih =>
      have told : (line :: rest).filterMap headed? =
          line.headed?.toList ++ rest.filterMap headed? := by
        cases line <;> rfl
      rw [told]
      cases rest with
      | nil => exact (List.append_nil _).symm ▸ scans_single plain line
      | cons next rest => exact scans_cons plain line ih

end Line

/-- Each name has the version of its own last header, and all other entries stay as they were. -/
theorem describes_each (plain : PlainNames names) (lines : List (Line names))
    (pinned : Names String) :
    let out := String.ofList (Line.printed lines)
    let described := addDescribed (.ofNames pinned) names out
    (∀ name, described.get? name = (Line.lastVersion? lines name).or (pinned.find? name)) ∧
      ∀ name, name ∉ names → described.get? name = pinned.find? name := by
  intro out described
  have found : headed names out = lines.filterMap Line.headed? := by
    rw [headed, String.toList_ofList]
    exact scans_iff.mp (Line.scans_printed plain lines)
  have each (name : String) : described.get? name =
      (Line.lastVersion? lines name).or (pinned.find? name) := by
    rw [Line.lastVersion?, ← found]
    exact VersionMap.get?_foldl_overwrite (headed names out) rfl name
  refine ⟨each, fun name other => ?_⟩
  rw [each, Line.lastVersion?_of_notMem lines other, Option.none_or]

/-- Names that go on where others end, and a version that is the end of another name. -/
theorem describes_each_extended :
    let names := ["p", "p-2", "p-2-dev", "p-dev"]
    ∃ lines : List (Line names),
      let out := "p-2-r0 description:\nutility\n\np-2-2-r1 description:\np-2-dev-2-r1 description:\n"
      let described := addDescribed (.ofList [("git", "2.22.0-r0")]) names out
      PlainNames names ∧ String.ofList (Line.printed lines) = out ∧
        described.get? "p" = some "2-r0" ∧ described.get? "p-2" = some "2-r1" ∧
        described.get? "p-2-dev" = some "2-r1" ∧ described.get? "p-dev" = none ∧
        described.get? "git" = some "2.22.0-r0" := by
  intro names
  let first : Numbering := ⟨['2'], ['0'], by decide, by simp⟩
  let second : Numbering := ⟨['2'], ['1'], by decide, by simp⟩
  have unled {text : List Char} (unled : ∀ name ∈ names, ¬name.toList <+: text) :
      ∀ name ∈ names, ∀ version rest, ¬IsHeader text name version rest :=
    fun name member version rest header => unled name member header.name_prefix
  let free (text : List Char) (inLine : '\n' ∉ text)
      (other : ∀ name ∈ names, ¬name.toList <+: text) : Line names :=
    .free text inLine (unled other)
  let lines : List (Line names) :=
    [.header "p" (by decide) first [] (by decide),
      free "utility".toList (by decide) (by decide),
      free [] (by decide) (by decide),
      .header "p-2" (by decide) second [] (by decide),
      .header "p-2-dev" (by decide) second [] (by decide),
      free [] (by decide) (by decide)]
  have plain : PlainNames names := by
    have each : (names.all fun name => name.toList.all fun c => c != ' ' && c != '\n') = true := by
      decide
    intro name member c inside
    simpa using List.all_eq_true.mp (List.all_eq_true.mp each name member) c inside
  have told := (describes_each plain lines (Names.ofList [("git", "2.22.0-r0")])).1
  refine ⟨lines, plain, rfl, ?_⟩
  exact ⟨told "p", told "p-2", told "p-2-dev", told "p-dev", told "git"⟩

end ImageLock.Apk
