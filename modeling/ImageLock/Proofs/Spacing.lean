/-
How constraints may be spaced. Spaces behind a sign do not count, and any separators separate as
a comma does. What a constraint accepts is told by its alternatives, and what an alternative
accepts by its comparators, a tilde before two numbers among them.
-/
import ImageLock.Proofs.RangeTexts

namespace ImageLock.Constraint

open Comparator

/-! What is accepted. -/

/-- A text states a constraint that admits a version. -/
def Accepts (text : String) (v : Core) : Prop := ∃ c, parse? text = some c ∧ c.admits v = true

theorem parse?_of_unbarred {text : List Char} (unbarred : '|' ∉ text) :
    parse? (String.ofList text) = (requirement? text).map fun requirement => [requirement] := by
  have alone : alternatives (String.ofList text) = [text] := by
    have same : (String.ofList text).toList = text := String.toList_ofList
    exact (congrArg _ same).trans (Text.piecesBetween_of_notMem unbarred)
  rw [parse?_eq_mapM, alone, Requirement.mapM_cons]
  cases requirement? text <;> rfl

/-- A text without bars accepts what its only alternative admits. -/
theorem accepts_iff {text : List Char} (unbarred : '|' ∉ text) (v : Core) :
    Accepts (String.ofList text) v ↔
      ∃ requirement, requirement? text = some requirement ∧ requirement.admits v = true := by
  rw [Accepts, parse?_of_unbarred unbarred]
  simp [Option.map_eq_some_iff, admits]

/-- A constraint accepts what one of its alternatives does. -/
theorem admits_iff_accepts {text : String} {constraint : Constraint}
    (read : parse? text = some constraint) (v : Core) : constraint.admits v = true ↔
      ∃ alternative ∈ alternatives text, Accepts (String.ofList alternative) v := by
  rw [admits_iff read]
  refine exists_congr fun alternative => and_congr_right fun member => ?_
  rw [accepts_iff (barsBetween_of_parse? read alternative member)]
  simp only [admits_iff_forall]

/-! Rows of comparators. -/

/-- A comparator is written as it is. It is not signs only, and has no bar. -/
structure IsComparator (word text : List Char) : Prop where
  same : text = word
  isWord : IsWord word
  notSigns : word.all isOperatorChar = false
  unbarred : '|' ∉ word

theorem words_of_comparators {ws : List (List Char)} {text : List Char}
    (row : Row IsComparator ws text) : words text = ws := by
  have same : words text = ws.map id := row.words_eq fun word text written ws => by
    rw [written.same, tokens_word written.isWord]
    exact joinOperators_cons_of_not written.notSigns ws
  rw [same, List.map_id]

theorem Row.comparator {ws : List (List Char)} {text : List Char} (row : Row IsComparator ws text) :
    ∀ word ∈ ws, ∃ text, IsComparator word text := by
  induction row with
  | last front separates written back separates' =>
      exact List.forall_mem_singleton.mpr ⟨_, written⟩
  | cons front separates written between any separates' row ih =>
      exact List.forall_mem_cons.mpr ⟨⟨_, written⟩, ih⟩

theorem Row.unbarred {ws : List (List Char)} {text : List Char} (row : Row IsComparator ws text) :
    '|' ∉ text := by
  intro bar
  obtain ⟨word, member, bar⟩ := exists_mem_word bar rfl
  rw [words_of_comparators row] at member
  obtain ⟨text, comparator⟩ := row.comparator word member
  exact comparator.unbarred bar

/-- A row accepts what each of its comparators accepts. -/
theorem Row.admits_iff {ws : List (List Char)} {text : List Char} {constraint : Constraint}
    (row : Row IsComparator ws text) (read : parse? (String.ofList text) = some constraint)
    (v : Core) : constraint.admits v = true ↔ ∀ word ∈ ws, Accepts (String.ofList word) v := by
  rw [parse?_of_unbarred row.unbarred] at read
  obtain ⟨requirement, reads, rfl⟩ := Option.map_eq_some_iff.mp read
  have only : admits [requirement] v = requirement.admits v := Bool.or_false _
  rw [only, admits_iff_words reads, words_of_comparators row]
  refine forall₂_congr fun word member => ?_
  obtain ⟨text, comparator⟩ := row.comparator word member
  exact (accepts_iff comparator.unbarred v).symm

/-! Tildes. -/

/-- A tilde before two numbers. -/
def tilde (major minor : Nat) : List Char :=
  '~' :: (Number.natDigits major ++ '.' :: Number.natDigits minor)

theorem accepts_tilde_iff {major minor : Nat} (small : major + 1 < Version.numberBound)
    (small' : minor < Version.numberBound) (v : Core) :
    Accepts (String.ofList (tilde major minor)) v ↔ v.major = major ∧ minor ≤ v.minor := by
  let range : Range := .signed .tilde (.two (.ofNat major) (.ofNat minor))
  have readable : range.IsReadable := by
    refine ⟨?_, Digits.isPlain_ofNat small'⟩
    rw [Digits.value_ofNat]
    omega
  have reads : range.Reads v ↔ v.major = major ∧ minor ≤ v.minor := by
    simp only [range, Range.Reads, Range.Wraps, Core.lt_iff, Core.le_iff, Dotted.core,
      Dotted.tildeEnd, Dotted.major, Dotted.minor?, Dotted.patch?, Option.elim, Digits.value_ofNat]
    omega
  have writes : Row Range.Writes [range] (tilde major minor) := by
    have bare : ∀ c ∈ [], isSeparator c = true := List.forall_mem_nil _
    have written := Range.Writes.signed .tilde [] (List.forall_mem_nil _) range.version
    have row := Row.last [] bare written [] bare
    simpa [range, Range.version, tilde, Operator.sign, Dotted.chars, Dotted.major, Dotted.minor?,
      Dotted.patch?, Dotted.behindDot, Digits.ofNat] using row
  have few : ([range].map Range.size).sum ≤ Requirement.sizeLimit := Nat.le_of_ble_eq_true rfl
  have unbarred := Range.bar_notMem_of_row writes
  have accepts := Range.requirement?_admits_iff writes
    ⟨List.forall_mem_singleton.mpr readable, few⟩ v
  rw [accepts_iff unbarred, ← reads]
  rw [List.forall_mem_singleton] at accepts
  simpa only [admits_iff_forall] using accepts.symm

/-! Signs behind other characters. -/

/-- A sign stands behind a character that is none. -/
def IsStray (word : List Char) : Prop :=
  ∃ front sign back, word = front ++ sign :: back ∧ isOperatorChar sign = true ∧
    front.all isOperatorChar = false

theorem IsStray.notSigns {word : List Char} (stray : IsStray word) :
    word.all isOperatorChar = false := by
  obtain ⟨front, sign, back, rfl, -, notSigns⟩ := stray
  simp [notSigns]

theorem IsStray.notWildcard {word : List Char} (stray : IsStray word) :
    afterWildcard? word ≠ some [] := by
  obtain ⟨front, sign, back, rfl, -, notSigns⟩ := stray
  obtain _ | ⟨c, front⟩ := front
  · cases notSigns
  · intro wildcard
    unfold afterWildcard? at wildcard
    split at wildcard <;> simp_all

theorem notVersionChar_of_sign {c : Char} (sign : isOperatorChar c = true) :
    isVersionChar c = false := by
  rcases sign_cases sign with rfl | rfl | rfl | rfl | rfl | rfl <;> rfl

/-- Such a word is no comparator, which spends its signs first. -/
theorem IsStray.unread {word : List Char} (stray : IsStray word) : ofWord? word = none := by
  obtain ⟨front, sign, back, rfl, isSign, notSigns⟩ := stray
  cases read : take (front ++ sign :: back) with
  | none => rw [ofWord?, read]
  | some taken =>
      obtain ⟨comparator, rest⟩ := taken
      cases rest with
      | cons c rest => rw [ofWord?, read]
      | nil =>
          obtain ⟨signs, version, split, known, knownVersion⟩ := take_spends read
          rw [List.append_nil] at split
          rcases List.append_eq_append_iff.mp split with ⟨more, rfl, -⟩ | ⟨more, rfl, rfl⟩
          · have all : front.all isOperatorChar = true :=
              List.all_eq_true.mpr fun c member => known c (List.mem_append_left _ member)
            rw [all] at notSigns
            cases notSigns
          · have inside := knownVersion sign (by simp)
            rw [notVersionChar_of_sign isSign] at inside
            cases inside

theorem IsStray.behind {word : List Char} (stray : IsStray word) (signs : List Char) :
    IsStray (signs ++ word) := by
  obtain ⟨front, sign, back, rfl, isSign, notSigns⟩ := stray
  exact ⟨signs ++ front, sign, back, (List.append_assoc ..).symm, isSign, by simp [notSigns]⟩

/-- No number has a sign in it. -/
theorem sign_behind_dot {first minor : List Char} {major : Nat}
    (number : Version.number? first = some major)
    (stray : IsStray ('~' :: (first ++ '.' :: minor))) :
    ∃ middle sign back, minor = middle ++ sign :: back ∧ isOperatorChar sign = true := by
  obtain ⟨front, sign, back, whole, isSign, notSigns⟩ := stray
  obtain _ | ⟨c, front⟩ := front
  · cases notSigns
  · rcases List.append_eq_append_iff.mp (List.cons.inj whole).2 with
      ⟨more, -, split⟩ | ⟨more, rfl, split⟩
    · obtain _ | ⟨d, middle⟩ := more
      · obtain ⟨rfl, -⟩ := List.cons.inj split
        cases isSign
      · exact ⟨middle, sign, back, (List.cons.inj split).2, isSign⟩
    · obtain _ | ⟨d, middle⟩ := more
      · obtain ⟨rfl, -⟩ := List.cons.inj split
        cases isSign
      · obtain ⟨rfl, -⟩ := List.cons.inj split
        rcases chars_of_number? number sign (by simp) with rfl | digit
        · cases isSign
        · rw [Range.notSign_of_isNumeral (.inl digit)] at isSign
          cases isSign

/-- Spelling a tilde out keeps the signs behind its first number. -/
theorem IsStray.spelledOut {word : List Char} (stray : IsStray word) :
    ∃ part ∈ spelledOut word, IsStray part := by
  unfold Constraint.spelledOut
  split
  · next major minor pair =>
      obtain ⟨first, rfl, number⟩ := eq_of_tildePair? pair
      obtain ⟨middle, sign, back, rfl, isSign⟩ := sign_behind_dot number stray
      refine ⟨_, List.mem_cons_self, ">=".toList ++ Number.natDigits major ++ '.' :: middle, sign,
        back ++ ".0".toList, ?_, isSign, ?_⟩
      · simp [atLeast]
      · have dot : isOperatorChar '.' = false := by decide
        simp [dot]
  · exact ⟨word, List.mem_singleton.mpr rfl, stray⟩

theorem exists_stray_word {ws : List (List Char)} {token : List Char} (member : token ∈ ws)
    (stray : IsStray token) : ∃ word ∈ joinOperators ws, IsStray word := by
  induction ws with
  | nil => cases member
  | cons first ws ih =>
      rcases List.mem_cons.mp member with rfl | member
      · rw [joinOperators_cons_of_not stray.notSigns]
        exact ⟨token, List.mem_cons_self, stray⟩
      · obtain ⟨word, inside, stray⟩ := ih member
        cases signs : first.all isOperatorChar with
        | false =>
            rw [joinOperators_cons_of_not signs]
            exact ⟨word, List.mem_cons_of_mem _ inside, stray⟩
        | true =>
            obtain ⟨next, rest, same⟩ := List.exists_cons_of_ne_nil (List.ne_nil_of_mem inside)
            rw [joinOperators_cons_of_all signs same]
            rw [same] at inside
            rcases List.mem_cons.mp inside with rfl | inside
            · exact ⟨_, List.mem_cons_self, stray.behind first⟩
            · exact ⟨word, List.mem_cons_of_mem _ inside, stray⟩

/-- A constraint with such a word cannot be read. -/
theorem requirement?_of_stray {text token : List Char} (member : token ∈ tokens text)
    (stray : IsStray token) : requirement? text = none := by
  obtain ⟨word, inside, stray⟩ := exists_stray_word member stray
  obtain ⟨part, spelled, stray⟩ := stray.spelledOut
  have listed : part ∈ (words text).flatMap spelledOut :=
    List.mem_flatMap.mpr ⟨word, inside, spelled⟩
  by_contra some
  obtain ⟨requirement, read⟩ := Option.ne_none_iff_exists'.mp some
  rcases requirement?_iff.mp read with ⟨⟨only, alone, wildcard⟩, -⟩ | ⟨-, -, reads⟩
  · rw [alone, List.mem_singleton] at listed
    exact stray.notWildcard (listed ▸ wildcard)
  · obtain ⟨comparator, reads⟩ := exists_of_mapM reads part listed
    rw [stray.unread] at reads
    cases reads

/-! Spaces behind signs. -/

/-- The last word of a text, in front of which there are whole words. -/
theorem exists_last_word (text : List Char) : ∃ front word, text = front ++ word ∧
    (∀ c ∈ word, isSeparator c = false) ∧
      ∀ behind, tokens (front ++ behind) = tokens front ++ tokens behind := by
  induction text using List.reverseRecOn with
  | nil => exact ⟨[], [], rfl, List.forall_mem_nil _, fun _ => rfl⟩
  | append_singleton text c ih =>
      by_cases separates : isSeparator c = true
      · refine ⟨text ++ [c], [], (List.append_nil _).symm, List.forall_mem_nil _, fun behind => ?_⟩
        have single : ∀ d ∈ [c], isSeparator d = true := List.forall_mem_singleton.mpr separates
        rw [List.append_assoc, tokens_append (List.cons_ne_nil c []) single,
          tokens_append_separators single]
      · obtain ⟨front, word, rfl, clean, whole⟩ := ih
        have single : ∀ d ∈ [c], isSeparator d = false :=
          List.forall_mem_singleton.mpr (Bool.eq_false_iff.mpr separates)
        exact ⟨front, word ++ [c], List.append_assoc ..,
          List.forall_mem_append.mpr ⟨clean, single⟩, whole⟩

/-- The first word of a text, behind which there are whole words. -/
theorem exists_first_word (text : List Char) : ∃ word back, text = word ++ back ∧
    (∀ c ∈ word, isSeparator c = false) ∧
      ∀ front, tokens (front ++ back) = tokens front ++ tokens back := by
  induction text with
  | nil =>
      refine ⟨[], [], rfl, List.forall_mem_nil _, fun front => ?_⟩
      rw [List.append_nil]
      exact (List.append_nil _).symm
  | cons c text ih =>
      by_cases separates : isSeparator c = true
      · refine ⟨[], c :: text, rfl, List.forall_mem_nil _, fun front => ?_⟩
        have single : ∀ d ∈ [c], isSeparator d = true := List.forall_mem_singleton.mpr separates
        have apart := tokens_append (List.cons_ne_nil c []) single front text
        rw [← tokens_separators_append single text] at apart
        exact apart
      · obtain ⟨word, back, rfl, clean, whole⟩ := ih
        exact ⟨c :: word, back, rfl,
          List.forall_mem_cons.mpr ⟨Bool.eq_false_iff.mpr separates, clean⟩, whole⟩

/-- Signs are joined with what follows them, whether or not they are apart. -/
theorem joinOperators_apart {signs : List Char} (all : signs.all isOperatorChar = true)
    (word : List Char) (ws : List (List Char)) :
    joinOperators (signs :: word :: ws) = joinOperators ((signs ++ word) :: ws) := by
  cases signs' : word.all isOperatorChar with
  | false =>
      have whole : (signs ++ word).all isOperatorChar = false := by simp [signs']
      rw [joinOperators_cons_of_all all (joinOperators_cons_of_not signs' ws),
        joinOperators_cons_of_not whole]
  | true =>
      have whole : (signs ++ word).all isOperatorChar = true := by simp [all, signs']
      cases same : joinOperators ws with
      | nil =>
          have alone (word : List Char) : joinOperators (word :: ws) = [word] := by
            rw [joinOperators, same]
          rw [joinOperators_cons_of_all all (alone word), alone]
      | cons next rest =>
          rw [joinOperators_cons_of_all all (joinOperators_cons_of_all signs' same),
            joinOperators_cons_of_all whole same, List.append_assoc]

theorem joinOperators_append_congr {ws ws' : List (List Char)}
    (same : joinOperators ws = joinOperators ws') (front : List (List Char)) :
    joinOperators (front ++ ws) = joinOperators (front ++ ws') := by
  induction front with
  | nil => exact same
  | cons word front ih => simp only [List.cons_append, joinOperators, ih]

/-- Spaces behind a sign do not count. -/
theorem requirement?_space {sign : Char} (isSign : isOperatorChar sign = true) {spaces : List Char}
    (any : spaces ≠ []) (separates : ∀ c ∈ spaces, isSeparator c = true)
    (before after : List Char) : requirement? (before ++ sign :: (spaces ++ after)) =
      requirement? (before ++ sign :: after) := by
  obtain ⟨front, word, rfl, clean, whole⟩ := exists_last_word before
  obtain ⟨word', back, rfl, clean', whole'⟩ := exists_first_word after
  have isWord {behind : List Char} (cleanBehind : ∀ c ∈ behind, isSeparator c = false) :
      IsWord (word ++ sign :: behind) := by
    refine ⟨by simp, List.forall_mem_append.mpr ⟨clean, List.forall_mem_cons.mpr ⟨?_, cleanBehind⟩⟩⟩
    exact notSeparator_of_sign isSign
  have apart : tokens (front ++ word ++ sign :: (spaces ++ (word' ++ back))) =
      tokens front ++ (word ++ [sign]) :: (tokens word' ++ tokens back) := by
    have split : front ++ word ++ sign :: (spaces ++ (word' ++ back)) =
        front ++ ((word ++ [sign]) ++ (spaces ++ (word' ++ back))) := by simp
    rw [split, whole, tokens_append any separates, whole',
      tokens_word (isWord (List.forall_mem_nil _))]
    rfl
  have joined : tokens (front ++ word ++ sign :: (word' ++ back)) =
      tokens front ++ (word ++ sign :: word') :: tokens back := by
    have split : front ++ word ++ sign :: (word' ++ back) =
        front ++ ((word ++ sign :: word') ++ back) := by simp
    rw [split, whole, whole', tokens_word (isWord clean')]
    rfl
  cases signs : word.all isOperatorChar with
  | true =>
      -- The signs are joined with the word behind them, if there is one.
      have all : (word ++ [sign]).all isOperatorChar = true := by simp [signs, isSign]
      have same : words (front ++ word ++ sign :: (spaces ++ (word' ++ back))) =
          words (front ++ word ++ sign :: (word' ++ back)) := by
        rw [words_eq, words_eq, apart, joined]
        apply joinOperators_append_congr
        obtain _ | ⟨c, word'⟩ := word'
        · rfl
        · have isWord' : IsWord (c :: word') := ⟨nofun, clean'⟩
          rw [tokens_word isWord', List.singleton_append, joinOperators_apart all,
            List.append_assoc, List.singleton_append]
      rw [requirement?_eq, requirement?_eq, same]
  | false =>
      -- A sign behind another character makes both texts unreadable.
      have stray (behind : List Char) : IsStray (word ++ sign :: behind) :=
        ⟨word, sign, behind, rfl, isSign, signs⟩
      rw [requirement?_of_stray (apart ▸ List.mem_append_right _ List.mem_cons_self) (stray []),
        requirement?_of_stray (joined ▸ List.mem_append_right _ List.mem_cons_self) (stray word')]

/-! Texts. -/

/-- Parts that alternatives do not tell apart are not told apart in a constraint. -/
theorem parse?_congr {middle middle' : List Char} (any : middle ≠ []) (any' : middle' ≠ [])
    (unbarred : '|' ∉ middle) (unbarred' : '|' ∉ middle')
    (alike : ∀ front back, requirement? (front ++ (middle ++ back)) =
      requirement? (front ++ (middle' ++ back))) (before after : List Char) :
    parse? (String.ofList (before ++ (middle ++ after))) =
      parse? (String.ofList (before ++ (middle' ++ after))) := by
  have parsed (text : List Char) : parse? (String.ofList text) =
      ((Text.piecesBetween ['|', '|'] text).map requirement?).mapM id := by
    have same : (String.ofList text).toList = text := String.toList_ofList
    rw [List.mapM_map]
    exact congrArg (fun text => (Text.piecesBetween ['|', '|'] text).mapM requirement?) same
  rw [parsed, parsed, Text.map_piecesBetween_congr any any' unbarred unbarred' alike]

/-- Spaces behind a sign do not count in a constraint. -/
theorem parse?_space {sign : Char} (isSign : isOperatorChar sign = true) {spaces : List Char}
    (blank : ∀ c ∈ spaces, c = ' ') (before after : List Char) :
    parse? (String.ofList (before ++ sign :: (spaces ++ after))) =
      parse? (String.ofList (before ++ sign :: after)) := by
  obtain _ | ⟨c, spaces⟩ := spaces
  · rfl
  · have notBar : '|' ≠ sign := by
      rintro rfl
      cases isSign
    have unbarred : '|' ∉ sign :: c :: spaces := by
      intro bar
      cases blank '|' ((List.mem_cons.mp bar).resolve_left notBar)
    have separates : ∀ d ∈ c :: spaces, isSeparator d = true :=
      fun d member => blank d member ▸ rfl
    exact parse?_congr (List.cons_ne_nil _ _) (List.cons_ne_nil sign []) unbarred
      (by simpa using notBar) (requirement?_space isSign (List.cons_ne_nil c spaces) separates)
      before after

/-- Any separators stand for a comma. -/
theorem parse?_separators {seps : List Char} (any : seps ≠ [])
    (separates : ∀ c ∈ seps, isSeparator c = true) (before after : List Char) :
    parse? (String.ofList (before ++ (seps ++ after))) =
      parse? (String.ofList (before ++ ',' :: after)) := by
  have unbarred : '|' ∉ seps := fun bar => absurd (separates _ bar) (by decide)
  refine parse?_congr any (List.cons_ne_nil ',' []) unbarred (by decide) (fun front back => ?_)
    before after
  have comma : ∀ c ∈ [','], isSeparator c = true := List.all_eq_true.mp rfl
  rw [requirement?_eq, requirement?_eq, words_eq, words_eq, tokens_append any separates,
    tokens_append (List.cons_ne_nil ',' []) comma]

/-- What tildes accept, and what spaces and separators mean. A tilde before two numbers accepts
what has the first of them and not less than the second one. A constraint accepts what one of its
alternatives does, and an alternative what all its comparators do. Spaces behind a sign do not
count, and any separators stand for a comma. -/
theorem accepts_spaced :
    (∀ major minor, major + 1 < Version.numberBound → minor < Version.numberBound →
      ∀ v, Accepts (String.ofList (tilde major minor)) v ↔ v.major = major ∧ minor ≤ v.minor) ∧
    (∀ text constraint, parse? text = some constraint → ∀ v, constraint.admits v = true ↔
      ∃ alternative ∈ alternatives text, Accepts (String.ofList alternative) v) ∧
    (∀ ws text constraint, Row IsComparator ws text →
      parse? (String.ofList text) = some constraint →
        ∀ v, constraint.admits v = true ↔ ∀ word ∈ ws, Accepts (String.ofList word) v) ∧
    (∀ before sign spaces after, isOperatorChar sign = true → (∀ c ∈ spaces, c = ' ') →
      parse? (String.ofList (before ++ sign :: (spaces ++ after))) =
        parse? (String.ofList (before ++ sign :: after))) ∧
    ∀ before seps after, seps ≠ [] → (∀ c ∈ seps, isSeparator c = true) →
      parse? (String.ofList (before ++ (seps ++ after))) =
        parse? (String.ofList (before ++ ',' :: after)) := by
  refine ⟨fun major minor small small' => accepts_tilde_iff small small',
    fun text constraint read => admits_iff_accepts read,
    fun ws text constraint row read => row.admits_iff read,
    fun before sign spaces after isSign blank => parse?_space isSign blank before after,
    fun before seps after any separates => parse?_separators any separates before after⟩

/-- A tilde in a row with another comparator, where a space behind the sign does not count. -/
theorem accepts_spaced_redis :
    let row := [tilde 5 1, "<5.3".toList]
    let text := "~5.1, <5.3".toList
    Row IsComparator row text ∧ (parse? (String.ofList text)).isSome = true ∧
      (∀ constraint, parse? (String.ofList text) = some constraint →
        ∀ v, constraint.admits v = true ↔ ∀ word ∈ row, Accepts (String.ofList word) v) ∧
      parse? (String.ofList "~ 5.1, <5.3".toList) = parse? (String.ofList text) := by
  intro row text
  have isRow : Row IsComparator row text := by
    have isWord : IsWord (tilde 5 1) := ⟨nofun, forall_notSeparator (by decide +kernel)⟩
    have first : IsComparator (tilde 5 1) "~5.1".toList :=
      ⟨by decide +kernel, isWord, by decide +kernel, by decide +kernel⟩
    have second : IsComparator "<5.3".toList "<5.3".toList :=
      ⟨rfl, ⟨nofun, forall_notSeparator rfl⟩, by decide, by decide⟩
    have bare : ∀ c ∈ [], isSeparator c = true := List.forall_mem_nil _
    exact .cons [] bare first [',', ' '] (List.cons_ne_nil _ _) (List.all_eq_true.mp rfl)
      (.last [] bare second [] bare)
  obtain ⟨-, -, accepts, spaces, -⟩ := accepts_spaced
  exact ⟨isRow, by decide +kernel, fun constraint => accepts row text constraint isRow,
    spaces [] '~' [' '] "5.1, <5.3".toList rfl
      (List.forall_mem_singleton.mpr rfl)⟩

end ImageLock.Constraint
