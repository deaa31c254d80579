/-
Files that tell the system of an image.

A file is written as lines: fields with a key and a value, and lines that say nothing. Three keys are
read, each from its last field, whatever stands around it.
-/
import ImageLock.OsRelease
import ImageLock.Proofs.Pieces
import ImageLock.Proofs.ReadBack

namespace ImageLock

namespace Text

/-! Ends of texts. -/

/-- A text with other characters at both of its ends. -/
def EndsOther (p : Char → Bool) (text : List Char) : Prop :=
  (∀ c ∈ text.head?, p c = false) ∧ ∀ c ∈ text.getLast?, p c = false

theorem dropWhile_of_head? {p : Char → Bool} {text : List Char}
    (other : ∀ c ∈ text.head?, p c = false) : text.dropWhile p = text := by
  cases text with
  | nil => rfl
  | cons c rest => simp [other c rfl]

theorem dropEndWhile_of_getLast? {p : Char → Bool} {text : List Char}
    (other : ∀ c ∈ text.getLast?, p c = false) : dropEndWhile p text = text := by
  have first : ∀ c ∈ text.reverse.head?, p c = false := by simpa using other
  rw [dropEndWhile, dropWhile_of_head? first, List.reverse_reverse]

theorem EndsOther.dropBothWhile_eq {p : Char → Bool} {text : List Char}
    (ends : EndsOther p text) : dropBothWhile p text = text := by
  rw [dropBothWhile, dropWhile_of_head? ends.1, dropEndWhile_of_getLast? ends.2]

/-- One of the characters to be dropped at each end. -/
theorem EndsOther.dropBothWhile_between {p : Char → Bool} {c : Char} {text : List Char}
    (ends : EndsOther p text) (dropped : p c = true) :
    dropBothWhile p (c :: (text ++ [c])) = text := by
  have front : (c :: (text ++ [c])).dropWhile p = if text = [] then [] else text ++ [c] := by
    cases text with
    | nil => simp [dropped]
    | cons d rest => simp [dropped, ends.1 d rfl]
  rw [dropBothWhile, front]
  split
  next empty => simp [empty, dropEndWhile]
  next =>
    have behind : dropEndWhile p (text ++ [c]) = dropEndWhile p text := by
      simp [dropEndWhile, dropped]
    rw [behind, dropEndWhile_of_getLast? ends.2]

end Text

namespace OsRelease

open Text

/-! What is written. -/

/-- A key, without blanks at its ends. -/
structure Key where
  chars : List Char
  inLine : '=' ∉ chars ∧ '\n' ∉ chars
  ends : EndsOther isBlank chars

/-- A value, without blanks or quotes at its ends. -/
structure Value where
  chars : List Char
  inLine : '\n' ∉ chars
  noBlanks : EndsOther isBlank chars
  noQuotes : EndsOther (· == '"') chars

/-- A line says nothing if it has no equals sign, or if it is a comment. -/
def IsIdle (line : List Char) : Prop :=
  '=' ∉ line ∨ (line.dropWhile isBlank).head? = some '#'

inductive Line where
  | field (key : Key) (value : Value) (isQuoted : Bool)
  | idle (chars : List Char) (inLine : '\n' ∉ chars) (isIdle : IsIdle chars)

namespace Line

def valueChars (value : Value) (isQuoted : Bool) : List Char :=
  if isQuoted then '"' :: (value.chars ++ ['"']) else value.chars

def chars : Line → List Char
  | field key value isQuoted => key.chars ++ '=' :: valueChars value isQuoted
  | idle chars _ _ => chars

/-- The value of a line with that key. -/
def value? (name : String) : Line → Option String
  | field key value _ => if key.chars = name.toList then some (String.ofList value.chars) else none
  | idle .. => none

end Line

/-- Lines that end in a line feed, each with a carriage return in front of it or without one, and
perhaps a last line that does not end. -/
structure File where
  ended : List (Line × Bool)
  open? : Option Line

namespace File

def lines (file : File) : List Line := file.ended.map (·.1) ++ file.open?.toList

def ending (hasReturn : Bool) : List Char := if hasReturn then ['\r', '\n'] else ['\n']

def chars (file : File) : List Char :=
  (file.ended.flatMap fun (line, hasReturn) => line.chars ++ ending hasReturn) ++
    (file.open?.map Line.chars).getD []

/-- The value of the last line with a key. -/
def value? (file : File) (name : String) : Option String :=
  file.lines.reverse.findSome? (Line.value? name)

end File

/-! What a line tells. -/

/-- What a line tells of a key. -/
def told (name : String) (line : List Char) : Option String :=
  (cutAt '=' line).bind fun (key, value) =>
    if trimChars key = name.toList then some (unquoted (String.ofList value)) else none

theorem trim_eq_iff {key : List Char} {name : String} :
    Text.trim (String.ofList key) = name ↔ trimChars key = name.toList := by
  rw [Text.trim, String.toList_ofList, ← String.toList_inj, String.toList_ofList]

/-- Each of the three keys is looked for on its own. -/
theorem addLine_eq (os : OsRelease) (line : List Char) :
    os.addLine (String.ofList line) =
      ⟨(told "ID" line).getD os.name, (told "VERSION_CODENAME" line).getD os.versionName,
        (told "VERSION_ID" line).getD os.versionId⟩ := by
  unfold addLine told Text.cut
  rw [String.toList_ofList]
  cases cutAt '=' line with
  | none => rfl
  | some halves =>
      obtain ⟨key, value⟩ := halves
      simp only [Option.map_some, Option.bind_some, ← trim_eq_iff]
      split
      next same => simp [same]
      next same => simp [same]
      next same => simp [same]
      next notName notVersionName notVersionId =>
        rw [if_neg notName, if_neg notVersionName, if_neg notVersionId]
        rfl

theorem told_dropCarriageReturn (name : String) (line : List Char) :
    told name (dropCarriageReturn line) = told name line := by
  rcases dropCarriageReturn_cases line with same | ended
  · rw [same]
  · generalize dropCarriageReturn line = front at ended
    subst ended
    unfold told
    by_cases there : '=' ∈ front
    · obtain ⟨key, value, whole, first⟩ := List.eq_append_cons_of_mem there
      have blank : isBlank '\r' = true := by decide
      rw [whole, List.append_assoc, List.cons_append, cutAt_append first, cutAt_append first]
      simp [unquoted, trimChars_concat blank]
    · have absent : '=' ∉ front ++ ['\r'] := by simpa using there
      rw [cutAt_of_notMem there, cutAt_of_notMem absent]

/-- A text that begins with no blank keeps its first character when it is trimmed. -/
theorem head?_trimChars {text : List Char} {c : Char}
    (begins : (text.dropWhile isBlank).head? = some c) : (trimChars text).head? = some c := by
  cases behind : text.dropWhile isBlank with
  | nil => simp [behind] at begins
  | cons d rest =>
      have other : isBlank d = false := by
        have first := List.head?_dropWhile_not isBlank text
        simpa [behind] using first
      have same : d = c := by simpa [behind] using begins
      subst same
      have kept : dropEndWhile isBlank (d :: rest) = d :: dropEndWhile isBlank rest := by
        simp only [dropEndWhile, List.reverse_cons, List.dropWhile_append]
        split
        next empty => simp [other, List.isEmpty_iff.mp empty]
        next => simp
      rw [trimChars, dropBothWhile, behind, kept, List.head?_cons]

theorem told_idle {name : String} (plain : name.toList.head? ≠ some '#') {line : List Char}
    (idle : IsIdle line) : told name line = none := by
  unfold told
  by_cases there : '=' ∈ line
  · obtain ⟨key, value, whole, first⟩ := List.eq_append_cons_of_mem there
    have comment := idle.resolve_left fun absent => absent there
    -- The mark of the comment stands in front of the equals sign.
    have marked : (key.dropWhile isBlank).head? = some '#' := by
      rw [whole, List.dropWhile_append] at comment
      split at comment
      next => simp [isBlank] at comment
      next filled =>
        obtain ⟨c, rest, same⟩ := List.exists_cons_of_ne_nil (mt List.isEmpty_iff.mpr filled)
        simpa [same] using comment
    have other : trimChars key ≠ name.toList := fun same =>
      plain (by rw [← same, head?_trimChars marked])
    rw [whole, cutAt_append first]
    simp [other]
  · rw [cutAt_of_notMem there, Option.bind_none]

theorem told_line (name : String) (plain : name.toList.head? ≠ some '#') (line : Line) :
    told name line.chars = line.value? name := by
  cases line with
  | idle chars _ isIdle => exact told_idle plain isIdle
  | field key value isQuoted =>
      have key_eq : trimChars key.chars = key.chars := key.ends.dropBothWhile_eq
      have value_eq : unquoted (String.ofList (Line.valueChars value isQuoted)) =
          String.ofList value.chars := by
        cases isQuoted with
        | false =>
            have trimmed : trimChars value.chars = value.chars := value.noBlanks.dropBothWhile_eq
            simp [unquoted, Line.valueChars, trimmed, value.noQuotes.dropBothWhile_eq]
        | true =>
            have quoted : EndsOther isBlank ('"' :: (value.chars ++ ['"'])) := by
              constructor <;> simp [isBlank, List.getLast?_cons]
            have trimmed : trimChars ('"' :: (value.chars ++ ['"'])) = _ := quoted.dropBothWhile_eq
            simp [unquoted, Line.valueChars, trimmed, value.noQuotes.dropBothWhile_between]
      rw [told, Line.chars, cutAt_append key.inLine.1, Option.bind_some]
      dsimp only
      rw [key_eq, value_eq]
      rfl

/-! What a file tells. -/

/-- What is known of a system after more lines: of each key the last value, and what was known
before where no line has the key. -/
def knows (os : OsRelease) (lines : List Line) : OsRelease :=
  let last (name : String) := lines.reverse.findSome? (Line.value? name)
  ⟨(last "ID").getD os.name, (last "VERSION_CODENAME").getD os.versionName,
    (last "VERSION_ID").getD os.versionId⟩

theorem knows_cons (os : OsRelease) (line : Line) (rest : List Line) :
    knows os (line :: rest) = knows (os.addLine (String.ofList line.chars)) rest := by
  have later (name before : String) :
      ((line :: rest).reverse.findSome? (Line.value? name)).getD before =
        (rest.reverse.findSome? (Line.value? name)).getD ((line.value? name).getD before) := by
    rw [List.reverse_cons, List.findSome?_append]
    cases rest.reverse.findSome? (Line.value? name) <;> simp
  simp only [knows, later, addLine_eq, told_line "ID" (by decide),
    told_line "VERSION_CODENAME" (by decide), told_line "VERSION_ID" (by decide)]

theorem Line.inLine (line : Line) : '\n' ∉ line.chars := by
  cases line with
  | idle chars inLine _ => exact inLine
  | field key value isQuoted =>
      cases isQuoted <;> simp [Line.chars, Line.valueChars, key.inLine.2, value.inLine]

/-- A line that ends, with what follows it. -/
theorem lineChars_ending (line : Line) (hasReturn : Bool) (rest : List Char) :
    ∃ first, lineChars (line.chars ++ File.ending hasReturn ++ rest) = first :: lineChars rest ∧
      ∀ name, told name first = told name line.chars := by
  cases hasReturn with
  | false =>
      refine ⟨dropCarriageReturn line.chars, ?_, fun name => told_dropCarriageReturn name _⟩
      simpa [File.ending] using lineChars_append line.inLine rest
  | true =>
      have inLine : '\n' ∉ line.chars ++ ['\r'] := by simp [line.inLine]
      refine ⟨line.chars, ?_, fun _ => rfl⟩
      simpa [File.ending, dropCarriageReturn] using lineChars_append inLine rest

theorem foldl_lineChars (os : OsRelease) (file : File) :
    ((lineChars file.chars).map String.ofList).foldl addLine os = knows os file.lines := by
  obtain ⟨ended, open?⟩ := file
  simp only [File.chars, File.lines]
  induction ended generalizing os with
  | nil =>
      cases open? with
      | none => rfl
      | some line =>
          -- A line without characters is none, and would say nothing.
          have whole := lineChars_of_notMem line.inLine
          have read : knows os [line] = os.addLine (String.ofList line.chars) := knows_cons os line []
          by_cases empty : line.chars = []
          · have nothing : os.addLine "" = os := rfl
            rw [empty] at whole read
            simp [empty, whole, read, nothing]
          · simp [whole, empty, read]
  | cons first rest ih =>
      obtain ⟨line, hasReturn⟩ := first
      simp only [List.flatMap_cons, List.append_assoc]
      rw [← List.append_assoc line.chars]
      obtain ⟨chars, split, same⟩ := lineChars_ending line hasReturn _
      rw [split, List.map_cons, List.foldl_cons, ih, List.map_cons, List.cons_append, knows_cons,
        addLine_eq, addLine_eq, same, same, same]

/-- Each of the three keys has the value of its last line, and no value where there is no such
line. Only a system without a name is refused. -/
theorem parse?_written (file : File) :
    parse? (String.ofList file.chars).toUTF8 =
      let last (name : String) := (file.value? name).getD ""
      if last "ID" = "" then none
      else some ⟨last "ID", last "VERSION_CODENAME", last "VERSION_ID"⟩ := by
  have decoded : ofBytesLenient (String.ofList file.chars).toUTF8 = String.ofList file.chars := by
    have strictly := ofBytes?_toUTF8 (String.ofList file.chars)
    rw [ofBytes?] at strictly
    rw [ofBytesLenient, strictly]
  have read := foldl_lineChars empty file
  rw [parse?, decoded, Text.lines, String.toList_ofList, read]
  simp only [String.isEmpty_iff]
  rfl

end OsRelease
end ImageLock
