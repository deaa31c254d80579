/-
Stanzas of an index.

An index is written as stanzas of fields, with blank lines between them. What is read of a stanza
are its fields `Package` and `Version`, whatever fields are around them, and only a stanza that
has both counts. So a name has the version of the first stanza of that package.
-/
import ImageLock.Packages.Index
import ImageLock.Proofs.Names
import ImageLock.Proofs.Pieces
import ImageLock.Proofs.ToolOutput

namespace ImageLock

namespace PackageIndex

/-! What is written. -/

/-- A field: its name, the text behind the colon, and the indented lines that go on with it. -/
structure Field where
  name : List Char
  value : List Char
  continuation : List (List Char)
  nameInLine : ':' ∉ name ∧ '\n' ∉ name
  valueInLine : '\n' ∉ value
  indented : ∀ line ∈ continuation, line.head? = some ' ' ∧ '\n' ∉ line

namespace Field

def lines (f : Field) : List (List Char) := (f.name ++ ':' :: f.value) :: f.continuation

def trimmed (f : Field) : String := String.ofList (Text.trimChars f.value)

def isNamed (name : String) (f : Field) : Bool := f.name == name.toList

end Field

/-- Fields, among them at most one `Package` and at most one `Version`. -/
structure Stanza where
  fields : List Field
  filled : fields ≠ []
  once : ∀ name ∈ ["Package", "Version"], fields.countP (Field.isNamed name) ≤ 1

namespace Stanza

def lines (s : Stanza) : List (List Char) := s.fields.flatMap Field.lines

def text (s : Stanza) : List Char := Text.joinLines s.lines

def value? (s : Stanza) (name : String) : Option String :=
  (s.fields.find? (Field.isNamed name)).map Field.trimmed

/-- The version of a package, if the stanza is of that package and has a version. -/
def versionOf? (s : Stanza) (package : String) : Option String :=
  if s.value? "Package" = some package then s.value? "Version" else none

end Stanza

/-- A text with blank lines between stanzas, and perhaps more of them in front and behind. -/
inductive Lists : List Stanza → List Char → Prop where
  | nothing : Lists [] []
  | blank {stanzas : List Stanza} {text : List Char} (lists : Lists stanzas text) :
      Lists stanzas ('\n' :: text)
  | last (s : Stanza) {ends : List Char} (atEnd : ends = [] ∨ ends = ['\n']) :
      Lists [s] (s.text ++ ends)
  | next (s : Stanza) {stanzas : List Stanza} {text : List Char} (lists : Lists stanzas text) :
      Lists (s :: stanzas) (s.text ++ '\n' :: '\n' :: text)

/-- The version in the first stanza of a package that has one. -/
def firstVersion? (stanzas : List Stanza) (package : String) : Option String :=
  stanzas.findSome? fun s => s.versionOf? package

/-! What a line tells. -/

/-- The text behind a lead that a line begins with. -/
def tell? (lead : String) (line : List Char) : Option String :=
  (Text.dropLeading lead.toList line).map fun value => String.ofList (Text.trimChars value)

theorem tell?_of_unled {lead : String} {line : List Char} (unled : ¬lead.toList <+: line) :
    tell? lead line = none := by
  rw [tell?, Text.dropLeading_eq_none.mpr unled]
  rfl

/-- A carriage return at the end of a line makes no difference. -/
theorem tell?_dropCarriageReturn {lead : String} (plain : '\r' ∉ lead.toList) (line : List Char) :
    tell? lead (Text.dropCarriageReturn line) = tell? lead line := by
  rcases Text.dropCarriageReturn_cases line with same | ended
  · rw [same]
  · generalize Text.dropCarriageReturn line = front at ended
    subst ended
    cases leads : Text.dropLeading lead.toList front with
    | some value =>
        have longer : Text.dropLeading lead.toList (front ++ ['\r']) = some (value ++ ['\r']) := by
          rw [Text.dropLeading_eq_some] at leads ⊢
          rw [leads, List.append_assoc]
        rw [tell?, tell?, leads, longer, Option.map_some, Option.map_some,
          Text.trimChars_concat (by decide)]
    | none =>
        have short := Text.dropLeading_eq_none.mp leads
        rw [tell?_of_unled short]
        refine (tell?_of_unled fun longer => ?_).symm
        rcases List.prefix_concat_iff.mp longer with whole | within
        · exact plain (by simp [whole])
        · exact short within

/-- What is known after one more line. -/
def readLine (told : Option String × Option String) (line : List Char) :
    Option String × Option String :=
  ((tell? "Package:" line).or told.1, (tell? "Version:" line).or told.2)

theorem readLines_eq_foldl (lines : List (List Char)) :
    readLines lines = lines.foldl readLine (none, none) := by
  refine congrArg (fun read => lines.foldl read (none, none))
    (funext fun told => funext fun line => ?_)
  unfold readLine tell?
  cases package : Text.dropLeading "Package:".toList line with
  | none => cases Text.dropLeading "Version:".toList line <;> rfl
  | some value =>
      have other : Text.dropLeading "Version:".toList line = none := by
        rw [Text.dropLeading_eq_some.mp package]
        rfl
      rw [other]
      rfl

/-- A later line takes the place of an earlier one. -/
theorem getLast?_filterMap_cons (lead : String) (line : List Char) (rest : List (List Char))
    (told : Option String) : ((line :: rest).filterMap (tell? lead)).getLast?.or told =
      ((rest.filterMap (tell? lead)).getLast?.or ((tell? lead line).or told)) := by
  cases here : tell? lead line with
  | none => rw [List.filterMap_cons_none here, Option.none_or]
  | some value =>
      rw [List.filterMap_cons_some here, List.getLast?_cons]
      cases (rest.filterMap (tell? lead)).getLast? <;> rfl

theorem foldl_readLine (lines : List (List Char)) (told : Option String × Option String) :
    lines.foldl readLine told = ((lines.filterMap (tell? "Package:")).getLast?.or told.1,
      (lines.filterMap (tell? "Version:")).getLast?.or told.2) := by
  induction lines generalizing told with
  | nil => rfl
  | cons line rest ih =>
      rw [List.foldl_cons, ih, getLast?_filterMap_cons, getLast?_filterMap_cons]
      rfl

theorem readLines_eq (lines : List (List Char)) :
    readLines lines = ((lines.filterMap (tell? "Package:")).getLast?,
      (lines.filterMap (tell? "Version:")).getLast?) := by
  rw [readLines_eq_foldl, foldl_readLine, Option.or_none, Option.or_none]

/-! What a stanza tells. -/

theorem told_names : ∀ name ∈ ["Package", "Version"],
    ':' ∉ name.toList ∧ name.toList ≠ [] ∧ name.toList.head? ≠ some ' ' := by
  decide

theorem tell?_first {name : String} (plain : ':' ∉ name.toList) (f : Field) :
    tell? (name ++ ":") (f.name ++ ':' :: f.value) =
      if f.isNamed name then some f.trimmed else none := by
  have lead : (name ++ ":").toList = name.toList ++ [':'] := String.toList_append
  by_cases same : f.name = name.toList
  · have named : f.isNamed name = true := by simp [Field.isNamed, same]
    have behind : Text.dropLeading (name ++ ":").toList (f.name ++ ':' :: f.value) =
        some f.value := by
      rw [Text.dropLeading_eq_some, lead, same]
      simp
    rw [tell?, behind, named]
    rfl
  · have other : f.isNamed name = false := by simp [Field.isNamed, same]
    have unled : ¬(name ++ ":").toList <+: f.name ++ ':' :: f.value := by
      rintro ⟨rest, split⟩
      -- Both names end at the first colon.
      have cut := congrArg (Text.cutAt ':') split
      rw [lead, List.append_assoc, List.singleton_append, Text.cutAt_append plain,
        Text.cutAt_append f.nameInLine.1] at cut
      exact same (Prod.mk.inj (Option.some.inj cut)).1.symm
    rw [tell?_of_unled unled, other]
    rfl

/-- Among the lines of a field only the first can tell something, and only for its own name. -/
theorem filterMap_tell?_field {name : String} (known : name ∈ ["Package", "Version"]) (f : Field) :
    f.lines.filterMap (tell? (name ++ ":")) = if f.isNamed name then [f.trimmed] else [] := by
  obtain ⟨plain, any, visible⟩ := told_names name known
  have indented : ∀ line ∈ f.continuation, tell? (name ++ ":") line = none := by
    intro line member
    have blank := (f.indented line member).1
    apply tell?_of_unled
    rintro ⟨rest, rfl⟩
    obtain ⟨c, back, same⟩ := List.exists_cons_of_ne_nil any
    simp_all
  rw [Field.lines, List.filterMap_cons, tell?_first plain, List.filterMap_eq_nil_iff.mpr indented]
  split <;> simp_all

theorem filterMap_tell?_lines {name : String} (known : name ∈ ["Package", "Version"])
    (fields : List Field) : (fields.flatMap Field.lines).filterMap (tell? (name ++ ":")) =
      (fields.filter (Field.isNamed name)).map Field.trimmed := by
  induction fields with
  | nil => rfl
  | cons f fields ih =>
      rw [List.flatMap_cons, List.filterMap_append, filterMap_tell?_field known, ih,
        List.filter_cons]
      split <;> rfl

theorem getLast?_of_length_le_one {α : Type} {as : List α} (single : as.length ≤ 1) :
    as.getLast? = as.head? := by
  match as with
  | [] => rfl
  | [a] => rfl
  | a :: b :: rest => simp at single

namespace Stanza

variable (s : Stanza)

theorem getLast?_tell? (name : String) (known : name ∈ ["Package", "Version"]) :
    (s.lines.filterMap (tell? (name ++ ":"))).getLast? = s.value? name := by
  have single : (s.fields.filter (Field.isNamed name)).length ≤ 1 := by
    rw [← List.countP_eq_length_filter]
    exact s.once name known
  rw [lines, filterMap_tell?_lines known, List.getLast?_map, getLast?_of_length_le_one single,
    List.head?_filter, value?]

/-- What the lines of a stanza tell are its package and its version. -/
theorem readLines_lines : readLines s.lines = (s.value? "Package", s.value? "Version") := by
  have package := s.getLast?_tell? "Package" (by simp)
  have version := s.getLast?_tell? "Version" (by simp)
  rw [readLines_eq, ← package, ← version]
  rfl

/-- A line that has something in it. -/
def IsLine (line : List Char) : Prop := line ≠ [] ∧ '\n' ∉ line

theorem isLine_lines : ∀ line ∈ s.lines, IsLine line := by
  intro line member
  obtain ⟨f, -, inside⟩ := List.mem_flatMap.mp member
  rcases List.mem_cons.mp inside with rfl | indented
  · refine ⟨List.append_ne_nil_of_right_ne_nil _ (List.cons_ne_nil _ _), ?_⟩
    simp [f.nameInLine.2, f.valueInLine]
  · obtain ⟨blank, inLine⟩ := f.indented line indented
    exact ⟨fun none => by simp [none] at blank, inLine⟩

theorem lines_ne_nil : s.lines ≠ [] := by
  obtain ⟨f, fields, same⟩ := List.exists_cons_of_ne_nil s.filled
  simp [lines, same, Field.lines]

end Stanza

/-! Texts of lines. -/

open Stanza (IsLine)

/-- What lines tell is not changed by the line feeds and carriage returns between them. -/
theorem filterMap_tell?_lineChars {lead : String} (plain : '\r' ∉ lead.toList)
    {lines : List (List Char)} (any : lines ≠ []) (clean : ∀ line ∈ lines, IsLine line)
    {ends : List Char} (atEnd : ends = [] ∨ ends = ['\n']) :
    (Text.lineChars (Text.joinLines lines ++ ends)).filterMap (tell? lead) =
      lines.filterMap (tell? lead) := by
  induction lines with
  | nil => exact absurd rfl any
  | cons line rest ih =>
      obtain ⟨⟨filled, inLine⟩, later⟩ := List.forall_mem_cons.mp clean
      cases rest with
      | nil =>
          have single : Text.joinLines [line] = line := rfl
          rw [single]
          rcases atEnd with rfl | rfl
          · rw [List.append_nil, Text.lineChars_of_notMem inLine, if_neg (by simpa using filled)]
          · rw [Text.lineChars_append inLine, List.filterMap_cons, List.filterMap_cons,
              tell?_dropCarriageReturn plain]
            rfl
      | cons next rest =>
          rw [Text.joinLines_cons line (List.cons_ne_nil next rest), List.append_assoc,
            List.cons_append, Text.lineChars_append inLine, List.filterMap_cons,
            List.filterMap_cons (a := line), tell?_dropCarriageReturn plain,
            ih (List.cons_ne_nil next rest) later]

theorem exists_head_joinLines {lines : List (List Char)} (any : lines ≠ [])
    (clean : ∀ line ∈ lines, IsLine line) :
    ∃ c tail, Text.joinLines lines = c :: tail ∧ '\n' ≠ c := by
  obtain ⟨line, rest, rfl⟩ := List.exists_cons_of_ne_nil any
  obtain ⟨⟨filled, inLine⟩, -⟩ := List.forall_mem_cons.mp clean
  obtain ⟨c, back, rfl⟩ := List.exists_cons_of_ne_nil filled
  have other : '\n' ≠ c := by
    rintro rfl
    exact inLine List.mem_cons_self
  by_cases single : rest = []
  · subst single
    exact ⟨c, back, rfl, other⟩
  · exact ⟨c, _, Text.joinLines_cons _ single, other⟩

/-- Lines that have something in them stay in one piece. -/
theorem splitAtText_joinLines {lines : List (List Char)} (clean : ∀ line ∈ lines, IsLine line)
    (after piece : List Char) :
    Text.splitAtText ['\n', '\n'] (Text.joinLines lines ++ after) piece 0 =
      Text.splitAtText ['\n', '\n'] after ((Text.joinLines lines).reverse ++ piece) 0 := by
  induction lines generalizing piece with
  | nil => rfl
  | cons line rest ih =>
      obtain ⟨⟨-, inLine⟩, later⟩ := List.forall_mem_cons.mp clean
      by_cases single : rest = []
      · subst single
        exact Text.splitAtText_append_of_notMem inLine after piece
      · -- The line feed between two lines is the only one there.
        obtain ⟨c, tail, joined, other⟩ := exists_head_joinLines single later
        have passed := ih later ('\n' :: (line.reverse ++ piece))
        rw [Text.joinLines_cons line single, List.append_assoc,
          Text.splitAtText_append_of_notMem inLine, List.cons_append]
        rw [joined] at passed ⊢
        rw [List.cons_append, Text.splitAtText_cons, if_neg fun pair => other pair.2,
          ← List.cons_append, passed]
        simp

/-! Reading an index. -/

namespace Stanza

variable (s : Stanza)

def pair? : Option (String × String) :=
  (s.value? "Package").bind fun name => (s.value? "Version").map fun version => (name, version)

theorem pair?_text {ends : List Char} (atEnd : ends = [] ∨ ends = ['\n']) :
    PackageIndex.entry? (s.text ++ ends) = s.pair? := by
  have tells (lead : String) (plain : '\r' ∉ lead.toList) :=
    filterMap_tell?_lineChars plain s.lines_ne_nil s.isLine_lines atEnd
  have same : readLines (Text.lineChars (s.text ++ ends)) = readLines s.lines := by
    rw [readLines_eq, readLines_eq, text, tells "Package:" (by decide),
      tells "Version:" (by decide)]
  unfold PackageIndex.entry?
  rw [same, readLines_lines, pair?]
  cases s.value? "Package" <;> cases s.value? "Version" <;> rfl

end Stanza

/-- What the pieces of a text tell, in order. -/
def told (text : List Char) : List (String × String) :=
  (Text.piecesBetween ['\n', '\n'] text).filterMap entry?

theorem entry?_cons_feed (text : List Char) : entry? ('\n' :: text) = entry? text := by
  have behind : Text.lineChars ('\n' :: text) = [] :: Text.lineChars text :=
    Text.lineChars_append List.not_mem_nil text
  unfold entry?
  rw [behind, readLines_eq, readLines_eq]
  rfl

/-- A blank line more makes no difference. -/
theorem told_cons_feed (text : List Char) : told ('\n' :: text) = told text := by
  induction text with
  | nil => rfl
  | cons c text ih =>
      by_cases feed : '\n' = c
      · subst feed
        have first : told ('\n' :: '\n' :: text) = told text := by
          rw [told, Text.piecesBetween, Text.splitAtText_cons, if_pos ⟨rfl, rfl⟩]
          rfl
        rw [first, ih]
      · have first : Text.piecesBetween ['\n', '\n'] ('\n' :: c :: text) =
            Text.splitAtText ['\n', '\n'] (c :: text) ['\n'] 0 := by
          rw [Text.piecesBetween, Text.splitAtText_cons, if_neg fun pair => feed pair.2]
        have alike : (Text.splitAtText ['\n', '\n'] (c :: text) ['\n'] 0).map entry? =
            (Text.splitAtText ['\n', '\n'] (c :: text) [] 0).map entry? :=
          Text.map_splitAtText_congr entry?_cons_feed (c :: text) 0
        have same := congrArg (List.filterMap id) alike
        rw [List.filterMap_map, List.filterMap_map, Function.id_comp] at same
        rw [told, first, same, told, Text.piecesBetween]

namespace Stanza

variable (s : Stanza)

theorem told_text {ends : List Char} (atEnd : ends = [] ∨ ends = ['\n']) :
    told (s.text ++ ends) = s.pair?.toList := by
  have whole : Text.piecesBetween ['\n', '\n'] (s.text ++ ends) = [s.text ++ ends] := by
    rw [Text.piecesBetween, text, splitAtText_joinLines s.isLine_lines]
    rcases atEnd with rfl | rfl <;> simp [Text.splitAtText]
  rw [told, whole, List.filterMap_cons, s.pair?_text atEnd]
  cases s.pair? <;> rfl

theorem told_text_append (rest : List Char) :
    told (s.text ++ '\n' :: '\n' :: rest) = s.pair?.toList ++ told rest := by
  have pieces : Text.piecesBetween ['\n', '\n'] (s.text ++ '\n' :: '\n' :: rest) =
      s.text :: Text.piecesBetween ['\n', '\n'] rest := by
    rw [Text.piecesBetween, text, splitAtText_joinLines s.isLine_lines, Text.splitAtText_cons,
      if_pos ⟨rfl, rfl⟩, List.append_nil, List.reverse_reverse]
    rfl
  have entry := s.pair?_text (.inl rfl)
  rw [List.append_nil] at entry
  rw [told, pieces, List.filterMap_cons, entry]
  cases s.pair? <;> rfl

end Stanza

/-- What an index tells are the entries of its stanzas. -/
theorem told_of_lists {stanzas : List Stanza} {text : List Char} (lists : Lists stanzas text) :
    told text = stanzas.filterMap Stanza.pair? := by
  induction lists with
  | nothing => rfl
  | blank lists ih => rw [told_cons_feed, ih]
  | last s atEnd =>
      rw [s.told_text atEnd, List.filterMap_cons]
      cases s.pair? <;> rfl
  | next s lists ih =>
      rw [s.told_text_append, ih, List.filterMap_cons]
      cases s.pair? <;> rfl

/-! Looking a name up. -/

theorem find?_addFirst (index : Names String) (key value name : String) :
    (addFirst index (key, value)).find? name =
      (index.find? name).or (if name = key then some value else none) := by
  unfold addFirst
  by_cases same : name = key
  · subst same
    rw [if_pos rfl, ← Names.isSome_find?]
    cases found : index.find? name with
    | none => simp [Names.find?_insert]
    | some version => simp [found]
  · rw [if_neg same, Option.or_none]
    split
    · rfl
    · rw [Names.find?_insert, if_neg (Ne.symm same)]

/-- What comes first stays. -/
theorem find?_foldl_addFirst (entries : List (String × String)) (index : Names String)
    (name : String) :
    (entries.foldl addFirst index).find? name = (index.find? name).or (entries.lookup name) := by
  induction entries generalizing index with
  | nil => simp
  | cons entry entries ih =>
      obtain ⟨key, value⟩ := entry
      rw [List.foldl_cons, ih, find?_addFirst, Option.or_assoc, List.lookup_cons]
      by_cases same : name = key
      · simp [same]
      · simp [same, beq_false_of_ne same]

theorem find?_addMissing (index other : Names String) (name : String) :
    (addMissing index other).find? name = (index.find? name).or (other.find? name) := by
  rw [addMissing, find?_foldl_addFirst, Names.find?_eq_lookup other]

theorem Stanza.lookup_pair? (s : Stanza) (name : String) :
    s.pair?.toList.lookup name = s.versionOf? name := by
  unfold Stanza.pair? Stanza.versionOf?
  cases s.value? "Package" with
  | none => rfl
  | some package =>
      by_cases same : package = name
      · subst same
        cases s.value? "Version" <;> simp
      · cases s.value? "Version" <;> simp [same, Ne.symm same]

theorem lookup_entries (stanzas : List Stanza) (name : String) :
    (stanzas.filterMap Stanza.pair?).lookup name = firstVersion? stanzas name := by
  induction stanzas with
  | nil => rfl
  | cons s stanzas ih =>
      have first : (s :: stanzas).filterMap Stanza.pair? =
          s.pair?.toList ++ stanzas.filterMap Stanza.pair? := by
        rw [List.filterMap_cons]
        cases s.pair? <;> rfl
      rw [first, List.lookup_append, s.lookup_pair?, ih, firstVersion?, firstVersion?,
        List.findSome?_cons]
      cases s.versionOf? name <;> rfl

/-- A name has the version of the first stanza of that package that has one. -/
theorem find?_parse {stanzas : List Stanza} {text : String} (lists : Lists stanzas text.toList)
    (name : String) : (parse text).find? name = firstVersion? stanzas name := by
  have entries : (paragraphs text).filterMap entry? = stanzas.filterMap Stanza.pair? :=
    told_of_lists lists
  rw [parse, entries, find?_foldl_addFirst, lookup_entries]
  rfl

end PackageIndex
end ImageLock
