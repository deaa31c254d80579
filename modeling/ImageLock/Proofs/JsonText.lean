/-
The text of a JSON value determines the value. A value ends where its text says so, in
front of whatever follows it.
-/
import ImageLock.Document.Json
import ImageLock.Proofs.NumberText

namespace ImageLock.Json

open Number (isNumberChar)

/-! Texts in quotes. -/

/-- A hexadecimal digit, lower case. -/
def hexValue (c : Char) : Nat := if c ≤ '9' then c.toNat - 0x30 else c.toNat - 0x57

/-- What stands first inside quotes, and what comes after it. -/
def unescape : List Char → Option (Char × List Char)
  | [] => none
  | '\\' :: 'n' :: rest => some ('\n', rest)
  | '\\' :: 'r' :: rest => some ('\r', rest)
  | '\\' :: 't' :: rest => some ('\t', rest)
  | '\\' :: 'b' :: rest => some ('\x08', rest)
  | '\\' :: 'f' :: rest => some ('\x0c', rest)
  | '\\' :: 'u' :: '0' :: '0' :: high :: low :: rest =>
      some (Char.ofNat (16 * hexValue high + hexValue low), rest)
  | '\\' :: c :: rest => some (c, rest)
  | c :: rest => some (c, rest)

theorem unescape_escapeChar (c : Char) (rest : List Char) :
    unescape (escapeChar c ++ rest) = some (c, rest) := by
  have controls : ∀ n < 0x20, Char.ofNat (16 * hexValue (Text.hexDigit (n / 16 % 16)) +
      hexValue (Text.hexDigit (n % 16))) = Char.ofNat n := by decide
  unfold escapeChar
  split
  all_goals try rfl
  next _ backslash _ _ _ _ _ =>
    split
    next control =>
      have same := controls c.toNat control
      rw [Char.ofNat_toNat] at same
      simp [hexByte, unescape, same]
    next =>
      rw [List.singleton_append]
      unfold unescape
      split <;> simp_all

theorem escapeChar_head (c : Char) :
    ∃ first rest, escapeChar c = first :: rest ∧ first ≠ '"' := by
  unfold escapeChar
  split
  all_goals try exact ⟨_, _, rfl, by decide⟩
  next quote _ _ _ _ _ _ =>
    split
    next => exact ⟨_, _, rfl, by decide⟩
    next => exact ⟨c, [], rfl, quote⟩

/-- Two texts that go on behind their closing quotes. -/
theorem escaped_cancel {front front' : List Char} {rest rest' : List Char}
    (same : front.flatMap escapeChar ++ '"' :: rest = front'.flatMap escapeChar ++ '"' :: rest') :
    front = front' ∧ rest = rest' := by
  induction front generalizing front' with
  | nil =>
      cases front' with
      | nil => exact ⟨rfl, List.cons.inj same |>.2⟩
      | cons c back =>
          obtain ⟨first, more, starts, other⟩ := escapeChar_head c
          rw [List.flatMap_cons, starts] at same
          exact absurd (List.cons.inj same).1.symm other
  | cons c front ih =>
      cases front' with
      | nil =>
          obtain ⟨first, more, starts, other⟩ := escapeChar_head c
          rw [List.flatMap_cons, starts] at same
          exact absurd (List.cons.inj same).1 other
      | cons c' front' =>
          rw [List.flatMap_cons, List.flatMap_cons, List.append_assoc, List.append_assoc] at same
          have read := congrArg unescape same
          rw [unescape_escapeChar, unescape_escapeChar] at read
          obtain ⟨rfl, later⟩ := Prod.mk.inj (Option.some.inj read)
          obtain ⟨rfl, after⟩ := ih later
          exact ⟨rfl, after⟩

theorem toList_stringText (s : String) :
    (stringText s).toList = '"' :: (s.toList.flatMap escapeChar ++ ['"']) := by
  simp [stringText]

theorem stringText_cancel {s s' : String} {rest rest' : List Char}
    (same : (stringText s).toList ++ rest = (stringText s').toList ++ rest') :
    s = s' ∧ rest = rest' := by
  rw [toList_stringText, toList_stringText] at same
  simp only [List.cons_append, List.append_assoc, List.nil_append] at same
  obtain ⟨texts, after⟩ := escaped_cancel (List.cons.inj same).2
  exact ⟨String.toList_inj.mp texts, after⟩

/-! Values. -/

/-- A value whose numbers are finite numbers of the format. -/
inductive Numeric : Json → Prop where
  | null : Numeric .null
  | bool (value : Bool) : Numeric (.bool value)
  | int (value : Int) : Numeric (.int value)
  | real {x : Number.Binary64} (proper : x.Proper) (finite : x.isFinite = true) :
      Numeric (.real x)
  | text (value : String) : Numeric (.text value)
  | list {items : List Json} (each : ∀ item ∈ items, Numeric item) : Numeric (.list items)
  | object {fields : List (String × Json)} (each : ∀ e ∈ fields, Numeric e.2) :
      Numeric (.object fields)

/-- What may follow a value inside others. -/
def EndsValue (rest : List Char) : Prop := ∀ c ∈ rest.head?, isNumberChar c = false

/-- What a value is, integers and other numbers taken together. -/
inductive Form where
  | null
  | bool
  | number
  | text
  | list
  | object
deriving DecidableEq

def form : Json → Form
  | .null => .null
  | .bool _ => .bool
  | .int _ | .real _ => .number
  | .text _ => .text
  | .list _ => .list
  | .object _ => .object

theorem number_of_form {v : Json} (number : v.form = .number) :
    (∃ i, v = .int i) ∨ ∃ x, v = .real x := by
  cases v with
  | int value => exact .inl ⟨value, rfl⟩
  | real x => exact .inr ⟨x, rfl⟩
  | _ => cases number

/-- What a value is that starts with this character. -/
def formAt? (c : Char) : Option Form :=
  if isNumberChar c then some .number
  else match c with
    | 'n' => some .null
    | 't' | 'f' => some .bool
    | '"' => some .text
    | '[' => some .list
    | '\x7b' => some .object
    | _ => none

/-- Integers and other numbers are written in characters of numbers. -/
theorem number_chars {v : Json} (numeric : Numeric v)
    (number : (∃ i, v = .int i) ∨ ∃ x, v = .real x) :
    (compact v).toList ≠ [] ∧ ∀ c ∈ (compact v).toList, isNumberChar c = true := by
  rcases number with ⟨i, rfl⟩ | ⟨x, rfl⟩
  · obtain ⟨nonempty, chars⟩ := Number.intText_chars i
    refine ⟨nonempty, fun c member => ?_⟩
    rcases chars c member with digit | rfl
    · simp [isNumberChar, digit]
    · rfl
  · cases numeric with
    | real proper finite =>
        obtain ⟨text, written⟩ := Number.documentText?_isSome finite true
        obtain ⟨⟨c, member, -⟩, chars⟩ := Number.documentText?_chars written
        rw [compact, realText, written, Option.getD_some]
        exact ⟨List.ne_nil_of_mem member, chars⟩

theorem compact_head {v : Json} (numeric : Numeric v) :
    ∃ c rest, (compact v).toList = c :: rest ∧ formAt? c = some v.form := by
  have number (known : (∃ i, v = .int i) ∨ ∃ x, v = .real x) :
      ∃ c rest, (compact v).toList = c :: rest ∧ formAt? c = some .number := by
    obtain ⟨nonempty, chars⟩ := number_chars numeric known
    obtain ⟨c, rest, starts⟩ := List.exists_cons_of_ne_nil nonempty
    exact ⟨c, rest, starts, by simp [formAt?, chars c (starts ▸ List.mem_cons_self)]⟩
  cases numeric with
  | null => exact ⟨'n', "ull".toList, rfl, rfl⟩
  | bool value => cases value <;> exact ⟨_, _, rfl, rfl⟩
  | int value => exact number (.inl ⟨value, rfl⟩)
  | real proper finite => exact number (.inr ⟨_, rfl⟩)
  | text value => exact ⟨'"', _, toList_stringText value, rfl⟩
  | list each =>
      exact ⟨'[', _, by rw [compact, String.toList_append, String.toList_append]; rfl, rfl⟩
  | object each =>
      exact ⟨'\x7b', _, by rw [compact, String.toList_append, String.toList_append]; rfl, rfl⟩

/-- A text of such characters ends where another character follows it. -/
theorem run_cancel {front front' rest rest' : List Char}
    (all : ∀ c ∈ front, isNumberChar c = true) (all' : ∀ c ∈ front', isNumberChar c = true)
    (ends : EndsValue rest) (ends' : EndsValue rest')
    (same : front ++ rest = front' ++ rest') : front = front' ∧ rest = rest' := by
  have run {front rest : List Char} (all : ∀ c ∈ front, isNumberChar c = true)
      (ends : EndsValue rest) : (front ++ rest).takeWhile isNumberChar = front := by
    rw [List.takeWhile_append_of_pos all]
    cases rest with
    | nil => simp
    | cons c rest => simp [ends c rfl]
  have fronts : front = front' := by rw [← run all ends, same, run all' ends']
  subst fronts
  exact ⟨rfl, List.append_cancel_left same⟩

/-- A value ends where its text says so. -/
def Cancels (v : Json) : Prop :=
  ∀ w rest rest', Numeric w → EndsValue rest → EndsValue rest' →
    (compact v).toList ++ rest = (compact w).toList ++ rest' → v = w ∧ rest = rest'

/-! Items and fields. -/

section

variable {α : Type} {part : α → List Char} {close : Char}

/-- Parts with commas between them. -/
def joined (part : α → List Char) : List α → List Char
  | [] => []
  | [item] => part item
  | item :: rest => part item ++ ',' :: joined part rest

/-- The parts after the first one, with their commas. -/
def further (part : α → List Char) : List α → List Char
  | [] => []
  | items => ',' :: joined part items

theorem joined_cons (item : α) (rest : List α) :
    joined part (item :: rest) = part item ++ further part rest := by
  cases rest <;> simp [joined, further]

theorem endsValue_further (plain : isNumberChar close = false) (items : List α)
    (rest : List Char) : EndsValue (further part items ++ close :: rest) := by
  cases items with
  | nil => exact fun c first => by cases first; exact plain
  | cons item items => exact fun c first => by cases first; rfl

/-- Parts that each end where their text says so, between brackets. -/
theorem joined_cancel {items items' : List α} {rest rest' : List Char}
    (plain : isNumberChar close = false) (other : close ≠ ',')
    (starts : ∀ item, item ∈ items ∨ item ∈ items' →
      ∃ c more, part item = c :: more ∧ c ≠ close)
    (each : ∀ item ∈ items, ∀ item' ∈ items', ∀ rest rest', EndsValue rest → EndsValue rest' →
      part item ++ rest = part item' ++ rest' → item = item' ∧ rest = rest')
    (same : joined part items ++ close :: rest = joined part items' ++ close :: rest') :
    items = items' ∧ rest = rest' := by
  -- Behind the first part either both lists go on, or both are closed.
  induction items generalizing items' with
  | nil =>
      cases items' with
      | nil => exact ⟨rfl, (List.cons.inj same).2⟩
      | cons item' more' =>
          obtain ⟨c, more, first, differs⟩ := starts item' (.inr List.mem_cons_self)
          rw [joined_cons, first] at same
          exact absurd (List.cons.inj same).1.symm differs
  | cons item more ih =>
      cases items' with
      | nil =>
          obtain ⟨c, more, first, differs⟩ := starts item (.inl List.mem_cons_self)
          rw [joined_cons, first] at same
          exact absurd (List.cons.inj same).1 differs
      | cons item' more' =>
          rw [joined_cons, joined_cons, List.append_assoc, List.append_assoc] at same
          obtain ⟨rfl, later⟩ := each item List.mem_cons_self item' List.mem_cons_self _ _
            (endsValue_further plain _ _) (endsValue_further plain _ _) same
          have starts' : ∀ i, i ∈ more ∨ i ∈ more' → ∃ c rest, part i = c :: rest ∧ c ≠ close :=
            fun i member => starts i
              (member.imp (List.mem_cons_of_mem _) (List.mem_cons_of_mem _))
          have each' := fun i member i' member' =>
            each i (List.mem_cons_of_mem _ member) i' (List.mem_cons_of_mem _ member')
          have tails : joined part more ++ close :: rest = joined part more' ++ close :: rest' := by
            clear ih each each' starts starts' same
            cases more with
            | nil =>
                cases more' with
                | nil => exact later
                | cons => exact absurd (List.cons.inj later).1 other
            | cons =>
                cases more' with
                | nil => exact absurd (List.cons.inj later).1.symm other
                | cons => exact (List.cons.inj later).2
          obtain ⟨rfl, after⟩ := ih starts' each' tails
          exact ⟨rfl, after⟩

end

/-- The text of a field. -/
def fieldText (e : String × Json) : List Char :=
  (stringText e.1).toList ++ ':' :: (compact e.2).toList

theorem toList_compactItems (items : List Json) :
    (compactItems items).toList = joined (fun v => (compact v).toList) items := by
  induction items with
  | nil => rfl
  | cons item rest ih => cases rest <;> simp_all [compactItems, joined]

theorem toList_compactFields (fields : List (String × Json)) :
    (compactFields fields).toList = joined fieldText fields := by
  induction fields with
  | nil => rfl
  | cons e rest ih => cases rest <;> simp_all [compactFields, joined, fieldText]

theorem toList_compact_list (items : List Json) (rest : List Char) :
    (compact (.list items)).toList ++ rest =
      '[' :: (joined (fun v => (compact v).toList) items ++ ']' :: rest) := by
  simp [compact, toList_compactItems]

theorem toList_compact_object (fields : List (String × Json)) (rest : List Char) :
    (compact (.object fields)).toList ++ rest =
      '\x7b' :: (joined fieldText fields ++ '\x7d' :: rest) := by
  simp [compact, toList_compactFields]

/-- Two values that start with the same character have the same form. -/
theorem form_eq {v w : Json} (numeric : Numeric v) (numeric' : Numeric w)
    {rest rest' : List Char}
    (same : (compact v).toList ++ rest = (compact w).toList ++ rest') : v.form = w.form := by
  obtain ⟨c, more, starts, formed⟩ := compact_head numeric
  obtain ⟨c', more', starts', formed'⟩ := compact_head numeric'
  rw [starts, starts'] at same
  rw [(List.cons.inj same).1] at formed
  exact Option.some.inj (formed.symm.trans formed')

/-- Numbers with the same text, whatever follows them. -/
theorem number_cancel {v w : Json} (numeric : Numeric v) (numeric' : Numeric w)
    (number : (∃ i, v = .int i) ∨ ∃ x, v = .real x)
    (number' : (∃ i, w = .int i) ∨ ∃ x, w = .real x) {rest rest' : List Char}
    (ends : EndsValue rest) (ends' : EndsValue rest')
    (same : (compact v).toList ++ rest = (compact w).toList ++ rest') :
    v = w ∧ rest = rest' := by
  obtain ⟨texts, after⟩ := run_cancel (number_chars numeric number).2
    (number_chars numeric' number').2 ends ends' same
  refine ⟨?_, after⟩
  have equal := String.toList_inj.mp texts
  have apart {i : Int} {x : Number.Binary64} (finite : x.isFinite = true) :
      Number.intText i ≠ realText x := by
    intro same
    obtain ⟨text, written⟩ := Number.documentText?_isSome finite true
    obtain ⟨⟨c, member, mark⟩, -⟩ := Number.documentText?_chars written
    rw [realText, written, Option.getD_some] at same
    rw [← same] at member
    rcases (Number.intText_chars i).2 c member with digit | rfl
    · rcases mark with rfl | rfl <;> cases digit
    · rcases mark with mark | mark <;> cases mark
  rcases number with ⟨i, rfl⟩ | ⟨x, rfl⟩
  · rcases number' with ⟨j, rfl⟩ | ⟨y, rfl⟩
    · rw [Number.intText_injective equal]
    · cases numeric' with
      | real proper finite => exact absurd equal (apart finite)
  · cases numeric with
    | real proper finite =>
        rcases number' with ⟨j, rfl⟩ | ⟨y, rfl⟩
        · exact absurd equal.symm (apart finite)
        · cases numeric' with
          | real proper' finite' =>
              obtain ⟨text, written⟩ := Number.documentText?_isSome finite true
              obtain ⟨text', written'⟩ := Number.documentText?_isSome finite' true
              simp only [compact, realText, written, written', Option.getD_some] at equal
              rw [Number.documentText?_injective proper proper' written (equal ▸ written')]

theorem list_cancels {items : List Json} (each : ∀ item ∈ items, Numeric item)
    (cancel : ∀ item ∈ items, Cancels item) : Cancels (.list items) := by
  intro w rest rest' numeric' ends ends' same
  have forms := form_eq (.list each) numeric' same
  cases numeric' with
  | @list items' each' =>
      rw [toList_compact_list, toList_compact_list] at same
      have starts (item : Json) (member : item ∈ items ∨ item ∈ items') :
          ∃ c more, (compact item).toList = c :: more ∧ c ≠ ']' := by
        obtain ⟨c, more, first, formed⟩ := compact_head (member.elim (each item) (each' item))
        exact ⟨c, more, first, by rintro rfl; cases formed⟩
      have cancel' (item : Json) (member : item ∈ items) (item' : Json) (member' : item' ∈ items')
          (rest rest' : List Char) := cancel item member item' rest rest' (each' item' member')
      obtain ⟨rfl, after⟩ := joined_cancel rfl (by decide) starts cancel' (List.cons.inj same).2
      exact ⟨rfl, after⟩
  | _ => cases forms

theorem object_cancels {fields : List (String × Json)} (each : ∀ e ∈ fields, Numeric e.2)
    (cancel : ∀ e ∈ fields, Cancels e.2) : Cancels (.object fields) := by
  intro w rest rest' numeric' ends ends' same
  have forms := form_eq (.object each) numeric' same
  cases numeric' with
  | @object fields' each' =>
      rw [toList_compact_object, toList_compact_object] at same
      have starts (e : String × Json) (_ : e ∈ fields ∨ e ∈ fields') :
          ∃ c more, fieldText e = c :: more ∧ c ≠ '\x7d' :=
        ⟨'"', _, by rw [fieldText, toList_stringText, List.cons_append], by decide⟩
      have cancel' (e : String × Json) (member : e ∈ fields) (e' : String × Json)
          (member' : e' ∈ fields') (rest rest' : List Char) (ends : EndsValue rest)
          (ends' : EndsValue rest') (same : fieldText e ++ rest = fieldText e' ++ rest') :
          e = e' ∧ rest = rest' := by
        rw [fieldText, fieldText, List.append_assoc, List.append_assoc] at same
        obtain ⟨names, later⟩ := stringText_cancel same
        obtain ⟨value, after⟩ := cancel e member e'.2 rest rest' (each' e' member') ends ends'
          (List.cons.inj later).2
        exact ⟨Prod.ext names value, after⟩
      obtain ⟨rfl, after⟩ := joined_cancel rfl (by decide) starts cancel' (List.cons.inj same).2
      exact ⟨rfl, after⟩
  | _ => cases forms

theorem cancels {v : Json} (numeric : Numeric v) : Cancels v := by
  induction numeric with
  | list each ih => exact list_cancels each ih
  | object each ih => exact object_cancels each ih
  | null =>
      intro w rest rest' numeric' _ _ same
      have forms := form_eq .null numeric' same
      cases numeric' with
      | null => exact ⟨rfl, List.append_cancel_left same⟩
      | _ => cases forms
  | bool value =>
      intro w rest rest' numeric' _ _ same
      have forms := form_eq (.bool value) numeric' same
      cases numeric' with
      | bool value' =>
          cases value <;> cases value'
          · exact ⟨rfl, List.append_cancel_left same⟩
          · cases (List.cons.inj same).1
          · cases (List.cons.inj same).1
          · exact ⟨rfl, List.append_cancel_left same⟩
      | _ => cases forms
  | int value =>
      intro w rest rest' numeric' ends ends' same
      exact number_cancel (.int value) numeric' (.inl ⟨value, rfl⟩)
        (number_of_form (form_eq (.int value) numeric' same).symm) ends ends' same
  | real proper finite =>
      intro w rest rest' numeric' ends ends' same
      exact number_cancel (.real proper finite) numeric' (.inr ⟨_, rfl⟩)
        (number_of_form (form_eq (.real proper finite) numeric' same).symm) ends ends' same
  | text value =>
      intro w rest rest' numeric' _ _ same
      have forms := form_eq (.text value) numeric' same
      cases numeric' with
      | text value' =>
          obtain ⟨rfl, after⟩ := stringText_cancel same
          exact ⟨rfl, after⟩
      | _ => cases forms

/-- Different values have different texts. -/
theorem compact_injective {v w : Json} (numeric : Numeric v) (numeric' : Numeric w)
    (same : compact v = compact w) : v = w := by
  have nothing : EndsValue [] := fun c first => by cases first
  exact (cancels numeric w [] [] numeric' nothing nothing (by rw [same])).1

end ImageLock.Json
