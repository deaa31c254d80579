/-
Documents that are printed and read again, character by character. Whether a
document reads back as itself is decided by comparing the two.
-/
import ImageLock.Update

namespace ImageLock

/-! Documents that are one and the same. -/

namespace Node

mutual
/-- Equality of documents with their order and their zeros. -/
def identical : Node → Node → Bool
  | .null, .null => true
  | .bool a, .bool b => a == b
  | .int a, .int b => a == b
  | .real a, .real b => a == b
  | .text a, .text b => a == b
  | .list a, .list b => identicalItems a b
  | .map a, .map b => identicalFields a b
  | .tagged s a, .tagged t b => s == t && identical a b
  | _, _ => false

def identicalItems : List Node → List Node → Bool
  | [], [] => true
  | a :: as, b :: bs => identical a b && identicalItems as bs
  | _, _ => false

def identicalFields : List (Node × Node) → List (Node × Node) → Bool
  | [], [] => true
  | (k, v) :: as, (k', v') :: bs => identical k k' && identical v v' && identicalFields as bs
  | _, _ => false
end

mutual
theorem eq_of_identical {a b : Node} (same : identical a b = true) : a = b := by
  cases a with
  | list items =>
      cases b <;> simp only [identical, Bool.false_eq_true] at same
      rw [eq_of_identicalItems same]
  | map fields =>
      cases b <;> simp only [identical, Bool.false_eq_true] at same
      rw [eq_of_identicalFields same]
  | tagged tag value =>
      cases b <;> simp only [identical, Bool.false_eq_true, Bool.and_eq_true, beq_iff_eq] at same
      rw [same.1, eq_of_identical same.2]
  | _ => cases b <;> simp_all [identical]

theorem eq_of_identicalItems {a b : List Node} (same : identicalItems a b = true) : a = b := by
  cases a with
  | nil => cases b <;> simp_all [identicalItems]
  | cons first rest =>
      cases b <;> simp only [identicalItems, Bool.false_eq_true, Bool.and_eq_true] at same
      rw [eq_of_identical same.1, eq_of_identicalItems same.2]

theorem eq_of_identicalFields {a b : List (Node × Node)} (same : identicalFields a b = true) :
    a = b := by
  cases a with
  | nil => cases b <;> simp_all [identicalFields]
  | cons first rest =>
      cases b <;> simp only [identicalFields, Bool.false_eq_true, Bool.and_eq_true] at same
      rw [eq_of_identicalFields same.2]
      exact congrArg (· :: _) (Prod.ext (eq_of_identical same.1.1) (eq_of_identical same.1.2))
end

end Node

/-! Texts as their characters. -/

theorem Text.ofBytes?_toUTF8 (text : String) : Text.ofBytes? text.toUTF8 = some text := by
  simp only [Text.ofBytes?, String.fromUTF8?, String.toUTF8_eq_toByteArray, text.isValidUTF8,
    dite_true]
  rfl

namespace Yaml

def allowed (text : List Char) : Except Fault (List Char) :=
  if text.all isAllowed then .ok text else .error .unreadable

/-- What a text denotes, read from its characters. -/
def parseText (text : List Char) : Except Fault Node := do
  match ← readTree (← tokens (← allowed text)) with
  | some tree => readLinked (← link tree)
  | none => return .null

/-- The characters of the document of a value. -/
def printText (value : Node) : List Char :=
  ((putNode (-1) false false value Page.blank).indentTo 0).text.reverse

theorem parse_toUTF8 (text : String) : parse text.toUTF8 = parseText text.toList := by
  have chars : characters text.toUTF8 = allowed text.toList := by
    rw [characters, Text.ofBytes?_toUTF8]
    rfl
  rw [parse, chars]
  rfl

/-- What is printed is read from the characters that were put. -/
theorem parse_print (value : Node) : parse (print value).toUTF8 = parseText (printText value) := by
  rw [parse_toUTF8, print, String.toList_ofList]
  rfl

/-- Whether a document reads back as itself. -/
def readsBack (value : Node) : Bool :=
  (parseText (printText value)).toOption.any fun answer => answer.identical value

theorem parse_print_of_readsBack {value : Node} (same : readsBack value = true) :
    parse (print value).toUTF8 = .ok value := by
  rw [parse_print]
  unfold readsBack at same
  cases answer : parseText (printText value) with
  | error fault => simp [answer, Except.toOption] at same
  | ok node =>
      have identical : node.identical value = true := by
        simpa [answer, Except.toOption] using same
      rw [Node.eq_of_identical identical]

end Yaml
end ImageLock
