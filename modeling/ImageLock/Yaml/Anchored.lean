/-
The nodes of a document with its aliases resolved to slots. A slot is taken
by the anchor that fills it last, wherever that stands, so an alias can refer
to a later node and to a node around it.
-/
import ImageLock.Yaml.Tree

namespace ImageLock.Yaml

inductive Anchored where
  | alias (slot : Nat)
  | scalar (tag : Option TagText) (text : String) (plain : Bool)
  | sequence (tag : Option TagText) (items : List Anchored)
  | mapping (tag : Option TagText) (fields : List (Anchored × Anchored))
deriving Repr, Inhabited

namespace Anchored

mutual
/-- How many nodes and ends of collections a document has. -/
def weight : Anchored → Nat
  | .alias _ | .scalar .. => 1
  | .sequence _ items => 2 + itemsWeight items
  | .mapping _ fields => 2 + fieldsWeight fields

def itemsWeight : List Anchored → Nat
  | [] => 0
  | item :: rest => item.weight + itemsWeight rest

def fieldsWeight : List (Anchored × Anchored) → Nat
  | [] => 0
  | (key, value) :: rest => key.weight + value.weight + fieldsWeight rest
end

end Anchored

/-- The anchors met so far: their names with the slots they have, and the
order in which slots were taken. -/
structure Anchors where
  slots : List (String × Nat)
  taken : List Nat

namespace Anchors

def none : Anchors := ⟨[], []⟩

def find? (a : Anchors) (name : String) : Option Nat :=
  (a.slots.find? fun e => e.1 == name).map (·.2)

/-- A new anchor takes the slot that counts the names known before it, also
when its own name is one of them. Returns its place in the order. -/
def add (a : Anchors) (name : String) : Nat × Anchors :=
  let slot := a.slots.length
  (a.taken.length, ⟨(name, slot) :: a.slots.filter (fun e => e.1 != name), slot :: a.taken⟩)

end Anchors

/-- Anchored nodes with their places in the order of anchors. -/
abbrev Placed := List (Nat × Anchored)

abbrev Resolving := StateT (Anchors × Placed) (Except Fault)

def place (marks : Marks) : Resolving (Option Nat) := do
  match marks.anchor with
  | none => return none
  | some name =>
      let (anchors, placed) ← get
      let (order, anchors) := anchors.add name
      set (anchors, placed)
      return some order

def keep (order : Option Nat) (node : Anchored) : Resolving Anchored := do
  match order with
  | none => return node
  | some order =>
      modify fun (anchors, placed) => (anchors, (order, node) :: placed)
      return node

mutual

def resolve : Tree → Resolving Anchored
  | .alias name => do
      match (← get).1.find? name with
      | some slot => return .alias slot
      | none => throw .unknownAnchor
  | .scalar marks text plain => do
      keep (← place marks) (.scalar marks.tag text plain)
  | .sequence marks items => do
      let order ← place marks
      keep order (.sequence marks.tag (← resolveItems items))
  | .mapping marks fields => do
      let order ← place marks
      keep order (.mapping marks.tag (← resolveFields fields))

def resolveItems : List Tree → Resolving (List Anchored)
  | [] => return []
  | item :: rest => return (← resolve item) :: (← resolveItems rest)

def resolveFields : List (Tree × Tree) → Resolving (List (Anchored × Anchored))
  | [] => return []
  | (key, value) :: rest => do
      let key ← resolve key
      let value ← resolve value
      return (key, value) :: (← resolveFields rest)

end

/-- A document, and what its slots hold. -/
structure Linked where
  root : Anchored
  slots : List (Nat × Anchored)

def link (tree : Tree) : Except Fault Linked := do
  let (root, anchors, placed) ← (resolve tree).run (Anchors.none, [])
  let orders := anchors.taken.zip (List.range anchors.taken.length).reverse
  let slots := orders.filterMap fun (slot, order) =>
    (placed.find? fun e => e.1 == order).map fun e => (slot, e.2)
  return ⟨root, slots⟩

/-- The slot's node: the newest anchor of a slot stands first in the list. -/
def Linked.follow? (doc : Linked) (slot : Nat) : Option Anchored :=
  (doc.slots.find? fun e => e.1 == slot).map (·.2)

end ImageLock.Yaml
