import Reckoner.Value

/-! # Expression trees and their meaning

A tree has leaves of one type and, at every operation, a tag of another: the
span of a sign, or its place in a printed text.

There are two readings of a tree.  `Tree.value` computes in post-order over
values: a lost leaf absorbs what it meets, and a division of two numbers by
zero gives up with the division's tag.  `Tree.denote` is the plain rational
meaning, with the list of its divisions in post-order beside it.
`Tree.value_number` joins the two where no leaf is lost. -/
set_option autoImplicit false
namespace Reckoner

inductive Rank where
  | sum
  | product
  deriving DecidableEq, Repr

inductive Operator where
  | add | sub | mul | div
  deriving DecidableEq, Repr

namespace Operator

def symbol : Operator → Symbol
  | .add => .plus
  | .sub => .minus
  | .mul => .star
  | .div => .slash

/-- Products bind tighter than sums. -/
def rank : Operator → Rank
  | .add | .sub => .sum
  | .mul | .div => .product

def compute : Operator → Rat → Rat → Rat
  | .add, a, b => a + b
  | .sub, a, b => a - b
  | .mul, a, b => a * b
  | .div, a, b => a / b

/-- A division of two numbers by zero has no result; a lost operand has. -/
def combine (op : Operator) : Value → Value → Option Value
  | .number a, .number b => if op = .div ∧ b = 0 then none else some (.number (op.compute a b))
  | _, _ => some .lost

theorem combine_sum {op : Operator} (sum : op.rank = .sum) (a b : Value) :
    ∃ v, op.combine a b = some v := by
  have other : op ≠ .div := by
    rintro rfl
    cases sum
  cases a with
  | lost => exact ⟨.lost, rfl⟩
  | number a =>
    cases b with
    | lost => exact ⟨.lost, rfl⟩
    | number b => exact ⟨.number (op.compute a b), by simp [combine, other]⟩

end Operator

inductive Tree (Leaf Tag : Type) where
  | leaf (v : Leaf)
  | node (op : Operator) (tag : Tag) (left right : Tree Leaf Tag)
  deriving DecidableEq, Repr

namespace Tree

section Reading
variable {Leaf Leaf' Tag Tag' : Type}

def map (f : Leaf → Leaf') (g : Tag → Tag') : Tree Leaf Tag → Tree Leaf' Tag'
  | .leaf v => .leaf (f v)
  | .node op tag left right => .node op (g tag) (left.map f g) (right.map f g)

/-- Left to right, operands before their operation. -/
def value : Tree Value Tag → Except Tag Value
  | .leaf v => .ok v
  | .node op tag left right =>
    match left.value with
    | .error t => .error t
    | .ok a =>
      match right.value with
      | .error t => .error t
      | .ok b =>
        match op.combine a b with
        | none => .error tag
        | some v => .ok v

def denote (number : Leaf → Rat) : Tree Leaf Tag → Rat
  | .leaf v => number v
  | .node op _ left right => op.compute (left.denote number) (right.denote number)

/-- The divisions in post-order, each as its tag and the meaning of its divisor. -/
def divisions (number : Leaf → Rat) : Tree Leaf Tag → List (Tag × Rat)
  | .leaf _ => []
  | .node op tag left right =>
    left.divisions number ++ right.divisions number ++
      if op = .div then [(tag, right.denote number)] else []

/-- The first division by zero, if there is one. -/
def fault (number : Leaf → Rat) (t : Tree Leaf Tag) : Option (Tag × Rat) :=
  (t.divisions number).find? fun d => d.2 = 0

theorem denote_map (number : Leaf' → Rat) (f : Leaf → Leaf') (g : Tag → Tag')
    (t : Tree Leaf Tag) : (t.map f g).denote number = t.denote (number ∘ f) := by
  induction t with
  | leaf v => rfl
  | node op tag left right leftDenotes rightDenotes =>
    simp only [map, denote, leftDenotes, rightDenotes]

theorem divisions_map (number : Leaf' → Rat) (f : Leaf → Leaf') (g : Tag → Tag')
    (t : Tree Leaf Tag) : (t.map f g).divisions number =
      (t.divisions (number ∘ f)).map fun d => (g d.1, d.2) := by
  induction t with
  | leaf v => rfl
  | node op tag left right leftDivisions rightDivisions =>
    simp only [map, divisions, leftDivisions, rightDivisions, denote_map, List.map_append]
    split <;> rfl

theorem fault_map (number : Leaf' → Rat) (f : Leaf → Leaf') (g : Tag → Tag')
    (t : Tree Leaf Tag) : (t.map f g).fault number =
      (t.fault (number ∘ f)).map fun d => (g d.1, d.2) := by
  simp only [fault, divisions_map, List.find?_map, Function.comp_def]

theorem fault_eq_none {number : Leaf → Rat} {t : Tree Leaf Tag} :
    t.fault number = none ↔ ∀ d ∈ t.divisions number, d.2 ≠ 0 := by
  simp [fault, List.find?_eq_none]

theorem fault_node (number : Leaf → Rat) (op : Operator) (tag : Tag) (left right : Tree Leaf Tag) :
    (node op tag left right).fault number =
      ((left.fault number).or (right.fault number)).or
        (if op = .div ∧ right.denote number = 0 then some (tag, right.denote number)
          else none) := by
  simp only [fault, divisions, List.find?_append]
  by_cases division : op = .div <;> by_cases zero : right.denote number = 0 <;>
    simp [division, zero]

/-- Where no leaf is lost, evaluation meets the first division by zero or
gives the meaning. -/
theorem value_number (number : Leaf → Rat) (t : Tree Leaf Tag) :
    (t.map (fun v => Value.number (number v)) id).value =
      match t.fault number with
      | none => .ok (.number (t.denote number))
      | some d => .error d.1 := by
  induction t with
  | leaf v => rfl
  | node op tag left right leftValue rightValue =>
    simp only [map, value, leftValue, rightValue, fault_node]
    cases leftFault : left.fault number with
    | some d => rfl
    | none =>
      cases rightFault : right.fault number with
      | some d => rfl
      | none =>
        by_cases zero : op = .div ∧ right.denote number = 0
        · simp [Operator.combine, zero]
        · simp [Operator.combine, zero, denote]

end Reading
end Tree
end Reckoner
