import Runbook.Workflow.Basic

/-! What can be wrong with data that should describe a workflow. Every fault has the path to the place where
it was found, and reading collects them all. -/
namespace Runbook

/-- One step of a path into data. -/
inductive Step where
  | key (name : String)
  | index (i : Int)
  deriving DecidableEq, Repr

/-- What is wrong at a place. -/
inductive Cause where
  | missing
  | notText
  | notInteger
  | integerText
  | integerTooLong
  | integerFraction
  | integerInfinite
  | tooSmall (least : Nat)
  | notNumber
  | numberText
  | notFlag
  | flagText
  | notMap
  | notList
  | notModel (name : String)
  | notNode
  | noKind
  | unknownKind (shown : String)
  | notMember (names : List String)
  deriving DecidableEq, Repr

structure Fault where
  path : List Step
  cause : Cause
  deriving DecidableEq, Repr

/-- Names between quotes, with a word before the last. -/
def alternatives : List String → String
  | [] => ""
  | [a] => s!"'{a}'"
  | [a, b] => s!"'{a}' or '{b}'"
  | a :: rest => s!"'{a}', " ++ alternatives rest

/-- The short name of a cause. -/
def Cause.code : Cause → String
  | missing => "missing"
  | notText => "string_type"
  | notInteger => "int_type"
  | integerText => "int_parsing"
  | integerTooLong => "int_parsing_size"
  | integerFraction => "int_from_float"
  | integerInfinite => "finite_number"
  | tooSmall _ => "greater_than_equal"
  | notNumber => "float_type"
  | numberText => "float_parsing"
  | notFlag => "bool_type"
  | flagText => "bool_parsing"
  | notMap => "dict_type"
  | notList => "list_type"
  | notModel _ => "model_type"
  | notNode => "model_attributes_type"
  | noKind => "union_tag_not_found"
  | unknownKind _ => "union_tag_invalid"
  | notMember _ => "enum"

def Cause.message : Cause → String
  | missing => "Field required"
  | notText => "Input should be a valid string"
  | notInteger => "Input should be a valid integer"
  | integerText => "Input should be a valid integer, unable to parse string as an integer"
  | integerTooLong => "Unable to parse input string as an integer, exceeded maximum size"
  | integerFraction => "Input should be a valid integer, got a number with a fractional part"
  | integerInfinite => "Input should be a finite number"
  | tooSmall least => s!"Input should be greater than or equal to {least}"
  | notNumber => "Input should be a valid number"
  | numberText => "Input should be a valid number, unable to parse string as a number"
  | notFlag => "Input should be a valid boolean"
  | flagText => "Input should be a valid boolean, unable to interpret input"
  | notMap => "Input should be a valid dictionary"
  | notList => "Input should be a valid list"
  | notModel name => s!"Input should be a valid dictionary or instance of {name}"
  | notNode => "Input should be a valid dictionary or object to extract fields from"
  | noKind => "Unable to extract tag using discriminator 'type'"
  | unknownKind shown =>
    s!"Input tag '{shown}' found using 'type' does not match any of the expected tags: " ++
      ", ".intercalate (NodeKind.all.map fun k => s!"'{k.name}'")
  | notMember names => "Input should be " ++ alternatives names

/-- A value that was read, or every fault that was found, in the order of the fields. -/
inductive Decoded (α : Type) where
  | ok (value : α)
  | faulty (faults : List Fault)

namespace Decoded

variable {α β : Type}

def fail (cause : Cause) : Decoded α := .faulty [⟨[], cause⟩]

def map (f : α → β) : Decoded α → Decoded β
  | .ok a => .ok (f a)
  | .faulty faults => .faulty faults

/-- Reads both sides; the faults of the left one come first. -/
def both (f : Decoded (α → β)) (x : Decoded α) : Decoded β :=
  match f, x with
  | .ok f, .ok a => .ok (f a)
  | .ok _, .faulty faults => .faulty faults
  | .faulty faults, .ok _ => .faulty faults
  | .faulty faults, .faulty more => .faulty (faults ++ more)

instance : Functor Decoded where
  map := Decoded.map

instance : Seq Decoded where
  seq f x := both f (x ())

/-- What was read one step further in. -/
def within (step : Step) : Decoded α → Decoded α
  | .ok a => .ok a
  | .faulty faults => .faulty (faults.map fun f => ⟨step :: f.path, f.cause⟩)

/-- Reads a list of things, each under its index from `i` on. -/
def allFrom (i : Nat) : List (Decoded α) → Decoded (List α)
  | [] => .ok []
  | x :: rest => both ((within (.index i) x).map List.cons) (allFrom (i + 1) rest)

/-- A test on what was read. -/
def andThen (x : Decoded α) (f : α → Decoded β) : Decoded β :=
  match x with
  | .ok a => f a
  | .faulty faults => .faulty faults

end Decoded
end Runbook
