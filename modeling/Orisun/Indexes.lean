import Mathlib.Data.List.Basic

/-!
# Index definitions

What a caller asks an index of a boundary to be, and what is recorded of it.
-/

namespace Orisun

structure BoundaryIndexField where
  jsonKey : String
  valueType : String
  deriving DecidableEq, Repr

structure BoundaryIndexCondition where
  key : String
  operator : String
  value : String
  deriving DecidableEq, Repr

structure IndexDefinition where
  fields : List BoundaryIndexField
  conditions : List BoundaryIndexCondition
  combinator : String
  deriving DecidableEq, Repr

def indexCombinatorAND : String := "AND"

def indexCombinatorOR : String := "OR"

/-- `AND` where no combinator is given. -/
def defaultCombinator (combinator : String) : String :=
  if combinator = "" then indexCombinatorAND else combinator

def validOps : List String := ["=", ">", "<", ">=", "<="]

def validCombinators : List String := [indexCombinatorAND, indexCombinatorOR]

/-- `strings.ReplaceAll`, of one character that is written twice. -/
def doubled (quote : Char) (s : String) : String :=
  String.ofList (s.toList.flatMap fun c => if c = quote then [c, c] else [c])

/-- `strings.Join`. -/
def join (sep : String) : List String → String
  | [] => ""
  | [s] => s
  | s :: t :: ss => s ++ sep ++ join sep (t :: ss)

end Orisun
