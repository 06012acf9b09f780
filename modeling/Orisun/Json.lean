import Orisun.Lib.Fields
import Orisun.Lib.Quoted

/-!
# JSON documents

The documents both backends store. An object has its fields in the order PostgreSQL's `jsonb` keeps
them, and a number is its token, so no precision is lost.
-/

namespace Orisun

inductive Json where
  | null
  | bool (b : Bool)
  | number (token : String)
  | string (s : String)
  | array (items : List Json)
  | object (fields : List (String × Json))

namespace Json

/-- `jsonb_typeof`. -/
def typeof : Json → String
  | null => "null"
  | bool _ => "boolean"
  | number _ => "number"
  | string _ => "string"
  | array _ => "array"
  | object _ => "object"

mutual

/-- The characters `jsonb` prints. -/
def chars : Json → List Char
  | null => "null".toList
  | bool true => "true".toList
  | bool false => "false".toList
  | number token => token.toList
  | string s => Quoted.quote s.toList
  | array [] => "[]".toList
  | array (j :: js) => '[' :: (j.chars ++ itemChars js)
  | object [] => "{}".toList
  | object ((k, j) :: fs) =>
    '{' :: (Quoted.quote k.toList ++ (':' :: ' ' :: (j.chars ++ fieldChars fs)))

/-- The items after an array's first, and its closing bracket. -/
def itemChars : List Json → List Char
  | [] => [']']
  | j :: js => ',' :: ' ' :: (j.chars ++ itemChars js)

/-- The fields after an object's first, and its closing brace. -/
def fieldChars : List (String × Json) → List Char
  | [] => ['}']
  | (k, j) :: fs =>
    ',' :: ' ' :: (Quoted.quote k.toList ++ (':' :: ' ' :: (j.chars ++ fieldChars fs)))

end

/-- `::TEXT`. -/
def text (j : Json) : String := String.ofList j.chars

/-- `data -> key`. -/
def get? (j : Json) (key : String) : Option Json :=
  match j with
  | object fields => fields.lookup key
  | _ => none

/-- `data ->> key`. -/
def getText? (j : Json) (key : String) : Option String :=
  match j.get? key with
  | none => none
  | some null => none
  | some (string s) => some s
  | some v => some v.text

mutual

def NumberFree : Json → Prop
  | number _ => False
  | array js => NumberFreeItems js
  | object fs => NumberFreeFields fs
  | _ => True

def NumberFreeItems : List Json → Prop
  | [] => True
  | j :: js => j.NumberFree ∧ NumberFreeItems js

def NumberFreeFields : List (String × Json) → Prop
  | [] => True
  | (_, j) :: fs => j.NumberFree ∧ NumberFreeFields fs

end

end Json

end Orisun
