import Orisun.Number

/-!
# JSON texts

What the JSON library of the service accepts: any value of the grammar. A string is the list of
UTF-16 code units its characters and escapes stand for, so that a `\u0000` or half of a surrogate
pair is one, and a number is any token of the grammar, whatever its exponent.
-/

namespace Orisun

abbrev JsonNumber := { token : String // jsonNumberPattern token.toList = true }

inductive JsonText where
  | null
  | bool (b : Bool)
  | number (token : JsonNumber)
  | string (units : List UInt16)
  | array (items : List JsonText)
  | object (fields : List (List UInt16 × JsonText))

end Orisun
