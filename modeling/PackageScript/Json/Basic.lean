import PackageScript.Decimal.Binary64
import PackageScript.Text.Numeral

set_option autoImplicit false

/-! # JSON values

A number is an integer when it is written as one and fits into 64 bits, with or without sign,
and a floating-point number otherwise. The members of an object are kept in increasing order of
their keys, and of two members with one key the later one stays.
-/

namespace PackageScript

/-- A number of a JSON document. -/
inductive JsonNumber where
  | integer (value : Int)
  | real (negative : Bool) (magnitude : Decimal.Binary64)
deriving DecidableEq

/-- A JSON document. -/
inductive Json where
  | null
  | bool (value : Bool)
  | number (value : JsonNumber)
  | string (text : String)
  | array (items : List Json)
  | object (members : List (String × Json))

namespace Json

/-- Puts a member in front of the first larger key, or in the place of an equal one. -/
def insertMember (key : String) (value : Json) : List (String × Json) → List (String × Json)
  | [] => [(key, value)]
  | (k, v) :: rest =>
      if key < k then (key, value) :: (k, v) :: rest
      else if key = k then (key, value) :: rest
      else (k, v) :: insertMember key value rest

/-- What one key leads to: a member of an object, or the item of an array whose position is
written in the key. -/
def child? : Json → String → Option Json
  | .array items, key => (Text.wordOf? key).bind fun i => items[i]?
  | .object members, key => members.lookup key
  | _, _ => none

/-- What a list of keys leads to. -/
def at? (v : Json) (keys : List String) : Option Json := keys.foldlM child? v

end Json

end PackageScript
