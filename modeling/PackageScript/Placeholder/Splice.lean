import PackageScript.Notice
import PackageScript.Text.Search

set_option autoImplicit false

/-! # Replacing placeholders

A placeholder is an opening, a payload and a closing. The first one of a text is replaced by
what its payload leads to, then the first one of the new text, and so on until none is left, one
has no end or leads nowhere, or the text stays as it was. A value that holds placeholders itself
could keep this going, so there is a budget.
-/

namespace PackageScript.Placeholder

/-- What ends every placeholder. -/
def closing : List Char := [')', '\x7d']

/-- The smallest budget of replacements for one text. -/
def minBudget : Nat := 64

/-- What became of a text. -/
structure Splice where
  /-- The text afterwards. -/
  text : List Char
  /-- Whether the replacing ended because no placeholder was left. -/
  complete : Bool
  /-- The payloads that were looked up, in order. -/
  payloads : List String
  /-- Why a placeholder could not be replaced. -/
  fault : Option Notice

namespace Splice

/-- Puts a payload that was looked up before all others. -/
def after (payload : List Char) (s : Splice) : Splice :=
  { s with payloads := String.ofList payload :: s.payloads }

/-- Replaces placeholders within a budget. `last` is the text after the replacement before. -/
def loop (opening : List Char) (lookup : String → Option String) :
    Nat → List Char → List Char → Splice
  | 0, _, text => ⟨text, !Text.occursIn opening text, [], none⟩
  | budget + 1, last, text =>
      match Text.cutAt? opening text with
      | none => ⟨text, true, [], none⟩
      | some (before, rest) =>
          match Text.cutAt? closing rest with
          | none =>
              ⟨text, false, [],
                some (.unterminated (String.ofList opening) (String.ofList text))⟩
          | some (payload, behind) =>
              match lookup (String.ofList payload) with
              | none =>
                  ⟨text, false, [String.ofList payload],
                    some (.unresolved (String.ofList (opening ++ payload ++ closing)))⟩
              | some value =>
                  let next := before ++ value.toList ++ behind
                  if next = last then ⟨next, false, [String.ofList payload], none⟩
                  else (loop opening lookup budget next next).after payload

/-- The budget for a text grows with the placeholders that it holds. -/
def budget (opening text : List Char) : Nat := max minBudget (Text.count opening text)

/-- Replaces the placeholders of a text that have a given opening. -/
def run (opening : List Char) (lookup : String → Option String) (text : List Char) : Splice :=
  loop opening lookup (budget opening text) [] text

end Splice

end PackageScript.Placeholder
