set_option autoImplicit false

/-! # Quoted text

A script quotes a text with `'` or with `"`. Reading takes one layer of matching quotes off
and leaves every other text as it is.
-/

namespace PackageScript.Text

/-- A list of characters without one layer of matching `'` or `"` quotes. -/
def unquoted (s : List Char) : List Char :=
  match s with
  | first :: rest =>
      if (first = '\'' ∨ first = '"') ∧ rest.getLast? = some first then rest.dropLast else s
  | [] => []

def unquote (s : String) : String := String.ofList (unquoted s.toList)

/-- What stands between two equal quotes is read back, whatever it is. -/
theorem unquoted_wrap (q : Char) (hq : q = '\'' ∨ q = '"') (s : List Char) :
    unquoted (q :: (s ++ [q])) = s := by
  simp [unquoted, hq]

end PackageScript.Text
