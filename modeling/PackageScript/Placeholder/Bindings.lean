set_option autoImplicit false

/-! # Sources of placeholders

A script binds up to five sources and later reads from them through placeholders. A source is
bound once: the first value stays for the rest of the invocation.
-/

namespace PackageScript

/-- The five sources that a script can bind. -/
inductive Source where
  | list
  | json
  | jsonFile
  | iniFile
  | hexFile
deriving DecidableEq, Inhabited

namespace Source

/-- The name that messages use for a source. -/
def title : Source → String
  | .list => "List"
  | .json => "Json"
  | .jsonFile => "JsonFile"
  | .iniFile => "IniFile"
  | .hexFile => "HexFile"

/-- The opening of the placeholders that read from a source. -/
def opening : Source → String
  | .list => "\x7blist("
  | .json => "\x7bjson("
  | .jsonFile => "\x7bjson_file("
  | .iniFile => "\x7bini_file("
  | .hexFile => "\x7bhex_file("

/-- The order in which the placeholders of an argument are replaced. -/
def resolutionOrder : List Source := [.hexFile, .iniFile, .list, .json, .jsonFile]

theorem mem_resolutionOrder (s : Source) : s ∈ resolutionOrder := by
  cases s <;> decide

end Source

/-- The values bound so far. -/
structure Bindings where
  list : Option String
  json : Option String
  jsonFile : Option String
  iniFile : Option String
  hexFile : Option String
deriving DecidableEq, Inhabited

namespace Bindings

def empty : Bindings := ⟨none, none, none, none, none⟩

def get (b : Bindings) : Source → Option String
  | .list => b.list
  | .json => b.json
  | .jsonFile => b.jsonFile
  | .iniFile => b.iniFile
  | .hexFile => b.hexFile

def set (b : Bindings) (value : String) : Source → Bindings
  | .list => { b with list := some value }
  | .json => { b with json := some value }
  | .jsonFile => { b with jsonFile := some value }
  | .iniFile => { b with iniFile := some value }
  | .hexFile => { b with hexFile := some value }

/-- Binds a source unless it already has a value. -/
def bind (b : Bindings) (s : Source) (value : String) : Bindings :=
  if (b.get s).isSome then b else b.set value s

theorem get_set (b : Bindings) (value : String) (s t : Source) :
    (b.set value s).get t = if t = s then some value else b.get t := by
  cases s <;> cases t <;> simp [set, get]

theorem get_bind (b : Bindings) (s t : Source) (value : String) :
    (b.bind s value).get t = if t = s ∧ b.get s = none then some value else b.get t := by
  unfold bind
  by_cases h : b.get s = none
  · simp [h, get_set]
  · have : (b.get s).isSome = true := by
      cases hb : b.get s with
      | none => exact absurd hb h
      | some _ => rfl
    simp [h, this]

@[simp] theorem get_empty (s : Source) : empty.get s = none := by cases s <;> rfl

theorem eq_of_get {a b : Bindings} (h : ∀ source : Source, a.get source = b.get source) :
    a = b := by
  have hlist := h .list
  have hjson := h .json
  have hjsonFile := h .jsonFile
  have hiniFile := h .iniFile
  have hhexFile := h .hexFile
  cases a
  cases b
  simp only [get] at hlist hjson hjsonFile hiniFile hhexFile
  rw [hlist, hjson, hjsonFile, hiniFile, hhexFile]

end Bindings

end PackageScript
