set_option autoImplicit false

/-! # Searching for a text inside another

The first occurrence of a needle cuts a text in two. On it rest the number of occurrences
that do not overlap and the replacement of each of them. A needle is never empty here.
-/

namespace PackageScript.Text

def dropStart? : List Char → List Char → Option (List Char)
  | [], s => some s
  | _ :: _, [] => none
  | a :: as, c :: cs => if a = c then dropStart? as cs else none

/-- The texts before and after the first occurrence of `needle`. -/
def cutAt? (needle : List Char) : List Char → Option (List Char × List Char)
  | [] => if needle.isEmpty then some ([], []) else none
  | c :: cs =>
      match dropStart? needle (c :: cs) with
      | some after => some ([], after)
      | none => (cutAt? needle cs).map fun (before, after) => (c :: before, after)

/-- Whether `needle` occurs. -/
def occursIn (needle s : List Char) : Bool := (cutAt? needle s).isSome

/-- The number of occurrences found from left to right, each searched for after the one
before it. `skip` counts the characters that the last occurrence still covers. -/
def countFrom (needle : List Char) : Nat → List Char → Nat
  | _, [] => 0
  | skip + 1, _ :: cs => countFrom needle skip cs
  | 0, c :: cs =>
      if (dropStart? needle (c :: cs)).isSome then
        countFrom needle (needle.length - 1) cs + 1
      else countFrom needle 0 cs

/-- The number of occurrences of `needle` that do not overlap, found from left to right. -/
def count (needle s : List Char) : Nat := countFrom needle 0 s

/-- Replaces the occurrences found from left to right. `skip` counts the characters that the
last occurrence still covers. -/
def replaceFrom (needle new : List Char) : Nat → List Char → List Char
  | _, [] => []
  | skip + 1, _ :: cs => replaceFrom needle new skip cs
  | 0, c :: cs =>
      if (dropStart? needle (c :: cs)).isSome then
        new ++ replaceFrom needle new (needle.length - 1) cs
      else c :: replaceFrom needle new 0 cs

/-- Replaces every occurrence of `needle` by `new`. Inserted text is not searched again. -/
def replaceAll (needle new : String) (s : String) : String :=
  String.ofList (replaceFrom needle.toList new.toList 0 s.toList)

def contains (s needle : String) : Bool := occursIn needle.toList s.toList

def afterStart? (start s : String) : Option String :=
  (dropStart? start.toList s.toList).map String.ofList

def startsWith (s start : String) : Bool := (dropStart? start.toList s.toList).isSome

def endsWith (s : String) (c : Char) : Bool := s.toList.getLast? == some c

/-! ## First facts -/

theorem dropStart?_eq_some_iff {a s r : List Char} : dropStart? a s = some r ↔ s = a ++ r := by
  induction a generalizing s with
  | nil => simp [dropStart?, eq_comm]
  | cons x xs ih =>
      cases s with
      | nil => simp [dropStart?]
      | cons c cs =>
          by_cases h : x = c
          · simp [dropStart?, h, ih]
          · simp [dropStart?, h, Ne.symm h]

theorem eq_of_cutAt? {needle s before after : List Char}
    (h : cutAt? needle s = some (before, after)) : s = before ++ needle ++ after := by
  induction s generalizing before with
  | nil =>
      simp only [cutAt?] at h
      split at h
      · next hn => simp_all [List.isEmpty_iff]
      · simp at h
  | cons c cs ih =>
      simp only [cutAt?] at h
      split at h
      · next r hr =>
          simp only [Option.some.injEq, Prod.mk.injEq] at h
          obtain ⟨rfl, rfl⟩ := h
          simpa using dropStart?_eq_some_iff.1 hr
      · obtain ⟨⟨b, a⟩, hb, hab⟩ := Option.map_eq_some_iff.1 h
        simp only [Prod.mk.injEq] at hab
        obtain ⟨rfl, rfl⟩ := hab
        simp [ih hb]

end PackageScript.Text
