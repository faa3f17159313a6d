import PackageScript.Text.Escaped

set_option autoImplicit false

/-! # Shell patterns for one name

A pattern holds plain characters, `?` for one byte, `*` for any run of bytes, sets such as
`[a-z]` or `[!0-9]`, groups of alternatives between braces, and a backslash in front of a
character that stands for itself. Matching looks at the UTF-8 bytes of a name: `?` and a set
take one byte, so a set that names a character of several bytes takes any one of them. A slash
is matched by a plain `/` only.

The file holds the patterns, their reader in two stages (characters to marks, marks to a
pattern), the faults of a pattern text, and the matcher.
-/

namespace PackageScript

/-- A pattern over bytes. -/
inductive Glob where
  /-- Matches the empty text. -/
  | empty
  /-- Matches given bytes. -/
  | plain (bytes : List UInt8)
  /-- Matches one byte other than a slash. -/
  | any
  /-- Matches any run of bytes without a slash. -/
  | star
  /-- Matches one byte inside the ranges, or outside all of them if `negated`. -/
  | set (negated : Bool) (ranges : List (UInt8 × UInt8))
  /-- Matches a slash and everything after it. -/
  | subtree
  /-- Matches one after the other. -/
  | seq (first second : Glob)
  /-- Matches one or the other. -/
  | or (left right : Glob)
deriving Inhabited

/-- Why a text is no pattern. -/
inductive GlobFault where
  | unclosedSet
  | emptyRange (low high : Char)
  | unopenedGroup
  | unclosedGroup
  | danglingEscape
deriving DecidableEq

def GlobFault.message : GlobFault → String
  | .unclosedSet => "unclosed character class; missing ']'"
  | .emptyRange low high =>
      "invalid range; '" ++ low.toString ++ "' > '" ++ high.toString ++ "'"
  | .unopenedGroup =>
      "unopened alternate group; missing '\x7b' (maybe escape '\x7d' with '[\x7d]'?)"
  | .unclosedGroup =>
      "unclosed alternate group; missing '\x7d' (maybe escape '\x7b' with '[\x7b]'?)"
  | .danglingEscape => "dangling '\\'"

namespace Glob

/-! ## Marks -/

/-- The units of a pattern text. -/
inductive Mark where
  | char (c : Char)
  | escaped (c : Char)
  | any
  | star
  | set (negated : Bool) (ranges : List (Char × Char))
  | openGroup
  | closeGroup
  | comma
deriving DecidableEq

/-- What the reader of marks has seen of the mark at hand. -/
inductive Scan where
  /-- Between marks. -/
  | between
  /-- After a backslash. -/
  | escape
  /-- After the opening bracket of a set. -/
  | setStart
  /-- Inside a set: its ranges so far, the last one first, and whether the last character was a
  dash that opens a range. -/
  | inSet (negated : Bool) (ranges : List (Char × Char)) (dash : Bool)

/-- The last range stretched up to a character. -/
def stretch (ranges : List (Char × Char)) (c : Char) : Except GlobFault (List (Char × Char)) :=
  match ranges with
  | (low, _) :: rest => if c < low then .error (.emptyRange low c) else .ok ((low, c) :: rest)
  | [] => .ok [(c, c)]

/-- The ranges of a finished set. A dash at its end stands for itself. -/
def closeSet (ranges : List (Char × Char)) (dash : Bool) : List (Char × Char) :=
  (if dash then ('-', '-') :: ranges else ranges).reverse

/-- One character of a set: a finished set, or the ranges so far. A closing bracket or a dash
that comes first stands for itself. -/
def setStep (ranges : List (Char × Char)) (dash : Bool) (c : Char) :
    Except GlobFault (List (Char × Char) ⊕ (List (Char × Char) × Bool)) :=
  if c = ']' ∧ ranges ≠ [] then .ok (.inl (closeSet ranges dash))
  else if c = '-' ∧ ranges ≠ [] ∧ dash = false then .ok (.inr (ranges, true))
  else if dash then (stretch ranges c).map fun rs => .inr (rs, false)
  else .ok (.inr ((c, c) :: ranges, false))

/-- The mark of a character that stands between marks. -/
def plainMark : Char → Mark
  | '?' => .any
  | '*' => .star
  | '\x7b' => .openGroup
  | '\x7d' => .closeGroup
  | ',' => .comma
  | c => .char c

/-- The marks of a text, and the fault that ends them if there is one. -/
def marks : Scan → List Char → List Mark × Option GlobFault
  | .between, [] => ([], none)
  | .escape, [] => ([], some .danglingEscape)
  | .setStart, [] => ([], some .unclosedSet)
  | .inSet _ _ _, [] => ([], some .unclosedSet)
  | .between, c :: cs =>
      if c = '[' then marks .setStart cs
      else if c = '\\' then marks .escape cs
      else
        let (ms, fault) := marks .between cs
        (plainMark c :: ms, fault)
  | .escape, c :: cs =>
      let (ms, fault) := marks .between cs
      (.escaped c :: ms, fault)
  | .setStart, c :: cs =>
      if c = '!' ∨ c = '^' then marks (.inSet true [] false) cs
      else marks (.inSet false [(c, c)] false) cs
  | .inSet negated ranges dash, c :: cs =>
      match setStep ranges dash c with
      | .error fault => ([], some fault)
      | .ok (.inl done) =>
          let (ms, fault) := marks .between cs
          (.set negated done :: ms, fault)
      | .ok (.inr (ranges, dash)) => marks (.inSet negated ranges dash) cs

/-! ## From marks to a pattern -/

def bytesOf (c : Char) : List UInt8 := c.toString.toUTF8.toList

/-- The bytes of a range of characters: all bytes of both ends, and those between the last byte
of the one and the first byte of the other. -/
def byteRanges : Char × Char → List (UInt8 × UInt8)
  | (low, high) =>
      if low = high then (bytesOf low).map fun b => (b, b)
      else
        let lows := bytesOf low
        let highs := bytesOf high
        lows.dropLast.map (fun b => (b, b)) ++ [(lows.getLastD 0, highs.headD 0)]
          ++ highs.tail.map fun b => (b, b)

def isEmpty : Glob → Bool
  | .empty => true
  | _ => false

def inOrder (gs : List Glob) : Glob :=
  (gs.filter fun g => !g.isEmpty).foldr (fun g rest => if rest.isEmpty then g else .seq g rest)
    .empty

/-- Alternatives. Those made of nothing do not count. -/
def oneOf (gs : List Glob) : Glob :=
  match gs.filter fun g => !g.isEmpty with
  | [] => .empty
  | g :: rest => rest.foldl .or g

/-- A group that is still open, or the pattern as a whole: the alternatives that are complete
and the parts of the one at hand, the last one first. -/
structure Group where
  done : List Glob
  parts : List Glob

def addPart (g : Glob) : List Group → List Group
  | [] => []
  | group :: outer => { group with parts := g :: group.parts } :: outer

/-- The pattern of the marks, given the open groups, the innermost first. A double star reads
as a star, except for a double star that follows an escaped comma or brace and ends an
alternative: it takes that character with it. -/
def assemble : List Group → List Mark → Except GlobFault (List Group)
  | groups, [] => .ok groups
  | groups, .char c :: ms => assemble (addPart (.plain (bytesOf c)) groups) ms
  | groups, .escaped c :: ms =>
      match ms with
      | .star :: .star :: rest =>
          if (c = ',' ∨ c = '\x7b') ∧ groups.length ≥ 2
              ∧ (rest.head? = some .comma ∨ rest.head? = some .closeGroup) then
            assemble (addPart .subtree groups) rest
          else assemble (addPart .star (addPart (.plain (bytesOf c)) groups)) rest
      | ms => assemble (addPart (.plain (bytesOf c)) groups) ms
  | groups, .any :: ms => assemble (addPart .any groups) ms
  | groups, .star :: ms => assemble (addPart .star groups) ms
  | groups, .set negated ranges :: ms =>
      assemble (addPart (.set negated (ranges.flatMap byteRanges)) groups) ms
  | groups, .openGroup :: ms => assemble (⟨[], []⟩ :: groups) ms
  | groups, .closeGroup :: ms =>
      match groups with
      | inner :: outer :: rest =>
          assemble
            (addPart (oneOf (inner.done ++ [inOrder inner.parts.reverse])) (outer :: rest)) ms
      | _ => .error .unopenedGroup
  | groups, .comma :: ms =>
      match groups with
      | inner :: outer :: rest =>
          assemble (⟨inner.done ++ [inOrder inner.parts.reverse], []⟩ :: outer :: rest) ms
      | groups => assemble (addPart (.plain (bytesOf ',')) groups) ms

/-- The pattern that a text stands for. -/
def ofText (text : String) : Except GlobFault Glob :=
  let (ms, fault) := marks .between text.toList
  match assemble [⟨[], []⟩] ms with
  | .error e => .error e
  | .ok groups =>
      match fault, groups with
      | some e, _ => .error e
      | none, [whole] => .ok (inOrder whole.parts.reverse)
      | none, _ => .error .unclosedGroup

/-! ## Matching -/

def slash : UInt8 := 47

/-- What may be left after a run of bytes without a slash. -/
def afterStar : List UInt8 → List (List UInt8)
  | [] => [[]]
  | b :: bs => (b :: bs) :: (if b = slash then [] else afterStar bs)

/-- What may be left of some bytes after a match at their start. -/
def rests : Glob → List UInt8 → List (List UInt8)
  | .empty, s => [s]
  | .plain bytes, s => if bytes.isPrefixOf s then [s.drop bytes.length] else []
  | .any, s =>
      match s with
      | b :: bs => if b = slash then [] else [bs]
      | [] => []
  | .star, s => afterStar s
  | .set negated ranges, s =>
      match s with
      | b :: bs =>
          if (ranges.any fun (low, high) => low ≤ b && b ≤ high) != negated then [bs] else []
      | [] => []
  | .subtree, s =>
      match s with
      | b :: _ => if b = slash then [[]] else []
      | [] => []
  | .seq first second, s => ((first.rests s).flatMap fun r => second.rests r).eraseDups
  | .or left right, s => (left.rests s ++ right.rests s).eraseDups

def matches? (g : Glob) (name : String) : Bool := (g.rests name.toUTF8.toList).contains []

/-- The test on names that a pattern text stands for. -/
def matcher (text : String) : Except GlobFault (String → Bool) :=
  match ofText text with
  | .ok g => .ok g.matches?
  | .error e => .error e

end Glob

end PackageScript
