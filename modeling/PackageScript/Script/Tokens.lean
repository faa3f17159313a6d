import PackageScript.Text.Blank
import PackageScript.Script.Basic

set_option autoImplicit false

/-! # Tokens of a command line

A single quote switches between text outside and text inside a quoted span. Outside, the
tokens are the runs between blanks. Inside, the whole span is one token, blanks included. An
empty span yields no token, and a last quote that is never closed opens a span up to the end.
-/

namespace PackageScript.Script

/-- The tokens of the pieces between single quotes. `inside` says whether the first piece
lies inside a quoted span. -/
def tokensOfPieces : Bool → List (List Char) → List (List Char)
  | _, [] => []
  | true, span :: rest =>
      (if span.isEmpty then [] else [span]) ++ tokensOfPieces false rest
  | false, plain :: rest => Text.words plain ++ tokensOfPieces true rest

def tokens (line : List Char) : List (List Char) :=
  tokensOfPieces false (Text.pieces (· == '\'') line)

def tokenize (line : String) : Command := (tokens line.toList).map String.ofList

theorem ne_nil_of_mem_tokensOfPieces (inside : Bool) (ps : List (List Char)) :
    ∀ t ∈ tokensOfPieces inside ps, t ≠ [] := by
  induction ps generalizing inside with
  | nil => cases inside <;> simp [tokensOfPieces]
  | cons p ps ih =>
      intro t ht
      cases inside with
      | false =>
          rcases List.mem_append.1 ht with h | h
          · have := (List.mem_filter.1 h).2
            simpa using this
          · exact ih true t h
      | true =>
          rcases List.mem_append.1 ht with h | h
          · split at h
            · simp at h
            · next hp =>
                rw [List.mem_singleton.1 h]
                simpa using hp
          · exact ih false t h

end PackageScript.Script
