import PackageScript.Files.Basic
import PackageScript.Host.Detached
import PackageScript.Placeholder.Resolve
import PackageScript.Proofs.Text.Search

set_option autoImplicit false

/-! # Arguments with placeholders, read in one go

An argument is a row of pieces, each a literal text or a placeholder, and `Template.filled` says
what becomes of it in one pass from left to right: a placeholder gives way to its value until one
of the same source has no value, and from there on those of that source stay as they are.

The resolver works differently. It takes one source after the other, searches the whole text for
the first placeholder that is left, and cuts the value in. The main statement,
`Context.resolve_text_of_plain`, says that both come to the same text as long as no piece and no
value holds the brace that opens a placeholder. The argument has three parts: the searches find
the pieces, the replacements for one source go through the pieces in order, and the passes for
the sources are independent of one another.
-/

namespace PackageScript.Placeholder

/-! ## Pieces -/

/-- A part of an argument. -/
inductive Piece where
  /-- A literal text. -/
  | text (t : String)
  /-- A placeholder that reads from a source. -/
  | marker (source : Source) (payload : String)
deriving DecidableEq

/-- What is looked up: the value of a payload for a source. -/
abbrev Lookup := Source → String → Option String

namespace Piece

def chars : Piece → List Char
  | .text t => t.toList
  | .marker source payload => source.opening.toList ++ (payload.toList ++ closing)

/-- A piece is a placeholder of a source. -/
def ReadsFrom (s : Source) : Piece → Prop
  | .text _ => False
  | .marker source _ => source = s

theorem eq_marker_or_not_readsFrom (q : Piece) (s : Source) :
    (∃ payload, q = .marker s payload) ∨ ¬ q.ReadsFrom s := by
  cases q with
  | text t => exact Or.inr id
  | marker source payload =>
      by_cases h : source = s
      · exact Or.inl ⟨payload, by rw [h]⟩
      · exact Or.inr h

/-- No placeholder begins inside a piece, ends early, or comes in with a value. -/
def Plain (look : Lookup) : Piece → Prop
  | .text t => '\x7b' ∉ t.toList
  | .marker source payload =>
      '\x7b' ∉ payload.toList ∧ ¬ closing <:+: payload.toList
        ∧ ∀ value ∈ look source payload, '\x7b' ∉ value.toList

instance (look : Lookup) : DecidablePred (Plain look)
  | .text t => inferInstanceAs (Decidable ('\x7b' ∉ t.toList))
  | .marker source payload => inferInstanceAs (Decidable ('\x7b' ∉ payload.toList
      ∧ ¬ closing <:+: payload.toList ∧ ∀ value ∈ look source payload, '\x7b' ∉ value.toList))

end Piece

/-- An argument as a row of pieces. -/
abbrev Template := List Piece

namespace Template

def chars (t : Template) : List Char := t.flatMap Piece.chars

/-- What becomes of a template, read once from left to right. The placeholders of a stopped
source stay as they are, and a source stops at the first of its placeholders without a value. -/
def filled (look : Lookup) : List Source → Template → List Char
  | _, [] => []
  | stopped, .text t :: rest => t.toList ++ filled look stopped rest
  | stopped, .marker source payload :: rest =>
      if source ∈ stopped then
        (Piece.marker source payload).chars ++ filled look stopped rest
      else
        match look source payload with
        | some value => value.toList ++ filled look stopped rest
        | none => (Piece.marker source payload).chars ++ filled look (source :: stopped) rest

/-- Replaces the placeholders of one source up to the first that has no value. -/
def fillSource (look : Lookup) (source : Source) : Template → Template
  | [] => []
  | .text t :: rest => .text t :: fillSource look source rest
  | .marker s payload :: rest =>
      if s = source then
        match look s payload with
        | some value => .text value :: fillSource look source rest
        | none => .marker s payload :: rest
      else .marker s payload :: fillSource look source rest

/-- Every piece of a template is plain. -/
def Plain (look : Lookup) (t : Template) : Prop := ∀ q ∈ t, q.Plain look

instance (look : Lookup) (t : Template) : Decidable (Plain look t) :=
  inferInstanceAs (Decidable (∀ q ∈ t, q.Plain look))

def markers (source : Source) : Template → Nat
  | [] => 0
  | .text _ :: rest => markers source rest
  | .marker s _ :: rest => markers source rest + if s = source then 1 else 0

theorem chars_append (a b : Template) : chars (a ++ b) = chars a ++ chars b :=
  List.flatMap_append

theorem chars_cons (q : Piece) (t : Template) : chars (q :: t) = q.chars ++ chars t := rfl

theorem chars_singleton (q : Piece) : chars [q] = q.chars := List.append_nil _

end Template

/-! ## Where openings stand -/

theorem opening_eq (s : Source) :
    ∃ word, s.opening.toList = '\x7b' :: word ∧ '\x7b' ∉ word := by
  cases s <;> exact ⟨_, rfl, by decide⟩

theorem dropStart?_opening {s other : Source} (h : other ≠ s) (x : List Char) :
    Text.dropStart? s.opening.toList (other.opening.toList ++ x) = none := by
  cases s <;> cases other <;> first | exact absurd rfl h | rfl

variable {look : Lookup} {s : Source}

theorem Piece.not_mem_payload_closing {source : Source} {payload : String}
    (h : (Piece.marker source payload).Plain look) : '\x7b' ∉ payload.toList ++ closing := by
  intro hmem
  rcases List.mem_append.1 hmem with hp | hc
  · exact h.1 hp
  · exact absurd hc (by decide)

theorem Piece.chars_marker_eq {source : Source} {payload : String}
    (h : (Piece.marker source payload).Plain look) :
    ∃ tail, (Piece.marker source payload).chars = '\x7b' :: tail ∧ '\x7b' ∉ tail := by
  obtain ⟨word, hword, hnot⟩ := opening_eq source
  refine ⟨word ++ (payload.toList ++ closing), by rw [Piece.chars, hword]; rfl, ?_⟩
  intro hmem
  rcases List.mem_append.1 hmem with hw | hend
  · exact hnot hw
  · exact Piece.not_mem_payload_closing h hend

theorem dropStart?_marker {other : Source} (h : other ≠ s) (payload : String) (x : List Char) :
    Text.dropStart? s.opening.toList ((Piece.marker other payload).chars ++ x) = none := by
  rw [Piece.chars, List.append_assoc]
  exact dropStart?_opening h _

/-- A search for the placeholders of a source passes over any other piece. -/
theorem Piece.cutAt?_append {q : Piece} (hq : q.Plain look) (hother : ¬ q.ReadsFrom s)
    (x : List Char) : Text.cutAt? s.opening.toList (q.chars ++ x)
      = (Text.cutAt? s.opening.toList x).map (Text.prepend q.chars) := by
  obtain ⟨word, hword, -⟩ := opening_eq s
  cases q with
  | text t =>
      rw [hword]
      exact Text.cutAt?_append_of_not_mem word hq x
  | marker other payload =>
      have hnone := dropStart?_marker hother payload x
      obtain ⟨tail, htail, hnot⟩ := Piece.chars_marker_eq hq
      rw [htail, List.cons_append] at hnone
      rw [htail, List.cons_append, Text.cutAt?_cons_of_none hnone, hword,
        Text.cutAt?_append_of_not_mem word hnot, Text.map_prepend_append]
      rfl

theorem Piece.countFrom_append {q : Piece} (hq : q.Plain look) (hother : ¬ q.ReadsFrom s)
    (x : List Char) : Text.countFrom s.opening.toList 0 (q.chars ++ x)
      = Text.countFrom s.opening.toList 0 x := by
  obtain ⟨word, hword, -⟩ := opening_eq s
  cases q with
  | text t =>
      rw [hword]
      exact Text.countFrom_append_of_not_mem word hq x
  | marker other payload =>
      have hnone := dropStart?_marker hother payload x
      obtain ⟨tail, htail, hnot⟩ := Piece.chars_marker_eq hq
      rw [htail, List.cons_append] at hnone
      rw [htail, List.cons_append, Text.countFrom_cons_of_none hnone, hword,
        Text.countFrom_append_of_not_mem word hnot]

namespace Template

theorem plain_cons {q : Piece} {t : Template} :
    Plain look (q :: t) ↔ q.Plain look ∧ Plain look t :=
  List.forall_mem_cons

theorem plain_append {a b : Template} :
    Plain look (a ++ b) ↔ Plain look a ∧ Plain look b :=
  List.forall_mem_append

theorem markers_cons_of_other {q : Piece} (hother : ¬ q.ReadsFrom s) (t : Template) :
    markers s (q :: t) = markers s t := by
  cases q with
  | text _ => rfl
  | marker other payload =>
      rw [markers, if_neg (show ¬ other = s from hother), Nat.add_zero]

theorem markers_marker (payload : String) (t : Template) :
    markers s (.marker s payload :: t) = markers s t + 1 := by
  rw [markers, if_pos rfl]

theorem markers_concat_of_other {q : Piece} (hother : ¬ q.ReadsFrom s) {t : Template}
    (h : markers s t = 0) : markers s (t ++ [q]) = 0 := by
  induction t with
  | nil => exact markers_cons_of_other hother []
  | cons p rest ih =>
      rcases p.eq_marker_or_not_readsFrom s with ⟨payload, rfl⟩ | hp
      · rw [markers_marker] at h
        exact absurd h (Nat.succ_ne_zero _)
      · rw [markers_cons_of_other hp] at h
        rw [List.cons_append, markers_cons_of_other hp, ih h]

theorem fillSource_cons_of_other {q : Piece} (hother : ¬ q.ReadsFrom s) (t : Template) :
    fillSource look s (q :: t) = q :: fillSource look s t := by
  cases q with
  | text _ => rfl
  | marker other payload => rw [fillSource, if_neg (show ¬ other = s from hother)]

theorem fillSource_of_markers_eq_zero {t : Template} (h : markers s t = 0) :
    fillSource look s t = t := by
  induction t with
  | nil => rfl
  | cons q rest ih =>
      rcases q.eq_marker_or_not_readsFrom s with ⟨payload, rfl⟩ | hother
      · rw [markers_marker] at h
        exact absurd h (Nat.succ_ne_zero _)
      · rw [markers_cons_of_other hother] at h
        rw [fillSource_cons_of_other hother, ih h]

theorem fillSource_of_none (h : ∀ payload, look s payload = none) (t : Template) :
    fillSource look s t = t := by
  induction t with
  | nil => rfl
  | cons q rest ih =>
      rcases q.eq_marker_or_not_readsFrom s with ⟨payload, rfl⟩ | hother
      · rw [fillSource, if_pos rfl, h payload]
      · rw [fillSource_cons_of_other hother, ih]

/-- A count finds the openings of the source's placeholders and no others. -/
theorem countFrom_chars {t : Template} (ht : Plain look t) :
    Text.countFrom s.opening.toList 0 (chars t) = markers s t := by
  induction t with
  | nil => rfl
  | cons q rest ih =>
      obtain ⟨hq, hrest⟩ := plain_cons.1 ht
      rw [chars_cons]
      rcases q.eq_marker_or_not_readsFrom s with ⟨payload, rfl⟩ | hother
      · obtain ⟨word, hword, -⟩ := opening_eq s
        have hrest' := ih hrest
        rw [hword] at hrest' ⊢
        rw [Piece.chars, hword, List.append_assoc, Text.countFrom_append,
          Text.countFrom_append_of_not_mem word (Piece.not_mem_payload_closing hq), hrest',
          markers_marker]
      · rw [Piece.countFrom_append hq hother, markers_cons_of_other hother, ih hrest]

/-- A search for the placeholders of a source passes over a template without any. -/
theorem cutAt?_chars_append {t : Template} (ht : Plain look t) (hnone : markers s t = 0)
    (x : List Char) : Text.cutAt? s.opening.toList (chars t ++ x)
      = (Text.cutAt? s.opening.toList x).map (Text.prepend (chars t)) := by
  induction t with
  | nil =>
      rw [show chars [] = [] from rfl, List.nil_append]
      cases Text.cutAt? s.opening.toList x <;> rfl
  | cons q rest ih =>
      obtain ⟨hq, hrest⟩ := plain_cons.1 ht
      rcases q.eq_marker_or_not_readsFrom s with ⟨payload, rfl⟩ | hother
      · rw [markers_marker] at hnone
        exact absurd hnone (Nat.succ_ne_zero _)
      · rw [markers_cons_of_other hother] at hnone
        rw [chars_cons, List.append_assoc, Piece.cutAt?_append hq hother, ih hrest hnone,
          Text.map_prepend_append]

theorem cutAt?_chars {t : Template} (ht : Plain look t) (hnone : markers s t = 0) :
    Text.cutAt? s.opening.toList (chars t) = none := by
  obtain ⟨word, hword, -⟩ := opening_eq s
  have hpass := cutAt?_chars_append (s := s) ht hnone []
  rw [List.append_nil] at hpass
  rw [hpass, hword]
  rfl

end Template

/-! ## The replacements for one source -/

namespace Splice

open Template

theorem loop_text_of_cutAt? {opening text : List Char} {lookup : String → Option String}
    (h : Text.cutAt? opening text = none) (budget : Nat) (last : List Char) :
    (loop opening lookup budget last text).text = text := by
  cases budget with
  | zero => rfl
  | succ budget => rw [loop, h]

/-- What one replacement does to a text whose first placeholder stands behind `done`. -/
theorem loop_text_marker {done : Template} {payload : String} (hdone : done.Plain look)
    (hnone : markers s done = 0) (hmarker : (Piece.marker s payload).Plain look)
    (budget : Nat) (last behind : List Char) :
    (loop s.opening.toList (look s) (budget + 1) last
        (chars done ++ ((Piece.marker s payload).chars ++ behind))).text
      = match look s payload with
        | none => chars done ++ ((Piece.marker s payload).chars ++ behind)
        | some value =>
            let next := chars done ++ value.toList ++ behind
            if next = last then next
            else (loop s.opening.toList (look s) budget next next).text := by
  have hopen : Text.cutAt? s.opening.toList
      (chars done ++ ((Piece.marker s payload).chars ++ behind))
        = some (chars done, payload.toList ++ (closing ++ behind)) := by
    obtain ⟨word, hword, -⟩ := opening_eq s
    rw [cutAt?_chars_append hdone hnone, Piece.chars, hword, List.append_assoc,
      Text.cutAt?_append, List.append_assoc]
    rw [Option.map_some, Text.prepend, List.append_nil]
  have hclose : Text.cutAt? closing (payload.toList ++ (closing ++ behind))
      = some (payload.toList, behind) :=
    Text.cutAt?_pair (by decide) hmarker.2.1 behind
  rw [loop, hopen]
  simp only [hclose, String.ofList_toList]
  cases look s payload with
  | none => rfl
  | some value =>
      dsimp only
      split <;> rfl

/-- A replacement takes a brace out of the text. -/
theorem count_replaced_lt {p value : String} (hvalue : '\x7b' ∉ value.toList)
    (before behind : List Char) :
    (before ++ value.toList ++ behind).count '\x7b'
      < (before ++ ((Piece.marker s p).chars ++ behind)).count '\x7b' := by
  obtain ⟨word, hword, -⟩ := opening_eq s
  have hzero : value.toList.count '\x7b' = 0 := List.count_eq_zero.2 hvalue
  simp only [Piece.chars, hword, List.cons_append, List.count_append, List.count_cons_self, hzero]
  omega

/-- A text comes back only if it is empty, and then no placeholder is left. -/
theorem markers_of_stuck {done rest : Template} {payload value : String} (hrest : rest.Plain look)
    (hvalue : '\x7b' ∉ value.toList) {last : List Char}
    (hlast : last = []
      ∨ last = chars done ++ ((Piece.marker s payload).chars ++ chars rest))
    (hstuck : chars done ++ value.toList ++ chars rest = last) : markers s rest = 0 := by
  have hempty : chars rest = [] := by
    rcases hlast with rfl | rfl
    · exact (List.append_eq_nil_iff.1 hstuck).2
    · have hlt := count_replaced_lt (s := s) (p := payload) hvalue (chars done) (chars rest)
      rw [hstuck] at hlt
      exact absurd hlt (lt_irrefl _)
  rw [← countFrom_chars hrest, hempty]
  rfl

/-- The loop goes through the pieces in order. `done` is what lies behind it, and the text after
the replacement before is either none at all or the one at hand. -/
theorem loop_text {rest : Template} (hplain : rest.Plain look) {done : Template}
    (hdone : done.Plain look) (hnone : markers s done = 0) {budget : Nat}
    (hbudget : markers s rest ≤ budget) {last : List Char}
    (hlast : last = [] ∨ last = chars (done ++ rest)) :
    (loop s.opening.toList (look s) budget last (chars (done ++ rest))).text
      = chars (done ++ fillSource look s rest) := by
  induction rest generalizing done budget last with
  | nil =>
      rw [fillSource, List.append_nil]
      exact loop_text_of_cutAt? (cutAt?_chars hdone hnone) budget last
  | cons q rest ih =>
      obtain ⟨hq, hrest⟩ := plain_cons.1 hplain
      rcases q.eq_marker_or_not_readsFrom s with ⟨payload, rfl⟩ | hother
      · rw [markers_marker] at hbudget
        obtain ⟨budget, rfl⟩ := Nat.exists_eq_succ_of_ne_zero (Nat.ne_zero_of_lt hbudget)
        rw [chars_append, chars_cons] at hlast ⊢
        rw [loop_text_marker hdone hnone hq, fillSource, if_pos rfl]
        cases hv : look s payload with
        | none => rw [chars_append, chars_cons]
        | some value =>
            have hvalue : '\x7b' ∉ value.toList := hq.2.2 value hv
            have hnext : chars done ++ value.toList ++ chars rest
                = chars (done ++ [.text value] ++ rest) := by
              rw [chars_append, chars_append, chars_singleton, Piece.chars]
            dsimp only
            split
            · -- the loop gives up on a text that comes back, with nothing left to replace
              next hstuck =>
              have hmarkers := markers_of_stuck hrest hvalue hlast hstuck
              rw [hnext, fillSource_of_markers_eq_zero hmarkers, ← List.append_cons]
            · have hother : ¬ (Piece.text value).ReadsFrom s := id
              have hdone' : Plain look (done ++ [.text value]) :=
                plain_append.2 ⟨hdone, List.forall_mem_singleton.2 hvalue⟩
              rw [hnext, List.append_cons done _ (fillSource look s rest)]
              exact ih hrest hdone' (markers_concat_of_other hother hnone)
                (Nat.le_of_succ_le_succ hbudget) (Or.inr rfl)
      · have hdone' : Plain look (done ++ [q]) :=
          plain_append.2 ⟨hdone, List.forall_mem_singleton.2 hq⟩
        rw [markers_cons_of_other hother] at hbudget
        rw [List.append_cons done q rest] at hlast ⊢
        rw [fillSource_cons_of_other hother, List.append_cons done q (fillSource look s rest)]
        exact ih hrest hdone' (markers_concat_of_other hother hnone) hbudget hlast

theorem run_text {t : Template} (ht : t.Plain look) :
    (run s.opening.toList (look s) (chars t)).text = chars (fillSource look s t) := by
  have hbudget : markers s t ≤ budget s.opening.toList (chars t) := by
    rw [← countFrom_chars ht]
    exact Nat.le_max_right _ _
  have hempty : Plain look [] := List.forall_mem_nil _
  exact loop_text ht hempty rfl hbudget (Or.inl rfl)

end Splice

/-! ## The sources one after the other -/

namespace Template

theorem Plain.fillSource {t : Template} (ht : Plain look t) (s : Source) :
    Plain look (t.fillSource look s) := by
  induction t with
  | nil => exact ht
  | cons q rest ih =>
      obtain ⟨hq, hrest⟩ := plain_cons.1 ht
      rcases q.eq_marker_or_not_readsFrom s with ⟨payload, rfl⟩ | hother
      · rw [Template.fillSource, if_pos rfl]
        cases hv : look s payload with
        | none => exact ht
        | some value => exact plain_cons.2 ⟨hq.2.2 value hv, ih hrest⟩
      · rw [fillSource_cons_of_other hother]
        exact plain_cons.2 ⟨hq, ih hrest⟩

def fillSources (look : Lookup) (order : List Source) (t : Template) : Template :=
  order.foldl (fun t s => fillSource look s t) t

theorem fillSources_nil (order : List Source) : fillSources look order [] = [] := by
  induction order with
  | nil => rfl
  | cons s order ih => exact ih

theorem fillSources_text (order : List Source) (x : String) (rest : Template) :
    fillSources look order (.text x :: rest) = .text x :: fillSources look order rest := by
  induction order generalizing rest with
  | nil => rfl
  | cons s order ih => exact ih (fillSource look s rest)

/-- A placeholder with a value is replaced by the pass for its source. -/
theorem fillSources_marker_of_some {source : Source} {payload value : String}
    (hv : look source payload = some value) (order : List Source) (rest : Template) :
    fillSources look order (.marker source payload :: rest)
      = (if source ∈ order then .text value else .marker source payload)
        :: fillSources look order rest := by
  induction order generalizing rest with
  | nil => rfl
  | cons s order ih =>
      have hpass : ∀ t, fillSources look (s :: order) t
          = fillSources look order (fillSource look s t) := fun t => rfl
      rw [hpass, hpass, fillSource]
      by_cases hs : source = s
      · rw [if_pos hs, hv, if_pos (hs ▸ List.mem_cons_self)]
        exact fillSources_text order value _
      · rw [if_neg hs, ih, if_congr (List.mem_cons.trans (or_iff_right hs)) rfl rfl]

/-- A placeholder without a value stays, and the pass for its source ends there. -/
theorem fillSources_marker_of_none {source : Source} {payload : String}
    (hv : look source payload = none) (order : List Source) (rest : Template) :
    fillSources look order (.marker source payload :: rest)
      = .marker source payload :: fillSources look (order.filter (· ≠ source)) rest := by
  induction order generalizing rest with
  | nil => rfl
  | cons s order ih =>
      have hpass : ∀ order t, fillSources look (s :: order) t
          = fillSources look order (fillSource look s t) := fun order t => rfl
      rw [hpass, fillSource]
      by_cases hs : source = s
      · have hdrop : (s :: order).filter (· ≠ source) = order.filter (· ≠ source) :=
          List.filter_cons_of_neg (by simp [hs])
        rw [if_pos hs, hv, hdrop]
        exact ih rest
      · have hkeep : (s :: order).filter (· ≠ source) = s :: order.filter (· ≠ source) :=
          List.filter_cons_of_pos (by simp [Ne.symm hs])
        rw [if_neg hs, hkeep, hpass]
        exact ih (fillSource look s rest)

/-- The passes for all sources that have not stopped come to the one reading from left to right. -/
theorem chars_fillSources {order stopped : List Source}
    (h : ∀ s, s ∈ order ↔ s ∉ stopped) (t : Template) :
    chars (fillSources look order t) = filled look stopped t := by
  induction t generalizing order stopped with
  | nil => rw [fillSources_nil, filled]; rfl
  | cons q rest ih =>
      cases q with
      | text x => rw [fillSources_text, chars_cons, ih h, filled, Piece.chars]
      | marker source payload =>
          rw [filled]
          cases hv : look source payload with
          | some value =>
              rw [fillSources_marker_of_some hv, chars_cons, ih h]
              by_cases hs : source ∈ stopped
              · rw [if_neg (fun hmem => (h source).1 hmem hs), if_pos hs]
              · rw [if_pos ((h source).2 hs), if_neg hs, Piece.chars]
          | none =>
              rw [fillSources_marker_of_none hv, chars_cons]
              by_cases hs : source ∈ stopped
              · have hfilter : ∀ s, s ∈ order.filter (· ≠ source) ↔ s ∉ stopped := by
                  intro s
                  rw [List.mem_filter, h s, decide_eq_true_iff]
                  exact ⟨And.left, fun hn => ⟨hn, fun he => hn (he ▸ hs)⟩⟩
                rw [if_pos hs, ih hfilter]
              · have hfilter : ∀ s, s ∈ order.filter (· ≠ source) ↔ s ∉ source :: stopped := by
                  intro s
                  rw [List.mem_filter, h s, decide_eq_true_iff, List.mem_cons, not_or, and_comm]
                rw [if_neg hs, ih hfilter]

end Template

/-! ## The resolver -/

namespace Context

variable (c : Context) (bindings : Bindings)

/-- The value of a payload, for a source that need not be bound. -/
def value? (source : Source) (payload : String) : Option String :=
  (bindings.get source).bind fun bound => c.lookup source bound payload

theorem value?_of_unbound {source : Source} (h : bindings.get source = none) (payload : String) :
    c.value? bindings source payload = none := by
  rw [value?, h]
  rfl

theorem value?_of_bound {source : Source} {bound : String}
    (h : bindings.get source = some bound) :
    c.value? bindings source = c.lookup source bound := by
  funext payload
  rw [value?, h]
  rfl

theorem resolveSource_text {t : Template} (ht : t.Plain (c.value? bindings)) (s : Source) :
    (c.resolveSource bindings s (String.ofList t.chars)).text
      = String.ofList (t.fillSource (c.value? bindings) s).chars := by
  have hrun := Splice.run_text (s := s) ht
  unfold resolveSource
  split
  · cases hb : bindings.get s with
    | none => rw [Template.fillSource_of_none (value?_of_unbound c bindings hb)]
    | some bound =>
        rw [value?_of_bound c bindings hb] at hrun
        dsimp only
        rw [String.toList_ofList, hrun]
  · next hno =>
    have hcut : Text.cutAt? s.opening.toList t.chars = none := by
      rw [Text.contains, Text.occursIn, String.toList_ofList, Bool.not_eq_true] at hno
      exact Option.isSome_eq_false_iff.1 hno |> Option.isNone_iff_eq_none.1
    rw [← hrun, Splice.run, Splice.loop_text_of_cutAt? hcut]

theorem foldl_resolveNext_text (order : List Source) {t : Template}
    (ht : t.Plain (c.value? bindings)) {r : Resolution} (hr : r.text = String.ofList t.chars) :
    (order.foldl (c.resolveNext bindings) r).text
      = String.ofList (t.fillSources (c.value? bindings) order).chars := by
  induction order generalizing t r with
  | nil => exact hr
  | cons s order ih =>
      have hnext : (c.resolveNext bindings r s).text
          = String.ofList (t.fillSource (c.value? bindings) s).chars := by
        rw [← resolveSource_text c bindings ht s, ← hr]
        rfl
      exact ih (ht.fillSource s) hnext

/-- **Resolving an argument replaces its placeholders in place.** However many pieces there are,
as long as neither a piece nor a value that comes in holds the brace that opens a placeholder,
every placeholder gives way to its value until one of the same source has no value (an unbound
source has none), that one and the later ones of its source stay as they are written, and so does
every literal text. -/
theorem resolve_text_of_plain (t : Template) (ht : t.Plain (c.value? bindings)) :
    (c.resolve bindings (String.ofList t.chars)).text
      = String.ofList (t.filled (c.value? bindings) []) := by
  have hall : ∀ s, s ∈ Source.resolutionOrder ↔ s ∉ ([] : List Source) :=
    fun s => ⟨fun _ => List.not_mem_nil, fun _ => Source.mem_resolutionOrder s⟩
  rw [← Template.chars_fillSources hall t]
  exact foldl_resolveNext_text c bindings Source.resolutionOrder ht rfl

/-- A host whose ini files have one section. -/
def oneSection : Context where
  config := .withRoot ⟨"sd"⟩
  host := { Host.detached .erista with
    readIni := fun _ _ _ section_ _ => if section_ = "a" then some "1" else none }
  files := .empty []

/-- A list of two items and an ini file, and no other source. -/
def listAndIni : Bindings :=
  { Bindings.empty with list := some "x, y", iniFile := some "sdmc:/s.ini" }

/-- Three sources side by side: two of them stop on the way, the third is not bound. -/
def mixed : Template :=
  [.text "to ", .marker .list "1", .marker .iniFile "a, k", .text "/", .marker .iniFile "b, k",
    .marker .list "0", .marker .iniFile "a, k", .marker .list "9", .text "-", .marker .list "0",
    .marker .json "k"]

theorem resolve_mixed :
    mixed.Plain (oneSection.value? listAndIni)
      ∧ (oneSection.resolve listAndIni (String.ofList mixed.chars)).text
        = "to y1/\x7bini_file(b, k)\x7dx\x7bini_file(a, k)\x7d\x7blist(9)\x7d-\x7blist(0)\x7d"
          ++ "\x7bjson(k)\x7d" := by
  have hplain : mixed.Plain (oneSection.value? listAndIni) := by decide +kernel
  refine ⟨hplain, (resolve_text_of_plain oneSection listAndIni mixed hplain).trans ?_⟩
  decide +kernel

end Context

end PackageScript.Placeholder
