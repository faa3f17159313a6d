import PackageScript.Proofs.Placeholder.Templates

set_option autoImplicit false

/-! # When a source counts as resolved

The replacing of one opening ends in five ways: no placeholder is left, one has no end, one leads
nowhere, the text stays as it was, or the budget is used up. In all of them the answer says
whether the opening is gone from the text, with one exception. The check for a text that stays as
it was compares with the text after the replacement before, and before the first replacement that
text is taken to be empty. So if the first replacement leaves nothing at all, it counts as stuck,
although no placeholder is left (`Splice.Vanishes`).

The argument takes one replacement out of the loop (`Splice.next?`). After a replacement the text
to compare with is the text itself, and a text that holds no opening is not replaced any more, so
from there on the answer is right (`Splice.loop_complete`); what is left is the first
replacement (`Splice.run_complete_iff`).
-/

namespace PackageScript

namespace Placeholder

namespace Splice

variable {opening : List Char} {lookup : String → Option String}

/-! ## One replacement -/

/-- The text after the first of its placeholders gave way to its value. -/
def next? (opening : List Char) (lookup : String → Option String) (text : List Char) :
    Option (List Char) :=
  (Text.cutAt? opening text).bind fun (before, rest) =>
    (Text.cutAt? closing rest).bind fun (payload, behind) =>
      (lookup (String.ofList payload)).map fun value => before ++ value.toList ++ behind

theorem next?_eq_some_iff {text next : List Char} :
    next? opening lookup text = some next
      ↔ ∃ before payload behind value,
        Text.cutAt? opening text = some (before, payload ++ (closing ++ behind))
          ∧ ¬ closing <:+: payload ∧ lookup (String.ofList payload) = some value
          ∧ next = before ++ value.toList ++ behind := by
  rw [next?]
  constructor
  · intro h
    obtain ⟨⟨before, rest⟩, hcut, h⟩ := Option.bind_eq_some_iff.1 h
    obtain ⟨⟨payload, behind⟩, hclose, h⟩ := Option.bind_eq_some_iff.1 h
    obtain ⟨value, hvalue, h⟩ := Option.map_eq_some_iff.1 h
    refine ⟨before, payload, behind, value, ?_, Text.not_infix_of_cutAt? (by decide) hclose,
      hvalue, h.symm⟩
    rw [hcut, Text.eq_of_cutAt? hclose, List.append_assoc]
  · rintro ⟨before, payload, behind, value, hcut, hpayload, hvalue, rfl⟩
    have hclose : Text.cutAt? closing (payload ++ (closing ++ behind)) = some (payload, behind) :=
      Text.cutAt?_pair (by decide) hpayload behind
    rw [hcut, Option.bind_some]
    dsimp only
    rw [hclose, Option.bind_some]
    dsimp only
    rw [hvalue, Option.map_some]

/-- Where nothing is replaced, the text stays and the answer says whether the opening is gone. -/
theorem loop_of_next?_eq_none {text : List Char} (h : next? opening lookup text = none)
    (budget : Nat) (last : List Char) :
    (loop opening lookup (budget + 1) last text).text = text
      ∧ (loop opening lookup (budget + 1) last text).complete = !Text.occursIn opening text := by
  rw [loop, Text.occursIn]
  rw [next?] at h
  cases hcut : Text.cutAt? opening text with
  | none => exact ⟨rfl, rfl⟩
  | some cut =>
      rw [hcut, Option.bind_some] at h
      dsimp only at h ⊢
      cases hclose : Text.cutAt? closing cut.2 with
      | none => exact ⟨rfl, rfl⟩
      | some ended =>
          rw [hclose, Option.bind_some] at h
          dsimp only at h ⊢
          rw [Option.map_eq_none_iff.1 h]
          exact ⟨rfl, rfl⟩

theorem loop_of_next?_eq_some {text next : List Char} (h : next? opening lookup text = some next)
    (budget : Nat) (last : List Char) :
    (loop opening lookup (budget + 1) last text).text
        = (if next = last then next else (loop opening lookup budget next next).text)
      ∧ (loop opening lookup (budget + 1) last text).complete
        = (if next = last then false else (loop opening lookup budget next next).complete) := by
  obtain ⟨before, payload, behind, value, hcut, hpayload, hvalue, rfl⟩ := next?_eq_some_iff.1 h
  have hclose : Text.cutAt? closing (payload ++ (closing ++ behind)) = some (payload, behind) :=
    Text.cutAt?_pair (by decide) hpayload behind
  rw [loop, hcut]
  simp only [hclose, hvalue]
  split <;> exact ⟨rfl, rfl⟩

theorem occursIn_of_next? {text next : List Char} (h : next? opening lookup text = some next) :
    Text.occursIn opening text = true := by
  obtain ⟨before, payload, behind, value, hcut, -⟩ := next?_eq_some_iff.1 h
  rw [Text.occursIn, hcut]
  rfl

/-! ## The loop -/

/-- Once the text to compare with is the text that is left, the answer is right. -/
theorem loop_complete (budget : Nat) (text : List Char) :
    (loop opening lookup budget text text).complete
      = !Text.occursIn opening (loop opening lookup budget text text).text := by
  induction budget generalizing text with
  | zero => rfl
  | succ budget ih =>
      cases hnext : next? opening lookup text with
      | none =>
          obtain ⟨htext, hcomplete⟩ := loop_of_next?_eq_none hnext budget text
          rw [htext, hcomplete]
      | some next =>
          obtain ⟨htext, hcomplete⟩ := loop_of_next?_eq_some hnext budget text
          rw [htext, hcomplete]
          by_cases hstuck : next = text
          · -- The text came back, so it still holds the placeholder that was replaced.
            rw [if_pos hstuck, if_pos hstuck, hstuck, occursIn_of_next? hnext]
            rfl
          · rw [if_neg hstuck, if_neg hstuck, ih next]

/-- The placeholder that is the whole text has the empty text as its value. -/
def Vanishes (opening : List Char) (lookup : String → Option String) (text : List Char) : Prop :=
  opening ≠ [] ∧ ∃ payload, text = opening ++ (payload ++ closing)
    ∧ ¬ closing <:+: payload ∧ lookup (String.ofList payload) = some ""

/-- A text vanishes exactly if its first replacement leaves nothing, which holds no opening. -/
theorem vanishes_iff {text : List Char} :
    Vanishes opening lookup text
      ↔ next? opening lookup text = some [] ∧ Text.occursIn opening [] = false := by
  rw [next?_eq_some_iff]
  constructor
  · rintro ⟨hne, payload, rfl, hpayload, hvalue⟩
    obtain ⟨a, as, rfl⟩ := List.exists_cons_of_ne_nil hne
    exact ⟨⟨[], payload, [], "", Text.cutAt?_append a as _, hpayload, hvalue, rfl⟩, rfl⟩
  · rintro ⟨⟨before, payload, behind, value, hcut, hpayload, hvalue, hnil⟩, hopen⟩
    have hne : opening ≠ [] := by
      rintro rfl
      cases hopen
    obtain ⟨hfront, rfl⟩ := List.append_eq_nil_iff.1 hnil.symm
    obtain ⟨rfl, hempty⟩ := List.append_eq_nil_iff.1 hfront
    rw [String.toList_eq_nil_iff] at hempty
    refine ⟨hne, payload, ?_, hpayload, by rw [hvalue, hempty]⟩
    rw [Text.eq_of_cutAt? hcut, List.append_assoc, List.nil_append, List.append_nil]

/-- There is a budget for at least one replacement. -/
theorem exists_budget (opening text : List Char) : ∃ rest, budget opening text = rest + 1 :=
  Nat.exists_eq_succ_of_ne_zero (Nat.ne_of_gt
    (Nat.lt_of_lt_of_le (by decide : 0 < minBudget) (Nat.le_max_left _ _)))

/-- The answer is right unless the text vanishes, and then nothing is left of it. -/
theorem run_cases (opening : List Char) (lookup : String → Option String) (text : List Char) :
    (¬ Vanishes opening lookup text
        ∧ (run opening lookup text).complete
          = !Text.occursIn opening (run opening lookup text).text)
      ∨ Vanishes opening lookup text
        ∧ (run opening lookup text).complete = false ∧ (run opening lookup text).text = [] := by
  obtain ⟨rest, hbudget⟩ := exists_budget opening text
  rw [run, hbudget, vanishes_iff]
  cases hnext : next? opening lookup text with
  | none =>
      obtain ⟨htext, hcomplete⟩ := loop_of_next?_eq_none hnext rest []
      rw [htext, hcomplete]
      exact Or.inl ⟨fun h => absurd h.1 (Option.some_ne_none _).symm, rfl⟩
  | some next =>
      obtain ⟨htext, hcomplete⟩ := loop_of_next?_eq_some hnext rest []
      rw [htext, hcomplete, Option.some_inj]
      by_cases hnil : next = []
      · rw [if_pos hnil, if_pos hnil, hnil]
        cases hopen : Text.occursIn opening [] with
        | true => exact Or.inl ⟨fun h => Bool.noConfusion h.2, rfl⟩
        | false => exact Or.inr ⟨⟨rfl, rfl⟩, rfl, rfl⟩
      · rw [if_neg hnil, if_neg hnil]
        exact Or.inl ⟨fun h => hnil h.1, loop_complete rest next⟩

theorem run_of_next?_eq_none {text : List Char} (h : next? opening lookup text = none) :
    (run opening lookup text).text = text
      ∧ (run opening lookup text).complete = !Text.occursIn opening text := by
  obtain ⟨rest, hbudget⟩ := exists_budget opening text
  rw [run, hbudget]
  exact loop_of_next?_eq_none h rest []

theorem run_of_next?_eq_some {text next : List Char} (h : next? opening lookup text = some next)
    (hne : next ≠ []) (hgone : Text.occursIn opening next = false) :
    (run opening lookup text).text = next ∧ (run opening lookup text).complete = true := by
  obtain ⟨rest, hbudget⟩ := exists_budget opening text
  have hcut : Text.cutAt? opening next = none := Option.isSome_eq_false_iff.1 hgone
    |> Option.isNone_iff_eq_none.1
  obtain ⟨htext, hcomplete⟩ := loop_of_next?_eq_some h rest []
  rw [if_neg hne, loop_text_of_cutAt? hcut] at htext
  rw [if_neg hne, loop_complete, loop_text_of_cutAt? hcut, hgone] at hcomplete
  rw [run, hbudget]
  exact ⟨htext, hcomplete⟩

theorem run_complete_iff (opening : List Char) (lookup : String → Option String)
    (text : List Char) :
    (run opening lookup text).complete = true
      ↔ Text.occursIn opening (run opening lookup text).text = false
        ∧ ¬ Vanishes opening lookup text := by
  rcases run_cases opening lookup text with ⟨hstays, hcomplete⟩ | ⟨hvanishes, hcomplete, -⟩
  · rw [hcomplete, Bool.not_eq_true']
    exact ⟨fun h => ⟨h, hstays⟩, And.left⟩
  · rw [hcomplete]
    exact ⟨fun h => Bool.noConfusion h, fun h => absurd hvanishes h.2⟩

/-- What is left of a text that vanishes holds no opening. -/
theorem occursIn_of_vanishes {text : List Char} (h : Vanishes opening lookup text) :
    Text.occursIn opening (run opening lookup text).text = false := by
  rcases run_cases opening lookup text with ⟨hstays, -⟩ | ⟨-, -, htext⟩
  · exact absurd h hstays
  · rw [htext]
    exact (vanishes_iff.1 h).2

end Splice

/-! ## The resolver -/

namespace Context

variable (c : Context) (bindings : Bindings)

/-- The text of an argument after the turns of some sources. -/
def textAfter (sources : List Source) (text : String) : String :=
  sources.foldl (fun t s => (c.resolveSource bindings s t).text) text

theorem textAfter_append (passed sources : List Source) (text : String) :
    c.textAfter bindings (passed ++ sources) text
      = c.textAfter bindings sources (c.textAfter bindings passed text) :=
  List.foldl_append

/-- A source counts as resolved exactly if its opening is gone and the text did not vanish. -/
theorem resolveSource_complete_iff (s : Source) (text : String) :
    (c.resolveSource bindings s text).complete = true
      ↔ Text.contains (c.resolveSource bindings s text).text s.opening = false
        ∧ ¬ Splice.Vanishes s.opening.toList (c.value? bindings s) text.toList := by
  rw [resolveSource]
  cases hcontains : Text.contains text s.opening with
  | false =>
      rw [if_neg Bool.false_ne_true]
      refine ⟨fun _ => ⟨hcontains, fun h => ?_⟩, fun _ => rfl⟩
      have hholds := Splice.occursIn_of_next? (Splice.vanishes_iff.1 h).1
      rw [Text.contains, hholds] at hcontains
      cases hcontains
  | true =>
      rw [if_pos rfl]
      cases hbound : bindings.get s with
      | none =>
          refine ⟨fun h => Bool.noConfusion h, fun h => ?_⟩
          dsimp only at h
          rw [hcontains] at h
          cases h.1
      | some bound =>
          dsimp only
          rw [Text.contains, String.toList_ofList, value?_of_bound c bindings hbound]
          exact Splice.run_complete_iff _ _ _

theorem foldl_resolveNext_complete_iff (order : List Source) (r : Resolution) :
    (order.foldl (c.resolveNext bindings) r).complete = true
      ↔ r.complete = true ∧ ∀ passed s rest, order = passed ++ s :: rest →
        (c.resolveSource bindings s (c.textAfter bindings passed r.text)).complete = true := by
  induction order generalizing r with
  | nil =>
      refine ⟨fun h => ⟨h, fun passed s rest hsplit => ?_⟩, And.left⟩
      exact absurd hsplit.symm (List.append_ne_nil_of_right_ne_nil _ (List.cons_ne_nil _ _))
  | cons first order ih =>
      rw [List.foldl_cons, ih, resolveNext]
      dsimp only
      rw [Bool.and_eq_true, and_assoc]
      refine and_congr_right fun _ => ⟨fun ⟨hfirst, hothers⟩ passed s rest hsplit => ?_,
        fun h => ⟨h [] first order rfl, fun passed s rest hsplit => ?_⟩⟩
      · rcases List.cons_eq_append_iff.1 hsplit with ⟨rfl, hcons⟩ | ⟨front, rfl, hfront⟩
        · obtain ⟨rfl, rfl⟩ := List.cons.inj hcons
          exact hfirst
        · exact hothers front s rest hfront
      · exact h (first :: passed) s rest (by rw [hsplit, List.cons_append])

theorem resolve_complete_iff (text : String) :
    (c.resolve bindings text).complete = true
      ↔ ∀ passed s rest, Source.resolutionOrder = passed ++ s :: rest →
        (c.resolveSource bindings s (c.textAfter bindings passed text)).complete = true := by
  rw [resolve, foldl_resolveNext_complete_iff]
  exact ⟨And.right, fun h => ⟨rfl, h⟩⟩

/-- **A source fails exactly when its opening is left or the whole text vanishes.** For every
opening, every way to look values up and every text, the answer tells whether the opening is gone
except where the one placeholder is the whole text and its value is empty. An argument counts as
resolved exactly if, at the turn of each source, its opening is gone and the argument did not
vanish in that way. -/
theorem complete_iff_opening_gone (opening : List Char) (lookup : String → Option String)
    (text : List Char) (argument : String) :
    (((Splice.run opening lookup text).complete = true
          ↔ Text.occursIn opening (Splice.run opening lookup text).text = false)
        ↔ ¬ Splice.Vanishes opening lookup text)
      ∧ ((c.resolve bindings argument).complete = true
        ↔ ∀ passed s rest, Source.resolutionOrder = passed ++ s :: rest →
          Text.contains (c.textAfter bindings (passed ++ [s]) argument) s.opening = false
            ∧ ¬ Splice.Vanishes s.opening.toList (c.value? bindings s)
              (c.textAfter bindings passed argument).toList) := by
  constructor
  · rw [Splice.run_complete_iff]
    constructor
    · intro h hvanishes
      exact (h.2 (Splice.occursIn_of_vanishes hvanishes)).2 hvanishes
    · intro hstays
      exact ⟨And.left, fun hgone => ⟨hgone, hstays⟩⟩
  · rw [Context.resolve_complete_iff]
    refine forall₄_congr fun passed s rest _ => ?_
    rw [Context.resolveSource_complete_iff, Context.textAfter_append]
    rfl

/-- The only placeholder of an argument is replaced by an empty text, and counts as failed. -/
theorem emptied_argument_fails :
    ¬ ∀ (c : Context) (source : Source) (bound text : String),
      (Splice.run source.opening.toList (c.lookup source bound) text.toList).complete = true
        ↔ Text.occursIn source.opening.toList
          (Splice.run source.opening.toList (c.lookup source bound) text.toList).text = false := by
  intro h
  have hgone := (h oneSection .json "\x7b\"k\":\"\"\x7d" "\x7bjson(k)\x7d").2 (by decide +kernel)
  exact absurd hgone (by decide +kernel)

end Context

end Placeholder

end PackageScript
