import PackageScript.Proofs.Placeholder.Completeness

set_option autoImplicit false

/-! # Placeholders left in an argument that counts as resolved

Each source has one turn. A value that a later source puts in is not searched for the placeholders
of the sources whose turn is over, so an argument can count as resolved and still hold one of
these. `Context.BroughtIn` says when: at some later turn the opening comes in, and no turn after
that takes it away again. For the values to be the only way for an opening to come in, two things
are enough. No value holds a brace, and each brace of the argument begins an opening
(`Braced`): then a replacement puts no opening together out of what stood around the placeholder
(`Splice.occursIn_of_next?_braced`).
-/

namespace PackageScript.Placeholder

/-! ## Braces -/

/-- Every brace of a text that could open a placeholder begins one of the openings. -/
def Braced (text : List Char) : Prop :=
  ∀ tail ∈ text.tails, tail.head? = some '\x7b' →
    ∃ s ∈ Source.resolutionOrder, s.opening.toList <+: tail

instance (text : List Char) : Decidable (Braced text) :=
  inferInstanceAs (Decidable (∀ tail ∈ text.tails, tail.head? = some '\x7b' →
    ∃ s ∈ Source.resolutionOrder, s.opening.toList <+: tail))

theorem Braced.exists_opening {text tail : List Char} (h : Braced text)
    (htail : '\x7b' :: tail <:+ text) : ∃ s : Source, s.opening.toList <+: '\x7b' :: tail := by
  obtain ⟨s, -, hs⟩ := h _ ((List.mem_tails _ _).2 htail) rfl
  exact ⟨s, hs⟩

theorem braced_of_forall {text : List Char}
    (h : ∀ tail, '\x7b' :: tail <:+ text → ∃ s : Source, s.opening.toList <+: '\x7b' :: tail) :
    Braced text := by
  intro tail htail hhead
  obtain ⟨rest, rfl⟩ := List.head?_eq_some_iff.1 hhead
  obtain ⟨s, hs⟩ := h rest ((List.mem_tails _ _).1 htail)
  exact ⟨s, Source.mem_resolutionOrder s, hs⟩

/-- Two openings at the same place are the same. -/
theorem opening_unique {s other : Source} {text : List Char} (hs : s.opening.toList <+: text)
    (hother : other.opening.toList <+: text) : other = s := by
  by_contra hne
  obtain ⟨rest, rfl⟩ := hother
  obtain ⟨behind, hbehind⟩ := hs
  have hnone : Text.dropStart? s.opening.toList (other.opening.toList ++ rest) = none :=
    dropStart?_opening hne rest
  rw [Text.dropStart?_eq_some_iff.2 hbehind.symm] at hnone
  cases hnone

theorem opening_in_front {s : Source} {front behind : List Char}
    (h : s.opening.toList <+: '\x7b' :: (front ++ '\x7b' :: behind)) :
    s.opening.toList <+: '\x7b' :: front := by
  obtain ⟨word, hword, hnot⟩ := opening_eq s
  rw [hword, List.prefix_cons_inj] at h ⊢
  rcases List.prefix_or_prefix_of_prefix h (List.prefix_append front _) with hin | hbeyond
  · exact hin
  · obtain ⟨beyond, rfl⟩ := hbeyond
    rw [List.prefix_append_right_inj] at h
    rcases List.prefix_cons_iff.1 h with rfl | ⟨rest, rfl, -⟩
    · rw [List.append_nil]
    · exact absurd (List.mem_append_right front List.mem_cons_self) hnot

theorem cons_suffix_append {a : Char} {tail front behind : List Char}
    (h : a :: tail <:+ front ++ behind) :
    (∃ rest, a :: rest <:+ front ∧ tail = rest ++ behind) ∨ a :: tail <:+ behind := by
  obtain ⟨start, hstart⟩ := h
  rcases List.append_eq_append_iff.1 hstart with ⟨middle, rfl, hmiddle⟩ | ⟨middle, rfl, rfl⟩
  · rcases List.append_eq_cons_iff.1 hmiddle.symm with ⟨-, hbehind⟩ | ⟨rest, rfl, htail⟩
    · exact Or.inr (by rw [hbehind])
    · exact Or.inl ⟨rest, List.suffix_append start _, htail⟩
  · exact Or.inr (List.suffix_append middle _)

/-! ## One turn -/

namespace Splice

variable {s : Source} {lookup : String → Option String}

/-- A brace that stands in a text after a replacement begins an opening, and that opening stood in
the text before. -/
theorem exists_opening_of_next? {text next tail : List Char}
    (hnext : next? s.opening.toList lookup text = some next)
    (hvalues : ∀ payload, ∀ value ∈ lookup payload, '\x7b' ∉ value.toList)
    (htext : Braced text) (htail : '\x7b' :: tail <:+ next) :
    ∃ other : Source, other.opening.toList <+: '\x7b' :: tail
      ∧ other.opening.toList <:+: text := by
  obtain ⟨before, payload, behind, value, hcut, -, hvalue, rfl⟩ := next?_eq_some_iff.1 hnext
  obtain ⟨word, hword, -⟩ := opening_eq s
  have htextEq := Text.eq_of_cutAt? hcut
  rw [List.append_assoc] at htail
  rcases cons_suffix_append htail with ⟨rest, hrest, rfl⟩ | hbehind
  · -- In front of the placeholder: the opening ends before the placeholder's own brace.
    obtain ⟨start, rfl⟩ := hrest
    have hsuffix :
        '\x7b' :: (rest ++ '\x7b' :: (word ++ (payload ++ (closing ++ behind)))) <:+ text :=
      ⟨start, by rw [htextEq, hword]; simp⟩
    obtain ⟨other, hother⟩ := htext.exists_opening hsuffix
    have hin := opening_in_front hother
    refine ⟨other, hin.trans ⟨value.toList ++ behind, rfl⟩, ?_⟩
    rw [htextEq, List.append_assoc]
    exact (hin.isInfix.trans (List.suffix_append start _).isInfix).trans
      (List.prefix_append _ _).isInfix
  · rcases cons_suffix_append hbehind with ⟨rest, hrest, -⟩ | hbehind
    · exact absurd (hrest.mem List.mem_cons_self) (hvalues _ value hvalue)
    · have hsuffix : '\x7b' :: tail <:+ text := by
        refine hbehind.trans ?_
        rw [htextEq, ← List.append_assoc, ← List.append_assoc]
        exact List.suffix_append _ _
      obtain ⟨other, hother⟩ := htext.exists_opening hsuffix
      exact ⟨other, hother, hother.isInfix.trans hsuffix.isInfix⟩

theorem braced_of_next? {text next : List Char}
    (hnext : next? s.opening.toList lookup text = some next)
    (hvalues : ∀ payload, ∀ value ∈ lookup payload, '\x7b' ∉ value.toList)
    (htext : Braced text) : Braced next := by
  refine braced_of_forall fun tail htail => ?_
  obtain ⟨other, hother, -⟩ := exists_opening_of_next? hnext hvalues htext htail
  exact ⟨other, hother⟩

/-- A replacement by a value without braces puts no opening together. -/
theorem occursIn_of_next?_braced {text next : List Char}
    (hnext : next? s.opening.toList lookup text = some next)
    (hvalues : ∀ payload, ∀ value ∈ lookup payload, '\x7b' ∉ value.toList)
    (htext : Braced text) {other : Source}
    (hoccurs : Text.occursIn other.opening.toList next = true) :
    Text.occursIn other.opening.toList text = true := by
  obtain ⟨front, behind, heq⟩ := Text.occursIn_iff.1 hoccurs
  obtain ⟨word, hword, -⟩ := opening_eq other
  have hprefix : other.opening.toList <+: '\x7b' :: (word ++ behind) :=
    ⟨behind, by rw [hword]; rfl⟩
  have htail : '\x7b' :: (word ++ behind) <:+ next :=
    ⟨front, by rw [← heq, hword, List.append_assoc]; rfl⟩
  obtain ⟨found, hfound, hin⟩ := exists_opening_of_next? hnext hvalues htext htail
  rw [opening_unique hfound hprefix]
  exact Text.occursIn_iff.2 hin

/-- What every replacement keeps holds of the text in the end. -/
theorem loop_text_induction {opening : List Char} {P : List Char → Prop}
    (hstep : ∀ text next, next? opening lookup text = some next → P text → P next)
    (budget : Nat) (last : List Char) {text : List Char} (h : P text) :
    P (loop opening lookup budget last text).text := by
  induction budget generalizing last text with
  | zero => exact h
  | succ budget ih =>
      cases hnext : next? opening lookup text with
      | none =>
          rw [(loop_of_next?_eq_none hnext budget last).1]
          exact h
      | some next =>
          rw [(loop_of_next?_eq_some hnext budget last).1]
          split
          · exact hstep text next hnext h
          · exact ih next (hstep text next hnext h)

end Splice

/-! ## One turn after the other -/

namespace Context

variable {c : Context} {bindings : Bindings}

theorem resolve_text (text : String) :
    (c.resolve bindings text).text = c.textAfter bindings Source.resolutionOrder text :=
  (List.foldl_hom Resolution.text fun _ _ => rfl).symm

/-- What every replacement for a source keeps holds after its turn. -/
theorem resolveSource_text_induction {s : Source} {P : List Char → Prop}
    (hstep : ∀ text next, Splice.next? s.opening.toList (c.value? bindings s) text = some next →
      P text → P next)
    {text : String} (h : P text.toList) : P (c.resolveSource bindings s text).text.toList := by
  rw [resolveSource]
  split
  · cases hbound : bindings.get s with
    | none => exact h
    | some bound =>
        rw [value?_of_bound c bindings hbound] at hstep
        dsimp only
        rw [String.toList_ofList]
        exact Splice.loop_text_induction hstep _ _ h
  · exact h

/-- No value that a bound source can come to holds a brace. -/
def Braceless (c : Context) (bindings : Bindings) : Prop :=
  ∀ s payload, ∀ value ∈ c.value? bindings s payload, '\x7b' ∉ value.toList

/-- Values without braces bring no opening into a text whose braces all begin openings. -/
theorem contains_of_textAfter (hvalues : c.Braceless bindings) (sources : List Source)
    {text : String} (htext : Braced text.toList) :
    Braced (c.textAfter bindings sources text).toList
      ∧ ∀ s : Source, Text.contains (c.textAfter bindings sources text) s.opening = true →
        Text.contains text s.opening = true := by
  induction sources generalizing text with
  | nil => exact ⟨htext, fun _ h => h⟩
  | cons first sources ih =>
      have hturn : Braced (c.resolveSource bindings first text).text.toList
          ∧ ∀ s : Source,
            Text.occursIn s.opening.toList (c.resolveSource bindings first text).text.toList
              = true → Text.occursIn s.opening.toList text.toList = true :=
        resolveSource_text_induction
          (P := fun t => Braced t ∧ ∀ s : Source, Text.occursIn s.opening.toList t = true →
            Text.occursIn s.opening.toList text.toList = true)
          (fun _ _ hnext h => ⟨Splice.braced_of_next? hnext (hvalues first) h.1,
            fun s hs => h.2 s (Splice.occursIn_of_next?_braced hnext (hvalues first) h.1 hs)⟩)
          ⟨htext, fun _ h => h⟩
      obtain ⟨hbraced, hcontains⟩ := ih hturn.1
      exact ⟨hbraced, fun s hs => hturn.2 s (hcontains s hs)⟩

/-- An opening comes in at the turn of a source behind its own, and stays from there on. -/
def BroughtIn (c : Context) (bindings : Bindings) (s : Source) (text : String) : Prop :=
  ∃ passed later, passed ++ [later] <+: Source.resolutionOrder ∧ s ∈ passed
    ∧ Text.contains (c.textAfter bindings passed text) s.opening = false
    ∧ ∀ done, passed ++ [later] <+: done → done <+: Source.resolutionOrder →
      Text.contains (c.textAfter bindings done text) s.opening = true

/-- Where something fails to hold at one point of a list and holds at the end, there is a last
point at which it does not hold. -/
theorem exists_last_false {α : Type} (p : List α → Bool) (passed rest : List α)
    (hstart : p passed = false) (hend : p (passed ++ rest) = true) :
    ∃ front later, front ++ [later] <+: passed ++ rest ∧ passed <+: front ∧ p front = false
      ∧ ∀ done, front ++ [later] <+: done → done <+: passed ++ rest → p done = true := by
  induction rest using List.reverseRecOn with
  | nil =>
      rw [List.append_nil, hstart] at hend
      cases hend
  | append_singleton rest later ih =>
      rw [← List.append_assoc] at hend ⊢
      cases hlast : p (passed ++ rest) with
      | false =>
          refine ⟨passed ++ rest, later, List.prefix_rfl, List.prefix_append _ _, hlast, ?_⟩
          intro done hfront hdone
          rw [hdone.eq_of_length_le hfront.length_le]
          exact hend
      | true =>
          obtain ⟨front, next, hin, hpassed, hfalse, hrest⟩ := ih hlast
          refine ⟨front, next, hin.trans (List.prefix_append _ _), hpassed, hfalse, ?_⟩
          intro done hfront hdone
          rcases List.prefix_concat_iff.1 hdone with rfl | hdone
          · exact hend
          · exact hrest done hfront hdone

theorem exists_turn {text : String} (h : (c.resolve bindings text).complete = true) (s : Source) :
    ∃ passed rest, Source.resolutionOrder = passed ++ rest ∧ s ∈ passed
      ∧ Text.contains (c.textAfter bindings passed text) s.opening = false := by
  obtain ⟨before, rest, horder⟩ := List.append_of_mem (Source.mem_resolutionOrder s)
  have hturn := (resolve_complete_iff c bindings text).1 h before s rest horder
  have hgone := ((resolveSource_complete_iff c bindings s _).1 hturn).1
  refine ⟨before ++ [s], rest, by rw [horder, List.append_assoc]; rfl,
    List.mem_append_right before List.mem_cons_self, ?_⟩
  rw [textAfter_append]
  exact hgone

/-- **An argument that counts as resolved still holds an opening exactly if a later source brought
it in.** None is left if every brace of the argument begins an opening and no value of a bound
source holds a brace. -/
theorem resolved_contains_iff (c : Context) (bindings : Bindings) (text : String)
    (h : (c.resolve bindings text).complete = true) (s : Source) :
    (Text.contains (c.resolve bindings text).text s.opening = true ↔ c.BroughtIn bindings s text)
      ∧ (Braced text.toList → c.Braceless bindings →
        Text.contains (c.resolve bindings text).text s.opening = false) := by
  obtain ⟨turn, rest, horder, hs, hgone⟩ := exists_turn h s
  rw [resolve_text]
  refine ⟨⟨fun hleft => ?_, fun hin => ?_⟩, fun htext hvalues => ?_⟩
  · rw [horder] at hleft
    obtain ⟨passed, later, hin, hturn, hfalse, hstays⟩ := exists_last_false
      (fun done => Text.contains (c.textAfter bindings done text) s.opening) turn rest hgone hleft
    rw [← horder] at hin hstays
    exact ⟨passed, later, hin, hturn.mem hs, hfalse, hstays⟩
  · obtain ⟨passed, later, hin, -, -, hstays⟩ := hin
    exact hstays _ hin List.prefix_rfl
  · obtain ⟨hbraced, -⟩ := contains_of_textAfter hvalues turn htext
    obtain ⟨-, hkept⟩ := contains_of_textAfter hvalues rest hbraced
    rw [horder, textAfter_append, ← Bool.not_eq_true]
    intro hleft
    rw [hkept s hleft] at hgone
    cases hgone

def listOfTwo : Bindings := { Bindings.empty with list := some "x, y" }

theorem braceless_listOfTwo : oneSection.Braceless listOfTwo := by
  have hitems : ∀ item ∈ listItems "x, y", '\x7b' ∉ item.toList := by decide +kernel
  intro s payload value hvalue
  rw [Option.mem_def] at hvalue
  by_cases hs : s = .list
  · have hbound : listOfTwo.get .list = some "x, y" := rfl
    rw [hs, value?_of_bound oneSection listOfTwo hbound, lookup] at hvalue
    obtain ⟨index, -, hindex⟩ := Option.bind_eq_some_iff.1 hvalue
    exact hitems value (List.mem_of_getElem? hindex)
  · have hunbound : listOfTwo.get s = none := by
      cases s with
      | list => exact absurd rfl hs
      | json | jsonFile | iniFile | hexFile => rfl
    rw [value?_of_unbound oneSection listOfTwo hunbound] at hvalue
    cases hvalue

/-- Both items of a list, in their places. -/
theorem resolved_items_gone :
    (oneSection.resolve listOfTwo "\x7blist(1)\x7d-\x7blist(0)\x7d").complete = true
      ∧ Text.contains (oneSection.resolve listOfTwo "\x7blist(1)\x7d-\x7blist(0)\x7d").text
        Source.list.opening = false := by
  have hcomplete :
      (oneSection.resolve listOfTwo "\x7blist(1)\x7d-\x7blist(0)\x7d").complete = true := by
    decide +kernel
  exact ⟨hcomplete, (resolved_contains_iff oneSection listOfTwo _ hcomplete .list).2
    (by decide +kernel) braceless_listOfTwo⟩

/-- A list, and a document whose value reads from it. -/
def listInDocument : Bindings :=
  { Bindings.empty with list := some "a,b", json := some "\x7b\"k\":\"\x7blist(0)\x7d\"\x7d" }

/-- A value that reads from the list comes in after the list's turn, and nothing fails. -/
theorem resolved_holds_list :
    ¬ ∀ (c : Context) (bindings : Bindings) (text : String),
      (c.resolve bindings text).complete = true →
        ∀ s : Source, Text.contains (c.resolve bindings text).text s.opening = false := by
  intro h
  have hgone := h oneSection listInDocument "\x7bjson(k)\x7d" (by decide +kernel) .list
  exact absurd hgone (by decide +kernel)

end Context

end PackageScript.Placeholder
