import PackageScript.Proofs.Placeholder.Completeness
import PackageScript.Proofs.Text.Numerals

set_option autoImplicit false

/-! # Lists and their places

Which texts can be items is limited by what separates them, and by empty items not counting
(`IsItem`). A list of such texts is written with quotes around every item and round brackets around
the whole. Reading takes exactly these layers off, whatever brackets, quotes and blanks the items
have themselves (`listItems_printList`), so each item is found at its place
(`listItems_range_and_places`).

The second part is about an argument that is one placeholder and nothing else. The turns of all
other sources leave it alone, and nothing of a value without a brace is searched again.
-/

namespace PackageScript.Placeholder

/-! ## Items -/

/-- **What an item can be**: a text that is not empty, without a comma and on one line. -/
structure IsItem (item : String) : Prop where
  ne_empty : item ≠ ""
  no_comma : ',' ∉ item.toList
  no_newline : '\n' ∉ item.toList

def printList (items : List String) : String :=
  "(" ++ ",".intercalate (items.map fun item => "\"" ++ item ++ "\"") ++ ")"

def quotedItem (item : String) : List Char := '"' :: (item.toList ++ ['"'])

theorem toList_printList (items : List String) :
    (printList items).toList = '(' :: ([','].intercalate (items.map quotedItem) ++ [')']) := by
  have hitems : (items.map fun item => "\"" ++ item ++ "\"").map String.toList
      = items.map quotedItem := by
    rw [List.map_map]
    exact List.map_congr_left fun item _ => by simp [quotedItem]
  rw [printList, String.toList_append, String.toList_append, String.toList_intercalate, hitems]
  rfl

theorem IsItem.not_isItemEnd {item : String} (h : IsItem item) :
    ∀ c ∈ quotedItem item, isItemEnd c = false := by
  intro c hc
  rw [← Bool.not_eq_true, isItemEnd, Bool.or_eq_true, beq_iff_eq, beq_iff_eq]
  rcases List.mem_cons.1 hc with rfl | hc
  · decide
  · rcases List.mem_append.1 hc with hc | hc
    · rintro (rfl | rfl)
      · exact h.no_comma hc
      · exact h.no_newline hc
    · obtain rfl := List.mem_singleton.1 hc
      decide

theorem unquoted_trimmed_quotedItem (item : String) :
    Text.unquoted (Text.trimmed (quotedItem item)) = item.toList := by
  rw [quotedItem, Text.trimmed_wrap (by decide) (by decide), Text.unquoted_wrap '"' (Or.inr rfl)]

/-- **A written list is read back.** -/
theorem listItems_printList {items : List String} (h : ∀ item ∈ items, IsItem item) :
    listItems (printList items) = items := by
  have hinner : unwrapped (Text.trimmed (printList items).toList)
      = [','].intercalate (items.map quotedItem) := by
    rw [toList_printList, Text.trimmed_wrap (by decide) (by decide), unwrapped]
    simp
  have hkeep : ∀ item ∈ items.map String.toList, (!item.isEmpty) = true := by
    intro cs hcs
    obtain ⟨item, hitem, rfl⟩ := List.mem_map.1 hcs
    have hne : item.toList ≠ [] := mt String.toList_eq_nil_iff.1 (h item hitem).ne_empty
    rw [List.isEmpty_eq_false_iff.2 hne]
    rfl
  have hread : itemsOf (printList items).toList = items.map String.toList := by
    rw [itemsOf, hinner]
    cases items with
    | nil => rfl
    | cons item rest =>
        -- The commas between the items are the only ends, since no quoted item has one in it.
        have hpieces : Text.pieces isItemEnd ([','].intercalate ((item :: rest).map quotedItem))
            = (item :: rest).map quotedItem := by
          rw [List.map_cons]
          refine Text.pieces_intercalate (by decide) fun v hv => ?_
          rw [← List.map_cons] at hv
          obtain ⟨found, hfound, rfl⟩ := List.mem_map.1 hv
          exact (h found hfound).not_isItemEnd
        have hlayers : (fun piece => Text.unquoted (Text.trimmed piece)) ∘ quotedItem
            = String.toList := funext unquoted_trimmed_quotedItem
        rw [hpieces, List.map_map, hlayers, List.filter_eq_self.2 hkeep]
  rw [listItems, hread, List.map_map]
  exact (List.map_congr_left fun item _ => String.ofList_toList).trans (List.map_id _)

theorem mem_of_mem_unquoted {s : List Char} {c : Char} (h : c ∈ Text.unquoted s) : c ∈ s := by
  unfold Text.unquoted at h
  split at h
  · split at h
    · exact List.mem_cons_of_mem _ (List.dropLast_subset _ h)
    · exact h
  · exact h

/-- **What is read from a list is made of items.** -/
theorem isItem_of_mem_listItems {list item : String} (h : item ∈ listItems list) :
    IsItem item := by
  obtain ⟨cs, hcs, rfl⟩ := List.mem_map.1 h
  obtain ⟨hread, hne⟩ := List.mem_filter.1 hcs
  obtain ⟨piece, hpiece, rfl⟩ := List.mem_map.1 hread
  have hends : ∀ c ∈ Text.unquoted (Text.trimmed piece), isItemEnd c = false := fun c hc =>
    Text.isSep_eq_false_of_mem_pieces isItemEnd _ piece hpiece c
      (Text.mem_of_mem_trimmed (mem_of_mem_unquoted hc))
  refine ⟨fun he => ?_, ?_, ?_⟩
  · rw [← String.toList_eq_nil_iff, String.toList_ofList] at he
    rw [he] at hne
    cases hne
  · rw [String.toList_ofList]
    exact fun hc => absurd (hends _ hc) (by decide)
  · rw [String.toList_ofList]
    exact fun hc => absurd (hends _ hc) (by decide)

theorem listItem?_numeralOf (list : String) (i : Nat) :
    listItem? list (Text.numeralOf i)
      = if i < Text.wordLimit then (listItems list)[i]? else none := by
  rw [listItem?]
  split
  · next hlt =>
      rw [Text.wordOf?_trim_eq_some_iff.2 (Text.denotesWord_numeralOf_iff.2 ⟨rfl, hlt⟩)]
      rfl
  · next hlarge =>
      have hnone : ¬ ∃ n, Text.DenotesWord (Text.numeralOf i) n := fun ⟨n, hn⟩ =>
        hlarge (Text.denotesWord_numeralOf_iff.1 hn).2
      rw [Text.wordOf?_trim_eq_none_iff.2 hnone]
      rfl

/-! ## An argument that is one placeholder -/

variable {look : Lookup} {s : Source} {payload : String}

theorem occursIn_opening_of_not_mem {text : List Char} (h : '\x7b' ∉ text) (s : Source) :
    Text.occursIn s.opening.toList text = false := by
  obtain ⟨word, hword, -⟩ := opening_eq s
  rw [← Bool.not_eq_true, Text.occursIn_iff, hword]
  exact fun hin => h (hin.subset List.mem_cons_self)

theorem occursIn_opening_marker_self :
    Text.occursIn s.opening.toList (Piece.marker s payload).chars = true :=
  Text.occursIn_iff.2 (List.prefix_append _ _).isInfix

theorem occursIn_opening_marker {other : Source} (hother : s ≠ other)
    (hplain : (Piece.marker s payload).Plain look) :
    Text.occursIn other.opening.toList (Piece.marker s payload).chars = false := by
  have hcut := Piece.cutAt?_append hplain (fun h : s = other => hother h) []
  obtain ⟨word, hword, -⟩ := opening_eq other
  rw [List.append_nil, hword] at hcut
  rw [Text.occursIn, hword, hcut]
  rfl

/-- A lone placeholder is the first that is replaced. -/
theorem Splice.next?_marker (hplain : (Piece.marker s payload).Plain look) :
    next? s.opening.toList (look s) (Piece.marker s payload).chars
      = (look s payload).map String.toList := by
  obtain ⟨word, hword, -⟩ := opening_eq s
  have hcut : Text.cutAt? s.opening.toList (Piece.marker s payload).chars
      = some ([], payload.toList ++ (closing ++ [])) := by
    rw [Piece.chars, hword, List.append_nil]
    exact Text.cutAt?_append _ _ _
  have hclose : Text.cutAt? closing (payload.toList ++ (closing ++ []))
      = some (payload.toList, []) := Text.cutAt?_pair (by decide) hplain.2.1 []
  rw [next?, hcut, Option.bind_some]
  dsimp only
  rw [hclose, Option.bind_some, String.ofList_toList]
  simp only [List.nil_append, List.append_nil]

namespace Context

theorem resolveNext_of_occursIn_eq_false (c : Context) (bindings : Bindings) {r : Resolution}
    (h : Text.occursIn s.opening.toList r.text.toList = false) :
    (c.resolveNext bindings r s).text = r.text
      ∧ (c.resolveNext bindings r s).complete = r.complete := by
  have hturn : c.resolveSource bindings s r.text = ⟨r.text, true, .empty⟩ := by
    rw [resolveSource, Text.contains, h, if_neg Bool.false_ne_true]
  rw [resolveNext, hturn]
  exact ⟨rfl, Bool.and_true r.complete⟩

theorem foldl_resolveNext_of_occursIn_eq_false (c : Context) (bindings : Bindings)
    {order : List Source} {r : Resolution}
    (h : ∀ s ∈ order, Text.occursIn s.opening.toList r.text.toList = false) :
    (order.foldl (c.resolveNext bindings) r).text = r.text
      ∧ (order.foldl (c.resolveNext bindings) r).complete = r.complete := by
  induction order generalizing r with
  | nil => exact ⟨rfl, rfl⟩
  | cons s order ih =>
      obtain ⟨htext, hcomplete⟩ :=
        c.resolveNext_of_occursIn_eq_false bindings (h s List.mem_cons_self)
      rw [List.foldl_cons, ← htext, ← hcomplete]
      exact ih fun t ht => htext ▸ h t (List.mem_cons_of_mem s ht)

variable {c : Context} {bindings : Bindings}

/-- **What becomes of a lone placeholder is decided at the turn of its source**, if what this turn
leaves holds no opening of another. -/
theorem resolve_marker (hplain : (Piece.marker s payload).Plain (c.value? bindings))
    {text : String} (htext : text.toList = (Piece.marker s payload).chars)
    (hleft : ∀ other, other ≠ s → Text.occursIn other.opening.toList
      (c.resolveSource bindings s text).text.toList = false) :
    (c.resolve bindings text).text = (c.resolveSource bindings s text).text
      ∧ (c.resolve bindings text).complete = (c.resolveSource bindings s text).complete := by
  obtain ⟨front, back, horder, hfront⟩ :=
    List.eq_append_cons_of_mem (Source.mem_resolutionOrder s)
  have hback : s ∉ back := by
    have hnodup : Source.resolutionOrder.Nodup := by decide
    rw [horder] at hnodup
    exact (List.nodup_cons.1 (List.nodup_append.1 hnodup).2.1).1
  -- The sources before this one find nothing in the placeholder, those behind it nothing in what
  -- is left.
  have hnone : ∀ other ∈ front, Text.occursIn other.opening.toList text.toList = false := by
    intro other hother
    rw [htext]
    exact occursIn_opening_marker (fun he => hfront (he ▸ hother)) hplain
  obtain ⟨hbefore, hgoes⟩ :=
    c.foldl_resolveNext_of_occursIn_eq_false bindings (r := ⟨text, true, .empty⟩) hnone
  rw [resolve, horder, List.foldl_append, List.foldl_cons, resolveNext, hbefore, hgoes]
  exact c.foldl_resolveNext_of_occursIn_eq_false bindings fun other hother =>
    hleft other fun he => hback (he ▸ hother)

theorem resolveSource_marker {bound : String} (hbound : bindings.get s = some bound)
    {text : String} (htext : text.toList = (Piece.marker s payload).chars) :
    (c.resolveSource bindings s text).text
        = String.ofList (Splice.run s.opening.toList (c.value? bindings s) text.toList).text
      ∧ (c.resolveSource bindings s text).complete
        = (Splice.run s.opening.toList (c.value? bindings s) text.toList).complete := by
  have hopen : Text.contains text s.opening = true := by
    rw [Text.contains, htext]
    exact occursIn_opening_marker_self
  rw [resolveSource, if_pos hopen, hbound, value?_of_bound c bindings hbound]
  exact ⟨rfl, rfl⟩

/-- **A lone placeholder with a value gives way to it**, and counts as resolved. -/
theorem resolve_marker_of_some {value : String}
    (hvalue : c.value? bindings s payload = some value)
    (hplain : (Piece.marker s payload).Plain (c.value? bindings)) (hne : value ≠ "")
    {text : String} (htext : text.toList = (Piece.marker s payload).chars) :
    (c.resolve bindings text).text = value ∧ (c.resolve bindings text).complete = true := by
  have hgone : ∀ other : Source, Text.occursIn other.opening.toList value.toList = false :=
    occursIn_opening_of_not_mem (hplain.2.2 value hvalue)
  obtain ⟨bound, hbound, -⟩ := Option.bind_eq_some_iff.1 hvalue
  obtain ⟨hturn, hcomplete⟩ := resolveSource_marker hbound htext
  have hnext : Splice.next? s.opening.toList (c.value? bindings s) text.toList
      = some value.toList := by
    rw [htext, Splice.next?_marker hplain, hvalue, Option.map_some]
  obtain ⟨hrun, hanswer⟩ :=
    Splice.run_of_next?_eq_some hnext (mt String.toList_eq_nil_iff.1 hne) (hgone s)
  rw [hrun, String.ofList_toList] at hturn
  rw [hanswer] at hcomplete
  obtain ⟨hall, hflag⟩ := resolve_marker hplain htext fun other _ => hturn ▸ hgone other
  exact ⟨hall.trans hturn, hflag.trans hcomplete⟩

/-- **A lone placeholder without a value stays**, and counts as failed. -/
theorem resolve_marker_of_none (hvalue : c.value? bindings s payload = none)
    (hplain : (Piece.marker s payload).Plain (c.value? bindings))
    {bound : String} (hbound : bindings.get s = some bound)
    {text : String} (htext : text.toList = (Piece.marker s payload).chars) :
    (c.resolve bindings text).text = text ∧ (c.resolve bindings text).complete = false := by
  obtain ⟨hturn, hcomplete⟩ := resolveSource_marker hbound htext
  have hnext : Splice.next? s.opening.toList (c.value? bindings s) text.toList = none := by
    rw [htext, Splice.next?_marker hplain, hvalue, Option.map_none]
  obtain ⟨hrun, hanswer⟩ := Splice.run_of_next?_eq_none hnext
  rw [hrun, String.ofList_toList] at hturn
  rw [hanswer, htext, occursIn_opening_marker_self] at hcomplete
  obtain ⟨hall, hflag⟩ := resolve_marker hplain htext fun other hother => by
    rw [hturn, htext]
    exact occursIn_opening_marker (Ne.symm hother) hplain
  exact ⟨hall.trans hturn, hflag.trans hcomplete⟩

end Context

/-! ## Places -/

def listPlaceholder (i : Nat) : String := "\x7blist(" ++ Text.numeralOf i ++ ")\x7d"

theorem toList_listPlaceholder (i : Nat) :
    (listPlaceholder i).toList = (Piece.marker .list (Text.numeralOf i)).chars := by
  rw [listPlaceholder, String.toList_append, String.toList_append, List.append_assoc]
  rfl

theorem plain_marker_numeralOf {look : Lookup} {s : Source} {i : Nat}
    (h : ∀ value ∈ look s (Text.numeralOf i), '\x7b' ∉ value.toList) :
    (Piece.marker s (Text.numeralOf i)).Plain look := by
  refine ⟨fun hmem => ?_, fun hin => ?_, h⟩
  · exact absurd (Text.isDigit_of_mem_numeralOf hmem) (by decide)
  · -- What ends a placeholder begins with a bracket, which is no digit either.
    have hmem : ')' ∈ (Text.numeralOf i).toList := hin.subset List.mem_cons_self
    exact absurd (Text.isDigit_of_mem_numeralOf hmem) (by decide)

/-- **Lists are texts for rows of items.** What is read from some list is exactly what is made of
items, and a list that is written from items is read as these. With such a list bound, the
placeholder for a place gives way to the item there if this has no brace, and behind the last
place it stays and counts as failed. Places are read as numbers of 64 bits. -/
theorem listItems_range_and_places (items : List String) :
    ((∃ list, listItems list = items) ↔ ∀ item ∈ items, IsItem item)
      ∧ ((∀ item ∈ items, IsItem item) → listItems (printList items) = items
        ∧ ∀ (c : Context) (bindings : Bindings),
          bindings.get .list = some (printList items) → ∀ i,
            (∀ item, items[i]? = some item → i < Text.wordLimit → '\x7b' ∉ item.toList →
              (c.resolve bindings (listPlaceholder i)).text = item
                ∧ (c.resolve bindings (listPlaceholder i)).complete = true)
            ∧ (items.length ≤ i →
              (c.resolve bindings (listPlaceholder i)).text = listPlaceholder i
                ∧ (c.resolve bindings (listPlaceholder i)).complete = false)) := by
  refine ⟨⟨?_, fun h => ⟨printList items, listItems_printList h⟩⟩, fun h => ?_⟩
  · rintro ⟨list, rfl⟩ item hitem
    exact isItem_of_mem_listItems hitem
  · have hread := listItems_printList h
    refine ⟨hread, fun c bindings hbound i => ?_⟩
    have hvalue : c.value? bindings .list (Text.numeralOf i)
        = if i < Text.wordLimit then items[i]? else none := by
      rw [c.value?_of_bound bindings hbound, Context.lookup, listItem?_numeralOf, hread]
    refine ⟨fun item hitem hlt hbrace => ?_, fun hbeyond => ?_⟩
    · rw [if_pos hlt, hitem] at hvalue
      have hplain : (Piece.marker .list (Text.numeralOf i)).Plain (c.value? bindings) :=
        plain_marker_numeralOf fun value hv => by
          rw [hvalue, Option.mem_some] at hv
          exact hv ▸ hbrace
      exact Context.resolve_marker_of_some hvalue hplain
        (h item (List.mem_of_getElem? hitem)).ne_empty (toList_listPlaceholder i)
    · rw [List.getElem?_eq_none hbeyond, ite_self] at hvalue
      have hplain : (Piece.marker .list (Text.numeralOf i)).Plain (c.value? bindings) :=
        plain_marker_numeralOf fun value hv => by
          rw [hvalue] at hv
          cases hv
      exact Context.resolve_marker_of_none hvalue hplain hbound (toList_listPlaceholder i)

/-- Items with quotes, brackets and blanks of their own. -/
def wrappedItems : List String := ["\"a\"", " (b) ", "'"]

theorem wrapped_items_in_places :
    (listItems (printList wrappedItems) = wrappedItems)
      ∧ (Context.oneSection.resolve { Bindings.empty with list := some (printList wrappedItems) }
          (listPlaceholder 1)).text = " (b) "
      ∧ (Context.oneSection.resolve { Bindings.empty with list := some (printList wrappedItems) }
          (listPlaceholder 3)).complete = false := by
  have hitems : ∀ item ∈ wrappedItems, IsItem item := by
    intro item hitem
    have hall : ∀ item ∈ wrappedItems, item ≠ "" ∧ ',' ∉ item.toList ∧ '\n' ∉ item.toList := by
      decide
    exact ⟨(hall item hitem).1, (hall item hitem).2.1, (hall item hitem).2.2⟩
  obtain ⟨hread, hplaces⟩ := (listItems_range_and_places wrappedItems).2 hitems
  have hbound : ({ Bindings.empty with list := some (printList wrappedItems) } : Bindings).get .list
      = some (printList wrappedItems) := rfl
  refine ⟨hread, ?_, ?_⟩
  · exact ((hplaces Context.oneSection _ hbound 1).1 " (b) " rfl (by decide) (by decide)).1
  · exact ((hplaces Context.oneSection _ hbound 3).2 (by decide)).2

end PackageScript.Placeholder
