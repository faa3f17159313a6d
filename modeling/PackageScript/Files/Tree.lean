set_option autoImplicit false

/-! # Trees of files

A node is a file with its bytes, a symbolic link with the text of its target, or a directory
with named entries. A place is the list of names that leads from a node to another one. The
file holds looking up a place, putting a node there and taking it away, and the order of
directory entries that all of these keep: names increase, so no name occurs twice.

What each operation does is said through `Node.entryAt?`, which tells what stands at a place
without the subtree below it.
-/

namespace PackageScript

/-- The names that lead from a directory to something below it. -/
abbrev Place := List String

/-- A file, a symbolic link, or a directory with everything in it. -/
inductive Node where
  | file (bytes : ByteArray)
  | link (target : String)
  | dir (entries : List (String × Node))

/-- What stands at a place, the contents of a directory aside. -/
inductive Entry where
  | file (bytes : ByteArray)
  | link (target : String)
  | dir

instance : Inhabited Node := ⟨.dir []⟩

/-! ## Named entries -/

/-- Puts an entry in front of the first larger name, or in the place of an equal one. -/
def insertEntry (name : String) (node : Node) : List (String × Node) → List (String × Node)
  | [] => [(name, node)]
  | (k, v) :: rest =>
      if name < k then (name, node) :: (k, v) :: rest
      else if name = k then (name, node) :: rest
      else (k, v) :: insertEntry name node rest

def eraseEntry (name : String) (entries : List (String × Node)) : List (String × Node) :=
  entries.filter fun e => e.1 != name

theorem lookup_entry_cons (k j : String) (v : Node) (es : List (String × Node)) :
    ((j, v) :: es).lookup k = if k = j then some v else es.lookup k := by
  by_cases h : k = j
  · simp [h]
  · have : (k == j) = false := by simpa using h
    simp [List.lookup_cons, h, this]

theorem lookup_insertEntry (name k : String) (node : Node) (es : List (String × Node)) :
    (insertEntry name node es).lookup k = if k = name then some node else es.lookup k := by
  induction es with
  | nil => simp [insertEntry, lookup_entry_cons]
  | cons e es ih =>
      obtain ⟨j, v⟩ := e
      unfold insertEntry
      by_cases hlt : name < j
      · simp [hlt, lookup_entry_cons]
      · by_cases heq : name = j
        · subst heq
          by_cases h : k = name <;> simp [lookup_entry_cons, h]
        · simp only [hlt, heq, if_false, lookup_entry_cons, ih]
          by_cases hkj : k = j
          · subst hkj
            simp [Ne.symm heq]
          · simp [hkj]

theorem lookup_eraseEntry (name k : String) (es : List (String × Node)) :
    (eraseEntry name es).lookup k = if k = name then none else es.lookup k := by
  induction es with
  | nil => simp [eraseEntry]
  | cons e es ih =>
      obtain ⟨j, v⟩ := e
      unfold eraseEntry at ih ⊢
      by_cases hj : j = name
      · subst hj
        have hf : List.filter (fun e => e.1 != j) ((j, v) :: es)
            = List.filter (fun e => e.1 != j) es := by simp
        rw [hf, ih, lookup_entry_cons]
        by_cases h : k = j <;> simp [h]
      · by_cases h : k = name
        · subst h
          simp [hj, lookup_entry_cons, Ne.symm hj, ih]
        · simp [hj, lookup_entry_cons, h, ih]

namespace Node

/-! ## Looking up -/

/-- The entries of a directory, none for any other node. -/
def entries : Node → List (String × Node)
  | .dir es => es
  | _ => []

def isDir : Node → Bool
  | .dir _ => true
  | _ => false

def child? (n : Node) (name : String) : Option Node := n.entries.lookup name

def get? : Node → Place → Option Node
  | n, [] => some n
  | n, name :: rest =>
      match n.child? name with
      | some c => c.get? rest
      | none => none

/-- The kind of a node, with the bytes of a file and the target of a link. -/
def entry : Node → Entry
  | .file b => .file b
  | .link t => .link t
  | .dir _ => .dir

def entryAt? (n : Node) (place : Place) : Option Entry := (n.get? place).map entry

/-! ## Changing -/

/-- Puts a node at a place whose directory exists. Elsewhere nothing changes. -/
def put : Node → Place → Node → Node
  | _, [], v => v
  | .dir es, [name], v => .dir (insertEntry name v es)
  | .dir es, name :: next :: rest, v =>
      match es.lookup name with
      | some c => .dir (insertEntry name (c.put (next :: rest) v) es)
      | none => .dir es
  | n, _ :: _, _ => n

def erase : Node → Place → Node
  | .dir es, [name] => .dir (eraseEntry name es)
  | .dir es, name :: next :: rest =>
      match es.lookup name with
      | some c => .dir (insertEntry name (c.erase (next :: rest)) es)
      | none => .dir es
  | n, _ => n

/-! ## What a change does -/

@[simp] theorem get?_nil (n : Node) : n.get? [] = some n := by cases n <;> rfl

theorem get?_cons (n : Node) (name : String) (rest : Place) :
    n.get? (name :: rest) = (n.child? name).bind (·.get? rest) := by
  simp only [get?]
  cases n.child? name <;> rfl

theorem get?_append (n : Node) (p q : Place) :
    n.get? (p ++ q) = (n.get? p).bind (·.get? q) := by
  induction p generalizing n with
  | nil => simp
  | cons name rest ih =>
      simp only [List.cons_append, get?_cons]
      cases n.child? name with
      | none => rfl
      | some c => simpa using ih c

theorem get?_of_get?_append {n m : Node} {p q : Place} (h : n.get? (p ++ q) = some m) :
    ∃ c, n.get? p = some c ∧ c.get? q = some m := by
  rw [get?_append] at h
  exact Option.bind_eq_some_iff.1 h

theorem get?_put_append {n : Node} {p : Place} {name : String} {es : List (String × Node)}
    (h : n.get? p = some (.dir es)) (v : Node) (q : Place) :
    (n.put (p ++ [name]) v).get? (p ++ name :: q) = v.get? q := by
  induction p generalizing n with
  | nil =>
      simp only [get?_nil, Option.some.injEq] at h
      subst h
      simp [put, get?_cons, child?, entries, lookup_insertEntry]
  | cons a rest ih =>
      rw [get?_cons] at h
      obtain ⟨c, hc, hcp⟩ := Option.bind_eq_some_iff.1 h
      cases n with
      | file b => simp [child?, entries] at hc
      | link t => simp [child?, entries] at hc
      | dir ds =>
          have hl : ds.lookup a = some c := hc
          cases rest with
          | nil =>
              have := ih hcp
              simp [put, hl, get?_cons, child?, entries, lookup_insertEntry] at this ⊢
              simpa [get?_cons, child?, entries] using this
          | cons b rest =>
              have := ih hcp
              simp [put, hl, get?_cons, child?, entries, lookup_insertEntry] at this ⊢
              simpa [get?_cons, child?, entries] using this

/-- A put node changes what stands at no place but its own and those below it. -/
theorem entryAt?_put_of_not_below {n : Node} {p q : Place} (v : Node) (h : ¬ p <+: q) :
    (n.put p v).entryAt? q = n.entryAt? q := by
  induction p generalizing n q with
  | nil => exact absurd List.nil_prefix h
  | cons a rest ih =>
      cases n with
      | file b => cases rest <;> rfl
      | link t => cases rest <;> rfl
      | dir ds =>
          cases q with
          | nil =>
              cases rest with
              | nil => rfl
              | cons b rest =>
                  simp only [put]
                  split <;> rfl
          | cons c q =>
              by_cases hac : c = a
              · subst hac
                have hr : ¬ rest <+: q := fun hp => h (List.cons_prefix_cons.2 ⟨rfl, hp⟩)
                cases rest with
                | nil => exact absurd List.nil_prefix hr
                | cons b rest =>
                    simp only [put]
                    cases hl : ds.lookup c with
                    | none => rfl
                    | some child =>
                        have := ih (n := child) hr
                        simpa [entryAt?, get?_cons, child?, entries, lookup_insertEntry, hl]
                          using this
              · cases rest with
                | nil => simp [put, entryAt?, get?_cons, child?, entries, lookup_insertEntry, hac]
                | cons b rest =>
                    simp only [put]
                    cases hl : ds.lookup a with
                    | none => rfl
                    | some child =>
                        simp [entryAt?, get?_cons, child?, entries, lookup_insertEntry, hac]

theorem get?_erase_append (n : Node) (p : Place) (name : String) (q : Place) :
    (n.erase (p ++ [name])).get? (p ++ name :: q) = none := by
  induction p generalizing n with
  | nil => cases n <;> simp [erase, get?_cons, child?, entries, lookup_eraseEntry]
  | cons a rest ih =>
      cases n with
      | file b => cases rest <;> simp [erase, get?_cons, child?, entries]
      | link t => cases rest <;> simp [erase, get?_cons, child?, entries]
      | dir ds =>
          cases rest with
          | nil =>
              simp only [List.nil_append, List.cons_append, erase]
              cases hl : ds.lookup a with
              | none => simp [get?_cons, child?, entries, hl]
              | some c =>
                  have := ih c
                  simpa [get?_cons, child?, entries, lookup_insertEntry] using this
          | cons b rest =>
              simp only [List.cons_append, erase]
              cases hl : ds.lookup a with
              | none => simp [get?_cons, child?, entries, hl]
              | some c =>
                  have := ih c
                  simpa [get?_cons, child?, entries, lookup_insertEntry] using this

/-- An erasure changes what stands at no place but its own and those below it. -/
theorem entryAt?_erase_of_not_below {n : Node} {p q : Place} (h : ¬ p <+: q) :
    (n.erase p).entryAt? q = n.entryAt? q := by
  induction p generalizing n q with
  | nil => exact absurd List.nil_prefix h
  | cons a rest ih =>
      cases n with
      | file b => cases rest <;> rfl
      | link t => cases rest <;> rfl
      | dir ds =>
          cases q with
          | nil =>
              cases rest with
              | nil => rfl
              | cons b rest =>
                  simp only [erase]
                  split <;> rfl
          | cons c q =>
              by_cases hac : c = a
              · subst hac
                have hr : ¬ rest <+: q := fun hp => h (List.cons_prefix_cons.2 ⟨rfl, hp⟩)
                cases rest with
                | nil => exact absurd List.nil_prefix hr
                | cons b rest =>
                    simp only [erase]
                    cases hl : ds.lookup c with
                    | none => rfl
                    | some child =>
                        have := ih (n := child) hr
                        simpa [entryAt?, get?_cons, child?, entries, lookup_insertEntry, hl]
                          using this
              · cases rest with
                | nil => simp [erase, entryAt?, get?_cons, child?, entries, lookup_eraseEntry, hac]
                | cons b rest =>
                    simp only [erase]
                    cases hl : ds.lookup a with
                    | none => rfl
                    | some child =>
                        simp [entryAt?, get?_cons, child?, entries, lookup_insertEntry, hac]

/-! ## The order of entries -/

/-- In every directory the names increase. -/
inductive Ordered : Node → Prop
  | file (b : ByteArray) : Ordered (.file b)
  | link (t : String) : Ordered (.link t)
  | dir (es : List (String × Node)) (increasing : es.Pairwise fun a b => a.1 < b.1)
      (inside : ∀ e ∈ es, e.2.Ordered) : Ordered (.dir es)

theorem Ordered.increasing {es : List (String × Node)} (h : Ordered (.dir es)) :
    es.Pairwise fun a b => a.1 < b.1 := by
  cases h with
  | dir _ hp _ => exact hp

theorem Ordered.inside {es : List (String × Node)} (h : Ordered (.dir es)) :
    ∀ e ∈ es, e.2.Ordered := by
  cases h with
  | dir _ _ hb => exact hb

theorem mem_insertEntry {name : String} {node : Node} {es : List (String × Node)}
    {e : String × Node} (h : e ∈ insertEntry name node es) : e = (name, node) ∨ e ∈ es := by
  induction es with
  | nil => simpa [insertEntry] using h
  | cons d es ih =>
      unfold insertEntry at h
      split at h
      · simpa using h
      · split at h
        · rcases List.mem_cons.1 h with h | h
          · exact Or.inl h
          · exact Or.inr (List.mem_cons_of_mem _ h)
        · rcases List.mem_cons.1 h with h | h
          · exact Or.inr (h ▸ List.mem_cons_self)
          · exact (ih h).imp id (List.mem_cons_of_mem _)

theorem increasing_insertEntry {name : String} {node : Node} {es : List (String × Node)}
    (h : es.Pairwise fun a b => a.1 < b.1) :
    (insertEntry name node es).Pairwise fun a b => a.1 < b.1 := by
  induction es with
  | nil => simp [insertEntry]
  | cons d es ih =>
      obtain ⟨k, v⟩ := d
      have hk := List.pairwise_cons.1 h
      unfold insertEntry
      split
      · next hlt =>
          refine List.pairwise_cons.2 ⟨fun e he => ?_, h⟩
          rcases List.mem_cons.1 he with rfl | he
          · exact hlt
          · exact String.lt_trans hlt (hk.1 e he)
      · next hlt =>
          split
          · next heq =>
              subst heq
              exact List.pairwise_cons.2 ⟨hk.1, hk.2⟩
          · next hne =>
              refine List.pairwise_cons.2 ⟨fun e he => ?_, ih hk.2⟩
              rcases mem_insertEntry he with rfl | he
              · exact String.not_le.1 fun hle => hne (String.le_antisymm hle (String.not_lt.1 hlt))
              · exact hk.1 e he

theorem Ordered.child {n c : Node} {name : String} (h : n.Ordered)
    (hc : n.child? name = some c) : c.Ordered := by
  cases n with
  | file b => simp [child?, entries] at hc
  | link t => simp [child?, entries] at hc
  | dir es =>
      obtain ⟨l, _, hmem, _⟩ := List.lookup_eq_some_iff.1 hc
      have hes : es = l ++ (name, c) :: _ := hmem
      exact h.inside (name, c) (by rw [hes]; simp)

theorem Ordered.insertEntry {name : String} {node : Node} {es : List (String × Node)}
    (h : Ordered (.dir es)) (hn : node.Ordered) :
    Ordered (.dir (insertEntry name node es)) :=
  .dir _ (increasing_insertEntry h.increasing) fun e he => by
    rcases mem_insertEntry he with rfl | he
    · exact hn
    · exact h.inside e he

theorem Ordered.put {n v : Node} {p : Place} (h : n.Ordered) (hv : v.Ordered) :
    (n.put p v).Ordered := by
  induction p generalizing n with
  | nil => cases n <;> exact hv
  | cons a rest ih =>
      cases n with
      | file b => cases rest <;> exact h
      | link t => cases rest <;> exact h
      | dir es =>
          cases rest with
          | nil => exact h.insertEntry hv
          | cons b rest =>
              simp only [Node.put]
              split
              · next c hc => exact h.insertEntry (ih (h.child hc))
              · exact h

theorem Ordered.erase {n : Node} {p : Place} (h : n.Ordered) : (n.erase p).Ordered := by
  induction p generalizing n with
  | nil => cases n <;> exact h
  | cons a rest ih =>
      cases n with
      | file b => cases rest <;> exact h
      | link t => cases rest <;> exact h
      | dir es =>
          cases rest with
          | nil =>
              exact .dir _ (h.increasing.filter _) fun e he => h.inside e (List.mem_filter.1 he).1
          | cons b rest =>
              simp only [Node.erase]
              split
              · next c hc => exact h.insertEntry (ih (h.child hc))
              · exact h

end Node

end PackageScript
