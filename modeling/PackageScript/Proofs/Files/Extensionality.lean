import PackageScript.Proofs.Files.Queries

set_option autoImplicit false

/-! # A tree is what stands at its places

Directory entries are kept in order, so there is one way only to hold given files. Two trees with
the same entries at all places are the same tree (`Node.Ordered.ext`), and so are two file systems
with the same working directory (`FileSystem.ext_of_entryAt?`). A change that puts everything back
can therefore be followed place by place.
-/

namespace PackageScript

namespace Node

theorem entryAt?_cons (n : Node) (name : String) (rest : Place) :
    n.entryAt? (name :: rest) = (n.child? name).bind (·.entryAt? rest) := by
  rw [entryAt?, get?_cons, Option.map_bind]
  rfl

theorem Ordered.nodup_entries {es : List (String × Node)} (h : Ordered (.dir es)) : es.Nodup := by
  refine h.increasing.imp fun {a b} hlt heq => ?_
  rw [heq] at hlt
  exact String.lt_irrefl _ hlt

theorem Ordered.eq_of_lookup_eq {es ds : List (String × Node)} (hes : Ordered (.dir es))
    (hds : Ordered (.dir ds)) (h : ∀ name, es.lookup name = ds.lookup name) : es = ds := by
  have hmem : ∀ e, e ∈ es ↔ e ∈ ds := by
    rintro ⟨name, c⟩
    rw [← hes.lookup_eq_some_iff, ← hds.lookup_eq_some_iff, h]
  have hperm : es.Perm ds :=
    (List.perm_ext_iff_of_nodup hes.nodup_entries hds.nodup_entries).2 hmem
  -- names increase in both, and no name is smaller than itself
  refine hperm.eq_of_pairwise (fun a b _ _ hab hba => ?_) hes.increasing hds.increasing
  exact absurd (String.lt_trans hab hba) (String.lt_irrefl a.1)

/-- **Ordered trees with the same entries at all places are equal.** -/
theorem Ordered.ext {a b : Node} (ha : a.Ordered) (hb : b.Ordered)
    (h : ∀ place, a.entryAt? place = b.entryAt? place) : a = b := by
  induction ha generalizing b with
  | file bytes =>
      have hroot := h []
      cases b <;> simp_all [entryAt?, entry]
  | link target =>
      have hroot := h []
      cases b <;> simp_all [entryAt?, entry]
  | dir es increasing inside ih =>
      have hes : Ordered (.dir es) := .dir es increasing inside
      cases b with
      | file bytes => exact absurd (h []) (by simp [entryAt?, entry])
      | link target => exact absurd (h []) (by simp [entryAt?, entry])
      | dir ds =>
          rw [hes.eq_of_lookup_eq hb fun name => ?_]
          -- below the name both trees have the same entries, so the induction applies there
          have hbelow : ∀ rest, (es.lookup name).bind (·.entryAt? rest)
              = (ds.lookup name).bind (·.entryAt? rest) := fun rest => by
            have hrest := h (name :: rest)
            rwa [entryAt?_cons, entryAt?_cons] at hrest
          cases hc : es.lookup name with
          | none =>
              cases hd : ds.lookup name with
              | none => rfl
              | some d =>
                  have hroot := hbelow []
                  simp [hc, hd, entryAt?] at hroot
          | some c =>
              cases hd : ds.lookup name with
              | none =>
                  have hroot := hbelow []
                  simp [hc, hd, entryAt?] at hroot
              | some d =>
                  have hcd : c = d :=
                    ih (name, c) (hes.lookup_eq_some_iff.1 hc) (hb.child hd) fun rest => by
                      have hrest := hbelow rest
                      rwa [hc, hd] at hrest
                  rw [hcd]

end Node

namespace FileSystem

variable {fs fs' : FileSystem} {place : Place}

/-- **File systems with the same entries at all places are equal**, if they have the same working
directory. -/
theorem ext_of_entryAt? (hhome : fs.home = fs'.home)
    (h : ∀ q, fs.entryAt? q = fs'.entryAt? q) : fs = fs' := by
  have hroot : fs.root = fs'.root := fs.ordered.ext fs'.ordered h
  cases fs
  cases fs'
  subst hroot hhome
  rfl

theorem entryAt?_append_eq (fs : FileSystem) (place below : Place) :
    fs.entryAt? (place ++ below) = (fs.node? place).bind (·.entryAt? below) := by
  rw [entryAt?, Node.entryAt?, Node.get?_append, Option.map_bind]
  rfl

theorem node?_congr (h : ∀ below, fs.entryAt? (place ++ below) = fs'.entryAt? (place ++ below)) :
    fs.node? place = fs'.node? place := by
  simp only [entryAt?_append_eq] at h
  cases hn : fs.node? place with
  | none =>
      cases hn' : fs'.node? place with
      | none => rfl
      | some n' =>
          have hroot := h []
          simp [hn, hn', Node.entryAt?] at hroot
  | some n =>
      cases hn' : fs'.node? place with
      | none =>
          have hroot := h []
          simp [hn, hn', Node.entryAt?] at hroot
      | some n' =>
          rw [(fs.ordered.get? hn).ext (fs'.ordered.get? hn') fun below => ?_]
          have hbelow := h below
          rwa [hn, hn'] at hbelow

end FileSystem

end PackageScript
