import PackageScript.Proofs.Files.Spared
import PackageScript.Proofs.Guard.Protected

set_option autoImplicit false

/-! # Moves and the protected trees

The guard is asked about the source of a move and not about its destination, and what stands where
a moved file lands is replaced. So a move whose source lies apart from a protected tree keeps the
files in that tree up to those that the move itself lands on (`Setting.move_spares_protected`).
A file in a protected tree that is named as the destination is lost
(`Setting.move_replaces_protected`).
-/

namespace PackageScript

def Entry.bytes? : Entry → Option (Array UInt8)
  | .file b => some b.data
  | _ => none

namespace Setting

open FileSystem (Landed)

variable {s : Setting} {w : World}

theorem not_prefix_below {a b : Place} (hab : ¬ a <+: b) (hba : ¬ b <+: a) (below : Place) :
    ¬ a <+: b ++ below := fun h =>
  (List.prefix_or_prefix_of_prefix h (List.prefix_append b below)).elim hab hba

/-- **A move from elsewhere keeps the files in a protected tree**, except where it lands, whatever
its destination is and however it ends. -/
theorem move_spares_protected (root : HostPath) (hfs : w.files.Plain) {src : String}
    (hplain : isPattern (scriptPath src) = false) (dst : String) :
    ∀ tree ∈ Guard.ultraProtectedNames,
      ¬ w.files.locate (s.locate src) <+: w.files.locate (root.child tree) →
      ¬ w.files.locate (root.child tree) <+: w.files.locate (s.locate src) →
      ∀ name below b,
        w.files.entryAt? (w.files.locate (root.child tree) ++ name :: below) = some (.file b) →
        ¬ w.files.Landed (s.locate src) (s.locate dst)
            (w.files.locate (root.child tree) ++ name :: below) →
        ((s.move src dst).filesAfter w).entryAt?
          (w.files.locate (root.child tree) ++ name :: below) = some (.file b) := by
  intro tree htree habove hbelow name below b hb hlanded
  have hmoved : ¬ w.files.Moved (s.locate src) (s.locate dst)
      (w.files.locate (root.child tree) ++ name :: below) := by
    rintro (hsrc | hdst)
    · exact not_prefix_below habove hbelow (name :: below) hsrc
    · exact hlanded hdst
  rw [filesAfter_move_plain s w dst hplain]
  split
  · exact hb
  · split
    · exact (FileAction.moveEntry_spares hfs (s.locate src) (s.locate dst)).after.file _ b hmoved hb
    · exact hb

/-! ### A file moved over a protected one -/

/-- On the card with a backup, the theorem says that moving the backup to a new name in the
protected tree leaves the file there. -/
theorem backedUpCard_save_kept :
    let w := World.ofFiles backedUpCard
    let src := onRootCard.locate "sdmc:/backup/Nintendo/save"
    let tree := w.files.locate (HostPath.child ⟨"/"⟩ "Nintendo")
    w.files.Plain ∧ isPattern (scriptPath "sdmc:/backup/Nintendo/save") = false
      ∧ "Nintendo" ∈ Guard.ultraProtectedNames
      ∧ ¬ w.files.locate src <+: tree ∧ ¬ tree <+: w.files.locate src
      ∧ w.files.entryAt? (tree ++ ["save"]) = some (.file ⟨#[49]⟩)
      ∧ ¬ w.files.Landed src (onRootCard.locate "sdmc:/Nintendo/old") (tree ++ ["save"])
      ∧ ((onRootCard.move "sdmc:/backup/Nintendo/save" "sdmc:/Nintendo/old").filesAfter
          w).entryAt? (tree ++ ["save"]) = some (.file ⟨#[49]⟩) := by
  intro w src tree
  have hplain : isPattern (scriptPath "sdmc:/backup/Nintendo/save") = false := by decide +kernel
  have hplace : tree = ["Nintendo"] := by decide +kernel
  have hsource : w.files.locate src = ["backup", "Nintendo", "save"] := by decide +kernel
  have habove : ¬ w.files.locate src <+: tree := by
    rw [hplace, hsource]
    decide
  have hbelow : ¬ tree <+: w.files.locate src := by
    rw [hplace, hsource]
    decide
  have hfile : w.files.entryAt? (tree ++ ["save"]) = some (.file ⟨#[49]⟩) := by
    rw [hplace]
    rfl
  have hlanded : ¬ w.files.Landed src (onRootCard.locate "sdmc:/Nintendo/old")
      (tree ++ ["save"]) := by
    rw [Landed, if_neg (by decide +kernel), hplace]
    decide +kernel
  exact ⟨backedUpCard_plain, hplain, by decide, habove, hbelow, hfile, hlanded,
    move_spares_protected ⟨"/"⟩ backedUpCard_plain hplain "sdmc:/Nintendo/old" "Nintendo"
      (by decide) habove hbelow "save" [] ⟨#[49]⟩ hfile hlanded⟩

/-- **A move replaces a file in a protected tree** if its destination names the file. -/
theorem move_replaces_protected :
    ¬ ∀ (s : Setting) (root : HostPath) (w : World) (src dst : String),
      s.config = Config.withRoot root → w.files.Plain → isPattern (scriptPath src) = false →
      Guard.isDangerous (scriptPath src) = false →
      (∀ tree ∈ Guard.ultraProtectedNames,
        ¬ w.files.locate (s.locate src) <+: w.files.locate (root.child tree)
          ∧ ¬ w.files.locate (root.child tree) <+: w.files.locate (s.locate src)) →
      ∀ tree ∈ Guard.ultraProtectedNames, ∀ name below b,
        w.files.entryAt? (w.files.locate (root.child tree) ++ name :: below) = some (.file b) →
        ((s.move src dst).filesAfter w).entryAt?
          (w.files.locate (root.child tree) ++ name :: below) = some (.file b) := by
  intro hall
  have hsource : backedUpCard.locate (onRootCard.locate "sdmc:/backup/Nintendo/save")
      = ["backup", "Nintendo", "save"] := by decide +kernel
  have htrees : ∀ tree ∈ Guard.ultraProtectedNames,
      backedUpCard.locate (HostPath.child ⟨"/"⟩ tree) = [tree] := by decide +kernel
  have hapart : ∀ tree ∈ Guard.ultraProtectedNames,
      ¬ ["backup", "Nintendo", "save"] <+: [tree]
        ∧ ¬ [tree] <+: ["backup", "Nintendo", "save"] := by
    decide
  have hkept := hall onRootCard ⟨"/"⟩ (World.ofFiles backedUpCard) "sdmc:/backup/Nintendo/save"
    "sdmc:/Nintendo/save" rfl backedUpCard_plain (by decide +kernel) (by decide +kernel)
    (fun tree htree => by
      show ¬ backedUpCard.locate _ <+: backedUpCard.locate _
        ∧ ¬ backedUpCard.locate _ <+: backedUpCard.locate _
      rw [hsource, htrees tree htree]
      exact hapart tree htree)
    "Nintendo" (by decide) "save" [] ⟨#[49]⟩ (by
      show backedUpCard.entryAt? (backedUpCard.locate _ ++ _) = _
      rw [htrees "Nintendo" (by decide)]
      rfl)
  -- the file that stands there afterwards is the one that was moved
  have hmoved : (((onRootCard.move "sdmc:/backup/Nintendo/save"
      "sdmc:/Nintendo/save").filesAfter (World.ofFiles backedUpCard)).entryAt?
        ["Nintendo", "save"]).bind Entry.bytes? = some #[50] := by decide +kernel
  have hplace : (World.ofFiles backedUpCard).files.locate (HostPath.child ⟨"/"⟩ "Nintendo")
      = ["Nintendo"] := htrees "Nintendo" (by decide)
  rw [hplace, List.singleton_append] at hkept
  rw [hkept] at hmoved
  exact absurd hmoved (by decide)

end Setting

end PackageScript
