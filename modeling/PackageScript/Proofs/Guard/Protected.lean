import PackageScript.Guard
import PackageScript.Proofs.Files.Effects
import PackageScript.Proofs.Path.Volumes
import PackageScript.Proofs.Text.Search

set_option autoImplicit false

/-! # The protected trees and what the guard's answer tells

Nothing at or below two trees of the card is to be deleted or moved. The guard refuses a path by
its text, and this file says what the text of an accepted path is like: it has no name that leads
up (`Guard.dots_not_mem_segments`), and on the card it does not begin with the name of a protected
tree and a slash (`Guard.ne_below_tree`).
-/

namespace PackageScript

namespace Guard

/-- The names of the trees at and below which nothing is deleted or moved. -/
def ultraProtectedNames : List String := ["Nintendo", "emuMMC"]

theorem ultraProtectedRoots_eq :
    ultraProtectedRoots = ultraProtectedNames.map fun name => cardMark ++ name ++ "/" := by
  decide +kernel

theorem isName_of_mem_ultraProtectedNames :
    ∀ name ∈ ultraProtectedNames, IsName name := by decide

theorem segments_eq_steps (path : String) : segments path = HostPath.steps ⟨path⟩ := rfl

theorem segments_eq_names (path : String) : segments path = Text.names path.toList :=
  HostPath.steps_eq ⟨path⟩

theorem segments_onCard (rest : String) :
    segments (cardMark ++ rest) = "sdmc:" :: segments rest := by
  rw [segments_eq_names, segments_eq_names, String.toList_append]
  exact Text.names_slash "sdmc:".toList rest.toList

theorem not_dots_infix {path : String} (h : isDangerous path = false) :
    ¬ "..".toList <:+: path.toList := by
  intro hin
  have htraversal : traversals.any (Text.contains path) = true :=
    List.any_eq_true.2 ⟨"..", List.mem_cons_self, Text.occursIn_iff.2 hin⟩
  rw [isDangerous, htraversal, Bool.or_true] at h
  cases h

/-- No path that the guard accepts has a segment `..`. -/
theorem dots_not_mem_segments {path : String} (h : isDangerous path = false) :
    ".." ∉ segments path := by
  intro hmem
  rw [segments_eq_names] at hmem
  exact not_dots_infix h (Text.infix_of_mem_names hmem)

theorem dots_not_mem_segments_onCard {rest : String}
    (h : isDangerous (cardMark ++ rest) = false) : ".." ∉ segments rest := by
  have hdots := dots_not_mem_segments h
  rw [segments_onCard] at hdots
  exact (List.ne_and_not_mem_of_not_mem_cons hdots).2

/-- No path on the card that the guard accepts begins with a protected tree and a slash. -/
theorem ne_below_tree {rest tree : String} (h : isDangerous (cardMark ++ rest) = false)
    (htree : tree ∈ ultraProtectedNames) (below : List Char) :
    rest.toList ≠ tree.toList ++ '/' :: below := by
  intro hrest
  have hstart : Text.startsWith (cardMark ++ rest) (cardMark ++ tree ++ "/") = true := by
    have hpath : (cardMark ++ rest).toList = (cardMark ++ tree ++ "/").toList ++ below := by
      simp [String.toList_append, hrest]
    rw [Text.startsWith, Text.dropStart?_eq_some_iff.2 hpath]
    rfl
  have hultra : ultraProtectedRoots.any (Text.startsWith (cardMark ++ rest)) = true := by
    rw [ultraProtectedRoots_eq]
    exact List.any_eq_true.2 ⟨_, List.mem_map_of_mem htree, hstart⟩
  rw [isDangerous, hultra] at h
  simp at h

end Guard

/-- Whether a path leads to a place strictly below that of another. -/
def FileSystem.StrictlyBelow (fs : FileSystem) (top p : HostPath) : Prop :=
  ∃ name below, fs.locate p = fs.locate top ++ name :: below

/-- A card with one directory in a protected tree. -/
def consoleCard : FileSystem :=
  ((FileSystem.empty []).setDir ["Nintendo"]).setDir ["Nintendo", "Contents"]

theorem consoleCard_plain : consoleCard.Plain := by
  have hslot : (FileSystem.empty []).Slot ([] ++ ["Nintendo"]) := ⟨rfl, by decide⟩
  have hmade : FileSystem.Overlay (fun _ => False) (FileSystem.empty [])
      ((FileSystem.empty []).setDir ["Nintendo"]) := .setDir FileSystem.plain_empty hslot rfl
  have hslot' : ((FileSystem.empty []).setDir ["Nintendo"]).Slot (["Nintendo"] ++ ["Contents"]) :=
    ⟨rfl, by decide⟩
  have hmade' : FileSystem.Overlay (fun _ => False)
      ((FileSystem.empty []).setDir ["Nintendo"]) consoleCard := .setDir hmade.plain hslot' rfl
  exact hmade'.plain

/-- A card with a file in a protected tree, and with a mirror of that tree in another place. -/
def backedUpCard : FileSystem :=
  (((consoleCard.setFile ["Nintendo", "save"] ⟨#[49]⟩).setDir ["backup"]).setDir
    ["backup", "Nintendo"]).setFile ["backup", "Nintendo", "save"] ⟨#[50]⟩

theorem backedUpCard_plain : backedUpCard.Plain := by
  have hsave : (consoleCard.setFile (["Nintendo"] ++ ["save"]) ⟨#[49]⟩).Plain :=
    consoleCard_plain.setFile rfl (by decide) (fun h => by cases h) _
  have hbackup :
      ((consoleCard.setFile ["Nintendo", "save"] ⟨#[49]⟩).setDir ([] ++ ["backup"])).Plain :=
    hsave.setDir rfl (by decide) rfl
  have htree : (((consoleCard.setFile ["Nintendo", "save"] ⟨#[49]⟩).setDir ["backup"]).setDir
      (["backup"] ++ ["Nintendo"])).Plain := hbackup.setDir rfl (by decide) rfl
  have hmirror : ((((consoleCard.setFile ["Nintendo", "save"] ⟨#[49]⟩).setDir ["backup"]).setDir
      ["backup", "Nintendo"]).setFile (["backup", "Nintendo"] ++ ["save"]) ⟨#[50]⟩).Plain :=
    htree.setFile rfl (by decide) (fun h => by cases h) _
  exact hmirror

end PackageScript
