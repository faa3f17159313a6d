import PackageScript.Engine.Execute
import PackageScript.Proofs.Files.Lookups
import PackageScript.Proofs.Files.Replacing

set_option autoImplicit false

/-! # The file that a log is written to

A log line is written in two steps: the file is opened, which makes the directories around it if
they are missing (`FileAction.openToAppend`), and the line is put at its end. What a tree looks like
when only log lines were written since the start is said by `FileSystem.recorded`.

Other things may happen to the tree between two lines. As long as they leave the way of the log file
alone, the next line is written as if they had not happened (`Engine.appendLogLine_recorded`). So
the file holds what it held in the beginning and then the lines (`FileSystem.readBytes_recorded`).
-/

namespace PackageScript

namespace FileSystem

/-- **The tree after some log lines**, if nothing else has happened since the start. The first line
opens the file, and after that only the file changes. -/
def recorded (start opened : FileSystem) (place : Place) (lines : List String) : FileSystem :=
  if lines = [] then start
  else opened.setFile place (start.contentAt place ++ (String.join lines).toUTF8)

end FileSystem

namespace FileAction

variable {fs opened : FileSystem} {path : HostPath} {place : Place}

/-- Opens a file to write at its end: makes the directories around it and finds its place. -/
def openToAppend (path : HostPath) : FileAction Place := do
  ensureParent path
  ask (writePlace path)

theorem openToAppend_eq_ok_iff : openToAppend path fs = .ok place opened
    ↔ ensureParent path fs = .ok () opened ∧ writePlace path opened = .ok place := by
  rw [openToAppend, bind_eq_ok_iff]
  constructor
  · rintro ⟨⟨⟩, fs1, hparent, hask⟩
    obtain ⟨hplace, rfl⟩ := ask_eq_ok_iff.1 hask
    exact ⟨hparent, hplace⟩
  · rintro ⟨hparent, hplace⟩
    exact ⟨(), opened, hparent, ask_eq_ok_iff.2 ⟨hplace, rfl⟩⟩

theorem appendFile_eq (h : writePlace path fs = .ok place) (bytes : ByteArray) :
    appendFile path bytes fs = .ok () (fs.setFile place (fs.contentAt place ++ bytes)) := by
  rw [appendFile, h]
  dsimp only
  rw [FileSystem.contentAt, FileSystem.entryAt?_eq_map]
  cases fs.node? place with
  | none => simp
  | some node => cases node <;> simp [Node.entry]

end FileAction

/-! ## An opened file -/

namespace FileSystem

open FileAction (openToAppend openToAppend_eq_ok_iff writePlace_eq_ok_iff_resolve)

variable {start opened fs : FileSystem} {path : HostPath} {place : Place} {lines : List String}

theorem begins_self {mode : Follow} {spot : Spot}
    (h : opened.resolve mode path = .ok spot) : Begins path path :=
  ⟨fun hnil => (resolve_eq_ok_iff_walks.1 h).1.ne_empty (HostPath.parts_eq_nil_iff.1 hnil),
    List.prefix_rfl⟩

theorem not_link_of_resolve {spot : Spot}
    (h : opened.resolve .always path = .ok spot) (target : String) :
    opened.entryAt? spot.place ≠ some (.link target) := by
  obtain ⟨-, horigin, hway⟩ := resolve_eq_ok_iff_walks.1 h
  rcases hway.ends horigin with hdir | ⟨-, hnolink⟩
  · rw [hdir]
    simp
  · exact hnolink rfl target

variable (hopen : openToAppend path start = .ok place opened)
include hopen

theorem resolve_of_open : opened.resolve .always path = .ok ⟨place, false⟩ :=
  (writePlace_eq_ok_iff_resolve.1 (openToAppend_eq_ok_iff.1 hopen).2).2.2.1

theorem entry_of_open : opened.entryAt? place ≠ some .dir :=
  (writePlace_eq_ok_iff_resolve.1 (openToAppend_eq_ok_iff.1 hopen).2).2.2.2

theorem passes_of_open : opened.Passes path place :=
  ⟨path, begins_self (resolve_of_open hopen), looksAt_of_resolve (resolve_of_open hopen)⟩

theorem contentAt_of_open : opened.contentAt place = start.contentAt place := by
  obtain ⟨hparent, -⟩ := openToAppend_eq_ok_iff.1 hopen
  rcases ((FileAction.ensureParent_along path start).of_ok hparent).entry place with
    heq | ⟨-, hdir, -⟩
  · exact contentAt_congr heq
  · exact absurd hdir (entry_of_open hopen)

theorem entryAt?_recorded (hne : lines ≠ []) (q : Place) :
    (recorded start opened place lines).entryAt? q
      = if q = place
        then some (.file (start.contentAt place ++ (String.join lines).toUTF8))
        else opened.entryAt? q := by
  rw [recorded, if_neg hne]
  exact entryAt?_setFile_of_resolve (resolve_of_open hopen) (entry_of_open hopen) _ q

/-- Log lines make and take away no directory once the file is open. -/
theorem dir_recorded_iff (hne : lines ≠ []) (q : Place) :
    (recorded start opened place lines).entryAt? q = some .dir
      ↔ opened.entryAt? q = some .dir := by
  rw [entryAt?_recorded hopen hne]
  split
  · next heq =>
      rw [heq]
      exact iff_of_false (by simp) (entry_of_open hopen)
  · exact Iff.rfl

theorem link_recorded_iff (hne : lines ≠ []) (q : Place) (target : String) :
    (recorded start opened place lines).entryAt? q = some (.link target)
      ↔ opened.entryAt? q = some (.link target) := by
  rw [entryAt?_recorded hopen hne]
  split
  · next heq =>
      rw [heq]
      exact iff_of_false (by simp) (not_link_of_resolve (resolve_of_open hopen) target)
  · exact Iff.rfl

/-- Once there are lines, their file is opened where it is. -/
theorem writePlace_recorded (hne : lines ≠ []) :
    FileAction.writePlace path (recorded start opened place lines) = .ok place := by
  have hresolve : ∀ {mode : Follow} {spot : Spot}, opened.resolve mode path = .ok spot →
      (recorded start opened place lines).resolve mode path = .ok spot := by
    intro mode spot h
    obtain ⟨husable, horigin, hway⟩ := resolve_eq_ok_iff_walks.1 h
    have hhome : (recorded start opened place lines).home = opened.home := by
      rw [recorded, if_neg hne]
      rfl
    refine resolve_eq_ok_iff_walks.2 ⟨husable, ?_⟩
    rw [origin_congr hhome, dir_recorded_iff hopen hne]
    exact ⟨horigin, hway.of_same_kinds (dir_recorded_iff hopen hne) (link_recorded_iff hopen hne)⟩
  obtain ⟨hslash, ⟨spot, hnever⟩, halways, -⟩ :=
    writePlace_eq_ok_iff_resolve.1 (openToAppend_eq_ok_iff.1 hopen).2
  refine writePlace_eq_ok_iff_resolve.2 ⟨hslash, ⟨spot, hresolve hnever⟩, hresolve halways, ?_⟩
  rw [entryAt?_recorded hopen hne, if_pos rfl]
  simp

theorem passes_of_recorded (hne : lines ≠ []) {q : Place}
    (h : (recorded start opened place lines).Passes path q) : opened.Passes path q := by
  refine h.mono ?_ (fun q => (dir_recorded_iff hopen hne q).1) fun q target =>
    (link_recorded_iff hopen hne q target).1
  rw [recorded, if_neg hne]
  rfl

/-- Once there are lines, nothing that happens away from the way of their file changes where it is
opened, or what it holds. -/
theorem file_along (hne : lines ≠ [])
    (hsame : SameAlong opened path (recorded start opened place lines) fs) :
    FileAction.writePlace path fs = .ok place
      ∧ fs.entryAt? place
        = some (.file (start.contentAt place ++ (String.join lines).toUTF8)) := by
  refine ⟨FileAction.writePlace_same hsame (fun _ => passes_of_recorded hopen hne)
    (begins_self (resolve_of_open hopen)) (writePlace_recorded hopen hne), ?_⟩
  rw [hsame.entry place (passes_of_open hopen), entryAt?_recorded hopen hne, if_pos rfl]

/-- **A file is opened again**, whatever happened away from its way, and it holds the lines. -/
theorem openToAppend_recorded
    (hsame : SameAlong opened path (recorded start opened place lines) fs) :
    ∃ fs', openToAppend path fs = .ok place fs'
      ∧ fs'.origin path = opened.origin path
      ∧ (∀ q, opened.Passes path q → q ≠ place → fs'.entryAt? q = opened.entryAt? q)
      ∧ fs'.contentAt place = start.contentAt place ++ (String.join lines).toUTF8 := by
  obtain ⟨hparent, hplace⟩ := openToAppend_eq_ok_iff.1 hopen
  by_cases hne : lines = []
  · -- the first line: the directories may have to be made
    rw [recorded, if_pos hne] at hsame
    obtain ⟨fs', hparent', hsame'⟩ := FileAction.ensureParent_same hsame hparent
    refine ⟨fs', openToAppend_eq_ok_iff.2 ⟨hparent',
      FileAction.writePlace_same hsame' (fun _ hq => hq) (begins_self (resolve_of_open hopen))
        hplace⟩, hsame'.origin, fun q hq _ => hsame'.entry q hq, ?_⟩
    rw [contentAt_congr (hsame'.entry place (passes_of_open hopen)), contentAt_of_open hopen, hne]
    simp
  · -- later lines: the path leads to the file
    obtain ⟨hwrite, hfile⟩ := file_along hopen hne hsame
    obtain ⟨-, -, halways, -⟩ := writePlace_eq_ok_iff_resolve.1 hwrite
    refine ⟨fs, openToAppend_eq_ok_iff.2 ⟨FileAction.ensureParent_of_resolve halways, hwrite⟩,
      ?_, fun q hq hother => ?_, contentAt_of_file hfile⟩
    · rw [hsame.origin, recorded, if_neg hne]
      rfl
    · rw [hsame.entry q hq, entryAt?_recorded hopen hne, if_neg hother]

/-- **What the file of some lines holds**, whatever happened away from its way. -/
theorem readBytes_recorded (hne : lines ≠ [])
    (hsame : SameAlong opened path (recorded start opened place lines) fs) :
    fs.readBytes path = .ok (start.contentAt place ++ (String.join lines).toUTF8) := by
  obtain ⟨hwrite, hfile⟩ := file_along hopen hne hsame
  obtain ⟨-, -, halways, -⟩ := writePlace_eq_ok_iff_resolve.1 hwrite
  exact readBytes_eq_ok_iff.2 ⟨place, find_eq_ok_iff_resolve.2
    ⟨_, halways, rfl, entryAt?_eq_file_iff.1 hfile, fun hslash => by cases hslash⟩⟩

end FileSystem

/-! ## Log lines -/

namespace Engine

open FileSystem (SameAlong recorded)
open FileAction (openToAppend)

variable {start opened fs fs' : FileSystem} {path : HostPath} {place : Place}

theorem appendLogLine_eq (h : openToAppend path fs = .ok place fs') (line : String) :
    appendLogLine path line fs
      = .ok () (fs'.setFile place (fs'.contentAt place ++ line.toUTF8)) := by
  obtain ⟨hparent, hplace⟩ := FileAction.openToAppend_eq_ok_iff.1 h
  rw [appendLogLine, FileAction.bind_of_ok hparent]
  exact FileAction.appendFile_eq hplace line.toUTF8

/-- **One more line is added to the lines before it**, whatever happened away from the way of the
file. -/
theorem appendLogLine_recorded (hopen : openToAppend path start = .ok place opened)
    {lines : List String} (hsame : SameAlong opened path (recorded start opened place lines) fs)
    (line : String) :
    ∃ fs', appendLogLine path line fs = .ok () fs'
      ∧ SameAlong opened path (recorded start opened place (lines ++ [line])) fs' := by
  obtain ⟨fs1, hopen1, horigin, hother, hcontent⟩ := FileSystem.openToAppend_recorded hopen hsame
  have hmore : lines ++ [line] ≠ [] := by simp
  refine ⟨_, appendLogLine_eq hopen1 line, ?_, fun q hq => ?_⟩
  · rw [recorded, if_neg hmore]
    exact horigin
  · rw [FileSystem.entryAt?_setFile_of_resolve (FileSystem.resolve_of_open hopen1)
      (FileSystem.entry_of_open hopen1), FileSystem.entryAt?_recorded hopen hmore]
    by_cases hplace : q = place
    · rw [if_pos hplace, if_pos hplace, hcontent, String.join_append, String.join_cons]
      simp [ByteArray.append_assoc]
    · rw [if_neg hplace, if_neg hplace]
      exact hother q hq hplace

end Engine

end PackageScript
