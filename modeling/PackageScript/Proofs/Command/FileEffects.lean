import PackageScript.Command.Files
import PackageScript.Host.Detached
import PackageScript.Proofs.Files.Operations

set_option autoImplicit false

/-! # The files that a command leaves

Of a command that deletes or moves, what matters is what it leaves on the disk, and this does not
depend on whether it succeeds. `FileAction.after` and `Action.filesAfter` are the files that an
action leaves, however it ends. For each of the commands that ask the guard, this file says which
action on files stands behind it.
-/

namespace PackageScript

namespace FileAction

variable {α : Type} {act : FileAction α} {fs : FileSystem}

/-- The file system that an action leaves, however it ends. -/
def after (act : FileAction α) (fs : FileSystem) : FileSystem :=
  match act fs with
  | .ok _ fs' => fs'
  | .error _ fs' => fs'

theorem Ends.after {holds : FileSystem → Prop}
    (h : Ends act fs (fun _ fs' => holds fs') (fun _ fs' => holds fs')) : holds (act.after fs) := by
  rw [FileAction.after]
  cases hrun : act fs with
  | ok a fs' => exact h.of_ok hrun
  | error e fs' => exact h.of_error hrun

theorem after_bind_of_ok {β : Type} {next : α → FileAction β} {fs' : FileSystem} {a : α}
    (h : act fs = .ok a fs') : (act >>= next).after fs = (next a).after fs' := by
  rw [after, bind_of_ok h]
  rfl

theorem after_bind_of_error {β : Type} {next : α → FileAction β} {fs' : FileSystem} {e : FileError}
    (h : act fs = .error e fs') : (act >>= next).after fs = fs' := by
  have hrun : (act >>= next) fs = .error e fs' := by
    show EStateM.bind act next fs = _
    rw [EStateM.bind, h]
  rw [after, hrun]

end FileAction

namespace Action

variable {α β : Type}

def filesAfter (act : Action α) (w : World) : FileSystem :=
  match act w with
  | .ok _ w' => w'.files
  | .error _ w' => w'.files

theorem filesAfter_of_ok {act : Action α} {w w' : World} {a : α} (h : act w = .ok a w') :
    act.filesAfter w = w'.files := by
  rw [filesAfter, h]

theorem filesAfter_bind_of_ok {act : Action α} {next : α → Action β} {w w' : World} {a : α}
    (h : act w = .ok a w') : (act >>= next).filesAfter w = (next a).filesAfter w' := by
  have hrun : (act >>= next) w = next a w' := by
    show EStateM.bind act next w = _
    rw [EStateM.bind, h]
  rw [filesAfter, hrun]
  rfl

theorem filesAfter_bind_of_error {act : Action α} {next : α → Action β} {w w' : World}
    {e : ScriptError} (h : act w = .error e w') : (act >>= next).filesAfter w = w'.files := by
  have hrun : (act >>= next) w = .error e w' := by
    show EStateM.bind act next w = _
    rw [EStateM.bind, h]
  rw [filesAfter, hrun]

theorem filesAfter_look_bind (question : FileSystem → α) (next : α → Action β) (w : World) :
    (look question >>= next).filesAfter w = (next (question w.files)).filesAfter w :=
  filesAfter_bind_of_ok rfl

theorem filesAfter_noteAll_bind (notices : List Notice) (next : Unit → Action β) (w : World) :
    (noteAll notices >>= next).filesAfter w = (next ()).filesAfter (w.noteAll notices) :=
  filesAfter_bind_of_ok rfl

theorem filesAfter_bind_note (act : Action α) (notice : α → Notice) (w : World) :
    (act >>= fun a => note (notice a)).filesAfter w = act.filesAfter w := by
  cases hrun : act w with
  | ok a w' =>
      rw [filesAfter_bind_of_ok hrun, filesAfter, filesAfter, hrun]
      rfl
  | error e w' => rw [filesAfter_bind_of_error hrun, filesAfter, hrun]

theorem filesAfter_files (action : FileAction α) (w : World) :
    (files action).filesAfter w = action.after w.files := by
  rw [filesAfter, files, FileAction.after]
  cases action w.files <;> rfl

/-- An action on the files returns if it returns on them. -/
theorem of_files_eq_ok {action : FileAction α} {w w' : World} {a : α}
    (h : files action w = .ok a w') : action w.files = .ok a w'.files := by
  rw [files] at h
  cases hrun : action w.files with
  | ok b fs' =>
      rw [hrun] at h
      cases h
      rfl
  | error e fs' =>
      rw [hrun] at h
      cases h

end Action

namespace Setting

open PackageScript.Action (filesAfter)

variable (s : Setting) (w : World)

theorem filesAfter_expanded_bind {α : Type} (pattern : HostPath)
    (next : List HostPath → Action α) :
    (expanded pattern >>= next).filesAfter w
      = (next (w.files.expand pattern).1).filesAfter
          (w.noteAll (w.files.expand pattern).2) :=
  Action.filesAfter_bind_of_ok rfl

/-! ## Deleting and moving -/

theorem filesAfter_delete (pattern : String) :
    (s.delete pattern).filesAfter w
      = if Guard.isDangerous (scriptPath pattern) then w.files
        else (forEach FileAction.deleteTree
          (w.files.expand (s.config.hostPath (scriptPath pattern))).1).after w.files := by
  rw [delete]
  by_cases hrefused : Guard.isDangerous (scriptPath pattern) = true
  · rw [if_pos hrefused, if_pos hrefused]
    rfl
  · rw [if_neg hrefused, if_neg hrefused, filesAfter_expanded_bind, Action.filesAfter_files]
    rfl

theorem filesAfter_move_plain {src : String} (dst : String)
    (hplain : isPattern (scriptPath src) = false) :
    (s.move src dst).filesAfter w
      = if Guard.isDangerous (scriptPath src) then w.files
        else if w.files.exists? (s.config.hostPath (scriptPath src)) then
          (FileAction.moveEntry (s.config.hostPath (scriptPath src)) (s.locate dst)).after w.files
        else w.files := by
  rw [move]
  by_cases hrefused : Guard.isDangerous (scriptPath src) = true
  · rw [if_pos hrefused, if_pos hrefused]
    rfl
  rw [if_neg hrefused, if_neg hrefused, hplain, if_neg (by simp), Action.filesAfter_look_bind]
  by_cases hexists : w.files.exists? (s.config.hostPath (scriptPath src)) = true
  · rw [if_pos hexists, if_pos hexists, Action.filesAfter_files]
  · rw [if_neg hexists, if_neg hexists]
    rfl

/-! ## Mirrors -/

theorem filesAfter_mirrorDeletion (source target : String) :
    (s.mirrorDeletion source target).filesAfter w
      = (w.files.mirrorDelete (refusesMirror target) (s.config.hostPath source)
          (s.config.hostPath target)).files := by
  rw [filesAfter, mirrorDeletion]
  cases (w.files.mirrorDelete (refusesMirror target) (s.config.hostPath source)
    (s.config.hostPath target)).outcome <;> rfl

theorem filesAfter_mirrorDelete (src : String) (rest : List String) :
    (s.mirrorDelete src rest).filesAfter w
      = (w.files.mirrorDelete (refusesMirror (s.mirrorTarget rest))
          (s.config.hostPath (scriptPath src))
          (s.config.hostPath (s.mirrorTarget rest))).files := by
  rw [mirrorDelete, Action.filesAfter_look_bind, Action.filesAfter_noteAll_bind,
    Action.filesAfter_bind_note, filesAfter_mirrorDeletion]
  rfl

/-- The setting of a command on a card in the root, without collaborators. -/
def onRootCard : Setting := ⟨Config.withRoot ⟨"/"⟩, Host.detached .erista, "sdmc:/", "o"⟩

/-- The setting of a command on a card in some directory. -/
def withCardAt (root : HostPath) : Setting := { onRootCard with config := Config.withRoot root }

end Setting

end PackageScript
