import PackageScript.Host.Detached
import PackageScript.Proofs.Engine.Steps

set_option autoImplicit false

/-! # Who raises the success flag

An interpretation sets the success flag at its entry. From then on the flag can only drop, but
for one exception: a marker that opens a retry chain sets it again. A call of the boot script is
no second exception. It sets the flag at its own entry and at its own markers, and hands it back
down to a caller whose flag was down.
-/

namespace PackageScript.Engine

variable (e : Engine)

/-- **Only markers heal.** A command that is executed with the flag down leaves it down, however
deep the calls of the boot script go from there. So after the entry of an interpretation the
flag rises at no step but at a marker of the block itself. -/
theorem success_rises_only_at_marker :
    (∀ (budget : Nat) (command : Command) (m : Machine), m.session.success = false →
      (e.execute (e.nested budget) command m).session.success = false) ∧
    (∀ (block : Block) (m : Machine), ∀ x ∈ e.interpretSteps block m,
      x.before.session.success = false → x.after.session.success = true →
        x.command ∈ block ∧ OpensChain x.command) := by
  constructor
  · intro budget command m down
    cases up : (e.execute (e.nested budget) command m).session.success with
    | false => rfl
    | true => exact absurd (e.success_of_execute up) (by rw [down]; exact Bool.false_ne_true)
  · intro block m x hx down up
    obtain ⟨hmem, -, hafter⟩ := e.mem_steps hx
    rw [hafter] at up
    exact ⟨hmem, e.opensChain_of_raised down up⟩

/-! ### A boot script that sets the flag again and again -/

/-- An engine on a device that nobody answers. -/
def lonely : Engine := ⟨.standard, .detached .erista, false⟩

/-- A failed run beside a boot script whose option `A` opens a retry chain and calls itself. -/
def failedRun : Machine where
  world := .ofFiles
    ((FileSystem.empty ["card"]).setFile ["card", "boot_package.ini"]
      "[A]\ntry:\nexec A\nrefresh\n".toUTF8)
  session := ⟨false, false, 0⟩
  state := .start "sdmc:/" "B"

/-- The call leaves the flag of the failed run down, and in a run whose download fails the flag
rises at the marker behind the download. -/
theorem failedRun_heals_at_marker :
    (failedRun.session.success = false ∧
      (lonely.execute (lonely.nested maxExecDepth) ["exec", "A"] failedRun).session.success
        = false) ∧
    ∃ x ∈ lonely.interpretSteps [["download", "u", "sdmc:/f"], ["try:"]] failedRun,
      x.before.session.success = false ∧ x.after.session.success = true ∧
        OpensChain x.command := by
  obtain ⟨executed, stepped⟩ := lonely.success_rises_only_at_marker
  refine ⟨⟨rfl, executed _ _ _ rfl⟩, ?_⟩
  have raised : ∃ x ∈ lonely.interpretSteps [["download", "u", "sdmc:/f"], ["try:"]] failedRun,
      x.before.session.success = false ∧ x.after.session.success = true := by
    decide +kernel
  obtain ⟨x, hx, down, up⟩ := raised
  exact ⟨x, hx, down, up, (stepped _ _ x hx down up).2⟩

end PackageScript.Engine
