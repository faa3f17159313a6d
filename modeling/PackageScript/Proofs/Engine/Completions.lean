import Mathlib.Data.List.Basic
import PackageScript.Proofs.Engine.Accounting

set_option autoImplicit false

/-! # The order in which commands end

A command that calls an option ends behind the commands of that option. `Engine.completions` lists
what a run executes in the order in which it ends, calls of any depth included. By its equation
(`completions_eq`) each execution of the block stands behind what it calls, and nothing is listed
but what is executed within the block (`mem_completions_iff`).
-/

namespace PackageScript.Engine

variable (e : Engine)

/-- **What a run keeps**, told by what has been executed so far. Every step that is no execution
keeps it, and so does every execution, which then counts. -/
theorem runBlock_along {I : List Step → Machine → Prop} (call : Block → Machine → Machine)
    (block : Block) (m : Machine) (start : I [] m)
    (held : ∀ x ∈ e.steps call block m, x.verdict ≠ .run →
      ∀ done, I done x.before → I done x.after)
    (ran : ∀ x ∈ e.steps call block m, x.verdict = .run →
      ∀ done, I done x.before → I (done ++ [x]) x.after) :
    I (executed (e.steps call block m)) (e.runBlock call block m) := by
  induction block generalizing m I with
  | nil => exact start
  | cons c rest ih =>
      rw [steps] at held ran ⊢
      obtain ⟨headHeld, restHeld⟩ := List.forall_mem_cons.1 held
      obtain ⟨headRan, restRan⟩ := List.forall_mem_cons.1 ran
      rw [runBlock_cons]
      by_cases run : m.verdict e.config.strictSections c = .run
      · -- what is kept behind this execution is said of the executions after it
        have hgoes : m.verdict e.config.strictSections c ≠ .finished := by rw [run]; decide
        rw [if_neg hgoes] at restHeld restRan
        rw [if_neg hgoes, if_neg hgoes, executed_cons_of_run run]
        exact ih (I := fun done => I (_ :: done)) _ (headRan run [] start)
          (fun x hx h done => restHeld x hx h (_ :: done))
          fun x hx h done => restRan x hx h (_ :: done)
      · rw [executed_cons_of_held run]
        have hkept := headHeld run [] start
        by_cases finished : m.verdict e.config.strictSections c = .finished
        · rw [if_pos finished, if_pos finished]
          exact hkept
        · rw [if_neg finished] at restHeld restRan
          rw [if_neg finished, if_neg finished]
          exact ih _ hkept restHeld restRan

/-- What an interpretation executes when calls may be nested `budget` more times, in the order in
which it ends. -/
def completionsWithin : Nat → Block → Machine → List Step
  | 0, block, m => executed (e.steps (e.nested 0) block (m.setSuccess true))
  | budget + 1, block, m =>
      (executed (e.steps (e.nested (budget + 1)) block (m.setSuccess true))).flatMap fun x =>
        (match e.call? x.command x.before with
          | some (o, caller) => completionsWithin budget o.commands (enterCall o caller)
          | none => []) ++ [x]

/-- **What an interpretation executes, in the order in which it ends.** -/
def completions (block : Block) (m : Machine) : List Step :=
  e.completionsWithin (maxExecDepth - m.session.depth) block m

/-- What ends within an execution: all that it calls. -/
def completionsInside (x : Step) : List Step :=
  match e.call? x.command x.before with
  | some (o, caller) => e.completions o.commands (enterCall o caller)
  | none => []

theorem completionsInside_of_call {x : Step} {o : ScriptOption} {caller : Machine}
    (calls : e.call? x.command x.before = some (o, caller)) :
    e.completionsInside x = e.completions o.commands (enterCall o caller) := by
  rw [completionsInside, calls]

/-- **An execution ends behind what it calls.** -/
theorem completions_eq (block : Block) (m : Machine) :
    e.completions block m
      = (e.executions block m).flatMap fun x => e.completionsInside x ++ [x] := by
  have hexecutions : e.executions block m
      = executed (e.steps (e.nested (maxExecDepth - m.session.depth)) block
        (m.setSuccess true)) := rfl
  rw [completions]
  cases hbudget : maxExecDepth - m.session.depth with
  | zero =>
      -- at the limit nothing is called
      rw [completionsWithin, ← hbudget, ← hexecutions]
      have hsingle : ∀ x ∈ e.executions block m, e.completionsInside x ++ [x] = [x] := by
        intro x hx
        have hquiet : e.call? x.command x.before = none := by
          rw [Option.eq_none_iff_forall_ne_some]
          rintro ⟨o, caller⟩ calls
          have hlimit := (e.depth_of_call? calls).2
          rw [e.depth_of_execution hx] at hlimit
          omega
        rw [completionsInside, hquiet, List.nil_append]
      rw [List.flatMap_congr hsingle, List.flatMap_singleton']
  | succ budget =>
      rw [completionsWithin, ← hbudget, ← hexecutions]
      refine List.flatMap_congr fun x hx => ?_
      rw [completionsInside]
      cases hcall : e.call? x.command x.before with
      | none => rfl
      | some found =>
          obtain ⟨o, caller⟩ := found
          have hcaller := (e.depth_of_call? hcall).1
          rw [e.depth_of_execution hx] at hcaller
          have hdeeper : maxExecDepth - (enterCall o caller).session.depth = budget := by
            rw [depth_enterCall, hcaller]
            omega
          dsimp only
          rw [completions, hdeeper]

/-- **Nothing is listed but what is executed within the block**, and all of it is. -/
theorem mem_completions_iff {block : Block} {m : Machine} {x : Step} :
    x ∈ e.completions block m ↔ e.ExecutedWithin block m x := by
  constructor
  · intro h
    -- the induction is on the levels that are left, for what is called has fewer of them
    induction hlevels : maxExecDepth - m.session.depth using Nat.strongRecOn
      generalizing block m with
    | _ levels ih =>
        rw [completions_eq] at h
        obtain ⟨y, hy, hx⟩ := List.mem_flatMap.1 h
        rcases List.mem_append.1 hx with hx | hx
        · rw [completionsInside] at hx
          split at hx
          · next o caller calls =>
              obtain ⟨hcaller, hlimit⟩ := e.depth_of_call? calls
              have hdepth := e.depth_of_execution hy
              refine .called hy calls (ih _ ?_ hx rfl)
              rw [depth_enterCall]
              omega
          · cases hx
        · rw [List.mem_singleton.1 hx]
          exact .own hy
  · intro h
    induction h with
    | @own block m x executed =>
        rw [completions_eq]
        exact List.mem_flatMap.2 ⟨x, executed, List.mem_append_right _ (List.mem_singleton.2 rfl)⟩
    | @called block m caller o x y executed calls _ ih =>
        rw [completions_eq]
        refine List.mem_flatMap.2 ⟨y, executed, List.mem_append_left _ ?_⟩
        rw [e.completionsInside_of_call calls]
        exact ih

end PackageScript.Engine
