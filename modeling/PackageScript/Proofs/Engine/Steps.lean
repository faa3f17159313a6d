import PackageScript.Proofs.Engine.Frame

set_option autoImplicit false

/-! # The steps of a run

A run of a block goes through its commands one by one. `Engine.steps` records what happens at
each of them: the verdict, and the machines before and after. A run ends with the last step
(`runBlock_eq_last`), and a step whose verdict is `finished` is the last one.

A block that opens no retry chain never ends a run, so what follows it starts where it stops
(`steps_append`).
-/

namespace PackageScript

/-- Whether a command is a marker that opens a retry chain. -/
def OpensChain (c : Command) : Prop := c.head? = some retryMarker

instance (c : Command) : Decidable (OpensChain c) :=
  inferInstanceAs (Decidable (c.head? = some retryMarker))

/-- What happens at one command of a run. -/
structure Step where
  command : Command
  verdict : Verdict
  before : Machine
  after : Machine

namespace Engine

variable (e : Engine)

/-! ## One step -/

/-- The machine after a command, whether it runs or not. -/
def advance (call : Block → Machine → Machine) (c : Command) (m : Machine) : Machine :=
  match m.verdict e.config.strictSections c with
  | .blank | .broken => m
  | .chain => e.openChain m
  | .finished => closeChains m
  | .platform named => m.mapState (·.enterSection named e.host.platform)
  | .elsewhere name => m.note (.otherPlatform name)
  | .run => e.execute call c m

theorem runBlock_cons (call : Block → Machine → Machine) (c : Command) (rest : Block)
    (m : Machine) :
    e.runBlock call (c :: rest) m =
      if m.verdict e.config.strictSections c = .finished then e.advance call c m
      else e.runBlock call rest (e.advance call c m) := by
  rw [runBlock, advance]
  cases m.verdict e.config.strictSections c <;> rfl

theorem advance_of_run {call : Block → Machine → Machine} {c : Command} {m : Machine}
    (h : m.verdict e.config.strictSections c = .run) :
    e.advance call c m = e.execute call c m := by
  rw [advance, h]

theorem openChain_session (m : Machine) :
    (e.openChain m).session = { m.session with success := true } := by
  simp only [openChain]
  rw [transcribe_session]
  rfl

theorem openChain_frame (m : Machine) :
    (e.openChain m).state.frame = m.countChain.state.frame := by
  simp only [openChain]
  rw [transcribe_frame]
  rfl

/-- Only a marker opens a retry chain or ends a block. -/
theorem opensChain_of_verdict {m : Machine} {strict : Bool} {c : Command}
    (h : m.verdict strict c = .chain ∨ m.verdict strict c = .finished) : OpensChain c := by
  cases c with
  | nil => rcases h with h | h <;> cases h
  | cons name args =>
      refine Decidable.byContradiction fun hc => ?_
      have hname : ¬ name = retryMarker := fun hn => hc (by rw [OpensChain, List.head?_cons, hn])
      simp only [Machine.verdict, if_neg hname] at h
      -- what is left are the verdicts on commands that are no retry markers
      split at h
      · rcases h with h | h <;> cases h
      · split at h
        · rcases h with h | h <;> cases h
        · split at h <;> rcases h with h | h <;> cases h

/-- **Only a marker raises the flag**, of all that can happen at a command. -/
theorem opensChain_of_raised {call : Block → Machine → Machine} {c : Command} {m : Machine}
    (down : m.session.success = false)
    (up : (e.advance call c m).session.success = true) : OpensChain c := by
  refine Decidable.byContradiction fun hc => ?_
  have hchain : m.verdict e.config.strictSections c ≠ .chain := fun h =>
    hc (opensChain_of_verdict (Or.inl h))
  -- all else that touches the flag is an execution, and that only lowers it
  have kept : m.session.success = true := by
    unfold advance at up
    split at up
    · exact up
    · exact up
    · next h => exact absurd h hchain
    · exact up
    · exact up
    · exact up
    · exact e.success_of_execute up
  rw [down] at kept
  cases kept

theorem success_of_held {call : Block → Machine → Machine} {c : Command} {m : Machine}
    (hc : ¬ OpensChain c) (held : m.verdict e.config.strictSections c ≠ .run) :
    (e.advance call c m).session.success = m.session.success := by
  unfold advance
  split
  · rfl
  · rfl
  · next h => exact absurd (opensChain_of_verdict (Or.inl h)) hc
  · rfl
  · rfl
  · rfl
  · next h => exact absurd h held

/-! ## All steps -/

/-- The steps of a run, `call` being what runs called options. -/
def steps (call : Block → Machine → Machine) : Block → Machine → List Step
  | [], _ => []
  | c :: rest, m =>
      let v := m.verdict e.config.strictSections c
      ⟨c, v, m, e.advance call c m⟩ ::
        (if v = .finished then [] else steps call rest (e.advance call c m))

def lastMachine (m : Machine) (trace : List Step) : Machine :=
  ((trace.getLast?).map Step.after).getD m

theorem lastMachine_cons (m : Machine) (x : Step) (trace : List Step) :
    lastMachine m (x :: trace) = lastMachine x.after trace := by
  cases trace with
  | nil => rfl
  | cons y ys => simp [lastMachine, List.getLast?_cons]

/-- **A run ends with its last step.** -/
theorem runBlock_eq_last (call : Block → Machine → Machine) (block : Block) (m : Machine) :
    e.runBlock call block m = lastMachine m (e.steps call block m) := by
  induction block generalizing m with
  | nil => rfl
  | cons c rest ih =>
      rw [runBlock_cons, steps, lastMachine_cons]
      by_cases h : m.verdict e.config.strictSections c = .finished
      · simp only [h, if_true]
        rfl
      · simp only [h, if_false]
        exact ih _

/-- **Every step is what its verdict says**, for a command of the block. -/
theorem mem_steps {call : Block → Machine → Machine} {block : Block} {m : Machine} {x : Step}
    (h : x ∈ e.steps call block m) :
    x.command ∈ block ∧ x.verdict = x.before.verdict e.config.strictSections x.command
      ∧ x.after = e.advance call x.command x.before := by
  induction block generalizing m with
  | nil => cases h
  | cons c rest ih =>
      rw [steps] at h
      rcases List.mem_cons.1 h with rfl | h
      · exact ⟨List.mem_cons_self, rfl, rfl⟩
      · split at h
        · cases h
        · obtain ⟨hc, hv, ha⟩ := ih h
          exact ⟨List.mem_cons_of_mem _ hc, hv, ha⟩

theorem runBlock_cons_of_plain {call : Block → Machine → Machine} {c : Command}
    (hc : ¬ OpensChain c) (rest : Block) (m : Machine) :
    e.runBlock call (c :: rest) m = e.runBlock call rest (e.advance call c m) := by
  rw [runBlock_cons, if_neg fun h => hc (opensChain_of_verdict (Or.inr h))]

theorem steps_cons_of_plain {call : Block → Machine → Machine} {c : Command}
    (hc : ¬ OpensChain c) (rest : Block) (m : Machine) :
    e.steps call (c :: rest) m =
      ⟨c, m.verdict e.config.strictSections c, m, e.advance call c m⟩ ::
        e.steps call rest (e.advance call c m) := by
  rw [steps]
  simp only [if_neg fun h => hc (opensChain_of_verdict (Or.inr h))]

/-- **What follows a block without retry chains starts where that block stops.** -/
theorem runBlock_append {call : Block → Machine → Machine} {a : Block}
    (ha : ∀ c ∈ a, ¬ OpensChain c) (b : Block) (m : Machine) :
    e.runBlock call (a ++ b) m = e.runBlock call b (e.runBlock call a m) := by
  induction a generalizing m with
  | nil => rfl
  | cons c rest ih =>
      have hc := ha c List.mem_cons_self
      rw [List.cons_append, runBlock_cons_of_plain e hc, runBlock_cons_of_plain e hc]
      exact ih (fun d hd => ha d (List.mem_cons_of_mem _ hd)) _

theorem steps_append {call : Block → Machine → Machine} {a : Block}
    (ha : ∀ c ∈ a, ¬ OpensChain c) (b : Block) (m : Machine) :
    e.steps call (a ++ b) m = e.steps call a m ++ e.steps call b (e.runBlock call a m) := by
  induction a generalizing m with
  | nil => rfl
  | cons c rest ih =>
      have hc := ha c List.mem_cons_self
      rw [List.cons_append, steps_cons_of_plain e hc, steps_cons_of_plain e hc,
        runBlock_cons_of_plain e hc, ih fun d hd => ha d (List.mem_cons_of_mem _ hd)]
      rfl

/-! ## The runs inside an interpretation -/

/-- What runs called options when calls may be nested `budget` more times. -/
def nested : Nat → Block → Machine → Machine
  | 0 => fun _ m => m
  | budget + 1 => e.interpretWithin budget

/-- What runs the options that an interpretation calls. -/
def nestedFrom (m : Machine) : Block → Machine → Machine :=
  e.nested (maxExecDepth - m.session.depth)

theorem interpretWithin_eq (budget : Nat) (block : Block) (m : Machine) :
    e.interpretWithin budget block m = e.runBlock (e.nested budget) block (m.setSuccess true) := by
  cases budget <;> rfl

/-- **An interpretation is one run with the flag set at its entry.** -/
theorem interpret_eq (block : Block) (m : Machine) :
    e.interpret block m = e.runBlock (e.nestedFrom m) block (m.setSuccess true) :=
  e.interpretWithin_eq _ block m

/-- The steps of an interpretation, after its entry. -/
def interpretSteps (block : Block) (m : Machine) : List Step :=
  e.steps (e.nestedFrom m) block (m.setSuccess true)

def executed (trace : List Step) : List Step := trace.filter (·.verdict = .run)

theorem mem_executed_iff {x : Step} {trace : List Step} :
    x ∈ executed trace ↔ x ∈ trace ∧ x.verdict = .run := by
  rw [executed, List.mem_filter, decide_eq_true_eq]

theorem executed_append (s t : List Step) : executed (s ++ t) = executed s ++ executed t :=
  List.filter_append s t

theorem executed_cons_of_run {x : Step} (run : x.verdict = .run) (trace : List Step) :
    executed (x :: trace) = x :: executed trace := List.filter_cons_of_pos (by simpa using run)

theorem executed_cons_of_held {x : Step} (held : x.verdict ≠ .run) (trace : List Step) :
    executed (x :: trace) = executed trace := List.filter_cons_of_neg (by simpa using held)

/-- **What a run comes to, from its executions.** Let `view` be something read off a machine that
no step changes but an execution, and let `total` tell what some executions make of it. If `total`
takes each execution of the run into account, then it tells what the run makes of `view`. -/
theorem view_runBlock {β : Type} (view : Machine → β) (total : List Step → β → β)
    (none : ∀ b, total [] b = b) (call : Block → Machine → Machine) (block : Block) (m : Machine)
    (held : ∀ x ∈ e.steps call block m, x.verdict ≠ .run → view x.after = view x.before)
    (ran : ∀ x ∈ e.steps call block m, x.verdict = .run → ∀ xs,
      total (x :: xs) (view x.before) = total xs (view x.after)) :
    view (e.runBlock call block m) = total (executed (e.steps call block m)) (view m) := by
  induction block generalizing m with
  | nil => exact (none _).symm
  | cons c rest ih =>
      rw [steps] at held ran ⊢
      obtain ⟨headHeld, restHeld⟩ := List.forall_mem_cons.1 held
      obtain ⟨headRan, restRan⟩ := List.forall_mem_cons.1 ran
      have head : ∀ trace, total (executed
          (⟨c, m.verdict e.config.strictSections c, m, e.advance call c m⟩ :: trace)) (view m)
            = total (executed trace) (view (e.advance call c m)) := by
        intro trace
        by_cases run : m.verdict e.config.strictSections c = .run
        · rw [executed_cons_of_run run]
          exact headRan run _
        · rw [executed_cons_of_held run]
          exact congrArg _ (headHeld run).symm
      rw [runBlock_cons, head]
      by_cases finished : m.verdict e.config.strictSections c = .finished
      · rw [if_pos finished, if_pos finished]
        exact (none _).symm
      · rw [if_neg finished] at restHeld restRan
        rw [if_neg finished, if_neg finished]
        exact ih _ restHeld restRan

/-- The commands that an interpretation executes, each with the machines before and after. -/
def executions (block : Block) (m : Machine) : List Step := executed (e.interpretSteps block m)

/-- **Every execution is one of a command of the block** that was to run. -/
theorem mem_executions {block : Block} {m : Machine} {x : Step} (h : x ∈ e.executions block m) :
    x.command ∈ block ∧ x.before.verdict e.config.strictSections x.command = .run
      ∧ x.after = e.execute (e.nestedFrom m) x.command x.before := by
  obtain ⟨hstep, hran⟩ := mem_executed_iff.1 h
  obtain ⟨hmem, hverdict, hafter⟩ := e.mem_steps hstep
  rw [hverdict] at hran
  exact ⟨hmem, hran, hafter.trans (e.advance_of_run hran)⟩

end Engine

end PackageScript
