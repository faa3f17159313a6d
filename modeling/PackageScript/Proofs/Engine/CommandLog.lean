import PackageScript.Proofs.Engine.Completions
import PackageScript.Proofs.Engine.LogFile

set_option autoImplicit false

/-! # The command log is a record of the run

A command is written to the log file after it has been performed, if the log of its own run is on
by then. So a run writes one line for each such command in the order in which they end
(`Engine.logLines`), and the log file holds what it held before and then these lines
(`Engine.command_log_exact`). What is needed for that is said of each command by itself: apart from
the line that is written for it, it leaves the way of the log file alone.
-/

namespace PackageScript.Engine

open FileSystem (SameAlong recorded)
open FileAction (openToAppend)

variable (e : Engine)

/-! ## Lines -/

def logPath : HostPath := e.config.hostPath e.config.logFile

/-- The line that is written for an execution: one with its resolved tokens if the log of its own
run is on when it has been performed, and none otherwise. -/
def ownLines (x : Step) : List String :=
  if x.after.state.logging then [logLine (e.resolution x.command x.before).tokens] else []

/-- **The lines of a run**, in the order in which its commands end. -/
def logLines (block : Block) (m : Machine) : List String :=
  (e.completions block m).flatMap e.ownLines

/-- The lines of an execution and of what it calls. -/
def linesOf (x : Step) : List String := (e.completionsInside x).flatMap e.ownLines ++ e.ownLines x

theorem logLines_eq (block : Block) (m : Machine) :
    e.logLines block m = (e.executions block m).flatMap e.linesOf := by
  rw [logLines, completions_eq, List.flatMap_assoc]
  refine List.flatMap_congr fun x _ => ?_
  rw [List.flatMap_append, List.flatMap_singleton, linesOf]

theorem linesOf_of_quiet {x : Step} (quiet : e.call? x.command x.before = none) :
    e.linesOf x = e.ownLines x := by
  rw [linesOf, completionsInside, quiet]
  rfl

theorem linesOf_of_call {x : Step} {o : ScriptOption} {caller : Machine}
    (calls : e.call? x.command x.before = some (o, caller)) :
    e.linesOf x = e.logLines o.commands (enterCall o caller) ++ e.ownLines x := by
  rw [linesOf, e.completionsInside_of_call calls, logLines]

/-! ## One command -/

/-- The machine after a command has been performed and before it is written to the log file. -/
def performed (c : Command) (m : Machine) : Machine :=
  match (e.resolution c m).tokens with
  | [] => m
  | name :: args => e.perform (e.nestedFrom m) name args (e.prepare (e.resolution c m) m)

theorem files_of_held {call : Block → Machine → Machine} {c : Command} {m : Machine}
    (held : m.verdict e.config.strictSections c ≠ .run) :
    (e.advance call c m).world.files = m.world.files := by
  unfold advance
  split
  case h_3 =>
    simp only [openChain]
    rw [transcribe_world]
    rfl
  case h_7 run => exact absurd run held
  all_goals rfl

theorem execute_eq_logCommand {name : String} {args : List String} (m : Machine) :
    e.execute (e.nestedFrom m) (name :: args) m
      = e.logCommand (e.resolution (name :: args) m).tokens (e.performed (name :: args) m) := rfl

section Recorded

variable {start opened : FileSystem} {place : Place} {lines : List String}
variable (hopen : openToAppend e.logPath start = .ok place opened)
include hopen

/-- **A performed command is recorded** if the log is on. -/
theorem logCommand_recorded {m : Machine} (tokens : Command)
    (hsame : SameAlong opened e.logPath (recorded start opened place lines) m.world.files) :
    SameAlong opened e.logPath
      (recorded start opened place
        (lines ++ if m.state.logging then [logLine tokens] else []))
      (e.logCommand tokens m).world.files := by
  rw [logCommand]
  split
  · obtain ⟨fs', happend, hsame'⟩ := appendLogLine_recorded hopen hsame (logLine tokens)
    rw [appendLog, ← logPath, happend]
    exact hsame'
  · rw [List.append_nil]
    exact hsame

/-- **An execution writes its lines and those of what it calls**, if it leaves the way of the log
file alone and if what it calls writes its lines. -/
theorem execution_recorded {block : Block} {m : Machine} {x : Step}
    (hx : x ∈ e.executions block m)
    (hspared : e.call? x.command x.before = none →
      SameAlong opened e.logPath x.before.world.files
        (e.performed x.command x.before).world.files)
    (hinside : ∀ o caller, e.call? x.command x.before = some (o, caller) →
      SameAlong opened e.logPath
        (recorded start opened place (lines ++ e.logLines o.commands (enterCall o caller)))
        (e.interpret o.commands (enterCall o caller)).world.files)
    (hsame : SameAlong opened e.logPath (recorded start opened place lines)
      x.before.world.files) :
    SameAlong opened e.logPath (recorded start opened place (lines ++ e.linesOf x))
      x.after.world.files := by
  have hafter := e.after_execution hx
  cases hcall : e.call? x.command x.before with
  | none =>
      obtain ⟨name, args, hcommand⟩ : ∃ name args, x.command = name :: args := by
        cases hcommand : x.command with
        | nil =>
            have hrun := (e.mem_executions hx).2.1
            rw [hcommand] at hrun
            cases hrun
        | cons name args => exact ⟨name, args, rfl⟩
      have hlogged := e.logCommand_recorded hopen (e.resolution x.command x.before).tokens
        (hsame.trans (hspared hcall))
      have hdone : x.after = e.logCommand (e.resolution x.command x.before).tokens
          (e.performed x.command x.before) := by
        rw [hafter, hcommand, execute_eq_logCommand]
      rw [e.linesOf_of_quiet hcall, ownLines, hdone, logCommand_state]
      exact hlogged
  | some found =>
      -- the line of a call comes behind those of the commands that it has run
      obtain ⟨o, caller⟩ := found
      have hreturned : SameAlong opened e.logPath
          (recorded start opened place (lines ++ e.logLines o.commands (enterCall o caller)))
          (leaveCall caller (e.interpret o.commands (enterCall o caller))).world.files :=
        hinside o caller hcall
      have hlogged := e.logCommand_recorded hopen (e.resolution x.command x.before).tokens hreturned
      have hdone : x.after = e.logCommand (e.resolution x.command x.before).tokens
          (leaveCall caller (e.interpret o.commands (enterCall o caller))) := by
        rw [hafter, e.execute_of_call hcall]
        rfl
      rw [e.linesOf_of_call hcall, ← List.append_assoc, ownLines, hdone, logCommand_state]
      exact hlogged

/-- **A run writes its lines behind those before it.** -/
theorem interpret_recorded (block : Block) (m : Machine)
    (hspared : ∀ x, e.ExecutedWithin block m x → e.call? x.command x.before = none →
      SameAlong opened e.logPath x.before.world.files
        (e.performed x.command x.before).world.files)
    (hsame : SameAlong opened e.logPath (recorded start opened place lines) m.world.files) :
    SameAlong opened e.logPath (recorded start opened place (lines ++ e.logLines block m))
      (e.interpret block m).world.files := by
  -- the induction is on the levels that are left, for what is called has fewer of them
  induction hlevels : maxExecDepth - m.session.depth using Nat.strongRecOn
    generalizing block m lines with
  | _ levels ih =>
      rw [interpret_eq, logLines_eq]
      refine e.runBlock_along (I := fun done n => SameAlong opened e.logPath
        (recorded start opened place (lines ++ done.flatMap e.linesOf)) n.world.files)
        (e.nestedFrom m) block (m.setSuccess true) ?start ?held ?ran
      case start =>
        rw [List.flatMap_nil, List.append_nil]
        exact hsame
      case held =>
        intro x hx held done hdone
        obtain ⟨-, hverdict, hafter⟩ := e.mem_steps hx
        rw [hafter, e.files_of_held (hverdict ▸ held)]
        exact hdone
      case ran =>
        intro x hx run done hdone
        have hexec : x ∈ e.executions block m := mem_executed_iff.2 ⟨hx, run⟩
        rw [List.flatMap_append, List.flatMap_singleton, ← List.append_assoc]
        refine e.execution_recorded hopen hexec (hspared x (.own hexec)) ?_ hdone
        intro o caller calls
        obtain ⟨hcaller, hlimit⟩ := e.depth_of_call? calls
        have hdepth := e.depth_of_execution hexec
        refine ih _ ?_ o.commands (enterCall o caller)
          (fun y hy => hspared y (.called hexec calls hy)) ?_ rfl
        · rw [depth_enterCall]
          omega
        · show SameAlong _ _ _ caller.world.files
          rw [(e.caller_of_call calls).1]
          exact hdone

end Recorded

/-! ## The log -/

/-- **The command log is an exact record.** Let the log file be one that can be opened, and let no
executed command change anything on its way, the lines that are written for commands apart. Then the
file holds in the end what it held in the beginning and behind it the lines of the run, and if the
run has no line, neither the file nor anything else on its way has changed. The lines are those of
the commands that are executed, at whatever depth of calls, and each command stands behind what it
calls. -/
theorem command_log_exact (block : Block) (m : Machine) {place : Place} {opened : FileSystem}
    (hopen : openToAppend e.logPath m.world.files = .ok place opened)
    (hspared : ∀ x, e.ExecutedWithin block m x → e.call? x.command x.before = none →
      SameAlong opened e.logPath x.before.world.files
        (e.performed x.command x.before).world.files) :
    (e.logLines block m = [] →
        (e.interpret block m).world.files.entryAt? place = m.world.files.entryAt? place
          ∧ SameAlong opened e.logPath m.world.files (e.interpret block m).world.files)
      ∧ (e.logLines block m ≠ [] →
        (e.interpret block m).world.files.readBytes e.logPath
          = .ok (m.world.files.contentAt place ++ (String.join (e.logLines block m)).toUTF8))
      ∧ (∀ x, x ∈ e.completions block m ↔ e.ExecutedWithin block m x)
      ∧ e.completions block m
        = (e.executions block m).flatMap fun x => e.completionsInside x ++ [x] := by
  have hnothing : SameAlong opened e.logPath (recorded m.world.files opened place [])
      m.world.files := SameAlong.refl opened e.logPath m.world.files
  have hrecorded := e.interpret_recorded hopen block m hspared hnothing
  rw [List.nil_append] at hrecorded
  refine ⟨fun hnone => ?_, fun hsome => ?_, fun x => e.mem_completions_iff,
    e.completions_eq block m⟩
  · rw [hnone] at hrecorded
    exact ⟨hrecorded.entry place (FileSystem.passes_of_open hopen), hrecorded⟩
  · exact FileSystem.readBytes_recorded hopen hsome hrecorded

theorem files_of_switch {c : Command} {m : Machine} {name : String} {args : List String}
    (htokens : (e.resolution c m).tokens = name :: args)
    (hswitch : Op.ofName name = .logging ∨ Op.ofName name = .refresh) :
    (e.performed c m).world.files = m.world.files := by
  rw [performed, htokens, ← e.prepare_files (e.resolution c m) m]
  rcases hswitch with hop | hop <;> simp [perform, hop, Op.minArgs, Machine.mapState]

/-- A run beside a boot script whose option `A` refreshes before and after its log is turned on. One
line stands in the log file. -/
def loggedRun : Machine where
  world := .ofFiles
    (((((FileSystem.empty ["card"]).setDir ["card", "config"]).setDir
      ["card", "config", "ultrahand"]).setFile ["card", "config", "ultrahand", "log.txt"]
      "old\n".toUTF8).setFile ["card", "boot_package.ini"]
      "[A]\nrefresh\nlogging\nrefresh\n".toUTF8)
  session := .fresh
  state := .start "sdmc:/" "B"

/-- Commands with the log on, a call among them, and one with the log off again. -/
def loggedBlock : Block := [["logging"], ["exec", "A"], ["refresh"], ["logging"], ["refresh"]]

/-- The called option turns on a log of its own, so its first command is not recorded, and its
other ones stand before the call. The command that turns the log off is not recorded either. -/
theorem loggedRun_recorded :
    ∃ place opened, openToAppend lonely.logPath loggedRun.world.files = .ok place opened ∧
      (∀ x, lonely.ExecutedWithin loggedBlock loggedRun x →
        lonely.call? x.command x.before = none →
        SameAlong opened lonely.logPath x.before.world.files
          (lonely.performed x.command x.before).world.files) ∧
      (lonely.interpret loggedBlock loggedRun).world.files.readBytes lonely.logPath
        = .ok ("old\n".toUTF8 ++ (String.join
          ["Executing command: logging \n", "Executing command: logging \n",
            "Executing command: refresh \n", "Executing command: exec A \n",
            "Executing command: refresh \n"]).toUTF8) := by
  have hswitches : ∀ x ∈ lonely.completions loggedBlock loggedRun,
      (lonely.call? x.command x.before).isSome = true
        ∨ (lonely.resolution x.command x.before).tokens = ["logging"]
        ∨ (lonely.resolution x.command x.before).tokens = ["refresh"] := by
    decide +kernel
  have hlines : lonely.logLines loggedBlock loggedRun
      = ["Executing command: logging \n", "Executing command: logging \n",
        "Executing command: refresh \n", "Executing command: exec A \n",
        "Executing command: refresh \n"] := by
    decide +kernel
  have hold : loggedRun.world.files.contentAt ["card", "config", "ultrahand", "log.txt"]
      = "old\n".toUTF8 := by
    decide +kernel
  have hopens : (match openToAppend lonely.logPath loggedRun.world.files with
      | .ok place _ => some place
      | .error _ _ => none) = some ["card", "config", "ultrahand", "log.txt"] := by
    decide +kernel
  cases hopen : openToAppend lonely.logPath loggedRun.world.files with
  | error err t =>
      rw [hopen] at hopens
      cases hopens
  | ok place opened =>
      rw [hopen] at hopens
      obtain rfl : place = _ := Option.some.inj hopens
      have hspared : ∀ x, lonely.ExecutedWithin loggedBlock loggedRun x →
          lonely.call? x.command x.before = none →
          SameAlong opened lonely.logPath x.before.world.files
            (lonely.performed x.command x.before).world.files := by
        intro x hx hquiet
        have hfiles : (lonely.performed x.command x.before).world.files = x.before.world.files := by
          rcases hswitches x (lonely.mem_completions_iff.2 hx) with hcall | htokens | htokens
          · rw [hquiet] at hcall
            cases hcall
          · exact lonely.files_of_switch htokens (.inl rfl)
          · exact lonely.files_of_switch htokens (.inr rfl)
        rw [hfiles]
        exact SameAlong.refl opened lonely.logPath x.before.world.files
      obtain ⟨-, hlog, -⟩ := lonely.command_log_exact loggedBlock loggedRun hopen hspared
      refine ⟨_, opened, rfl, hspared, ?_⟩
      rw [hlog (by rw [hlines]; exact List.cons_ne_nil _ _), hlines, hold]

end PackageScript.Engine
