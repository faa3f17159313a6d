import PackageScript.Proofs.Engine.Nesting
import PackageScript.Proofs.Engine.SuccessFlag

set_option autoImplicit false

/-! # Sources are bound once

Only executed commands of the block itself bind sources, each at most one, and a source that has a
value keeps it. So what a source holds at the end is told by the executions of the run: the value
that it held before, or else the first one that an executed command records for it.
-/

namespace PackageScript.Engine

variable (e : Engine)

/-- The names of the commands that bind a source. -/
def bindingNames : Source → List String
  | .list => ["list", "list_source"]
  | .json => ["json", "json_source"]
  | .jsonFile => ["json_file", "json_file_source"]
  | .iniFile => ["ini_file"]
  | .hexFile => ["hex_file"]

/-- **What a command records for a source** when it is executed: if its name binds the source and
it has an argument, its first argument with its placeholders resolved. JSON text is recorded as it
is, a list without its quotes, and a file as a script path. -/
def recorded? (source : Source) (c : Command) (m : Machine) : Option String :=
  match c with
  | name :: arg :: _ =>
      let text := ((e.context m).resolve m.state.bindings arg).text
      if name ∈ bindingNames source then
        match source with
        | .json => some text
        | .list => some (Text.unquote text)
        | .jsonFile => some (scriptPath text)
        | .iniFile => some (scriptPath text)
        | .hexFile => some (scriptPath text)
      else none
  | _ => none

/-! ## One command -/

theorem transcribe_bindings (line : String) (m : Machine) :
    (e.transcribe line m).state.bindings = m.state.bindings := by
  rw [transcribe_state]
  split <;> rfl

theorem runOnWorld_bindings (op : Op) (name : String) (args : List String) (m : Machine) :
    (e.runOnWorld op name args m).state.bindings = m.state.bindings := by
  unfold runOnWorld
  split
  · rfl
  · simp only [report]
    split
    · rw [transcribe_bindings]
      rfl
    · rfl

theorem exec_bindings (call : Block → Machine → Machine) (option : String) (m : Machine) :
    (e.exec call option m).state.bindings = m.state.bindings := by
  unfold exec
  split <;> rfl

theorem bindSource_bindings (source : Source) (arg : String) (m : Machine) :
    (bindSource source arg m).state.bindings
      = m.state.bindings.bind source (boundValue source arg) := by
  unfold bindSource
  split
  · next value hbound =>
      rw [Bindings.bind, hbound]
      rfl
  · rfl

theorem sourceOf?_eq_some_iff {name : String} {source : Source} :
    Op.sourceOf? name = some source ↔ Op.ofName name = .bind source := by
  unfold Op.sourceOf?
  split
  · next bound hop => rw [hop, Option.some.injEq, Op.bind.injEq]
  · next hop => exact ⟨nofun, fun h => absurd h (hop source)⟩

theorem sourceOf?_eq_some_iff_mem {name : String} {source : Source} :
    Op.sourceOf? name = some source ↔ name ∈ bindingNames source := by
  rw [sourceOf?_eq_some_iff]
  constructor
  · intro hop
    -- the names that the table has for a source are the ones of the list
    have hnames : ∀ entry ∈ Op.names, entry.2 = .bind source → entry.1 ∈ bindingNames source := by
      cases source <;> decide +kernel
    rw [Op.ofName] at hop
    cases hlookup : Op.names.lookup name with
    | none =>
        rw [hlookup] at hop
        cases hop
    | some op =>
        rw [hlookup] at hop
        obtain ⟨before, after, htable, -⟩ := List.lookup_eq_some_iff.1 hlookup
        exact hnames (name, op) (htable ▸ by simp) hop
  · have hops : ∀ n ∈ bindingNames source, Op.ofName n = .bind source := by
      cases source <;> decide +kernel
    exact hops name

theorem recorded?_cons (source : Source) (name arg : String) (rest : List String) (m : Machine) :
    e.recorded? source (name :: arg :: rest) m =
      if Op.sourceOf? name = some source then
        some (boundValue source ((e.context m).resolve m.state.bindings arg).text)
      else none := by
  by_cases hname : name ∈ bindingNames source
  · rw [if_pos (sourceOf?_eq_some_iff_mem.2 hname)]
    cases source <;> exact if_pos hname
  · rw [if_neg (mt sourceOf?_eq_some_iff_mem.1 hname)]
    exact if_neg hname

/-- **A command binds the source that its name stands for**, and no other. -/
theorem perform_bindings (call : Block → Machine → Machine) (name : String) (args : List String)
    (m : Machine) :
    (e.perform call name args m).state.bindings =
      match Op.sourceOf? name, args with
      | some source, arg :: _ => m.state.bindings.bind source (boundValue source arg)
      | _, _ => m.state.bindings := by
  cases hsource : Op.sourceOf? name with
  | some source =>
      have hop := sourceOf?_eq_some_iff.1 hsource
      cases args with
      | nil =>
          simp only [perform, hop, Op.minArgs]
          rfl
      | cons arg rest =>
          simp only [perform, hop, Op.minArgs]
          exact bindSource_bindings source arg m
  | none =>
      show (e.perform call name args m).state.bindings = m.state.bindings
      unfold perform
      dsimp only
      split
      · rfl
      · split
        · rfl
        · split
          · exact e.exec_bindings call _ m
          · next source _ _ hop _ =>
              rw [sourceOf?_eq_some_iff.2 hop] at hsource
              cases hsource
          · rfl
          · rfl
          · exact e.runOnWorld_bindings _ _ _ m

theorem prepare_bindings (r : Placeholder.CommandResolution) (m : Machine) :
    (e.prepare r m).state.bindings = m.state.bindings := by
  rw [prepare, transcribe_bindings]
  rfl

/-- **A source that is executed over** keeps its value, or takes that which the command records. -/
theorem execute_get (call : Block → Machine → Machine) (source : Source) (c : Command)
    (m : Machine) :
    (e.execute call c m).state.bindings.get source
      = (m.state.bindings.get source).or (e.recorded? source c m) := by
  cases c with
  | nil => exact Option.or_none.symm
  | cons name args =>
      simp only [execute, Placeholder.Context.resolveCommand]
      rw [logCommand_state, perform_bindings, prepare_bindings]
      cases args with
      | nil =>
          have nothing : e.recorded? source [name] m = none := rfl
          rw [nothing, Option.or_none]
          cases Op.sourceOf? name <;> rfl
      | cons arg rest =>
          rw [recorded?_cons]
          cases Op.sourceOf? name with
          | none => exact Option.or_none.symm
          | some bound =>
              show (m.state.bindings.bind bound _).get source = _
              rw [Bindings.get_bind]
              by_cases hbound : bound = source
              · subst hbound
                cases m.state.bindings.get bound <;> simp
              · rw [if_neg fun h => hbound h.1.symm, if_neg fun h => hbound (Option.some.inj h),
                  Option.or_none]

/-- Whatever else happens at a command binds nothing. -/
theorem bindings_of_held {call : Block → Machine → Machine} {c : Command} {m : Machine}
    (held : m.verdict e.config.strictSections c ≠ .run) :
    (e.advance call c m).state.bindings = m.state.bindings := by
  unfold advance
  split
  · rfl
  · rfl
  · simp only [openChain]
    rw [transcribe_bindings]
    rfl
  · rfl
  · rfl
  · rfl
  · next run => exact absurd run held

/-! ## A run -/

/-- **What a source holds behind a run**: what it held before, or else what the first execution
records for it that records anything. -/
theorem runBlock_get (call : Block → Machine → Machine) (source : Source) (block : Block)
    (m : Machine) :
    (e.runBlock call block m).state.bindings.get source = (m.state.bindings.get source).or
      ((executed (e.steps call block m)).findSome? fun x =>
        e.recorded? source x.command x.before) := by
  apply e.view_runBlock (fun m => m.state.bindings.get source)
    (fun trace value => value.or (trace.findSome? fun x => e.recorded? source x.command x.before))
  case none => exact fun _ => Option.or_none
  case held =>
    intro x hx held
    obtain ⟨-, hverdict, hafter⟩ := e.mem_steps hx
    rw [hverdict] at held
    rw [hafter, e.bindings_of_held held]
  case ran =>
    intro x hx run xs
    obtain ⟨-, hverdict, hafter⟩ := e.mem_steps hx
    rw [hverdict] at run
    rw [hafter, e.advance_of_run run, execute_get, List.findSome?_cons, Option.or_assoc]
    cases e.recorded? source x.command x.before <;> rfl

/-- **Sources are bound once.** A source that has a value when a block is interpreted keeps it to
the end. One that has none ends with the value that the first executed command records for it, if
any does. The commands of a called option never change what the sources of the caller hold. -/
theorem interpret_binds_once (block : Block) (m : Machine) (source : Source) :
    let last := e.interpret block m
    (∀ value, m.state.bindings.get source = some value →
      last.state.bindings.get source = some value) ∧
    (m.state.bindings.get source = none →
      last.state.bindings.get source = (e.executions block m).findSome? fun x =>
        e.recorded? source x.command x.before) ∧
    (∀ x ∈ e.executions block m, ∀ o caller, e.call? x.command x.before = some (o, caller) →
      x.after.state.bindings = x.before.state.bindings) := by
  have hrun := e.runBlock_get (e.nestedFrom m) source block (m.setSuccess true)
  intro last
  have hlast : last.state.bindings.get source = (m.state.bindings.get source).or
      ((e.executions block m).findSome? fun x => e.recorded? source x.command x.before) := by
    rw [← e.interpret_eq] at hrun
    exact hrun
  refine ⟨fun value hvalue => ?_, fun hnone => ?_, fun x hx o caller calls => ?_⟩
  · rw [hlast, hvalue]
    rfl
  · rw [hlast, hnone]
    rfl
  · rw [(e.mem_executions hx).2.2, e.execute_of_call?_some calls, returnFrom, logCommand_state,
      leaveCall_state, (e.caller_of_call calls).2.2]
    split <;> rfl

/-- A run with an ini file bound, beside a boot script whose option `A` binds a list. -/
def boundRun : Machine where
  world := .ofFiles ((FileSystem.empty ["card"]).setFile ["card", "boot_package.ini"]
    "[A]\nlist_source x,y\n".toUTF8)
  session := .fresh
  state := { State.start "sdmc:/" "B" with bindings := Bindings.empty.set "sdmc:/old.ini" .iniFile }

/-- Every source is bound, some twice. The download fails, so one command is not executed. -/
def bindingBlock : Block :=
  [["exec", "A"], ["list"], ["list_source", "'a, b'"], ["list", "c"], ["json", "'[1]'"],
    ["ini_file", "sdmc:/new.ini"], ["try:"], ["download", "u", "sdmc:/f"], ["hex_file", "/lost"],
    ["try:"], ["json_file", "'/x//\x7blist(1)\x7d.json'"], ["hex_file", "y"]]

/-- The list is that of the caller, without its quotes. The JSON text keeps its quotes, and the
name of the JSON file is filled in. The ini file stays, and the hex file is that of the chain that
was executed. The call leaves the sources of the caller alone. -/
theorem boundRun_binds_once :
    (lonely.interpret bindingBlock boundRun).state.bindings
        = ⟨some "a, b", some "'[1]'", some "sdmc:/x/b.json", some "sdmc:/old.ini", some "y"⟩
      ∧ ∃ x ∈ lonely.executions bindingBlock boundRun,
        (lonely.call? x.command x.before).isSome = true
          ∧ x.after.state.bindings = x.before.state.bindings := by
  constructor
  · refine Bindings.eq_of_get fun source => ?_
    obtain ⟨hkept, hnew, -⟩ := lonely.interpret_binds_once bindingBlock boundRun source
    cases source with
    | iniFile => exact hkept _ rfl
    | list | json | jsonFile | hexFile => exact (hnew rfl).trans (by decide +kernel)
  · have hcalls : ∃ x ∈ lonely.executions bindingBlock boundRun,
        (lonely.call? x.command x.before).isSome = true := by
      decide +kernel
    obtain ⟨x, hx, hsome⟩ := hcalls
    obtain ⟨⟨o, caller⟩, calls⟩ := Option.isSome_iff_exists.1 hsome
    obtain ⟨-, -, hcall⟩ := lonely.interpret_binds_once bindingBlock boundRun .list
    exact ⟨x, hx, hsome, hcall x hx o caller calls⟩

end PackageScript.Engine
