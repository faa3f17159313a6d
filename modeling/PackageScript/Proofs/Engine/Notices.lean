import PackageScript.Proofs.Command.Past
import PackageScript.Proofs.Engine.Lockstep

set_option autoImplicit false

/-! # Notices change nothing

Notices are told and never asked for. Two worlds that differ in their notices alone are one world
behind two pasts, and commands do not look back: they end the same way in both (`Action.Blind`,
`Setting.run_blind`). Above the commands stand machines that agree on all but the notices and the
platform section (`Machine.Alike`). They run in lockstep (`Engine.alike_lockstep`): each step of a
run keeps them so, calls of the boot script included, and a run of one block from machines in the
same section does too (`Engine.nested_respects`).
-/

namespace PackageScript

/-! ## Worlds -/

/-- **Worlds that differ in their notices alone.** -/
structure World.Alike (w w' : World) : Prop where
  files : w.files = w'.files
  requests : w.requests = w'.requests

namespace World.Alike

variable {w w' : World}

theorem noteAll (h : w.Alike w') (notices notices' : List Notice) :
    (w.noteAll notices).Alike (w'.noteAll notices') := ⟨h.files, h.requests⟩

theorem withFiles (h : w.Alike w') (fs : FileSystem) :
    Alike { w with files := fs } { w' with files := fs } := ⟨rfl, h.requests⟩

end World.Alike

namespace Action

variable {α : Type}

/-- Ends of an action that agree in worlds that differ in their notices alone. -/
inductive Agree :
    EStateM.Result ScriptError World α → EStateM.Result ScriptError World α → Prop
  | ok {a : α} {w w' : World} : w.Alike w' → Agree (.ok a w) (.ok a w')
  | error {e : ScriptError} {w w' : World} : w.Alike w' → Agree (.error e w) (.error e w')

/-- **An action that does not depend on notices.** -/
def Blind (act : Action α) : Prop := ∀ w w', w.Alike w' → Agree (act w) (act w')

/-- Worlds that differ in their notices are one world, each behind its own notices. -/
theorem Blind.of_resumes {act : Action α}
    (h : ∀ notices, Resumes ⟨[], notices, false⟩ act act) : Blind act := by
  rintro ⟨files, requests, notices⟩ ⟨_, _, notices'⟩ ⟨rfl, rfl⟩
  have hw (told : List Notice) :
      act ⟨files, requests, told⟩ = putBehind ⟨[], told, false⟩ (act ⟨files, requests, []⟩) := by
    rw [← h told, World.behind, List.nil_append, List.append_nil]
  show Agree (act ⟨files, requests, notices⟩) (act ⟨files, requests, notices'⟩)
  rw [hw notices, hw notices']
  cases act ⟨files, requests, []⟩ with
  | ok a w => exact .ok ⟨rfl, rfl⟩
  | error e w => exact .error ⟨rfl, rfl⟩

end Action

/-- **No command depends on notices.** -/
theorem Setting.run_blind (s : Setting) (op : Op) (args : List String) :
    Action.Blind (s.run op args) :=
  .of_resumes fun notices => s.run_resumes ⟨[], notices, false⟩ op args

/-! ## Machines -/

/-- **Machines that agree on everything but the notices and the platform section.** -/
structure Machine.Alike (m m' : Machine) : Prop where
  world : m.world.Alike m'.world
  session : m.session = m'.session
  state : m.state.outside = m'.state.outside

namespace Machine.Alike

variable {m m' : Machine}

theorem refl (m : Machine) : m.Alike m := ⟨⟨rfl, rfl⟩, rfl, rfl⟩

theorem optionName (h : m.Alike m') : m.state.optionName = m'.state.optionName :=
  congrArg (·.optionName) h.state

theorem log (h : m.Alike m') : m.state.log = m'.state.log := congrArg (·.log) h.state

theorem concur (h : m.Alike m') : m.Concur m' where
  files := h.world.files
  success := congrArg (·.success) h.session
  depth := congrArg (·.depth) h.session
  retryCount := congrArg (·.retryCount) h.state
  bindings := congrArg (·.bindings) h.state
  logging := congrArg (·.logging) h.state
  scriptDir := congrArg (·.scriptDir) h.state

theorem withWorld (h : m.Alike m') {w w' : World} (hw : w.Alike w') :
    Alike { m with world := w } { m' with world := w' } := ⟨hw, h.session, h.state⟩

theorem withSession (h : m.Alike m') (f : Session → Session) :
    Alike { m with session := f m.session } { m' with session := f m'.session } :=
  ⟨h.world, congrArg f h.session, h.state⟩

theorem mapState (h : m.Alike m') {f : State → State}
    (hf : ∀ s, (f s).outside = (f s.outside).outside) :
    (m.mapState f).Alike (m'.mapState f) := by
  refine ⟨h.world, h.session, ?_⟩
  show (f m.state).outside = (f m'.state).outside
  rw [hf, h.state, ← hf]

theorem enterCall (h : m.Alike m') (o : ScriptOption) :
    (Engine.enterCall o m).Alike (Engine.enterCall o m') := by
  refine ⟨h.world, ?_, ?_⟩
  · rw [Engine.enterCall, Engine.enterCall, h.session]
  · rw [Engine.enterCall, Engine.enterCall, h.concur.scriptDir]

theorem leaveCall {after after' : Machine} (h : m.Alike m') (hafter : after.Alike after') :
    (Engine.leaveCall m after).Alike (Engine.leaveCall m' after') := by
  refine ⟨hafter.world, ?_, ?_⟩
  · rw [Engine.leaveCall, Engine.leaveCall, hafter.session, h.session]
  · rw [Engine.leaveCall, Engine.leaveCall, hafter.log, h.log]
    generalize m'.state.log ++ after'.state.log = log
    exact congrArg (fun s : State => { s with log := log }) h.state

end Machine.Alike

namespace Engine

open Machine (Alike)

variable (e : Engine)

/-- **Machines that agree run in lockstep.** -/
theorem alike_lockstep : Lockstep e e () fun _ => Alike where
  config := rfl
  platform := rfl
  concur h := h.concur
  resolved h c := by
    rw [context, context, h.world.files, h.world.requests, h.concur.bindings]
  noteAll h notices := h.withWorld (h.world.noteAll notices notices)
  followTrail h t := h.withWorld ⟨h.world.files, congrArg (· ++ t.requests) h.world.requests⟩
  setSuccess h success := h.withSession fun s => { s with success := success }
  refresh h := h.withSession fun s => { s with refresh := true }
  transcribe h line := by
    unfold transcribe
    split
    · exact h
    · exact h.mapState fun _ => rfl
  mapState hf h := h.mapState hf.outside
  setFiles h fs := h.withWorld (h.world.withFiles fs)
  act {i m m'} h op args := by
    have hsetting : e.setting m = e.setting m' := by
      rw [setting, setting, h.concur.scriptDir, h.optionName]
    rw [hsetting]
    have hagree := (e.setting m').run_blind op args _ _ h.world
    generalize (e.setting m').run op args m.world = r, (e.setting m').run op args m'.world = r'
      at hagree ⊢
    cases hagree with
    | ok hw => exact Or.inl ⟨_, _, _, rfl, rfl, h.withWorld hw⟩
    | error hw => exact Or.inr ⟨_, _, _, rfl, rfl, h.withWorld hw⟩
  enterCall h o := h.enterCall o
  leaveCall h hafter := h.leaveCall hafter

/-- **What a called run is relied on for**: from machines that agree and stand in the same section
it leads to machines that agree. -/
def Respects (call : Block → Machine → Machine) : Prop :=
  ∀ block m m', m.Alike m' → m.state.zone = m'.state.zone →
    (call block m).Alike (call block m')

variable {m m' : Machine}

theorem advance_alike {call : Block → Machine → Machine} (hcall : Respects call) {c : Command}
    (h : m.Alike m')
    (hverdict : m.verdict e.config.strictSections c = m'.verdict e.config.strictSections c) :
    (e.advance call c m).Alike (e.advance call c m') :=
  e.alike_lockstep.advance (i := ()) hcall h hverdict

/-- **Calls run alike, however deep they are nested.** -/
theorem nested_respects (budget : Nat) : Respects (e.nested budget) :=
  e.alike_lockstep.nested budget

end Engine

end PackageScript
