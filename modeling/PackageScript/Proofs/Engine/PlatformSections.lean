import PackageScript.Proofs.Engine.Notices

set_option autoImplicit false

/-! # Platform sections filter a block

Platform markers can be taken out of a block before it runs. In a strict run the commands of
sections for other platforms go with them, retry markers aside, which count wherever they stand.
The run of what is left stands outside of all sections and follows the run of the whole block
command by command: where the block loses a command the run of the whole block does no more than
give a notice, and elsewhere both do the same (`Engine.runBlock_onDevice`,
`Engine.runBlock_unmarked`). Called options are not filtered, and run alike in both.
-/

namespace PackageScript

/-- A block without its platform markers. -/
def Block.unmarked (block : Block) : Block := block.filter fun c => (Zone.named? c).isNone

/-- A block without its platform markers and without every command but a retry marker whose
nearest marker in front, `last` at first, names another platform. -/
def Block.onDevice (device : Platform) : Option Platform → Block → Block
  | _, [] => []
  | last, c :: rest =>
      match Zone.named? c with
      | some named => onDevice device (some named) rest
      | none =>
          if OpensChain c ∨ last = none ∨ last = some device then c :: onDevice device last rest
          else onDevice device last rest

namespace Zone

/-- The zone behind a marker that names a platform, or in front of every marker. -/
def behindMarker (device : Platform) : Option Platform → Zone
  | none => start
  | some named => ⟨true, if named = device then some named else none⟩

theorem after_of_named {c : Command} {named : Platform} (h : named? c = some named)
    (device : Platform) (z : Zone) : z.after device c = behindMarker device (some named) := by
  rw [after, h]
  rfl

theorem after_of_named?_eq_none {c : Command} (h : named? c = none) (device : Platform)
    (z : Zone) : z.after device c = z := by
  rw [after, h]

theorem permits_start (strict : Bool) : start.permits strict = true := by
  cases strict <;> rfl

theorem permits_of_not_strict (z : Zone) : z.permits false = true := rfl

/-- Commands behind a marker run in a strict run if it names the device. -/
theorem permits_behindMarker_iff (device : Platform) (last : Option Platform) :
    (behindMarker device last).permits true = true ↔ last = none ∨ last = some device := by
  cases last with
  | none => simp [behindMarker, permits_start]
  | some named =>
      by_cases heq : named = device
      · simp [behindMarker, permits, heq]
      · simp [behindMarker, permits, heq]

end Zone

namespace Engine

open Machine (Alike)

variable (e : Engine) {call : Block → Machine → Machine} {m m' : Machine} {c : Command}

/-! ## One command -/

/-- A marker opens a section and does nothing else. -/
theorem runBlock_cons_marker {named : Platform} (hnamed : Zone.named? c = some named)
    (rest : Block) (h : m.Alike m') :
    ∃ m1 : Machine, m1.Alike m' ∧ m1.state.zone = Zone.behindMarker e.host.platform (some named)
      ∧ e.runBlock call (c :: rest) m = e.runBlock call rest m1 := by
  have hc : ¬ OpensChain c := fun hopens => by
    rw [named?_of_opensChain hopens] at hnamed
    cases hnamed
  refine ⟨e.advance call c m, ?_, ?_, e.runBlock_cons_of_plain hc rest m⟩
  · rcases e.verdict_of_plain hc m with ⟨rfl, -⟩ | ⟨p, -, hv⟩ | ⟨hplain, -⟩ | ⟨hplain, -⟩
    · cases hnamed
    · rw [advance, hv]
      exact ⟨h.world, h.session, h.state⟩
    · rw [hplain.2.2] at hnamed
      cases hnamed
    · rw [hplain.2.2] at hnamed
      cases hnamed
  · rw [e.zone_advance, Zone.after_of_named hnamed]

/-- A command of a section for another platform leaves no more than a notice. -/
theorem runBlock_cons_elsewhere (hc : ¬ OpensChain c) (hnamed : Zone.named? c = none)
    (hheld : ¬ m.state.zone.permits e.config.strictSections = true) (rest : Block)
    (h : m.Alike m') :
    ∃ m1 : Machine, m1.Alike m' ∧ m1.state.zone = m.state.zone
      ∧ e.runBlock call (c :: rest) m = e.runBlock call rest m1 := by
  refine ⟨e.advance call c m, ?_, ?_, e.runBlock_cons_of_plain hc rest m⟩
  · rcases e.verdict_of_plain hc m with ⟨-, hv⟩ | ⟨p, hp, -⟩ | ⟨-, -, name, hv⟩ | ⟨-, hz, -⟩
    · rw [advance, hv]
      exact h
    · rw [hnamed] at hp
      cases hp
    · rw [advance, hv]
      exact ⟨⟨h.world.files, h.world.requests⟩, h.session, h.state⟩
    · exact absurd hz hheld
  · rw [e.zone_advance, Zone.after_of_named?_eq_none hnamed]

/-- A retry marker, and a command whose section lets it run, does the same outside of all
sections, and the runs go on or end together. -/
theorem runBlock_cons_kept (hcall : Respects call) (hnamed : Zone.named? c = none)
    (hruns : OpensChain c ∨ m.state.zone.permits e.config.strictSections = true)
    (h : m.Alike m') (hstart : m'.state.zone = .start) {rest rest' : Block}
    (hrest : ∀ m1 m1' : Machine, m1.Alike m1' → m1.state.zone = m.state.zone →
      m1'.state.zone = .start → (e.runBlock call rest m1).Alike (e.runBlock call rest' m1')) :
    (e.runBlock call (c :: rest) m).Alike (e.runBlock call (c :: rest') m') := by
  have hverdict : m.verdict e.config.strictSections c = m'.verdict e.config.strictSections c :=
    verdict_congr h.concur _ (hruns.imp id fun hz => by rw [hz, hstart, Zone.permits_start])
  have hadvance := e.advance_alike hcall h hverdict
  rw [runBlock_cons, runBlock_cons, hverdict]
  split
  · exact hadvance
  · refine hrest _ _ hadvance ?_ ?_
    · rw [e.zone_advance, Zone.after_of_named?_eq_none hnamed]
    · rw [e.zone_advance, Zone.after_of_named?_eq_none hnamed, hstart]

/-! ## A run -/

/-- **A strict run is a run of the commands for the device.** -/
theorem runBlock_onDevice (hcall : Respects call) (hstrict : e.config.strictSections = true)
    (block : Block) (last : Option Platform) (h : m.Alike m')
    (hzone : m.state.zone = Zone.behindMarker e.host.platform last)
    (hstart : m'.state.zone = .start) :
    (e.runBlock call block m).Alike
      (e.runBlock call (block.onDevice e.host.platform last) m') := by
  induction block generalizing last m m' with
  | nil => exact h
  | cons c rest ih =>
      rw [Block.onDevice]
      cases hnamed : Zone.named? c with
      | some named =>
          obtain ⟨m1, hm1, hzone1, hrun⟩ := e.runBlock_cons_marker hnamed rest h
          rw [hrun]
          exact ih (some named) hm1 hzone1 hstart
      | none =>
          have hpermits : m.state.zone.permits e.config.strictSections = true
              ↔ last = none ∨ last = some e.host.platform := by
            rw [hzone, hstrict]
            exact Zone.permits_behindMarker_iff e.host.platform last
          dsimp only
          by_cases hkeep : OpensChain c ∨ last = none ∨ last = some e.host.platform
          · rw [if_pos hkeep]
            refine e.runBlock_cons_kept hcall hnamed (hkeep.imp id hpermits.2) h hstart ?_
            exact fun m1 m1' hm1 hzone1 hstart1 => ih last hm1 (hzone1.trans hzone) hstart1
          · rw [if_neg hkeep]
            obtain ⟨hc, hother⟩ := not_or.1 hkeep
            obtain ⟨m1, hm1, hzone1, hrun⟩ :=
              e.runBlock_cons_elsewhere hc hnamed (mt hpermits.1 hother) rest h
            rw [hrun]
            exact ih last hm1 (hzone1.trans hzone) hstart

/-- **A run that is not strict is a run of everything but the markers.** -/
theorem runBlock_unmarked (hcall : Respects call) (hstrict : e.config.strictSections = false)
    (block : Block) (h : m.Alike m') (hstart : m'.state.zone = .start) :
    (e.runBlock call block m).Alike (e.runBlock call block.unmarked m') := by
  induction block generalizing m m' with
  | nil => exact h
  | cons c rest ih =>
      rw [Block.unmarked, List.filter_cons]
      cases hnamed : Zone.named? c with
      | some named =>
          obtain ⟨m1, hm1, -, hrun⟩ := e.runBlock_cons_marker hnamed rest h
          rw [hrun]
          exact ih hm1 hstart
      | none =>
          have hruns : m.state.zone.permits e.config.strictSections = true := by
            rw [hstrict]
            exact Zone.permits_of_not_strict _
          exact e.runBlock_cons_kept hcall hnamed (Or.inr hruns) h hstart
            fun m1 m1' hm1 _ hstart1 => ih hm1 hstart1

/-! ## An interpretation -/

/-- **Platform sections are a filter on the block.** A block that is interpreted from a fresh state
leaves the same files, requests, session and state as the block without its platform markers,
and in a strict run without the commands of sections for other platforms. Only the section that
the run ends in may differ. -/
theorem interpret_platform_sections (block : Block) (world : World) (session : Session)
    (scriptDir optionName : String) :
    let m : Machine := ⟨world, session, .start scriptDir optionName⟩
    let whole := e.interpret block m
    let filtered := e.interpret
      (if e.config.strictSections then block.onDevice e.host.platform none else block.unmarked) m
    whole.world.files = filtered.world.files
      ∧ whole.world.requests = filtered.world.requests
      ∧ whole.session = filtered.session
      ∧ { whole.state with inSection := false, gate := none }
        = { filtered.state with inSection := false, gate := none } := by
  intro m whole filtered
  have hcall := e.nested_respects (maxExecDepth - m.session.depth)
  have halike : whole.Alike filtered := by
    show (e.interpret block m).Alike (e.interpret _ m)
    rw [interpret_eq, interpret_eq]
    by_cases hstrict : e.config.strictSections = true
    · rw [if_pos hstrict]
      exact e.runBlock_onDevice hcall hstrict block none (.refl _) rfl rfl
    · rw [if_neg hstrict]
      exact e.runBlock_unmarked hcall (Bool.eq_false_iff.2 hstrict) block (.refl _) rfl
  exact ⟨halike.world.files, halike.world.requests, halike.session, halike.state⟩

end Engine

end PackageScript
