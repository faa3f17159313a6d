import PackageScript.Proofs.Engine.Steps

set_option autoImplicit false

/-! # Platform zones

Which commands of a block the platform sections let through can be read off the block, without
running it: only platform markers matter, every one of them counts wherever it stands, and none
is ever skipped. A *zone* is what the last marker says, and `Zone.permitted` filters a block
accordingly. `verdict_of_plain` is the link to a run: at a command that opens no retry chain the
verdict depends on the zone, the number of retry chains and the success flag alone.
-/

namespace PackageScript

/-- What the last platform marker says: whether there was one, and the platform that it named if
that is the platform of the device. -/
structure Zone where
  marked : Bool
  gate : Option Platform
deriving DecidableEq

namespace Zone

/-- The zone in front of every marker. -/
def start : Zone := ⟨false, none⟩

def named? : Command → Option Platform
  | [] => none
  | name :: _ => Platform.ofMarker? name

/-- The zone behind a command. -/
def after (device : Platform) (z : Zone) (c : Command) : Zone :=
  match named? c with
  | some p => ⟨true, if p = device then some p else none⟩
  | none => z

/-- The zone behind a block. -/
def behind (device : Platform) (z : Zone) (block : Block) : Zone := block.foldl (after device) z

/-- Whether commands may run in a zone. Only strict runs hold any back. -/
def permits (strict : Bool) (z : Zone) : Bool := !strict || !z.marked || z.gate.isSome

/-- Whether a command is one that could be executed: it has a name, and that is no marker. -/
def IsPlain (c : Command) : Prop := c ≠ [] ∧ ¬ OpensChain c ∧ named? c = none

instance (c : Command) : Decidable (IsPlain c) :=
  inferInstanceAs (Decidable (c ≠ [] ∧ ¬ OpensChain c ∧ named? c = none))

/-- **The commands of a block that its platform sections let through**, in order: those with a
name that is no marker and whose zone permits it. -/
def permitted (strict : Bool) (device : Platform) : Zone → Block → List Command
  | _, [] => []
  | z, c :: rest =>
      (if IsPlain c ∧ z.permits strict = true then [c] else [])
        ++ permitted strict device (z.after device c) rest

theorem behind_cons (device : Platform) (z : Zone) (c : Command) (rest : Block) :
    behind device z (c :: rest) = behind device (z.after device c) rest := rfl

theorem behind_append (device : Platform) (z : Zone) (a b : Block) :
    behind device z (a ++ b) = behind device (behind device z a) b :=
  List.foldl_append

end Zone

def State.zone (s : State) : Zone := ⟨s.inSection, s.gate⟩

theorem State.zone_eq_of_frame {s t : State} (h : s.frame = t.frame) : s.zone = t.zone := by
  have hz : s.frame.zone = t.frame.zone := by rw [h]
  exact hz

theorem named?_of_opensChain {c : Command} (h : OpensChain c) : Zone.named? c = none := by
  cases c with
  | nil => rfl
  | cons name args =>
      rw [OpensChain, List.head?_cons, Option.some.injEq] at h
      subst h
      show Platform.ofMarker? retryMarker = none
      decide +kernel

theorem Zone.after_of_opensChain {c : Command} (h : OpensChain c) (device : Platform) (z : Zone) :
    z.after device c = z := by
  rw [Zone.after, named?_of_opensChain h]

namespace Engine

variable (e : Engine)

/-- **The verdict at a command that opens no retry chain.** -/
theorem verdict_of_plain {c : Command} (hc : ¬ OpensChain c) (m : Machine) :
    (c = [] ∧ m.verdict e.config.strictSections c = .blank) ∨
    (∃ p, Zone.named? c = some p ∧ m.verdict e.config.strictSections c = .platform p) ∨
    (Zone.IsPlain c ∧ m.state.zone.permits e.config.strictSections = false ∧
      ∃ name, m.verdict e.config.strictSections c = .elsewhere name) ∨
    (Zone.IsPlain c ∧ m.state.zone.permits e.config.strictSections = true ∧
      m.verdict e.config.strictSections c =
        if m.state.retryCount ≠ 0 ∧ m.session.success = false then .broken else .run) := by
  cases c with
  | nil => exact Or.inl ⟨rfl, rfl⟩
  | cons name args =>
      refine Or.inr ?_
      have hname : ¬ name = retryMarker := fun hn => hc (by rw [OpensChain, List.head?_cons, hn])
      -- the verdict asks for the name first, then for the zone, and for the flag last
      cases hp : Platform.ofMarker? name with
      | some p => exact Or.inl ⟨p, hp, by simp only [Machine.verdict, if_neg hname, hp]⟩
      | none =>
          refine Or.inr ?_
          have plain : Zone.IsPlain (name :: args) := ⟨List.cons_ne_nil _ _, hc, hp⟩
          have hpermits : m.state.permits e.config.strictSections
              = m.state.zone.permits e.config.strictSections := rfl
          cases hz : m.state.zone.permits e.config.strictSections with
          | false =>
              refine Or.inl ⟨plain, rfl, name, ?_⟩
              simp [Machine.verdict, if_neg hname, hp, hpermits, hz]
          | true =>
              refine Or.inr ⟨plain, rfl, ?_⟩
              simp [Machine.verdict, if_neg hname, hp, hpermits, hz]

/-- A command that opens no retry chain runs if its zone permits it and no chain that it stands in
has failed. -/
theorem verdict_eq_run_iff {c : Command} (hc : ¬ OpensChain c) (m : Machine) :
    m.verdict e.config.strictSections c = .run ↔
      (Zone.IsPlain c ∧ m.state.zone.permits e.config.strictSections = true) ∧
        ¬ (m.state.retryCount ≠ 0 ∧ m.session.success = false) := by
  rcases e.verdict_of_plain hc m with ⟨rfl, hv⟩ | ⟨p, hp, hv⟩ | ⟨-, hz, name, hv⟩ |
    ⟨plain, hz, hv⟩
  · simp [hv, Zone.IsPlain]
  · simp [hv, Zone.IsPlain, hp]
  · simp [hv, hz]
  · rw [hv]
    split
    · next h => simp [h]
    · next h => simp [h, plain, hz]

/-- What a command that opens no retry chain does to the zone and to the number of chains. -/
theorem advance_of_plain (call : Block → Machine → Machine) {c : Command}
    (hc : ¬ OpensChain c) (m : Machine) :
    (e.advance call c m).state.zone = m.state.zone.after e.host.platform c ∧
      (e.advance call c m).state.retryCount = m.state.retryCount := by
  rcases e.verdict_of_plain hc m with ⟨rfl, hv⟩ | ⟨p, hp, hv⟩ | ⟨plain, -, name, hv⟩ |
    ⟨plain, -, hv⟩
  · rw [advance, hv]
    exact ⟨rfl, rfl⟩
  · rw [advance, hv, Zone.after, hp]
    exact ⟨rfl, rfl⟩
  · rw [advance, hv, Zone.after, plain.2.2]
    exact ⟨rfl, rfl⟩
  · rw [Zone.after, plain.2.2]
    split at hv
    · rw [advance, hv]
      exact ⟨rfl, rfl⟩
    · rw [e.advance_of_run hv]
      have hframe := e.execute_frame call c m
      exact ⟨State.zone_eq_of_frame hframe, State.retryCount_eq_of_frame hframe⟩

theorem verdict_of_opens {c : Command} (hc : OpensChain c) (m : Machine) (strict : Bool) :
    m.verdict strict c =
      if m.session.success = true ∧ m.state.retryCount ≠ 0 then .finished else .chain := by
  cases c with
  | nil => cases hc
  | cons name args =>
      rw [OpensChain, List.head?_cons, Option.some.injEq] at hc
      simp [Machine.verdict, hc]

theorem advance_of_opens (call : Block → Machine → Machine) {c : Command} (hc : OpensChain c)
    (m : Machine) : (e.advance call c m).state.zone = m.state.zone := by
  rw [advance, verdict_of_opens hc]
  by_cases hdone : m.session.success = true ∧ m.state.retryCount ≠ 0
  · rw [if_pos hdone]
    rfl
  · rw [if_neg hdone]
    exact (State.zone_eq_of_frame (e.openChain_frame m)).trans rfl

/-- **The zone behind a command is told by the command.** -/
theorem zone_advance (call : Block → Machine → Machine) (c : Command) (m : Machine) :
    (e.advance call c m).state.zone = m.state.zone.after e.host.platform c := by
  by_cases hc : OpensChain c
  · rw [e.advance_of_opens call hc, Zone.after_of_opensChain hc]
  · exact (e.advance_of_plain call hc m).1

/-- **A block without retry chains leaves the run in its last zone and in the same chain.** -/
theorem runBlock_of_plain (call : Block → Machine → Machine) {a : Block}
    (ha : ∀ c ∈ a, ¬ OpensChain c) (m : Machine) :
    (e.runBlock call a m).state.zone = m.state.zone.behind e.host.platform a ∧
      (e.runBlock call a m).state.retryCount = m.state.retryCount := by
  induction a generalizing m with
  | nil => exact ⟨rfl, rfl⟩
  | cons c rest ih =>
      have hc := ha c List.mem_cons_self
      obtain ⟨hzone, hcount⟩ := e.advance_of_plain call hc m
      have ih := ih (fun d hd => ha d (List.mem_cons_of_mem _ hd)) (e.advance call c m)
      rw [hzone, hcount] at ih
      rw [runBlock_cons_of_plain e hc]
      exact ih

end Engine

end PackageScript
