import Mathlib.Order.Bounds.Defs
import PackageScript.Proofs.Engine.Zones

set_option autoImplicit false

/-! # Retry chains

A block is a prelude without retry markers followed by retry chains, each a marker and a body.
Every block is written this way (`Chained.block_ofBlock`). The prelude is executed as a whole,
failures or not. A chain is executed up to the first command that leaves the success flag down.
The first chain that ends with the flag set is the last one: the marker behind it is counted,
and nothing behind that marker is executed.
-/

namespace PackageScript

/-! ## Blocks by their chains -/

/-- A retry marker and the commands up to the next one. -/
structure Chain where
  marker : Command
  body : Block
  opens : OpensChain marker
  plain : ∀ c ∈ body, ¬ OpensChain c

/-- A block by its retry chains. -/
structure Chained where
  /-- The commands in front of the first marker. -/
  prelude : Block
  chains : List Chain
  plain : ∀ c ∈ prelude, ¬ OpensChain c

def Chain.blockOf (chains : List Chain) : Block := chains.flatMap fun c => c.marker :: c.body

namespace Chained

def block (b : Chained) : Block := b.prelude ++ Chain.blockOf b.chains

/-- The block up to and including its first `i` chains. -/
def first (b : Chained) (i : Nat) : Chained := { b with chains := b.chains.take i }

/-- Puts a command in front of a block. A marker makes the prelude the body of a new chain. -/
def cons (c : Command) (b : Chained) : Chained :=
  if h : OpensChain c then ⟨[], ⟨c, b.prelude, h, b.plain⟩ :: b.chains, by simp⟩
  else ⟨c :: b.prelude, b.chains, by
    intro d hd
    rcases List.mem_cons.1 hd with rfl | hd
    · exact h
    · exact b.plain d hd⟩

/-- The chains of a block. -/
def ofBlock : Block → Chained
  | [] => ⟨[], [], by simp⟩
  | c :: rest => cons c (ofBlock rest)

theorem block_cons (c : Command) (b : Chained) : (cons c b).block = c :: b.block := by
  unfold cons
  split <;> simp [block, Chain.blockOf]

/-- **Every block is written by its chains.** -/
theorem block_ofBlock (block : Block) : (ofBlock block).block = block := by
  induction block with
  | nil => rfl
  | cons c rest ih => rw [ofBlock, block_cons, ih]

end Chained

/-- **Some commands are executed one after the other up to the first failure**: each of them up
to and including the first that leaves the success flag down. -/
inductive UpToFailure : List Command → List Step → Prop
  | done : UpToFailure [] []
  | failed (x : Step) (rest : List Command) (down : x.after.session.success = false) :
      UpToFailure (x.command :: rest) [x]
  | passed (x : Step) {rest : List Command} {xs : List Step}
      (up : x.after.session.success = true) (tail : UpToFailure rest xs) :
      UpToFailure (x.command :: rest) (x :: xs)

namespace Engine

variable (e : Engine)

/-- The commands of a block that the platform sections let through, from a given zone. -/
def permitted (z : Zone) (block : Block) : List Command :=
  Zone.permitted e.config.strictSections e.host.platform z block

theorem permitted_cons (z : Zone) (c : Command) (rest : Block) :
    e.permitted z (c :: rest) =
      (if Zone.IsPlain c ∧ z.permits e.config.strictSections = true then [c] else [])
        ++ e.permitted (z.after e.host.platform c) rest := rfl

theorem executed_of_run {call : Block → Machine → Machine} {c : Command} {m : Machine}
    (hc : ¬ OpensChain c) (run : m.verdict e.config.strictSections c = .run) (rest : Block) :
    executed (e.steps call (c :: rest) m) =
      ⟨c, .run, m, e.advance call c m⟩ :: executed (e.steps call rest (e.advance call c m)) := by
  rw [steps_cons_of_plain e hc, run]
  rfl

theorem executed_of_held {call : Block → Machine → Machine} {c : Command} {m : Machine}
    (hc : ¬ OpensChain c) (held : m.verdict e.config.strictSections c ≠ .run) (rest : Block) :
    executed (e.steps call (c :: rest) m) = executed (e.steps call rest (e.advance call c m)) := by
  rw [steps_cons_of_plain e hc, executed, List.filter_cons_of_neg (by simpa using held)]
  rfl

/-! ## The prelude -/

/-- **In front of the first chain every permitted command is executed**, failures or not. -/
theorem executed_of_prelude (call : Block → Machine → Machine) {a : Block}
    (ha : ∀ c ∈ a, ¬ OpensChain c) {m : Machine} (hm : m.state.retryCount = 0) :
    (executed (e.steps call a m)).map Step.command = e.permitted m.state.zone a := by
  induction a generalizing m with
  | nil => rfl
  | cons c rest ih =>
      have hc := ha c List.mem_cons_self
      obtain ⟨hzone, hcount⟩ := e.advance_of_plain call hc m
      have ih := ih (fun d hd => ha d (List.mem_cons_of_mem _ hd)) (hcount.trans hm)
      rw [hzone] at ih
      have hrun := e.verdict_eq_run_iff hc m
      rw [permitted_cons]
      by_cases run : m.verdict e.config.strictSections c = .run
      · rw [e.executed_of_run hc run, if_pos (hrun.1 run).1, List.map_cons, ih]
        rfl
      · have hnot : ¬ (Zone.IsPlain c ∧ m.state.zone.permits e.config.strictSections = true) :=
          fun h => run (hrun.2 ⟨h, fun failed => failed.1 hm⟩)
        rw [e.executed_of_held hc run, if_neg hnot, ih]
        rfl

/-! ## One chain -/

/-- In a chain that has failed nothing is executed and the flag stays down. -/
theorem executed_of_failed {call : Block → Machine → Machine} {a : Block}
    (ha : ∀ c ∈ a, ¬ OpensChain c) {m : Machine} (hm : m.state.retryCount ≠ 0)
    (down : m.session.success = false) :
    executed (e.steps call a m) = [] ∧ (e.runBlock call a m).session.success = false := by
  induction a generalizing m with
  | nil => exact ⟨rfl, down⟩
  | cons c rest ih =>
      have hc := ha c List.mem_cons_self
      have held : m.verdict e.config.strictSections c ≠ .run := fun run =>
        ((e.verdict_eq_run_iff hc m).1 run).2 ⟨hm, down⟩
      have hcount := (e.advance_of_plain call hc m).2
      rw [e.executed_of_held hc held, runBlock_cons_of_plain e hc]
      exact ih (fun d hd => ha d (List.mem_cons_of_mem _ hd)) (hcount ▸ hm)
        ((e.success_of_held hc held).trans down)

/-- **A chain is executed up to its first failure.** -/
theorem upToFailure_of_chain {call : Block → Machine → Machine} {a : Block}
    (ha : ∀ c ∈ a, ¬ OpensChain c) {m : Machine} (hm : m.state.retryCount ≠ 0)
    (up : m.session.success = true) :
    UpToFailure (e.permitted m.state.zone a) (executed (e.steps call a m)) := by
  induction a generalizing m with
  | nil => exact .done
  | cons c rest ih =>
      have hc := ha c List.mem_cons_self
      have hrest : ∀ d ∈ rest, ¬ OpensChain d := fun d hd => ha d (List.mem_cons_of_mem _ hd)
      obtain ⟨hzone, hcount⟩ := e.advance_of_plain call hc m
      have hm' : (e.advance call c m).state.retryCount ≠ 0 := hcount ▸ hm
      have ih := ih hrest hm'
      rw [hzone] at ih
      have hrun := e.verdict_eq_run_iff hc m
      rw [permitted_cons]
      by_cases run : m.verdict e.config.strictSections c = .run
      · rw [e.executed_of_run hc run, if_pos (hrun.1 run).1]
        cases hflag : (e.advance call c m).session.success with
        | false =>
            -- the rest of the chain is passed over
            rw [(e.executed_of_failed hrest hm' hflag).1]
            exact .failed ⟨c, .run, m, e.advance call c m⟩ _ hflag
        | true => exact .passed ⟨c, .run, m, e.advance call c m⟩ hflag (ih hflag)
      · have hnot : ¬ (Zone.IsPlain c ∧ m.state.zone.permits e.config.strictSections = true) :=
          fun h => run (hrun.2 ⟨h, fun failed => by rw [up] at failed; cases failed.2⟩)
        rw [e.executed_of_held hc run, if_neg hnot]
        exact ih ((e.success_of_held hc run).trans up)

/-! ## One chain after the other -/

/-- **A chain that is needed**: it is executed up to its first failure, and what follows starts
in its last zone with one more chain counted. -/
theorem run_of_needed (call : Block → Machine → Machine) (c : Chain) {m : Machine}
    (needed : m.state.retryCount = 0 ∨ m.session.success = false) :
    (∃ run, UpToFailure (e.permitted m.state.zone c.body) run ∧
      ∀ rest, executed (e.steps call (c.marker :: c.body ++ rest) m) =
        run ++ executed (e.steps call rest (e.runBlock call (c.marker :: c.body) m))) ∧
    (∀ rest, e.runBlock call (c.marker :: c.body ++ rest) m =
      e.runBlock call rest (e.runBlock call (c.marker :: c.body) m)) ∧
    (e.runBlock call (c.marker :: c.body) m).state.zone =
      m.state.zone.behind e.host.platform (c.marker :: c.body) ∧
    (e.runBlock call (c.marker :: c.body) m).state.retryCount = m.state.retryCount + 1 := by
  have hnot : ¬ (m.session.success = true ∧ m.state.retryCount ≠ 0) := by
    rintro ⟨up, hcount⟩
    rcases needed with hm | down
    · exact hcount hm
    · rw [up] at down
      cases down
  have hv : m.verdict e.config.strictSections c.marker = .chain := by
    rw [verdict_of_opens c.opens, if_neg hnot]
  have hadvance : e.advance call c.marker m = e.openChain m := by rw [advance, hv]
  have hrun : ∀ b : Block, e.runBlock call (c.marker :: b) m
      = e.runBlock call b (e.openChain m) := by
    intro b
    rw [runBlock_cons, hv, if_neg (by simp), hadvance]
  have hsteps : ∀ b : Block, executed (e.steps call (c.marker :: b) m)
      = executed (e.steps call b (e.openChain m)) := by
    intro b
    rw [steps]
    simp [executed, hv, hadvance]
  -- the chain itself starts counted, with the flag set, in the zone of the marker
  have hframe := e.openChain_frame m
  have hcount : (e.openChain m).state.retryCount = m.state.retryCount + 1 :=
    State.retryCount_eq_of_frame hframe
  have hzone : (e.openChain m).state.zone = m.state.zone :=
    (State.zone_eq_of_frame hframe).trans rfl
  have hup : (e.openChain m).session.success = true := by rw [openChain_session]
  obtain ⟨hbody, hbodyCount⟩ := e.runBlock_of_plain call c.plain (e.openChain m)
  rw [hrun]
  refine ⟨⟨executed (e.steps call c.body (e.openChain m)), ?_, ?_⟩, ?_, ?_, ?_⟩
  · rw [← hzone]
    exact e.upToFailure_of_chain c.plain (by rw [hcount]; exact Nat.succ_ne_zero _) hup
  · intro rest
    rw [List.cons_append, hsteps, e.steps_append c.plain, executed_append]
  · intro rest
    rw [List.cons_append, hrun, e.runBlock_append c.plain]
  · rw [hbody, hzone, Zone.behind_cons, Zone.after_of_opensChain c.opens]
  · rw [hbodyCount, hcount]

/-- **A chain that is not needed** ends the block: its marker is counted and nothing is
executed. -/
theorem run_of_not_needed {call : Block → Machine → Machine} {c : Command} (hc : OpensChain c)
    (rest : Block) {m : Machine} (hm : m.state.retryCount ≠ 0) (up : m.session.success = true) :
    executed (e.steps call (c :: rest) m) = [] ∧
      (e.runBlock call (c :: rest) m).session.success = true ∧
      (e.runBlock call (c :: rest) m).state.retryCount = m.state.retryCount + 1 := by
  have hv : m.verdict e.config.strictSections c = .finished := by
    rw [verdict_of_opens hc, if_pos ⟨up, hm⟩]
  have hadvance : e.advance call c m = closeChains m := by rw [advance, hv]
  refine ⟨?_, ?_, ?_⟩
  · rw [steps]
    simp [executed, hv]
  · rw [runBlock_cons, if_pos hv, hadvance]
    exact up
  · rw [runBlock_cons, if_pos hv, hadvance]
    rfl

/-- **How a run through `n` chains ends**, `ends i` being the flag behind the first `i` of them:
either `ran` is the first chain that ends with the flag set, and then the marker behind it is
counted too, or no chain ends so and all of them ran. -/
def ChainsEnd (ends : Nat → Bool) (n ran count : Nat) : Prop :=
  (IsLeast {k | 1 ≤ k ∧ k ≤ n ∧ ends k = true} ran ∧ ends n = true ∧
      count = if ran < n then ran + 1 else n) ∨
    ((∀ k, 1 ≤ k → k ≤ n → ends k = false) ∧ ran = n ∧ count = n)

theorem ChainsEnd.of_first {ends : Nat → Bool} {n : Nat} (first : ends 1 = true)
    (last : ends (n + 1) = true) : ChainsEnd ends (n + 1) 1 (if n = 0 then 1 else 2) := by
  refine Or.inl ⟨⟨⟨Nat.le_refl 1, Nat.le_add_left 1 n, first⟩, fun k hk => hk.1⟩, last, ?_⟩
  cases n <;> simp

/-- The first of `n + 1` chains fails, and the others end as `ChainsEnd` says. -/
theorem ChainsEnd.behind_failed {f g : Nat → Bool} {n ran count : Nat}
    (shift : ∀ i, f (i + 1) = g i) (down : g 0 = false) (h : ChainsEnd g n ran count) :
    ChainsEnd f (n + 1) (ran + 1) (count + 1) := by
  rcases h with ⟨⟨⟨-, hran, up⟩, least⟩, last, hcount⟩ | ⟨none, hran, hcount⟩
  · refine Or.inl ⟨⟨⟨by omega, by omega, (shift ran).trans up⟩, ?_⟩, (shift n).trans last, ?_⟩
    · rintro (_ | k) ⟨hk, hkn, hup⟩
      · omega
      · rw [shift] at hup
        have hpos : k ≠ 0 := by
          rintro rfl
          rw [down] at hup
          cases hup
        have hle := least ⟨by omega, by omega, hup⟩
        omega
    · split at hcount <;> split <;> omega
  · refine Or.inr ⟨?_, by omega, by omega⟩
    rintro (_ | k) hk hkn
    · omega
    · rw [shift]
      cases k with
      | zero => exact down
      | succ k => exact none (k + 1) (by omega) (by omega)

/-- **Retry chains from any machine that needs the first of them.** -/
theorem run_of_chains (call : Block → Machine → Machine) (chains : List Chain) {m : Machine}
    (needed : m.state.retryCount = 0 ∨ m.session.success = false) :
    ∃ (runs : List (List Step)) (count : Nat),
      executed (e.steps call (Chain.blockOf chains) m) = runs.flatten ∧
      (∀ i run, runs[i]? = some run → ∃ c, chains[i]? = some c ∧
        UpToFailure (e.permitted
          (m.state.zone.behind e.host.platform (Chain.blockOf (chains.take i))) c.body) run) ∧
      ChainsEnd
        (fun i => (e.runBlock call (Chain.blockOf (chains.take i)) m).session.success)
        chains.length runs.length count ∧
      (e.runBlock call (Chain.blockOf chains) m).state.retryCount
        = m.state.retryCount + count := by
  -- the induction is on the chains, for every machine that needs the first of them: after a chain
  -- that failed the machine needs the next one
  induction chains generalizing m with
  | nil =>
      refine ⟨[], 0, rfl, by simp, Or.inr ⟨fun i hi hin => ?_, rfl, rfl⟩, rfl⟩
      exact absurd (Nat.le_trans hi hin) (by simp)
  | cons c chains ih =>
      obtain ⟨⟨run, hrun, hsteps⟩, hblock, hzone, hcount⟩ :=
        e.run_of_needed call c needed
      generalize e.runBlock call (c.marker :: c.body) m = m' at *
      have hcons : ∀ cs, Chain.blockOf (c :: cs) = c.marker :: c.body ++ Chain.blockOf cs :=
        fun cs => List.flatMap_cons
      -- the run of the first `i + 1` chains is that of this one, then of `i` others
      have hends : ∀ i, e.runBlock call (Chain.blockOf ((c :: chains).take (i + 1))) m
          = e.runBlock call (Chain.blockOf (chains.take i)) m' := by
        intro i
        rw [List.take_succ_cons, hcons, hblock]
      have hzones : ∀ i, m.state.zone.behind e.host.platform
          (Chain.blockOf ((c :: chains).take (i + 1)))
          = m'.state.zone.behind e.host.platform (Chain.blockOf (chains.take i)) := by
        intro i
        rw [List.take_succ_cons, hcons, Zone.behind_append, hzone]
      cases up : m'.session.success with
      | true =>
          -- the chain behind this one, if there is one, is not needed
          have hrest : executed (e.steps call (Chain.blockOf chains) m') = [] ∧
              (e.runBlock call (Chain.blockOf chains) m').session.success = true ∧
              (e.runBlock call (Chain.blockOf chains) m').state.retryCount
                = m'.state.retryCount + if chains.length = 0 then 0 else 1 := by
            cases chains with
            | nil => exact ⟨rfl, up, rfl⟩
            | cons d ds =>
                exact e.run_of_not_needed d.opens _ (by rw [hcount]; exact Nat.succ_ne_zero _) up
          refine ⟨[run], if chains.length = 0 then 1 else 2, ?_, ?_,
            ChainsEnd.of_first ?_ ?_, ?_⟩
          · rw [hcons, hsteps, hrest.1]
            simp
          · rintro (_ | i) r hr
            · cases hr
              exact ⟨c, rfl, hrun⟩
            · cases hr
          · exact (congrArg (·.session.success) (hends 0)).trans up
          · show (e.runBlock call (Chain.blockOf ((c :: chains).take (chains.length + 1))) m
              ).session.success = true
            rw [hends, List.take_length]
            exact hrest.2.1
          · rw [hcons, hblock, hrest.2.2, hcount]
            split <;> omega
      | false =>
          obtain ⟨runs, count, hexec, hruns, hout, hlast⟩ := ih (m := m') (Or.inr up)
          refine ⟨run :: runs, count + 1, ?_, ?_, hout.behind_failed ?_ up, ?_⟩
          · rw [hcons, hsteps, hexec]
            rfl
          · rintro (_ | i) r hr
            · cases hr
              exact ⟨c, rfl, hrun⟩
            · rw [hzones]
              exact hruns i r hr
          · exact fun i => congrArg (·.session.success) (hends i)
          · rw [hcons, hblock, hlast, hcount]
            omega

/-! ## The whole block -/

/-- **What retry chains execute.** Take a block by its chains and interpret it from a fresh state.
Then its executions are those of the prelude, which are all its permitted commands, and behind
them one run for each of the first chains, up to the first failure in it. Either some chain ends
with the flag set, as an interpretation of the block up to it shows: then the first such chain
`k` is the last one that runs, the flag is set at the end, and the marker behind chain `k` is
counted too. Or no chain does: then all of them run, and the flag is down at the end if there is
any. -/
theorem interpret_retryChains (b : Chained) (w : World) (s : Session) (dir name : String) :
    let m : Machine := ⟨w, s, .start dir name⟩
    let last := e.interpret b.block m
    let ends := fun i => (e.interpret (b.first i).block m).session.success
    let zone := fun i => Zone.start.behind e.host.platform (b.first i).block
    ∃ (before : List Step) (runs : List (List Step)),
      e.executions b.block m = before ++ runs.flatten ∧
      before.map Step.command = e.permitted .start b.prelude ∧
      (∀ i run, runs[i]? = some run → ∃ c, b.chains[i]? = some c ∧
        UpToFailure (e.permitted (zone i) c.body) run) ∧
      ((∃ k, IsLeast {k | 1 ≤ k ∧ k ≤ b.chains.length ∧ ends k = true} k ∧ runs.length = k ∧
          last.session.success = true ∧
          last.state.retryCount = if k < b.chains.length then k + 1 else b.chains.length) ∨
        ((∀ k, 1 ≤ k → k ≤ b.chains.length → ends k = false) ∧
          runs.length = b.chains.length ∧
          (1 ≤ b.chains.length → last.session.success = false) ∧
          last.state.retryCount = b.chains.length)) := by
  intro m last ends zone
  -- the prelude leaves the machine `m'`, from which the chains run
  obtain ⟨hzone, hcount⟩ :=
    e.runBlock_of_plain (e.nestedFrom m) b.plain (m.setSuccess true)
  have hbefore := e.executed_of_prelude (e.nestedFrom m) b.plain
    (m := m.setSuccess true) rfl
  generalize hm' : e.runBlock (e.nestedFrom m) b.prelude (m.setSuccess true) = m' at *
  have hblock : ∀ chains, e.interpret (b.prelude ++ Chain.blockOf chains) m
      = e.runBlock (e.nestedFrom m) (Chain.blockOf chains) m' := by
    intro chains
    rw [interpret_eq, e.runBlock_append b.plain, hm']
  obtain ⟨runs, count, hexec, hruns, hout, hlast⟩ :=
    e.run_of_chains (e.nestedFrom m) b.chains (m := m') (Or.inl hcount)
  have hends : ∀ i, ends i =
      (e.runBlock (e.nestedFrom m) (Chain.blockOf (b.chains.take i)) m').session.success :=
    fun i => congrArg (·.session.success) (hblock (b.chains.take i))
  have hfinal : last = e.runBlock (e.nestedFrom m) (Chain.blockOf b.chains) m' := hblock b.chains
  have hall : ends b.chains.length = last.session.success := by
    rw [hends, List.take_length, hfinal]
  have hretry : last.state.retryCount = count := by
    rw [hfinal, hlast, hcount]
    exact Nat.zero_add count
  simp only [← hends] at hout
  refine ⟨executed (e.steps (e.nestedFrom m) b.prelude (m.setSuccess true)), runs, ?_, hbefore,
    ?_, ?_⟩
  · rw [← hexec, ← hm', ← executed_append, ← e.steps_append b.plain]
    rfl
  · intro i run hrun
    obtain ⟨c, hc, hup⟩ := hruns i run hrun
    refine ⟨c, hc, ?_⟩
    have hz : zone i = m'.state.zone.behind e.host.platform
        (Chain.blockOf (b.chains.take i)) := by
      rw [hzone]
      exact Zone.behind_append _ _ _ _
    rw [hz]
    exact hup
  · rcases hout with ⟨least, hset, hk⟩ | ⟨none, hran, hk⟩
    · exact Or.inl ⟨runs.length, least, rfl, hall.symm.trans hset, hretry.trans hk⟩
    · exact Or.inr ⟨none, hran, fun h => hall.symm.trans (none _ h (Nat.le_refl _)),
        hretry.trans hk⟩

end Engine

end PackageScript
