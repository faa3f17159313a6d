import PackageScript.Engine.Execute
import PackageScript.Host.Scripted
import PackageScript.Proofs.Text.Numerals

set_option autoImplicit false

/-! # What a reboot asks for

A reboot may ask for a boot target first and then asks for a reboot of the device. `Action.Asks`
says of an action that it returns and that, notices apart, all that it does is to ask for some
things one after the other. Actions that only ask are put together from such actions, so what a
reboot asks for is read off its parts.

Whatever fails on the way, the reboot of the device comes last and comes once
(`Engine.reboot_falls_back`). The entry that is launched for a payload is looked up like one that a
script names, so a payload whose name has only digits can launch an entry of another name
(`Setting.launches_written_entry_iff`).
-/

namespace PackageScript

/-! ## Asking and nothing else -/

/-- The files once some things were asked one after the other, by what the collaborators alone do
to them. -/
def Host.leaves (host : Host) (before : List Request) (fs : FileSystem) :
    List Request → FileSystem
  | [] => fs
  | r :: rest => host.leaves (before ++ [r]) (host.perform before fs r).2 rest

theorem Host.leaves_append (host : Host) (before : List Request) (fs : FileSystem)
    (asked rest : List Request) :
    host.leaves before fs (asked ++ rest)
      = host.leaves (before ++ asked) (host.leaves before fs asked) rest := by
  induction asked generalizing before fs with
  | nil => rw [List.nil_append, List.append_nil, leaves]
  | cons r asked ih =>
      rw [List.cons_append, leaves, leaves, ih, List.append_assoc, List.singleton_append]

namespace Action

variable {α β : Type} {host : Host} {w : World} {asked rest : List Request}

/-- **An action returns and only asks**: it asks for the given things in their order, and the files
are as the collaborators leave them. -/
def Asks (host : Host) (act : Action α) (w : World) (asked : List Request) : Prop :=
  ∃ a w', act w = .ok a w' ∧ w'.requests = w.requests ++ asked
    ∧ w'.files = host.leaves w.requests w.files asked

theorem asks_pure (a : α) : Asks host (pure a) w [] :=
  ⟨a, w, rfl, (List.append_nil _).symm, rfl⟩

theorem asks_note (notice : Notice) : Asks host (note notice) w [] :=
  ⟨(), w.note notice, rfl, (List.append_nil _).symm, rfl⟩

theorem asks_request (r : Request) : Asks host (request host r) w [r] :=
  ⟨(w.ask host r).1, (w.ask host r).2, rfl, rfl, rfl⟩

theorem Asks.bind {act : Action α} {next : α → Action β} (h : Asks host act w asked)
    (hnext : ∀ a w', w'.requests = w.requests ++ asked → Asks host (next a) w' rest) :
    Asks host (act >>= next) w (asked ++ rest) := by
  obtain ⟨a, w1, hact, hrequests, hfiles⟩ := h
  obtain ⟨b, w2, hrun, hrequests', hfiles'⟩ := hnext a w1 hrequests
  refine ⟨b, w2, ?_, ?_, ?_⟩
  · show EStateM.bind act next w = _
    rw [EStateM.bind, hact]
    exact hrun
  · rw [hrequests', hrequests, List.append_assoc]
  · rw [hfiles', hrequests, hfiles, host.leaves_append]

theorem Asks.thenPure {act : Action α} (h : Asks host act w asked) (b : β) :
    Asks host (do let _ ← act; pure b) w asked :=
  List.append_nil asked ▸ h.bind fun _ _ _ => asks_pure b

theorem Asks.ite {c : Prop} [Decidable c] {act other : Action α} (h : c → Asks host act w asked)
    (hother : ¬ c → Asks host other w asked) : Asks host (if c then act else other) w asked := by
  split
  · next hc => exact h hc
  · next hc => exact hother hc

theorem asks_look_bind {question : FileSystem → α} {next : α → Action β}
    (h : Asks host (next (question w.files)) w asked) :
    Asks host (look question >>= next) w asked := h

theorem asks_configs_bind {kind : ConfigKind} {next : List BootConfig → Action β}
    (h : Asks host (next ((host.after w.requests).configs kind)) (w.ask host (.listConfigs kind)).2
      rest) : Asks host (configs host kind >>= next) w (.listConfigs kind :: rest) := by
  obtain ⟨b, w', hrun, hrequests, hfiles⟩ := h
  refine ⟨b, w', hrun, ?_, hfiles⟩
  rw [hrequests]
  exact List.append_assoc w.requests [.listConfigs kind] rest

end Action

/-! ## Boot targets -/

/-- Whether a request makes the boot loader launch something. -/
def Request.isLaunch : Request → Bool
  | .rebootTo .. | .rebootToMenu | .rebootToBootloader | .rebootToUms | .rebootToPayload _ => true
  | _ => false

/-- Requests that launch at most one thing and do not reboot the device. -/
structure OneTry (tried : List Request) : Prop where
  launches : tried.countP Request.isLaunch ≤ 1
  reboots : Request.reboot ∉ tried

def Text.OnlyDigits (text : String) : Prop :=
  text.toList ≠ [] ∧ ∀ c ∈ text.toList, c.isDigit = true

namespace Setting

open PackageScript.Action (Asks asks_pure asks_note asks_request asks_look_bind asks_configs_bind)

variable (s : Setting) (w : World)

theorem asks_rebootToListed (kind : ConfigKind) (wanted : String) :
    Asks s.host (s.rebootToListed kind wanted) w
      (.listConfigs kind
        :: (wantedConfig ((s.host.after w.requests).configs kind) wanted).toList.map
          (.rebootTo kind)) := by
  refine asks_configs_bind ?_
  cases wantedConfig ((s.host.after w.requests).configs kind) wanted with
  | some config => exact (asks_request (.rebootTo kind config)).thenPure ()
  | none => exact asks_note _

theorem oneTry_listed (kind : ConfigKind) (found : Option BootConfig) :
    OneTry (.listConfigs kind :: found.toList.map (.rebootTo kind)) := by
  cases found with
  | none => exact ⟨by simp [Request.isLaunch], by simp⟩
  | some config => exact ⟨by simp [Request.isLaunch], by simp⟩

theorem oneTry_single {r : Request} (h : r ≠ .reboot) : OneTry [r] :=
  ⟨List.countP_le_length, by simpa using h.symm⟩

theorem oneTry_nil : OneTry [] := ⟨Nat.zero_le 1, List.not_mem_nil⟩

/-- The request that writes the entry of a payload. -/
def entryRequest (payload : String) : Request :=
  .iniSet (s.config.hostPath
      (cardMark ++ "bootloader/ini/" ++ ScriptPath.fileName payload ++ ".ini"))
    (ScriptPath.fileName payload) "payload" payload

variable {s w} in
/-- On the newer platform the entry of a payload is written and then looked up. Whether it could be
written makes no difference to what is asked. -/
theorem asks_rebootToPayload {payload : String} (hnewer : s.host.platform = .mariko)
    (hexists : w.files.exists? (s.config.hostPath payload) = true) :
    Asks s.host (s.rebootToPayload payload) w
      (s.entryRequest payload :: .listConfigs .ini
        :: (wantedConfig ((s.host.after (w.requests ++ [s.entryRequest payload])).configs .ini)
          (ScriptPath.fileName payload)).toList.map (.rebootTo .ini)) := by
  have holder : ¬ s.host.platform = .erista := by rw [hnewer]; decide
  refine asks_look_bind ?_
  rw [hexists, if_neg (by decide), if_neg holder]
  have hlisted : ∀ w', w'.requests = w.requests ++ [s.entryRequest payload] →
      Asks s.host (s.rebootToListed .ini (ScriptPath.fileName payload)) w' _ :=
    fun w' hw' => hw' ▸ s.asks_rebootToListed w' .ini (ScriptPath.fileName payload)
  refine (asks_request (s.entryRequest payload)).bind fun written w' hw' =>
    .ite (fun _ => ?_) (fun _ => hlisted w' hw')
  refine (asks_note _).bind fun _ w'' hw'' => hlisted w'' ?_
  rw [hw'', List.append_nil, hw']

theorem exists_asks_rebootToPayload (payload : String) :
    ∃ tried, OneTry tried ∧ Asks s.host (s.rebootToPayload payload) w tried := by
  cases hexists : w.files.exists? (s.config.hostPath payload) with
  | false =>
      refine ⟨[], oneTry_nil, asks_look_bind ?_⟩
      rw [hexists]
      exact asks_note _
  | true =>
      cases hplatform : s.host.platform with
      | erista =>
          refine ⟨[.rebootToPayload (s.config.hostPath payload)], oneTry_single nofun,
            asks_look_bind ?_⟩
          rw [hexists, if_neg (by decide), if_pos hplatform]
          exact (asks_request _).thenPure ()
      | mariko =>
          have hlisted := oneTry_listed .ini (wantedConfig
            ((s.host.after (w.requests ++ [s.entryRequest payload])).configs .ini)
            (ScriptPath.fileName payload))
          refine ⟨_, ⟨?_, ?_⟩, asks_rebootToPayload hplatform hexists⟩
          · rw [List.countP_cons_of_neg (by simp [entryRequest, Request.isLaunch])]
            exact hlisted.launches
          · exact List.not_mem_cons_of_ne_of_not_mem nofun hlisted.reboots

/-- **A boot target is tried by at most one launch**, whatever is named and whatever fails. -/
theorem exists_asks_rebootTarget (args : List String) :
    ∃ tried, OneTry tried ∧ Asks s.host (s.rebootTarget args) w tried := by
  unfold rebootTarget
  split
  · exact ⟨[.rebootToBootloader], oneTry_single nofun, (asks_request _).thenPure ()⟩
  · split
    · split
      · exact ⟨_, oneTry_listed _ _, s.asks_rebootToListed w _ _⟩
      · exact ⟨[], oneTry_nil, asks_pure ()⟩
    · split
      · exact ⟨_, oneTry_listed _ _, s.asks_rebootToListed w _ _⟩
      · exact ⟨[], oneTry_nil, asks_pure ()⟩
    · exact ⟨[.rebootToUms], oneTry_single nofun, (asks_request _).thenPure ()⟩
    · exact ⟨[.rebootToMenu], oneTry_single nofun, (asks_request _).thenPure ()⟩
    · exact ⟨[.rebootToMenu], oneTry_single nofun, (asks_request _).thenPure ()⟩
    · exact s.exists_asks_rebootToPayload w _

/-- The first argument of a reboot names a payload if it is none of the words for other targets. -/
def NamesPayload (target : String) : Prop :=
  Text.unquote target ∉ ["boot", "ini", "UMS", "HEKATE", "hekate"]

theorem rebootTarget_of_namesPayload {target : String} (rest : List String)
    (h : NamesPayload target) :
    s.rebootTarget (target :: rest) = s.rebootToPayload (scriptPath target) := by
  simp only [NamesPayload, List.mem_cons, List.not_mem_nil, or_false, not_or] at h
  obtain ⟨hboot, hini, hums, hupper, hlower⟩ := h
  rw [rebootTarget.eq_def]
  dsimp only
  split
  · next heq => exact absurd heq hboot
  · next heq => exact absurd heq hini
  · next heq => exact absurd heq hums
  · next heq => exact absurd heq hupper
  · next heq => exact absurd heq hlower
  · rfl

/-! ## The entry that a name means -/

/-- A name reads as the position of an entry that has another name. -/
def MeansAnother (configs : List BootConfig) (name : String) : Prop :=
  Text.OnlyDigits name ∧ ∃ i config, Text.Denotes name.toList i ∧ i < Text.wordLimit
    ∧ configs[i]? = some config ∧ config.name ≠ name

theorem wantedConfig_eq (configs : List BootConfig) (name : String)
    [Decidable (Text.OnlyDigits name)] :
    wantedConfig configs name
      = if Text.OnlyDigits name then (Text.wordOf? name).bind fun i => configs[i]?
        else configs.find? fun config => config.name == name := by
  have hdigits : (!name.isEmpty && name.toList.all Char.isDigit) = true ↔ Text.OnlyDigits name := by
    rw [Text.OnlyDigits, Bool.and_eq_true, Bool.not_eq_true', List.all_eq_true, ne_eq,
      String.toList_eq_nil_iff, ← Bool.not_eq_true, String.isEmpty_iff]
  rw [wantedConfig]
  exact if_congr hdigits rfl rfl

variable {configs : List BootConfig} {name : String}

theorem wantedConfig_of_not_digits (h : ¬ Text.OnlyDigits name) :
    wantedConfig configs name = configs.find? fun config => config.name == name := by
  classical
  rw [wantedConfig_eq, if_neg h]

/-- **What a name means has that name**, unless the name reads as the position of an entry that has
another one. -/
theorem name_of_wantedConfig_iff :
    (∀ config ∈ wantedConfig configs name, config.name = name) ↔ ¬ MeansAnother configs name := by
  classical
  rw [wantedConfig_eq]
  by_cases hdigits : Text.OnlyDigits name
  · rw [if_pos hdigits]
    constructor
    · rintro hnamed ⟨-, i, config, hi, hlt, hat, hother⟩
      have hread : Text.wordOf? name = some i := Text.numeral?_eq_some_iff.2 ⟨hi, hlt⟩
      exact hother (hnamed config (by rw [hread]; exact hat))
    · intro hnone config hconfig
      obtain ⟨i, hread, hat⟩ := Option.bind_eq_some_iff.1 hconfig
      obtain ⟨hi, hlt⟩ := Text.numeral?_eq_some_iff.1 hread
      by_contra hother
      exact hnone ⟨hdigits, i, config, hi, hlt, hat, hother⟩
  · rw [if_neg hdigits]
    refine iff_of_true (fun config hconfig => ?_) fun h => hdigits h.1
    have hfound : (config.name == name) = true :=
      List.find?_some (p := fun config : BootConfig => config.name == name) hconfig
    exact beq_iff_eq.1 hfound

/-! ## The fallback -/

variable {s w}

theorem asks_reboot {args : List String} {tried : List Request}
    (hcan : s.host.platform = .erista ∨ s.host.rebootsToConfig = true)
    (h : Asks s.host (s.rebootTarget args) w tried) :
    Asks s.host (s.reboot args) w (tried ++ [.reboot]) := by
  rw [reboot, if_pos hcan]
  exact h.bind fun _ w' _ => (asks_request .reboot).thenPure ()

theorem asks_reboot_untried {args : List String}
    (hcannot : ¬ (s.host.platform = .erista ∨ s.host.rebootsToConfig = true)) :
    Asks s.host (s.reboot args) w [.reboot] := by
  rw [reboot, if_neg hcannot]
  exact (asks_request .reboot).thenPure ()

variable (s w)

/-- **A reboot ends with that of the device**, behind at most one try, and behind none where no
target can be launched. -/
theorem exists_asks_reboot (args : List String) :
    ∃ tried, OneTry tried
      ∧ (s.host.platform = .mariko → s.host.rebootsToConfig = false → tried = [])
      ∧ Asks s.host (s.reboot args) w (tried ++ [.reboot]) := by
  by_cases hcan : s.host.platform = .erista ∨ s.host.rebootsToConfig = true
  · obtain ⟨tried, hone, hasked⟩ := s.exists_asks_rebootTarget w args
    refine ⟨tried, hone, fun hnewer hno => ?_, asks_reboot hcan hasked⟩
    rw [hnewer, hno] at hcan
    exact absurd hcan (by decide)
  · exact ⟨[], oneTry_nil, fun _ _ => rfl, asks_reboot_untried hcan⟩

end Setting

namespace Engine

variable (e : Engine) (call : Block → Machine → Machine) (args : List String) (m : Machine)

/-- A command that returns and leaves the retry chain alone changes the world and nothing else. -/
theorem perform_reboot {w' : World}
    (h : (e.setting m).reboot args m.world = .ok () w') :
    e.perform call "reboot" args m = { m with world := w' } := by
  have hrun : (e.setting m).run .reboot args m.world = .ok true w' := by
    show EStateM.bind ((e.setting m).reboot args) (fun _ => pure true) m.world = _
    rw [EStateM.bind, h]
    rfl
  have hop : Op.ofName "reboot" = .reboot := by decide +kernel
  have hperform : e.perform call "reboot" args m = e.runOnWorld .reboot "reboot" args m := by
    simp only [perform, hop]
    rw [if_neg (by decide),
      if_neg (show ¬ args.length < Op.minArgs .reboot from Nat.not_lt_zero _)]
  rw [hperform, runOnWorld, hrun]
  simp only [Machine.require, Machine.setSuccess, Bool.and_true]

/-- **A reboot always falls back to the device.** Whatever is named, on every host and whichever
requests fail, the command returns. It changes neither the state nor the session, and the files are
as the collaborators leave them. The device is rebooted once and last; before that at most one thing
is launched, and nothing is asked at all on the newer platform where the boot loader cannot be told
what to launch. -/
theorem reboot_falls_back :
    ∃ tried w', (e.setting m).reboot args m.world = .ok () w'
      ∧ e.perform call "reboot" args m = { m with world := w' }
      ∧ w'.files = e.host.leaves m.world.requests m.world.files (tried ++ [.reboot])
      ∧ w'.requests = m.world.requests ++ (tried ++ [.reboot])
      ∧ Request.reboot ∉ tried
      ∧ tried.countP Request.isLaunch ≤ 1
      ∧ (e.host.platform = .mariko → e.host.rebootsToConfig = false → tried = []) := by
  obtain ⟨tried, hone, hnone, ⟨⟩, w', hrun, hrequests, hfiles⟩ :=
    (e.setting m).exists_asks_reboot m.world args
  exact ⟨tried, w', hrun, e.perform_reboot call args m hrun, hfiles, hrequests, hone.reboots,
    hone.launches, hnone⟩

/-! ## The entry of a payload -/

variable {e m} in
/-- **Where the entry of a payload leads.** If the boot loader can be told what to launch, a reboot
into an existing payload on the newer platform writes an entry with the name of the file, lists the
entries, and launches the one that the name means in the list that the boot loader gives then. A
name that has more than digits means the first entry of that name. What is launched has the name
that was written unless that name reads as the position of another entry. -/
theorem launches_written_entry_iff {target : String} (rest : List String)
    (hnewer : e.host.platform = .mariko) (hcan : e.host.rebootsToConfig = true)
    (hpayload : Setting.NamesPayload target)
    (hexists : m.world.files.exists? ((e.setting m).locate target) = true) :
    let configs :=
      (e.host.after (m.world.requests ++ [(e.setting m).entryRequest (scriptPath target)])).configs
        .ini
    ∃ launched : Option BootConfig,
      (e.perform call "reboot" (target :: rest) m).world.requests
        = m.world.requests ++ ((e.setting m).entryRequest (scriptPath target)
          :: .listConfigs .ini :: launched.toList.map (.rebootTo .ini) ++ [.reboot])
      ∧ (¬ Text.OnlyDigits (ScriptPath.fileName (scriptPath target)) →
        launched = configs.find?
          fun config => config.name == ScriptPath.fileName (scriptPath target))
      ∧ ((∀ config ∈ launched, config.name = ScriptPath.fileName (scriptPath target))
        ↔ ¬ Setting.MeansAnother configs (ScriptPath.fileName (scriptPath target))) := by
  have hasked : (e.setting m).rebootTarget (target :: rest)
      = (e.setting m).rebootToPayload (scriptPath target) :=
    (e.setting m).rebootTarget_of_namesPayload rest hpayload
  obtain ⟨⟨⟩, w', hrun, hrequests, -⟩ := Setting.asks_reboot (w := m.world) (Or.inr hcan)
    (hasked ▸ Setting.asks_rebootToPayload hnewer hexists)
  refine ⟨_, ?_, Setting.wantedConfig_of_not_digits, Setting.name_of_wantedConfig_iff⟩
  rw [e.perform_reboot call _ m hrun]
  exact hrequests

/-- The newer platform, with a boot loader that lists two entries and launches them. -/
def onNewer (names : List String) : Engine where
  config := .withRoot ⟨"sd"⟩
  host := HostTables.host ⟨true, [], [], [], names, [], []⟩ .mariko
  quiet := false

def withPayload (name : String) : Machine where
  world := .ofFiles (((FileSystem.empty []).setDir ["sd"]).setFile ["sd", name] ⟨#[112]⟩)
  session := .fresh
  state := .start "sd" "o"

/-- A payload whose name is a number is launched if the entry at that position is its own. -/
theorem numbered_payload_launched :
    Setting.NamesPayload "sdmc:/1"
      ∧ ((withPayload "1").world.files.exists?
        (((onNewer ["stock", "1"]).setting (withPayload "1")).locate "sdmc:/1") = true)
      ∧ ∃ launched : Option BootConfig,
        ((onNewer ["stock", "1"]).perform (fun _ m => m) "reboot" ["sdmc:/1"]
            (withPayload "1")).world.requests
          = [((onNewer ["stock", "1"]).setting (withPayload "1")).entryRequest "sdmc:/1",
              .listConfigs .ini] ++ launched.toList.map (.rebootTo .ini) ++ [.reboot]
        ∧ ∀ config ∈ launched, config.name = "1" := by
  have hpayload : Setting.NamesPayload "sdmc:/1" := by
    have hplain : Text.unquote "sdmc:/1" = "sdmc:/1" := by decide +kernel
    rw [Setting.NamesPayload, hplain]
    decide
  have hexists : (withPayload "1").world.files.exists?
      (((onNewer ["stock", "1"]).setting (withPayload "1")).locate "sdmc:/1") = true := by
    decide +kernel
  have hpath : scriptPath "sdmc:/1" = "sdmc:/1" := by decide +kernel
  have hname : ScriptPath.fileName "sdmc:/1" = "1" := by decide +kernel
  obtain ⟨launched, hrequests, -, hnamed⟩ :=
    launches_written_entry_iff (fun _ m => m) [] rfl rfl hpayload hexists
  rw [hpath, hname] at hnamed
  rw [hpath] at hrequests
  refine ⟨hpayload, hexists, launched, hrequests, hnamed.2 ?_⟩
  rintro ⟨-, i, config, hi, -, hat, hother⟩
  obtain rfl : i = 1 := hi.unique (Text.denotes_numeralOf 1)
  obtain rfl := Option.some.inj hat
  exact hother rfl

/-- **The entry that is launched need not be the one that was written.** For a payload in a file
`0`, an entry `0` is written, and the first one of the list is launched, although the list has the
written one too. -/
theorem numbered_payload_launches_another :
    (withPayload "0").world.files.exists?
        (((onNewer ["stock", "0"]).setting (withPayload "0")).locate "sdmc:/0") = true
      ∧ ((onNewer ["stock", "0"]).perform (fun _ m => m) "reboot" ["sdmc:/0"]
          (withPayload "0")).world.requests
        = [.iniSet ⟨"sd/bootloader/ini/0.ini"⟩ "0" "payload" "sdmc:/0", .listConfigs .ini,
          .rebootTo .ini ⟨"stock", 0⟩, .reboot]
      ∧ ⟨"0", 1⟩ ∈ (onNewer ["stock", "0"]).host.configs .ini := by
  refine ⟨?_, ?_, ?_⟩ <;> decide +kernel

end Engine

end PackageScript
