import PackageScript.Command.Run

set_option autoImplicit false

/-! # Commands do not look back

What was asked and told before a command is its *past*. A command adds to it and never reads it.
Only a host may remember what it was asked. So a command behind a past does to the world what it
does in a world without one, on the host after the requests of that past (`Setting.run_resumes`).
The predicate behind that, `Action.Resumes`, is closed under putting actions together.
-/

namespace PackageScript

/-- What was asked and told before a run, and whether a refresh was asked for. -/
structure Past where
  requests : List Request
  notices : List Notice
  refresh : Bool

/-- A setting whose host was asked some things. -/
def Setting.after (s : Setting) (asked : List Request) : Setting :=
  { s with host := s.host.after asked }

/-- A world behind a past. -/
def World.behind (p : Past) (w : World) : World :=
  ⟨w.files, p.requests ++ w.requests, p.notices ++ w.notices⟩

theorem World.noteAll_behind (p : Past) (w : World) (notices : List Notice) :
    (w.behind p).noteAll notices = (w.noteAll notices).behind p := by
  simp only [noteAll, behind, List.append_assoc]

theorem World.ask_behind (p : Past) (w : World) (host : Host) (r : Request) :
    (w.behind p).ask host r =
      ((w.ask (host.after p.requests) r).1, (w.ask (host.after p.requests) r).2.behind p) := by
  simp only [ask, behind, Host.after, List.append_assoc]

namespace Action

variable {α β : Type} {p : Past}

/-- The end of an action, its world put behind a past. -/
def putBehind (p : Past) :
    EStateM.Result ScriptError World α → EStateM.Result ScriptError World α
  | .ok a w => .ok a (w.behind p)
  | .error e w => .error e (w.behind p)

/-- **Behind a past an action does what another does afresh.** -/
def Resumes (p : Past) (act fresh : Action α) : Prop :=
  ∀ w, act (w.behind p) = putBehind p (fresh w)

theorem resumes_pure (a : α) : Resumes p (pure a : Action α) (pure a) := fun _ => rfl

theorem resumes_throw (e : ScriptError) : Resumes p (throw e : Action α) (throw e) := fun _ => rfl

theorem Resumes.bind {act fresh : Action α} {next next' : α → Action β} (h : Resumes p act fresh)
    (hnext : ∀ a, Resumes p (next a) (next' a)) : Resumes p (act >>= next) (fresh >>= next') := by
  intro w
  show EStateM.bind act next (w.behind p) = putBehind p (EStateM.bind fresh next' w)
  rw [EStateM.bind, EStateM.bind, h w]
  cases fresh w with
  | ok a w1 => exact hnext a w1
  | error e w1 => rfl

theorem Resumes.thenPure {act fresh : Action α} (h : Resumes p act fresh) (b : β) :
    Resumes p (do let _ ← act; pure b) (do let _ ← fresh; pure b) :=
  h.bind fun _ => resumes_pure b

theorem Resumes.ite {c : Prop} [Decidable c] {act act' fresh fresh' : Action α}
    (h : Resumes p act fresh) (h' : Resumes p act' fresh') :
    Resumes p (if c then act else act') (if c then fresh else fresh') := by
  split
  · exact h
  · exact h'

theorem resumes_noteAll (notices : List Notice) : Resumes p (noteAll notices) (noteAll notices) :=
  fun w => congrArg (EStateM.Result.ok ()) (w.noteAll_behind p notices)

theorem resumes_note (notice : Notice) : Resumes p (note notice) (note notice) :=
  resumes_noteAll [notice]

theorem resumes_look (question : FileSystem → α) : Resumes p (look question) (look question) :=
  fun _ => rfl

theorem resumes_files (action : FileAction α) : Resumes p (files action) (files action) := by
  intro w
  have hfiles : (w.behind p).files = w.files := rfl
  rw [files, files, hfiles]
  cases action w.files with
  | ok a fs => rfl
  | error e fs => rfl

/-- What a host answers depends on the files, and on the requests that it remembers. -/
theorem resumes_request (host : Host) (r : Request) :
    Resumes p (request host r) (request (host.after p.requests) r) := by
  intro w
  rw [request, request, World.ask_behind]
  rfl

theorem resumes_configs (host : Host) (kind : ConfigKind) :
    Resumes p (configs host kind) (configs (host.after p.requests) kind) := by
  intro w
  rw [configs, configs, World.ask_behind, Host.after_after]
  rfl

end Action

/-! ## Commands -/

namespace Setting

open PackageScript.Action (Resumes resumes_pure resumes_throw resumes_note resumes_noteAll
  resumes_look resumes_files resumes_request resumes_configs)

variable (s : Setting) (p : Past)

theorem require_resumes (r : Request) (e : ScriptError) :
    Resumes p (s.require r e) ((s.after p.requests).require r e) :=
  (resumes_request s.host r).bind fun _ => .ite (resumes_pure _) (resumes_throw e)

theorem ask_resumes (r : Request) :
    Resumes p (do let _ ← Action.request s.host r)
      (do let _ ← Action.request (s.host.after p.requests) r) :=
  (resumes_request s.host r).thenPure ()

theorem expanded_resumes (pattern : HostPath) : Resumes p (expanded pattern) (expanded pattern) :=
  (resumes_look _).bind fun found => (resumes_noteAll found.2).bind fun _ => resumes_pure _

theorem copy_resumes (src dst : String) :
    Resumes p (s.copy src dst) ((s.after p.requests).copy src dst) := by
  refine .ite ?_ ?_
  · exact (expanded_resumes p _).bind fun _ => resumes_files _
  · exact (resumes_look _).bind fun _ => .ite (resumes_files _) (resumes_note _)

theorem delete_resumes (pattern : String) :
    Resumes p (s.delete pattern) ((s.after p.requests).delete pattern) :=
  .ite (resumes_throw _) ((expanded_resumes p _).bind fun _ => resumes_files _)

theorem move_resumes (src dst : String) :
    Resumes p (s.move src dst) ((s.after p.requests).move src dst) := by
  refine .ite (resumes_throw _) (.ite ?_ ?_)
  · exact (expanded_resumes p _).bind fun _ => resumes_files _
  · exact (resumes_look _).bind fun _ => .ite (resumes_files _) (resumes_throw _)

theorem mirrorCopy_resumes (src : String) (rest : List String) :
    Resumes p (s.mirrorCopy src rest) ((s.after p.requests).mirrorCopy src rest) :=
  (resumes_look _).bind fun found => (resumes_noteAll found.2).bind fun _ =>
    (resumes_files _).bind fun _ => resumes_note _

/-- What a deletion removes and what it refuses is told by the files. -/
theorem mirrorDeletion_resumes (source target : String) :
    Resumes p (s.mirrorDeletion source target)
      ((s.after p.requests).mirrorDeletion source target) := by
  intro w
  simp only [mirrorDeletion, after, World.behind]
  split
  · exact congrArg (EStateM.Result.ok _) (World.noteAll_behind p { w with files := _ } _)
  · exact congrArg (EStateM.Result.error _) (World.noteAll_behind p { w with files := _ } _)

theorem mirrorDelete_resumes (src : String) (rest : List String) :
    Resumes p (s.mirrorDelete src rest) ((s.after p.requests).mirrorDelete src rest) :=
  (resumes_look _).bind fun found => (resumes_noteAll found.2).bind fun _ =>
    (s.mirrorDeletion_resumes p _ _).bind fun _ => resumes_note _

theorem ofExcept_resumes {α : Type} (value : Except ScriptError α) :
    Resumes p (ofExcept value) (ofExcept value) := by
  cases value with
  | ok a => exact resumes_pure a
  | error e => exact resumes_throw e

theorem hexByCustomOffset_resumes (form : HexForm) (file pattern offset value : String) :
    Resumes p (s.hexByCustomOffset form file pattern offset value)
      ((s.after p.requests).hexByCustomOffset form file pattern offset value) :=
  (ofExcept_resumes p _).bind fun _ => s.require_resumes p _ _

theorem hexReplace_resumes (form : HexForm) (file find replace : String) (rest : List String) :
    Resumes p (s.hexReplace form file find replace rest)
      ((s.after p.requests).hexReplace form file find replace rest) :=
  (ofExcept_resumes p _).bind fun _ => (ofExcept_resumes p _).bind fun _ =>
    (ofExcept_resumes p _).bind fun _ => s.require_resumes p _ _

theorem download_resumes (url dst : String) :
    Resumes p (s.download url dst) ((s.after p.requests).download url dst) :=
  (resumes_request _ _).bind fun _ =>
    .ite (resumes_pure _) ((resumes_note _).thenPure _)

theorem unzip_resumes (archive dst : String) :
    Resumes p (s.unzip archive dst) ((s.after p.requests).unzip archive dst) :=
  (resumes_request _ _).bind fun _ =>
    .ite (resumes_pure _) ((resumes_note _).thenPure _)

theorem rebootToListed_resumes (kind : ConfigKind) (wanted : String) :
    Resumes p (s.rebootToListed kind wanted)
      ((s.after p.requests).rebootToListed kind wanted) := by
  refine (resumes_configs s.host kind).bind fun configs => ?_
  cases wantedConfig configs wanted with
  | some config => exact s.ask_resumes p _
  | none => exact resumes_note _

theorem rebootToPayload_resumes (payload : String) :
    Resumes p (s.rebootToPayload payload) ((s.after p.requests).rebootToPayload payload) := by
  refine (resumes_look _).bind fun _ =>
    .ite (resumes_note _) (.ite (s.ask_resumes p _) ?_)
  refine (resumes_request _ _).bind fun _ => .ite ?_ ?_
  · exact (resumes_note _).bind fun _ => s.rebootToListed_resumes p _ _
  · exact s.rebootToListed_resumes p _ _

theorem rebootTarget_resumes (args : List String) :
    Resumes p (s.rebootTarget args) ((s.after p.requests).rebootTarget args) := by
  unfold rebootTarget
  split
  · exact s.ask_resumes p _
  · split
    · split
      · exact s.rebootToListed_resumes p _ _
      · exact resumes_pure _
    · split
      · exact s.rebootToListed_resumes p _ _
      · exact resumes_pure _
    · exact s.ask_resumes p _
    · exact s.ask_resumes p _
    · exact s.ask_resumes p _
    · exact s.rebootToPayload_resumes p _

theorem reboot_resumes (args : List String) :
    Resumes p (s.reboot args) ((s.after p.requests).reboot args) := by
  refine .ite ?_ ?_
  · exact (s.rebootTarget_resumes p args).bind fun _ => s.ask_resumes p _
  · exact s.ask_resumes p _

theorem clear_resumes (what : String) :
    Resumes p (s.clear what) ((s.after p.requests).clear what) :=
  .ite (resumes_files _) (resumes_pure _)

/-- **No command looks back.** -/
theorem run_resumes (op : Op) (args : List String) :
    Resumes p (s.run op args) ((s.after p.requests).run op args) := by
  unfold run
  split
  · exact (resumes_files _).thenPure _
  · exact (s.copy_resumes p _ _).thenPure _
  · exact (s.delete_resumes p _).thenPure _
  · exact (s.move_resumes p _ _).thenPure _
  · exact (s.mirrorCopy_resumes p _ _).thenPure _
  · exact (s.mirrorDelete_resumes p _ _).thenPure _
  · exact (s.require_resumes p _ _).thenPure _
  · exact (s.require_resumes p _ _).thenPure _
  · exact (s.require_resumes p _ _).thenPure _
  · exact (s.require_resumes p _ _).thenPure _
  · exact (s.require_resumes p _ _).thenPure _
  · exact (s.require_resumes p _ _).thenPure _
  · exact (s.require_resumes p _ _).thenPure _
  · exact (s.hexByCustomOffset_resumes p _ _ _ _ _).thenPure _
  · exact (s.hexByCustomOffset_resumes p _ _ _ _ _).thenPure _
  · exact (s.hexByCustomOffset_resumes p _ _ _ _ _).thenPure _
  · exact (s.hexReplace_resumes p _ _ _ _ _).thenPure _
  · exact (s.hexReplace_resumes p _ _ _ _ _).thenPure _
  · exact (s.hexReplace_resumes p _ _ _ _ _).thenPure _
  · exact (s.hexReplace_resumes p _ _ _ _ _).thenPure _
  · exact s.download_resumes p _ _
  · exact s.unzip_resumes p _ _
  · exact (s.reboot_resumes p _).thenPure _
  · exact (s.ask_resumes p _).thenPure _
  · exact (s.ask_resumes p _).thenPure _
  · exact (s.clear_resumes p _).thenPure _
  · exact resumes_pure _

end Setting

end PackageScript
