import PackageScript.Proofs.Engine.Bindings
import PackageScript.Proofs.Path.Volumes
import PackageScript.Proofs.Placeholder.Menus

set_option autoImplicit false

/-! # A menu and the run of its commands

A menu looks placeholders up in the sources that its block declares, and when the filled block
runs, the engine binds the same sources again. The menu takes the value from the token as it is
written, and the engine from the token as it was filled in, and a path through `scriptPath`. They
agree exactly if these two values come to the same (`Engine.menu_agrees_iff`). A rooted path does
not: the menu takes it for a path of the host, and the engine places it on the card.
-/

namespace PackageScript

open Placeholder (MenuEntry declare declared? declarations declaredSource? firstToken? menuValue)

/-- **Two values of a source come to the same**: they are one text, or lead to one file. -/
def Config.SameSource (config : Config) : Source → String → String → Prop
  | .jsonFile, a, b => (config.hostPath a).same (config.hostPath b) = true
  | _, a, b => a = b

theorem Config.SameSource.of_eq (config : Config) (source : Source) {a b : String} (h : a = b) :
    config.SameSource source a b := by
  subst h
  cases source
  case jsonFile => exact beq_self_eq_true _
  all_goals rfl

namespace Engine

variable (e : Engine)

/-! ## Running the declarations -/

theorem sourceOf?_of_declaredSource? {name : String} {source : Source}
    (h : declaredSource? name = some source) : Op.sourceOf? name = some source := by
  rcases Placeholder.declaredSource?_cases h with ⟨rfl, rfl⟩ | ⟨rfl, rfl⟩ | ⟨rfl, rfl⟩ <;>
    decide +kernel

theorem verdict_of_declared {m : Machine} (strict : Bool) {c : Command} {source : Source}
    {token : String} (h : declared? c = some (source, token)) (hretry : m.state.retryCount = 0)
    (hsection : m.state.inSection = false) : m.verdict strict c = .run := by
  obtain ⟨name, rest, rfl, hname⟩ := Placeholder.declared?_eq_some h
  have hmarker : name ≠ retryMarker ∧ Platform.ofMarker? name = none := by
    rcases Placeholder.declaredSource?_cases hname with ⟨rfl, -⟩ | ⟨rfl, -⟩ | ⟨rfl, -⟩ <;>
      decide +kernel
  rw [Machine.verdict, if_neg hmarker.1, hmarker.2]
  simp [State.permits, hretry, hsection]

/-- **What the declarations of a block leave a source bound to**: what their first token says. -/
theorem runBlock_declarations_get (call : Block → Machine → Machine) {source : Source}
    {block : Block} (hall : ∀ c ∈ block, (declared? c).isSome = true) {m : Machine}
    (hretry : m.state.retryCount = 0) (hsection : m.state.inSection = false)
    (hplain : ∀ token, firstToken? source block = some token →
      ∀ s : Source, Text.contains token s.opening = false) :
    (e.runBlock call block m).state.bindings.get source
      = (m.state.bindings.get source).or ((firstToken? source block).map (boundValue source)) := by
  induction block generalizing m with
  | nil => exact Option.or_none.symm
  | cons c rest ih =>
      obtain ⟨⟨s, token⟩, hc⟩ := Option.isSome_iff_exists.1 (hall c List.mem_cons_self)
      have hrest : ∀ c ∈ rest, (declared? c).isSome = true := fun c' hc' =>
        hall c' (List.mem_cons_of_mem _ hc')
      have hrun := verdict_of_declared e.config.strictSections hc hretry hsection
      have hframe := e.execute_frame call c m
      obtain ⟨name, args, rfl, hname⟩ := Placeholder.declared?_eq_some hc
      rw [runBlock, hrun]
      dsimp only
      by_cases hs : s = source
      · -- the source is bound here, and nothing that comes later counts
        subst hs
        have hfirst := Placeholder.firstToken?_cons_of_declared hc rest
        rw [runBlock_get, execute_get, hfirst, recorded?_cons,
          if_pos (sourceOf?_of_declaredSource? hname), (e.context m).resolve_of_not_contains _ (hplain token hfirst)]
        cases m.state.bindings.get s <;> rfl
      · have hother : ∀ token', declared? (name :: token :: args) ≠ some (source, token') := by
          intro token' htoken'
          rw [hc] at htoken'
          cases htoken'
          exact hs rfl
        have hfirst := Placeholder.firstToken?_cons_of_other hother rest
        rw [hfirst] at hplain ⊢
        rw [ih hrest ?_ ?_ hplain, execute_get, recorded?_cons, if_neg, Option.or_none]
        · rw [sourceOf?_of_declaredSource? hname, Option.some.injEq]
          exact hs
        · rw [State.retryCount_eq_of_frame hframe, hretry]
        · have hinSection : (e.execute call (name :: token :: args) m).state.frame.inSection
              = m.state.frame.inSection := by rw [hframe]
          exact hinSection.trans hsection

theorem interpret_declarations_get {m : Machine} {dir option : String}
    (hfresh : m.state = .start dir option) {source : Source} {block : Block}
    (hplain : ∀ token, firstToken? source block = some token →
      ∀ s : Source, Text.contains token s.opening = false) :
    (e.interpret (declarations block) m).state.bindings.get source
      = (firstToken? source block).map (boundValue source) := by
  have hnone : (m.setSuccess true).state.bindings.get source = none := by
    rw [Machine.setSuccess, hfresh]
    exact Bindings.get_empty source
  rw [interpret_eq, e.runBlock_declarations_get, hnone, Option.none_or,
    Placeholder.firstToken?_declarations]
  · exact fun c hc => (List.mem_filter.1 hc).2
  · rw [Machine.setSuccess, hfresh]
    rfl
  · rw [Machine.setSuccess, hfresh]
    rfl
  · rw [Placeholder.firstToken?_declarations]
    exact hplain

/-! ## Menu and run -/

/-- A block of a menu, filled in for an entry with the files as they are then. -/
def filledMenu (fs : FileSystem) (entry : MenuEntry) (block : Block) : Block :=
  ((Placeholder.Context.mk e.config e.host fs).expandMenu entry block).1

/-- **A menu and its run agree on a source.** The commands behind `front` are filled in with the
value that `front` declares (`Placeholder.Context.menuBlock_append`). When all declarations of the
filled block are executed, the source is bound to the same. -/
def MenuAgrees (m : Machine) (fs : FileSystem) (entry : MenuEntry) (front back : Block)
    (source : Source) : Prop :=
  ∀ value, (front.foldl declare .empty).get source = some value →
    ∃ bound, (e.interpret (declarations (e.filledMenu fs entry (front ++ back)))
        m).state.bindings.get source = some bound
      ∧ e.config.SameSource source value bound

variable {e} {m : Machine} {dir option : String} {fs : FileSystem} {entry : MenuEntry}
  {front back : Block} {source : Source} {token : String}

theorem exists_filled_token (hdeclared : firstToken? source front = some token) :
    ∃ token', firstToken? source (e.filledMenu fs entry (front ++ back)) = some token' := by
  have hblock : (firstToken? source (front ++ back)).isSome = true := by
    rw [Placeholder.firstToken?_append_of_declared hdeclared]
    rfl
  exact Option.isSome_iff_exists.1
    (Placeholder.Context.firstToken?_menuBlock_isSome _ entry .empty hblock)

theorem value_of_declared (hdeclared : firstToken? source front = some token) :
    (front.foldl declare .empty).get source = some (menuValue source token) := by
  rw [Placeholder.get_foldl_declare, Bindings.get_empty, hdeclared]
  rfl

/-- **A menu and its run agree on a source exactly if the token of the filled block says to the
engine what the token as written says to the menu.** -/
theorem menu_agrees_iff (hfresh : m.state = .start dir option)
    (hdeclared : firstToken? source front = some token)
    (hplain : ∀ token', firstToken? source (e.filledMenu fs entry (front ++ back)) = some token' →
      ∀ s : Source, Text.contains token' s.opening = false) :
    e.MenuAgrees m fs entry front back source
      ↔ ∃ token', firstToken? source (e.filledMenu fs entry (front ++ back)) = some token'
        ∧ e.config.SameSource source (menuValue source token) (boundValue source token') := by
  have hrun := e.interpret_declarations_get hfresh hplain
  obtain ⟨token', htoken'⟩ := exists_filled_token hdeclared
  rw [MenuAgrees, hrun, value_of_declared hdeclared, htoken']
  constructor
  · intro hagrees
    obtain ⟨bound, hbound, hsame⟩ := hagrees _ rfl
    cases hbound
    exact ⟨token', rfl, hsame⟩
  · rintro ⟨_, htoken, hsame⟩ value hvalue
    cases htoken
    cases hvalue
    exact ⟨_, rfl, hsame⟩

/-- **A menu whose names and declared tokens hold no brace agrees with its run** on a list and on
a text, and on a file whose path is not rooted and repeats no slash. -/
theorem menu_agrees_of_literal (hfresh : m.state = .start dir option)
    (hdeclared : firstToken? source front = some token)
    (hnames : ∀ c ∈ front ++ back, ∀ name ∈ c.head?, '\x7b' ∉ name.toList)
    (htokens : ∀ c ∈ front ++ back, ∀ d, declared? c = some d → '\x7b' ∉ d.2.toList)
    (hpath : source = .jsonFile → (Text.unquote token).toList.head? ≠ some '/'
      ∧ ¬ ['/', '/'] <:+: (Text.unquote token).toList) :
    e.MenuAgrees m fs entry front back source := by
  have hfirst := Placeholder.firstToken?_append_of_declared hdeclared back
  have hfilled : firstToken? source (e.filledMenu fs entry (front ++ back)) = some token := by
    rw [filledMenu, Placeholder.Context.expandMenu,
      Placeholder.Context.firstToken?_menuBlock _ entry .empty hnames htokens, hfirst]
  obtain ⟨c, hc, hd⟩ := Placeholder.exists_of_firstToken? hfirst
  have hrun : (e.interpret (declarations (e.filledMenu fs entry (front ++ back)))
      m).state.bindings.get source = some (boundValue source token) := by
    rw [e.interpret_declarations_get hfresh, hfilled]
    · rfl
    · intro token' htoken'
      rw [hfilled] at htoken'
      cases htoken'
      exact Placeholder.Context.not_contains_of_not_mem (htokens c hc _ hd)
  have hvalues : menuValue source token = boundValue source token := by
    obtain ⟨name, rest, -, hname⟩ := Placeholder.declared?_eq_some hd
    rcases Placeholder.declaredSource?_cases hname with ⟨-, rfl⟩ | ⟨-, rfl⟩ | ⟨-, rfl⟩
    · rfl
    · rfl
    · obtain ⟨hhead, hdouble⟩ := hpath rfl
      exact (scriptPath_eq_unquote hhead hdouble).symm
  intro value hvalue
  rw [value_of_declared hdeclared] at hvalue
  cases hvalue
  exact ⟨_, hrun, .of_eq _ _ hvalues⟩

def onCard : Engine := ⟨.withRoot ⟨"sd"⟩, .detached .erista, false⟩

def atStart : Machine := ⟨.ofFiles (.empty []), .fresh, .start "" "Apply"⟩

def themeNames : Block := [["list_source", "(light, dark)"]]

def themeCopy : Block :=
  [["copy", "\x7bfile_source\x7d", "sdmc:/config/\x7blist_source(*)\x7d.ini"]]

def darkTheme : MenuEntry := ⟨"sdmc:/themes/dark/theme.ini", 1⟩

/-- Of a menu of two themes the theorem says that its list is the one of the run. -/
theorem themes_agree :
    atStart.state = .start "" "Apply"
      ∧ firstToken? .list themeNames = some "(light, dark)"
      ∧ (∀ token', firstToken? .list (onCard.filledMenu (.empty []) darkTheme
          (themeNames ++ themeCopy)) = some token' →
          ∀ s : Source, Text.contains token' s.opening = false)
      ∧ (onCard.MenuAgrees atStart (.empty []) darkTheme themeNames themeCopy .list
        ↔ ∃ token', firstToken? .list (onCard.filledMenu (.empty []) darkTheme
              (themeNames ++ themeCopy)) = some token'
            ∧ onCard.config.SameSource .list (menuValue .list "(light, dark)")
                (boundValue .list token')) := by
  have hplain : ∀ token', firstToken? .list (onCard.filledMenu (.empty []) darkTheme
      (themeNames ++ themeCopy)) = some token' →
      ∀ s : Source, Text.contains token' s.opening = false := by
    have hfilled : firstToken? .list (onCard.filledMenu (.empty []) darkTheme
        (themeNames ++ themeCopy)) = some "(light, dark)" := by decide +kernel
    intro token' htoken'
    rw [hfilled] at htoken'
    cases htoken'
    exact Placeholder.Context.not_contains_of_not_mem (by decide)
  exact ⟨rfl, rfl, hplain, menu_agrees_iff rfl rfl hplain⟩

/-- **A menu reads its JSON file elsewhere than its run** if the path is rooted. -/
theorem menu_rooted_path_disagrees :
    ¬ ∀ (e : Engine) (m : Machine) (dir option : String) (fs : FileSystem) (entry : MenuEntry)
      (front back : Block) (source : Source), m.state = .start dir option →
      (∀ token', firstToken? source (e.filledMenu fs entry (front ++ back)) = some token' →
        ∀ s : Source, Text.contains token' s.opening = false) →
      e.MenuAgrees m fs entry front back source := by
  intro hall
  have hfilled : firstToken? .jsonFile (onCard.filledMenu (.empty []) ⟨"n", 0⟩
      ([["json_file_source", "/data.json"]] ++ [["make", "sdmc:/\x7bjson_file_source(n)\x7d"]]))
      = some "/data.json" := by decide +kernel
  have hplain : ∀ token', firstToken? .jsonFile (onCard.filledMenu (.empty []) ⟨"n", 0⟩
      ([["json_file_source", "/data.json"]] ++ [["make", "sdmc:/\x7bjson_file_source(n)\x7d"]]))
      = some token' → ∀ s : Source, Text.contains token' s.opening = false := by
    intro token' htoken'
    rw [hfilled] at htoken'
    cases htoken'
    exact Placeholder.Context.not_contains_of_not_mem (by decide)
  obtain ⟨bound, hbound, hsame⟩ := hall onCard atStart "" "Apply" (.empty []) ⟨"n", 0⟩
    [["json_file_source", "/data.json"]] [["make", "sdmc:/\x7bjson_file_source(n)\x7d"]] .jsonFile
    rfl hplain "/data.json" (by decide +kernel)
  rw [onCard.interpret_declarations_get rfl hplain, hfilled] at hbound
  cases hbound
  have hother : (onCard.config.hostPath "/data.json").same
      (onCard.config.hostPath (boundValue .jsonFile "/data.json")) = false := by decide +kernel
  exact absurd hsame (by rw [Config.SameSource, hother]; simp)

end Engine

end PackageScript
