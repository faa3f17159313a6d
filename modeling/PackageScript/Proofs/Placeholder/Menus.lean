import PackageScript.Placeholder.Menu
import PackageScript.Proofs.Placeholder.Templates

set_option autoImplicit false

/-! # What a menu declares

A block of a menu declares sources, each by the first command for it. The menu reads the value off
the token as it is written (`get_foldl_declare`), and only then fills the command in. What the
filled block declares can therefore be something else: the token may have been filled in, and so
may the name of a command in front of it. If no name and no declared token holds the brace that
opens a placeholder, the filled block declares the same tokens (`Context.firstToken?_menuBlock`).
-/

namespace PackageScript

/-! ## Texts without braces -/

theorem Text.replaceFrom_of_not_mem {a : Char} (as new : List Char) {s : List Char} (h : a ∉ s) :
    Text.replaceFrom (a :: as) new 0 s = s := by
  induction s with
  | nil => rfl
  | cons c cs ih =>
      obtain ⟨hc, hcs⟩ := List.ne_and_not_mem_of_not_mem_cons h
      rw [Text.replaceFrom, Text.dropStart?_cons_of_ne hc, ih hcs]
      rfl

namespace Placeholder

/-! ## Declarations -/

/-- The source that a name declares in a menu. -/
def declaredSource? : String → Option Source
  | "list_source" => some .list
  | "json_source" => some .json
  | "json_file_source" => some .jsonFile
  | _ => none

/-- The source that a command of a menu declares, with the token for its value. -/
def declared? : Command → Option (Source × String)
  | name :: token :: _ => (declaredSource? name).map fun s => (s, token)
  | _ => none

/-- The value that a menu takes from a token. -/
def menuValue : Source → String → String
  | .json, token => token
  | _, token => Text.unquote token

/-- The token of the first command that declares a source. -/
def firstToken? (source : Source) (block : Block) : Option String :=
  block.findSome? fun c => (declared? c).bind fun d => if d.1 = source then some d.2 else none

/-- The commands of a block that declare something. -/
def declarations (block : Block) : Block := block.filter fun c => (declared? c).isSome

theorem declaredSource?_cases {name : String} {source : Source}
    (h : declaredSource? name = some source) :
    (name = "list_source" ∧ source = .list) ∨ (name = "json_source" ∧ source = .json)
      ∨ (name = "json_file_source" ∧ source = .jsonFile) := by
  unfold declaredSource? at h
  split at h <;> cases h <;> simp

theorem declared?_eq_some {c : Command} {source : Source} {token : String}
    (h : declared? c = some (source, token)) :
    ∃ name rest, c = name :: token :: rest ∧ declaredSource? name = some source := by
  unfold declared? at h
  split at h
  · next name first rest =>
      obtain ⟨s, hs, heq⟩ := Option.map_eq_some_iff.1 h
      obtain ⟨rfl, rfl⟩ := Prod.mk.inj heq
      exact ⟨name, rest, rfl, hs⟩
  · cases h

theorem declaration?_eq (c : Command) :
    declaration? c = (declared? c).map fun d => (d.1, menuValue d.1 d.2) := by
  unfold declaration?
  split
  · rfl
  · rfl
  · rfl
  · next hlist hjson hfile =>
      cases hc : declared? c with
      | none => rfl
      | some d =>
          obtain ⟨name, rest, rfl, hname⟩ := declared?_eq_some hc
          rcases declaredSource?_cases hname with ⟨rfl, -⟩ | ⟨rfl, -⟩ | ⟨rfl, -⟩
          · exact absurd rfl (hlist d.2 rest)
          · exact absurd rfl (hjson d.2 rest)
          · exact absurd rfl (hfile d.2 rest)

variable {source : Source} {token : String}

theorem firstToken?_cons (c : Command) (rest : Block) :
    firstToken? source (c :: rest)
      = ((declared? c).bind fun d => if d.1 = source then some d.2 else none).or
          (firstToken? source rest) := by
  rw [firstToken?, List.findSome?_cons]
  cases (declared? c).bind fun d => if d.1 = source then some d.2 else none <;> rfl

theorem firstToken?_cons_of_declared {c : Command} (h : declared? c = some (source, token))
    (rest : Block) : firstToken? source (c :: rest) = some token := by
  rw [firstToken?_cons, h, Option.bind_some, if_pos rfl]
  rfl

theorem firstToken?_cons_of_other {c : Command}
    (h : ∀ token, declared? c ≠ some (source, token)) (rest : Block) :
    firstToken? source (c :: rest) = firstToken? source rest := by
  rw [firstToken?_cons]
  cases hc : declared? c with
  | none => rfl
  | some d =>
      have hne : ¬ d.1 = source := by
        rintro rfl
        exact h d.2 hc
      rw [Option.bind_some, if_neg hne, Option.none_or]

theorem exists_of_firstToken? {block : Block} (h : firstToken? source block = some token) :
    ∃ c ∈ block, declared? c = some (source, token) := by
  obtain ⟨c, hc, hd⟩ := List.exists_of_findSome?_eq_some h
  obtain ⟨⟨s, t⟩, hdeclared, hif⟩ := Option.bind_eq_some_iff.1 hd
  refine ⟨c, hc, ?_⟩
  by_cases hs : s = source
  · rw [if_pos hs] at hif
    cases hif
    rw [hdeclared, hs]
  · rw [if_neg hs] at hif
    cases hif

theorem firstToken?_append_of_declared {front : Block} (h : firstToken? source front = some token)
    (back : Block) : firstToken? source (front ++ back) = some token := by
  rw [firstToken?] at h
  rw [firstToken?, List.findSome?_append, h]
  rfl

/-- What declares nothing does not count. -/
theorem firstToken?_declarations (block : Block) :
    firstToken? source (declarations block) = firstToken? source block := by
  induction block with
  | nil => rfl
  | cons c rest ih =>
      rw [declarations, List.filter_cons]
      by_cases hc : (declared? c).isSome = true
      · rw [if_pos hc, firstToken?_cons, firstToken?_cons, ← ih]
        rfl
      · rw [if_neg hc, firstToken?_cons_of_other, ← ih]
        · rfl
        · intro token htoken
          rw [htoken] at hc
          exact hc rfl

/-- **A menu binds a source to what its first declaration says**, unless it is bound already. -/
theorem get_foldl_declare (block : Block) (b : Bindings) :
    (block.foldl declare b).get source
      = (b.get source).or ((firstToken? source block).map (menuValue source)) := by
  induction block generalizing b with
  | nil => exact Option.or_none.symm
  | cons c rest ih =>
      rw [List.foldl_cons, ih, declare, declaration?_eq, firstToken?_cons]
      cases declared? c with
      | none => rfl
      | some d =>
          obtain ⟨s, token⟩ := d
          dsimp only [Option.map_some, Option.bind_some]
          rw [Bindings.get_bind]
          by_cases hs : s = source
          · subst hs
            cases b.get s <;> simp
          · rw [if_neg fun h => hs h.1.symm, if_neg hs, Option.none_or]

/-! ## Filling a block in -/

/-- A change of the tokens that leaves the name of a command alone changes what it declares
likewise. -/
theorem declared?_map {f : String → String} {c : Command}
    (hname : ∀ name ∈ c.head?, f name = name) :
    declared? (c.map f) = (declared? c).map fun d => (d.1, f d.2) := by
  match c with
  | [] => rfl
  | [name] => rfl
  | name :: token :: rest =>
      rw [List.map_cons, List.map_cons, hname name rfl, declared?, declared?, Option.map_map]
      rfl

theorem not_mem_of_declaredSource? {name : String} (h : declaredSource? name = some source) :
    '\x7b' ∉ name.toList := by
  rcases declaredSource?_cases h with ⟨rfl, -⟩ | ⟨rfl, -⟩ | ⟨rfl, -⟩ <;> decide

theorem MenuEntry.fill_of_not_mem (e : MenuEntry) {text : String} (h : '\x7b' ∉ text.toList) :
    e.fill text = text := by
  have hkeep : ∀ (as : List Char) (new : String),
      Text.replaceAll (String.ofList ('\x7b' :: as)) new text = text := by
    intro as new
    rw [Text.replaceAll, String.toList_ofList, Text.replaceFrom_of_not_mem as _ h,
      String.ofList_toList]
  have hsource := hkeep "file_source\x7d".toList e.path
  have hname := hkeep "file_name\x7d".toList (ScriptPath.fileName e.path)
  have hfolder := hkeep "folder_name\x7d".toList (ScriptPath.folderName e.path)
  rw [fill]
  exact (congrArg _ ((congrArg _ hsource).trans hname)).trans hfolder

theorem menuOpening_eq (s : Source) : ∃ word, (menuOpening s).toList = '\x7b' :: word := by
  cases s <;> exact ⟨_, rfl⟩

namespace Context

variable (c : Context)

theorem menuSource_of_not_mem (e : MenuEntry) (b : Bindings) {text : String × List Notice}
    (h : '\x7b' ∉ text.1.toList) (s : Source) : (c.menuSource e b text s).1 = text.1 := by
  rw [menuSource]
  cases b.get s with
  | none => rfl
  | some bound =>
      have hcut : Text.cutAt? (menuOpening s).toList text.1.toList = none := by
        obtain ⟨word, hword⟩ := menuOpening_eq s
        have hpass := Text.cutAt?_append_of_not_mem word h []
        rw [List.append_nil] at hpass
        rw [hword, hpass]
        rfl
      dsimp only
      rw [Splice.run, Splice.loop_text_of_cutAt? hcut, String.ofList_toList]

theorem menuToken_of_not_mem (e : MenuEntry) (b : Bindings) {token : String}
    (h : '\x7b' ∉ token.toList) : (c.menuToken e b token).1 = token := by
  have hsources : ∀ (sources : List Source) (text : String × List Notice),
      '\x7b' ∉ text.1.toList → (sources.foldl (c.menuSource e b) text).1 = text.1 := by
    intro sources
    induction sources with
    | nil => exact fun _ _ => rfl
    | cons s rest ih =>
        intro text htext
        have hstep := c.menuSource_of_not_mem e b htext s
        rw [List.foldl_cons, ih _ (hstep ▸ htext), hstep]
  have hfill := e.fill_of_not_mem h
  rw [menuToken, hsources menuSources (e.fill token, []) (hfill.symm ▸ h)]
  exact hfill

theorem menuBlock_cons (e : MenuEntry) (b : Bindings) (command : Command) (rest : Block) :
    (c.menuBlock e b (command :: rest)).1
      = (command.map fun token => (c.menuToken e (declare b command) token).1)
        :: (c.menuBlock e (declare b command) rest).1 := by
  rw [menuBlock]
  dsimp only
  rw [List.map_map]
  rfl

theorem menuBlock_append (e : MenuEntry) (b : Bindings) (front back : Block) :
    (c.menuBlock e b (front ++ back)).1
      = (c.menuBlock e b front).1 ++ (c.menuBlock e (front.foldl declare b) back).1 := by
  induction front generalizing b with
  | nil => rfl
  | cons command rest ih =>
      rw [List.cons_append, menuBlock_cons, menuBlock_cons, ih]
      rfl

theorem not_contains_of_not_mem {text : String} (h : '\x7b' ∉ text.toList) (s : Source) :
    Text.contains text s.opening = false := by
  obtain ⟨word, hword, -⟩ := opening_eq s
  have hpass := Text.cutAt?_append_of_not_mem word h []
  rw [List.append_nil] at hpass
  rw [Text.contains, Text.occursIn, hword, hpass]
  rfl

theorem resolve_of_not_contains (b : Bindings) {text : String}
    (h : ∀ s : Source, Text.contains text s.opening = false) : (c.resolve b text).text = text := by
  have hsources : ∀ (sources : List Source) (r : Resolution), r.text = text →
      (sources.foldl (c.resolveNext b) r).text = text := by
    intro sources
    induction sources with
    | nil => exact fun _ hr => hr
    | cons s rest ih =>
        intro r hr
        rw [List.foldl_cons]
        refine ih _ ?_
        rw [resolveNext]
        dsimp only
        rw [hr, resolveSource, h s, if_neg (by simp)]
  exact hsources _ _ rfl

theorem declared?_filled (e : MenuEntry) (b : Bindings) {command : Command}
    (h : declared? command = some (source, token)) :
    declared? (command.map fun token => (c.menuToken e b token).1)
      = some (source, (c.menuToken e b token).1) := by
  rw [declared?_map, h]
  · rfl
  · obtain ⟨name, rest, rfl, hname⟩ := declared?_eq_some h
    intro head hhead
    rw [List.head?_cons, Option.mem_some_iff] at hhead
    rw [← hhead]
    exact c.menuToken_of_not_mem e b (not_mem_of_declaredSource? hname)

/-- **A block declares a source when it is filled in, if it did before.** -/
theorem firstToken?_menuBlock_isSome (e : MenuEntry) (b : Bindings) {block : Block}
    (h : (firstToken? source block).isSome = true) :
    (firstToken? source (c.menuBlock e b block).1).isSome = true := by
  induction block generalizing b with
  | nil => cases h
  | cons command rest ih =>
      rw [menuBlock_cons]
      by_cases hdeclared : ∃ token, declared? command = some (source, token)
      · obtain ⟨token, htoken⟩ := hdeclared
        rw [firstToken?_cons_of_declared (c.declared?_filled e _ htoken)]
        rfl
      · rw [firstToken?_cons_of_other fun token htoken => hdeclared ⟨token, htoken⟩] at h
        rw [firstToken?_cons, Option.isSome_or, ih _ h, Bool.or_true]

/-- **A block whose names and declared tokens hold no braces declares the same when it is filled
in.** -/
theorem firstToken?_menuBlock (e : MenuEntry) (b : Bindings) {block : Block}
    (hnames : ∀ command ∈ block, ∀ name ∈ command.head?, '\x7b' ∉ name.toList)
    (htokens : ∀ command ∈ block, ∀ d, declared? command = some d → '\x7b' ∉ d.2.toList) :
    firstToken? source (c.menuBlock e b block).1 = firstToken? source block := by
  induction block generalizing b with
  | nil => rfl
  | cons command rest ih =>
      have hsame : declared? (command.map fun token => (c.menuToken e (declare b command) token).1)
          = declared? command := by
        rw [declared?_map fun name hname => c.menuToken_of_not_mem e _
          (hnames command List.mem_cons_self name hname)]
        cases hd : declared? command with
        | none => rfl
        | some d =>
            rw [Option.map_some, c.menuToken_of_not_mem e _
              (htokens command List.mem_cons_self d hd)]
      rw [menuBlock_cons, firstToken?_cons, firstToken?_cons, hsame,
        ih _ (fun c hc => hnames c (List.mem_cons_of_mem _ hc))
          fun c hc => htokens c (List.mem_cons_of_mem _ hc)]

end Context

end Placeholder

end PackageScript
