import PackageScript.Proofs.Path.Names
import PackageScript.Volume

set_option autoImplicit false

/-! # Script paths and the host paths behind them

An argument becomes a script path, and a script path becomes a host path. A script path never
begins with a slash and never has two of them in a row (`head?_scriptPath`,
`scriptPath_no_double_slash`). The host path of a path on a volume has the names of the volume's
root and then those behind the mark (`Volume.steps_locate`), and starts where the root starts.
-/

namespace PackageScript

/-! ## Script paths -/

theorem head?_collapseSlashes_true (s : List Char) :
    (collapseSlashes true s).head? ≠ some '/' := by
  induction s with
  | nil => simp [collapseSlashes]
  | cons c cs ih =>
      by_cases hc : c = '/'
      · rw [collapseSlashes, if_pos hc, if_pos rfl]
        exact ih
      · rw [collapseSlashes, if_neg hc]
        simpa using hc

theorem head?_collapseSlashes_false (s : List Char) :
    (collapseSlashes false s).head? = s.head? := by
  cases s with
  | nil => rfl
  | cons c cs =>
      by_cases hc : c = '/'
      · rw [collapseSlashes, if_pos hc, if_neg Bool.false_ne_true, List.head?_cons, List.head?_cons,
          hc]
      · rw [collapseSlashes, if_neg hc, List.head?_cons, List.head?_cons]

/-- Runs of slashes are one slash long afterwards. -/
theorem collapseSlashes_no_double_slash (afterSlash : Bool) (s : List Char) :
    ¬ ['/', '/'] <:+: collapseSlashes afterSlash s := by
  induction s generalizing afterSlash with
  | nil => simp [collapseSlashes]
  | cons c cs ih =>
      have hcons : ∀ b, (c = '/' → b = true) → ¬ ['/', '/'] <:+: c :: collapseSlashes b cs := by
        intro b hb hin
        rcases List.infix_cons_iff.1 hin with hpre | hin
        · obtain ⟨rfl, ⟨t, ht⟩⟩ := List.cons_prefix_cons.1 hpre
          rw [hb rfl] at ht
          exact head?_collapseSlashes_true cs (by rw [← ht]; rfl)
        · exact ih b hin
      by_cases hc : c = '/'
      · rw [collapseSlashes, if_pos hc]
        cases afterSlash with
        | true => exact ih true
        | false => exact hc ▸ hcons true fun _ => rfl
      · rw [collapseSlashes, if_neg hc]
        exact hcons false fun he => absurd he hc

/-- Without runs of slashes nothing is left out. -/
theorem collapseSlashes_of_no_double_slash {afterSlash : Bool} {s : List Char}
    (hdouble : ¬ ['/', '/'] <:+: s) (hhead : afterSlash = true → s.head? ≠ some '/') :
    collapseSlashes afterSlash s = s := by
  induction s generalizing afterSlash with
  | nil => rfl
  | cons c cs ih =>
      have hrest : ¬ ['/', '/'] <:+: cs := fun hin => hdouble (List.infix_cons hin)
      by_cases hc : c = '/'
      · have hafter : ¬ afterSlash = true := fun h => hhead h (by rw [hc]; rfl)
        rw [collapseSlashes, if_pos hc, if_neg hafter, ih hrest, hc]
        intro _ hslash
        obtain ⟨t, ht⟩ := List.head?_eq_some_iff.1 hslash
        exact hdouble ⟨[], t, by rw [hc, ht]; rfl⟩
      · rw [collapseSlashes, if_neg hc, ih hrest fun h => by cases h]

theorem scriptPath_eq_unquote {raw : String} (hhead : (Text.unquote raw).toList.head? ≠ some '/')
    (hdouble : ¬ ['/', '/'] <:+: (Text.unquote raw).toList) :
    scriptPath raw = Text.unquote raw := by
  rw [Text.unquote, String.toList_ofList] at hhead hdouble
  have hplace : placeOnCard (Text.unquoted raw.toList) = Text.unquoted raw.toList := by
    unfold placeOnCard
    split
    · next rest hrest => exact absurd (by rw [hrest]; rfl) hhead
    · rfl
  rw [scriptPath, hplace, collapseSlashes_of_no_double_slash hdouble fun h => by cases h]
  rfl

theorem scriptPath_no_double_slash (raw : String) : ¬ ['/', '/'] <:+: (scriptPath raw).toList := by
  rw [scriptPath, String.toList_ofList]
  exact collapseSlashes_no_double_slash false _

theorem head?_placeOnCard (s : List Char) : (placeOnCard s).head? ≠ some '/' := by
  unfold placeOnCard
  split
  · simp [cardMark]
  · next hnot =>
    intro hhead
    obtain ⟨rest, hrest⟩ := List.head?_eq_some_iff.1 hhead
    exact hnot rest hrest

theorem head?_scriptPath (raw : String) : (scriptPath raw).toList.head? ≠ some '/' := by
  rw [scriptPath, String.toList_ofList, head?_collapseSlashes_false]
  exact head?_placeOnCard _

theorem head?_of_scriptPath_eq {raw rest : String} (h : scriptPath raw = cardMark ++ rest) :
    rest.toList.head? ≠ some '/' := by
  intro hhead
  obtain ⟨t, ht⟩ := List.head?_eq_some_iff.1 hhead
  apply scriptPath_no_double_slash raw
  rw [h, String.toList_append, ht]
  exact ⟨"sdmc:".toList, t, rfl⟩

/-! ## Host paths -/

namespace Volume

theorem isRooted_dropWhile_slash (s : List Char) :
    HostPath.isRooted ⟨String.ofList (s.dropWhile (· == '/'))⟩ = false := by
  rw [HostPath.isRooted, String.toList_ofList, Bool.eq_false_iff]
  intro hhead
  have hnot := List.head?_dropWhile_not (· == '/') s
  rw [beq_iff_eq.1 hhead] at hnot
  cases hnot

theorem steps_locate (v : Volume) (rest : List Char) :
    (v.locate rest).steps = v.root.steps ++ Text.names rest := by
  have hrelative := isRooted_dropWhile_slash rest
  rw [locate, ← Text.names_dropWhile_slash rest]
  cases hbelow : rest.dropWhile (· == '/') with
  | nil => rw [Text.names_nil, List.append_nil]
  | cons c cs =>
      rw [hbelow] at hrelative
      rw [HostPath.steps_join hrelative, HostPath.steps_eq ⟨String.ofList (c :: cs)⟩,
        String.toList_ofList]

theorem isRooted_locate (v : Volume) (rest : List Char) :
    (v.locate rest).isRooted = v.root.isRooted := by
  have hrelative := isRooted_dropWhile_slash rest
  rw [locate]
  cases hbelow : rest.dropWhile (· == '/') with
  | nil => rfl
  | cons c cs =>
      rw [hbelow] at hrelative
      exact HostPath.isRooted_join hrelative

end Volume

namespace Config

theorem hostPath_withRoot (root : HostPath) (rest : String) :
    (withRoot root).hostPath (cardMark ++ rest)
      = Volume.locate ⟨cardMark, root⟩ rest.toList := by
  have hdrop : Text.dropStart? cardMark.toList (cardMark ++ rest).toList = some rest.toList :=
    Text.dropStart?_eq_some_iff.2 String.toList_append
  rw [hostPath, withRoot]
  dsimp only
  rw [List.findSome?_cons, hdrop]
  rfl

/-- Without the mark of the card a path is a host path already. -/
theorem hostPath_withRoot_of_not_startsWith (root : HostPath) {path : String}
    (h : Text.startsWith path cardMark = false) : (withRoot root).hostPath path = ⟨path⟩ := by
  have hdrop : Text.dropStart? cardMark.toList path.toList = none :=
    Option.isNone_iff_eq_none.1 (Option.isSome_eq_false_iff.1 h)
  rw [hostPath, withRoot]
  dsimp only
  rw [List.findSome?_cons, hdrop]
  rfl

end Config

end PackageScript
