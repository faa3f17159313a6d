import PackageScript.Proofs.Files.Removals
import PackageScript.Proofs.Guard.Confinement

set_option autoImplicit false

/-! # Deletions leave no match

The matches of a pattern are found once and then deleted one after the other, in a tree that
shrinks on the way: a deletion may take a later match along, or the target of a link that leads to
one. Looking for the matches again finds nothing all the same. A match that is found afterwards
was found before, since deletions only take away (`FileSystem.Shrinks`), and so it was asked to be
deleted and is gone. But where the last hop to a match leads, something is, if only a link
(`FileSystem.Hop.not_gone`).
-/

namespace PackageScript

namespace FileSystem

variable {fs fs' : FileSystem} {p q d pattern : HostPath} {name segment : String}
variable {matcher : String → Except GlobFault (String → Bool)} {dirsOnly : Bool}

/-! ## Where the last hop leads -/

/-- What exists is not gone: at the end of its path there is a link at least. -/
theorem not_gone_of_exists? (h : fs.exists? p = true) : ¬ fs.Gone p := by
  intro hgone
  obtain ⟨⟨place, node⟩, hstat⟩ := exists?_iff_stat.1 h
  obtain ⟨spot, hresolve, rfl, hnode, hslash⟩ := find_eq_ok_iff_resolve.1 hstat
  obtain ⟨husable, horigin, hway⟩ := resolve_eq_ok_iff_walks.1 hresolve
  by_cases hend : p.endsWithSlash = true
  · -- a slash at the end has the last link followed
    have hsame : fs.resolve .withSlash p = fs.resolve .always p := by
      rw [resolve, resolve, hend]
    rw [← hsame] at hresolve
    exact hgone.missing _ (find_eq_ok_iff_resolve.2 ⟨spot, hresolve, rfl, hnode, hslash⟩)
  · rw [Bool.not_eq_true] at hend
    have hthere : fs.entryAt? spot.place ≠ none := by
      rw [entryAt?_eq_map, hnode]
      simp
    obtain ⟨other, hway', hother, hslash'⟩ := Walks.unfollowed hway hthere
    have hresolve' : fs.resolve .withSlash p = .ok other := by
      refine resolve_eq_ok_iff_walks.2 ⟨husable, horigin, ?_⟩
      rw [follows, hend]
      rw [hend] at hway'
      exact hway'
    rw [entryAt?_eq_map, Ne, Option.map_eq_none_iff, ← Ne, Option.ne_none_iff_exists'] at hother
    obtain ⟨node', hnode'⟩ := hother
    refine hgone.missing _ (find_eq_ok_iff_resolve.2 ⟨other, hresolve', rfl, hnode', fun hs => ?_⟩)
    rw [hslash', hend] at hs
    cases hs

/-- What a directory holds is not gone. -/
theorem Holds.not_gone (h : fs.Holds d name) (hname : IsName name) : ¬ fs.Gone (d.child name) := by
  intro hgone
  obtain ⟨place, es, hstat, hentry⟩ := h
  obtain ⟨spot, hresolve, rfl, hnode, -⟩ := find_eq_ok_iff_resolve.1 hstat
  obtain ⟨-, horigin, hway⟩ := resolve_eq_ok_iff_walks.1 hresolve
  have hdir : fs.entryAt? spot.place = some .dir := entryAt?_eq_dir_iff.2 ⟨es, hnode⟩
  have hon := Walks.concat hway hdir (.of_isName hname) false
  -- the names of the child are those of the directory and its own
  have hfrom : fs.entryAt? (fs.origin d) = some .dir
      ∧ fs.Walks false linkLimit false (fs.origin d) (d.steps ++ [name])
        ⟨spot.place ++ [name], false⟩ := by
    by_cases hempty : d.text.isEmpty = true
    · rw [if_pos hempty] at horigin hon
      obtain ⟨text⟩ := d
      rw [String.isEmpty_iff] at hempty
      obtain rfl : text = "" := hempty
      exact ⟨horigin, walks_dot_iff.1 hon⟩
    · rw [if_neg hempty] at horigin hon
      exact ⟨horigin, hon⟩
  have hslash := d.endsWithSlash_child hname.toIsSegment
  have hchild : fs.resolve .withSlash (d.child name) = .ok ⟨spot.place ++ [name], false⟩ := by
    refine resolve_eq_ok_iff_walks.2
      ⟨⟨hgone.no_nul, d.text_child_ne_empty hname.toIsSegment, hgone.short⟩, ?_⟩
    rw [follows, hslash, fs.origin_child d hname.toIsSegment,
      HostPath.steps_child d hname.toIsSegment]
    exact hfrom
  rw [entryAt?_eq_map, Ne, Option.map_eq_none_iff, ← Ne, Option.ne_none_iff_exists'] at hentry
  obtain ⟨node, hentry⟩ := hentry
  exact hgone.missing _
    (find_eq_ok_iff_resolve.2 ⟨_, hchild, rfl, hentry, fun hs => by cases hs⟩)

theorem Hop.isSegment {rest : List String} (hfs : fs.Named) (hsegment : IsSegment segment)
    (h : fs.Hop matcher dirsOnly segment rest d name) : IsSegment name := by
  have hthere := h.there
  by_cases hpat : isPattern segment = true
  · rw [if_pos hpat] at hthere
    exact (hfs.isName_of_mem_namesIn hthere).toIsSegment
  · rw [(admits_iff_of_plain hpat).1 h.admits]
    exact hsegment

/-- **Where a hop leads, something is.** -/
theorem Hop.not_gone {rest : List String} (hfs : fs.Named)
    (h : fs.Hop matcher dirsOnly segment rest d name) : ¬ fs.Gone (d.child name) := by
  have hthere := h.there
  by_cases hpat : isPattern segment = true
  · rw [if_pos hpat] at hthere
    exact (mem_namesIn_iff_holds.1 hthere).not_gone (hfs.isName_of_mem_namesIn hthere)
  · rw [if_neg hpat] at hthere
    exact not_gone_of_exists? hthere

theorem exists_last_hop {segments : List String} (hne : segments ≠ [])
    (h : q ∈ (fs.descend matcher dirsOnly segments [d]).1) :
    ∃ dir, ∃ segment ∈ segments, ∃ name,
      fs.Hop matcher dirsOnly segment [] dir name ∧ q = dir.child name := by
  induction segments generalizing d with
  | nil => exact absurd rfl hne
  | cons segment rest ih =>
      obtain ⟨name, hhop, hq⟩ := mem_descend_cons.1 h
      by_cases hrest : rest = []
      · rw [hrest] at hhop hq
        rw [descend, List.mem_singleton] at hq
        exact ⟨d, segment, List.mem_cons_self, name, hhop, hq⟩
      · obtain ⟨dir, last, hlast, hhop'⟩ := ih hrest hq
        exact ⟨dir, last, List.mem_cons_of_mem _ hlast, hhop'⟩

theorem not_gone_of_mem_expandWith (hfs : fs.Named) (hp : isPattern pattern.text = true)
    (h : q ∈ (fs.expandWith matcher pattern).1) : ¬ fs.Gone q ∧ q.endsWithSlash = false := by
  obtain ⟨s, hs, hspat⟩ := isPattern_text_iff.1 hp
  have hopen : pattern.openSteps ≠ [] := List.ne_nil_of_mem (HostPath.mem_openSteps hs hspat)
  rw [expandWith, if_pos hp] at h
  obtain ⟨dir, segment, hsegment, name, hhop, rfl⟩ := exists_last_hop hopen h
  exact ⟨hhop.not_gone hfs, dir.endsWithSlash_child
    (hhop.isSegment hfs (HostPath.isSegment_of_mem_openSteps hsegment))⟩

end FileSystem

/-! ## Deleting the matches -/

namespace FileAction

open Setting (forEach)

variable {fs fs' : FileSystem} {pattern : HostPath}

/-- **After the deletion of its matches a pattern has none**, in any tree. -/
theorem expandWith_eq_nil_of_deleted {matcher : String → Except GlobFault (String → Bool)}
    (hfs : fs.Named) (hp : isPattern pattern.text = true)
    (hrun : forEach deleteTree (fs.expandWith matcher pattern).1 fs = .ok () fs') :
    (fs'.expandWith matcher pattern).1 = [] := by
  obtain ⟨hshrinks, hgone⟩ := forEach_deleteTree_gone
    (fun q hq => (FileSystem.not_gone_of_mem_expandWith hfs hp hq).2) hrun
  rw [List.eq_nil_iff_forall_not_mem]
  intro q hq
  exact (FileSystem.not_gone_of_mem_expandWith (hshrinks.named hfs) hp hq).1
    (hgone q (hshrinks.mem_expandWith hq))

/-- Without links, deletions keep what is neither at nor below what they are asked to delete. -/
theorem after_forEach_deleteTree_of_not_below {paths : List HostPath} (hfs : fs.Plain)
    {place : Place} (hout : ∀ p ∈ paths, ¬ fs.locate p <+: place) :
    ((forEach deleteTree paths).after fs).entryAt? place = fs.entryAt? place := by
  induction paths generalizing fs with
  | nil => rfl
  | cons p rest ih =>
      have hp : ¬ fs.locate p <+: place := hout p List.mem_cons_self
      have hends := deleteTreeTo_ends pathLimit p hfs
      rw [forEach]
      cases hrun : deleteTree p fs with
      | error e fs1 =>
          rw [after_bind_of_error hrun]
          exact (hends.of_error hrun).entry_of_not_below hp
      | ok _ fs1 =>
          obtain ⟨hprunes, -⟩ := hends.of_ok hrun
          have hrest : ∀ q ∈ rest, ¬ fs1.locate q <+: place := by
            intro q hq
            rw [hprunes.locate]
            exact hout q (List.mem_cons_of_mem _ hq)
          rw [after_bind_of_ok hrun, ih hprunes.plain hrest, hprunes.entry_of_not_below hp]

end FileAction

/-! ## The command -/

theorem Action.exists_eq_ok_of_isOk (act : Action Unit) (w : World)
    (h : (match act w with | .ok _ _ => true | .error _ _ => false) = true) :
    ∃ w', act w = .ok () w' := by
  cases hrun : act w with
  | ok a w' => exact ⟨w', rfl⟩
  | error e w' =>
      rw [hrun] at h
      cases h

/-- The host path of a pattern is a pattern, unless the star stands in the mark of its volume. -/
theorem Config.isPattern_hostPath {config : Config} {path : String}
    (hpath : isPattern path = true)
    (hmark : ∀ v, config.volumes.find? (fun u => Text.startsWith path u.mark) = some v →
      isPattern v.mark = false) : isPattern (config.hostPath path).text = true := by
  cases hfind : config.volumes.find? (fun u => Text.startsWith path u.mark) with
  | none =>
      rw [hostPath_of_find?_eq_none hfind]
      exact hpath
  | some v =>
      obtain ⟨rest, hsplit, hhost⟩ := hostPath_of_find?_eq_some hfind
      have hnot : '*' ∉ v.mark.toList := by
        rw [← isPattern_iff, hmark v hfind]
        exact Bool.false_ne_true
      have hstar := isPattern_iff.1 hpath
      rw [hsplit] at hstar
      rw [hhost]
      exact v.isPattern_locate ((List.mem_append.1 hstar).resolve_left hnot)

namespace Setting

variable (s : Setting) (w : World) (raw : String)

theorem forEach_of_expanded_eq_ok {act : HostPath → FileAction Unit} {pattern : HostPath}
    {w w' : World}
    (h : (expanded pattern >>= fun found => Action.files (forEach act found)) w = .ok () w') :
    forEach act (w.files.expand pattern).1 w.files = .ok () w'.files := by
  have hstep : (expanded pattern >>= fun found => Action.files (forEach act found)) w
      = Action.files (forEach act (w.files.expand pattern).1)
        (w.noteAll (w.files.expand pattern).2) := rfl
  rw [hstep] at h
  exact Action.of_files_eq_ok (w := w.noteAll (w.files.expand pattern).2) h

theorem forEach_of_delete_eq_ok {w' : World} (h : s.delete raw w = .ok () w') :
    forEach FileAction.deleteTree
        (w.files.expand (s.config.hostPath (scriptPath raw))).1 w.files = .ok () w'.files := by
  rw [delete] at h
  by_cases hrefused : Guard.isDangerous (scriptPath raw) = true
  · rw [if_pos hrefused] at h
    cases h
  · rw [if_neg hrefused] at h
    exact forEach_of_expanded_eq_ok h

/-- **A deletion leaves no match of its pattern.** In any tree, links included, a deletion that
returns leaves nothing that its host path stands for exactly if that is a pattern, and it is one if
the script path is and the star does not stand in the mark of its volume. In a tree without links,
however the deletion ends, whatever is neither at nor below a match is as it was. -/
theorem delete_leaves_no_match (hfs : w.files.Named) :
    (∀ w', s.delete raw w = .ok () w' →
        ((w'.files.expand (s.config.hostPath (scriptPath raw))).1 = []
          ↔ isPattern (s.config.hostPath (scriptPath raw)).text = true))
      ∧ (isPattern (scriptPath raw) = true →
        (∀ v, s.config.volumes.find? (fun u => Text.startsWith (scriptPath raw) u.mark) = some v →
          isPattern v.mark = false) →
        isPattern (s.config.hostPath (scriptPath raw)).text = true)
      ∧ (w.files.Plain → ∀ place,
        (∀ q ∈ (w.files.expand (s.config.hostPath (scriptPath raw))).1,
          ¬ w.files.locate q <+: place) →
        ((s.delete raw).filesAfter w).entryAt? place = w.files.entryAt? place) := by
  refine ⟨fun w' hrun => ⟨fun hnil => ?_, fun hp => ?_⟩, Config.isPattern_hostPath, ?_⟩
  · by_contra hplain
    rw [FileSystem.expand, FileSystem.expandWith, if_neg hplain] at hnil
    cases hnil
  · exact FileAction.expandWith_eq_nil_of_deleted hfs hp (s.forEach_of_delete_eq_ok w raw hrun)
  · intro hplain place hout
    rw [filesAfter_delete]
    split
    · rfl
    · exact FileAction.after_forEach_deleteTree_of_not_below hplain hout

open FileSystem (linkedCard linkedCard_named)

/-- On the card with the link, a directory that is found both ways is deleted once and then has no
match. On a card without links, the directory around a match stays. -/
theorem linkedCard_delete_leaves_none :
    linkedCard.Named
      ∧ (linkedCard.expand (onRootCard.config.hostPath (scriptPath "sdmc:/*/b"))).1
        = [⟨"/a/b"⟩, ⟨"/c/b"⟩]
      ∧ (∃ w', onRootCard.delete "sdmc:/*/b" (.ofFiles linkedCard) = .ok () w'
        ∧ (w'.files.expand (onRootCard.config.hostPath (scriptPath "sdmc:/*/b"))).1 = [])
      ∧ consoleCard.Plain
      ∧ (consoleCard.expand (onRootCard.config.hostPath (scriptPath "sdmc:/*/Contents"))).1
        = [⟨"/Nintendo/Contents"⟩]
      ∧ ((onRootCard.delete "sdmc:/*/Contents").filesAfter (.ofFiles consoleCard)).entryAt?
          ["Nintendo"] = consoleCard.entryAt? ["Nintendo"] := by
  have hexpand : (consoleCard.expand
      (onRootCard.config.hostPath (scriptPath "sdmc:/*/Contents"))).1
      = [⟨"/Nintendo/Contents"⟩] := by
    decide +kernel
  refine ⟨linkedCard_named, by decide +kernel, ?_, consoleCard_plain, hexpand, ?_⟩
  · obtain ⟨hmatches, hpattern, -⟩ :=
      delete_leaves_no_match onRootCard (.ofFiles linkedCard) "sdmc:/*/b" linkedCard_named
    obtain ⟨w', hrun⟩ := Action.exists_eq_ok_of_isOk
      (onRootCard.delete "sdmc:/*/b") (.ofFiles linkedCard) (by decide +kernel)
    have hmark : ∀ v, onRootCard.config.volumes.find?
        (fun u => Text.startsWith (scriptPath "sdmc:/*/b") u.mark) = some v →
        isPattern v.mark = false := by
      intro v hv
      have hcard : onRootCard.config.volumes.find?
          (fun u => Text.startsWith (scriptPath "sdmc:/*/b") u.mark) = some ⟨cardMark, ⟨"/"⟩⟩ := by
        decide +kernel
      rw [hcard] at hv
      cases hv
      decide
    exact ⟨w', hrun, (hmatches w' hrun).2 (hpattern (by decide +kernel) hmark)⟩
  · obtain ⟨-, -, hkept⟩ := delete_leaves_no_match onRootCard (.ofFiles consoleCard)
      "sdmc:/*/Contents" consoleCard_plain.named
    refine hkept consoleCard_plain ["Nintendo"] fun q hq => ?_
    have hq' : q ∈ [(⟨"/Nintendo/Contents"⟩ : HostPath)] := hexpand ▸ hq
    rw [List.mem_singleton.1 hq']
    decide +kernel

/-- A setting with a star in the mark of its volume. -/
def withStarredMark : Setting :=
  { onRootCard with config := { Config.standard with volumes := [⟨"sdmc:/x*:/", ⟨"sd/y"⟩⟩] } }

/-- A star in the mark of the volume does not make the host path a pattern, and a plain path stands
for itself also when nothing is there. -/
theorem starred_mark_leaves_match :
    ¬ ∀ (s : Setting) (w : World) (raw : String), w.files.Named →
      isPattern (scriptPath raw) = true → Guard.isDangerous (scriptPath raw) = false →
      ∀ w', s.delete raw w = .ok () w' →
        (w'.files.expand (s.config.hostPath (scriptPath raw))).1 = [] := by
  intro hall
  obtain ⟨w', hrun⟩ := Action.exists_eq_ok_of_isOk (withStarredMark.delete "sdmc:/x*:/a")
    (.ofFiles (FileSystem.empty [])) (by decide +kernel)
  have hnil := hall _ _ _ FileSystem.plain_empty.named (by decide +kernel) (by decide +kernel) w'
    hrun
  have hhost : withStarredMark.config.hostPath (scriptPath "sdmc:/x*:/a") = ⟨"sd/y/a"⟩ := by
    decide +kernel
  rw [hhost, FileSystem.expand, FileSystem.expandWith, if_neg (by decide)] at hnil
  cases hnil

end Setting

end PackageScript
