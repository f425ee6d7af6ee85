import NodeVmm.LayerLinks
import NodeVmm.Theorems.PathsConfined

/-! What an absolute symlink of a layer is rewritten to. The target is normalized as a text first, so a `..` in it takes back
    the name before it; in the tree it leaves the directory that the name leads to, which is another one behind a symlink. -/

namespace NodeVmm.Oci
open PosixPath
variable {cwd root rel link name : Text} {t t' : FileTree}

/-! ### Clean names -/

/-- A clean name is some names, and a separator at most. --/
theorem names_of_cleanLayerEntry (h : cleanLayerEntry name = .ok (some rel)) : ∃ dir c tail,
    (∀ d ∈ dir ++ [c], IsName d) ∧ (tail = [] ∨ tail = ['/']) ∧ '/' :: rel = ofNames (dir ++ [c]) ++ tail := by
  obtain ⟨tail, htail, hcleaned⟩ := cleanLayerEntry_eq name
  rw [hcleaned] at h
  split at h
  · cases h
  · rename_i hne
    cases h
    obtain ⟨dir, c, hsnoc⟩ := (List.eq_nil_or_concat' _).resolve_left hne
    refine ⟨dir, c, tail, ?_, htail, by rw [hsnoc]; rfl⟩
    rw [← hsnoc]
    exact normalizeString_names _

theorem normalizeString_tail {p : List Text} {tail : Text} (hp : ∀ c ∈ p, IsName c) (htail : tail = [] ∨ tail = ['/']) :
    normalizeString false (ofNames p ++ tail) = p := by
  rcases htail with rfl | rfl
  · rw [List.append_nil, normalizeString_ofNames hp]
  · have hsplit : Text.split '/' (ofNames p ++ ['/']) = Text.split '/' (ofNames p) ++ [[]] := split_append_slash _ []
    rw [normalizeString, hsplit, List.foldl_append, foldl_push_ofNames hp, List.foldl_cons, List.foldl_nil, push_nil,
      List.reverse_reverse]

/-- The script cleans a name to the names alone. --/
theorem names_of_cleanEntry (h : Wsl.cleanEntry name = .ok (some rel)) :
    (∀ d ∈ normalizeString false ('/' :: rel), IsName d) ∧ '/' :: rel = ofNames (normalizeString false ('/' :: rel)) := by
  obtain ⟨n, hn⟩ := PyPath.normpath_absolute (s := '/' :: PyPath.strip name) rfl
  have hnames := normalizeString_names ('/' :: PyPath.strip name)
  have hdrop : PyPath.lstripSlash (PyPath.normpath ('/' :: PyPath.strip name)) =
      (ofNames (normalizeString false ('/' :: PyPath.strip name))).dropWhile (· = '/') := by
    rw [hn, PyPath.lstripSlash, List.dropWhile_append_of_pos (by simp)]
  unfold Wsl.cleanEntry at h
  simp only [hdrop] at h
  by_cases hnil : normalizeString false ('/' :: PyPath.strip name) = []
  · rw [hnil] at h
    cases h
  · have hstripped := dropWhile_ofNames hnames hnil []
    rw [List.append_nil] at hstripped
    rw [hstripped, List.append_nil] at h
    split at h
    · cases h
    split at h
    · cases h
    cases h
    have hself : normalizeString false (ofNames (normalizeString false ('/' :: PyPath.strip name))) = _ :=
      normalizeString_ofNames hnames
    exact ⟨normalizeString_names _, congrArg ofNames hself.symm⟩

/-! ### The relative target -/

/-- The components of the relative target: from the directory of the link to the names of the absolute one. --/
theorem split_relativeTarget {dir : List Text} (hdir : normalizeString false (dirname ('/' :: rel)) = dir)
    (hlink : isAbsolute link = true) :
    Text.split '/' (relativeTarget rel link) = if relativeNames dir (normalizeString false link) = [] then [dot]
      else relativeNames dir (normalizeString false link) := by
  obtain ⟨s, rfl⟩ := PyPath.exists_cons_of_absolute hlink
  have hcomponents : ∀ c ∈ relativeNames dir (normalizeString false ('/' :: s)), '/' ∉ c ∧ c ≠ [] :=
    mem_relativeNames (normalizeString_names _)
  have hrelative : relative (dirname ('/' :: rel)) (normalizeAbsoluteContainerPath ('/' :: s)) =
      Text.join '/' (relativeNames dir (normalizeString false ('/' :: s))) := by
    rw [relative, hdir, normalizeString_absolute]
  rw [relativeTarget_eq, hrelative]
  rcases hnames : relativeNames dir (normalizeString false ('/' :: s)) with _ | ⟨c, rest⟩
  · rfl
  · rw [hnames] at hcomponents
    rw [if_neg (join_ne_nil (hcomponents c List.mem_cons_self).2), if_neg (List.cons_ne_nil c rest)]
    exact List.splitOn_intercalate '/' (fun d hd => (hcomponents d hd).1) (List.cons_ne_nil c rest)

/-- The script writes the same text. --/
theorem repairLink_eq {rel' : Text} {dir : List Text} {c : Text} (hrel : '/' :: rel' = ofNames (dir ++ [c]))
    (hnames : ∀ d ∈ dir ++ [c], IsName d) (hdir : normalizeString false (dirname ('/' :: rel)) = dir)
    (hlink : isAbsolute link = true) : Wsl.repairLink cwd rel' link = .ok (relativeTarget rel link) := by
  obtain ⟨hparent, habs⟩ := PyPath.normalizeString_dirname hnames
  obtain ⟨s, rfl⟩ := PyPath.exists_cons_of_absolute hlink
  have hsame : relative (PyPath.dirname (ofNames (dir ++ [c]))) (PyPath.normpath ('/' :: s)) =
      relative (dirname ('/' :: rel)) (normalizeAbsoluteContainerPath ('/' :: s)) := by
    rw [relative, relative, hparent, hdir, PyPath.normalizeString_normpath rfl, normalizeString_absolute]
  have htarget := relativeTarget_eq rel ('/' :: s)
  have hne : relativeTarget rel ('/' :: s) ≠ [] := by
    rw [htarget]
    split
    · exact List.cons_ne_nil _ _
    · assumption
  have hrun : PyPath.relpath cwd (PyPath.normpath ('/' :: s)) (PyPath.dirname (ofNames (dir ++ [c]))) =
      .ok (relativeTarget rel ('/' :: s)) := by
    rw [PyPath.relpath_absolute (PyPath.isAbsolute_normpath rfl) habs, hsame, ← htarget]
  have hslash : ¬Text.startsWith ('/' :: s) ['/'] = false := by simp [PyPath.startsWith_slash, isAbsolute]
  rw [Wsl.repairLink, hrel]
  simp only [if_neg hslash, hrun, bind, Except.bind, pure, Except.pure, if_neg hne]

theorem isAbsolute_relativeTarget {dir : List Text} (hdir : normalizeString false (dirname ('/' :: rel)) = dir)
    (hlink : isAbsolute link = true) : isAbsolute (relativeTarget rel link) = false := by
  have hsplit := split_relativeTarget hdir hlink
  have hcomponents : ∀ c ∈ relativeNames dir (normalizeString false link), '/' ∉ c ∧ c ≠ [] :=
    mem_relativeNames (normalizeString_names _)
  by_contra habs
  obtain ⟨s, hs⟩ := PyPath.exists_cons_of_absolute (Bool.not_eq_false _ ▸ habs)
  have hfirst : Text.split '/' ('/' :: s) = [] :: Text.split '/' s := split_append_slash [] s
  rw [hs, hfirst] at hsplit
  split at hsplit
  · cases hsplit
  · have hmem : [] ∈ relativeNames dir (normalizeString false link) := hsplit ▸ List.mem_cons_self
    exact (hcomponents [] hmem).2 rfl

/-- From the directory of the link, the relative target leads where the names of the absolute one lead from the root. --/
theorem resolveFrom_relativeTarget {dir base : List Text} (hdir : normalizeString false (dirname ('/' :: rel)) = dir)
    (hlink : isAbsolute link = true) (hreal : t.RealDir (base ++ dir)) (links : Nat) (rest : List Text) :
    t.resolveFrom links (base ++ dir) (Text.split '/' (relativeTarget rel link) ++ rest) =
      t.resolveFrom links base (normalizeString false link ++ rest) := by
  obtain ⟨follow, hwalk⟩ := t.exists_walk links
  have hnames : ∀ c ∈ dir, IsName c := fun c hc => hreal.names c (List.mem_append_right _ hc)
  have hrelative : t.walk follow (base ++ dir) (relativeNames dir (normalizeString false link) ++ rest) =
      t.walk follow base (normalizeString false link ++ rest) := FileTree.walk_relative hreal hnames
  rw [hwalk, split_relativeTarget hdir hlink, ← hrelative]
  split
  · rename_i hnil
    rw [hnil]
    rfl
  · rfl

theorem climb_relativeTarget {dir before : List Text} (hdir : normalizeString false (dirname ('/' :: rel)) = dir)
    (hlink : isAbsolute link = true) (hb : before <+: Text.split '/' (relativeTarget rel link)) :
    ∀ c ∈ before.foldl (pushComponent true) dir.reverse, IsName c := by
  have hnames : ∀ c ∈ dir, IsName c := by
    rw [← hdir]
    exact normalizeString_names _
  rw [split_relativeTarget hdir hlink] at hb
  split at hb
  · have hstay : before.foldl (pushComponent true) dir.reverse = dir.reverse := by
      rcases List.prefix_cons_iff.mp hb with rfl | ⟨u, rfl, hu⟩
      · rfl
      · rw [List.prefix_nil.mp hu]
        rfl
    rw [hstay]
    exact fun c hc => hnames c (List.mem_reverse.mp hc)
  · exact foldl_push_climb hnames (normalizeString_names _) hb

/-- For every clean path of an entry and every absolute target, the script writes the same relative target, which never steps
    above the root. Where the directory of the link is a real one, it leads to what the names of the absolute target lead to,
    and to what the absolute target itself leads to when each `..` in that leaves a real directory. --/
theorem relativeTarget_same_path (hrel : cleanLayerEntry name = .ok (some rel)) (hlink : isAbsolute link = true) :
    ∃ dir c, normalizeString false ('/' :: rel) = dir ++ [c] ∧ isAbsolute (relativeTarget rel link) = false ∧
      (∀ cwd name' rel', Wsl.cleanEntry name' = .ok (some rel') → normalizeString false ('/' :: rel') = dir ++ [c] →
        Wsl.repairLink cwd rel' link = .ok (relativeTarget rel link)) ∧
      (∀ before, before <+: Text.split '/' (relativeTarget rel link) →
        ∀ d ∈ before.foldl (pushComponent true) dir.reverse, IsName d) ∧
      (∀ (t : FileTree) (base : List Text), t.RealDir (base ++ dir) → ∀ links rest,
        t.resolveFrom links (base ++ dir) (Text.split '/' (relativeTarget rel link) ++ rest) =
          t.resolveFrom links base (normalizeString false link ++ rest)) ∧
      (∀ t : FileTree, t.RealDir dir → t.StepsOut (Text.split '/' link) → ∀ links rest q,
        t.resolveFrom links [] (Text.split '/' link ++ rest) = .ok q →
          t.resolveFrom links dir (Text.split '/' (relativeTarget rel link) ++ rest) = .ok q) := by
  obtain ⟨dir, c, tail, hnames, htail, hpath⟩ := names_of_cleanLayerEntry hrel
  have hdir : normalizeString false (dirname ('/' :: rel)) = dir := by
    rw [hpath]
    exact normalizeString_dirname hnames htail
  refine ⟨dir, c, by rw [hpath, normalizeString_tail hnames htail], isAbsolute_relativeTarget hdir hlink, ?_,
    fun before hb => climb_relativeTarget hdir hlink hb, fun t base hreal => resolveFrom_relativeTarget hdir hlink hreal, ?_⟩
  · intro cwd name' rel' hclean hsame
    obtain ⟨-, hpath'⟩ := names_of_cleanEntry hclean
    rw [hsame] at hpath'
    exact repairLink_eq hpath' hnames hdir hlink
  · intro t hreal hsteps links rest q hq
    have hrelative := @resolveFrom_relativeTarget rel link t dir [] hdir hlink hreal links rest
    rw [List.nil_append] at hrelative
    rw [hrelative]
    exact FileTree.resolveFrom_stepsOut hsteps slash_not_mem_split hq

/-! ### What is written -/

/-- Every entry is kept, or is a symlink that now has the relative target of one of these. --/
def Repaired (found : List (Text × Text)) (t t' : FileTree) : Prop :=
  ∀ p, t'.lookup p = t.lookup p ∨
    (∃ old, t.lookup p = some (.symlink old)) ∧ ∃ f ∈ found, t'.lookup p = some (.symlink (relativeTarget f.1 f.2))

theorem repaired_frame (found : List (Text × Text)) : Exec.Frame (Repaired found) where
  refl _ _ := Or.inl rfl
  trans h₁ h₂ p := by
    rcases h₂ p with hkept | ⟨⟨old, hold⟩, f, hf, hnew⟩
    · rw [hkept]
      exact h₁ p
    · refine Or.inr ⟨?_, f, hf, hnew⟩
      rcases h₁ p with hkept | ⟨hlink, -⟩
      · exact ⟨old, hkept ▸ hold⟩
      · exact hlink

theorem repairFixup_keeps {found : List (Text × Text)} {f : Text × Text} (hf : f ∈ found) :
    Exec.Keeps (Repaired found) (repairFixup cwd root f) := by
  have hR := repaired_frame found
  refine Exec.Keeps.bind hR (Exec.Keeps.lift hR) fun target t => hR.bind (hR.refl t) fun t₁ t₂ hget => ?_
  cases hget
  rcases t.locate (components cwd target) with e | place
  · exact hR.refl t
  rcases hlookup : t.lookup place with _ | data | _ | current <;> simp only [hlookup]
  · exact hR.refl t
  · exact hR.refl t
  · exact hR.refl t
  by_cases hcurrent : current = relativeTarget f.1 f.2
  · rw [if_pos hcurrent]
    exact hR.refl t
  rw [if_neg hcurrent]
  have hplace : place ≠ [] := by
    rintro rfl
    cases hlookup
  intro p
  have hinsert : (t.insert place (.symlink (relativeTarget f.1 f.2))).lookup p =
      if p = place then some (.symlink (relativeTarget f.1 f.2)) else t.lookup p :=
    FileTree.lookup_insert hplace (FileTree.names_of_lookup hlookup)
  by_cases hp : p = place
  · subst hp
    exact Or.inr ⟨⟨current, hlookup⟩, f, hf, hinsert.trans (if_pos rfl)⟩
  · exact Or.inl (hinsert.trans (if_neg hp))

theorem repairFixups_keeps {found : List (Text × Text)} : ∀ {fixups : List (Text × Text)}, (∀ f ∈ fixups, f ∈ found) →
    Exec.Keeps (Repaired found) (repairFixups cwd root fixups)
  | [], _ => Exec.Keeps.pure (repaired_frame found)
  | _ :: _, h => Exec.Keeps.bind (repaired_frame found) (repairFixup_keeps (h _ List.mem_cons_self)) fun _ =>
    repairFixups_keeps fun f hf => h f (List.mem_cons_of_mem _ hf)

/-- What `fixups` holds: clean names of symlinks, with their absolute targets. --/
theorem mem_fixups : ∀ {layer : List TarEntry} {found : List (Text × Text)}, fixups layer = .ok found → ∀ f ∈ found,
    isAbsolute f.2 = true ∧ ∃ entry ∈ layer, entry.symbolicLink = true ∧ entry.linkpath = some f.2 ∧
      cleanLayerEntry entry.path = .ok (some f.1)
  | [], _, h, f, hf => by
    cases h
    cases hf
  | entry :: rest, found, h, f, hf => by
    unfold fixups at h
    rcases hfirst : fixup entry with e | first
    · rw [hfirst] at h
      cases h
    rcases hothers : fixups rest with e | others
    · rw [hfirst, hothers] at h
      cases h
    rw [hfirst, hothers] at h
    cases h
    rcases List.mem_append.mp hf with hf | hf
    · rw [Option.mem_toList] at hf
      subst hf
      unfold fixup at hfirst
      split at hfirst
      · cases hfirst
      · rename_i linkpath hlink
        split at hfirst
        · rename_i habs
          obtain ⟨hsym, habs⟩ := Bool.and_eq_true_iff.mp habs
          rw [PyPath.startsWith_slash] at habs
          rcases hclean : cleanLayerEntry entry.path with e | _ | rel
          · rw [hclean] at hfirst
            cases hfirst
          · rw [hclean] at hfirst
            cases hfirst
          · rw [hclean] at hfirst
            cases hfirst
            exact ⟨habs, entry, List.mem_cons_self, hsym, hlink, hclean⟩
        · cases hfirst
    · obtain ⟨habs, entry', hmem, hrest⟩ := mem_fixups hothers f hf
      exact ⟨habs, entry', List.mem_cons_of_mem _ hmem, hrest⟩

/-- `repairAbsoluteSymlinks` changes nothing but symlinks, and these to the relative targets of symlinks of the layer. --/
theorem repairAbsoluteSymlinks_writes {layer : List TarEntry} {result : Except String Unit}
    (h : repairAbsoluteSymlinks cwd root layer t = (result, t')) (p : List Text) : t'.lookup p = t.lookup p ∨
      (∃ old, t.lookup p = some (.symlink old)) ∧ ∃ entry ∈ layer, ∃ rel link, entry.symbolicLink = true ∧
        entry.linkpath = some link ∧ isAbsolute link = true ∧ cleanLayerEntry entry.path = .ok (some rel) ∧
          t'.lookup p = some (.symlink (relativeTarget rel link)) := by
  rcases hfound : fixups layer with e | found
  · rw [repairAbsoluteSymlinks, hfound, Exec.bind_of_error Exec.lift_apply] at h
    cases h
    exact Or.inl rfl
  · rw [repairAbsoluteSymlinks, hfound, Exec.bind_of_ok Exec.lift_apply] at h
    have hrepaired : Repaired found t t' := Exec.Keeps.of_eq (repairFixups_keeps fun _ => id) h
    rcases hrepaired p with hkept | ⟨hlink, f, hf, hnew⟩
    · exact Or.inl hkept
    · obtain ⟨habs, entry, hmem, hsym, hpath, hclean⟩ := mem_fixups hfound f hf
      exact Or.inr ⟨hlink, entry, hmem, f.1, f.2, hsym, hpath, habs, hclean, hnew⟩

/-! ### Where the targets lead -/

/-- The link `a/s` leads to `c/d`, and there is a file `b` beside either. --/
def linkedTree : FileTree where
  entries := [([['a']], .dir), ([['c']], .dir), ([['a'], ['b']], .file [1]), ([['a'], ['s']], .symlink "/c/d".toList),
    ([['c'], ['b']], .file [2]), ([['c'], ['d']], .dir)]
  names := by decide
  nodup := by decide

theorem relativeTarget_same_path_dotdot :
    linkedTree.resolveFrom 40 ["a".toList] (Text.split '/' (relativeTarget "a/l/".toList "//c/d/./../b".toList)) =
      .ok ["c".toList, "b".toList] ∧
    Wsl.repairLink "/w".toList "a/l".toList "//c/d/./../b".toList =
      .ok (relativeTarget "a/l/".toList "//c/d/./../b".toList) := by
  have hrel : cleanLayerEntry " ./a//l/".toList = .ok (some "a/l/".toList) := by decide
  have hlink : isAbsolute "//c/d/./../b".toList = true := by decide
  obtain ⟨dir, c, hpath, -, hscript, -, -, hsame⟩ := relativeTarget_same_path hrel hlink
  have hentry : normalizeString false ('/' :: "a/l/".toList) = ["a".toList, "l".toList] := by decide
  rw [hentry] at hpath
  have hdir := congrArg List.dropLast hpath
  rw [List.dropLast_concat] at hdir
  subst hdir
  refine ⟨?_, hscript _ "a/l".toList _ (by decide) hpath⟩
  have hthere := hsame linkedTree (by decide) (by decide) 40 [] ["c".toList, "b".toList] (by decide +kernel)
  rwa [List.append_nil] at hthere

/-- A `..` behind a symlink: the absolute target leads to the file beside `c/d`, the relative one to that beside `a/s`. --/
theorem relativeTarget_dotdot_behind_link : ¬∀ (t : FileTree) (name rel link : Text),
    cleanLayerEntry name = .ok (some rel) → isAbsolute link = true → t.RealDir (normalizeString false (dirname ('/' :: rel))) →
      t.resolveFrom 40 (normalizeString false (dirname ('/' :: rel))) (Text.split '/' (relativeTarget rel link)) =
        t.resolve (Text.split '/' link) := by
  intro h
  have hsame := h linkedTree "a/l".toList "a/l".toList "/a/s/../b".toList (by decide) (by decide) (by decide)
  have hrelative : linkedTree.resolveFrom 40 (normalizeString false (dirname ('/' :: "a/l".toList)))
      (Text.split '/' (relativeTarget "a/l".toList "/a/s/../b".toList)) = .ok ["a".toList, "b".toList] := by decide +kernel
  have habsolute : linkedTree.resolve (Text.split '/' "/a/s/../b".toList) = .ok ["c".toList, "b".toList] := by decide +kernel
  rw [hrelative, habsolute] at hsame
  exact absurd hsame (by decide)

end NodeVmm.Oci
