import NodeVmm.LayerFiles

/-! What `applyWhiteouts` removes. The directory of a whiteout is a real directory inside the image, so a name
    joined to it stays in the image; but what follows `.wh.` need not be a name: of `.wh.` and `.wh..` the join is
    the directory itself, and of `.wh...` the one above it. -/

namespace NodeVmm.Oci
open PosixPath

/-- What the whiteout hides is no name. --/
def Degenerate (base : Text) : Prop := base.drop whiteoutPrefix.length ∈ [[], dot, dotdot]

instance {base : Text} : Decidable (Degenerate base) := inferInstanceAs (Decidable (_ ∈ _))

/-- The removal is strictly inside the image, and is what the whiteout names in its directory, or for the opaque
    whiteout some entry of it. --/
def Confined (r : Removal) : Prop :=
  r.root <+: r.target ∧ r.target ≠ r.root ∧
    (r.target = r.parent ++ [r.base.drop whiteoutPrefix.length] ∨
      r.base = opaqueWhiteout ∧ ∃ c, r.target = r.parent ++ [c])

/-- The entry is a degenerate whiteout whose directory is a directory of the image. --/
def Misses (cwd root entry : Text) (s : LayerState) : Prop :=
  ∃ base rel dirs, whiteout entry = .ok (some (base, rel)) ∧ Degenerate base ∧ safeRealDir cwd root rel s = (.ok dirs, s)

section
variable {cwd root rel base entry : Text} {s s' : LayerState} {dirs : List Text × List Text}

theorem whiteout_eq_some (h : whiteout entry = .ok (some (base, rel))) : '/' ∉ base ∧ whiteoutPrefix <+: base := by
  unfold whiteout at h
  cases hclean : cleanLayerEntry entry with
  | error e =>
    rw [hclean] at h
    cases h
  | ok cleaned =>
    rw [hclean] at h
    cases cleaned with
    | none => cases h
    | some rel' =>
      simp only [bind, Except.bind, pure, Except.pure] at h
      split at h
      · rename_i hpre
        cases h
        exact ⟨slash_not_mem_basename rel', List.isPrefixOf_iff_prefix.mp hpre⟩
      · cases h

/-- The rest of a whiteout that is not degenerate is a name. --/
theorem isName_of_whiteout (h : whiteout entry = .ok (some (base, rel))) (hd : ¬Degenerate base) :
    IsName (base.drop whiteoutPrefix.length) := by
  obtain ⟨hslash, -⟩ := whiteout_eq_some h
  simp only [Degenerate, List.mem_cons, List.not_mem_nil, or_false, not_or] at hd
  exact ⟨hd.1, hd.2.1, hd.2.2, fun hmem => hslash (List.mem_of_mem_drop hmem)⟩

/-- The directory of a whiteout is a real directory of the image. --/
theorem safeRealDir_ok (h : safeRealDir cwd root rel s = (.ok dirs, s')) :
    s' = s ∧ s.tree.RealDir dirs.2 ∧ dirs.1 <+: dirs.2 := by
  unfold safeRealDir at h
  rw [Exec.bind_of_ok Exec.get_apply] at h
  obtain ⟨rootReal, s₁, hroot, h1⟩ := Exec.bind_eq_ok h
  obtain ⟨hrootReal, rfl⟩ := Exec.lift_eq_ok hroot
  obtain ⟨target, s₂, htarget, h2⟩ := Exec.bind_eq_ok h1
  obtain ⟨-, rfl⟩ := Exec.lift_eq_ok htarget
  obtain ⟨targetReal, s₃, hreal, h3⟩ := Exec.bind_eq_ok h2
  obtain ⟨htargetReal, rfl⟩ := Exec.lift_eq_ok hreal
  obtain ⟨_, s₄, hinside, h4⟩ := Exec.bind_eq_ok h3
  obtain ⟨hin, rfl⟩ := Exec.check_eq_ok hinside
  obtain ⟨_, s₅, hdir, hpure⟩ := Exec.bind_eq_ok h4
  obtain ⟨hd, rfl⟩ := Exec.check_eq_ok hdir
  cases hpure
  have hR := FileTree.resolve_real htargetReal |>.realDir (of_decide_eq_true hd)
  have hrootNames := (FileTree.resolve_real hrootReal).names
  refine ⟨rfl, hR, ?_⟩
  rcases Bool.or_eq_true_iff.mp hin with heq | hpre
  · obtain rfl := ofNames_inj hR.names hrootNames (of_decide_eq_true heq)
    exact List.prefix_refl _
  · exact (prefix_of_ofNames hrootNames hR.names (List.isPrefixOf_iff_prefix.mp hpre)).1

/-- `safeRealDir` only reads the tree. --/
theorem safeRealDir_state : (safeRealDir cwd root rel s).2 = s := by
  have hF : Exec.Frame fun s t : LayerState => t = s := ⟨fun _ => rfl, fun h₁ h₂ => h₂.trans h₁⟩
  have hkeeps : Exec.Keeps (fun s t : LayerState => t = s) (safeRealDir cwd root rel) := by
    refine .bind hF (.get hF) fun s => ?_
    refine .bind hF (.lift hF) fun rootReal => ?_
    refine .bind hF (.lift hF) fun target => ?_
    refine .bind hF (.lift hF) fun targetReal => ?_
    refine .bind hF (.check hF) fun _ => ?_
    exact .bind hF (.check hF) fun _ => .pure hF
  exact hkeeps s

theorem components_ofNames (p : List Text) : components cwd (ofNames p) = Text.split '/' (ofNames p) := rfl

/-- What `rm` does to an entry that it finds. --/
theorem rm_of_locate {name : Text} {target : List Text} (hs : s.tree.locate (components cwd (join (ofNames dirs.2) name)) = .ok target) :
    rm cwd base dirs name s =
      (.ok (), if (s.tree.lookup target).isSome then
        { tree := s.tree.erase target, removed := s.removed ++ [⟨base, dirs.1, dirs.2, target⟩] } else s) := by
  unfold rm
  rw [Exec.bind_of_ok Exec.get_apply, hs]
  dsimp only
  split <;> rfl

/-- A name of a real directory is removed from it, and the directory stays. --/
theorem rm_name {name : Text} (hP : s.tree.RealDir dirs.2) (hc : IsName name) :
    ∃ t new, rm cwd base dirs name s = (.ok (), ⟨t, s.removed ++ new⟩) ∧ t.RealDir dirs.2 ∧
      ∀ r ∈ new, r = ⟨base, dirs.1, dirs.2, dirs.2 ++ [name]⟩ := by
  have hloc : s.tree.locate (components cwd (join (ofNames dirs.2) name)) = .ok (dirs.2 ++ [name]) := by
    rw [join_ofNames_name hP.names hc, components_ofNames]
    exact FileTree.locate_ofNames_snoc hP hc
  rw [rm_of_locate hloc]
  split
  · refine ⟨_, _, rfl, hP.erase fun hpre => ?_, fun r hr => List.mem_singleton.mp hr⟩
    have hlen := hpre.length_le
    rw [List.length_append] at hlen
    exact absurd hlen (Nat.not_succ_le_self _)
  · exact ⟨s.tree, [], by rw [List.append_nil], hP, fun _ hr => absurd hr List.not_mem_nil⟩

theorem rmAll_names : ∀ {names : List Text} {s : LayerState}, s.tree.RealDir dirs.2 → (∀ c ∈ names, IsName c) →
    ∃ t new, rmAll cwd base dirs names s = (.ok (), ⟨t, s.removed ++ new⟩) ∧
      ∀ r ∈ new, ∃ c, r = ⟨base, dirs.1, dirs.2, dirs.2 ++ [c]⟩
  | [], s, _, _ => ⟨s.tree, [], by rw [List.append_nil]; rfl, fun _ hr => absurd hr List.not_mem_nil⟩
  | c :: rest, s, hP, hnames => by
    obtain ⟨t, new, hrm, hP', hnew⟩ := rm_name hP (hnames c List.mem_cons_self)
    obtain ⟨t', more, hrest, hmore⟩ := rmAll_names (s := ⟨t, s.removed ++ new⟩) hP'
      fun d hd => hnames d (List.mem_cons_of_mem _ hd)
    refine ⟨t', new ++ more, ?_, fun r hr => ?_⟩
    · rw [rmAll, Exec.bind_of_ok hrm, hrest, List.append_assoc]
    · rcases List.mem_append.mp hr with hr | hr
      · exact ⟨c, hnew r hr⟩
      · exact hmore r hr

/-- The join of a degenerate whiteout is its directory or the one above, which is there to be removed. --/
theorem rm_degenerate (hP : s.tree.RealDir dirs.2) (hd : Degenerate base) : ∃ t target,
    rm cwd base dirs (base.drop whiteoutPrefix.length) s = (.ok (), ⟨t, s.removed ++ [⟨base, dirs.1, dirs.2, target⟩]⟩) ∧
      (target = dirs.2 ∨ target = dirs.2.dropLast) := by
  have hself : ∀ {p : List Text}, s.tree.RealDir p →
      s.tree.locate (components cwd (ofNames p)) = .ok p ∧ (s.tree.lookup p).isSome = true := fun hp =>
    ⟨FileTree.locate_ofNames hp, by rw [hp _ (List.prefix_refl _)]; rfl⟩
  have hrun : ∀ {name : Text} {p : List Text}, s.tree.RealDir p → join (ofNames dirs.2) name = ofNames p →
      rm cwd base dirs name s = (.ok (), ⟨s.tree.erase p, s.removed ++ [⟨base, dirs.1, dirs.2, p⟩]⟩) := fun hp hj => by
    obtain ⟨hloc, hsome⟩ := hself hp
    rw [rm_of_locate (hj ▸ hloc), if_pos hsome]
  simp only [Degenerate, List.mem_cons, List.not_mem_nil, or_false] at hd
  rcases hd with hd | hd | hd
  · rw [hd]
    exact ⟨_, _, hrun hP (join_ofNames_nil hP.names), Or.inl rfl⟩
  · rw [hd]
    exact ⟨_, _, hrun hP (join_ofNames_dot hP.names), Or.inl rfl⟩
  · rw [hd]
    exact ⟨_, _, hrun hP.dropLast (join_ofNames_dotdot hP.names), Or.inr rfl⟩

/-! ### One entry, and the whole layer -/

theorem confined_name {name : Text} (hroot : dirs.1 <+: dirs.2)
    (hname : name = base.drop whiteoutPrefix.length ∨ base = opaqueWhiteout) :
    Confined ⟨base, dirs.1, dirs.2, dirs.2 ++ [name]⟩ := by
  refine ⟨hroot.trans (List.prefix_append _ _), fun heq => ?_, ?_⟩
  · have hroot' : dirs.2 ++ [name] = dirs.1 := heq
    have hlen := hroot.length_le
    rw [← hroot', List.length_append] at hlen
    exact absurd hlen (Nat.not_succ_le_self _)
  · rcases hname with rfl | hopq
    · exact Or.inl rfl
    · exact Or.inr ⟨hopq, name, rfl⟩

theorem not_confined_of_above {target : List Text} (h : target = dirs.2 ∨ target = dirs.2.dropLast) :
    ¬Confined ⟨base, dirs.1, dirs.2, target⟩ := by
  have hlen : target.length ≤ dirs.2.length := by
    rcases h with rfl | rfl
    · exact Nat.le_refl _
    · rw [List.length_dropLast]
      exact Nat.sub_le _ _
  have hne : ∀ c, target ≠ dirs.2 ++ [c] := fun c heq => by
    rw [heq, List.length_append] at hlen
    exact absurd hlen (Nat.not_succ_le_self _)
  rintro ⟨-, -, heq | ⟨-, c, heq⟩⟩
  · exact hne _ heq
  · exact hne c heq

/-- An entry removes only what is confined, unless it is a degenerate whiteout in a directory of the image. --/
theorem applyWhiteout_removed : ∃ new, (applyWhiteout cwd root entry s).2.removed = s.removed ++ new ∧
    ((∀ r ∈ new, Confined r) ↔ ¬Misses cwd root entry s) := by
  have hquiet : (∀ base rel dirs, whiteout entry = .ok (some (base, rel)) → safeRealDir cwd root rel s ≠ (.ok dirs, s)) →
      (applyWhiteout cwd root entry s).2.removed = s.removed →
      ∃ new, (applyWhiteout cwd root entry s).2.removed = s.removed ++ new ∧
        ((∀ r ∈ new, Confined r) ↔ ¬Misses cwd root entry s) := fun hno hsame =>
    ⟨[], by rw [hsame, List.append_nil], ⟨fun _ ⟨base, rel, dirs, hw, _, hdir⟩ => hno base rel dirs hw hdir,
      fun _ _ hr => absurd hr List.not_mem_nil⟩⟩
  rcases hw : whiteout entry with e | _ | ⟨base, rel⟩
  · have hrun : applyWhiteout cwd root entry s = (.error e, s) := by
      rw [applyWhiteout, hw]
      rfl
    exact hquiet (fun _ _ _ heq => by rw [hw] at heq; cases heq) (by rw [hrun])
  · have hrun : applyWhiteout cwd root entry s = (.ok (), s) := by
      rw [applyWhiteout, hw]
      rfl
    exact hquiet (fun _ _ _ heq => by rw [hw] at heq; cases heq) (by rw [hrun])
  · rcases hdir : safeRealDir cwd root rel s with ⟨e | dirs, s₁⟩
    · have hs : s₁ = s := (congrArg Prod.snd hdir).symm.trans safeRealDir_state
      refine hquiet (fun base' rel' dirs' heq hok => ?_) ?_
      · rw [hw] at heq
        cases heq
        rw [hdir] at hok
        cases hok
      · rw [applyWhiteout, hw, Exec.bind_of_ok Exec.lift_apply]
        have herr : ∀ f : List Text × List Text → Exec LayerState Unit, ((safeRealDir cwd root rel >>= f) s).2 = s₁ :=
          fun f => congrArg Prod.snd (Exec.bind_of_error hdir)
        exact congrArg LayerState.removed ((herr _).trans hs)
    · obtain ⟨rfl, hP, hroot⟩ := safeRealDir_ok hdir
      have hmisses : Misses cwd root entry s₁ ↔ Degenerate base := by
        constructor
        · rintro ⟨base', rel', dirs', heq, hd, -⟩
          rw [hw] at heq
          cases heq
          exact hd
        · exact fun hd => ⟨base, rel, dirs, hw, hd, hdir⟩
      have hrun : applyWhiteout cwd root entry s₁ = (if base = opaqueWhiteout then (do
          let s ← Exec.get
          rmAll cwd base dirs (s.tree.children dirs.2))
        else rm cwd base dirs (base.drop whiteoutPrefix.length)) s₁ := by
        rw [applyWhiteout, hw, Exec.bind_of_ok Exec.lift_apply]
        exact Exec.bind_of_ok hdir
      rw [hmisses, hrun]
      by_cases hopq : base = opaqueWhiteout
      · rw [if_pos hopq, Exec.bind_of_ok Exec.get_apply]
        obtain ⟨t, new, hall, hnew⟩ := @rmAll_names cwd base dirs (s₁.tree.children dirs.2) s₁ hP
          fun c hc => (FileTree.mem_children.mp hc).1
        refine ⟨new, by rw [hall], iff_of_true (fun r hr => ?_) (hopq ▸ by decide)⟩
        obtain ⟨c, rfl⟩ := hnew r hr
        exact confined_name hroot (Or.inr hopq)
      · rw [if_neg hopq]
        by_cases hd : Degenerate base
        · obtain ⟨t, target, hrm, htarget⟩ := @rm_degenerate cwd base s₁ dirs hP hd
          refine ⟨_, by rw [hrm], iff_of_false (fun hall => ?_) (not_not.mpr hd)⟩
          exact not_confined_of_above htarget (hall _ (List.mem_singleton.mpr rfl))
        · obtain ⟨t, new, hrm, -, hnew⟩ := @rm_name cwd base s₁ dirs _ hP (isName_of_whiteout hw hd)
          refine ⟨new, by rw [hrm], iff_of_true (fun r hr => ?_) hd⟩
          rw [hnew r hr]
          exact confined_name hroot (Or.inl rfl)

/-- What a layer's whiteouts remove is confined exactly when no degenerate whiteout is reached in a directory of
    the image. --/
theorem applyWhiteouts_removed : ∀ {entries : List Text} {s : LayerState},
    ∃ new, (applyWhiteouts cwd root entries s).2.removed = s.removed ++ new ∧
      ((∀ r ∈ new, Confined r) ↔ ∀ before entry after s₁, entries = before ++ entry :: after →
        applyWhiteouts cwd root before s = (.ok (), s₁) → ¬Misses cwd root entry s₁)
  | [], s => ⟨[], (List.append_nil _).symm, fun _ before entry after _ heq => absurd heq (by simp),
      fun _ _ hr => absurd hr List.not_mem_nil⟩
  | e :: rest, s => by
    obtain ⟨new, hnew, hiff⟩ := @applyWhiteout_removed cwd root e s
    rcases hrun : applyWhiteout cwd root e s with ⟨err | u, s₁⟩
    · -- the layer ends at this entry
      have hall : applyWhiteouts cwd root (e :: rest) s = (.error err, s₁) := Exec.bind_of_error hrun
      refine ⟨new, by rw [hall, ← hnew, hrun], hiff.trans ⟨fun h before entry after s₂ heq hbefore => ?_,
        fun h => h [] e rest s rfl rfl⟩⟩
      cases before with
      | nil =>
        cases heq
        cases hbefore
        exact h
      | cons x before =>
        cases heq
        rw [applyWhiteouts, Exec.bind_of_error hrun] at hbefore
        cases hbefore
    · obtain ⟨more, hmore, hiff'⟩ := @applyWhiteouts_removed rest s₁
      have hall : applyWhiteouts cwd root (e :: rest) s = applyWhiteouts cwd root rest s₁ := Exec.bind_of_ok hrun
      refine ⟨new ++ more, ?_, ⟨fun h before entry after s₂ heq hbefore => ?_, fun h r hr => ?_⟩⟩
      · rw [hall, hmore, ← List.append_assoc, ← hnew, hrun]
      · cases before with
        | nil =>
          cases heq
          cases hbefore
          exact hiff.mp fun r hr => h r (List.mem_append_left _ hr)
        | cons x before =>
          cases heq
          rw [applyWhiteouts, Exec.bind_of_ok hrun] at hbefore
          exact hiff'.mp (fun r hr => h r (List.mem_append_right _ hr)) before entry after s₂ rfl hbefore
      · rcases List.mem_append.mp hr with hr | hr
        · exact hiff.mpr (h [] e rest s rfl rfl) r hr
        · refine hiff'.mpr (fun before entry after s₂ heq hbefore => ?_) r hr
          exact h (e :: before) entry after s₂ (by rw [heq]; rfl) ((Exec.bind_of_ok hrun).trans hbefore)

/-- From any tree: every removal is confined if and only if no degenerate whiteout is reached in a directory of the
    image. --/
theorem removals_confined_iff (cwd root : Text) (entries : List Text) (tree : FileTree) :
    (∀ r ∈ (applyWhiteouts cwd root entries ⟨tree, []⟩).2.removed, Confined r) ↔
      ∀ before entry after s, entries = before ++ entry :: after →
        applyWhiteouts cwd root before ⟨tree, []⟩ = (.ok (), s) → ¬Misses cwd root entry s := by
  obtain ⟨new, hnew, hiff⟩ := @applyWhiteouts_removed cwd root entries ⟨tree, []⟩
  rw [hnew]
  exact hiff

end

/-- A tree with one directory, for the image. --/
def imageTree : FileTree := FileTree.empty.insert ["r".toList] .dir

/-- The whiteout `.wh...` in the root of the image removes what is above the image. --/
theorem not_confined_dots : ∃ r ∈ (applyWhiteouts "/".toList "/r".toList [".wh...".toList] ⟨imageTree, []⟩).2.removed,
    r.target = [] ∧ ¬Confined r := by
  refine ⟨⟨".wh...".toList, ["r".toList], ["r".toList], []⟩, by decide, rfl, ?_⟩
  rintro ⟨hroot, -⟩
  exact absurd hroot (by decide)

end NodeVmm.Oci
