import NodeVmm.Lib.Runs
import NodeVmm.Snapshot
import NodeVmm.Theorems.RootfsStore

/-! Snapshots are what they were made of: the files of a bundle are kept by every operation that writes in place only
    to other files, and a bundle is made without loss when its directory is not above its sources. -/

namespace NodeVmm.Snapshot
open PosixFs
open RootfsCache (truthy orElse resolvePath)

/-! ### Names -/

section
variable {dir c : Text}

theorem names_join (hdir : PosixPath.isAbsolute dir = true) (hc : PosixPath.IsName c) :
    names (PosixPath.join dir c) = names dir ++ [c] := by
  rw [PosixPath.join_of_absolute hdir hc]
  refine PosixPath.normalizeString_ofNames fun d hd => ?_
  rcases List.mem_append.mp hd with hd | hd
  · exact PosixPath.normalizeString_names dir d hd
  · rw [List.mem_singleton.mp hd]
    exact hc

theorem names_resolvePath (hdir : PosixPath.isAbsolute dir = true) (hc : PosixPath.IsName c)
    (hrel : PosixPath.isAbsolute c = false) : names (resolvePath dir c) = names dir ++ [c] := by
  obtain ⟨hne, hdot, hdd, hslash⟩ := hc
  have hnames : ∀ d ∈ names dir ++ [c], PosixPath.IsName d := fun d hd => by
    rcases List.mem_append.mp hd with hd | hd
    · exact PosixPath.normalizeString_names dir d hd
    · rw [List.mem_singleton.mp hd]
      exact ⟨hne, hdot, hdd, hslash⟩
  have hsegments : PosixPath.resolveSegments ([c].reverse ++ [dir]) [] = dir ++ '/' :: (c ++ ['/']) := by
    have hdne : dir ≠ [] := by
      rintro rfl
      cases hdir
    simp [PosixPath.resolveSegments, hne, hdne, hrel, hdir]
  have hsplit : PosixPath.normalizeString false (dir ++ '/' :: (c ++ ['/'])) = names dir ++ [c] := by
    have h₁ : Text.split '/' (dir ++ '/' :: (c ++ ['/'])) = Text.split '/' dir ++ Text.split '/' (c ++ ['/']) :=
      List.splitOn_append_cons_self dir _
    have h₂ : Text.split '/' (c ++ ['/']) = [c, []] := by
      refine (List.splitOn_append_cons_self c []).trans ?_
      rw [List.splitOn_eq_singleton hslash]
      rfl
    rw [PosixPath.normalizeString, h₁, h₂, List.foldl_append]
    simp [PosixPath.pushComponent, hne, hdot, hdd, names, PosixPath.normalizeString]
  rw [resolvePath, hrel, if_neg (by simp), PosixPath.resolve, hsegments, hsplit]
  exact PosixPath.normalizeString_ofNames hnames

end

/-! ### What a run writes to -/

/-- The paths that a run writes to. --/
def SdkRunOptions.writes (host : Host) (o : SdkRunOptions) : List Text :=
  (if (restoreEnabled o).toOption = some true then o.overlay host else o.rootDisk host) ::
    (o.attachDisks.filter fun disk => !disk.isReadonly).map fun disk => resolvePath host.cwd disk.path

section
variable {K W : Names → Prop} {host : Host} {s t : Files Content} {α : Type} {path : Text}

theorem tryFinally_state {x : Disks α} {cleanup : Disks Unit} (hc : ∀ s, (cleanup s).1 = .ok ()) :
    (tryFinally x cleanup s).2 = (cleanup (x s).2).2 := by
  have hclean : ∀ s, cleanup s = (.ok (), (cleanup s).2) := fun s => Prod.ext (hc s) rfl
  unfold tryFinally
  rcases hx : x s with ⟨e | a, u⟩
  · have htry : (tryCatch x fun e => do cleanup; throw e) s = (.error e, (cleanup u).2) := by
      rw [Exec.tryCatch_of_error hx]
      exact Exec.bind_of_ok (hclean u)
    rw [Exec.bind_of_error htry]
  · rw [Exec.bind_of_ok (Exec.tryCatch_of_ok hx), Exec.bind_of_ok (hclean u)]
    rfl

theorem checks_still {β : Type} (ok : β → Bool) (message : β → String) (l : List β) :
    (l.forM (fun x => (Exec.check (ok x) (message x) : Disks Unit)) s).2 = s := by
  have hframe : Exec.Frame fun s t : Files Content => t = s := ⟨fun _ => rfl, fun hst htu => htu.trans hst⟩
  exact Exec.Keeps.forM hframe (fun _ _ _ => rfl) s

theorem guards_guestWrites (hp : W (names path)) : Exec.Keeps (Guards K W) (guestWrites host path) :=
  Exec.Keeps.bind guards_frame guards_readFile fun _ => guards_writeFile hp

theorem guards_openOverlay {c : VmConfig} {base : Content} (ho : ∀ overlay ∈ c.overlayPath, W (names overlay)) :
    Exec.Keeps (Guards K W) (openOverlay c base) := by
  unfold openOverlay
  split
  · exact Exec.Keeps.pure guards_frame
  · rename_i overlay hoverlay
    exact Exec.Keeps.bind guards_frame (Exec.Keeps.check guards_frame) fun _ => guards_writeFile (ho overlay hoverlay)

theorem guards_runVm {c : VmConfig} (ho : W (names (c.overlayPath.getD c.rootfsPath)))
    (ha : ∀ disk ∈ c.attachDisks, disk.isReadonly = false → W (names disk.path)) :
    Exec.Keeps (Guards K W) (runVm host c) := by
  have hoverlay : ∀ overlay ∈ c.overlayPath, W (names overlay) := by
    intro overlay hmem
    rw [Option.mem_def.mp hmem] at ho
    exact ho
  refine Exec.Keeps.bind guards_frame guards_readFile fun _ => ?_
  refine Exec.Keeps.bind guards_frame guards_readFile fun _ => ?_
  refine Exec.Keeps.bind guards_frame (guards_openOverlay hoverlay) fun _ => ?_
  refine Exec.Keeps.bind guards_frame (Exec.Keeps.forM guards_frame fun _ _ => ?_) fun _ => ?_
  · exact Exec.Keeps.bind guards_frame guards_readFile fun _ => Exec.Keeps.pure guards_frame
  refine Exec.Keeps.bind guards_frame guards_readFile fun _ => ?_
  refine Exec.Keeps.bind guards_frame (guards_guestWrites ho) fun _ => ?_
  refine Exec.Keeps.bind guards_frame (Exec.Keeps.forM guards_frame fun disk hdisk => ?_) fun _ =>
    Exec.Keeps.pure guards_frame
  refine Exec.Keeps.ite (fun _ => Exec.Keeps.pure guards_frame) fun hwrites => ?_
  exact guards_guestWrites (ha disk hdisk (Bool.eq_false_iff.mpr hwrites))

theorem guards_validate {operation : String} {cpus : Option StableJson.Number} {c : HostCapabilities} :
    Exec.Keeps (Guards K W) (validateRootfsRuntimePathForCapabilities operation cpus path c) := by
  refine Exec.Keeps.bind guards_frame (Exec.Keeps.lift guards_frame) fun n => ?_
  refine Exec.Keeps.ite (fun _ => ?_) fun _ => Exec.Keeps.pure guards_frame
  refine Exec.Keeps.bind guards_frame guards_stat fun info => ?_
  exact Exec.Keeps.ite (fun _ => Exec.Keeps.lift guards_frame) fun _ => Exec.Keeps.pure guards_frame

variable {o : SdkRunOptions} {needsOverlay : Bool} {attached : List RootfsCache.AttachedDisk}

theorem guards_boot (ho : W (names (if needsOverlay then o.overlay host else o.rootDisk host)))
    (ha : ∀ disk ∈ attached, disk.isReadonly = false → W (names disk.path)) :
    Exec.Keeps (Guards K W) (o.boot host needsOverlay attached) := by
  have hdisk : ∀ memMiB cpus, Exec.Keeps (Guards K W) (runVm host
      ⟨resolvePath host.cwd o.kernelPath, o.rootDisk host, if needsOverlay then some (o.overlay host) else none, memMiB,
        cpus, attached⟩) := by
    intro memMiB cpus
    refine guards_runVm ?_ ha
    cases needsOverlay <;> exact ho
  unfold SdkRunOptions.boot
  refine Exec.Keeps.bind guards_frame ?_ fun _ => ?_
  · exact Exec.Keeps.ite (fun _ => guards_mkdir) fun _ => Exec.Keeps.pure guards_frame
  refine Exec.Keeps.bind guards_frame guards_validate fun _ => ?_
  refine Exec.Keeps.bind guards_frame (Exec.Keeps.lift guards_frame) fun memMiB => ?_
  exact Exec.Keeps.bind guards_frame (Exec.Keeps.lift guards_frame) fun cpus => hdisk memMiB cpus

theorem cleanup_ok : ∀ s, (o.cleanup host needsOverlay s).1 = .ok () := by
  intro s
  unfold SdkRunOptions.cleanup
  split <;> rfl

theorem keeps_cleanup (hrm : ∀ k, K k → ¬names host.madeOverlayDir <+: k) :
    Inodes.Keeps K s (o.cleanup host needsOverlay s).2 := by
  unfold SdkRunOptions.cleanup
  split
  · exact keeps_rm hrm
  · exact Inodes.Keeps.refl

/-- A run leaves the names that are there and that it does not write to or remove. --/
theorem keeps_runImage (hK : ∀ k, K k → (s.inode k).isSome) (hW : ∀ p ∈ o.writes host, Spares K s (names p))
    (hrm : ∀ k, K k → ¬names host.madeOverlayDir <+: k) : Inodes.Keeps K s (runImage host o s).2 := by
  unfold runImage
  refine Exec.bind_still rfl Inodes.Keeps.refl fun _ _ => ?_
  refine Exec.bind_still rfl Inodes.Keeps.refl fun attached hattached => ?_
  refine Exec.bind_still rfl Inodes.Keeps.refl fun _ _ => ?_
  refine Exec.bind_still (checks_still _ _ _) Inodes.Keeps.refl fun _ _ => ?_
  refine Exec.bind_still rfl Inodes.Keeps.refl fun needsOverlay hneeds => ?_
  have hattached := (Exec.lift_eq_ok hattached).1
  have hneeds := (Exec.lift_eq_ok hneeds).1
  have hboot : Exec.Keeps (Guards K fun n => ∃ p ∈ o.writes host, n = names p) (o.boot host needsOverlay attached) := by
    refine guards_boot ⟨_, List.mem_cons_self, ?_⟩ fun disk hdisk hwrites => ?_
    · rw [hneeds]
      cases needsOverlay <;> rfl
    · obtain ⟨given, hgiven, hpath, hreadonly⟩ := RootfsCache.resolveAttachedDisks_mem hattached hdisk
      refine ⟨_, List.mem_cons_of_mem _ (List.mem_map_of_mem (List.mem_filter.mpr ⟨hgiven, ?_⟩)), congrArg names hpath⟩
      rw [← hreadonly, hwrites]
      rfl
  rw [tryFinally_state cleanup_ok]
  refine ((hboot s hK ?_).1).trans (keeps_cleanup hrm)
  rintro _ ⟨p, hp, rfl⟩
  exact hW p hp

/-! ### What a run boots -/

variable {r k : Content} {b : Booted}

theorem tryFinally_eq_ok {x : Disks α} {cleanup : Disks Unit} {a : α} (h : tryFinally x cleanup s = (.ok a, t)) :
    ∃ u, x s = (.ok a, u) := by
  obtain ⟨a', u, hx, h⟩ := Exec.bind_eq_ok h
  obtain ⟨_, _, _, h⟩ := Exec.bind_eq_ok h
  cases h
  rcases hr : x s with ⟨e | a', u'⟩
  · rw [Exec.tryCatch_of_error hr] at hx
    obtain ⟨_, _, _, hthrow⟩ := Exec.bind_eq_ok hx
    cases hthrow
  · rw [Exec.tryCatch_of_ok hr] at hx
    cases hx
    exact ⟨_, rfl⟩

/-- A file that is kept is read as it was. --/
theorem readFile_of_keeps {p : Names} {c a : Content} (hkeeps : Inodes.Keeps K s t) (hp : K p)
    (hs : s.read p = some (.file c)) {u : Files Content} (h : readFile p t = (.ok a, u)) : a = c ∧ u = t := by
  have ht : t.read p = some (.file c) := (hkeeps.read hp).trans hs
  rw [readFile_of_read ht] at h
  cases h
  exact ⟨rfl, rfl⟩

theorem runVm_boots {c : VmConfig} (ho : W (names (c.overlayPath.getD c.rootfsPath)))
    (hK : ∀ n, K n → (s.inode n).isSome) (hW : ∀ p, W p → Spares K s p)
    (hkernel : K (names c.kernelPath)) (hrootfs : K (names c.rootfsPath))
    (hk : s.read (names c.kernelPath) = some (.file k)) (hr : s.read (names c.rootfsPath) = some (.file r))
    (h : runVm host c s = (.ok b, t)) : b.kernel = k ∧ b.rootfs = r := by
  have hoverlay : ∀ overlay ∈ c.overlayPath, W (names overlay) := by
    intro overlay hmem
    rw [Option.mem_def.mp hmem] at ho
    exact ho
  obtain ⟨kernel, s₁, h₁, hrest₁⟩ := Exec.bind_eq_ok h
  obtain ⟨rfl, rfl⟩ := readFile_of_keeps Inodes.Keeps.refl hkernel hk h₁
  obtain ⟨base, s₂, h₂, hrest₂⟩ := Exec.bind_eq_ok hrest₁
  obtain ⟨rfl, rfl⟩ := readFile_of_keeps Inodes.Keeps.refl hrootfs hr h₂
  obtain ⟨_, s₃, h₃, hrest₃⟩ := Exec.bind_eq_ok hrest₂
  obtain ⟨_, s₄, h₄, hrest₄⟩ := Exec.bind_eq_ok hrest₃
  obtain ⟨rootfs, s₅, h₅, hrest₅⟩ := Exec.bind_eq_ok hrest₄
  -- up to here only the overlay was written
  have hguard : Guards K W s₂ s₄ := by
    refine guards_frame.trans ((guards_openOverlay hoverlay).of_eq h₃) (Exec.Keeps.of_eq ?_ h₄)
    refine Exec.Keeps.forM guards_frame fun _ _ => ?_
    exact Exec.Keeps.bind guards_frame guards_readFile fun _ => Exec.Keeps.pure guards_frame
  obtain ⟨rfl, -⟩ := readFile_of_keeps (hguard hK hW).1 hrootfs hr h₅
  obtain ⟨_, _, _, hrest₆⟩ := Exec.bind_eq_ok hrest₅
  obtain ⟨_, _, _, hrest₇⟩ := Exec.bind_eq_ok hrest₆
  cases hrest₇
  exact ⟨rfl, rfl⟩

/-- A run that ends has booted its virtual machine. --/
theorem runImage_eq_ok (h : runImage host o s = (.ok b, t)) : ∃ attached needsOverlay u,
    restoreEnabled o = .ok needsOverlay ∧ o.boot host needsOverlay attached s = (.ok b, u) := by
  obtain ⟨_, s₁, h₁, hrest₁⟩ := Exec.bind_eq_ok h
  obtain ⟨-, rfl⟩ := Exec.lift_eq_ok h₁
  obtain ⟨attached, s₂, h₂, hrest₂⟩ := Exec.bind_eq_ok hrest₁
  obtain ⟨-, rfl⟩ := Exec.lift_eq_ok h₂
  obtain ⟨s₃, s₃', h₃, hrest₃⟩ := Exec.bind_eq_ok hrest₂
  obtain ⟨h₃, rfl⟩ := Prod.mk.inj h₃
  obtain ⟨_, s₄, h₄, hrest₄⟩ := Exec.bind_eq_ok hrest₃
  have hstill := checks_still (s := s₂) (fun disk => isFile s₃ (names disk.path))
    (fun disk : RootfsCache.AttachedDisk => "attached disk does not exist: " ++ disk.path.str) attached
  rw [h₄] at hstill
  obtain rfl : s₄ = s₂ := hstill
  obtain ⟨needsOverlay, s₅, h₅, hrest₅⟩ := Exec.bind_eq_ok hrest₄
  obtain ⟨hneeds, rfl⟩ := Exec.lift_eq_ok h₅
  obtain ⟨u, hboot⟩ := tryFinally_eq_ok hrest₅
  exact ⟨attached, needsOverlay, u, hneeds, hboot⟩

theorem runImage_boots (hK : ∀ n, K n → (s.inode n).isSome) (hW : ∀ p ∈ o.writes host, Spares K s (names p))
    (hkernel : K (names (resolvePath host.cwd o.kernelPath))) (hrootfs : K (names (o.rootDisk host)))
    (hk : s.read (names (resolvePath host.cwd o.kernelPath)) = some (.file k))
    (hr : s.read (names (o.rootDisk host)) = some (.file r))
    (h : runImage host o s = (.ok b, t)) : b.kernel = k ∧ b.rootfs = r := by
  obtain ⟨attached, needsOverlay, u, hneeds, hboot⟩ := runImage_eq_ok h
  have hdisk : names (if needsOverlay then o.overlay host else o.rootDisk host) ∈ (o.writes host).map names := by
    refine List.mem_map.mpr ⟨_, List.mem_cons_self, ?_⟩
    rw [hneeds]
    cases needsOverlay <;> rfl
  have hspares : ∀ p ∈ (o.writes host).map names, Spares K s p := by
    intro p hp
    obtain ⟨q, hq, rfl⟩ := List.mem_map.mp hp
    exact hW q hq
  obtain ⟨_, t₁, h₁, hrest₁⟩ := Exec.bind_eq_ok hboot
  obtain ⟨_, t₂, h₂, hrest₂⟩ := Exec.bind_eq_ok hrest₁
  obtain ⟨memMiB, t₃, h₃, hrest₃⟩ := Exec.bind_eq_ok hrest₂
  obtain ⟨-, rfl⟩ := Exec.lift_eq_ok h₃
  obtain ⟨cpus, t₄, h₄, hrest₄⟩ := Exec.bind_eq_ok hrest₃
  obtain ⟨-, rfl⟩ := Exec.lift_eq_ok h₄
  have hguard : Guards K (· ∈ (o.writes host).map names) s t₄ := by
    refine guards_frame.trans (Exec.Keeps.of_eq ?_ h₁) (guards_validate.of_eq h₂)
    exact Exec.Keeps.ite (fun _ => guards_mkdir) fun _ => Exec.Keeps.pure guards_frame
  obtain ⟨hkeeps, hspares'⟩ := hguard hK hspares
  refine runVm_boots (W := (· ∈ (o.writes host).map names)) ?_ (fun n hn => hkeeps.inode n hn ▸ hK n hn) hspares' hkernel
    hrootfs ((hkeeps.read hkernel).trans hk) ((hkeeps.read hrootfs).trans hr) hrest₄
  cases needsOverlay <;> exact hdisk

end

/-! ### Bundles -/

section
variable {K : Names → Prop} {host : Host} {s t u : Files Content} {source dest dir : Names} {r k c : Content}

/-- The names of the files of a bundle. --/
def Bundle (dir n : Names) : Prop := n = dir ++ [rootfsName] ∨ n = dir ++ [kernelName] ∨ n = dir ++ [snapshotManifest]

/-- A bundle with these files, and the manifest that names them. --/
structure Holds (dir : Names) (r k : Content) (s : Files Content) : Prop where
  rootfs : s.read (dir ++ [rootfsName]) = some (.file r)
  kernel : s.read (dir ++ [kernelName]) = some (.file k)
  manifest : ∃ data memory cpus now, s.read (dir ++ [snapshotManifest]) =
    some (.file ⟨data, some (bundleManifest now memory cpus)⟩)

theorem Holds.present (h : Holds dir r k s) : ∀ n, Bundle dir n → (s.inode n).isSome := by
  have hsome : ∀ {n : Names} {node : Node Content}, s.read n = some node → (s.inode n).isSome := by
    intro n node hn
    obtain ⟨i, hi, -⟩ := Option.map_eq_some_iff.mp hn
    simp [hi]
  rintro n (rfl | rfl | rfl)
  · exact hsome h.rootfs
  · exact hsome h.kernel
  · obtain ⟨_, _, _, _, hm⟩ := h.manifest
    exact hsome hm

theorem Holds.of_keeps (h : Holds dir r k s) (hkeeps : Inodes.Keeps (Bundle dir) s t) : Holds dir r k t where
  rootfs := (hkeeps.read (Or.inl rfl)).trans h.rootfs
  kernel := (hkeeps.read (Or.inr (Or.inl rfl))).trans h.kernel
  manifest := by
    obtain ⟨data, memory, cpus, now, hm⟩ := h.manifest
    exact ⟨data, memory, cpus, now, (hkeeps.read (Or.inr (Or.inr rfl))).trans hm⟩

/-! ### Hard links and copies -/

theorem spares_absent (h : s.inode dest = none) : Spares (· ≠ dest) s dest := by
  intro q hq
  cases (realpath_of_none h).symm.trans hq
  exact Inodes.apart_of_none (fun hne => hne rfl) h

/-- No file is at the name. --/
def Missing (s : Files Content) (n : Names) : Prop := s.read n = none ∨ s.read n = some .directory

/-- Nothing but the new name changes. --/
theorem hardlinkOrCopy_keeps (host : Host) (source : Names) (h : s.inode dest = none) :
    Inodes.Keeps (· ≠ dest) s (hardlinkOrCopy host source dest s).2 := by
  rcases link_cases (host.linkable source dest) source dest s with ⟨hlink, -⟩ | ⟨e, hlink⟩
  · rw [hardlinkOrCopy, Exec.tryCatch_of_ok hlink]
    exact Inodes.keeps_link fun hne => hne rfl
  · rw [hardlinkOrCopy, Exec.tryCatch_of_error hlink]
    refine Exec.bind_still readFile_state Inodes.Keeps.refl fun c _ => ?_
    exact keeps_writeFile (spares_absent h)

/-- The new name has the content of the source, or nothing happened. --/
theorem hardlinkOrCopy_cases (host : Host) (h : s.inode dest = none) (hs : s.read source = some (.file c)) :
    (∃ t, hardlinkOrCopy host source dest s = (.ok (), t) ∧ t.read dest = some (.file c)) ∨
      ∃ e, hardlinkOrCopy host source dest s = (.error e, s) := by
  rcases link_cases (host.linkable source dest) source dest s with ⟨hlink, -⟩ | ⟨e, hlink⟩
  · refine Or.inl ⟨_, Exec.tryCatch_of_ok hlink, ?_⟩
    simpa [Inodes.read, Inodes.link] using hs
  · have hnone : s.read dest = none := by
      simp [Inodes.read, h]
    rw [hardlinkOrCopy, Exec.tryCatch_of_error hlink, copyFile, Exec.bind_of_ok (readFile_of_read hs)]
    simp only [writeFile, realpath_of_none h, hnone]
    split
    · exact Or.inl ⟨_, rfl, Inodes.read_create⟩
    · exact Or.inr ⟨_, rfl⟩

/-- Without a file at the source there is nothing to link or to copy. --/
theorem hardlinkOrCopy_of_missing (host : Host) (dest : Names) (hs : Missing s source) :
    ∃ e, hardlinkOrCopy host source dest s = (.error e, s) := by
  have hlink : ∃ e, link (host.linkable source dest) source dest s = (.error e, s) := by
    rcases hs with hs | hs
    · exact ⟨"ENOENT", by simp only [link, hs]⟩
    · exact ⟨"EPERM", by simp only [link, hs]⟩
  have hreal : realpath s source = some source := by
    have hnone : readlink s source = none := by
      rcases hs with hs | hs <;> simp [readlink, hs]
    simp only [realpath, follow, hnone]
  obtain ⟨e, hlink⟩ := hlink
  rw [hardlinkOrCopy, Exec.tryCatch_of_error hlink, copyFile, readFile]
  rcases hs with hs | hs
  · have hstat : stat source s = (.error "ENOENT", s) := by
      simp only [stat, hreal, hs]
    exact ⟨_, Exec.bind_of_error (Exec.bind_of_error hstat)⟩
  · have hstat : stat source s = (.ok .directory, s) := by
      simp only [stat, hreal, hs]
    exact ⟨_, Exec.bind_of_error (Exec.bind_of_ok hstat)⟩

/-! ### The directory of the bundle -/

theorem keeps_mono {K' : Names → Prop} (h : Inodes.Keeps K s t) (hK : ∀ n, K' n → K n) : Inodes.Keeps K' s t :=
  ⟨fun n hn => h.inode n (hK n hn), fun n i hn => h.data n i (hK n hn)⟩

theorem Missing.of_keeps {n : Names} (hkeeps : Inodes.Keeps K s t) (hn : K n) (h : Missing s n) : Missing t n := by
  unfold Missing
  rw [hkeeps.read hn]
  exact h

theorem missing_of_none {n : Names} (h : s.inode n = none) : Missing s n := by
  left
  simp [Inodes.read, h]

/-- The files when the directory has been removed and made again. --/
def emptied (dir : Names) (s : Files Content) : Files Content := (mkdir dir (rm dir s).2).2

theorem emptied_below {n : Names} (hn : dir <+: n) (hne : n ≠ dir) : (emptied dir s).inode n = none := by
  have hnot : ¬n <+: dir := fun hpre => hne (hpre.eq_of_length_le hn.length_le)
  rw [emptied, keeps_mkdir.inode n hnot]
  exact if_pos hn

/-- Making directories puts no file anywhere. --/
theorem missing_mkdir {n p : Names} (h : Missing s n) : Missing (mkdir p s).2 n := by
  have hframe : Exec.Frame fun s t : Files Content => Missing s n → Missing t n :=
    ⟨fun _ h => h, fun hst htu h => htu (hst h)⟩
  refine Exec.Keeps.forM hframe (fun q _ u hu => ?_) s h
  unfold mkdirOne
  split
  · exact hu
  · exact hu
  · by_cases hnq : n = q
    · right
      simp [Inodes.read, Inodes.create, hnq]
    · exact hu.of_keeps (Inodes.keeps_create (K := fun m => m ≠ q) fun hK => hK rfl) hnq

theorem emptied_missing {n : Names} (hn : dir <+: n) : Missing (emptied dir s) n :=
  missing_mkdir (missing_of_none (if_pos hn))

theorem below_append (c : Text) : dir <+: dir ++ [c] ∧ dir ++ [c] ≠ dir :=
  ⟨List.prefix_append _ _, fun h => List.cons_ne_nil c [] (List.append_right_eq_self.mp h)⟩

theorem below_ne {c d : Text} (h : c ≠ d) : dir ++ [c] ≠ dir ++ [d] := fun heq =>
  h (List.cons.inj (List.append_cancel_left heq)).1

theorem emptied_below_all (c : Text) : (emptied dir s).inode (dir ++ [c]) = none :=
  emptied_below (below_append c).1 (below_append c).2

theorem emptied_keeps (hK : ∀ n, K n → (s.inode n).isSome) (hdir : ∀ n, K n → ¬dir <+: n) :
    Inodes.Keeps K s (emptied dir s) := by
  have hrm : Inodes.Keeps K s (rm dir s).2 := keeps_rm hdir
  exact hrm.trans (keeps_of_guards guards_mkdir fun n hn => hrm.inode n hn ▸ hK n hn)

/-! ### Writing a bundle -/

variable {snapshotDir rootfsPath kernelPath : Text} {memory cpus : StableJson.Number}

theorem writeSnapshotBundle_cases (host : Host) (snapshotDir rootfsPath kernelPath : Text)
    (memory cpus : StableJson.Number) (s : Files Content) :
    (∃ e, writeSnapshotBundle host snapshotDir rootfsPath kernelPath memory cpus s =
        (.error e, emptied (names snapshotDir) s)) ∨
      writeSnapshotBundle host snapshotDir rootfsPath kernelPath memory cpus s =
        fillBundle host snapshotDir rootfsPath kernelPath memory cpus (emptied (names snapshotDir) s) := by
  have hrm : rm (names snapshotDir) s = (.ok (), (rm (names snapshotDir) s).2) := rfl
  rw [writeSnapshotBundle, Exec.bind_of_ok hrm]
  rcases hmk : mkdir (names snapshotDir) (rm (names snapshotDir) s).2 with ⟨e | u, v⟩
  · refine Or.inl ⟨e, ?_⟩
    rw [Exec.bind_of_error hmk, emptied, hmk]
  · right
    rw [Exec.bind_of_ok hmk, emptied, hmk]

/-- A source in the directory of the bundle is gone. --/
theorem rootfs_lost (host : Host) (kernelPath : Text) (memory cpus : StableJson.Number)
    (hin : names snapshotDir <+: names rootfsPath) :
    Missing (writeSnapshotBundle host snapshotDir rootfsPath kernelPath memory cpus s).2 (names rootfsPath) := by
  have hmissing := emptied_missing (s := s) hin
  rcases writeSnapshotBundle_cases host snapshotDir rootfsPath kernelPath memory cpus s with ⟨e, heq⟩ | heq
  · rw [heq]
    exact hmissing
  · obtain ⟨e, hfails⟩ := hardlinkOrCopy_of_missing host (names (PosixPath.join snapshotDir rootfsName)) hmissing
    rw [heq, fillBundle, Exec.bind_of_error hfails]
    exact hmissing

section
variable (habs : PosixPath.isAbsolute snapshotDir = true)

include habs

theorem bundle_paths : names (PosixPath.join snapshotDir rootfsName) = names snapshotDir ++ [rootfsName] ∧
    names (PosixPath.join snapshotDir kernelName) = names snapshotDir ++ [kernelName] ∧
    names (PosixPath.join snapshotDir snapshotManifest) = names snapshotDir ++ [snapshotManifest] :=
  ⟨names_join habs (by decide), names_join habs (by decide), names_join habs (by decide)⟩

theorem fillKernel_keeps (host : Host) (kernelPath : Text) (memory cpus : StableJson.Number)
    (hk : s.inode (names snapshotDir ++ [kernelName]) = none)
    (hm : s.inode (names snapshotDir ++ [snapshotManifest]) = none) :
    Inodes.Keeps (fun n => n ≠ names snapshotDir ++ [kernelName] ∧ n ≠ names snapshotDir ++ [snapshotManifest]) s
      (fillKernel host snapshotDir kernelPath memory cpus s).2 := by
  obtain ⟨-, hkernel, hmanifest⟩ := bundle_paths habs
  have hlink : Inodes.Keeps (· ≠ names snapshotDir ++ [kernelName]) s
      (hardlinkOrCopy host (names kernelPath) (names (PosixPath.join snapshotDir kernelName)) s).2 := by
    rw [hkernel]
    exact hardlinkOrCopy_keeps host _ hk
  unfold fillKernel
  refine keeps_frame.bind (keeps_mono hlink fun n hn => hn.1) fun _ t ht => ?_
  rw [ht] at hlink
  have hm' : t.inode (names snapshotDir ++ [snapshotManifest]) = none := by
    refine (hlink.inode _ fun heq => ?_).trans hm
    exact below_ne (by decide) heq
  rw [hmanifest]
  refine keeps_frame.bind ?_ fun _ _ _ => Inodes.Keeps.refl
  exact keeps_mono (keeps_writeFile (spares_absent hm')) fun n hn => hn.2

/-- The state after the root filesystem is in the bundle. --/
theorem linkRootfs_keeps (host : Host) (rootfsPath : Text) (hempty : ∀ c, s.inode (names snapshotDir ++ [c]) = none) {result : Except String Unit}
    (h : hardlinkOrCopy host (names rootfsPath) (names (PosixPath.join snapshotDir rootfsName)) s = (result, t)) :
    Inodes.Keeps (· ≠ names snapshotDir ++ [rootfsName]) s t ∧
      t.inode (names snapshotDir ++ [kernelName]) = none ∧ t.inode (names snapshotDir ++ [snapshotManifest]) = none := by
  have hlink : Inodes.Keeps (· ≠ names snapshotDir ++ [rootfsName]) s t := by
    have hkeeps := hardlinkOrCopy_keeps host (names rootfsPath) (hempty rootfsName)
    rw [← (bundle_paths habs).1, h] at hkeeps
    rwa [(bundle_paths habs).1] at hkeeps
  have hempty₂ : ∀ c, c ≠ rootfsName → t.inode (names snapshotDir ++ [c]) = none := fun c hc =>
    (hlink.inode _ (below_ne hc)).trans (hempty c)
  exact ⟨hlink, hempty₂ _ (by decide), hempty₂ _ (by decide)⟩

/-- Filling a directory that is empty changes no other name. --/
theorem fillBundle_keeps (hempty : ∀ c, s.inode (names snapshotDir ++ [c]) = none) :
    Inodes.Keeps (fun n => ¬Bundle (names snapshotDir) n) s
      (fillBundle host snapshotDir rootfsPath kernelPath memory cpus s).2 := by
  obtain ⟨hlink, -⟩ := linkRootfs_keeps habs host rootfsPath hempty rfl
  unfold fillBundle
  refine keeps_frame.bind (keeps_mono hlink fun n hn heq => hn (Or.inl heq)) fun _ t ht => ?_
  obtain ⟨-, hk, hm⟩ := linkRootfs_keeps habs host _ hempty ht
  refine keeps_mono (fillKernel_keeps habs host _ _ _ hk hm) fun n hn => ?_
  exact ⟨fun heq => hn (Or.inr (Or.inl heq)), fun heq => hn (Or.inr (Or.inr heq))⟩

/-- A bundle is made without a change to what is not in its directory. --/
theorem keeps_writeSnapshotBundle (hK : ∀ n, K n → (s.inode n).isSome) (hdir : ∀ n, K n → ¬names snapshotDir <+: n) :
    Inodes.Keeps K s (writeSnapshotBundle host snapshotDir rootfsPath kernelPath memory cpus s).2 := by
  have hempty := emptied_keeps hK hdir
  rcases writeSnapshotBundle_cases host snapshotDir rootfsPath kernelPath memory cpus s with ⟨e, heq⟩ | heq
  · rw [heq]
    exact hempty
  · rw [heq]
    refine hempty.trans (keeps_mono (fillBundle_keeps habs emptied_below_all) fun n hn hbundle => ?_)
    rcases hbundle with rfl | rfl | rfl
    · exact hdir _ hn (below_append _).1
    · exact hdir _ hn (below_append _).1
    · exact hdir _ hn (below_append _).1

/-- A kernel in the directory of the bundle is gone, or it is where the root filesystem has been put. --/
theorem kernel_lost (hin : names snapshotDir <+: names kernelPath) (hout : ¬names snapshotDir <+: names rootfsPath)
    (hr : s.read (names rootfsPath) = some (.file r))
    (h : (writeSnapshotBundle host snapshotDir rootfsPath kernelPath memory cpus s).2.read (names kernelPath) =
      some (.file c)) : c = r := by
  have hnot : ∀ {u : Files Content}, Missing u (names kernelPath) → u.read (names kernelPath) ≠ some (.file c) := by
    rintro u (hnone | hdir) hfile
    · cases hnone.symm.trans hfile
    · cases hdir.symm.trans hfile
  have hmissing := emptied_missing (s := s) hin
  have hrootfs : (emptied (names snapshotDir) s).read (names rootfsPath) = some (.file r) := by
    refine ((emptied_keeps (K := (· = names rootfsPath)) ?_ ?_).read rfl).trans hr
    · rintro n rfl
      obtain ⟨i, hi, -⟩ := Option.map_eq_some_iff.mp hr
      simp [hi]
    · rintro n rfl
      exact hout
  rcases writeSnapshotBundle_cases host snapshotDir rootfsPath kernelPath memory cpus s with ⟨e, heq⟩ | heq
  · rw [heq] at h
    exact absurd h (hnot hmissing)
  rw [heq, fillBundle] at h
  rcases hardlinkOrCopy_cases host (emptied_below_all (s := s) rootfsName) hrootfs with
    ⟨t, hlink, hread⟩ | ⟨e, hfails⟩
  · rw [← (bundle_paths habs).1] at hlink
    obtain ⟨hkeeps, hk, hm⟩ := linkRootfs_keeps habs host _ emptied_below_all hlink
    rw [Exec.bind_of_ok hlink] at h
    by_cases hkernel : names kernelPath = names snapshotDir ++ [rootfsName]
    · -- the kernel that is linked is the root filesystem
      have hne : ∀ {d : Text}, d ≠ rootfsName → names kernelPath ≠ names snapshotDir ++ [d] := by
        intro d hd heq
        exact hd (List.cons.inj (List.append_cancel_left (heq.symm.trans hkernel))).1
      rw [(fillKernel_keeps habs host _ _ _ hk hm).read ⟨hne (by decide), hne (by decide)⟩, hkernel, hread] at h
      cases h
      rfl
    · have hmissing' := hmissing.of_keeps hkeeps hkernel
      obtain ⟨e, hfails⟩ := hardlinkOrCopy_of_missing host (names (PosixPath.join snapshotDir kernelName)) hmissing'
      rw [fillKernel, Exec.bind_of_error hfails] at h
      exact absurd h (hnot hmissing')
  · rw [← (bundle_paths habs).1] at hfails
    rw [Exec.bind_of_error hfails] at h
    exact absurd h (hnot hmissing)

/-- A bundle that is written has its manifest. --/
theorem manifest_of_fillBundle {m : SdkSnapshotManifest} (hempty : ∀ c, s.inode (names snapshotDir ++ [c]) = none)
    (h : fillBundle host snapshotDir rootfsPath kernelPath memory cpus s = (.ok m, t)) :
    m = bundleManifest host.now memory cpus ∧ t.read (names snapshotDir ++ [snapshotManifest]) =
      some (.file ⟨host.stringify (bundleManifest host.now memory cpus), some (bundleManifest host.now memory cpus)⟩) := by
  obtain ⟨_, u, hlink, h⟩ := Exec.bind_eq_ok h
  obtain ⟨-, hk, hm⟩ := linkRootfs_keeps habs host _ hempty hlink
  obtain ⟨_, v, hlink₂, h⟩ := Exec.bind_eq_ok h
  obtain ⟨_, w, hwrite, h⟩ := Exec.bind_eq_ok h
  cases h
  refine ⟨rfl, ?_⟩
  obtain ⟨-, hkernel, hmanifest⟩ := bundle_paths habs
  rw [hmanifest] at hwrite
  refine read_writeFile (realpath_of_none ?_) hwrite
  rw [hkernel] at hlink₂
  have hkeeps := hardlinkOrCopy_keeps host (names kernelPath) hk
  rw [hlink₂] at hkeeps
  refine (hkeeps.inode _ fun heq => ?_).trans hm
  exact below_ne (by decide) heq

/-- A bundle is made of its sources when they are not in its directory. --/
theorem bundle_of_sources {m : SdkSnapshotManifest} (hr : s.read (names rootfsPath) = some (.file r))
    (hk : s.read (names kernelPath) = some (.file k)) (hrout : ¬names snapshotDir <+: names rootfsPath)
    (hkout : ¬names snapshotDir <+: names kernelPath)
    (h : writeSnapshotBundle host snapshotDir rootfsPath kernelPath memory cpus s = (.ok m, t)) :
    t.read (names snapshotDir ++ [rootfsName]) = some (.file r) ∧
      t.read (names snapshotDir ++ [kernelName]) = some (.file k) := by
  have hpresent : ∀ n, n = names rootfsPath ∨ n = names kernelPath → (s.inode n).isSome := by
    rintro n (rfl | rfl)
    · obtain ⟨i, hi, -⟩ := Option.map_eq_some_iff.mp hr
      simp [hi]
    · obtain ⟨i, hi, -⟩ := Option.map_eq_some_iff.mp hk
      simp [hi]
  have hkeeps := emptied_keeps hpresent (by rintro n (rfl | rfl) <;> assumption)
  have hr' := (hkeeps.read (Or.inl rfl)).trans hr
  have hk' := (hkeeps.read (Or.inr rfl)).trans hk
  rcases writeSnapshotBundle_cases host snapshotDir rootfsPath kernelPath memory cpus s with ⟨e, heq⟩ | heq
  · cases heq.symm.trans h
  have hfill := heq.symm.trans h
  obtain ⟨_, u, hlink, hrest⟩ := Exec.bind_eq_ok hfill
  obtain ⟨hkeeps₁, hkempty, hmempty⟩ := linkRootfs_keeps habs host _ emptied_below_all hlink
  have hread : u.read (names snapshotDir ++ [rootfsName]) = some (.file r) := by
    rw [(bundle_paths habs).1] at hlink
    rcases hardlinkOrCopy_cases host (emptied_below_all (s := s) rootfsName) hr' with
      ⟨v, hok, hread⟩ | ⟨e, hfails⟩
    · cases hok.symm.trans hlink
      exact hread
    · cases hfails.symm.trans hlink
  have hkernel : u.read (names kernelPath) = some (.file k) := by
    refine (hkeeps₁.read fun heq => hkout ?_).trans hk'
    rw [heq]
    exact (below_append _).1
  refine ⟨?_, ?_⟩
  · have hkeeps₂ := fillKernel_keeps habs host kernelPath memory cpus hkempty hmempty
    rw [hrest] at hkeeps₂
    refine (hkeeps₂.read ⟨fun heq => ?_, fun heq => ?_⟩).trans hread
    · exact below_ne (by decide) heq
    · exact below_ne (by decide) heq
  · obtain ⟨_, v, hlink₂, hrest₂⟩ := Exec.bind_eq_ok hrest
    obtain ⟨_, w, hwrite, hrest₃⟩ := Exec.bind_eq_ok hrest₂
    cases hrest₃
    rw [(bundle_paths habs).2.1] at hlink₂
    have hkread : v.read (names snapshotDir ++ [kernelName]) = some (.file k) := by
      rcases hardlinkOrCopy_cases host hkempty hkernel with ⟨x, hok, hread⟩ | ⟨e, hfails⟩
      · cases hok.symm.trans hlink₂
        exact hread
      · cases hfails.symm.trans hlink₂
    have hkeeps₂ := hardlinkOrCopy_keeps host (names kernelPath) hkempty
    rw [hlink₂] at hkeeps₂
    have hmnone : v.inode (names snapshotDir ++ [snapshotManifest]) = none := by
      refine (hkeeps₂.inode _ fun heq => ?_).trans hmempty
      exact below_ne (by decide) heq
    have hkeeps₃ := keeps_writeFile (c := (⟨host.stringify (bundleManifest host.now memory cpus),
      some (bundleManifest host.now memory cpus)⟩ : Content)) (spares_absent hmnone)
    rw [← (bundle_paths habs).2.2, hwrite, (bundle_paths habs).2.2] at hkeeps₃
    refine (hkeeps₃.read fun heq => ?_).trans hkread
    exact below_ne (by decide) heq

end
end

/-! ### Calls of `createSnapshot` -/

section
variable {K W : Names → Prop} {host : Host} {o : SdkSnapshotCreateOptions} {s t u : Files Content} {r k : Content}
  {result : SdkRunResult}

theorem snapshotDir_absolute : PosixPath.isAbsolute (o.snapshotDir host) = true := RootfsCache.resolvePath_absolute

theorem guards_start (host : Host) (o : SdkSnapshotCreateOptions) : Exec.Keeps (Guards K W) (o.start host) := by
  refine Exec.Keeps.bind guards_frame (Exec.Keeps.lift guards_frame) fun _ => ?_
  refine Exec.Keeps.bind guards_frame (Exec.Keeps.lift guards_frame) fun _ => ?_
  exact Exec.Keeps.ite (fun _ => guards_mkdir) fun _ => Exec.Keeps.pure guards_frame

theorem guards_prepare (host : Host) (o : SdkSnapshotCreateOptions)
    (hsource : truthy o.rootfsPath = false → W (names (o.sourcePath host))) :
    Exec.Keeps (Guards K W) (o.prepare host) := by
  refine Exec.Keeps.bind guards_frame (Exec.Keeps.ite (fun _ => Exec.Keeps.pure guards_frame) fun hbuild => ?_) fun _ => ?_
  · refine Exec.Keeps.bind guards_frame (Exec.Keeps.check guards_frame) fun _ => ?_
    refine Exec.Keeps.bind guards_frame (Exec.Keeps.lift guards_frame) fun _ => ?_
    exact guards_writeFile (hsource (Bool.eq_false_iff.mpr hbuild))
  refine Exec.Keeps.bind guards_frame guards_validate fun _ => ?_
  refine Exec.Keeps.bind guards_frame (Exec.Keeps.lift guards_frame) fun _ => ?_
  exact Exec.Keeps.bind guards_frame (Exec.Keeps.lift guards_frame) fun _ => Exec.Keeps.pure guards_frame

theorem createCleanup_ok : ∀ s, (o.cleanup host s).1 = .ok () := by
  intro s
  unfold SdkSnapshotCreateOptions.cleanup
  split <;> rfl

theorem keeps_createCleanup (htemp : o.ownsTemp = true → ∀ n, K n → ¬names host.madeTempDir <+: n) :
    Inodes.Keeps K s (o.cleanup host s).2 := by
  unfold SdkSnapshotCreateOptions.cleanup
  split
  · exact keeps_rm (htemp ‹_›)
  · exact Inodes.Keeps.refl

/-- A snapshot leaves the names that are there, that it does not build its image over and that it does not remove. --/
theorem keeps_createSnapshot (hK : ∀ n, K n → (s.inode n).isSome)
    (hW : truthy o.rootfsPath = false → Spares K s (names (o.sourcePath host)))
    (hdir : ∀ n, K n → ¬names (o.snapshotDir host) <+: n)
    (htemp : o.ownsTemp = true → ∀ n, K n → ¬names host.madeTempDir <+: n) :
    Inodes.Keeps K s (createSnapshot host o s).2 := by
  have hspares : ∀ p, (truthy o.rootfsPath = false ∧ p = names (o.sourcePath host)) → Spares K s p := by
    rintro p ⟨hbuild, rfl⟩
    exact hW hbuild
  obtain ⟨hstart, hspares'⟩ := guards_start host o s hK hspares
  refine keeps_frame.bind hstart fun _ u hu => ?_
  rw [hu] at hstart hspares'
  have hKu : ∀ n, K n → (u.inode n).isSome := fun n hn => hstart.inode n hn ▸ hK n hn
  have hprepare := (guards_prepare host o (fun hbuild => ⟨hbuild, rfl⟩) u hKu hspares').1
  rw [tryFinally_state createCleanup_ok]
  refine Inodes.Keeps.trans (keeps_frame.bind hprepare fun x v hv => ?_) (keeps_createCleanup htemp)
  rw [hv] at hprepare
  refine keeps_frame.bind (keeps_writeSnapshotBundle snapshotDir_absolute (fun n hn => ?_) hdir) fun _ _ _ => Inodes.Keeps.refl
  exact hprepare.inode n hn ▸ hKu n hn

/-- The call gets to `writeSnapshotBundle`. --/
def Reaches (host : Host) (o : SdkSnapshotCreateOptions) (s u : Files Content) (x : StableJson.Number × StableJson.Number) :
    Prop :=
  ∃ v, o.start host s = (.ok (), v) ∧ o.prepare host v = (.ok x, u)

theorem createSnapshot_state {x : StableJson.Number × StableJson.Number} (h : Reaches host o s u x) :
    (createSnapshot host o s).2 = (o.cleanup host (writeSnapshotBundle host (o.snapshotDir host) (o.sourcePath host)
      o.kernelPath x.1 x.2 u).2).2 := by
  obtain ⟨v, hstart, hprepare⟩ := h
  obtain ⟨memory, cpus⟩ := x
  rw [createSnapshot, Exec.bind_of_ok hstart, tryFinally_state createCleanup_ok, Exec.bind_of_ok hprepare]
  dsimp only
  rcases hb : writeSnapshotBundle host (o.snapshotDir host) (o.sourcePath host) o.kernelPath memory cpus u with ⟨e | m, w⟩
  · rw [Exec.bind_of_error hb]
  · rw [Exec.bind_of_ok hb]
    rfl

/-- A call that returns has written its bundle. --/
theorem createSnapshot_eq_ok (h : createSnapshot host o s = (.ok result, t)) : ∃ u x m v, Reaches host o s u x ∧
    writeSnapshotBundle host (o.snapshotDir host) (o.sourcePath host) o.kernelPath x.1 x.2 u = (.ok m, v) ∧
    t = (o.cleanup host v).2 := by
  have hstate := congrArg Prod.snd h
  obtain ⟨_, v, hstart, hrest⟩ := Exec.bind_eq_ok h
  obtain ⟨_, hbody⟩ := tryFinally_eq_ok hrest
  obtain ⟨x, u, hprepare, hrest₂⟩ := Exec.bind_eq_ok hbody
  obtain ⟨m, w, hbundle, -⟩ := Exec.bind_eq_ok hrest₂
  have hreaches : Reaches host o s u x := ⟨v, hstart, hprepare⟩
  refine ⟨u, x, m, w, hreaches, hbundle, hstate.symm.trans ?_⟩
  rw [createSnapshot_state hreaches, hbundle]

/-! ### The sources of a snapshot -/

theorem present_of_read {K : Names → Prop} (h : ∀ n, K n → ∃ c, s.read n = some (.file c)) : ∀ n, K n → (s.inode n).isSome := by
  intro n hn
  obtain ⟨c, hc⟩ := h n hn
  obtain ⟨i, hi, -⟩ := Option.map_eq_some_iff.mp hc
  simp [hi]

/-- The sources are there, and the temporary directory is new. --/
structure Sources (host : Host) (o : SdkSnapshotCreateOptions) (s : Files Content) (r k : Content) : Prop where
  given : truthy o.rootfsPath = true
  rootfs : s.read (names (o.sourcePath host)) = some (.file r)
  kernel : s.read (names o.kernelPath) = some (.file k)
  temp : ∀ n, names host.madeTempDir <+: n → s.inode n = none

/-- The sources have the content that they had. --/
def Kept (host : Host) (o : SdkSnapshotCreateOptions) (t : Files Content) (r k : Content) : Prop :=
  t.read (names (o.sourcePath host)) = some (.file r) ∧ t.read (names o.kernelPath) = some (.file k)

/-- The directory of the bundle is not a source and not above one. --/
def Clear (host : Host) (o : SdkSnapshotCreateOptions) : Prop :=
  ¬names (o.snapshotDir host) <+: names (o.sourcePath host) ∧ ¬names (o.snapshotDir host) <+: names o.kernelPath

theorem Sources.keeps (h : Sources host o s r k) : Inodes.Keeps
    (fun n => n = names (o.sourcePath host) ∨ n = names o.kernelPath) s t → Kept host o t r k := fun hkeeps =>
  ⟨(hkeeps.read (Or.inl rfl)).trans h.rootfs, (hkeeps.read (Or.inr rfl)).trans h.kernel⟩

theorem Sources.present (h : Sources host o s r k) :
    ∀ n, (n = names (o.sourcePath host) ∨ n = names o.kernelPath) → (s.inode n).isSome := by
  refine present_of_read ?_
  rintro n (rfl | rfl)
  · exact ⟨r, h.rootfs⟩
  · exact ⟨k, h.kernel⟩

theorem Sources.not_temp (h : Sources host o s r k) :
    ∀ n, (n = names (o.sourcePath host) ∨ n = names o.kernelPath) → ¬names host.madeTempDir <+: n := fun n hn htemp => by
  have hsome := h.present n hn
  rw [h.temp n htemp] at hsome
  cases hsome

/-- A snapshot keeps its sources when its directory is clear of them. --/
theorem kept_of_clear (h : Sources host o s r k) (hclear : Clear host o) : Kept host o (createSnapshot host o s).2 r k := by
  refine h.keeps (keeps_createSnapshot h.present (fun hbuild => ?_) ?_ fun _ => h.not_temp)
  · rw [h.given] at hbuild
    cases hbuild
  · rintro n (rfl | rfl)
    · exact hclear.1
    · exact hclear.2

/-- What the call is to work on when it gets to `writeSnapshotBundle`. --/
theorem Sources.reached {x : StableJson.Number × StableJson.Number} (h : Sources host o s r k)
    (hreaches : Reaches host o s u x) : Kept host o u r k := by
  obtain ⟨v, hstart, hprepare⟩ := hreaches
  have hguard := guards_frame.trans
    ((guards_start (K := fun n => n = names (o.sourcePath host) ∨ n = names o.kernelPath) (W := fun _ => False)
      host o).of_eq hstart)
    ((guards_prepare host o fun hbuild => by rw [h.given] at hbuild; cases hbuild).of_eq hprepare)
  exact h.keeps (hguard h.present fun _ hf => hf.elim).1

/-- A call that gets as far as the bundle loses a source that is in the directory. --/
theorem clear_of_kept {x : StableJson.Number × StableJson.Number} (h : Sources host o s r k) (hne : r ≠ k)
    (hreaches : Reaches host o s u x) (hkept : Kept host o (createSnapshot host o s).2 r k) : Clear host o := by
  have hread : ∀ {n : Names} {c : Content} {v : Files Content}, (o.cleanup host v).2.read n = some (.file c) →
      v.read n = some (.file c) := by
    intro n c v hn
    unfold SdkSnapshotCreateOptions.cleanup at hn
    split at hn
    · obtain ⟨i, hi, hc⟩ := Option.map_eq_some_iff.mp hn
      have hi := (Option.ite_none_left_eq_some.mp hi).2
      exact Option.map_eq_some_iff.mpr ⟨i, hi, hc⟩
    · exact hn
  rw [createSnapshot_state hreaches] at hkept
  have hrkept := hread hkept.1
  have hout : ¬names (o.snapshotDir host) <+: names (o.sourcePath host) := by
    intro hin
    rcases rootfs_lost host o.kernelPath x.1 x.2 (s := u) hin with
      hnone | hdir
    · cases hnone.symm.trans hrkept
    · cases hdir.symm.trans hrkept
  refine ⟨hout, fun hin => hne ?_⟩
  exact (kernel_lost snapshotDir_absolute hin hout (h.reached hreaches).1 (hread hkept.2)).symm

/-- A call that fails before the bundle removes nothing but its temporary directory. --/
theorem kept_of_not_reaches (h : Sources host o s r k) (hnot : ∀ u x, ¬Reaches host o s u x) :
    Kept host o (createSnapshot host o s).2 r k := by
  have hstart := (guards_start (K := fun n => n = names (o.sourcePath host) ∨ n = names o.kernelPath)
    (W := fun _ => False) host o) s
  rcases hs : o.start host s with ⟨e | _, v⟩
  · rw [hs] at hstart
    rw [createSnapshot, Exec.bind_of_error hs]
    exact h.keeps (hstart h.present fun _ hf => hf.elim).1
  rw [hs] at hstart
  have hprepare := guards_frame.trans hstart ((guards_prepare host o
    fun hbuild => by rw [h.given] at hbuild; cases hbuild) v)
  rcases hp : o.prepare host v with ⟨e | x, u⟩
  · rw [hp] at hprepare
    rw [createSnapshot, Exec.bind_of_ok hs, tryFinally_state createCleanup_ok, Exec.bind_of_error hp]
    exact h.keeps ((hprepare h.present fun _ hf => hf.elim).1.trans (keeps_createCleanup fun _ => h.not_temp))
  · exact absurd ⟨v, hs, hp⟩ (hnot u x)

theorem sources_kept_iff (h : Sources host o s r k) (hne : r ≠ k) :
    Kept host o (createSnapshot host o s).2 r k ↔ (∀ u x, ¬Reaches host o s u x) ∨ Clear host o := by
  refine ⟨fun hkept => ?_, ?_⟩
  · by_cases hreaches : ∃ u x, Reaches host o s u x
    · obtain ⟨u, x, hreaches⟩ := hreaches
      exact Or.inr (clear_of_kept h hne hreaches hkept)
    · exact Or.inl fun u x hr => hreaches ⟨u, x, hr⟩
  · rintro (hnot | hclear)
    · exact kept_of_not_reaches h hnot
    · exact kept_of_clear h hclear

end

/-! ### Histories -/

/-- The paths that a restore writes to. --/
def SdkSnapshotRestoreOptions.writes (host : Host) (o : SdkSnapshotRestoreOptions) : List Text :=
  (if truthy o.overlayPath then resolvePath host.cwd (o.overlayPath.getD [])
    else PosixPath.join host.madeOverlayDir (orElse o.id host.randomId ++ ".restore.overlay".toList)) ::
    (o.attachDisks.filter fun disk => !disk.isReadonly).map fun disk => resolvePath host.cwd disk.path

namespace Event

/-- The paths that an operation writes to in place. --/
def writes : Event → List Text
  | .write path _ => [path]
  | .rename .. | .remove _ => []
  | .run host o => o.writes host
  | .create host o => if truthy o.rootfsPath then [] else [o.sourcePath host]
  | .restore host o => o.writes host

/-- The paths that an operation removes with all that is below them. --/
def removes : Event → List Text
  | .write .. | .rename .. => []
  | .remove path => [path]
  | .run host _ | .restore host _ => [host.madeOverlayDir]
  | .create host o => o.snapshotDir host :: if o.ownsTemp then [host.madeTempDir] else []

def renames : Event → List Text
  | .rename path target => [path, target]
  | .write .. | .remove _ | .run .. | .create .. | .restore .. => []

end Event

/-- The operation is not on the bundle: it removes and renames none of its files, and it writes in place to none of
    them, under whatever name. --/
structure Harmless (dir : Names) (s : Files Content) (e : Event) : Prop where
  writes : ∀ p ∈ e.writes, Spares (Bundle dir) s (names p)
  removes : ∀ p ∈ e.removes, ∀ n, Bundle dir n → ¬names p <+: n
  renames : ∀ p ∈ e.renames, ¬Bundle dir (names p)

section
variable {dir : Names} {s t u : Files Content} {r k : Content} {e : Event} {es : List Event} {host : Host}
  {o : SdkSnapshotRestoreOptions} {b : Booted}

theorem readSnapshotManifest_state (snapshotDir : Text) : (readSnapshotManifest snapshotDir s).2 = s := by
  unfold readSnapshotManifest
  refine Exec.bind_still (Q := (· = s)) readFile_state rfl fun content _ => ?_
  rcases content.manifest with _ | m
  · rfl
  · exact Exec.bind_still (Q := (· = s)) rfl rfl fun _ _ => rfl

theorem keeps_restoreSnapshot (hK : ∀ n, Bundle dir n → (s.inode n).isSome) (h : Harmless dir s (.restore host o)) :
    Inodes.Keeps (Bundle dir) s (restoreSnapshot host o s).2 := by
  refine Exec.bind_still (readSnapshotManifest_state _) Inodes.Keeps.refl fun m _ => ?_
  exact keeps_runImage hK h.writes (h.removes _ List.mem_cons_self)

/-- A harmless operation keeps the files of a bundle. --/
theorem step_keeps (hK : ∀ n, Bundle dir n → (s.inode n).isSome) (h : Harmless dir s e) (hstep : step s e = some t) :
    Inodes.Keeps (Bundle dir) s t := by
  cases e with
  | write path content =>
    cases hstep
    exact keeps_writeFile (h.writes _ List.mem_cons_self)
  | rename path target =>
    cases hstep
    exact keeps_rename (h.renames _ List.mem_cons_self) (h.renames _ (List.mem_cons_of_mem _ List.mem_cons_self))
  | remove path =>
    cases hstep
    exact keeps_rm (h.removes _ List.mem_cons_self)
  | run host o =>
    cases hstep
    exact keeps_runImage hK h.writes (h.removes _ List.mem_cons_self)
  | create host o =>
    cases hstep
    refine keeps_createSnapshot hK (fun hbuild => h.writes _ ?_) (h.removes _ List.mem_cons_self) fun htemp => ?_
    · simp [Event.writes, hbuild]
    · exact h.removes _ (by simp [Event.removes, htemp])
  | restore host o =>
    cases hstep
    exact keeps_restoreSnapshot hK h

theorem run_holds (h : Holds dir r k s) (hrun : Runs.Under step (Harmless dir) s es t) : Holds dir r k t :=
  hrun.invariant (P := Holds dir r k) (fun _ _ _ hs hok hstep => hs.of_keeps (step_keeps hs.present hok hstep)) h

/-- What a restore of the bundle boots. --/
theorem restore_boots (h : Holds dir r k s) (hdir : names (resolvePath host.cwd o.snapshot) = dir)
    (hok : Harmless dir s (.restore host o)) (hrun : restoreSnapshot host o s = (.ok b, t)) : b.kernel = k ∧ b.rootfs = r := by
  have habs : PosixPath.isAbsolute (resolvePath host.cwd o.snapshot) = true := RootfsCache.resolvePath_absolute
  obtain ⟨m, u, hm, hrest⟩ := Exec.bind_eq_ok hrun
  have hu := readSnapshotManifest_state (s := s) (resolvePath host.cwd o.snapshot)
  rw [hm] at hu
  obtain rfl : u = s := hu
  obtain ⟨data, memory, cpus, now, hmanifest⟩ := h.manifest
  have hbundle : m = bundleManifest now memory cpus := by
    obtain ⟨content, v, hread, hmatch⟩ := Exec.bind_eq_ok hm
    rw [names_join habs (by decide), hdir, readFile_of_read hmanifest] at hread
    cases hread
    obtain ⟨_, w, hcheck, hret⟩ := Exec.bind_eq_ok hmatch
    cases hret
    rfl
  subst hbundle
  have hpath : ∀ c, PosixPath.IsName c → PosixPath.isAbsolute c = false →
      names (resolvePath host.cwd (resolvePath (resolvePath host.cwd o.snapshot) c)) = dir ++ [c] := by
    intro c hc hrel
    have habs' : PosixPath.isAbsolute (resolvePath (resolvePath host.cwd o.snapshot) c) = true :=
      RootfsCache.resolvePath_absolute
    rw [show resolvePath host.cwd (resolvePath (resolvePath host.cwd o.snapshot) c) =
      resolvePath (resolvePath host.cwd o.snapshot) c from if_pos habs', names_resolvePath habs hc hrel, hdir]
  have hkpath := hpath kernelName (by decide) rfl
  have hrpath := hpath rootfsName (by decide) rfl
  refine runImage_boots (K := Bundle dir) (o := o.runOptions (resolvePath host.cwd o.snapshot) _) h.present hok.writes
    ?_ ?_ ?_ ?_ hrest
  · exact hkpath ▸ Or.inr (Or.inl rfl)
  · exact hrpath ▸ Or.inl rfl
  · exact (congrArg u.read hkpath).trans h.kernel
  · exact (congrArg u.read hrpath).trans h.rootfs

/-- A restore boots these files, and no restore changes them. --/
def Restores (dir : Names) (r k : Content) (s : Files Content) : Prop :=
  Holds dir r k s ∧ ∀ host o, names (resolvePath host.cwd o.snapshot) = dir → Harmless dir s (.restore host o) →
    (∀ b t, restoreSnapshot host o s = (.ok b, t) → b.kernel = k ∧ b.rootfs = r) ∧
      Holds dir r k (restoreSnapshot host o s).2

theorem restores_of_holds (h : Holds dir r k s) : Restores dir r k s := by
  refine ⟨h, fun host o hdir hok => ⟨fun b t hrun => restore_boots h hdir hok hrun, ?_⟩⟩
  exact h.of_keeps (keeps_restoreSnapshot h.present hok)

/-- The bundle of a call that returned. --/
theorem holds_of_create {o : SdkSnapshotCreateOptions} {result : SdkRunResult}
    (h : createSnapshot host o s = (.ok result, t))
    (htemp : ∀ n, Bundle (names (o.snapshotDir host)) n → ¬names host.madeTempDir <+: n)
    (hr : t.read (names (o.snapshotDir host) ++ [rootfsName]) = some (.file r))
    (hk : t.read (names (o.snapshotDir host) ++ [kernelName]) = some (.file k)) :
    Holds (names (o.snapshotDir host)) r k t := by
  obtain ⟨u, x, m, v, -, hbundle, rfl⟩ := createSnapshot_eq_ok h
  refine ⟨hr, hk, host.stringify (bundleManifest host.now x.1 x.2), x.1, x.2, host.now, ?_⟩
  have hclean : Inodes.Keeps (Bundle (names (o.snapshotDir host))) v (o.cleanup host v).2 :=
    keeps_createCleanup fun _ => htemp
  refine (hclean.read (Or.inr (Or.inr rfl))).trans ?_
  rcases writeSnapshotBundle_cases host (o.snapshotDir host) (o.sourcePath host) o.kernelPath x.1 x.2 u with ⟨e, heq⟩ | heq
  · cases heq.symm.trans hbundle
  · exact (manifest_of_fillBundle snapshotDir_absolute emptied_below_all (heq.symm.trans hbundle)).2

/-- The bundle of a call that returned is made of the sources, if its directory is clear of them. --/
theorem created_of_sources {o : SdkSnapshotCreateOptions} {result : SdkRunResult} (hsources : Sources host o s r k)
    (hclear : Clear host o) (h : createSnapshot host o s = (.ok result, t))
    (htemp : ∀ n, Bundle (names (o.snapshotDir host)) n → ¬names host.madeTempDir <+: n) :
    t.read (names (o.snapshotDir host) ++ [rootfsName]) = some (.file r) ∧
      t.read (names (o.snapshotDir host) ++ [kernelName]) = some (.file k) := by
  obtain ⟨u, x, m, v, hreaches, hbundle, rfl⟩ := createSnapshot_eq_ok h
  have hkept := hsources.reached hreaches
  obtain ⟨hr, hk⟩ := bundle_of_sources snapshotDir_absolute hkept.1 hkept.2 hclear.1 hclear.2 hbundle
  have hclean : Inodes.Keeps (Bundle (names (o.snapshotDir host))) v (o.cleanup host v).2 :=
    keeps_createCleanup fun _ => htemp
  exact ⟨(hclean.read (Or.inl rfl)).trans hr, (hclean.read (Or.inr (Or.inl rfl))).trans hk⟩

end

/-! ### Snapshots -/

def sampleHost : Host where
  cwd := "/".toList
  capabilities := ⟨1, 64, 64, false⟩
  randomId := "vm".toList
  madeTempDir := "/tmp".toList
  madeOverlayDir := "/overlay".toList
  now := "now".toList
  stringify _ := []
  linkable _ _ := true
  build := .error "no image"
  guest _ _ := ⟨[2], none⟩

def sampleDisk : Files Content :=
  ((root.create ["img".toList] .directory).create ["img".toList, "base.ext4".toList] (.file ⟨[1], none⟩)).create
    ["vmlinux".toList] (.file ⟨[0], none⟩)

def sampleCreate (output : Text) : SdkSnapshotCreateOptions where
  rootfsPath := some "/img/base.ext4".toList
  kernelPath := "/vmlinux".toList
  output := output

/-- The disk is run in place after the snapshot. --/
def sampleRun : SdkRunOptions where
  rootfsPath := "/img/base.ext4".toList
  kernelPath := "/vmlinux".toList

end NodeVmm.Snapshot
