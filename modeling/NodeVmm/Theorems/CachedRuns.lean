import NodeVmm.Lib.Runs
import NodeVmm.Theorems.RootfsCache

/-! What runs leave of the cache of root filesystems, and which disks their machines open. A run changes a cached file
    only through a path that it was given, and it stores a wrong one only through a download that its options would
    have changed. -/

namespace NodeVmm.RootfsCache
open StableJson Exec

variable {Tree : Type}

/-! ### Careful runs -/

/-- What a run is not to do to the cache. --/
structure Careful (sc : Scope Tree) (r : Run Tree) : Prop where
  /-- The options are in the scope, and their console is that of the file they share. --/
  cached : truthy r.options.rootfsPath = false → r.isCacheable = true → sc.texts (sc.machine.rootfsCacheText r.options) ∧
    sc.machine.installsConsole r.buildInput.initMode =
      sc.console (cachedPath r.cacheDir (sc.machine.rootfsCacheKey r.options))
  /-- They add nothing to a root filesystem that is downloaded. --/
  download : truthy r.options.rootfsPath = false → r.isCacheable = true → PlainDownload sc.machine r.buildInput
  /-- The files that the run writes or removes are not in the cache. --/
  output : (truthy r.options.rootfsPath = false ∧ r.isCacheable = false) ∨
    (truthy r.options.tempDir = false ∧ r.options.keepRootfs = false) → ¬IsCacheFile r.outputPath
  overlay : ¬IsCacheFile r.overlayPath
  disk : truthy r.options.diskPath = true → ¬IsCacheFile r.diskPath
  attached : ∀ disk ∈ r.options.attachDisks, disk.isReadonly = false → ¬IsCacheFile (resolvePath r.cwd disk.path)
  /-- A root disk that is given and neither copied nor under an overlay is not in the cache. --/
  rootfs : truthy r.options.rootfsPath = true → truthy r.options.diskPath = false → truthy r.options.persist = false →
    restoreEnabled r.options ≠ .ok true → ¬IsCacheFile r.givenRootfs

/-- A root disk that is a file of the cache gets an overlay. --/
def RootSafe (r : Run Tree) (p : PreparedRootDisk) : Prop :=
  IsCacheFile p.rootfsPath → p.persistent = false ∧ (p.fromCache = true ∨ restoreEnabled r.options = .ok true)

theorem Careful.usable {sc : Scope Tree} {r : Run Tree} {source : Source} (hr : Careful sc r) (hgiven : truthy r.options.rootfsPath = false)
    (hsource : isCacheableOciRootfs r.buildInput source.dockerfile = r.isCacheable) :
    Run.Usable sc r.buildInput source r.outputPath r.cacheDir where
  output hnot := hr.output (.inl ⟨hgiven, hsource.symm.trans hnot⟩)
  cached hc := by
    obtain ⟨htext, hconsole⟩ := hr.cached hgiven (hsource.symm.trans hc)
    exact ⟨hc, htext, ⟨_, resolvePath_absolute, rfl⟩, hconsole⟩
  download hc := hr.download hgiven (hsource.symm.trans hc)

/-! ### Preparing the disk -/

namespace Run
variable {r : Run Tree} {sc : Scope Tree} {h : Machine Tree} {op : Operation} {s t : Store Tree} {b : Text}
  {P : Text → Prop} {R : Store Tree → Store Tree → Prop}

theorem kept_baseRootfs (hsha : sc.NoCollision) (hrel : sc.machine.Released) (hr : Careful sc r) :
    Keeps (fun s t => CacheKept sc s t) (r.baseRootfs sc.machine op) := by
  have hF : Frame fun s t : Store Tree => CacheKept sc s t := cacheKept_frame
  refine Keeps.ite (fun _ => Keeps.pure hF) fun hgiven => Keeps.bind hF (Keeps.check hF) fun _ => ?_
  refine Keeps.bind_of hF (fun s => (keeps_resolveSourceContext sameCache_puts s).kept) fun s source t hsource => ?_
  have hcacheable := returns_resolveSourceContext s source t hsource
  exact kept_buildOrReuseRootfs hsha hrel resolvePath_absolute (hr.usable (Bool.eq_false_iff.mpr hgiven) hcacheable)

theorem keeps_materializeExplicitDisk (hR : Puts P R) (hdisk : P r.diskPath)
    (htmp : P (r.diskPath ++ ".tmp-".toList ++ r.unique)) : Keeps R (r.materializeExplicitDisk b) := by
  have hF := hR.toFrame
  refine Keeps.bind hF (Keeps.get hF) fun s => ?_
  have hlast : ∀ createdResized : Bool, Keeps R (do
      let resized := (← r.ensureDiskSizeAtLeast .statDisk .truncateDisk r.diskPath (chosenDiskMiB r.options)) || createdResized
      return (⟨resized, !(s.files r.diskPath).isSome || r.options.reset⟩ : MaterializedDisk)) := fun _ =>
    Keeps.bind hF (keeps_ensure hR hdisk) fun _ => Keeps.pure hF
  refine Keeps.ite (fun _ => ?_) fun _ => Keeps.bind hF (Keeps.pure hF) hlast
  refine Keeps.bind hF (keeps_attempt hR) fun _ => Keeps.bind hF (Keeps.tryCatch hF ?_ fun _ => ?_) hlast
  · refine Keeps.bind hF (Keeps.get hF) fun _ => Keeps.bind hF (keeps_write hR htmp) fun _ => ?_
    refine Keeps.bind hF (keeps_ensure hR htmp) fun _ => Keeps.bind hF (keeps_rm hR hdisk) fun _ => ?_
    exact Keeps.bind hF (keeps_rename hR htmp hdisk) fun _ => Keeps.pure hF
  · exact Keeps.bind hF (Keeps.tryCatch hF (keeps_rm hR htmp) fun _ => Keeps.pure hF) fun _ => Keeps.throw hF

theorem not_isCacheFile_diskTmp : ¬IsCacheFile (r.diskPath ++ ".tmp-".toList ++ r.unique) := by
  rw [List.append_assoc]
  refine not_isCacheFile_of_dash ?_ (List.mem_append_left _ (by decide))
  rw [List.mem_append, not_or]
  exact ⟨by decide, r.unique_name⟩

theorem sameCache_materializePersistentDisk :
    Keeps (fun s t => SameCache s t) (r.materializePersistentDisk h b) := fun _ _ _ => rfl

theorem kept_prepareRunRootDisk (hsha : sc.NoCollision) (hrel : sc.machine.Released) (hr : Careful sc r) :
    Keeps (fun s t => CacheKept sc s t) (r.prepareRunRootDisk sc.machine op) := by
  have hF : Frame fun s t : Store Tree => CacheKept sc s t := cacheKept_frame
  have hsame : Puts (fun p => ¬IsCacheFile p) fun s t : Store Tree => SameCache s t := sameCache_puts
  refine Keeps.bind hF (Keeps.lift hF) fun _ => Keeps.bind hF (Keeps.lift hF) fun _ => Keeps.bind hF (Keeps.get hF) fun u => ?_
  refine Keeps.ite (fun hexists => ?_) fun _ => Keeps.bind hF (Keeps.check hF) fun _ => ?_
  · have hdisk : truthy r.options.diskPath = true := by
      simp only [Bool.and_eq_true] at hexists
      exact hexists.1.1
    exact Keeps.bind hF (fun s => (keeps_ensure hsame (hr.disk hdisk) s).kept) fun _ => Keeps.pure hF
  refine Keeps.bind hF (kept_baseRootfs hsha hrel hr) fun base => Keeps.ite (fun hdisk => ?_) fun _ =>
    Keeps.ite (fun _ => ?_) fun _ => Keeps.pure hF
  · exact Keeps.bind hF (fun s => (keeps_materializeExplicitDisk hsame (hr.disk hdisk) not_isCacheFile_diskTmp s).kept)
      fun _ => Keeps.pure hF
  · exact Keeps.bind hF (fun s => (sameCache_materializePersistentDisk s).kept) fun _ => Keeps.pure hF

theorem returns_materializePersistentDisk : Returns (fun v => ¬IsCacheFile v.rootfsPath) (r.materializePersistentDisk h b) := by
  intro s v t hrun
  rw [materializePersistentDisk_apply] at hrun
  obtain ⟨hv, -⟩ := Prod.mk.inj hrun
  have hcall : r.named h b s = (.ok v, (r.named h b s).2) := Prod.ext hv rfl
  rw [PersistentDisk.path_of_ok hcall]
  exact not_isCacheFile_named resolvePath_absolute (PersistentDisk.validName_of_ok hcall)

theorem returns_prepareRunRootDisk (hr : Careful sc r) : Returns (RootSafe r) (r.prepareRunRootDisk sc.machine op) := by
  refine Returns.bind fun _ => Returns.bind fun _ => Returns.bind fun u => ?_
  refine Returns.ite (fun hexists => ?_) fun _ => Returns.bind fun _ => ?_
  · have hdisk : truthy r.options.diskPath = true := by
      simp only [Bool.and_eq_true] at hexists
      exact hexists.1.1
    exact Returns.bind fun _ => Returns.pure fun hfile => absurd hfile (hr.disk hdisk)
  refine Returns.bind_of returns_baseRootfs fun base hbase => Returns.ite (fun hdisk => ?_) fun hdisk => ?_
  · exact Returns.bind fun _ => Returns.pure fun hfile => absurd hfile (hr.disk hdisk)
  refine Returns.ite (fun _ => ?_) fun hpersist => Returns.pure fun hfile => ⟨rfl, ?_⟩
  · exact Returns.bind_of returns_materializePersistentDisk fun v hv => Returns.pure fun hfile => absurd hfile hv
  obtain ⟨hpath, hcache⟩ := hbase
  cases hgiven : truthy r.options.rootfsPath with
  | true =>
    right
    by_contra hrestore
    refine hr.rootfs hgiven (Bool.eq_false_iff.mpr hdisk) (Bool.eq_false_iff.mpr hpersist) hrestore ?_
    rw [basePath, if_pos hgiven] at hpath
    exact hpath ▸ hfile
  | false =>
    left
    cases hcacheable : r.isCacheable with
    | true => rw [show base.fromCache = _ from hcache, hgiven, hcacheable]; rfl
    | false =>
      refine absurd hfile (hpath ▸ ?_)
      rw [basePath, if_neg (Bool.eq_false_iff.mp hgiven), if_neg (Bool.eq_false_iff.mp hcacheable)]
      exact hr.output (.inl ⟨hgiven, hcacheable⟩)

/-! ### The disks of the machine -/

/-- A disk that the machine writes to is not in the cache. --/
theorem attached_not_isCacheFile {attached : List AttachedDisk} {d : AttachedDisk} (hr : Careful sc r)
    (hattached : resolveAttachedDisks r.cwd r.options.attachDisks 0 = .ok attached) (hd : d ∈ attached)
    (hwritable : d.isReadonly = false) : ¬IsCacheFile d.path := by
  obtain ⟨disk, hmem, hpath, hreadonly⟩ := resolveAttachedDisks_mem hattached hd
  rw [hpath]
  exact hr.attached disk hmem (hreadonly.symm.trans hwritable)

theorem root_not_isCacheFile {prepared : PreparedRootDisk} {restore : Bool} (hp : RootSafe r prepared)
    (hrestore : restoreEnabled r.options = .ok restore)
    (hnone : ¬(restore || (prepared.fromCache && !prepared.persistent)) = true) : ¬IsCacheFile prepared.rootfsPath := by
  intro hfile
  obtain ⟨hpersistent, hcache | hon⟩ := hp hfile
  · rw [hcache, hpersistent] at hnone
    exact hnone (Bool.or_true _)
  · cases hrestore.symm.trans hon
    exact hnone rfl

theorem sameCache_writeRoot {prepared : PreparedRootDisk} {overlay : Option Text}
    (hoverlay : ∀ f, overlay = some f → ¬IsCacheFile f) (hroot : overlay = none → ¬IsCacheFile prepared.rootfsPath) :
    Keeps (fun s t => SameCache s t) (r.writeRoot prepared overlay) := by
  have hwrite : ∀ {f}, ¬IsCacheFile f → Keeps (fun s t => SameCache s t) (r.writeDisk f) := fun hf =>
    Keeps.modify fun s => sameCache_puts.put _ hf s _
  unfold writeRoot
  split
  · exact hwrite (hoverlay _ rfl)
  · split
    · refine Keeps.modify fun s p _ => ?_
      split <;> rfl
    · exact hwrite (hroot rfl)

theorem sameCache_startPrepared {prepared : PreparedRootDisk} (hr : Careful sc r) (hp : RootSafe r prepared) :
    Keeps (fun s t => SameCache s t) (r.startPrepared prepared) := by
  have hsame : Puts (fun p => ¬IsCacheFile p) fun s t : Store Tree => SameCache s t := sameCache_puts
  have hF := hsame.toFrame
  refine Keeps.bind_of hF (Keeps.lift hF) fun s attached t hattached => ?_
  have hattached := (lift_eq_ok hattached).1
  refine Keeps.bind hF (Keeps.get hF) fun u => Keeps.bind hF (Keeps.forM hF fun disk _ => Keeps.check hF) fun _ => ?_
  refine Keeps.bind_of hF (Keeps.lift hF) fun v restore w hrestore => Keeps.bind hF (keeps_attempt hsame) fun _ => ?_
  have hrestore := (lift_eq_ok hrestore).1
  refine Keeps.bind hF (Keeps.bind hF (sameCache_writeRoot ?_ ?_) fun _ => ?_) fun _ => Keeps.pure hF
  · intro f hf
    split at hf
    · cases hf
      exact hr.overlay
    · cases hf
  · intro hnone
    split at hnone
    · cases hnone
    · exact root_not_isCacheFile hp hrestore (by assumption)
  · refine Keeps.bind hF (Keeps.forM hF fun disk hdisk => Keeps.ite (fun _ => Keeps.pure hF) fun hwritable => ?_) fun _ =>
      keeps_attempt hsame
    exact Keeps.modify fun s => hsame.put _
      (attached_not_isCacheFile hr hattached hdisk (Bool.eq_false_iff.mpr hwritable)) s _

/-- No disk of the machine that it writes to without an overlay is in the cache. --/
theorem disks_of_startPrepared {prepared : PreparedRootDisk} (hr : Careful sc r) (hp : RootSafe r prepared) :
    Returns (fun disks => ∀ d ∈ disks, d.overlayPath = none → d.isReadonly = false → ¬IsCacheFile d.path)
      (r.startPrepared prepared) := by
  intro s disks t hrun
  obtain ⟨attached, u, hattached, hafter⟩ := bind_eq_ok hrun
  have hattached := (lift_eq_ok hattached).1
  obtain ⟨_, v, -, hchecked⟩ := bind_eq_ok hafter
  obtain ⟨_, w, -, hoverlay⟩ := bind_eq_ok hchecked
  obtain ⟨restore, x, hrestore, hruntime⟩ := bind_eq_ok hoverlay
  have hrestore := (lift_eq_ok hrestore).1
  obtain ⟨_, y, -, hboot⟩ := bind_eq_ok hruntime
  obtain ⟨_, z, -, hreturn⟩ := bind_eq_ok hboot
  cases hreturn
  intro d hd hnone hwritable
  rcases List.mem_cons.mp hd with rfl | hd
  · dsimp only at hnone
    split at hnone
    · cases hnone
    · exact root_not_isCacheFile hp hrestore (by assumption)
  · obtain ⟨disk, hdisk, rfl⟩ := List.mem_map.mp hd
    exact attached_not_isCacheFile hr hattached hdisk hwritable

theorem sameCache_cleanup (hr : Careful sc r) : Keeps (fun s t => SameCache s t) r.cleanup := by
  have hsame : Puts (fun p => ¬IsCacheFile p) fun s t : Store Tree => SameCache s t := sameCache_puts
  have hF := hsame.toFrame
  refine Keeps.bind hF (Keeps.ite (fun _ => keeps_put hsame hr.overlay) fun _ => Keeps.pure hF) fun _ => ?_
  refine Keeps.ite (fun hmade => keeps_put hsame (hr.output (.inr ?_))) fun _ => Keeps.pure hF
  simpa using hmade

theorem kept_runImage (hsha : sc.NoCollision) (hrel : sc.machine.Released) (hr : Careful sc r) :
    Keeps (fun s t => CacheKept sc s t) (r.runImage sc.machine op) := by
  have hF : Frame fun s t : Store Tree => CacheKept sc s t := cacheKept_frame
  have hcleanup : Keeps (fun s t => CacheKept sc s t) r.cleanup := fun s => (sameCache_cleanup hr s).kept
  refine Keeps.bind hF (Keeps.lift hF) fun _ => Keeps.bind hF (Keeps.tryCatch hF ?_ fun _ => ?_) fun _ =>
    Keeps.bind hF hcleanup fun _ => Keeps.pure hF
  · refine Keeps.bind_of hF (kept_prepareRunRootDisk hsha hrel hr) fun s prepared t hprepare => ?_
    exact fun u => (sameCache_startPrepared hr (returns_prepareRunRootDisk hr _ _ _ hprepare) u).kept
  · exact Keeps.bind hF hcleanup fun _ => Keeps.throw hF

theorem disks_of_runImage (hr : Careful sc r) :
    Returns (fun disks => ∀ d ∈ disks, d.overlayPath = none → d.isReadonly = false → ¬IsCacheFile d.path)
      (r.runImage sc.machine op) := by
  intro s disks t hrun
  obtain ⟨_, u, -, hafter⟩ := bind_eq_ok hrun
  obtain ⟨started, v, hstart, hlast⟩ := bind_eq_ok hafter
  obtain ⟨_, w, -, hreturn⟩ := bind_eq_ok hlast
  cases hreturn
  obtain ⟨prepared, x, hprepare, hmachine⟩ := bind_eq_ok (tryCatch_rethrow_eq_ok hstart)
  exact disks_of_startPrepared hr (returns_prepareRunRootDisk hr _ _ _ hprepare) _ _ _ hmachine

end Run

/-! ### Runs -/

/-- One run, whether it returns or throws. --/
def runStep (h : Machine Tree) (s : Store Tree) (e : Operation × Run Tree) : Option (Store Tree) :=
  some (e.2.runImage h e.1 s).2

/-- The cache does what it is for. --/
structure Correct (sc : Scope Tree) (s : Store Tree) : Prop where
  /-- A file under the key of options is what they build. --/
  stored : Good sc s
  /-- So is the file that a call returns. --/
  returned : ∀ (r : Run Tree) (o : SdkRunOptions) (source : Source) (output cacheDir : Text) (b : BuiltRootfs)
    (t : Store Tree), PosixPath.isAbsolute cacheDir = true → isCacheableOciRootfs o source.dockerfile = true →
    Run.Usable sc o source output cacheDir → r.buildOrReuseRootfs sc.machine o source output cacheDir s = (.ok b, t) →
    ∃ f, t.files b.rootfsPath = some f ∧ sc.machine.builtRootfs (Run.buildOptions sc.machine o source) = some f
  /-- Options with one key and one console build the same. --/
  keys : ∀ (o o' : SdkRunOptions) (source source' : Source), isCacheableOciRootfs o source.dockerfile = true →
    isCacheableOciRootfs o' source'.dockerfile = true → sc.texts (sc.machine.rootfsCacheText o) →
    sc.texts (sc.machine.rootfsCacheText o') → sc.machine.rootfsCacheKey o = sc.machine.rootfsCacheKey o' →
    sc.machine.installsConsole o.initMode = sc.machine.installsConsole o'.initMode →
    sc.machine.builtRootfs (Run.buildOptions sc.machine o source) =
      sc.machine.builtRootfs (Run.buildOptions sc.machine o' source')
  /-- A further run leaves the files as they are. --/
  kept : ∀ (op : Operation) (r : Run Tree), Careful sc r → ∀ p f, IsCacheFile p → s.files p = some f →
    (r.runImage sc.machine op s).2.files p = some f
  /-- Its machine writes to none of them but under an overlay. --/
  disks : ∀ (op : Operation) (r : Run Tree), Careful sc r → ∀ disks t, r.runImage sc.machine op s = (.ok disks, t) →
    ∀ d ∈ disks, d.overlayPath = none → d.isReadonly = false → ¬IsCacheFile d.path

section
variable {sc : Scope Tree} {s t : Store Tree} {es : List (Operation × Run Tree)}

theorem correct_of_good (hsha : sc.NoCollision) (hrel : sc.machine.Released) (hs : Good sc s) : Correct sc s where
  stored := hs
  returned r o source output cacheDir b t habs hc hu hrun := by
    have hkept := Run.kept_buildOrReuseRootfs (r := r) hsha hrel habs hu s
    rw [hrun] at hkept
    obtain ⟨f, hf⟩ := Option.isSome_iff_exists.mp (Run.buildOrReuseRootfs_ok habs hc hrun)
    refine ⟨f, hf, hkept.good hs _ f o source hf ?_⟩
    rw [(Run.returns_buildOrReuseRootfs s b t hrun).1, if_pos hc]
    exact hu.cached hc
  keys o o' source source' hc hc' htext htext' hkey hconsole :=
    builtRootfs_congr hc hc' (hsha _ _ htext htext' hkey) hconsole
  kept op r hr p f hp hf := ((Run.kept_runImage hsha hrel hr : Keeps _ (r.runImage _ op)) s).stays p f hp hf
  disks op r hr disks t hrun := Run.disks_of_runImage hr s disks t hrun

end

/-! ### A release -/

/-- The digests of the texts that the runs below hash. --/
def releaseDigests : Digests where
  known := [
    ("\x7b\"buildArgs\":\x7b\x7d,\"diskMiB\":2048,\"dockerfileRunTimeoutMs\":undefined,\"entrypoint\":undefined,\"env\":\x7b\x7d".toList,
      "cb8af7dc828b46aa53b1940d6bacba3751e67122ecb17d37a2938e217bbfef3c".toList),
    ("\x7b\"buildArgs\":\x7b\x7d,\"diskMiB\":2048,\"dockerfileRunTimeoutMs\":undefined,\"entrypoint\":undefined,\"env\":\x7b\"FOO".toList,
      "6fa5b257d11dd486f8bf7e7c87a682d2ca29be91e1f2ab07529aae59e0799977".toList)]
  hex := hex_of_all (by decide +kernel)

def alpine : ImageConfig := ⟨["PATH=/bin".toList], [], ["/bin/sh".toList], []⟩

def publishedAlpine : File String where
  rootfs := {
    tree := "alpine:3.20 for amd64"
    env := renderEnvFile (fun a b => decide (a ≤ b)) (mergeEnv alpine [])
    commandLine := commandLineFromImage alpine none none
    workdir := workdirFromImage alpine none
    console := false }
  size := 256 * mib

/-- A host whose release publishes one image. --/
def releaseHost : Machine String :=
  { linuxHost releaseDigests alpine none with
    prebuilt := fun _ slug => if slug = "alpine-3.20".toList then some publishedAlpine else none }

theorem image_of_slug : ∀ mapping ∈ prebuiltRootfsImages, mapping.slug = "alpine-3.20".toList →
    mapping.image = "alpine:3.20".toList := by decide

theorem released_releaseHost : releaseHost.Released := by
  intro mapping hm version file hfile
  obtain ⟨hslug, hf⟩ := Option.ite_none_right_eq_some.mp hfile
  cases hf
  rw [image_of_slug mapping hm hslug]
  exact ⟨_, _, rfl, rfl⟩

def plainOptions : SdkRunOptions := { image := some "alpine:3.20".toList }

def envOptions : SdkRunOptions := { image := some "alpine:3.20".toList, env := some [("FOO".toList, "bar".toList)] }

/-- The options that the runs below are about. --/
def releaseScope : Scope String where
  machine := releaseHost
  texts t := t = releaseHost.rootfsCacheText plainOptions ∨ t = releaseHost.rootfsCacheText envOptions
  console _ := false

theorem noCollision_releaseScope : releaseScope.NoCollision := by
  have hne : releaseHost.rootfsCacheKey plainOptions ≠ releaseHost.rootfsCacheKey envOptions := by decide +kernel
  rintro a b (rfl | rfl) (rfl | rfl) hkey
  · rfl
  · exact absurd hkey hne
  · exact absurd hkey.symm hne
  · rfl

/-- The image as it is published, and then the image with a variable, built. --/
def carefulRuns : List (Operation × Run String) :=
  [(.run, plainRun plainOptions "a"), (.run, plainRun { envOptions with prebuilt := some .off } "b")]

theorem careful_carefulRuns : ∀ e ∈ carefulRuns, Careful releaseScope e.2 := by
  have hoverlay : ∀ l, '/' ∉ l → '-' ∈ l → ∀ a, ¬IsCacheFile (a ++ l) := fun l hslash hdash a =>
    not_isCacheFile_of_dash hslash hdash
  intro e he
  rcases List.mem_cons.mp he with rfl | he
  · refine ⟨fun _ _ => ⟨.inl rfl, rfl⟩, fun _ _ _ _ mapping hm hslug _ _ _ => ?_, fun _ => ?_, ?_, nofun, nofun, nofun⟩
    · have hpublished : prebuiltSlugForImage "alpine:3.20".toList = some "alpine-3.20".toList := by decide +kernel
      have himage := image_of_slug mapping hm (Option.some.inj (hslug.symm.trans hpublished))
      rw [himage]
      exact ⟨rfl, fun _ _ _ => rfl, fun _ _ _ => rfl, rfl⟩
    · exact hoverlay "vm-a.ext4".toList (by decide) (by decide) "/tmp/run-a/".toList
    · exact hoverlay "vm-a.restore.overlay".toList (by decide) (by decide) "/dev/shm/overlay-a/".toList
  · rw [List.mem_singleton.mp he]
    refine ⟨fun _ _ => ⟨.inr rfl, rfl⟩, fun _ _ hoff => absurd rfl hoff, fun _ => ?_, ?_, nofun, nofun, nofun⟩
    · exact hoverlay "vm-b.ext4".toList (by decide) (by decide) "/tmp/run-b/".toList
    · exact hoverlay "vm-b.restore.overlay".toList (by decide) (by decide) "/dev/shm/overlay-b/".toList

end NodeVmm.RootfsCache
