import NodeVmm.Theorems.PersistentDisk
import NodeVmm.Theorems.RootfsStore

/-! When a named disk is used again. The key of a disk names the file that its base image was in, and that file is
    another one in every run unless it was given or is in the cache; and it leaves out what a Dockerfile is built
    from. -/

namespace NodeVmm.PersistentDisk
open MaterializePersistentDiskOptions

variable {Image : Type}

/-! ### A named disk -/

/-- A disk with its metadata. --/
structure Stands (d : Dir Image) (x : Disk Image) (m : PersistentDiskMetadata) : Prop where
  disk : d.files .diskPath = some (.disk x)
  json : d.files .metaPath = some (.json m)
  kind : m.kind = persistentDiskKind
  version : m.version = persistentDiskMetadataVersion

section
variable {c : MaterializePersistentDiskOptions Image} {d t : Dir Image} {x : Disk Image} {n id : Nat} {v : MaterializedDisk}
  {m : PersistentDiskMetadata}

theorem readPersistentMetadata_stands (h : Stands d x m) :
    c.readPersistentMetadata d = (.ok (if c.fails .readMeta then none else some m), d) := by
  simp [readPersistentMetadata, Exec.bind_apply, h.json, h.kind, h.version]

theorem readPersistentMetadata_eq_ok {metadata : Option PersistentDiskMetadata}
    (h : c.readPersistentMetadata d = (.ok metadata, t)) : t = d ∧ ∀ m, metadata = some m →
      d.files .metaPath = some (.json m) ∧ m.kind = persistentDiskKind ∧ m.version = persistentDiskMetadataVersion := by
  unfold readPersistentMetadata at h
  rw [Exec.bind_of_ok Exec.get_apply] at h
  rcases hm : d.files .metaPath with _ | x | m | text
  · rw [hm] at h
    cases h
    exact ⟨rfl, nofun⟩
  · rw [hm] at h
    cases h
    exact ⟨rfl, nofun⟩
  · rw [hm] at h
    obtain ⟨hvalue, hstate⟩ := Prod.mk.inj h
    refine ⟨hstate.symm, fun k hk => ?_⟩
    rw [hk] at hvalue
    have hsome := Except.ok.inj hvalue
    split at hsome
    · cases hsome
    · obtain ⟨hgood, heq⟩ := Option.ite_none_right_eq_some.mp hsome
      cases heq
      exact ⟨rfl, hgood⟩
  · rw [hm] at h
    cases h
    exact ⟨rfl, nofun⟩

/-- A call that keeps the disk and returns. --/
theorem kept_ok {metadata : Option PersistentDiskMetadata} (hd : d.files .diskPath = some (.disk x))
    (h : (do
      let resized := (← c.ensureDiskSizeAtLeast .statDisk .truncateDisk .diskPath c.diskPath) || false
      c.refresh id metadata false resized) d = (.ok v, t)) :
    ∃ n, c.diskMiB = some (.ofNat n) ∧ 0 < n ∧ t.files .diskPath = some (.disk { x with size := n * mib }) ∧
      (t.files .metaPath = some (.json (c.refreshed id metadata)) ∨ t.files .metaPath = d.files .metaPath) := by
  rcases ensure_cases (c := c) .statDisk .truncateDisk c.diskPath hd with
    ⟨n, w, hn, hpos, -, -, hensure, hfiles⟩ | ⟨e, hensure, -⟩
  · rw [Exec.bind_of_ok hensure] at h
    have hwd := (hfiles .diskPath).trans (if_pos rfl)
    have hwm := (hfiles .metaPath).trans (if_neg nofun)
    rcases refresh_cases (c := c) (d := w) id metadata false
      (decide (x.size < n * mib) || false) with
      ⟨v', t', hrefresh, -, htd, htm | htm⟩ | ⟨e, t', hrefresh, -⟩
    · cases hrefresh.symm.trans h
      exact ⟨n, hn, hpos, htd.trans hwd, .inl htm.1⟩
    · cases hrefresh.symm.trans h
      exact ⟨n, hn, hpos, htd.trans hwd, .inr (htm.1.trans hwm)⟩
    · cases hrefresh.symm.trans h
  · rw [Exec.bind_of_error hensure] at h
    cases h

/-- A file in the place of the disk that is none has no size. --/
theorem ensure_noDisk {stat truncate : Op} {path : Text} {f : Bool → Disks Image MaterializedDisk} {file : File Image}
    (hd : d.files .diskPath = some file) (hfile : ∀ x, file ≠ .disk x) :
    (c.ensureDiskSizeAtLeast stat truncate .diskPath path >>= f) d ≠ (.ok v, t) := by
  intro h
  obtain ⟨b, u, hensure, -⟩ := Exec.bind_eq_ok h
  unfold ensureDiskSizeAtLeast at hensure
  rcases hn : c.diskMiB with _ | (_ | k) | k <;> rw [hn] at hensure
  · cases hensure
  · cases hensure
  · obtain ⟨_, w, hcheck, hrest⟩ := Exec.bind_eq_ok hensure
    obtain ⟨-, rfl⟩ := Exec.check_eq_ok hcheck
    rw [Exec.bind_of_ok Exec.get_apply, hd] at hrest
    cases file with
    | disk x => exact hfile x rfl
    | json m => cases hrest
    | torn text => cases hrest
  · cases hensure

/-- The disk of a call that made it has the source key of the call. --/
theorem created_ok (hd : d.files .diskPath = none) (hm : d.files .metaPath = none)
    (h : (do
      let createdResized ← c.create id none
      let resized := (← c.ensureDiskSizeAtLeast .statDisk .truncateDisk .diskPath c.diskPath) || createdResized
      c.refresh id none true resized) d = (.ok v, t)) :
    ∃ x m n, Stands t x m ∧ m.sourceKey = c.sourceKey ∧ c.diskMiB = some (.ofNat n) ∧ 0 < n ∧ x.size = n * mib := by
  rcases create_cases (c := c) id none (iff_of_true hd hm) with
    ⟨n, image, size, u, hfits, hcreate, hud, hum⟩ | ⟨e, u, hcreate, -⟩
  · rw [Exec.bind_of_ok hcreate] at h
    rcases ensure_cases (c := c) .statDisk .truncateDisk c.diskPath hud with
      ⟨k, w, hk, hpos, -, -, hensure, hfiles⟩ | ⟨e, hensure, -⟩
    · rw [Exec.bind_of_ok hensure] at h
      have hwd := (hfiles .diskPath).trans (if_pos rfl)
      have hwm := ((hfiles .metaPath).trans (if_neg nofun)).trans hum
      rcases refresh_cases (c := c) (d := w) id none true (decide (n * mib < k * mib) || decide (size < n * mib)) with
        ⟨v', t', hrefresh, -, htd, htm | htm⟩ | ⟨e, t', hrefresh, -⟩
      · cases hrefresh.symm.trans h
        exact ⟨_, _, k, ⟨htd.trans hwd, htm.1, rfl, rfl⟩, rfl, hk, hpos, rfl⟩
      · cases hrefresh.symm.trans h
        exact ⟨_, _, k, ⟨htd.trans hwd, htm.1.trans hwm, rfl, rfl⟩, rfl, hk, hpos, rfl⟩
      · cases hrefresh.symm.trans h
    · rw [Exec.bind_of_error hensure] at h
      cases h
  · rw [Exec.bind_of_error hcreate] at h
    cases h

/-- After a call without a reset that returned, the disk stands with the source key of the call. --/
theorem stands_of_ok (hreset : c.reset = false) (hgone : d.files .diskPath = none → d.files .metaPath = none)
    (hcall : c.materializePersistentDisk id d = (.ok v, t)) :
    ∃ x m n, Stands t x m ∧ m.sourceKey = c.sourceKey ∧ c.diskMiB = some (.ofNat n) ∧ 0 < n ∧ x.size = n * mib := by
  unfold materializePersistentDisk at hcall
  obtain ⟨_, w, hname, hafter⟩ := Exec.bind_eq_ok hcall
  obtain ⟨-, rfl⟩ := Exec.check_eq_ok hname
  obtain ⟨_, d, hmkdir, h⟩ := Exec.bind_eq_ok hafter
  obtain ⟨-, rfl⟩ := Exec.check_eq_ok hmkdir
  rw [Exec.bind_of_ok Exec.get_apply] at h
  rcases hd : d.files .diskPath with _ | file
  · rw [Exec.bind_of_ok (readPersistentMetadata_none (hgone hd))] at h
    simp only [hd, Option.isSome_none, Bool.false_and, Bool.false_eq_true, if_false, Bool.not_false, Bool.true_or,
      if_true] at h
    exact created_ok hd (hgone hd) h
  · obtain ⟨metadata, w, hread, hrest⟩ := Exec.bind_eq_ok h
    obtain ⟨rfl, hmetadata⟩ := readPersistentMetadata_eq_ok hread
    rcases metadata with _ | m
    · simp [hd, Exec.bind_apply] at hrest
    obtain ⟨hm, hkind, hversion⟩ := hmetadata m rfl
    by_cases hkey : m.sourceKey = c.sourceKey
    · simp [hreset, hd, hkey] at hrest
      rcases file with x | m' | text
      · obtain ⟨n, hn, hpos, htd, htm | htm⟩ := kept_ok hd hrest
        · exact ⟨_, _, n, ⟨htd, htm, hkind, hversion⟩, hkey, hn, hpos, rfl⟩
        · exact ⟨_, _, n, ⟨htd, htm.trans hm, hkind, hversion⟩, hkey, hn, hpos, rfl⟩
      · exact absurd hrest (ensure_noDisk hd nofun)
      · exact absurd hrest (ensure_noDisk hd nofun)
    · simp [hreset, hd, hkey, Exec.bind_apply] at hrest

theorem validName_of_ok (h : c.materializePersistentDisk id d = (.ok v, t)) : validName c.name = true := by
  obtain ⟨_, _, hcheck, -⟩ := Exec.bind_eq_ok h
  exact (Exec.check_eq_ok hcheck).1

theorem path_of_ok (h : c.materializePersistentDisk id d = (.ok v, t)) : v.rootfsPath = c.diskPath := by
  have hrefresh : ∀ metadata created resized,
      Exec.Returns (fun v => v.rootfsPath = c.diskPath) (c.refresh id metadata created resized) := by
    intro metadata created resized
    refine Exec.Returns.ite (fun _ => ?_) fun _ => Exec.Returns.pure rfl
    exact Exec.Returns.bind fun _ => Exec.Returns.pure rfl
  have hcall : Exec.Returns (fun v => v.rootfsPath = c.diskPath) (c.materializePersistentDisk id) := by
    refine Exec.Returns.bind fun _ => Exec.Returns.bind fun _ => Exec.Returns.bind fun _ => Exec.Returns.bind fun _ => ?_
    have hresize : ∀ created createdResized : Bool, ∀ metadata, Exec.Returns (fun v => v.rootfsPath = c.diskPath) (do
        let resized := (← c.ensureDiskSizeAtLeast .statDisk .truncateDisk .diskPath c.diskPath) || createdResized
        c.refresh id metadata created resized) := fun _ _ _ => Exec.Returns.bind fun _ => hrefresh _ _ _
    have hlast : ∀ created : Bool, ∀ metadata, Exec.Returns (fun v => v.rootfsPath = c.diskPath) (do
        let createdResized ← if created then c.create id metadata else pure false
        let resized := (← c.ensureDiskSizeAtLeast .statDisk .truncateDisk .diskPath c.diskPath) || createdResized
        c.refresh id metadata created resized) := fun _ _ => Exec.Returns.ite (fun _ => Exec.Returns.bind fun _ => hresize _ _ _)
      fun _ => Exec.Returns.bind fun _ => hresize _ _ _
    refine Exec.Returns.ite (fun _ => Exec.Returns.bind fun _ => ?_) fun _ => ?_
    · exact Exec.Returns.ite (fun _ => Exec.Returns.bind fun _ => hlast _ _) fun _ => hlast _ _
    · exact Exec.Returns.ite (fun _ => Exec.Returns.bind fun _ => hlast _ _) fun _ => hlast _ _
  exact hcall d v t h

def differentSource (name : Text) : String :=
  "persistent disk " ++ name.str ++ " was created from a different image/rootfs; use --reset to recreate it"

/-- Without a reset a disk of another source key is refused. --/
theorem refused (id : Nat) (hs : Stands d x m) (hname : validName c.name = true) (hfails : ∀ op, c.fails op = false)
    (hreset : c.reset = false) (hkey : m.sourceKey ≠ c.sourceKey) :
    c.materializePersistentDisk id d = (.error (differentSource c.name), d) := by
  unfold materializePersistentDisk
  rw [Exec.bind_of_ok (Exec.check_of_true hname), Exec.bind_of_ok (show c.attempt .mkdir d = (.ok (), d) by simp [hfails]),
    Exec.bind_of_ok Exec.get_apply, Exec.bind_of_ok (readPersistentMetadata_stands hs)]
  simp only [hs.disk, hfails, hreset, hkey, Option.isSome_some, Bool.not_false, Bool.and_true, Bool.false_eq_true,
    if_false, Option.isNone_some, Bool.and_false, Option.any_some, ne_eq, not_false_eq_true, decide_true, if_true]
  rfl

/-- A disk of the same source key is used again if the size that is asked for is not smaller. --/
theorem reused (id : Nat) (hs : Stands d x m) (hname : validName c.name = true) (hfails : ∀ op, c.fails op = false)
    (hreset : c.reset = false) (hkey : m.sourceKey = c.sourceKey) :
    (∃ n v t, c.diskMiB = some (.ofNat n) ∧ x.size ≤ n * mib ∧ c.materializePersistentDisk id d = (.ok v, t) ∧
      t.files .diskPath = some (.disk { x with size := n * mib })) ∨
    ∃ e t, c.materializePersistentDisk id d = (.error e, t) ∧
      ¬∃ n, c.diskMiB = some (.ofNat n) ∧ 0 < n ∧ x.size ≤ n * mib := by
  unfold materializePersistentDisk
  rw [Exec.bind_of_ok (Exec.check_of_true hname), Exec.bind_of_ok (show c.attempt .mkdir d = (.ok (), d) by simp [hfails]),
    Exec.bind_of_ok Exec.get_apply, Exec.bind_of_ok (readPersistentMetadata_stands hs)]
  simp only [hs.disk, hfails, hreset, hkey, Option.isSome_some, Bool.not_false, Bool.and_true, Bool.false_eq_true,
    if_false, Option.isNone_some, Bool.and_false, Option.any_some, ne_eq, not_true_eq_false, decide_false, Bool.not_true,
    Bool.or_false]
  rcases ensure_cases (c := c) .statDisk .truncateDisk c.diskPath hs.disk with
    ⟨n, w, hn, -, hle, -, hensure, hfiles⟩ | ⟨e, hensure, hwhy⟩
  · rw [Exec.bind_of_ok Exec.pure_apply, Exec.bind_of_ok hensure, Bool.or_false]
    have hwd := (hfiles .diskPath).trans (if_pos rfl)
    rcases refresh_cases (c := c) (d := w) id (some m) false (decide (x.size < n * mib)) with
      ⟨v, t, hrefresh, -, htd, -⟩ | ⟨e, t, hrefresh, -, -, -, hwhy⟩
    · exact .inl ⟨n, v, t, hn, hle, hrefresh, htd.trans hwd⟩
    · simp [hfails] at hwhy
  · rw [Exec.bind_of_ok Exec.pure_apply, Exec.bind_of_error hensure]
    simp only [hfails, Bool.false_eq_true, false_or] at hwhy
    exact .inr ⟨e, d, rfl, hwhy⟩

end
end NodeVmm.PersistentDisk

namespace NodeVmm.RootfsCache
open StableJson Exec

variable {Tree : Type}

namespace Run
variable {r : Run Tree} {h : Machine Tree} {R : Store Tree → Store Tree → Prop} {op : Operation} {o : SdkRunOptions}
  {source : Source} {output cacheDir tmp cached : Text} {build : RootfsBuildOptions}

/-! ### The base image -/

theorem keeps_usePrebuilt (hR : Puts (fun _ => True) R) : Keeps R (r.usePrebuilt h o tmp cached) := by
  have hF := hR.toFrame
  unfold usePrebuilt
  refine Keeps.bind hF (Keeps.check hF) fun _ => Keeps.bind hF (Keeps.check hF) fun _ => ?_
  split
  · exact Keeps.pure hF
  · refine Keeps.ite (fun _ => Keeps.pure hF) fun _ => Keeps.bind hF (Keeps.check hF) fun _ => ?_
    split
    · exact Keeps.pure hF
    · split
      · refine Keeps.bind hF (keeps_put hR trivial) fun _ => Keeps.tryCatch hF ?_ fun _ => ?_
        · exact Keeps.bind hF (keeps_ensure hR trivial) fun _ =>
            Keeps.bind hF (keeps_rename hR trivial trivial) fun _ => Keeps.pure hF
        · exact Keeps.bind hF (keeps_rm hR trivial) fun _ => Keeps.throw hF
      · exact Keeps.bind hF (keeps_put hR trivial) fun _ => Keeps.bind hF (Keeps.check hF) fun _ => Keeps.pure hF

theorem keeps_buildCached (hR : Puts (fun _ => True) R) : Keeps R (r.buildCached h build tmp cached) := by
  have hF := hR.toFrame
  refine Keeps.tryCatch hF ?_ fun _ => Keeps.bind hF (keeps_rm hR trivial) fun _ => Keeps.throw hF
  exact Keeps.bind hF (keeps_write hR trivial) fun _ =>
    Keeps.bind hF (keeps_rename hR trivial trivial) fun _ => Keeps.pure hF

theorem keeps_buildOrReuseRootfs (hR : Puts (fun _ => True) R) :
    Keeps R (r.buildOrReuseRootfs h o source output cacheDir) := by
  have hF := hR.toFrame
  unfold buildOrReuseRootfs
  refine Keeps.bind hF (Keeps.lift hF) fun _ => Keeps.bind hF (Keeps.check hF) fun _ => Keeps.ite (fun _ => ?_) fun _ => ?_
  · exact Keeps.bind hF (keeps_write hR trivial) fun _ => Keeps.pure hF
  · refine Keeps.bind hF (keeps_attempt hR) fun _ => Keeps.bind hF (Keeps.get hF) fun _ => Keeps.ite (fun _ => Keeps.pure hF) fun _ => ?_
    refine Keeps.bind hF (keeps_usePrebuilt hR) fun prebuilt => ?_
    cases prebuilt with
    | none => exact keeps_buildCached hR
    | some built => exact Keeps.pure hF

theorem keeps_resolveSourceContext {P : Text → Prop} (hR : Puts P R) : Keeps R r.resolveSourceContext := by
  have hF := hR.toFrame
  refine Keeps.ite (fun _ => Keeps.pure hF) fun _ => ?_
  exact Keeps.bind hF (Keeps.check hF) fun _ => Keeps.bind hF (keeps_attempt hR) fun _ =>
    Keeps.bind hF (Keeps.lift hF) fun _ => Keeps.pure hF

theorem keeps_baseRootfs (hR : Puts (fun _ => True) R) : Keeps R (r.baseRootfs h op) := by
  have hF := hR.toFrame
  refine Keeps.ite (fun _ => Keeps.pure hF) fun _ => Keeps.bind hF (Keeps.check hF) fun _ => ?_
  exact Keeps.bind hF (keeps_resolveSourceContext hR) fun _ => keeps_buildOrReuseRootfs hR

def isCacheable (r : Run Tree) : Bool := isCacheableOciRootfs r.options r.options.dockerfile

/-- The file of the base image: the one that is given, the one in the cache, or a temporary one. --/
def basePath (r : Run Tree) (h : Machine Tree) : Text :=
  if truthy r.options.rootfsPath then r.givenRootfs
  else if r.isCacheable then cachedPath r.cacheDir (h.rootfsCacheKey r.options)
  else r.outputPath

theorem returns_usePrebuilt :
    Returns (fun b => ∀ built, b = some built → built.rootfsPath = cached ∧ built.fromCache = true)
      (r.usePrebuilt h o tmp cached) := by
  have hnone : ∀ built : BuiltRootfs, none = some built → built.rootfsPath = cached ∧ built.fromCache = true := nofun
  refine Returns.bind fun _ => Returns.bind fun _ => ?_
  split
  · exact Returns.pure hnone
  · refine Returns.ite (fun _ => Returns.pure hnone) fun _ => Returns.bind fun _ => ?_
    split
    · exact Returns.pure hnone
    · split
      · refine Returns.bind fun _ => Returns.tryCatch (Returns.bind fun _ => Returns.bind fun _ => Returns.pure ?_) ?_
        · rintro built hbuilt
          cases hbuilt
          exact ⟨rfl, rfl⟩
        · exact fun _ => Returns.bind fun _ => Returns.throw
      · exact Returns.bind fun _ => Returns.bind fun _ => Returns.pure hnone

theorem returns_buildOrReuseRootfs : Returns (fun b => b.rootfsPath =
    (if isCacheableOciRootfs o source.dockerfile then cachedPath cacheDir (h.rootfsCacheKey o) else output) ∧
    b.fromCache = isCacheableOciRootfs o source.dockerfile) (r.buildOrReuseRootfs h o source output cacheDir) := by
  refine Returns.bind fun _ => Returns.bind fun _ => Returns.ite (fun hnot => ?_) fun hnot => ?_
  · have hcacheable := (Bool.not_eq_true' _).mp hnot
    rw [if_neg (Bool.eq_false_iff.mp hcacheable), hcacheable]
    exact Returns.bind fun _ => Returns.pure ⟨rfl, rfl⟩
  · have hcacheable : isCacheableOciRootfs o source.dockerfile = true := by simpa using hnot
    rw [if_pos hcacheable, hcacheable]
    refine Returns.bind fun _ => Returns.bind fun _ => Returns.ite (fun _ => Returns.pure ⟨rfl, rfl⟩) fun _ => ?_
    refine Returns.bind_of returns_usePrebuilt fun prebuilt hprebuilt => ?_
    cases prebuilt with
    | none =>
      refine Returns.tryCatch (Returns.bind fun _ => Returns.bind fun _ => Returns.pure ⟨rfl, rfl⟩) fun _ => ?_
      exact Returns.bind fun _ => Returns.throw
    | some built => exact Returns.pure (hprebuilt built rfl)

/-- A clone changes the Dockerfile only where nothing is cached. --/
theorem returns_resolveSourceContext :
    Returns (fun source => isCacheableOciRootfs r.buildInput source.dockerfile = r.isCacheable) r.resolveSourceContext := by
  refine Returns.ite (fun _ => Returns.pure rfl) fun hrepo => ?_
  have hnot : truthy r.options.repo = true := by simpa using hrepo
  refine Returns.bind fun _ => Returns.bind fun _ => Returns.bind fun _ => Returns.pure ?_
  simp [isCacheable, isCacheableOciRootfs, buildInput, hnot]

theorem returns_baseRootfs : Returns (fun b => b.rootfsPath = r.basePath h ∧
    b.fromCache = (!truthy r.options.rootfsPath && r.isCacheable)) (r.baseRootfs h op) := by
  refine Returns.ite (fun hgiven => Returns.pure ?_) fun hgiven => Returns.bind fun _ => ?_
  · rw [basePath, if_pos hgiven, hgiven]
    exact ⟨rfl, rfl⟩
  · refine Returns.bind_of returns_resolveSourceContext fun source hsource => ?_
    rw [basePath, if_neg hgiven, Bool.eq_false_iff.mpr hgiven, ← hsource]
    exact returns_buildOrReuseRootfs

/-! ### Keys -/

def absoluteRootfs (r : Run Tree) : Option Text :=
  if truthy r.options.rootfsPath then some (PosixPath.resolve r.processCwd [r.options.rootfsPath.getD []]) else none

end Run

/-- Two maps with the same entries in the order of `localeCompare`. --/
def SameEntries (h : Machine Tree) (a b : Option StringMap) : Prop :=
  sortByName h.localeCompare.le (a.getD []) = sortByName h.localeCompare.le (b.getD [])

/-- What both keys are made of. --/
structure SameFields (h : Machine Tree) (a b : SdkRunOptions) : Prop where
  image : a.image = b.image
  buildArgs : SameEntries h a.buildArgs b.buildArgs
  env : SameEntries h a.env b.env
  entrypoint : a.entrypoint = b.entrypoint
  workdir : a.workdir = b.workdir
  dockerfileRunTimeoutMs : a.dockerfileRunTimeoutMs = b.dockerfileRunTimeoutMs

theorem rootfsCacheText_iff {h : Machine Tree} {a b : SdkRunOptions} :
    h.rootfsCacheText a = h.rootfsCacheText b ↔ SameFields h a b ∧ chosenDiskMiB a = chosenDiskMiB b ∧
      a.platformArch.getD h.defaultRootfsPlatformArch = b.platformArch.getD h.defaultRootfsPlatformArch := by
  refine ⟨fun heq => ?_, fun ⟨hf, hdisk, harch⟩ => ?_⟩
  · have hnames : ["version".toList, "image".toList, "diskMiB".toList, "buildArgs".toList, "env".toList,
        "entrypoint".toList, "workdir".toList, "platformArch".toList, "dockerfileRunTimeoutMs".toList].Nodup := by decide
    unfold Machine.rootfsCacheText at heq
    have htexts := texts_of_object heq rfl hnames
    simp only [List.map_cons, List.map_nil, List.cons.injEq, Prod.mk.injEq, true_and, and_true] at htexts
    obtain ⟨himage, hdisk, hargs, henv, hentry, hworkdir, harch, htimeout⟩ := htexts
    refine ⟨⟨ofText_inj himage, ofStrings_text_iff.mp hargs, ofStrings_text_iff.mp henv, ofText_inj hentry,
      ofText_inj hworkdir, ofNumber_inj htimeout⟩, number_inj hdisk, ?_⟩
    exact Option.some.inj (ofText_inj harch)
  · unfold Machine.rootfsCacheText
    rw [stableJson_object, stableJson_object, entries_ofList, entries_ofList]
    simp only [List.map_cons, hf.image, hdisk, hf.entrypoint, hf.workdir, harch, hf.dockerfileRunTimeoutMs,
      ofStrings_text_iff.mpr hf.buildArgs, ofStrings_text_iff.mpr hf.env]

namespace Run
variable {r r₁ r₂ : Run Tree} {h : Machine Tree} {op : Operation} {a b : Text}

theorem rootDiskSourceText_iff : r₁.rootDiskSourceText h a = r₂.rootDiskSourceText h b ↔
    SameFields h r₁.options r₂.options ∧ r₁.absoluteRootfs = r₂.absoluteRootfs ∧ a = b ∧
      r₁.options.platformArch = r₂.options.platformArch := by
  refine ⟨fun heq => ?_, fun ⟨hf, hrootfs, hbase, harch⟩ => ?_⟩
  · have hnames : ["version".toList, "image".toList, "rootfsPath".toList, "baseRootfsPath".toList, "buildArgs".toList,
        "env".toList, "entrypoint".toList, "workdir".toList, "platformArch".toList,
        "dockerfileRunTimeoutMs".toList].Nodup := by decide
    unfold rootDiskSourceText at heq
    have htexts := texts_of_object heq rfl hnames
    simp only [List.map_cons, List.map_nil, List.cons.injEq, Prod.mk.injEq, true_and, and_true] at htexts
    obtain ⟨himage, hrootfs, hbase, hargs, henv, hentry, hworkdir, harch, htimeout⟩ := htexts
    exact ⟨⟨ofText_inj himage, ofStrings_text_iff.mp hargs, ofStrings_text_iff.mp henv, ofText_inj hentry,
      ofText_inj hworkdir, ofNumber_inj htimeout⟩, ofText_inj hrootfs, Option.some.inj (ofText_inj hbase), ofText_inj harch⟩
  · unfold rootDiskSourceText
    unfold absoluteRootfs at hrootfs
    rw [stableJson_object, stableJson_object, entries_ofList, entries_ofList]
    simp only [List.map_cons, hf.image, hrootfs, hbase, hf.entrypoint, hf.workdir, harch, hf.dockerfileRunTimeoutMs,
      ofStrings_text_iff.mpr hf.buildArgs, ofStrings_text_iff.mpr hf.env]

/-- No two texts that the two runs hash have the same digest. --/
structure NoCollision (h : Machine Tree) (r₁ r₂ : Run Tree) : Prop where
  source : r₁.rootDiskSourceKey h (r₁.basePath h) = r₂.rootDiskSourceKey h (r₂.basePath h) →
    r₁.rootDiskSourceText h (r₁.basePath h) = r₂.rootDiskSourceText h (r₂.basePath h)
  cache : h.rootfsCacheKey r₁.options = h.rootfsCacheKey r₂.options →
    h.rootfsCacheText r₁.options = h.rootfsCacheText r₂.options

/-- Two cached images of one size, or the same file. --/
def SameBase (h : Machine Tree) (r₁ r₂ : Run Tree) : Prop :=
  if (truthy r₁.options.rootfsPath = false ∧ r₁.isCacheable) ∧ truthy r₂.options.rootfsPath = false ∧ r₂.isCacheable then
    chosenDiskMiB r₁.options = chosenDiskMiB r₂.options
  else r₁.basePath h = r₂.basePath h

/-- The runs agree on what the key is made of. --/
structure SameKey (h : Machine Tree) (r₁ r₂ : Run Tree) : Prop extends SameFields h r₁.options r₂.options where
  rootfsPath : r₁.absoluteRootfs = r₂.absoluteRootfs
  platformArch : r₁.options.platformArch = r₂.options.platformArch
  base : SameBase h r₁ r₂

theorem basePath_of_cacheable (hr : truthy r.options.rootfsPath = false ∧ r.isCacheable) :
    r.basePath h = cachedPath r.cacheDir (h.rootfsCacheKey r.options) := by
  rw [basePath, if_neg (Bool.eq_false_iff.mp hr.1), if_pos hr.2]

theorem rootDiskSourceKey_iff (hsha : NoCollision h r₁ r₂) (hcache : r₁.cacheDir = r₂.cacheDir) :
    r₁.rootDiskSourceKey h (r₁.basePath h) = r₂.rootDiskSourceKey h (r₂.basePath h) ↔ SameKey h r₁ r₂ := by
  refine ⟨fun heq => ?_, fun hsame => ?_⟩
  · obtain ⟨hf, hrootfs, hbase, harch⟩ := rootDiskSourceText_iff.mp (hsha.source heq)
    refine ⟨hf, hrootfs, harch, ?_⟩
    unfold SameBase
    split
    · rename_i hboth
      rw [basePath_of_cacheable hboth.1, basePath_of_cacheable hboth.2, hcache] at hbase
      have hkey := cachedPath_inj resolvePath_absolute resolvePath_absolute (slash_not_mem_sha256 h)
        (slash_not_mem_sha256 h) hbase
      exact (rootfsCacheText_iff.mp (hsha.cache hkey)).2.1
    · exact hbase
  · have hbase : r₁.basePath h = r₂.basePath h := by
      have hb := hsame.base
      unfold SameBase at hb
      split at hb
      · rename_i hboth
        have htext := rootfsCacheText_iff.mpr ⟨hsame.toSameFields, hb, by rw [hsame.platformArch]⟩
        rw [basePath_of_cacheable hboth.1, basePath_of_cacheable hboth.2, hcache, Machine.rootfsCacheKey, htext]
        rfl
      · exact hb
    exact congrArg h.sha256 (rootDiskSourceText_iff.mpr ⟨hsame.toSameFields, hsame.rootfsPath, hbase, hsame.platformArch⟩)

/-! ### The disk of a run -/

theorem no_diskPath {o : SdkRunOptions} (hpersist : truthy o.persist = true)
    (hshape : validateRunRootDiskOptionShape op o = .ok ()) : truthy o.diskPath = false := by
  by_contra hdisk
  rw [Bool.not_eq_false] at hdisk
  rw [validateRunRootDiskOptionShape, if_pos (by rw [hpersist, hdisk]; rfl)] at hshape
  cases hshape

/-- With a name the disk is the named one, on the base image. --/
theorem prepareRunRootDisk_named {s : Store Tree} {n : Number} (hpersist : truthy r.options.persist = true)
    (hshape : validateRunRootDiskOptionShape op r.options = .ok ()) (hn : diskMiBFromOptions r.options = .ok n) :
    r.prepareRunRootDisk h op s = (do
      let base ← r.baseRootfs h op
      let materialized ← r.materializePersistentDisk h base.rootfsPath
      return (⟨materialized.rootfsPath, false, base.built || materialized.created,
        base.resizeRootfs || materialized.resized, true, some r.namedDisk⟩ : PreparedRootDisk)) s := by
  have hdisk := no_diskPath hpersist hshape
  unfold prepareRunRootDisk
  rw [hshape, hn, bind_of_ok lift_apply, bind_of_ok lift_apply, bind_of_ok get_apply]
  simp only [hdisk, Bool.false_and, Bool.false_eq_true, if_false, Bool.not_false, hpersist, if_true]
  rw [bind_of_ok (check_of_true rfl)]

/-- The named disk is there under a source key, with the content that a call copied and a size. --/
def Holds (s : Store Tree) (k : Text × Text) (key : Text) (origin : PersistentDisk.Origin) (size : Nat) : Prop :=
  ∃ x m, PersistentDisk.Stands (s.named k) x m ∧ m.sourceKey = key ∧ x.origin = origin ∧ x.size = size

/-- What the disk holds, whatever the guest writes to it. --/
def StillHolds (k : Text × Text) (s t : Store Tree) : Prop :=
  ∀ key origin size, Holds s k key origin size → Holds t k key origin size

theorem stillHolds (k : Text × Text) : Puts (fun _ => True) fun s t : Store Tree => StillHolds k s t where
  refl _ _ _ _ hs := hs
  trans hst htu key origin size hs := htu key origin size (hst key origin size hs)
  put _ _ _ _ _ _ _ hs := hs

theorem keeps_writeNamed {k name : Text × Text} {f : Text} : Keeps (StillHolds k) (r.writeNamed f name) := by
  refine Keeps.modify fun s => ?_
  rcases hfile : (s.named name).files .diskPath with _ | x | m | text
  · exact fun _ _ _ hs => hs
  · rintro key origin size ⟨y, m, hstands, hkey, horigin, hsize⟩
    by_cases hname : name = k
    · subst hname
      cases hstands.disk.symm.trans hfile
      refine ⟨{ x with image := (r.guest f (some ⟨x.image, x.size⟩)).rootfs }, m, ⟨?_, ?_, hstands.kind, hstands.version⟩,
        hkey, horigin, hsize⟩
      · simp
      · simp [hstands.json]
    · refine ⟨y, m, ?_, hkey, horigin, hsize⟩
      show PersistentDisk.Stands (Function.update s.named name _ k) y m
      rw [Function.update_of_ne (Ne.symm hname)]
      exact hstands
  · exact fun _ _ _ hs => hs
  · exact fun _ _ _ hs => hs

theorem keeps_boot {k : Text × Text} {prepared : PreparedRootDisk} {overlay : Option Text}
    {attached : List AttachedDisk} : Keeps (StillHolds k) (r.boot prepared overlay attached) := by
  have hR : Puts (fun _ => True) fun s t : Store Tree => StillHolds k s t := stillHolds k
  have hwrite : ∀ f, Keeps (StillHolds k) (r.writeDisk f) := fun f => Keeps.modify fun s => hR.put f trivial s _
  refine Keeps.bind hR.toFrame ?_ fun _ => Keeps.bind hR.toFrame (Keeps.forM hR.toFrame fun disk _ => ?_) fun _ =>
    keeps_attempt hR
  · unfold writeRoot
    split
    · exact hwrite _
    · split
      · exact keeps_writeNamed
      · exact hwrite _
  · exact Keeps.ite (fun _ => Keeps.pure hR.toFrame) fun _ => hwrite _

theorem keeps_startPrepared {k : Text × Text} {p : PreparedRootDisk} : Keeps (StillHolds k) (r.startPrepared p) := by
  have hR : Puts (fun _ => True) fun s t : Store Tree => StillHolds k s t := stillHolds k
  refine Keeps.bind hR.toFrame (Keeps.lift hR.toFrame) fun attached => Keeps.bind hR.toFrame (Keeps.get hR.toFrame) fun s => ?_
  refine Keeps.bind hR.toFrame (Keeps.forM hR.toFrame fun disk _ => Keeps.check hR.toFrame) fun _ => ?_
  refine Keeps.bind hR.toFrame (Keeps.lift hR.toFrame) fun restore => Keeps.bind hR.toFrame (keeps_attempt hR) fun _ => ?_
  exact Keeps.bind hR.toFrame keeps_boot fun _ => Keeps.pure hR.toFrame

theorem keeps_cleanup {k : Text × Text} : Keeps (StillHolds k) (r.cleanup) := by
  have hR : Puts (fun _ => True) fun s t : Store Tree => StillHolds k s t := stillHolds k
  exact Keeps.bind hR.toFrame (Keeps.ite (fun _ => keeps_put hR trivial) fun _ => Keeps.pure hR.toFrame) fun _ =>
    Keeps.ite (fun _ => keeps_put hR trivial) fun _ => Keeps.pure hR.toFrame

/-- The call of `materializePersistentDisk` on the named directory. --/
def named (r : Run Tree) (h : Machine Tree) (b : Text) (s : Store Tree) :
    Except String PersistentDisk.MaterializedDisk × PersistentDisk.Dir (Rootfs Tree) :=
  (r.persistentDisk h b s).materializePersistentDisk (s.named r.namedDisk).calls (s.named r.namedDisk)

theorem materializePersistentDisk_apply {s : Store Tree} : r.materializePersistentDisk h b s = ((r.named h b s).1,
    { s with named := Function.update s.named r.namedDisk
              { (r.named h b s).2 with calls := (s.named r.namedDisk).calls + 1 } }) := rfl

/-- The files of a name before and after the base image is looked for. --/
theorem named_of_baseRootfs {s t : Store Tree} {base : BuiltRootfs} (hbase : r.baseRootfs h op s = (.ok base, t)) :
    t.named = s.named := by
  have hR : Puts (fun _ => True) (fun s t : Store Tree => t.named = s.named) :=
    ⟨⟨fun _ => rfl, fun hst htu => htu.trans hst⟩, fun _ _ _ _ => rfl⟩
  have hkeeps := @keeps_baseRootfs _ r h _ op hR s
  rw [hbase] at hkeeps
  exact hkeeps

/-- A run that returned, with a name and no reset, has left its disk under its source key. --/
theorem holds_of_prepared {s t : Store Tree} {prepared : PreparedRootDisk} {m : Number}
    (hpersist : truthy r.options.persist = true)
    (hreset : r.options.reset = false) (hshape : validateRunRootDiskOptionShape op r.options = .ok ())
    (hm : diskMiBFromOptions r.options = .ok m)
    (hgone : (s.named r.namedDisk).files .diskPath = none → (s.named r.namedDisk).files .metaPath = none)
    (hrun : r.prepareRunRootDisk h op s = (.ok prepared, t)) :
    PersistentDisk.validName (r.options.persist.getD []) = true ∧
      ∃ origin n, 0 < n ∧ chosenDiskMiB r.options = .int (.ofNat n) ∧
        Holds t r.namedDisk (r.rootDiskSourceKey h (r.basePath h)) origin (n * PersistentDisk.mib) := by
  rw [prepareRunRootDisk_named hpersist hshape hm] at hrun
  obtain ⟨base, u, hbase, hrest⟩ := bind_eq_ok hrun
  have hpath := (returns_baseRootfs _ _ _ hbase).1
  have hnamed := named_of_baseRootfs hbase
  obtain ⟨v, w, hmat, hlast⟩ := bind_eq_ok hrest
  cases hlast
  rw [hpath, materializePersistentDisk_apply] at hmat
  obtain ⟨hv, rfl⟩ := Prod.mk.inj hmat
  rcases hcall : r.named h (r.basePath h) u with ⟨result, d⟩
  rw [hcall] at hv
  subst hv
  rw [← hnamed] at hgone
  obtain ⟨x, m, n, hstands, hkey, hn, hpos, hsize⟩ := PersistentDisk.stands_of_ok hreset hgone hcall
  refine ⟨PersistentDisk.validName_of_ok hcall, x.origin, n, hpos, ?_, x, m, ?_, hkey, rfl, hsize⟩
  · have hint : integer (chosenDiskMiB r.options) = some (.ofNat n) := hn
    unfold integer at hint
    split at hint
    · cases hint
      assumption
    · cases hint
  · show PersistentDisk.Stands (Function.update u.named r.namedDisk { d with calls := _ } r.namedDisk) x m
    rw [Function.update_self]
    exact ⟨hstands.disk, hstands.json, hstands.kind, hstands.version⟩

/-- A run that returned has prepared its disk, and what it did then left the named disks as they were but for what
    the guest wrote. --/
theorem prepared_of_runImage {s t : Store Tree} {disks : List VmDisk} {k : Text × Text}
    (hrun : r.runImage h op s = (.ok disks, t)) : validateRunRootDiskOptionShape op r.options = .ok () ∧
      ∃ prepared u, r.prepareRunRootDisk h op s = (.ok prepared, u) ∧ StillHolds k u t := by
  have hR : Puts (fun _ => True) fun s t : Store Tree => StillHolds k s t := stillHolds k
  obtain ⟨_, s', hlift, hrest⟩ := bind_eq_ok hrun
  obtain ⟨hshape, rfl⟩ := lift_eq_ok hlift
  refine ⟨hshape, ?_⟩
  obtain ⟨disks', u, hstart, hlast⟩ := bind_eq_ok hrest
  obtain ⟨_, w, hclean, hreturn⟩ := bind_eq_ok hlast
  cases hreturn
  have hcleanup := keeps_cleanup (r := r) (k := k) u
  rw [hclean] at hcleanup
  obtain ⟨prepared, w, hprepare, hafter⟩ := bind_eq_ok (tryCatch_rethrow_eq_ok hstart)
  refine ⟨prepared, w, hprepare, hR.trans ?_ hcleanup⟩
  have hkeeps := keeps_startPrepared (r := r) (k := k) (p := prepared) w
  rw [hafter] at hkeeps
  exact hkeeps

/-! ### Two runs -/

/-- The options that say what the root filesystem is made of. --/
structure SameSource (a b : SdkRunOptions) : Prop where
  image : a.image = b.image
  rootfsPath : a.rootfsPath = b.rootfsPath
  dockerfile : a.dockerfile = b.dockerfile
  repo : a.repo = b.repo
  ref : a.ref = b.ref
  subdir : a.subdir = b.subdir
  contextDir : a.contextDir = b.contextDir
  buildArgs : (a.buildArgs.getD []).Perm (b.buildArgs.getD [])
  env : (a.env.getD []).Perm (b.env.getD [])
  entrypoint : a.entrypoint = b.entrypoint
  workdir : a.workdir = b.workdir
  platformArch : a.platformArch = b.platformArch

/-- Whole sizes, of which the second is not the smaller one. --/
def NotSmaller (a b : SdkRunOptions) : Prop :=
  ∃ m n : Nat, chosenDiskMiB a = .int (.ofNat m) ∧ chosenDiskMiB b = .int (.ofNat n) ∧ m ≤ n

/-- The run gets as far as its named disk, and no operation on that fails. --/
structure Served (h : Machine Tree) (op : Operation) (r : Run Tree) (s : Store Tree) : Prop where
  shape : validateRunRootDiskOptionShape op r.options = .ok ()
  size : ∃ m, diskMiBFromOptions r.options = .ok m
  base : ∃ base t, r.baseRootfs h op s = (.ok base, t)
  fails : ∀ op, r.failsNamed op = false

/-- The root disk of the run is the named disk as it was, at most extended. --/
def Reuses (h : Machine Tree) (op : Operation) (r : Run Tree) (s : Store Tree) : Prop :=
  ∃ prepared t x size, r.prepareRunRootDisk h op s = (.ok prepared, t) ∧ prepared.named = some r.namedDisk ∧
    (s.named r.namedDisk).files .diskPath = some (.disk x) ∧ x.size ≤ size ∧
    (t.named r.namedDisk).files .diskPath = some (.disk { x with size })

/-- The run fails before the machine starts. --/
def Rejected (h : Machine Tree) (op : Operation) (r : Run Tree) (s : Store Tree) : Prop :=
  ∃ e t, r.prepareRunRootDisk h op s = (.error e, t)

theorem not_reuses_of_rejected {s : Store Tree} (hr : Rejected h op r s) : ¬Reuses h op r s := by
  rintro ⟨prepared, t, x, size, hok, -⟩
  obtain ⟨e, u, herror⟩ := hr
  cases hok.symm.trans herror

theorem integer_eq {n : Number} {k : Nat} (hn : integer n = some (.ofNat k)) : n = .int (.ofNat k) := by
  cases n with
  | int i =>
    cases hn
    rfl
  | notFinite => cases hn
  | other => cases hn

/-- A run on a disk that stands: it is used again if the key is the same and the size not smaller. --/
theorem prepare_on_disk {s : Store Tree} {key : Text} {origin : PersistentDisk.Origin} {n₁ : Nat} (hpos : 0 < n₁)
    (hholds : Holds s r.namedDisk key origin (n₁ * PersistentDisk.mib))
    (hpersist : truthy r.options.persist = true) (hname : PersistentDisk.validName (r.options.persist.getD []) = true)
    (hreset : r.options.reset = false) (hserved : Served h op r s) :
    (key = r.rootDiskSourceKey h (r.basePath h) ∧
        (∃ n : Nat, chosenDiskMiB r.options = .int (.ofNat n) ∧ n₁ ≤ n) ∧ Reuses h op r s) ∨
      (¬(key = r.rootDiskSourceKey h (r.basePath h) ∧ ∃ n : Nat, chosenDiskMiB r.options = .int (.ofNat n) ∧ n₁ ≤ n) ∧
        Rejected h op r s) := by
  obtain ⟨x, m, hstands, hkey, -, hsize⟩ := hholds
  obtain ⟨size, hdisk⟩ := hserved.size
  obtain ⟨base, t, hbase⟩ := hserved.base
  have hpath := (returns_baseRootfs _ _ _ hbase).1
  have hnamed := named_of_baseRootfs hbase
  rw [← hnamed] at hstands
  have hprepare := prepareRunRootDisk_named (h := h) (s := s) hpersist hserved.shape hdisk
  rw [bind_of_ok hbase, hpath] at hprepare
  have hmib : 0 < PersistentDisk.mib := by decide
  by_cases hsame : key = r.rootDiskSourceKey h (r.basePath h)
  · rcases PersistentDisk.reused (c := r.persistentDisk h (r.basePath h) t) (t.named r.namedDisk).calls
      hstands hname hserved.fails hreset (hkey.trans hsame) with ⟨n, v, d, hn, hle, hcall, hd⟩ | ⟨e, d, hcall, hwhy⟩
    · left
      have hle' : n₁ ≤ n := Nat.le_of_mul_le_mul_right (hsize.symm.le.trans hle) hmib
      have hmat : r.materializePersistentDisk h (r.basePath h) t = (.ok v,
          { t with named := Function.update t.named r.namedDisk { d with calls := (t.named r.namedDisk).calls + 1 } }) := by
        rw [materializePersistentDisk_apply, show r.named h (r.basePath h) t = (.ok v, d) from hcall]
      refine ⟨hsame, ⟨n, integer_eq hn, hle'⟩, ?_⟩
      rw [bind_of_ok hmat] at hprepare
      refine ⟨_, _, x, n * PersistentDisk.mib, hprepare, rfl, hnamed ▸ hstands.disk, hle, ?_⟩
      show (Function.update t.named r.namedDisk { d with calls := _ } r.namedDisk).files .diskPath = _
      rw [Function.update_self]
      exact hd
    · right
      have hmat : (r.materializePersistentDisk h (r.basePath h) t).1 = .error e := by
        rw [materializePersistentDisk_apply, show r.named h (r.basePath h) t = (.error e, d) from hcall]
      refine ⟨?_, e, (r.materializePersistentDisk h (r.basePath h) t).2, hprepare.trans (bind_of_error (Prod.ext hmat rfl))⟩
      rintro ⟨-, n, hn, hle⟩
      refine hwhy ⟨n, ?_, hpos.trans_le hle, hsize.le.trans (Nat.mul_le_mul_right _ hle)⟩
      show integer (chosenDiskMiB r.options) = _
      rw [hn]
      rfl
  · right
    have hcall := PersistentDisk.refused (c := r.persistentDisk h (r.basePath h) t) (t.named r.namedDisk).calls
      hstands hname hserved.fails hreset (fun heq => hsame (hkey.symm.trans heq))
    have hmat : (r.materializePersistentDisk h (r.basePath h) t).1 =
        .error (PersistentDisk.differentSource (r.options.persist.getD [])) := by
      rw [materializePersistentDisk_apply]
      exact congrArg Prod.fst hcall
    exact ⟨fun hboth => hsame hboth.1, _, (r.materializePersistentDisk h (r.basePath h) t).2,
      hprepare.trans (bind_of_error (Prod.ext hmat rfl))⟩

theorem truthy_of_validName {o : Option Text} (hvalid : PersistentDisk.validName (o.getD []) = true) : truthy o = true := by
  rcases o with _ | _ | ⟨c, rest⟩
  · cases hvalid
  · cases hvalid
  · rfl

/-- Two runs with one name and no reset. If they have the same source and the second does not ask for a smaller disk,
    it uses the disk of the first exactly if they have the same key; if their sources differ, it is refused exactly
    if the keys differ or it asks for a smaller disk. --/
theorem second_run {op₁ op₂ : Operation} {s₀ s₁ : Store Tree} {disks : List VmDisk}
    (hpersist : truthy r₁.options.persist = true) (hname : r₂.namedDisk = r₁.namedDisk)
    (hreset₁ : r₁.options.reset = false) (hreset₂ : r₂.options.reset = false)
    (hgone : (s₀.named r₁.namedDisk).files .diskPath = none → (s₀.named r₁.namedDisk).files .metaPath = none)
    (hfirst : r₁.runImage h op₁ s₀ = (.ok disks, s₁)) (hsecond : Served h op₂ r₂ s₁) (hsha : NoCollision h r₁ r₂) :
    (SameSource r₁.options r₂.options → NotSmaller r₁.options r₂.options → (Reuses h op₂ r₂ s₁ ↔ SameKey h r₁ r₂)) ∧
      (¬SameSource r₁.options r₂.options →
        (Rejected h op₂ r₂ s₁ ↔ ¬(SameKey h r₁ r₂ ∧ NotSmaller r₁.options r₂.options))) := by
  obtain ⟨hshape, prepared, u, hprepare, hstill⟩ := prepared_of_runImage (k := r₁.namedDisk) hfirst
  obtain ⟨m, hm⟩ : ∃ m, diskMiBFromOptions r₁.options = .ok m := by
    obtain ⟨_, _, _, hrest⟩ := bind_eq_ok hprepare
    obtain ⟨m, _, hm, _⟩ := bind_eq_ok hrest
    exact ⟨m, (lift_eq_ok hm).1⟩
  obtain ⟨hvalid, origin, n, hpos, hn, hholds⟩ := holds_of_prepared hpersist hreset₁ hshape hm hgone hprepare
  have hstands := hstill _ _ _ hholds
  rw [← hname] at hstands
  obtain ⟨hcache, hpersist'⟩ := Prod.mk.inj hname
  have hkey := rootDiskSourceKey_iff hsha hcache.symm
  have hsize : (∃ k : Nat, chosenDiskMiB r₂.options = .int (.ofNat k) ∧ n ≤ k) ↔ NotSmaller r₁.options r₂.options := by
    refine ⟨fun ⟨k, hk, hle⟩ => ⟨n, k, hn, hk, hle⟩, fun ⟨i, k, hi, hk, hle⟩ => ?_⟩
    cases hn.symm.trans hi
    exact ⟨k, hk, hle⟩
  rw [← hpersist'] at hvalid
  rcases prepare_on_disk hpos hstands (truthy_of_validName hvalid) hvalid hreset₂ hsecond with ⟨hsame, hle, hreuse⟩ | ⟨hnot, hrejected⟩
  · exact ⟨fun _ _ => iff_of_true hreuse (hkey.mp hsame), fun _ => iff_of_false (fun hr => not_reuses_of_rejected hr hreuse)
      fun hno => hno ⟨hkey.mp hsame, hsize.mp hle⟩⟩
  · refine ⟨fun _ hle => iff_of_false (not_reuses_of_rejected hrejected) fun hsame => ?_, fun _ => iff_of_true hrejected fun hboth => ?_⟩
    · exact hnot ⟨hkey.mpr hsame, hsize.mpr hle⟩
    · exact hnot ⟨hkey.mpr hboth.1, hsize.mpr hboth.2⟩

end Run

/-- The digests of the texts that the runs below hash. --/
def digests : Digests where
  known := [
    ("\x7b\"buildArgs\":\x7b\x7d,\"diskMiB\":2048,".toList,
      "cb8af7dc828b46aa53b1940d6bacba3751e67122ecb17d37a2938e217bbfef3c".toList),
    ("\x7b\"baseRootfsPath\":\"/cache/rootfs/cb8af7dc".toList,
      "99af3957589ab4566ae380829e140a991e7047e707e09be30d63ccdd053d3fae".toList),
    ("\x7b\"baseRootfsPath\":\"/tmp/run-a/vm-a.ext4".toList,
      "2527ed92be4b53dcbea7079a8b609c806de29c843f1875cdbf0852794a3ee8df".toList),
    ("\x7b\"baseRootfsPath\":\"/tmp/run-b/vm-b.ext4".toList,
      "2a4af829d7f60fc47a7ae06eda8b0f9688b25fbb6fd0e5b60051d62ca33dad88".toList)]
  hex := hex_of_all (by decide +kernel)

def host : Machine String := linuxHost digests ⟨["PATH=/bin".toList], [], ["/bin/sh".toList], []⟩ none

/-- Of an image that is cached. --/
def imageOptions : SdkRunOptions := { image := some "alpine:3.20".toList, persist := some "work".toList }

def dockerfileOptions : SdkRunOptions := { dockerfile := some "Dockerfile".toList, persist := some "work".toList }

/-- The last state of a run that returned. --/
def finished (x : Stored String (List VmDisk)) (s : Store String) (P : Store String → Bool) : Bool :=
  match x s with
  | (.ok _, t) => P t
  | (.error _, _) => false

theorem exists_finished {x : Stored String (List VmDisk)} {s : Store String} {P : Store String → Bool}
    (h : finished x s P = true) : ∃ disks t, x s = (.ok disks, t) ∧ P t = true := by
  unfold finished at h
  split at h
  · exact ⟨_, _, by assumption, h⟩
  · cases h

theorem exists_ok_of {α : Type} {x : Stored String α} {s : Store String} (h : (x s).1.isOk = true) :
    ∃ a t, x s = (.ok a, t) := by
  rcases hx : x s with ⟨e | a, t⟩
  · rw [hx] at h
    cases h
  · exact ⟨a, t, rfl⟩

/-- The theorem on two runs of the cached image: the second uses the disk of the first. --/
theorem second_run_image : ∃ disks s, (plainRun imageOptions "a").runImage host .run noFiles = (.ok disks, s) ∧
    Run.Reuses host .run (plainRun imageOptions "b") s := by
  obtain ⟨disks, s, hfirst, hbase⟩ := exists_finished (x := (plainRun imageOptions "a").runImage host .run) (s := noFiles)
    (P := fun s => ((plainRun imageOptions "b").baseRootfs host .run s).1.isOk) (by decide +kernel)
  have hserved : Run.Served host .run (plainRun imageOptions "b") s :=
    ⟨rfl, ⟨_, rfl⟩, exists_ok_of hbase, fun _ => rfl⟩
  have hsame : Run.SameKey host (plainRun imageOptions "a") (plainRun imageOptions "b") :=
    ⟨⟨rfl, rfl, rfl, rfl, rfl, rfl⟩, rfl, rfl, (if_pos ⟨⟨rfl, rfl⟩, rfl, rfl⟩).mpr rfl⟩
  have hpath : (plainRun imageOptions "a").basePath host = (plainRun imageOptions "b").basePath host := by
    rw [Run.basePath_of_cacheable ⟨rfl, rfl⟩, Run.basePath_of_cacheable ⟨rfl, rfl⟩]
    rfl
  have htext := Run.rootDiskSourceText_iff.mpr ⟨hsame.toSameFields, hsame.rootfsPath, hpath, hsame.platformArch⟩
  have hlaw := Run.second_run (by rfl) (by rfl) (by rfl) (by rfl)
    (fun _ => rfl) hfirst hserved ⟨fun _ => htext, fun _ => rfl⟩
  refine ⟨disks, s, hfirst, (hlaw.1 ?_ ⟨2048, 2048, rfl, rfl, le_rfl⟩).mpr hsame⟩
  exact ⟨rfl, rfl, rfl, rfl, rfl, rfl, rfl, List.Perm.refl _, List.Perm.refl _, rfl, rfl, rfl⟩

/-- Two runs of the same Dockerfile: the second is refused the disk of the first. --/
theorem not_reused_dockerfile : ∃ disks s,
    (plainRun dockerfileOptions "a").runImage host .run noFiles = (.ok disks, s) ∧
    Run.Served host .run (plainRun dockerfileOptions "b") s ∧
    Run.SameSource (plainRun dockerfileOptions "a").options (plainRun dockerfileOptions "b").options ∧
    Run.NotSmaller (plainRun dockerfileOptions "a").options (plainRun dockerfileOptions "b").options ∧
    Run.Rejected host .run (plainRun dockerfileOptions "b") s := by
  obtain ⟨disks, s, hfirst, hsecond⟩ := exists_finished (x := (plainRun dockerfileOptions "a").runImage host .run)
    (s := noFiles) (P := fun s => ((plainRun dockerfileOptions "b").baseRootfs host .run s).1.isOk &&
      !((plainRun dockerfileOptions "b").prepareRunRootDisk host .run s).1.isOk) (by decide +kernel)
  obtain ⟨hbase, hrejected⟩ := (Bool.and_eq_true ..).mp hsecond
  refine ⟨disks, s, hfirst, ⟨rfl, ⟨_, rfl⟩, exists_ok_of hbase, fun _ => rfl⟩, ?_, ⟨2048, 2048, rfl, rfl, le_rfl⟩, ?_⟩
  · exact ⟨rfl, rfl, rfl, rfl, rfl, rfl, rfl, List.Perm.refl _, List.Perm.refl _, rfl, rfl, rfl⟩
  · rcases hprepare : (plainRun dockerfileOptions "b").prepareRunRootDisk host .run s with ⟨e | prepared, t⟩
    · exact ⟨e, t, hprepare⟩
    · rw [hprepare] at hrejected
      cases hrejected

end NodeVmm.RootfsCache
