import NodeVmm.Theorems.RootDiskSource

/-! What the cache of root filesystems holds. A file is stored under the digest of the options, but a published root
    filesystem does not depend on most of them, the console helper depends on an option that is left out, and every
    path that a run is given may lead into the cache. -/

namespace NodeVmm.RootfsCache
open StableJson Exec

variable {Tree : Type} {h : Machine Tree} {o o' : SdkRunOptions} {source source' : Source}

/-! ### Builds of one key -/

theorem distinct_assign {key value : Text} {m : StringMap} (hm : JsObject.Distinct m) : JsObject.Distinct (assign key value m) := by
  rw [assign]
  split
  · exact hm
  · exact hm.set

theorem distinct_imageEnvToMap (env : List Text) : JsObject.Distinct (imageEnvToMap env) := by
  have hfold : ∀ (items : List Text) (m : StringMap), JsObject.Distinct m → JsObject.Distinct (items.foldl (fun m item =>
      let key := item.takeWhile (· ≠ '=')
      if key ≠ [] ∧ '=' ∈ item then assign key (item.drop (key.length + 1)) m else m) m) := by
    intro items
    induction items with
    | nil => exact fun _ hm => hm
    | cons item items ih =>
      intro m hm
      refine ih _ ?_
      dsimp only
      split
      · exact distinct_assign hm
      · exact hm
  exact hfold env [] List.nodup_nil

theorem distinct_mergeEnv {config : ImageConfig} {env : StringMap} : JsObject.Distinct (mergeEnv config env) :=
  (distinct_imageEnvToMap config.env).set.spread

/-- Assignments that are sorted alike make the same variables, and these are listed in one order. --/
theorem renderEnvFile_congr {config : ImageConfig} {a b : StringMap}
    (hab : sortByName h.localeCompare.le a = sortByName h.localeCompare.le b) :
    renderEnvFile h.localeCompare.le (mergeEnv config a) = renderEnvFile h.localeCompare.le (mergeEnv config b) := by
  have hrefl : ∀ k, h.localeCompare.le k k = true := fun k => (Bool.or_self _).symm.trans (h.localeCompare.total k k)
  have hget : ∀ k, JsObject.get k (mergeEnv config a) = JsObject.get k (mergeEnv config b) := by
    intro k
    unfold mergeEnv
    rw [JsObject.get_spread, JsObject.get_spread, ← filter_sortByName (hrefl k) a, hab, filter_sortByName (hrefl k)]
  have hperm := JsObject.perm_of_get distinct_mergeEnv distinct_mergeEnv hget
  have hlines := filter_sortByName_of_perm (p := fun e => isIdentifier e.1) h.localeCompare.total h.localeCompare.trans
    hperm ?_
  · unfold renderEnvFile
    rw [hlines]
  · rintro ⟨k, v⟩ hx ⟨l, w⟩ hy hpx hpy hxy hyx
    obtain rfl : k = l := h.localeCompare_identifiers k l hpx hpy hxy hyx
    have hv := (JsObject.mem_iff_get distinct_mergeEnv).mp hx
    rw [(JsObject.mem_iff_get distinct_mergeEnv).mp hy] at hv
    rw [Option.some.inj hv]

theorem cmd_of_cacheable (hc : isCacheableOciRootfs o source.dockerfile = true) :
    (Run.buildOptions h o source).cmd = none := if_pos hc

theorem not_dockerfile_of_cacheable (hc : isCacheableOciRootfs o source.dockerfile = true) :
    truthy (Run.buildOptions h o source).dockerfile = false := by
  simp only [isCacheableOciRootfs, Bool.and_eq_true, Bool.not_eq_true'] at hc
  exact hc.1.2

/-- Cacheable options with one text in the key build the same, up to the helper of the console. --/
theorem builtRootfs_congr (hc : isCacheableOciRootfs o source.dockerfile = true)
    (hc' : isCacheableOciRootfs o' source'.dockerfile = true) (htext : h.rootfsCacheText o = h.rootfsCacheText o')
    (hconsole : h.installsConsole o.initMode = h.installsConsole o'.initMode) :
    h.builtRootfs (Run.buildOptions h o source) = h.builtRootfs (Run.buildOptions h o' source') := by
  obtain ⟨hf, hdisk, harch⟩ := rootfsCacheText_iff.mp htext
  have hsource : h.sourceRootfs (Run.buildOptions h o source) = h.sourceRootfs (Run.buildOptions h o' source') := by
    unfold Machine.sourceRootfs
    rw [not_dockerfile_of_cacheable hc, not_dockerfile_of_cacheable hc']
    simp only [Run.buildOptions, hf.image, harch, Bool.false_eq_true, if_false]
    rfl
  unfold Machine.builtRootfs
  rw [hsource, cmd_of_cacheable hc, cmd_of_cacheable hc']
  simp only [Run.buildOptions, hdisk, hf.entrypoint, hf.workdir, hconsole]
  have henv : ∀ config : ImageConfig, renderEnvFile h.localeCompare.le (mergeEnv config (o.env.getD [])) =
      renderEnvFile h.localeCompare.le (mergeEnv config (o'.env.getD [])) := fun config => renderEnvFile_congr hf.env
  simp only [henv]

/-! ### Files of the cache -/

/-- A file with the name of a digest in the directory `rootfs` of a cache directory. --/
def IsCacheFile (p : Text) : Prop :=
  ∃ c k, PosixPath.isAbsolute c = true ∧ (∀ x ∈ k, isHexDigit x) ∧ p = cachedPath c k

theorem slash_not_mem_hex {k : Text} (hk : ∀ x ∈ k, isHexDigit x) : '/' ∉ k := fun hmem =>
  absurd (hk '/' hmem) (by decide)

theorem isCacheFile_cachedPath {c : Text} (hc : PosixPath.isAbsolute c = true) :
    IsCacheFile (cachedPath c (h.rootfsCacheKey o)) := ⟨c, _, hc, h.sha256_hex _, rfl⟩

theorem cachedPath_suffix {c k : Text} (hc : PosixPath.isAbsolute c = true) (hk : '/' ∉ k) :
    ∃ a, cachedPath c k = a ++ '/' :: (k ++ ".ext4".toList) := by
  rw [cachedPath_eq hc hk, PosixPath.ofNames_eq_flatMap (List.append_ne_nil_of_right_ne_nil _ (List.cons_ne_nil _ _)),
    List.flatMap_append, List.flatMap_singleton]
  exact ⟨_, rfl⟩

/-- A name with a dash is not a digest. --/
theorem not_isCacheFile_of_dash {a l : Text} (hslash : '/' ∉ l) (hdash : '-' ∈ l) : ¬IsCacheFile (a ++ l) := by
  rintro ⟨c, k, hc, hk, heq⟩
  obtain ⟨b, hb⟩ := cachedPath_suffix hc (slash_not_mem_hex hk)
  have hl : l <:+ b ++ '/' :: (k ++ ".ext4".toList) := ⟨a, heq.trans hb⟩
  have hcons : '/' :: (k ++ ".ext4".toList) <:+ b ++ '/' :: (k ++ ".ext4".toList) := ⟨b, rfl⟩
  rcases List.suffix_or_suffix_of_suffix hl hcons with hsuffix | hsuffix
  · rcases List.mem_cons.mp (hsuffix.mem hdash) with hmem | hmem
    · exact absurd hmem (by decide)
    · rcases List.mem_append.mp hmem with hmem | hmem
      · exact absurd (hk '-' hmem) (by decide)
      · exact absurd hmem (by decide)
  · exact hslash (hsuffix.mem List.mem_cons_self)

/-- A temporary name is not a digest. --/
theorem not_isCacheFile_tmp {c k u : Text} (hc : PosixPath.isAbsolute c = true) (hk : ∀ x ∈ k, isHexDigit x)
    (hu : '/' ∉ u) : ¬IsCacheFile (cachedPath c (k ++ ".tmp-".toList ++ u)) := by
  have hslash : '/' ∉ k ++ ".tmp-".toList ++ u := by
    rw [List.mem_append, List.mem_append, not_or, not_or]
    exact ⟨⟨slash_not_mem_hex hk, by decide⟩, hu⟩
  obtain ⟨a, ha⟩ := cachedPath_suffix hc hslash
  rw [ha, List.append_cons]
  refine not_isCacheFile_of_dash (List.mem_append.not.mpr (not_or.mpr ⟨hslash, by decide⟩)) ?_
  exact List.mem_append_left _ (List.mem_append_left _ (List.mem_append_right _ (by decide)))

/-- A named disk is not in the directory `rootfs`. --/
theorem not_isCacheFile_named {c name : Text} (hc : PosixPath.isAbsolute c = true)
    (hname : PersistentDisk.validName name = true) :
    ¬IsCacheFile (PosixPath.join (PosixPath.join c "disks".toList) (name ++ ".ext4".toList)) := by
  rintro ⟨c', k, hc', hk, heq⟩
  have hslash : '/' ∉ name := by
    intro hmem
    rcases name with _ | ⟨x, rest⟩
    · cases hmem
    · simp only [PersistentDisk.validName, Bool.and_eq_true, List.all_eq_true] at hname
      rcases List.mem_cons.mp hmem with rfl | hmem
      · exact absurd hname.1.1 (by decide)
      · exact absurd (hname.2 '/' hmem) (by decide)
  have hdisks : PosixPath.IsName "disks".toList := by decide
  have hnames : ∀ n ∈ PosixPath.normalizeString false c ++ ["disks".toList], PosixPath.IsName n := by
    intro n hn
    rcases List.mem_append.mp hn with hn | hn
    · exact PosixPath.normalizeString_names c n hn
    · rw [List.mem_singleton.mp hn]
      exact hdisks
  rw [PosixPath.join_of_absolute hc hdisks, PosixPath.join_ofNames_name hnames (ext4_isName hslash),
    cachedPath_eq hc' (slash_not_mem_hex hk)] at heq
  have hall : ∀ n ∈ PosixPath.normalizeString false c ++ ["disks".toList] ++ [name ++ ".ext4".toList],
      PosixPath.IsName n := by
    intro n hn
    rcases List.mem_append.mp hn with hn | hn
    · exact hnames n hn
    · rw [List.mem_singleton.mp hn]
      exact ext4_isName hslash
  have heqnames := PosixPath.ofNames_inj hall (cachedPath_names (slash_not_mem_hex hk)) heq
  have hdirs := (List.append_inj' (List.append_inj' heqnames rfl).1 rfl).2
  exact absurd (List.cons.inj hdirs).1 (by decide)

/-! ### What the files are -/

/-- The option sets whose keys are looked at, and which of the cached files have the helper of the console. --/
structure Scope (Tree : Type) where
  machine : Machine Tree
  texts : Text → Prop
  console : Text → Bool

/-- A cacheable option set in the scope, and where it is cached. --/
structure Cached (sc : Scope Tree) (o : SdkRunOptions) (source : Source) (p : Text) : Prop where
  cacheable : isCacheableOciRootfs o source.dockerfile = true
  text : sc.texts (sc.machine.rootfsCacheText o)
  path : ∃ c, PosixPath.isAbsolute c = true ∧ p = cachedPath c (sc.machine.rootfsCacheKey o)
  console : sc.machine.installsConsole o.initMode = sc.console p

/-- No two texts in the scope have one digest. --/
def Scope.NoCollision (sc : Scope Tree) : Prop :=
  ∀ a b, sc.texts a → sc.texts b → sc.machine.sha256 a = sc.machine.sha256 b → a = b

/-- Every cached file is what its options build. --/
def Good (sc : Scope Tree) (s : Store Tree) : Prop :=
  ∀ p f o source, s.files p = some f → Cached sc o source p →
    sc.machine.builtRootfs (Run.buildOptions sc.machine o source) = some f

/-- What is in the cache stays as it is, and what comes in is right. --/
structure CacheKept (sc : Scope Tree) (s t : Store Tree) : Prop where
  stays : ∀ p f, IsCacheFile p → s.files p = some f → t.files p = some f
  good : Good sc s → Good sc t

/-- The files of the cache are the same. --/
def SameCache (s t : Store Tree) : Prop := ∀ p, IsCacheFile p → t.files p = s.files p

section
variable {sc : Scope Tree} {s t : Store Tree} {p : Text} {f : File Tree}

theorem Cached.isCacheFile (hc : Cached sc o source p) : IsCacheFile p := by
  obtain ⟨c, habs, rfl⟩ := hc.path
  exact isCacheFile_cachedPath habs

theorem SameCache.kept (hs : SameCache s t) : CacheKept sc s t where
  stays p _ hp hf := (hs p hp).trans hf
  good hgood p f o source hf hc := hgood p f o source ((hs p hc.isCacheFile).symm.trans hf) hc

theorem sameCache_puts : Puts (fun p => ¬IsCacheFile p) fun s t : Store Tree => SameCache s t where
  refl _ _ _ := rfl
  trans hst htu p hp := (htu p hp).trans (hst p hp)
  put f hf s file p hp := by
    show Function.update s.files f file p = s.files p
    rw [Function.update_of_ne]
    rintro rfl
    exact hf hp

theorem cacheKept_frame : Frame fun s t : Store Tree => CacheKept sc s t where
  refl _ := ⟨fun _ _ _ hf => hf, fun hgood => hgood⟩
  trans hst htu := ⟨fun p f hp hf => htu.stays p f hp (hst.stays p f hp hf), fun hgood => htu.good (hst.good hgood)⟩

/-- Two cacheable option sets with one file build the same. --/
theorem builtRootfs_of_path (hsha : sc.NoCollision) (hc : Cached sc o source p) (hc' : Cached sc o' source' p) :
    sc.machine.builtRootfs (Run.buildOptions sc.machine o source) =
      sc.machine.builtRootfs (Run.buildOptions sc.machine o' source') := by
  obtain ⟨c, habs, hp⟩ := hc.path
  obtain ⟨c', habs', hp'⟩ := hc'.path
  have hkey := cachedPath_inj habs habs' (slash_not_mem_sha256 sc.machine) (slash_not_mem_sha256 sc.machine)
    (hp.symm.trans hp')
  exact builtRootfs_congr hc.cacheable hc'.cacheable (hsha _ _ hc.text hc'.text hkey) (hc.console.trans hc'.console.symm)

/-- A file that was not there comes in with the content of its options. --/
theorem cacheKept_of_new (hsha : sc.NoCollision) (hc : Cached sc o source p) (hnone : s.files p = none)
    (hf : sc.machine.builtRootfs (Run.buildOptions sc.machine o source) = some f) (hp : t.files p = some f)
    (hother : ∀ q, IsCacheFile q → q ≠ p → t.files q = s.files q) : CacheKept sc s t where
  stays q g hq hg := by
    by_cases hqp : q = p
    · rw [hqp, hnone] at hg
      cases hg
    · exact (hother q hq hqp).trans hg
  good hgood q g o' source' hg hc' := by
    by_cases hqp : q = p
    · subst hqp
      rw [builtRootfs_of_path hsha hc' hc, hf, ← hg, hp]
    · exact hgood q g o' source' ((hother q hc'.isCacheFile hqp).symm.trans hg) hc'

end

/-! ### Published root filesystems -/

/-- The script that makes the release builds an image on Linux in batch mode, without variables and directory. --/
def Machine.Released (h : Machine Tree) : Prop :=
  ∀ mapping ∈ prebuiltRootfsImages, ∀ version file, h.prebuilt version mapping.slug = some file →
    ∃ tree config, h.pullOciImage mapping.image "amd64".toList = some (tree, config) ∧ file.rootfs = {
      tree
      env := renderEnvFile h.localeCompare.le (mergeEnv config [])
      commandLine := commandLineFromImage config none none
      workdir := workdirFromImage config none
      console := false }

/-- The options ask for nothing that the published root filesystem of the image does not have. --/
structure AddsNothing (h : Machine Tree) (o : SdkRunOptions) (image : Text) : Prop where
  source : h.pullOciImage (o.image.getD []) (o.platformArch.getD h.defaultRootfsPlatformArch) =
    h.pullOciImage image "amd64".toList
  env : ∀ tree config, h.pullOciImage image "amd64".toList = some (tree, config) →
    renderEnvFile h.localeCompare.le (mergeEnv config (o.env.getD [])) =
      renderEnvFile h.localeCompare.le (mergeEnv config [])
  workdir : ∀ tree config, h.pullOciImage image "amd64".toList = some (tree, config) →
    workdirFromImage config o.workdir = workdirFromImage config none
  console : h.installsConsole o.initMode = false

/-- If the root filesystem of the options is downloaded, they add nothing to it. --/
def PlainDownload (h : Machine Tree) (o : SdkRunOptions) : Prop :=
  o.prebuilt ≠ some .off → canUseCurrentPrebuiltRootfsAssets (o.platformArch.getD h.defaultRootfsPlatformArch) = true →
    ∀ mapping ∈ prebuiltRootfsImages, prebuiltSlugForImage (o.image.getD []) = some mapping.slug →
      ∀ version ∈ h.packageVersion, (h.prebuilt version mapping.slug).isSome → AddsNothing h o mapping.image

theorem slug_mem {image slug : Text} (hslug : prebuiltSlugForImage image = some slug) :
    ∃ mapping ∈ prebuiltRootfsImages, mapping.slug = slug := by
  obtain ⟨mapping, hfind, rfl⟩ := Option.map_eq_some_iff.mp hslug
  exact ⟨mapping, List.mem_of_find?_eq_some hfind, rfl⟩

theorem not_entrypoint_of_cacheable (hc : isCacheableOciRootfs o source.dockerfile = true) :
    truthy o.entrypoint = false := by
  simp only [isCacheableOciRootfs, Bool.and_eq_true, Bool.not_eq_true'] at hc
  exact hc.2

theorem image_of_cacheable (hc : isCacheableOciRootfs o source.dockerfile = true) : truthy o.image = true := by
  simp only [isCacheableOciRootfs, Bool.and_eq_true] at hc
  exact hc.1.1.1.1.1

theorem truthy_of_supported {arch : Text} (ha : canUseCurrentPrebuiltRootfsAssets arch = true) :
    truthy (some arch) = true := by
  cases arch with
  | nil => exact absurd ha (by decide)
  | cons c rest => rfl

/-- What is downloaded is the build of the options, but for the size. --/
theorem builtRootfs_of_download {mapping : PrebuiltRootfsImageMapping} {version : Text} {file : File Tree} {n : Nat}
    (hrel : h.Released) (hm : mapping ∈ prebuiltRootfsImages) (hfile : h.prebuilt version mapping.slug = some file)
    (hc : isCacheableOciRootfs o source.dockerfile = true) (hadds : AddsNothing h o mapping.image)
    (harch : canUseCurrentPrebuiltRootfsAssets (o.platformArch.getD h.defaultRootfsPlatformArch) = true)
    (hn : chosenDiskMiB o = .int (.ofNat (n + 1))) :
    h.builtRootfs (Run.buildOptions h o source) = some { file with size := (n + 1) * mib } := by
  obtain ⟨tree, config, hpull, hrootfs⟩ := hrel mapping hm version file hfile
  have hsource : h.sourceRootfs (Run.buildOptions h o source) = some (tree, config) := by
    unfold Machine.sourceRootfs
    rw [not_dockerfile_of_cacheable hc]
    show (if !truthy o.image then none else h.pullOciImage (o.image.getD [])
      (orElse (some (o.platformArch.getD h.defaultRootfsPlatformArch)) _)) = _
    rw [image_of_cacheable hc, orElse, if_pos (truthy_of_supported harch), ← hpull]
    exact hadds.source
  have hcommand : commandLineFromImage config none o.entrypoint = commandLineFromImage config none none := by
    unfold commandLineFromImage
    rw [not_entrypoint_of_cacheable hc]
    rfl
  have hsize : (Run.buildOptions h o source).diskMiB = .int (.ofNat (n + 1)) := hn
  unfold Machine.builtRootfs
  rw [hsource, cmd_of_cacheable hc, hrootfs, hsize]
  simp only [Option.map_some, Run.buildOptions, hcommand, hadds.env tree config hpull, hadds.workdir tree config hpull,
    hadds.console]

/-! ### Filling the cache -/

namespace Run
variable {r : Run Tree} {sc : Scope Tree} {s t : Store Tree} {p tmp : Text} {f : File Tree} {op stat truncate : Op}

theorem write_ok {file : Option (File Tree)} {u : Unit} (hw : r.write op p file s = (.ok u, t)) :
    ∃ f, file = some f ∧ t = s.put p (some f) := by
  unfold write at hw
  rcases file with _ | f
  · obtain ⟨_, _, _, hthrow⟩ := bind_eq_ok hw
    cases hthrow
  · cases hfails : r.fails op with
    | true =>
      rw [hfails] at hw
      obtain ⟨_, _, _, hthrow⟩ := bind_eq_ok hw
      cases hthrow
    | false =>
      rw [hfails] at hw
      cases hw
      exact ⟨f, rfl, rfl⟩

theorem rename_ok {u : Unit} (hr : r.rename op tmp p s = (.ok u, t)) :
    ∃ f, s.files tmp = some f ∧ t = (s.put tmp none).put p (some f) := by
  obtain ⟨_, v, hattempt, hrest⟩ := bind_eq_ok hr
  obtain ⟨-, rfl⟩ := check_eq_ok hattempt
  rw [bind_of_ok get_apply] at hrest
  rcases hf : v.files tmp with _ | f
  · rw [hf] at hrest
    cases hrest
  · rw [hf] at hrest
    cases hrest
    exact ⟨f, rfl, rfl⟩

theorem ensure_ok {diskMiB : Number} {b : Bool} (he : r.ensureDiskSizeAtLeast stat truncate p diskMiB s = (.ok b, t)) :
    ∃ n f, diskMiB = .int (.ofNat (n + 1)) ∧ s.files p = some f ∧ t.files p = some { f with size := (n + 1) * mib } := by
  unfold ensureDiskSizeAtLeast at he
  split at he
  · rename_i n
    obtain ⟨_, v, hattempt, hrest⟩ := bind_eq_ok he
    obtain ⟨-, rfl⟩ := check_eq_ok hattempt
    rw [bind_of_ok get_apply] at hrest
    rcases hf : v.files p with _ | f
    · rw [hf] at hrest
      cases hrest
    · rw [hf] at hrest
      dsimp only at hrest
      split at hrest
      · cases hrest
      · split at hrest
        · rename_i hsize
          cases hrest
          exact ⟨n, f, rfl, rfl, by rw [hf, ← hsize]⟩
        · obtain ⟨_, w, hattempt, hlast⟩ := bind_eq_ok hrest
          obtain ⟨-, rfl⟩ := check_eq_ok hattempt
          obtain ⟨_, w, hput, hlast⟩ := bind_eq_ok hlast
          cases hput
          cases hlast
          exact ⟨n, f, rfl, rfl, Function.update_self ..⟩
  · cases he

/-- A file that is what the options build is moved to where it is looked for. --/
theorem kept_rename (hsha : sc.NoCollision) (hc : Cached sc o source p) (htmp : ¬IsCacheFile tmp)
    (hnone : s.files p = none)
    (hbuilt : ∀ f, s.files tmp = some f → sc.machine.builtRootfs (buildOptions sc.machine o source) = some f) :
    CacheKept sc s (r.rename op tmp p s).2 := by
  have hF : Frame fun s t : Store Tree => CacheKept sc s t := cacheKept_frame
  unfold rename
  refine hF.bind (keeps_attempt sameCache_puts s).kept fun _ t hattempt => ?_
  obtain ⟨-, rfl⟩ := check_eq_ok hattempt
  rw [bind_of_ok get_apply]
  rcases hf : t.files tmp with _ | f
  · exact hF.refl t
  · refine cacheKept_of_new hsha hc hnone (hbuilt f hf) (Function.update_self ..) fun q hq hne => ?_
    show Function.update (Function.update t.files tmp none) p (some f) q = t.files q
    rw [Function.update_of_ne hne, Function.update_of_ne]
    rintro rfl
    exact htmp hq

theorem kept_buildCached (hsha : sc.NoCollision) (hc : Cached sc o source p) (htmp : ¬IsCacheFile tmp)
    (hnone : s.files p = none) :
    CacheKept sc s (r.buildCached sc.machine (buildOptions sc.machine o source) tmp p s).2 := by
  have hF : Frame fun s t : Store Tree => CacheKept sc s t := cacheKept_frame
  have hsame : Puts (fun p => ¬IsCacheFile p) fun s t : Store Tree => SameCache s t := sameCache_puts
  refine hF.tryCatch ?_ fun e t _ => (Keeps.bind hsame.toFrame (keeps_rm hsame htmp) (fun _ => Keeps.throw hsame.toFrame) t).kept
  refine hF.bind (keeps_write hsame htmp s).kept fun _ t hw => hF.bind ?_ fun _ _ _ => hF.refl _
  obtain ⟨f, hbuilt, rfl⟩ := write_ok hw
  refine kept_rename hsha hc htmp ?_ fun g hg => ?_
  · show Function.update s.files tmp (some f) p = none
    rw [Function.update_of_ne, hnone]
    rintro rfl
    exact htmp hc.isCacheFile
  · have hput : (s.put tmp (some f)).files tmp = some f := Function.update_self ..
    rw [hbuilt, ← hg, hput]

/-- The download with its resize, from the file that it has put under the temporary name. --/
theorem kept_download {mapping : PrebuiltRootfsImageMapping} {version : Text} (hsha : sc.NoCollision)
    (hrel : sc.machine.Released) (hm : mapping ∈ prebuiltRootfsImages) (hfile : sc.machine.prebuilt version mapping.slug = some f)
    (hadds : AddsNothing sc.machine o mapping.image)
    (harch : canUseCurrentPrebuiltRootfsAssets (o.platformArch.getD sc.machine.defaultRootfsPlatformArch) = true)
    (hc : Cached sc o source p) (htmp : ¬IsCacheFile tmp) (hnone : s.files p = none) (hf : s.files tmp = some f) :
    CacheKept sc s (tryCatch (do
        let resizeRootfs ← r.ensureDiskSizeAtLeast .statTmp .truncateTmp tmp (chosenDiskMiB o)
        r.rename .renameTmp tmp p
        return some (⟨p, true, true, resizeRootfs⟩ : BuiltRootfs))
      (fun e => do
        r.rm .rmTmp tmp
        throw e) s).2 := by
  have hF : Frame fun s t : Store Tree => CacheKept sc s t := cacheKept_frame
  have hsame : Puts (fun p => ¬IsCacheFile p) fun s t : Store Tree => SameCache s t := sameCache_puts
  refine hF.tryCatch ?_ fun e t _ => (Keeps.bind hsame.toFrame (keeps_rm hsame htmp) (fun _ => Keeps.throw hsame.toFrame) t).kept
  refine hF.bind (keeps_ensure hsame htmp s).kept fun b t he => hF.bind ?_ fun _ _ _ => hF.refl _
  have hnone' : t.files p = none := by
    have hensure : Keeps (fun s t => SameCache s t)
        (r.ensureDiskSizeAtLeast .statTmp .truncateTmp tmp (chosenDiskMiB o)) := keeps_ensure hsame htmp
    have hkeeps := hensure s
    rw [he] at hkeeps
    exact (hkeeps p hc.isCacheFile).trans hnone
  obtain ⟨n, g, hn, hg, ht⟩ := ensure_ok he
  cases hg.symm.trans hf
  refine kept_rename hsha hc htmp hnone' fun x hx => ?_
  rw [builtRootfs_of_download hrel hm hfile hc.cacheable hadds harch hn, ← hx, ht]

theorem kept_usePrebuilt (hsha : sc.NoCollision) (hrel : sc.machine.Released) (hplain : PlainDownload sc.machine o)
    (hc : Cached sc o source p) (htmp : ¬IsCacheFile tmp) (hnone : s.files p = none) :
    CacheKept sc s (r.usePrebuilt sc.machine o tmp p s).2 := by
  have hF : Frame fun s t : Store Tree => CacheKept sc s t := cacheKept_frame
  have hsame : Puts (fun p => ¬IsCacheFile p) fun s t : Store Tree => SameCache s t := sameCache_puts
  unfold usePrebuilt
  refine hF.bind (Keeps.check hF s) fun _ t hcheck => ?_
  obtain ⟨-, rfl⟩ := check_eq_ok hcheck
  refine hF.bind (Keeps.check hF t) fun _ u hcheck => ?_
  obtain ⟨-, rfl⟩ := check_eq_ok hcheck
  rcases hslug : prebuiltSlugForImage (o.image.getD []) with _ | slug
  · exact hF.refl u
  dsimp only
  split
  · exact hF.refl u
  rename_i huse
  simp only [Bool.or_eq_true, decide_eq_true_eq, Bool.not_eq_true', not_or, Bool.not_eq_false] at huse
  refine hF.bind (Keeps.check hF u) fun _ w hcheck => ?_
  obtain ⟨-, rfl⟩ := check_eq_ok hcheck
  rcases hversion : sc.machine.packageVersion with _ | version
  · exact hF.refl w
  have hgone : CacheKept sc w ((do
      Exec.modify (Store.put tmp none)
      Exec.check (!(o.prebuilt.getD .auto = .require))
        ("required prebuilt rootfs unavailable for " ++ (o.image.getD []).str ++ ": " ++ r.fetchReason)
      return none : Stored Tree (Option BuiltRootfs)) w).2 :=
    (Keeps.bind hsame.toFrame (keeps_put hsame htmp) (fun _ => Keeps.bind hsame.toFrame (Keeps.check hsame.toFrame)
      fun _ => Keeps.pure hsame.toFrame) w).kept
  dsimp only
  rcases hfile : sc.machine.prebuilt version slug with _ | file
  · exact hgone
  cases hfetch : r.fails .fetch with
  | true => exact hgone
  | false =>
    refine hF.bind (keeps_put hsame htmp w).kept fun _ v hput => ?_
    cases hput
    obtain ⟨mapping, hm, rfl⟩ := slug_mem hslug
    have hoff : o.prebuilt ≠ some .off := fun hoff => huse.1 (by rw [hoff]; rfl)
    have hadds := hplain hoff huse.2 mapping hm hslug version hversion (hfile ▸ rfl)
    refine kept_download hsha hrel hm hfile hadds huse.2 hc htmp ?_ (Function.update_self ..)
    show Function.update w.files tmp (some file) p = none
    rw [Function.update_of_ne, hnone]
    rintro rfl
    exact htmp hc.isCacheFile

theorem buildCached_ok {build : RootfsBuildOptions} {b : BuiltRootfs} (hb : r.buildCached h build tmp p s = (.ok b, t)) :
    (t.files p).isSome := by
  obtain ⟨_, u, -, hrest⟩ := bind_eq_ok (tryCatch_rethrow_eq_ok hb)
  obtain ⟨_, v, hrename, hlast⟩ := bind_eq_ok hrest
  obtain ⟨f, -, rfl⟩ := rename_ok hrename
  cases hlast
  exact Option.isSome_iff_exists.mpr ⟨f, Function.update_self ..⟩

/-- A download that is used is in the cache; another one has not touched it. --/
theorem usePrebuilt_ok {b : Option BuiltRootfs} (hne : p ≠ tmp) (hb : r.usePrebuilt h o tmp p s = (.ok b, t)) :
    b = none ∧ t.files p = s.files p ∨ b.isSome ∧ (t.files p).isSome := by
  unfold usePrebuilt at hb
  obtain ⟨_, u, hpublished, hafter⟩ := bind_eq_ok hb
  obtain ⟨-, rfl⟩ := check_eq_ok hpublished
  obtain ⟨_, v, hsupported, hslugs⟩ := bind_eq_ok hafter
  obtain ⟨-, rfl⟩ := check_eq_ok hsupported
  rcases hslug : prebuiltSlugForImage (o.image.getD []) with _ | slug <;> rw [hslug] at hslugs <;> dsimp only at hslugs
  · cases hslugs
    exact .inl ⟨rfl, rfl⟩
  split at hslugs
  · cases hslugs
    exact .inl ⟨rfl, rfl⟩
  obtain ⟨_, w, hrelease, hversions⟩ := bind_eq_ok hslugs
  obtain ⟨-, rfl⟩ := check_eq_ok hrelease
  rcases hversion : h.packageVersion with _ | version <;> rw [hversion] at hversions <;> dsimp only at hversions
  · cases hversions
    exact .inl ⟨rfl, rfl⟩
  have hgone : ∀ {ok : Bool} {m : String}, (do
      Exec.modify (Store.put tmp none)
      Exec.check ok m
      return none : Stored Tree (Option BuiltRootfs)) w = (.ok b, t) → b = none ∧ t.files p = w.files p := by
    intro ok m hgone
    obtain ⟨_, x, hput, hlast⟩ := bind_eq_ok hgone
    cases hput
    obtain ⟨_, y, hcheck, hreturn⟩ := bind_eq_ok hlast
    obtain ⟨-, rfl⟩ := check_eq_ok hcheck
    cases hreturn
    exact ⟨rfl, Function.update_of_ne hne ..⟩
  rcases hfile : h.prebuilt version slug with _ | file <;> rw [hfile] at hversions
  · exact .inl (hgone hversions)
  cases hfetch : r.fails .fetch <;> rw [hfetch] at hversions
  · right
    obtain ⟨_, x, hput, htry⟩ := bind_eq_ok hversions
    obtain ⟨_, y, -, hmove⟩ := bind_eq_ok (tryCatch_rethrow_eq_ok htry)
    obtain ⟨_, z, hrename, hlast⟩ := bind_eq_ok hmove
    obtain ⟨f, -, rfl⟩ := rename_ok hrename
    cases hlast
    exact ⟨rfl, Option.isSome_iff_exists.mpr ⟨f, Function.update_self ..⟩⟩
  · exact .inl (hgone hversions)

/-- What the options of a call may do: they are cached with what is built, and their own output is not in the cache. --/
structure Usable (sc : Scope Tree) (o : SdkRunOptions) (source : Source) (output cacheDir : Text) : Prop where
  output : isCacheableOciRootfs o source.dockerfile = false → ¬IsCacheFile output
  cached : isCacheableOciRootfs o source.dockerfile = true →
    Cached sc o source (cachedPath cacheDir (sc.machine.rootfsCacheKey o))
  download : isCacheableOciRootfs o source.dockerfile = true → PlainDownload sc.machine o

section
variable {output cacheDir : Text} {b : BuiltRootfs}

def tmpPath (r : Run Tree) (h : Machine Tree) (o : SdkRunOptions) (cacheDir : Text) : Text :=
  cachedPath cacheDir (h.rootfsCacheKey o ++ ".tmp-".toList ++ r.unique)

theorem not_isCacheFile_tmpPath (habs : PosixPath.isAbsolute cacheDir = true) :
    ¬IsCacheFile (r.tmpPath h o cacheDir) := not_isCacheFile_tmp habs (h.sha256_hex _) r.unique_name

theorem cached_ne_tmp (habs : PosixPath.isAbsolute cacheDir = true) :
    cachedPath cacheDir (h.rootfsCacheKey o) ≠ r.tmpPath h o cacheDir := fun heq =>
  not_isCacheFile_tmpPath (r := r) habs (heq ▸ isCacheFile_cachedPath habs)

theorem kept_buildOrReuseRootfs (hsha : sc.NoCollision) (hrel : sc.machine.Released)
    (habs : PosixPath.isAbsolute cacheDir = true) (hu : Usable sc o source output cacheDir) :
    Keeps (fun s t => CacheKept sc s t) (r.buildOrReuseRootfs sc.machine o source output cacheDir) := by
  have hF : Frame fun s t : Store Tree => CacheKept sc s t := cacheKept_frame
  have hsame : Puts (fun p => ¬IsCacheFile p) fun s t : Store Tree => SameCache s t := sameCache_puts
  refine Keeps.bind hF (Keeps.lift hF) fun _ => Keeps.bind hF (Keeps.check hF) fun _ => ?_
  refine Keeps.ite (fun hnot => ?_) fun hnot s => ?_
  · have hout := hu.output ((Bool.not_eq_true' _).mp hnot)
    exact Keeps.bind hF (fun s => (keeps_write hsame hout s).kept) fun _ => Keeps.pure hF
  · have hcacheable : isCacheableOciRootfs o source.dockerfile = true := by simpa using hnot
    have hc := hu.cached hcacheable
    refine hF.bind (keeps_attempt hsame s).kept fun _ t hattempt => ?_
    obtain ⟨-, rfl⟩ := check_eq_ok hattempt
    rw [bind_of_ok get_apply]
    split
    · exact hF.refl t
    · rename_i hnone
      rw [Option.not_isSome_iff_eq_none] at hnone
      have htmp := not_isCacheFile_tmpPath (r := r) (h := sc.machine) (o := o) habs
      refine hF.bind (kept_usePrebuilt hsha hrel (hu.download hcacheable) hc htmp hnone) fun prebuilt u huse => ?_
      cases prebuilt with
      | some built => exact hF.refl u
      | none =>
        rcases usePrebuilt_ok (cached_ne_tmp habs) huse with ⟨-, hsame⟩ | ⟨hsome, -⟩
        · exact kept_buildCached hsha hc htmp (hsame.trans hnone)
        · cases hsome

/-- The file that is returned for cacheable options is there. --/
theorem buildOrReuseRootfs_ok (habs : PosixPath.isAbsolute cacheDir = true)
    (hcacheable : isCacheableOciRootfs o source.dockerfile = true)
    (hb : r.buildOrReuseRootfs h o source output cacheDir s = (.ok b, t)) : (t.files b.rootfsPath).isSome := by
  rw [(returns_buildOrReuseRootfs s b t hb).1, if_pos hcacheable]
  unfold buildOrReuseRootfs at hb
  obtain ⟨_, u, hdisk, hrequired⟩ := bind_eq_ok hb
  obtain ⟨_, v, -, hafter⟩ := bind_eq_ok hrequired
  rw [hcacheable] at hafter
  obtain ⟨_, w, -, hlookup⟩ := bind_eq_ok hafter
  rw [bind_of_ok get_apply] at hlookup
  split at hlookup
  · cases hlookup
    assumption
  · obtain ⟨prebuilt, x, huse, hlast⟩ := bind_eq_ok hlookup
    rcases usePrebuilt_ok (cached_ne_tmp habs) huse with ⟨rfl, -⟩ | ⟨hsome, hfile⟩
    · exact buildCached_ok hlast
    · obtain ⟨built, rfl⟩ := Option.isSome_iff_exists.mp hsome
      cases hlast
      exact hfile

end
end Run

end NodeVmm.RootfsCache
