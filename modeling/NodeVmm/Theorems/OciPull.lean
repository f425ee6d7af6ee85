import NodeVmm.OciPull

/-! The trust chain of a pull. The config and the layers always hash to the digest that names them, whether
    they were downloaded or found in the cache. A manifest is parsed as it came: the one that the user named
    by digest, and the one that an index selects, are what their digest says only if the registry is honest
    about them. -/

namespace NodeVmm.Oci

/-- `digest` is the SHA-256 digest of `bytes`. --/
def HashesTo (host : Host) (digest : Text) (bytes : Bytes) : Prop := sha256FromDigest digest = .ok (host.sha256 bytes)

instance {host : Host} {digest : Text} {bytes : Bytes} : Decidable (HashesTo host digest bytes) :=
  inferInstanceAs (Decidable (_ = _))

/-- Every document that the pull used hashes to the digest that named it, in the reference or in the parent
    document. --/
structure Bound (host : Host) (image osName arch : Text) (p : Pulled) (files : Text → Option Bytes) : Prop where
  reference : referenceDigest image ≠ [] → HashesTo host (referenceDigest image) p.manifestBody
  platform : ∀ d body, p.platform = some (d, body) → HashesTo host d.digest body
  config : HashesTo host p.configBlob.1.digest p.configBlob.2
  layers : ∀ l ∈ p.layers, ∃ bytes, files l.2 = some bytes ∧ HashesTo host l.1.digest bytes
  parents : ∃ outer manifest blob, host.parseManifest p.manifestBody = .ok outer ∧
    ((outer.manifests = none ∧ p.platform = none ∧ manifest = outer) ∨
      ∃ manifests d body, outer.manifests = some manifests ∧ selectPlatform manifests osName arch = .ok d ∧
        p.platform = some (d, body) ∧ host.parseManifest body = .ok manifest) ∧
    manifest.config = some p.configBlob.1 ∧ manifest.layers = some (p.layers.map Prod.fst) ∧
    host.parseConfig p.configBlob.2 = .ok blob ∧ p.config = imageConfigFromBlob blob

/-- What the registry serves for a manifest that a digest names hashes to that digest. --/
structure Honest (host : Host) (image osName arch : Text) (c : Client) : Prop where
  reference : ∀ ref body c₁, parseImageReference image = .ok ref → referenceDigest image ≠ [] →
    fetchBody host ref (manifestPath ref ref.reference) c = (.ok body, c₁) → HashesTo host (referenceDigest image) body
  platform : ∀ ref body c₁ outer manifests d inner c₂, parseImageReference image = .ok ref →
    fetchBody host ref (manifestPath ref ref.reference) c = (.ok body, c₁) → host.parseManifest body = .ok outer →
    outer.manifests = some manifests → selectPlatform manifests osName arch = .ok d →
    fetchBody host ref (manifestPath ref d.digest) c₁ = (.ok inner, c₂) → HashesTo host d.digest inner

/-- Two texts of bytes with one hash. --/
def Collision (host : Host) : Prop := ∃ x y, x ≠ y ∧ host.sha256 x = host.sha256 y

/-- Two pulls gave the same config and the same layers. --/
def SameImage (p₁ : Pulled) (files₁ : Text → Option Bytes) (p₂ : Pulled) (files₂ : Text → Option Bytes) : Prop :=
  p₁.config = p₂.config ∧ p₁.layers.map (fun l => files₁ l.2) = p₂.layers.map fun l => files₂ l.2

/-! ### Files that a step leaves alone -/

/-- `c'` has the files of `c` outside `S`. --/
def Others (S : Text → Prop) (c c' : Client) : Prop := ∀ f, ¬S f → c'.files f = c.files f

section
variable {S : Text → Prop} {host : Host} {ref : ImageReference} {c c' : Client}

theorem others_frame (S : Text → Prop) : Exec.Frame (Others S) :=
  ⟨fun _ _ _ => rfl, fun h₁ h₂ f hf => (h₂ f hf).trans (h₁ f hf)⟩

theorem keeps_fetch {request : Request} : Exec.Keeps (Others S) (fetch host request) := by
  refine .bind (others_frame S) (.get (others_frame S)) fun _ => ?_
  exact .bind (others_frame S) (.modify fun _ _ _ => rfl) fun _ => .lift (others_frame S)

theorem keeps_fetchAuthorized {apiPath accept : Text} :
    Exec.Keeps (Others S) (fetchAuthorized host ref apiPath accept) := by
  have hF := others_frame S
  unfold fetchAuthorized
  refine .bind hF (.get hF) fun c => ?_
  refine .bind hF keeps_fetch fun response => ?_
  split
  · exact .bind hF (.check hF) fun _ => .pure hF
  · split
    · refine .bind hF (.lift hF) fun tokenUrl => ?_
      refine .bind hF (.lift hF) fun _ => ?_
      refine .bind hF keeps_fetch fun tokenResponse => ?_
      refine .bind hF (.check hF) fun _ => ?_
      refine .bind hF (.lift hF) fun _ => ?_
      refine .bind hF (.lift hF) fun token => ?_
      refine .bind hF (.modify fun _ _ _ => rfl) fun _ => ?_
      refine .bind hF (.check hF) fun _ => ?_
      refine .bind hF keeps_fetch fun response => ?_
      exact .bind hF (.check hF) fun _ => .pure hF
    · exact .throw hF

theorem keeps_fetchBody {apiPath : Text} : Exec.Keeps (Others S) (fetchBody host ref apiPath) := by
  have hF := others_frame S
  unfold fetchBody
  refine .bind hF keeps_fetchAuthorized fun response => ?_
  split
  · exact .throw hF
  · exact .pure hF

theorem keeps_verifyDigestFile {file digest : Text} : Exec.Keeps (Others S) (verifyDigestFile host file digest) := by
  have hF := others_frame S
  unfold verifyDigestFile
  refine .bind hF (.lift hF) fun _ => ?_
  refine .bind hF (.get hF) fun c => ?_
  cases c.files file with
  | none => exact .throw hF
  | some bytes => exact .lift hF

theorem keeps_setFile {file : Text} {content : Option Bytes} (h : S file) :
    Exec.Keeps (Others S) (Exec.modify (setFile file content)) :=
  .modify fun _ f hf => if_neg fun heq : f = file => hf (heq ▸ h)

theorem keeps_downloadBlob {descriptor : Descriptor} {output : Text} (h : S output) :
    Exec.Keeps (Others S) (downloadBlob host ref descriptor output) := by
  have hF := others_frame S
  have hsize : ∀ n limit, Exec.Keeps (Others S) (checkSize descriptor.digest limit n) := fun n limit => by
    cases n with
    | some size => exact .check hF
    | none => exact .pure hF
  unfold downloadBlob
  refine .bind hF (.lift hF) fun maxBytes => ?_
  refine .bind hF (hsize _ _) fun _ => ?_
  refine .bind hF keeps_fetchAuthorized fun response => ?_
  cases response.body with
  | none => exact .throw hF
  | some bytes =>
    refine .bind hF (hsize _ _) fun _ => ?_
    split
    · exact .bind hF (keeps_setFile h) fun _ => .throw hF
    · refine .bind hF (keeps_setFile h) fun _ => ?_
      cases response.bodyError with
      | some e => exact .throw hF
      | none => exact .pure hF

end

/-! ### Verified files -/

section
variable {host : Host} {ref : ImageReference} {c c' : Client}

theorem verifyDigestFile_ok {file digest : Text} (h : verifyDigestFile host file digest c = (.ok (), c')) :
    c' = c ∧ ∃ bytes, c.files file = some bytes ∧ HashesTo host digest bytes := by
  unfold verifyDigestFile at h
  obtain ⟨hex, c₁, hlift, hrest⟩ := Exec.bind_eq_ok h
  obtain ⟨hhex, rfl⟩ := Exec.lift_eq_ok hlift
  rw [Exec.bind_of_ok Exec.get_apply] at hrest
  rcases hf : c₁.files file with _ | bytes
  · rw [hf] at hrest
    cases hrest
  · rw [hf] at hrest
    obtain ⟨hv, rfl⟩ := Exec.lift_eq_ok hrest
    refine ⟨rfl, bytes, rfl, ?_⟩
    unfold verifyDigest at hv
    rw [hhex] at hv
    simp only [bind, Except.bind] at hv
    split at hv
    · cases hv
    · rename_i heq
      rw [not_not] at heq
      rw [HashesTo, hhex, heq]

/-- A name of a verified blob has no dot, so no temporary file has it. --/
theorem dot_not_mem_safeDigestName {digest hex : Text} (h : sha256FromDigest digest = .ok hex) :
    '.' ∉ safeDigestName digest := by
  unfold sha256FromDigest at h
  dsimp only at h
  split at h
  · rename_i hok
    simp only [Bool.and_eq_true, beq_iff_eq, List.all_eq_true] at hok
    obtain ⟨⟨hpre, -⟩, hhex⟩ := hok
    intro hdot
    obtain ⟨ch, hch, hmem⟩ := List.mem_flatMap.mp hdot
    have hne : ch = '.' := by
      split at hmem
      · exact (List.mem_singleton.mp hmem).symm
      · split at hmem <;> simp at hmem
    subst hne
    have hsplit : digest = "sha256:".toList ++ digest.drop "sha256:".toList.length := by
      obtain ⟨rest, hrest⟩ := List.isPrefixOf_iff_prefix.mp hpre
      rw [← hrest, List.drop_left]
    rw [hsplit] at hch
    rcases List.mem_append.mp hch with hm | hm
    · exact absurd hm (by decide)
    · exact absurd (hhex _ hm) (by decide)
  · cases h

/-- A blob that was pulled is in the cache under its name, hashes to its digest, and no other file that
    could be a blob changed. --/
theorem downloadBlobCached_ok {d : Descriptor} {path : Text} (h : downloadBlobCached host ref d c = (.ok path, c')) :
    path = safeDigestName d.digest ∧ (∃ bytes, c'.files path = some bytes ∧ HashesTo host d.digest bytes) ∧
      ∀ f bytes, '.' ∉ f → c.files f = some bytes → c'.files f = some bytes := by
  unfold downloadBlobCached at h
  rw [Exec.bind_of_ok Exec.get_apply] at h
  split at h
  · -- the blob is in the cache
    obtain ⟨_, c₁, hverify, hpure⟩ := Exec.bind_eq_ok h
    obtain ⟨rfl, hbytes⟩ := verifyDigestFile_ok hverify
    cases hpure
    exact ⟨rfl, hbytes, fun _ _ _ hf => hf⟩
  · rename_i hnew
    obtain ⟨_, c₁, htry, hpure⟩ := Exec.bind_eq_ok h
    cases hpure
    generalize htmp : safeDigestName d.digest ++ ".tmp-".toList ++ host.pid = tmp at htry
    have hdot : '.' ∈ tmp := by
      rw [← htmp]
      exact List.mem_append_left _ (List.mem_append_right _ (by decide))
    rcases hbody : (downloadBlob host ref d tmp >>= fun _ => verifyDigestFile host tmp d.digest >>= fun _ =>
        Exec.modify fun c => setFile tmp none (setFile (safeDigestName d.digest) (c.files tmp) c)) c with ⟨e | u, c₂⟩
    · have := htry.symm.trans (Exec.tryCatch_of_error hbody)
      cases this
    · have heq := htry.symm.trans (Exec.tryCatch_of_ok hbody)
      cases heq
      obtain ⟨_, c₃, hdown, hrest⟩ := Exec.bind_eq_ok hbody
      obtain ⟨_, c₄, hverify, hmove⟩ := Exec.bind_eq_ok hrest
      obtain ⟨rfl, bytes, hbytes, hhash⟩ := verifyDigestFile_ok hverify
      have hothers : Others (· = tmp) c (downloadBlob host ref d tmp c).2 := keeps_downloadBlob (S := (· = tmp)) rfl c
      rw [hdown] at hothers
      cases hmove
      have hname : safeDigestName d.digest ≠ tmp := fun heq => dot_not_mem_safeDigestName hhash (heq ▸ hdot)
      refine ⟨rfl, ⟨bytes, ?_, hhash⟩, fun f bs hf hfile => ?_⟩
      · simp only [setFile, if_neg hname, if_pos]
        exact hbytes
      · have hne : f ≠ tmp := fun heq => hf (heq ▸ hdot)
        have hne' : f ≠ safeDigestName d.digest := by
          rintro rfl
          rw [hfile] at hnew
          exact hnew rfl
        simp only [setFile, if_neg hne, if_neg hne']
        rw [hothers f hne, hfile]

theorem pullLayers_ok : ∀ {descriptors : List Descriptor} {layers : List (Descriptor × Text)} {c c' : Client},
    pullLayers host ref descriptors c = (.ok layers, c') → layers.map Prod.fst = descriptors ∧
      (∀ l ∈ layers, ∃ bytes, c'.files l.2 = some bytes ∧ HashesTo host l.1.digest bytes) ∧
      ∀ f bytes, '.' ∉ f → c.files f = some bytes → c'.files f = some bytes
  | [], _, _, _, h => by
    cases h
    exact ⟨rfl, fun _ hl => absurd hl (List.not_mem_nil), fun _ _ _ hf => hf⟩
  | d :: rest, layers, c, c', h => by
    unfold pullLayers at h
    obtain ⟨_, c₁, hcheck, h1⟩ := Exec.bind_eq_ok h
    obtain ⟨-, rfl⟩ := Exec.check_eq_ok hcheck
    obtain ⟨path, c₂, hblob, h2⟩ := Exec.bind_eq_ok h1
    obtain ⟨more, c₃, hmore, hpure⟩ := Exec.bind_eq_ok h2
    cases hpure
    obtain ⟨rfl, ⟨bytes, hbytes, hhash⟩, hkeep⟩ := downloadBlobCached_ok hblob
    obtain ⟨hmap, hlayers, hkeep'⟩ := pullLayers_ok hmore
    refine ⟨congrArg (d :: ·) hmap, ?_, fun f bs hf hfile => hkeep' f bs hf (hkeep f bs hf hfile)⟩
    rintro l (_ | ⟨_, hl⟩)
    · exact ⟨bytes, hkeep' _ _ (dot_not_mem_safeDigestName hhash) hbytes, hhash⟩
    · exact hlayers l hl

/-! ### The pull -/

/-- A body that was served and parsed. --/
theorem fetchJson_ok {apiPath : Text} {r : Bytes × Manifest} (h : fetchJson host ref apiPath c = (.ok r, c')) :
    fetchBody host ref apiPath c = (.ok r.1, c') ∧ host.parseManifest r.1 = .ok r.2 := by
  unfold fetchJson at h
  obtain ⟨body, c₁, hbody, h1⟩ := Exec.bind_eq_ok h
  obtain ⟨m, c₂, hparse, hpure⟩ := Exec.bind_eq_ok h1
  obtain ⟨hm, rfl⟩ := Exec.lift_eq_ok hparse
  cases hpure
  exact ⟨hbody, hm⟩

/-- The parts of a pull that returned: the served bodies, the selected manifest, and the verified blobs. --/
theorem pullOciImage_ok {image osName arch : Text} {p : Pulled} (h : pullOciImage host image osName arch c = (.ok p, c')) :
    ∃ ref outer c₁, parseImageReference image = .ok ref ∧
      fetchBody host ref (manifestPath ref ref.reference) c = (.ok p.manifestBody, c₁) ∧
      host.parseManifest p.manifestBody = .ok outer ∧
      ∃ manifest, ((outer.manifests = none ∧ p.platform = none ∧ manifest = outer) ∨
        ∃ manifests d body c₂, outer.manifests = some manifests ∧ selectPlatform manifests osName arch = .ok d ∧
          p.platform = some (d, body) ∧ fetchBody host ref (manifestPath ref d.digest) c₁ = (.ok body, c₂) ∧
          host.parseManifest body = .ok manifest) ∧
      manifest.config = some p.configBlob.1 ∧ manifest.layers = some (p.layers.map Prod.fst) ∧
      (∃ blob, host.parseConfig p.configBlob.2 = .ok blob ∧ p.config = imageConfigFromBlob blob) ∧
      HashesTo host p.configBlob.1.digest p.configBlob.2 ∧
      ∀ l ∈ p.layers, ∃ bytes, c'.files l.2 = some bytes ∧ HashesTo host l.1.digest bytes := by
  unfold pullOciImage at h
  obtain ⟨ref, c₀, href, h1⟩ := Exec.bind_eq_ok h
  obtain ⟨hparse, rfl⟩ := Exec.lift_eq_ok href
  obtain ⟨⟨body, outer⟩, c₁, hjson, h2⟩ := Exec.bind_eq_ok h1
  obtain ⟨hbody, houter⟩ := fetchJson_ok hjson
  obtain ⟨⟨manifest, platform⟩, c₂, hindex, h3⟩ := Exec.bind_eq_ok h2
  dsimp only at h3
  rcases hconfig : manifest.config with _ | configDescriptor
  · rw [hconfig] at h3
    cases h3
  rcases hlayers : manifest.layers with _ | layerDescriptors
  · rw [hconfig, hlayers] at h3
    cases h3
  · rw [hconfig, hlayers] at h3
    obtain ⟨path, c₃, hblob, h4⟩ := Exec.bind_eq_ok h3
    rw [Exec.bind_of_ok Exec.get_apply] at h4
    rcases hfile : c₃.files path with _ | configBytes
    · rw [hfile] at h4
      cases h4
    · rw [hfile] at h4
      obtain ⟨blob, c₄, hparseConfig, h5⟩ := Exec.bind_eq_ok h4
      obtain ⟨hblobOk, rfl⟩ := Exec.lift_eq_ok hparseConfig
      obtain ⟨layers, c₅, hpull, hpure⟩ := Exec.bind_eq_ok h5
      cases hpure
      obtain ⟨rfl, ⟨bytes, hbytes, hhash⟩, -⟩ := downloadBlobCached_ok hblob
      obtain rfl := Option.some.inj (hfile.symm.trans hbytes)
      obtain ⟨hmap, hverified, -⟩ := pullLayers_ok hpull
      refine ⟨ref, outer, c₁, hparse, hbody, houter, manifest, ?_, hconfig, hmap ▸ hlayers, ⟨blob, hblobOk, rfl⟩,
        hhash, hverified⟩
      unfold resolveIndex at hindex
      rcases hms : outer.manifests with _ | manifests
      · rw [hms] at hindex
        cases hindex
        exact Or.inl ⟨rfl, rfl, rfl⟩
      · rw [hms] at hindex
        obtain ⟨d, c₆, hselect, h6⟩ := Exec.bind_eq_ok hindex
        obtain ⟨hd, rfl⟩ := Exec.lift_eq_ok hselect
        obtain ⟨⟨inner, m⟩, c₇, hinner, hpure⟩ := Exec.bind_eq_ok h6
        cases hpure
        obtain ⟨hserved, hm⟩ := fetchJson_ok hinner
        exact Or.inr ⟨manifests, d, inner, c₂, rfl, hd, rfl, hserved, hm⟩

end

/-! ### Binding -/

section
variable {host : Host} {image osName arch : Text} {p : Pulled} {c c' : Client}

theorem bound_iff (h : pullOciImage host image osName arch c = (.ok p, c')) :
    Bound host image osName arch p c'.files ↔ Honest host image osName arch c := by
  obtain ⟨ref, outer, c₁, href, hbody, houter, manifest, hindex, hconfig, hlayers, ⟨blob, hblob, himage⟩, hhash,
    hverified⟩ := pullOciImage_ok h
  constructor
  · intro hb
    refine ⟨fun ref' body c₂ href' hd hbody' => ?_,
      fun ref' body c₂ outer' manifests d inner c₃ href' hbody' houter' hms hsel hinner => ?_⟩
    · obtain rfl := Except.ok.inj (href.symm.trans href')
      obtain rfl := Except.ok.inj (Prod.mk.inj (hbody.symm.trans hbody')).1
      exact hb.reference hd
    · obtain rfl := Except.ok.inj (href.symm.trans href')
      obtain ⟨hbodies, rfl⟩ := Prod.mk.inj (hbody.symm.trans hbody')
      obtain rfl := Except.ok.inj hbodies
      obtain rfl := Except.ok.inj (houter.symm.trans houter')
      rcases hindex with ⟨hnone, -⟩ | ⟨manifests', d', body', c₄, hms', hsel', hplatform, hserved, -⟩
      · rw [hnone] at hms
        cases hms
      · obtain rfl := Option.some.inj (hms.symm.trans hms')
        obtain rfl := Except.ok.inj (hsel.symm.trans hsel')
        obtain rfl := Except.ok.inj (Prod.mk.inj (hinner.symm.trans hserved)).1
        exact hb.platform _ _ hplatform
  · intro hh
    refine ⟨fun hd => hh.reference ref _ _ href hd hbody, fun d body hp => ?_, hhash, hverified,
      outer, manifest, blob, houter, ?_, hconfig, hlayers, hblob, himage⟩
    · rcases hindex with ⟨-, hnone, -⟩ | ⟨manifests, d', body', c₂, hms, hsel, hplatform, hserved, -⟩
      · rw [hnone] at hp
        cases hp
      · rw [hplatform] at hp
        cases hp
        exact hh.platform ref _ _ _ _ _ _ _ href hbody houter hms hsel hserved
    · rcases hindex with hnone | ⟨manifests, d, body, c₂, hms, hsel, hplatform, -, hm⟩
      · exact Or.inl hnone
      · exact Or.inr ⟨manifests, d, body, hms, hsel, hplatform, hm⟩

/-- Bytes that hash to one digest are equal, or collide. --/
theorem eq_or_collision {digest : Text} {x y : Bytes} (hx : HashesTo host digest x) (hy : HashesTo host digest y) :
    x = y ∨ Collision host := by
  by_cases h : x = y
  · exact Or.inl h
  · exact Or.inr ⟨x, y, h, Except.ok.inj (hx.symm.trans hy)⟩

/-- Files that hash to the same list of digests have the same bytes, or show a collision. --/
theorem layers_eq_or_collision {files files' : Text → Option Bytes} : ∀ {ls ls' : List (Descriptor × Text)},
    ls.map Prod.fst = ls'.map Prod.fst →
    (∀ l ∈ ls, ∃ bytes, files l.2 = some bytes ∧ HashesTo host l.1.digest bytes) →
    (∀ l ∈ ls', ∃ bytes, files' l.2 = some bytes ∧ HashesTo host l.1.digest bytes) →
    (ls.map fun l => files l.2) = (ls'.map fun l => files' l.2) ∨ Collision host
  | [], [], _, _, _ => Or.inl rfl
  | [], _ :: _, heq, _, _ => nomatch heq
  | _ :: _, [], heq, _, _ => nomatch heq
  | l :: ls, l' :: ls', heq, h, h' => by
    obtain ⟨hfst, hrest⟩ := List.cons.inj heq
    obtain ⟨bytes, hbytes, hhash⟩ := h l List.mem_cons_self
    obtain ⟨bytes', hbytes', hhash'⟩ := h' l' List.mem_cons_self
    rw [← hfst] at hhash'
    rcases eq_or_collision hhash hhash' with rfl | hcollision
    · rcases layers_eq_or_collision hrest (fun l hl => h l (List.mem_cons_of_mem _ hl))
        (fun l hl => h' l (List.mem_cons_of_mem _ hl)) with heqs | hcollision
      · refine Or.inl ?_
        rw [List.map_cons, List.map_cons, hbytes, hbytes', heqs]
      · exact Or.inr hcollision
    · exact Or.inr hcollision

/-- Two bound pulls of one digest give the same image, whatever the registries served, or show a collision. --/
theorem sameImage_of_bound {p' : Pulled} {files files' : Text → Option Bytes} (hd : referenceDigest image ≠ [])
    (h : Bound host image osName arch p files) (h' : Bound host image osName arch p' files') :
    SameImage p files p' files' ∨ Collision host := by
  obtain ⟨outer, manifest, blob, houter, hindex, hconfig, hlayers, hblob, himage⟩ := h.parents
  obtain ⟨outer', manifest', blob', houter', hindex', hconfig', hlayers', hblob', himage'⟩ := h'.parents
  rcases eq_or_collision (h.reference hd) (h'.reference hd) with hbody | hcollision
  · rw [← hbody] at houter'
    obtain rfl := Except.ok.inj (houter.symm.trans houter')
    -- both pulls use one manifest, or the platform manifests collide
    have hmanifest : manifest = manifest' ∨ Collision host := by
      rcases hindex with ⟨hnone, -, rfl⟩ | ⟨ms, d, body, hms, hsel, hplatform, hm⟩
      · rcases hindex' with ⟨-, -, rfl⟩ | ⟨ms', -, -, hms', -⟩
        · exact Or.inl rfl
        · exact absurd (hnone.symm.trans hms') nofun
      · rcases hindex' with ⟨hnone, -, -⟩ | ⟨ms', d', body', hms', hsel', hplatform', hm'⟩
        · exact absurd (hnone.symm.trans hms) nofun
        · obtain rfl := Option.some.inj (hms.symm.trans hms')
          obtain rfl := Except.ok.inj (hsel.symm.trans hsel')
          rcases eq_or_collision (h.platform d body hplatform) (h'.platform d body' hplatform') with rfl | hcollision
          · exact Or.inl (Except.ok.inj (hm.symm.trans hm'))
          · exact Or.inr hcollision
    rcases hmanifest with rfl | hcollision
    · have hdesc : p.configBlob.1 = p'.configBlob.1 := Option.some.inj (hconfig.symm.trans hconfig')
      have hlist : p.layers.map Prod.fst = p'.layers.map Prod.fst := Option.some.inj (hlayers.symm.trans hlayers')
      rcases eq_or_collision h.config (hdesc ▸ h'.config) with hbytes | hcollision
      · rcases layers_eq_or_collision hlist h.layers h'.layers with hfiles | hcollision
        · rw [← hbytes] at hblob'
          obtain rfl := Except.ok.inj (hblob.symm.trans hblob')
          exact Or.inl ⟨himage.trans himage'.symm, hfiles⟩
        · exact Or.inr hcollision
      · exact Or.inr hcollision
    · exact Or.inr hcollision
  · exact Or.inr hcollision

/-- A pull that returned is bound to its digests exactly when the registry was honest about the manifests, and
    then a reference by digest names one image for every such registry. --/
theorem bound_iff_honest (h : pullOciImage host image osName arch c = (.ok p, c')) :
    (Bound host image osName arch p c'.files ↔ Honest host image osName arch c) ∧
      (referenceDigest image ≠ [] → Honest host image osName arch c →
        ∀ (registry : List Request → Request → Except String Response) (c₂ c₃ : Client) (p₂ : Pulled),
          Honest { host with registry } image osName arch c₂ →
          pullOciImage { host with registry } image osName arch c₂ = (.ok p₂, c₃) →
          SameImage p c'.files p₂ c₃.files ∨ Collision host) := by
  refine ⟨bound_iff h, fun hd hh registry c₂ c₃ p₂ hh₂ h₂ => ?_⟩
  have hb₂ := (bound_iff h₂).mpr hh₂
  exact sameImage_of_bound hd ((bound_iff h).mpr hh)
    ⟨hb₂.reference, hb₂.platform, hb₂.config, hb₂.layers, hb₂.parents⟩

end

/-! ### A registry of one image -/

def utf8 (s : Text) : Bytes := s.map fun c => UInt8.ofNat c.toNat

def configDescriptor : Descriptor :=
  ⟨"c".toList, "sha256:44136fa355b3678a1146ad16f7e8649e94fb4fc21fe77e8310c060f61caaff8a".toList, none, none, none⟩

def layerDescriptor : Descriptor :=
  ⟨"l".toList, "sha256:e3b0c44298fc1c149afbf4c8996fb92427ae41e4649b934ca495991b7852b855".toList, none, none, none⟩

/-- A manifest with the config above and these layers. --/
def manifestJson (layers : Text) : Bytes :=
  utf8 ("\x7b\"config\":\x7b\"mediaType\":\"c\",\"digest\":\"".toList ++ configDescriptor.digest ++
    "\"\x7d,\"layers\":[".toList ++ layers ++ "]\x7d".toList)

def sampleManifest : Bytes :=
  manifestJson ("\x7b\"mediaType\":\"l\",\"digest\":\"".toList ++ layerDescriptor.digest ++ "\"\x7d".toList)

def otherManifest : Bytes := manifestJson []

def sampleReference : Text := "r.io/a@sha256:2eaac8849357cc47235edce7fdc966b043724a2800d5cfe71225a2e6cd8674a8".toList

/-- A registry that serves one manifest, the config `{}` and an empty layer. --/
def sampleHost (manifest : Bytes) : Host where
  registry _ request :=
    let serve (bytes : Bytes) : Except String Response := .ok ⟨200, none, none, some bytes, none⟩
    if Text.includes request.url "manifests".toList then serve manifest
    else if Text.includes request.url configDescriptor.digest then serve (utf8 "\x7b\x7d".toList)
    else serve []
  sha256 bytes :=
    if bytes = [] then "e3b0c44298fc1c149afbf4c8996fb92427ae41e4649b934ca495991b7852b855".toList
    else if bytes = utf8 "\x7b\x7d".toList then "44136fa355b3678a1146ad16f7e8649e94fb4fc21fe77e8310c060f61caaff8a".toList
    else if bytes = sampleManifest then "2eaac8849357cc47235edce7fdc966b043724a2800d5cfe71225a2e6cd8674a8".toList
    else "f22e80b8b7def41daa35b156dc16239d9c2398e12bdabe188448eea6fbcbcfdd".toList
  parseManifest bytes :=
    .ok ⟨some configDescriptor, some (if bytes = sampleManifest then [layerDescriptor] else []), none⟩
  parseConfig _ := .ok ⟨none, .absent, .absent, none, none, none, none⟩
  parseToken _ := .ok []
  parseUrl url := .ok ⟨url, "https:".toList, "r.io".toList⟩
  setSearchParam url _ _ := url
  tokenRealms := []
  maxBlobBytes := .ok 2147483648
  pid := "1".toList

def emptyClient : Client := ⟨[], [], fun _ => none⟩

/-- The theorem on a reference by digest to an honest registry. --/
theorem bound_honest_registry : ∃ p c, pullOciImage (sampleHost sampleManifest) sampleReference "linux".toList
      "amd64".toList emptyClient = (.ok p, c) ∧
    Bound (sampleHost sampleManifest) sampleReference "linux".toList "amd64".toList p c.files := by
  obtain ⟨p, c, h, -⟩ := Exec.exists_ok (x := pullOciImage (sampleHost sampleManifest) sampleReference "linux".toList
    "amd64".toList) (s := emptyClient) (fun _ => True) (by decide +kernel)
  refine ⟨p, c, h, (bound_iff_honest h).1.mpr ⟨fun ref body c₁ href _ hbody => ?_, ?_⟩⟩
  · obtain ⟨body', _, h', hhash⟩ := Exec.exists_ok (x := Exec.lift (parseImageReference sampleReference) >>= fun ref =>
      fetchBody (sampleHost sampleManifest) ref (manifestPath ref ref.reference)) (s := emptyClient)
      (HashesTo (sampleHost sampleManifest) (referenceDigest sampleReference)) (by decide +kernel)
    have hrun := (Exec.bind_of_ok (f := fun ref => fetchBody (sampleHost sampleManifest) ref
      (manifestPath ref ref.reference)) (congrArg (·, emptyClient) href)).trans hbody
    cases hrun.symm.trans h'
    exact hhash
  · intro ref body c₁ outer manifests d inner c₂ href hbody houter hms
    cases houter
    cases hms

/-- A registry that answers the request by digest with another manifest. --/
theorem not_bound_other_manifest : ∃ p c, pullOciImage (sampleHost otherManifest) sampleReference "linux".toList
      "amd64".toList emptyClient = (.ok p, c) ∧
    ¬Bound (sampleHost otherManifest) sampleReference "linux".toList "amd64".toList p c.files := by
  obtain ⟨p, c, h, hp⟩ := Exec.exists_ok (x := pullOciImage (sampleHost otherManifest) sampleReference "linux".toList
    "amd64".toList) (s := emptyClient) (fun p => sha256FromDigest (referenceDigest sampleReference) ≠
      .ok ((sampleHost otherManifest).sha256 p.manifestBody)) (by decide +kernel)
  exact ⟨p, c, h, fun hb => hp (hb.reference (by decide))⟩

end NodeVmm.Oci
