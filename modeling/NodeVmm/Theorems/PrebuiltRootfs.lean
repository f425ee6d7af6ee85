import NodeVmm.PrebuiltRootfs

/-! A published root filesystem that is downloaded is the one of its manifest, and one that is not leaves no file. While
    the streams run, the file holds what the second tap has seen, and the first tap has seen what the server sent. -/

namespace NodeVmm.PrebuiltRootfs
open RootfsCache Host

variable {G : Type} {h : Host G}

/-! ### The streams -/

section
variable {s : Streams G} {chunk : Bytes} {source : Body}

/-- The file is what the second tap has seen, and the first tap has seen `sent`. --/
structure Tapped (sent : Bytes) (s : Streams G) : Prop where
  file : s.file = some s.rootfsTap
  gzip : s.gzipTap = sent

theorem store_apply : h.store chunk s =
    if h.writeFails s.writes then (.error "EIO", { s with rootfsTap := s.rootfsTap ++ chunk })
    else (.ok (), { s with
      rootfsTap := s.rootfsTap ++ chunk, file := s.file.map (· ++ chunk), writes := s.writes + 1 }) := by
  unfold store Exec.check
  cases hfails : h.writeFails s.writes <;> simp [Exec.bind_apply, hfails]

theorem store_ends {sent : Bytes} (hs : Tapped sent s) :
    Exec.Ends (fun _ t => Tapped sent t) (fun _ => True) (h.store chunk) s := by
  unfold Exec.Ends
  rw [store_apply]
  cases h.writeFails s.writes with
  | true => trivial
  | false => exact ⟨by simp [hs.file], hs.gzip⟩

theorem receive_ends {sent : Bytes} (hs : Tapped sent s) :
    Exec.Ends (fun _ t => Tapped (sent ++ chunk) t) (fun _ => True) (h.receive chunk) s := by
  unfold receive
  refine Exec.Ends.bind (P := fun _ t => Tapped (sent ++ chunk) t) ⟨hs.file, congrArg (· ++ chunk) hs.gzip⟩ fun _ t ht => ?_
  refine Exec.Ends.bind (P := fun v u => v = t ∧ u = t) ⟨rfl, rfl⟩ ?_
  rintro _ _ ⟨rfl, rfl⟩
  refine Exec.Ends.bind (P := fun _ u => Tapped (sent ++ chunk) u) (Exec.Ends.lift (fun _ _ => ht) trivial) fun v u hu => ?_
  refine Exec.Ends.bind (P := fun _ w => Tapped (sent ++ chunk) w) ⟨hu.file, hu.gzip⟩ fun _ w hw => ?_
  exact Exec.Ends.forM (f := h.store) (fun _ _ => store_ends) hw

theorem receive_all {sent : Bytes} {chunks : List Bytes} (hs : Tapped sent s) :
    Exec.Ends (fun _ t => Tapped (sent ++ chunks.flatten) t) (fun _ => True) (chunks.forM h.receive) s := by
  induction chunks generalizing sent s with
  | nil =>
    rw [List.flatten_nil, List.append_nil]
    exact hs
  | cons chunk chunks ih =>
    rw [List.flatten_cons, ← List.append_assoc]
    exact Exec.Ends.bind (receive_ends hs) fun _ _ ht => ih ht

theorem pipeline_ends (source : Body) (file : Option Bytes) :
    Exec.Ends (fun _ t => source.error = none ∧ Tapped source.chunks.flatten t) (fun _ => True) (h.pipeline source)
      { gunzip := h.gunzip, file := file } := by
  unfold pipeline
  refine Exec.Ends.bind (P := fun _ t => t.gzipTap = [] ∧ t.rootfsTap = []) (Exec.Ends.lift (fun _ _ => ⟨rfl, rfl⟩) trivial)
    fun _ t ht => ?_
  refine Exec.Ends.bind (P := fun _ u => Tapped [] u) ⟨congrArg some ht.2.symm, ht.1⟩ fun _ u hu => ?_
  refine Exec.Ends.bind (receive_all hu) fun _ v hv => ?_
  rw [List.nil_append] at hv
  cases source.error with
  | some e => trivial
  | none =>
    refine Exec.Ends.bind (P := fun w x => w = v ∧ x = v) ⟨rfl, rfl⟩ ?_
    rintro _ _ ⟨rfl, rfl⟩
    refine Exec.Ends.bind (P := fun _ u => Tapped source.chunks.flatten u) (Exec.Ends.lift (fun _ _ => hv) trivial)
      fun out w hw => ?_
    refine Exec.Ends.bind (Exec.Ends.forM (f := h.store) (fun _ _ => store_ends) hw) fun _ x hx => ?_
    exact Exec.Ends.lift (fun _ _ => ⟨rfl, hx⟩) trivial

/-- What a download that succeeds has seen. --/
theorem download_ends {file : Option Bytes} :
    Exec.Ends (fun taps t => source.error = none ∧ taps.1 = source.chunks.flatten ∧ t = some taps.2) (fun _ => True)
      (h.download source) file := by
  have hends := pipeline_ends (h := h) source file
  rcases hr : h.pipeline source { gunzip := h.gunzip, file := file } with ⟨e | u, s⟩
  · refine Exec.Ends.of_error (e := e) (t := s.file) ?_ trivial
    rw [download, hr]
  · obtain ⟨herror, hfile, hgzip⟩ := hends.returned hr
    refine Exec.Ends.of_ok (a := (s.gzipTap, s.rootfsTap)) (t := s.file) ?_ ⟨herror, hgzip, hfile⟩
    rw [download, hr]

end

/-! ### What was checked -/

theorem toLower_cases (c : Char) : c.toLower = c ∨ 65 ≤ c.toNat ∧ c.toNat ≤ 90 ∧ c.toLower.toNat = c.toNat + 32 := by
  unfold Char.toLower
  split
  · rename_i h
    have hle : c.val.toNat ≤ 90 := UInt32.le_iff_toNat_le.mp h.2
    refine Or.inr ⟨UInt32.le_iff_toNat_le.mp h.1, hle, ?_⟩
    show (c.val + ('a'.val - 'A'.val)).toNat = c.val.toNat + 32
    rw [UInt32.toNat_add]
    exact Nat.mod_eq_of_lt (lt_of_le_of_lt (Nat.add_le_add_right hle 32) (by decide))
  · exact Or.inl rfl

theorem lower_lowerChar (c : Char) : Text.lower (Text.lowerChar c) = Text.lowerChar c := by
  by_cases hk : c = Char.ofNat 0x212A
  · subst hk
    decide
  · by_cases hi : c = Char.ofNat 0x130
    · subst hi
      decide
    · have hlower : Text.lowerChar c = [c.toLower] := by
        rw [Text.lowerChar, if_neg hk, if_neg hi]
      rw [hlower, Text.lower, List.flatMap_singleton]
      rcases toLower_cases c with hsame | ⟨hle, hle', hval⟩
      · rw [hsame, hlower, hsame]
      · have hk' : c.toLower ≠ Char.ofNat 0x212A := by
          intro heq
          rw [heq] at hval
          simp at hval
          omega
        have hi' : c.toLower ≠ Char.ofNat 0x130 := by
          intro heq
          rw [heq] at hval
          simp at hval
          omega
        rw [Text.lowerChar, if_neg hk', if_neg hi']
        rcases toLower_cases c.toLower with hsame | ⟨-, hle'', -⟩
        · rw [hsame]
        · omega

theorem lower_lower (s : Text) : Text.lower (Text.lower s) = Text.lower s := by
  induction s with
  | nil => rfl
  | cons c s ih =>
    have hcons : Text.lower (c :: s) = Text.lowerChar c ++ Text.lower s := rfl
    have happend : Text.lower (Text.lowerChar c ++ Text.lower s) =
        Text.lower (Text.lowerChar c) ++ Text.lower (Text.lower s) := List.flatMap_append
    rw [hcons, happend, lower_lowerChar, ih]

/-- The bytes have the size and the hash of `m`. --/
structure Matches (h : Host G) (bytes : Bytes) (m : PrebuiltRootfsFileMetadata) : Prop where
  size : bytes.length = m.sizeBytes
  sha256 : Text.lower (h.sha256 bytes) = m.sha256

theorem assertFileMetadata_lower {value : Option Json} {label : String} {m : PrebuiltRootfsFileMetadata}
    (hm : assertFileMetadata value label = .ok m) : Text.lower m.sha256 = m.sha256 := by
  unfold assertFileMetadata validateAssetName at hm
  simp only [bind, Except.bind, pure, Except.pure, throw, throwThe, MonadExceptOf.throw] at hm
  split at hm <;> try cases hm
  split at hm <;> try cases hm
  split at hm <;> try cases hm
  split at hm <;> try cases hm
  split at hm <;> try cases hm
  split at hm <;> try cases hm
  exact lower_lower _

/-- Of what a manifest says, what is checked later is in the answer of the server. --/
theorem validate_ok {dateParses : Text → Bool} {value : Json} {m : PrebuiltRootfsManifest}
    (hm : validatePrebuiltRootfsManifest dateParses value = .ok m) :
    Json.nonEmpty (value.get "slug") = some m.slug ∧ assertFileMetadata (value.get "rootfs") "rootfs" = .ok m.rootfs ∧
      assertFileMetadata (value.get "gzip") "gzip" = .ok m.gzip := by
  unfold validatePrebuiltRootfsManifest at hm
  simp only [bind, Except.bind, pure, Except.pure, throw, throwThe, MonadExceptOf.throw] at hm
  iterate 17
    split at hm <;> try cases hm
  exact ⟨by assumption, by assumption, by assumption⟩

/-! ### A fetch -/

section
variable {file : Option Bytes} {manifest : PrebuiltRootfsManifest} {url : Text}

theorem assertDownloadedMetadata_ok {label : String} {hash : Text} {size : Nat} {m : PrebuiltRootfsFileMetadata} {u : Unit}
    (hok : assertDownloadedMetadata label hash size m = .ok u) :
    Text.lower hash = Text.lower m.sha256 ∧ size = m.sizeBytes := by
  unfold assertDownloadedMetadata at hok
  simp only [bind, Except.bind, pure, Except.pure, throw, throwThe, MonadExceptOf.throw] at hok
  split at hok <;> try cases hok
  split at hok <;> try cases hok
  rename_i hhash hsize
  exact ⟨not_not.mp hhash, not_not.mp hsize⟩

theorem matches_of_assert {label : String} {bytes : Bytes} {m : PrebuiltRootfsFileMetadata} {u : Unit}
    (hlower : Text.lower m.sha256 = m.sha256)
    (hok : assertDownloadedMetadata label (Text.lower (h.sha256 bytes)) bytes.length m = .ok u) : Matches h bytes m := by
  obtain ⟨hhash, hsize⟩ := assertDownloadedMetadata_ok hok
  rw [lower_lower, hlower] at hhash
  exact ⟨hsize, hhash⟩

/-- The file that was downloaded, and the bytes that the server sent for it. --/
structure Extracted (h : Host G) (url : Text) (manifest : PrebuiltRootfsManifest) (file : Option Bytes) : Prop where
  file : ∃ bytes, file = some bytes ∧ Matches h bytes manifest.rootfs
  gzip : ∃ source, h.fetchBody url = .ok source ∧ source.error = none ∧ Matches h source.chunks.flatten manifest.gzip

theorem fetchAndExtract_ends (hrootfs : Text.lower manifest.rootfs.sha256 = manifest.rootfs.sha256)
    (hgzip : Text.lower manifest.gzip.sha256 = manifest.gzip.sha256) :
    Exec.Ends (fun _ t => Extracted h url manifest t) (fun _ => True) (h.fetchAndExtract url manifest) file := by
  unfold fetchAndExtract
  refine Exec.Ends.bind (P := fun source t => h.fetchBody url = .ok source) (Exec.Ends.lift (fun _ hs => hs) trivial)
    fun source t hsource => ?_
  refine Exec.Ends.bind download_ends ?_
  rintro ⟨gzipTap, rootfsTap⟩ u ⟨herror, hsent, rfl⟩
  dsimp only at hsent
  subst hsent
  refine Exec.Ends.bind (P := fun _ t => Extracted h url manifest t) ?_ fun _ _ ht => ht
  refine Exec.Ends.tryCatch (E := fun _ => True) ?_ fun e w _ => ?_
  · refine Exec.Ends.bind (P := fun _ t => t = some rootfsTap ∧ Matches h source.chunks.flatten manifest.gzip)
      (Exec.Ends.lift (fun _ hok => ⟨rfl, matches_of_assert hgzip hok⟩) trivial) ?_
    rintro _ _ ⟨rfl, hmatch⟩
    exact Exec.Ends.lift (fun _ hok => ⟨⟨rootfsTap, rfl, matches_of_assert hrootfs hok⟩, source, hsource, herror, hmatch⟩)
      trivial
  · exact Exec.Ends.bind (P := fun _ _ => True) (by unfold Exec.Ends; split <;> trivial) fun _ _ _ => trivial

/-- The manifest of a fetch that succeeds, and what is at the destination. --/
structure Verified (h : Host G) (options : PrebuiltRootfsFetchOptions) (mapping : PrebuiltRootfsImageMapping)
    (manifest : PrebuiltRootfsManifest) (file : Option Bytes) : Prop where
  slug : manifest.slug = mapping.slug
  checked : ∃ url response json, h.fetch url = .ok response ∧ response.json = .ok json ∧
    validatePrebuiltRootfsManifest h.dateParses json = .ok manifest
  extracted : ∃ url, Extracted h url manifest file

theorem fetchManifest_ok (hm : h.fetchPrebuiltRootfsManifest url = .ok manifest) :
    ∃ response json, h.fetch url = .ok response ∧ response.json = .ok json ∧
      validatePrebuiltRootfsManifest h.dateParses json = .ok manifest := by
  unfold fetchPrebuiltRootfsManifest at hm
  rcases hfetch : h.fetch url with e | response
  · simp [hfetch, bind, Except.bind] at hm
  · simp only [hfetch, bind, Except.bind, throw, throwThe, MonadExceptOf.throw] at hm
    split at hm
    · cases hm
    · rcases hjson : response.json with e | json
      · simp [hjson] at hm
      · simp only [hjson] at hm
        exact ⟨response, json, rfl, hjson, hm⟩

theorem slug_valid {image : Text} {mapping : PrebuiltRootfsImageMapping}
    (hm : prebuiltRootfsImageForImage image = some mapping) : isAssetName mapping.slug = true := by
  have hall : (prebuiltRootfsImages.all fun mapping => isAssetName mapping.slug) = true := by decide
  exact List.all_eq_true.mp hall mapping (List.mem_of_find?_eq_some hm)

theorem names_ok {slug : Text} (hs : isAssetName slug = true) : ∃ names, prebuiltRootfsAssetNames slug = .ok names := by
  unfold prebuiltRootfsAssetNames validateAssetName
  rw [if_pos hs]
  exact ⟨_, rfl⟩

theorem fetch_of_mapping (file : Option Bytes) {options : PrebuiltRootfsFetchOptions} {mapping : PrebuiltRootfsImageMapping}
    (hm : prebuiltRootfsImageForImage options.image = some mapping) (hrm : h.rmFails = false) :
    ∃ res t, h.tryFetchPrebuiltRootfs options file = (.ok res, t) ∧
      (res.fetched = true → ∃ manifest, res.manifest = some manifest ∧ Verified h options mapping manifest t) ∧
      (res.fetched = false → t = none) := by
  have hends : Exec.Ends (fun res t =>
      (res.fetched = true → ∃ manifest, res.manifest = some manifest ∧ Verified h options mapping manifest t) ∧
      (res.fetched = false → t = none)) (fun _ => False) (h.tryFetchPrebuiltRootfs options) file := by
    unfold tryFetchPrebuiltRootfs
    rw [hm]
    dsimp only
    obtain ⟨names, hnames⟩ := names_ok (slug_valid hm)
    refine Exec.Ends.bind (P := fun _ _ => True) (Exec.Ends.of_ok (by rw [hnames]; rfl) trivial) fun names t _ => ?_
    refine Exec.Ends.tryCatch (E := fun _ => True) ?_ fun e u _ => ?_
    · refine Exec.Ends.bind (P := fun manifest _ => h.fetchPrebuiltRootfsManifest
        (releaseAssetUrl (options.repo.getD defaultRepo) options.packageVersion names.manifest) = .ok manifest)
        (Exec.Ends.lift (fun _ hok => hok) trivial) fun manifest u hmanifest => ?_
      obtain ⟨response, json, hfetch, hjson, hvalid⟩ := fetchManifest_ok hmanifest
      obtain ⟨-, hrootfs, hgzip⟩ := validate_ok hvalid
      refine Exec.Ends.ite (fun _ => trivial) fun hslug => Exec.Ends.ite (fun _ => trivial) fun _ => ?_
      refine Exec.Ends.bind (fetchAndExtract_ends (assertFileMetadata_lower hrootfs) (assertFileMetadata_lower hgzip))
        fun _ v hv => ?_
      exact ⟨fun _ => ⟨manifest, rfl, not_not.mp hslug, ⟨_, response, json, hfetch, hjson, hvalid⟩, _, hv⟩, nofun⟩
    · refine Exec.Ends.bind (P := fun _ v => v = none) ?_ fun _ v hv => ⟨nofun, fun _ => hv⟩
      exact Exec.Ends.of_ok (a := ()) (t := none) (by simp [rm, Exec.check, Exec.tryCatch_apply, Exec.bind_apply, hrm]) rfl
  rcases hr : h.tryFetchPrebuiltRootfs options file with ⟨e | res, t⟩
  · exact (hends.threw hr).elim
  · exact ⟨res, t, rfl, hends.returned hr⟩

end

/-- A fetch returns. It says that it fetched only when the destination has the file of a manifest for the image, checked
    with the archive that the server sent, and when it did not, no file is left for a published image. --/
theorem prebuilt_verified (h : Host G) (options : PrebuiltRootfsFetchOptions) (file : Option Bytes)
    (hrm : h.rmFails = false) : ∃ res t, h.tryFetchPrebuiltRootfs options file = (.ok res, t) ∧
      (res.fetched = true → ∃ mapping manifest, prebuiltRootfsImageForImage options.image = some mapping ∧
        res.manifest = some manifest ∧ Verified h options mapping manifest t) ∧
      (res.fetched = false → prebuiltRootfsImageForImage options.image ≠ none → t = none) := by
  rcases hm : prebuiltRootfsImageForImage options.image with _ | mapping
  · have hnone : h.tryFetchPrebuiltRootfs options file =
        (.ok { fetched := false, reason := some ("no prebuilt mapping for " ++ options.image.str) }, file) := by
      unfold tryFetchPrebuiltRootfs
      rw [hm]
      rfl
    exact ⟨_, _, hnone, nofun, fun _ hne => absurd rfl hne⟩
  · obtain ⟨res, t, hr, hfetched, hleft⟩ := fetch_of_mapping file hm hrm
    refine ⟨res, t, hr, fun hf => ?_, fun hf _ => hleft hf⟩
    obtain ⟨manifest, hmanifest, hverified⟩ := hfetched hf
    exact ⟨mapping, manifest, rfl, hmanifest, hverified⟩

def fileJson (name : String) (size : Int) (digit : Char) : Json :=
  .object [("name".toList, .string name.toList), ("sizeBytes".toList, .number (some size)),
    ("sha256".toList, .string (List.replicate 64 digit))]

def alpineJson : Json :=
  .object [("kind".toList, .string prebuiltRootfsManifestKind), ("version".toList, .number (some 1)),
    ("image".toList, .string "alpine:3.20".toList), ("slug".toList, .string "alpine-3.20".toList),
    ("diskMiB".toList, .number (some 256)), ("platform".toList, .string "linux".toList),
    ("arch".toList, .string "x86_64".toList), ("createdAt".toList, .string "2026".toList),
    ("rootfs".toList, fileJson "alpine-3.20.ext4" 2 'A'), ("gzip".toList, fileJson "alpine-3.20.ext4.gz" 1 'b')]

/-- A server with one archive, of a byte that unpacks to two. --/
def alpineHost : Host Unit where
  fetch url := .ok ⟨200, "OK", if Text.includes url ".json".toList then .ok alpineJson else .error "json", some ⟨[[1]], none⟩⟩
  sha256 bytes := List.replicate 64 (if bytes = [1, 1] then 'a' else 'b')
  gunzip := ()
  inflate _ chunk := .ok ([chunk ++ chunk], ())
  flush _ := .ok []
  dateParses _ := true

def alpineOptions : PrebuiltRootfsFetchOptions where
  image := "alpine:3.20".toList
  packageVersion := "0.1.4".toList

/-- A published root filesystem is fetched. --/
theorem prebuilt_verified_alpine : ∃ res t mapping manifest,
    alpineHost.tryFetchPrebuiltRootfs alpineOptions none = (.ok res, t) ∧ t = some [1, 1] ∧ Verified alpineHost alpineOptions mapping manifest t := by
  obtain ⟨res, t, hr, hfetched, -⟩ := prebuilt_verified alpineHost alpineOptions none rfl
  have hdone : ((alpineHost.tryFetchPrebuiltRootfs alpineOptions none).1.toOption.any (fun res => res.fetched) &&
      decide ((alpineHost.tryFetchPrebuiltRootfs alpineOptions none).2 = some [1, 1])) = true := by decide +kernel
  rw [hr] at hdone
  obtain ⟨hf, ht⟩ := Bool.and_eq_true_iff.mp hdone
  obtain ⟨mapping, manifest, -, -, hverified⟩ := hfetched hf
  exact ⟨res, t, mapping, manifest, hr, of_decide_eq_true ht, hverified⟩

end NodeVmm.PrebuiltRootfs
