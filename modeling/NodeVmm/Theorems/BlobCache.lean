import NodeVmm.BlobCache
import NodeVmm.Theorems.OciPull

/-! The blob cache under concurrent pulls. What a pull does to the files is confined to its temporary name and, by the
    rename, the name of its digest. So the cache stays intact when no two downloads share a temporary name. -/

namespace NodeVmm.Oci.BlobCache

/-! ### Names -/

section
variable {digest digest' hex hex' : Text} {p q : Pull}

theorem isAlphanum_of_hex {c : Char}
    (h : (c.isDigit || ('a' ≤ c && c ≤ 'f') || ('A' ≤ c && c ≤ 'F')) = true) : c.isAlphanum = true := by
  have hc : c.isAlphanum = (decide ('A' ≤ c ∧ c ≤ 'Z') || ('a' ≤ c && c ≤ 'z') || c.isDigit) := rfl
  rw [hc]
  simp only [Bool.or_eq_true, Bool.and_eq_true, decide_eq_true_eq] at h ⊢
  rcases h with (hdigit | ⟨ha, hf⟩) | ⟨ha, hf⟩
  · exact Or.inr hdigit
  · have hz : c ≤ 'z' := Char.le_trans hf (by decide)
    exact Or.inl (Or.inr ⟨ha, hz⟩)
  · have hz : c ≤ 'Z' := Char.le_trans hf (by decide)
    exact Or.inl (Or.inl ⟨ha, hz⟩)

/-- Hexadecimal digits are kept. --/
theorem safeDigestName_hex : ∀ {s : Text},
    (∀ c ∈ s, (c.isDigit || ('a' ≤ c && c ≤ 'f') || ('A' ≤ c && c ≤ 'F')) = true) → safeDigestName s = s
  | [], _ => rfl
  | c :: s, h => by
    have hkept := isAlphanum_of_hex (h c List.mem_cons_self)
    have hrest := safeDigestName_hex fun d hd => h d (List.mem_cons_of_mem _ hd)
    unfold safeDigestName at hrest ⊢
    rw [List.flatMap_cons, hrest, hkept]
    rfl

/-- The file of a supported digest is named by its digits. --/
theorem safeDigestName_supported (h : sha256FromDigest digest = .ok hex) :
    ∃ digits, digest = "sha256:".toList ++ digits ∧ safeDigestName digest = "sha256_".toList ++ digits := by
  unfold sha256FromDigest at h
  dsimp only at h
  split at h
  · rename_i hok
    simp only [Bool.and_eq_true, List.all_eq_true] at hok
    obtain ⟨⟨hpre, -⟩, hhex⟩ := hok
    obtain ⟨digits, hdigits⟩ := List.isPrefixOf_iff_prefix.mp hpre
    rw [← hdigits, List.drop_left] at hhex
    refine ⟨digits, hdigits.symm, ?_⟩
    have hname := safeDigestName_hex hhex
    unfold safeDigestName at hname ⊢
    rw [← hdigits, List.flatMap_append, hname]
    rfl
  · cases h

theorem eq_of_safeDigestName (h : sha256FromDigest digest = .ok hex) (h' : sha256FromDigest digest' = .ok hex')
    (heq : safeDigestName digest = safeDigestName digest') : digest = digest' := by
  obtain ⟨digits, hsplit, hname⟩ := safeDigestName_supported h
  obtain ⟨digits', hsplit', hname'⟩ := safeDigestName_supported h'
  rw [hname, hname'] at heq
  rw [hsplit, hsplit', List.append_cancel_left heq]

/-- No temporary file has the name of a supported digest. --/
theorem tmp_ne_safeDigestName (h : sha256FromDigest digest = .ok hex) : p.tmp ≠ safeDigestName digest := fun heq =>
  dot_not_mem_safeDigestName h (heq ▸ List.mem_append_left _ (List.mem_append_right _ (by decide)))

theorem tmp_ne_output : p.tmp ≠ p.output := fun heq => by
  have hlen := congrArg List.length heq
  unfold Pull.tmp at hlen
  rw [List.append_assoc, List.length_append, List.length_append] at hlen
  have hdot : (".tmp-".toList).length = 5 := rfl
  omega

end

/-! ### What is kept -/

/-- Every file at the name of a supported digest has the content of that digest. --/
def Complete (host : Host) (files : Inodes Text) : Prop :=
  ∀ digest hex i, sha256FromDigest digest = .ok hex → files.inode (safeDigestName digest) = some i →
    HashesTo host digest (files.data i)

/-- What holds of a pull at a location. --/
def LocOk (host : Host) (files : Inodes Text) (p : Pull) : Loc → Prop
  | .readEntry i read => i < files.next ∧ read <+: files.data i ∧ HashesTo host p.digest (files.data i) ∧
      (∀ f, files.inode f = some i → f = p.output) ∧ (files.inode p.output).isSome
  | .write i _ => files.inode p.tmp = some i
  | .readTmp i read => files.inode p.tmp = some i ∧ read <+: files.data i
  | .rename => ∃ i, files.inode p.tmp = some i ∧ HashesTo host p.digest (files.data i)
  | .returned => ∃ i, files.inode p.output = some i ∧ HashesTo host p.digest (files.data i)
  | .mismatch => False
  | .lookup | .openEntry | .fetch | .openTmp | .remove | .failed => True

/-- What an operation of `p` may change. --/
structure Local (host : Host) (p : Pull) (files files' : Inodes Text) : Prop where
  next : files.next ≤ files'.next
  single : files'.Single
  elsewhere : ∀ f, f ≠ p.tmp → f ≠ p.output → files'.inode f = files.inode f
  tmp : ∀ i, files'.inode p.tmp = some i → files.inode p.tmp = some i ∨ files.next ≤ i
  output : files'.inode p.output = files.inode p.output ∨
    ∃ i, files.inode p.tmp = some i ∧ files'.inode p.output = some i ∧ HashesTo host p.digest (files'.data i)
  data : ∀ i, i < files.next → files.inode p.tmp ≠ some i → files'.data i = files.data i

section
variable {host : Host} {files files' : Inodes Text} {p q : Pull} {loc : Loc}

theorem Local.refl (h : files.Single) : Local host p files files :=
  ⟨Nat.le_refl _, h, fun _ _ _ => rfl, fun _ hi => Or.inl hi, Or.inl rfl, fun _ _ _ => rfl⟩

theorem verifyDigest_eq_ok {bytes : Bytes} {digest : Text} (h : verifyDigest host bytes digest = .ok ()) :
    HashesTo host digest bytes := by
  unfold verifyDigest at h
  rcases hhex : sha256FromDigest digest with e | hex
  · rw [hhex] at h
    cases h
  · rw [hhex] at h
    simp only [bind, Except.bind] at h
    split at h
    · cases h
    · rename_i heq
      exact hhex.trans (congrArg _ (not_not.mp heq).symm)

theorem verifyDigest_of_hashesTo {bytes : Bytes} {digest : Text} (h : HashesTo host digest bytes) :
    verifyDigest host bytes digest = .ok () := by
  unfold verifyDigest
  rw [show sha256FromDigest digest = .ok (host.sha256 bytes) from h]
  simp [bind, Except.bind, pure, Except.pure]

/-- A prefix that is not shorter is the whole content. --/
theorem eq_of_read {read data : Bytes} (h : read <+: data) (hlen : ¬read.length < data.length) : read = data :=
  h.eq_of_length_le (Nat.not_lt.mp hlen)

theorem readMore_prefix {i count : Nat} {read : Bytes} (h : read <+: files.data i) :
    readMore files i read count <+: files.data i := by
  obtain ⟨rest, hrest⟩ := h
  unfold readMore
  rw [← hrest, List.drop_left]
  exact (List.prefix_append_right_inj read).mpr (List.take_prefix _ _)

/-- Opening the temporary file changes nothing else. --/
theorem local_openTrunc (h : files.Single) : Local host p files (files.openTrunc p.tmp).2 where
  next := Inodes.next_le_openTrunc
  single := h.openTrunc
  elsewhere f hf _ := Inodes.inode_openTrunc_of_ne hf
  tmp i hi := by
    unfold Inodes.openTrunc at hi
    split at hi
    · exact Or.inl hi
    · have hnew : (files.create p.tmp []).inode p.tmp = some files.next := if_pos rfl
      rw [hnew] at hi
      exact Or.inr (Nat.le_of_eq (Option.some.inj hi))
  output := Or.inl (Inodes.inode_openTrunc_of_ne tmp_ne_output.symm)
  data i hi hne := Inodes.data_openTrunc_of_ne hi hne

theorem local_write {i offset : Nat} {bytes : Bytes} (h : files.Single) (hi : files.inode p.tmp = some i) :
    Local host p files (files.write i offset bytes) where
  next := Nat.le_refl _
  single := h
  elsewhere _ _ _ := rfl
  tmp _ hj := Or.inl hj
  output := Or.inl rfl
  data _ _ hne := Inodes.data_write_of_ne fun heq => hne (heq ▸ hi)

theorem local_rename {i : Nat} (h : files.Single) (hi : files.inode p.tmp = some i)
    (hhash : HashesTo host p.digest (files.data i)) : Local host p files (files.rename p.tmp p.output) where
  next := Nat.le_of_eq Inodes.next_rename.symm
  single := h.rename tmp_ne_output
  elsewhere f hf hf' := Inodes.inode_rename_of_ne hf hf'
  tmp _ hj := by
    rcases Inodes.inode_of_rename hj with hj | ⟨heq, -⟩
    · exact Or.inl hj
    · exact absurd heq tmp_ne_output
  output := Or.inr ⟨i, hi, (Inodes.inode_rename_target tmp_ne_output).trans hi, by rwa [Inodes.data_rename]⟩
  data _ _ _ := by rw [Inodes.data_rename]

theorem local_remove (h : files.Single) : Local host p files (files.remove p.tmp) where
  next := Nat.le_refl _
  single := h.remove
  elsewhere _ hf _ := Inodes.inode_remove_of_ne hf
  tmp _ hj := Or.inl (Inodes.inode_of_remove hj)
  output := Or.inl (Inodes.inode_remove_of_ne tmp_ne_output.symm)
  data _ _ _ := rfl

/-- An operation of a pull changes only what is its own, and the pull is right about the files after it. --/
theorem act_ok {a : Act} (hs : files.Single) (hc : Complete host files) (hp : LocOk host files p p.loc)
    (h : act host p files a = some (loc, files')) : Local host p files files' ∧ LocOk host files' p loc := by
  cases a with
  | advance =>
    unfold act advance at h
    rcases hloc : p.loc with _ | _ | ⟨i, read⟩ | _ | ⟨i, offset⟩ | _ | ⟨i, read⟩ | _ | _ | _ | _ | _ <;>
      rw [hloc] at hp h <;> simp only [reduceCtorEq] at h
    · cases h
      refine ⟨.refl hs, ?_⟩
      split <;> trivial
    · split at h <;> cases h
      · rename_i hex i hhex hi
        have hname : ∀ f, files.inode f = some i → f = p.output := fun f hf => hs f p.output i hf hi
        exact ⟨.refl hs, files.bound _ _ hi, List.nil_prefix, hc _ _ _ hhex hi, hname, Option.isSome_of_eq_some hi⟩
      · exact ⟨.refl hs, trivial⟩
    · split at h <;> cases h
      rename_i hend
      obtain ⟨-, hread, hhash, -, hsome⟩ := hp
      obtain ⟨j, hj⟩ := Option.isSome_iff_exists.mp hsome
      rw [eq_of_read hread hend, if_pos (verifyDigest_of_hashesTo hhash)]
      exact ⟨.refl hs, j, hj, hc _ _ _ hhash hj⟩
    · cases h
      exact ⟨local_openTrunc hs, Inodes.openTrunc_inode⟩
    · cases h
      exact ⟨.refl hs, trivial⟩
    · split at h <;> cases h
      · rename_i hex i hhex hi
        exact ⟨.refl hs, hi, List.nil_prefix⟩
      · exact ⟨.refl hs, trivial⟩
    · split at h <;> cases h
      rename_i hend
      obtain ⟨hi, hread⟩ := hp
      rw [eq_of_read hread hend]
      refine ⟨.refl hs, ?_⟩
      split
      · exact ⟨i, hi, verifyDigest_eq_ok ‹_›⟩
      · trivial
    · obtain ⟨i, hi, hhash⟩ := hp
      rw [if_pos (Option.isSome_iff_exists.mpr ⟨i, hi⟩)] at h
      cases h
      have hlocal := local_rename hs hi hhash
      refine ⟨hlocal, i, (Inodes.inode_rename_target tmp_ne_output).trans hi, ?_⟩
      rwa [Inodes.data_rename]
    · cases h
      exact ⟨local_remove hs, trivial⟩
  | write bytes =>
    unfold act at h
    rcases hloc : p.loc with _ | _ | _ | _ | ⟨i, offset⟩ | _ | _ | _ | _ | _ | _ | _ <;>
      rw [hloc] at hp h <;> cases h
    exact ⟨local_write hs hp, hp⟩
  | read count =>
    unfold act at h
    rcases hloc : p.loc with _ | _ | ⟨i, read⟩ | _ | _ | _ | ⟨i, read⟩ | _ | _ | _ | _ | _ <;>
      rw [hloc] at hp h <;> cases h
    · obtain ⟨hlt, hread, hrest⟩ := hp
      exact ⟨.refl hs, hlt, readMore_prefix hread, hrest⟩
    · exact ⟨.refl hs, hp.1, readMore_prefix hp.2⟩
  | throw =>
    unfold act throwAt at h
    rcases hloc : p.loc with _ | _ | _ | _ | _ | _ | _ | _ | _ | _ | _ | _ <;> rw [hloc] at h <;> cases h <;>
      exact ⟨.refl hs, trivial⟩

/-- A file at the name of a supported digest after an operation was there before, or was verified. --/
theorem Local.entry {digest hex : Text} {i : Nat} (hl : Local host p files files') (hs : files.Single)
    (hhex : sha256FromDigest digest = .ok hex) (hi : files'.inode (safeDigestName digest) = some i) :
    files.inode (safeDigestName digest) = some i ∧ files'.data i = files.data i ∨ HashesTo host digest (files'.data i) := by
  have hne : safeDigestName digest ≠ p.tmp := (tmp_ne_safeDigestName hhex).symm
  have hkept : files.inode (safeDigestName digest) = some i → files'.data i = files.data i := fun hold =>
    hl.data i (files.bound _ _ hold) fun htmp => hne (hs _ _ i hold htmp)
  by_cases hout : safeDigestName digest = p.output
  · rcases hl.output with heq | ⟨j, -, hj, hhash⟩
    · rw [hout, heq, ← hout] at hi
      exact Or.inl ⟨hi, hkept hi⟩
    · rw [hout, hj] at hi
      cases hi
      rw [eq_of_safeDigestName hhex hhash hout]
      exact Or.inr hhash
  · rw [hl.elsewhere _ hne hout] at hi
    exact Or.inl ⟨hi, hkept hi⟩

theorem Complete.local (hc : Complete host files) (hs : files.Single) (hl : Local host p files files') :
    Complete host files' := by
  intro digest hex i hhex hi
  rcases hl.entry hs hhex hi with ⟨hold, hdata⟩ | hhash
  · exact hdata ▸ hc _ _ _ hhex hold
  · exact hhash

/-- An entry of the cache stays. --/
theorem Local.isSome {digest hex : Text} (hl : Local host p files files') (hhex : sha256FromDigest digest = .ok hex)
    (h : (files.inode (safeDigestName digest)).isSome) : (files'.inode (safeDigestName digest)).isSome := by
  by_cases hout : safeDigestName digest = p.output
  · rcases hl.output with heq | ⟨j, -, hj, -⟩
    · rwa [hout, heq, ← hout]
    · rw [hout, hj]
      rfl
  · rwa [hl.elsewhere _ (tmp_ne_safeDigestName hhex).symm hout]

/-- The temporary name of another download is as it was. --/
theorem Local.inode_tmp (hl : Local host p files files') (hne : q.tmp ≠ p.tmp) :
    files'.inode q.tmp = files.inode q.tmp := by
  by_cases hout : q.tmp = p.output
  · rcases hl.output with heq | ⟨_, -, -, hhash⟩
    · rw [hout, heq]
    · exact absurd hout (tmp_ne_safeDigestName hhash)
  · exact hl.elsewhere _ hne hout

/-- So is the file there. --/
theorem Local.data_tmp {i : Nat} (hl : Local host p files files') (hs : files.Single) (hne : q.tmp ≠ p.tmp)
    (hi : files.inode q.tmp = some i) : files'.data i = files.data i :=
  hl.data i (files.bound _ _ hi) fun htmp => hne (hs _ _ i hi htmp)

/-- What holds of another pull is kept. --/
theorem LocOk.local (hq : LocOk host files q q.loc) (hl : Local host p files files') (hs : files.Single)
    (hc : Complete host files) (hne : q.loc.downloading = true → q.tmp ≠ p.tmp) : LocOk host files' q q.loc := by
  rcases hloc : q.loc with _ | _ | ⟨i, read⟩ | _ | ⟨i, offset⟩ | _ | ⟨i, read⟩ | _ | _ | _ | _ | _ <;>
    rw [hloc] at hq hne <;> try trivial
  · obtain ⟨hlt, hread, hhash, hname, hsome⟩ := hq
    have htmp : files.inode p.tmp ≠ some i := fun heq => tmp_ne_safeDigestName hhash (hname _ heq)
    have hdata := hl.data i hlt htmp
    refine ⟨Nat.lt_of_lt_of_le hlt hl.next, hdata ▸ hread, hdata ▸ hhash, fun f hf => ?_, hl.isSome hhash hsome⟩
    by_cases hft : f = p.tmp
    · rcases hl.tmp i (hft ▸ hf) with heq | hge
      · exact absurd heq htmp
      · exact absurd hlt (Nat.not_lt.mpr hge)
    by_cases hfo : f = p.output
    · rcases hl.output with heq | ⟨j, hj, hj', -⟩
      · exact hname f (hfo ▸ heq ▸ hfo ▸ hf)
      · rw [hfo, hj'] at hf
        exact absurd (hj.trans hf) htmp
    · exact hname f (hl.elsewhere f hft hfo ▸ hf)
  · have hne := hne rfl
    exact (hl.inode_tmp hne).trans hq
  · have hne := hne rfl
    obtain ⟨hi, hread⟩ := hq
    exact ⟨(hl.inode_tmp hne).trans hi, hl.data_tmp hs hne hi ▸ hread⟩
  · have hne := hne rfl
    obtain ⟨i, hi, hhash⟩ := hq
    exact ⟨i, (hl.inode_tmp hne).trans hi, hl.data_tmp hs hne hi ▸ hhash⟩
  · obtain ⟨i, hi, hhash⟩ := hq
    obtain ⟨j, hj⟩ := Option.isSome_iff_exists.mp (hl.isSome hhash (Option.isSome_of_eq_some hi))
    exact ⟨j, hj, hc.local hs hl _ _ _ hhash hj⟩

end

/-! ### Runs -/

section
variable {n : Nat} {host : Host} {s s₀ t : Cache n} {i : Fin n} {a : Act}

/-- No pull that is not in the cache starts its download while another download has its temporary name. --/
def Alone (s : Cache n) : Event n → Prop
  | .act i .advance => ∀ p ∈ s.pulls i, p.loc = .lookup → s.files.inode p.output = none →
      ∀ j, ∀ q ∈ s.pulls j, q.loc.downloading = true → q.tmp ≠ p.tmp
  | _ => True

/-- A file at a final name is complete, so is what a pull has returned, and no pull failed over a file that was in the
    cache. --/
structure Intact (host : Host) (s : Cache n) : Prop where
  complete : Complete host s.files
  returned : ∀ i p, s.pulls i = some p → p.loc = .returned →
    ∃ inode, s.files.inode p.output = some inode ∧ HashesTo host p.digest (s.files.data inode)
  entries : ∀ i p, s.pulls i = some p → p.loc ≠ .mismatch

/-- Between `s` and `t` the temporary files of the pulls other than `i` stay as they are. --/
def LeavesOthers (i : Fin n) (s t : Cache n) : Prop :=
  ∀ j q, j ≠ i → s.pulls j = some q → q.loc.downloading = true → t.files.inode q.tmp = s.files.inode q.tmp ∧
    ∀ inode, s.files.inode q.tmp = some inode → t.files.data inode = s.files.data inode

/-- Pulls have not started, every file has one name, and the cache holds nothing corrupted. --/
structure Start (host : Host) (s : Cache n) : Prop where
  pulls : ∀ i, s.pulls i = none
  single : s.files.Single
  complete : Complete host s.files

structure Inv (host : Host) (s : Cache n) : Prop where
  single : s.files.Single
  complete : Complete host s.files
  pulls : ∀ i p, s.pulls i = some p → LocOk host s.files p p.loc
  alone : ∀ i j p q, s.pulls i = some p → s.pulls j = some q → p.loc.downloading = true → q.loc.downloading = true →
    p.tmp = q.tmp → i = j

theorem Start.inv (h : Start host s) : Inv host s where
  single := h.single
  complete := h.complete
  pulls i _ hp := absurd ((h.pulls i).symm.trans hp) nofun
  alone i _ _ _ hp := absurd ((h.pulls i).symm.trans hp) nofun

/-- Outside its download a pull changes no file, and it starts one when the file is not in the cache. --/
theorem act_outside {files files' : Inodes Text} {p : Pull} {loc : Loc} (h : act host p files a = some (loc, files'))
    (hdown : ¬p.loc.downloading = true) : files' = files ∧
      (loc.downloading = true → a = .advance ∧ p.loc = .lookup ∧ files.inode p.output = none) := by
  cases a with
  | advance =>
    unfold act advance at h
    rcases hloc : p.loc with _ | _ | ⟨i, read⟩ | _ | _ | _ | _ | _ | _ | _ | _ | _ <;> rw [hloc] at hdown h <;>
      first | exact absurd rfl hdown | dsimp only at h
    · cases h
      refine ⟨rfl, fun hd => ?_⟩
      split at hd
      · cases hd
      · rename_i hnone
        exact ⟨rfl, rfl, Option.not_isSome_iff_eq_none.mp hnone⟩
    · split at h <;> cases h <;> exact ⟨rfl, nofun⟩
    · split at h <;> cases h
      refine ⟨rfl, fun hd => ?_⟩
      split at hd <;> cases hd
    all_goals cases h
  | write bytes =>
    unfold act at h
    rcases hloc : p.loc with _ | _ | _ | _ | _ | _ | _ | _ | _ | _ | _ | _ <;>
      rw [hloc] at hdown h <;> first | exact absurd rfl hdown | cases h
  | read count =>
    unfold act at h
    rcases hloc : p.loc with _ | _ | _ | _ | _ | _ | _ | _ | _ | _ | _ | _ <;>
      rw [hloc] at hdown h <;> first | exact absurd rfl hdown | cases h
    exact ⟨rfl, nofun⟩
  | throw =>
    unfold act throwAt at h
    rcases hloc : p.loc with _ | _ | _ | _ | _ | _ | _ | _ | _ | _ | _ | _ <;>
      rw [hloc] at hdown h <;> first | exact absurd rfl hdown | (cases h <;> exact ⟨rfl, nofun⟩)

/-- An event of a pull, with what it did. --/
theorem step_act {i : Fin n} {a : Act} (h : step host s (.act i a) = some t) : ∃ p loc files,
    s.pulls i = some p ∧ act host p s.files a = some (loc, files) ∧
      t = ⟨files, Function.update s.pulls i (some { p with loc })⟩ := by
  obtain ⟨p, hp, hmap⟩ := Option.bind_eq_some_iff.mp h
  obtain ⟨⟨loc, files⟩, hact, rfl⟩ := Option.map_eq_some_iff.mp hmap
  exact ⟨p, loc, files, hp, hact, rfl⟩

/-- The downloads of other pulls have other temporary names than a pull that is, or comes to be, in its own. --/
theorem Inv.tmp_ne {i j : Fin n} {p q : Pull} {loc : Loc} {files : Inodes Text} (hi : Inv host s)
    (hok : Alone s (.act i a)) (hp : s.pulls i = some p) (hact : act host p s.files a = some (loc, files)) (hij : j ≠ i)
    (hq : s.pulls j = some q) (hloc : p.loc.downloading = true ∨ loc.downloading = true)
    (hd : q.loc.downloading = true) : q.tmp ≠ p.tmp := by
  by_cases hpd : p.loc.downloading = true
  · exact fun heq => hij (hi.alone j i q p hq hp hd hpd heq)
  · obtain ⟨rfl, hlook, hnone⟩ := (act_outside hact hpd).2 (hloc.resolve_left hpd)
    exact hok p hp hlook hnone j q hq hd

/-- What the others need of the files is kept by an operation. --/
theorem Inv.others {i : Fin n} {p : Pull} {loc : Loc} {files : Inodes Text} (hi : Inv host s)
    (hok : Alone s (.act i a)) (hp : s.pulls i = some p) (hact : act host p s.files a = some (loc, files))
    (hlocal : Local host p s.files files) {j : Fin n} {q : Pull} (hij : j ≠ i) (hq : s.pulls j = some q) :
    LocOk host files q q.loc := by
  by_cases hpd : p.loc.downloading = true
  · exact (hi.pulls j q hq).local hlocal hi.single hi.complete (hi.tmp_ne hok hp hact hij hq (Or.inl hpd))
  · rw [(act_outside hact hpd).1]
    exact hi.pulls j q hq

/-- One pull goes on, with other files. --/
theorem Inv.set {i : Fin n} {files : Inodes Text} {v : Option Pull} (hi : Inv host s) (hsingle : files.Single)
    (hcomplete : Complete host files) (hself : ∀ p, v = some p → LocOk host files p p.loc)
    (halone : ∀ p, v = some p → p.loc.downloading = true →
      ∀ j q, j ≠ i → s.pulls j = some q → q.loc.downloading = true → q.tmp ≠ p.tmp)
    (hothers : ∀ j q, j ≠ i → s.pulls j = some q → LocOk host files q q.loc) :
    Inv host ⟨files, Function.update s.pulls i v⟩ := by
  refine ⟨hsingle, hcomplete, fun j p hj => ?_, fun j k p q hj hk hp hq heq => ?_⟩
  · rcases Threads.update_cases (P := (· = some p)) hj with ⟨-, hv⟩ | ⟨hij, hj⟩
    · exact hself p hv
    · exact hothers j p hij hj
  · rcases Threads.update_cases (P := (· = some p)) hj with ⟨hji, hv⟩ | ⟨hji, hj⟩ <;>
      rcases Threads.update_cases (P := (· = some q)) hk with ⟨hki, hv'⟩ | ⟨hki, hk⟩
    · exact hji.trans hki.symm
    · exact absurd heq.symm (halone p hv hp k q hki hk hq)
    · exact absurd heq (halone q hv' hq j p hji hj hp)
    · exact hi.alone j k p q hj hk hp hq heq

/-- Every event keeps the invariant. --/
theorem step_inv {e : Event n} (hi : Inv host s) (hok : Alone s e) (h : step host s e = some t) : Inv host t := by
  cases e with
  | start i digest pid =>
    obtain ⟨-, hstart⟩ := Option.ite_none_right_eq_some.mp h
    cases hstart
    refine hi.set hi.single hi.complete (fun p hp => ?_) (fun p hp hd => ?_) fun j q _ => hi.pulls j q
    · cases hp
      trivial
    · cases hp
      cases hd
  | exit i =>
    cases h
    exact hi.set hi.single hi.complete (fun p hp => by cases hp) (fun p hp => by cases hp) fun j q _ => hi.pulls j q
  | act i a =>
    obtain ⟨p, loc, files, hp, hact, rfl⟩ := step_act h
    obtain ⟨hlocal, hlocok⟩ := act_ok hi.single hi.complete (hi.pulls i p hp) hact
    refine hi.set hlocal.single (hi.complete.local hi.single hlocal) (fun p' hp' => ?_) (fun p' hp' hd => ?_)
      fun j q hij hj => hi.others hok hp hact hlocal hij hj
    · cases hp'
      exact hlocok
    · cases hp'
      intro j q hij hj hq
      have hne := hi.tmp_ne hok hp hact hij hj (Or.inr hd) hq
      exact hne

theorem Inv.intact (hi : Inv host s) : Intact host s where
  complete := hi.complete
  returned i p hp hloc := by
    have hok := hi.pulls i p hp
    rw [hloc] at hok
    exact hok
  entries i p hp hloc := by
    have hok := hi.pulls i p hp
    rw [hloc] at hok
    exact hok

/-- An operation of a pull leaves the temporary files of the others alone. --/
theorem Inv.leavesOthers {i : Fin n} (hi : Inv host s) (hok : Alone s (.act i a))
    (h : step host s (.act i a) = some t) : LeavesOthers i s t := by
  obtain ⟨p, loc, files, hp, hact, rfl⟩ := step_act h
  obtain ⟨hlocal, -⟩ := act_ok hi.single hi.complete (hi.pulls i p hp) hact
  intro j q hij hq hd
  by_cases hpd : p.loc.downloading = true
  · have hne := hi.tmp_ne hok hp hact hij hq (Or.inl hpd) hd
    exact ⟨hlocal.inode_tmp hne, fun inode hinode => hlocal.data_tmp hi.single hne hinode⟩
  · rw [(act_outside hact hpd).1]
    exact ⟨rfl, fun _ _ => rfl⟩

/-- In every run in which no two downloads share a temporary name the cache is intact, and no pull touches the
    temporary file of another. --/
theorem cache_intact {es : List (Event n)} (h : Runs.Under (step host) Alone s₀ es s) (hstart : Start host s₀) :
    Intact host s ∧ ∀ i a t, Alone s (.act i a) → step host s (.act i a) = some t → LeavesOthers i s t := by
  have hi : Inv host s := h.invariant (fun _ _ _ hi hok hs => step_inv hi hok hs) hstart.inv
  exact ⟨hi.intact, fun i a t hok hs => hi.leavesOthers hok hs⟩

end
instance {n : Nat} : ∀ (s : Cache n) (e : Event n), Decidable (Alone s e)
  | s, .act i .advance => inferInstanceAs (Decidable (∀ p ∈ s.pulls i, p.loc = .lookup → s.files.inode p.output = none →
      ∀ j, ∀ q ∈ s.pulls j, q.loc.downloading = true → q.tmp ≠ p.tmp))
  | _, .act _ (.write _) | _, .act _ (.read _) | _, .act _ .throw | _, .start _ _ _ | _, .exit _ => isTrue trivial

/-! ### Pulls of one blob -/

def emptyCache (n : Nat) : Cache n := ⟨.empty, fun _ => none⟩

theorem start_emptyCache {host : Host} {n : Nat} : Start host (emptyCache n) :=
  ⟨fun _ => rfl, nofun, nofun⟩

section
open Threads

/-- Two pulls of one blob in one process, the second when the first has renamed its file. --/
def inTurn : List (Event 2) :=
  [.start first configDescriptor.digest ['1'], .start second configDescriptor.digest ['1'], .act first .advance,
    .act first .advance, .act first (.write (utf8 "\x7b\x7d".toList)), .act first .advance, .act first .advance,
    .act first (.read 65536), .act first .advance, .act first .advance, .act second .advance, .act second .advance,
    .act second (.read 65536), .act second .advance]

/-- The same, but both find the cache empty, and the second opens its file when the first has verified it. --/
def sharedTmp : List (Event 2) :=
  [.start first configDescriptor.digest ['1'], .start second configDescriptor.digest ['1'], .act first .advance,
    .act second .advance, .act first .advance, .act first (.write (utf8 "\x7b\x7d".toList)), .act first .advance,
    .act first .advance, .act first (.read 65536), .act first .advance, .act second .advance, .act first .advance]

end

/-- The theorem on two pulls in turn. --/
theorem cache_intact_in_turn : ∃ s, Runs.Under (step (sampleHost sampleManifest)) Alone (emptyCache 2) inTurn s ∧
    (s.pulls 1).map Pull.loc = some .returned ∧ Intact (sampleHost sampleManifest) s := by
  obtain ⟨s, hs, hloc⟩ := Runs.exists_under (step (sampleHost sampleManifest)) Alone (emptyCache 2) inTurn
    (fun s => (s.pulls 1).map Pull.loc = some .returned) (by decide +kernel)
  exact ⟨s, hs, hloc, (cache_intact hs start_emptyCache).1⟩

/-- The file that the first of them renames is empty. --/
theorem not_intact_shared_tmp : ∃ s,
    Runs.Under (step (sampleHost sampleManifest)) (fun _ _ => True) (emptyCache 2) sharedTmp s ∧
      ¬Intact (sampleHost sampleManifest) s := by
  obtain ⟨s, hs, hinode, hdata⟩ := Runs.exists_under (step (sampleHost sampleManifest)) (fun _ _ => True) (emptyCache 2)
    sharedTmp (fun s => s.files.inode (safeDigestName configDescriptor.digest) = some 0 ∧ s.files.data 0 = [])
    (by decide +kernel)
  refine ⟨s, hs, fun h => ?_⟩
  have hhash := h.complete configDescriptor.digest (configDescriptor.digest.drop 7) 0 (by decide +kernel) hinode
  rw [hdata] at hhash
  exact absurd hhash (by decide +kernel)

end NodeVmm.Oci.BlobCache
