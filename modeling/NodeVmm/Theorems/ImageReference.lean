import NodeVmm.Theorems.ImageParts

/-! The canonical form of a reference to an image: when it leads back to the image that the user names, and when two references
    share it. -/

namespace NodeVmm.Oci

/-! ### The canonical form -/

/-- A reference is written with the parts that its text is made of. --/
theorem written_eq {w : Written} {input h tail : Text} (hhost : w.host = some h)
    (htrim : Text.trim input = (h ++ '/' :: (w.dirs ++ w.base)) ++ tail)
    (htail : (tail = [] ∧ w.digest = []) ∨ tail = '@' :: w.digest) : written input = w := by
  obtain ⟨hlike, hslash, hat⟩ := w.host_like h hhost
  have hplain : '@' ∉ h ++ '/' :: (w.dirs ++ w.base) := by
    simp [hat, w.dirs_at, w.base_at]
  obtain ⟨href, hdigest⟩ : refText input = h ++ '/' :: (w.dirs ++ w.base) ∧ referenceDigest input = w.digest := by
    rw [refText, referenceDigest, htrim]
    rcases htail with ⟨rfl, hnil⟩ | rfl
    · rw [List.append_nil, Text.takeWhile_ne_self hplain, Text.dropWhile_ne_nil hplain, hnil]
      exact ⟨rfl, rfl⟩
    · rw [Text.takeWhile_ne_append hplain, Text.dropWhile_ne_append hplain]
      exact ⟨rfl, rfl⟩
  have hfirst : (refText input).takeWhile (· ≠ '/') = h := by
    rw [href, Text.takeWhile_ne_append hslash]
  have hcheck : ((refText input).contains '/' && hostLike ((refText input).takeWhile (· ≠ '/'))) = true := by
    rw [hfirst, hlike, href]
    simp
  have hpath : pathText (refText input) = w.dirs ++ w.base := by
    rw [pathText, if_pos hcheck, href, Text.dropWhile_ne_append hslash]
    rfl
  have hindex := Written.lastIndex_closed w.dirs_closed w.base_slash
  have hwritten : (written input).host = hostText (refText input) := rfl
  ext1
  · rw [hwritten, hostText, if_pos hcheck, hfirst, hhost]
  · have hdirs : (written input).dirs = (pathText (refText input)).take (Text.lastIndex '/' (pathText (refText input))) := rfl
    rw [hdirs, hpath, hindex, List.take_left]
  · have hbase : (written input).base = (pathText (refText input)).drop (Text.lastIndex '/' (pathText (refText input))) := rfl
    rw [hbase, hpath, hindex, List.drop_left]
  · exact hdigest

namespace Written
variable (w : Written)

theorem shownDirs_suffix : w.shownDirs <:+ w.fullDirs := by
  rw [shownDirs]
  split
  · exact List.drop_suffix _ _
  · exact List.suffix_rfl

theorem shownDirs_closed : w.shownDirs = [] ∨ ∃ d, w.shownDirs = d ++ ['/'] := by
  obtain ⟨front, hfront⟩ := w.shownDirs_suffix
  rcases List.eq_nil_or_concat' w.shownDirs with h | ⟨d, c, h⟩
  · exact Or.inl h
  · rcases w.fullDirs_closed with hfull | ⟨e, hfull⟩
    · rw [hfull] at hfront
      exact Or.inl (List.append_eq_nil_iff.mp hfront).2
    · rw [h, hfull, ← List.append_assoc] at hfront
      obtain ⟨-, hlast⟩ := List.append_inj' hfront rfl
      obtain rfl : c = '/' := List.head_eq_of_cons_eq hlast
      exact Or.inr ⟨d, h⟩

theorem fullDirs_at : '@' ∉ w.fullDirs := by
  rw [fullDirs]
  split
  · decide
  · exact w.dirs_at

theorem name_subset : w.name ⊆ w.base := by
  rw [name]
  split
  · exact List.take_subset _ _
  · exact List.Subset.refl _

theorem tag_plain {c : Char} (hbase : c ∉ w.base) (hlatest : c ∉ "latest".toList) : c ∉ w.tag := by
  rw [tag]
  split
  · exact fun h => hbase (List.mem_of_mem_drop h)
  · exact hlatest

theorem colon_not_mem_tag : ':' ∉ w.tag := by
  rw [tag]
  split
  · rename_i h
    obtain ⟨a, b, hab, hb⟩ := Text.exists_last h.2
    have hdrop : (a ++ ':' :: b).drop (a.length + 1) = b := by
      rw [List.append_cons a ':' b]
      exact List.drop_left' (by simp)
    rwa [hab, Text.lastIndex_append_cons hb, hdrop]
  · decide

theorem shownHost_like : ∀ h ∈ some w.shownHost, hostLike h = true ∧ '/' ∉ h ∧ '@' ∉ h := by
  rintro h ⟨⟩
  rw [shownHost]
  split
  · decide
  · rename_i hhub
    rw [registry]
    rw [hub] at hhub
    cases hh : w.host with
    | none =>
      rw [hh] at hhub
      exact absurd rfl hhub
    | some h =>
      dsimp only
      split
      · decide
      · exact w.host_like h hh

/-- The parts of the canonical form. --/
def canon : Written where
  host := some w.shownHost
  dirs := w.shownDirs
  base := w.name ++ if w.digest = [] then ':' :: w.tag else []
  digest := w.digest
  host_like := w.shownHost_like
  dirs_closed := w.shownDirs_closed
  dirs_at := fun h => w.fullDirs_at (w.shownDirs_suffix.mem h)
  base_at := by
    have hname : '@' ∉ w.name := fun h => w.base_at (w.name_subset h)
    have htag := w.tag_plain w.base_at (by decide)
    split <;> simp [hname, htag]
  base_slash := by
    have htag := w.tag_plain w.base_slash (by decide)
    split <;> simp [w.name_slash, htag]

theorem canonical_eq : w.parsed.canonical =
    (w.shownHost ++ '/' :: (w.canon.dirs ++ w.canon.base)) ++ if w.digest = [] then [] else '@' :: w.digest := by
  have hcanonical : w.parsed.canonical = w.shownHost ++ '/' :: (w.shownDirs ++ w.name ++ w.ending) := rfl
  rw [hcanonical, ending]
  by_cases h : w.digest = []
  · simp [canon, h]
  · simp [canon, h]

theorem canon_hub : w.canon.hub = w.hub := by
  have hunfold : w.canon.hub = (decide (w.shownHost = "docker.io".toList) || decide (w.shownHost = dockerRegistry)) := rfl
  rw [hunfold]
  cases h : w.hub with
  | true => simp only [w.shownHost_docker.mpr h, decide_true, Bool.true_or]
  | false =>
    have hnot : ¬w.hub = true := by simp [h]
    have hregistry : w.registry ≠ dockerRegistry := fun hr => hnot (w.hub_iff.mpr hr)
    have hshown : w.shownHost = w.registry := by rw [shownHost, if_neg hnot]
    simp only [hshown, w.registry_ne, hregistry, decide_false, Bool.or_self]

theorem canon_registry : w.canon.registry = w.registry := by
  have hunfold : w.canon.registry = if w.shownHost = "docker.io".toList then dockerRegistry else w.shownHost := rfl
  rw [hunfold]
  simp only [w.shownHost_docker]
  split
  · rename_i h
    exact (w.hub_iff.mp h).symm
  · rename_i h
    rw [shownHost, if_neg h]

theorem canon_tagged : w.canon.tagged ↔ w.digest = [] := by
  refine ⟨fun h => h.1, fun h => ⟨h, ?_⟩⟩
  simp [canon, h]

theorem canon_base (h : w.digest = []) : w.canon.base = w.name ++ ':' :: w.tag := by
  simp [canon, h]

theorem canon_name : w.canon.name = w.name := by
  rw [name]
  by_cases h : w.digest = []
  · rw [if_pos (w.canon_tagged.mpr h), w.canon_base h, Text.lastIndex_append_cons w.colon_not_mem_tag]
    exact List.take_left' rfl
  · rw [if_neg (mt w.canon_tagged.mp h)]
    simp [canon, h]

theorem canon_tag (h : w.digest = []) : w.canon.tag = w.tag := by
  have hdrop : (w.name ++ ':' :: w.tag).drop (w.name.length + 1) = w.tag := by
    rw [List.append_cons w.name ':' w.tag]
    exact List.drop_left' (by simp)
  rw [tag, if_pos (w.canon_tagged.mpr h), w.canon_base h, Text.lastIndex_append_cons w.colon_not_mem_tag, hdrop]

theorem canon_reference : w.canon.parsed.reference = w.parsed.reference := by
  have hcanon : w.canon.parsed.reference = if w.digest = [] then w.canon.tag else w.digest := rfl
  have hself : w.parsed.reference = if w.digest = [] then w.tag else w.digest := rfl
  rw [hcanon, hself]
  split
  · rename_i h
    rw [w.canon_tag h]
  · rfl

/-- The path of an image of Docker Hub is below `library/`, and not one of its own images. --/
def Deep : Prop := w.hub = true ∧ libraryDir <+: w.dirs ∧ w.dirs ≠ libraryDir

instance : Decidable w.Deep := inferInstanceAs (Decidable (_ ∧ _))

theorem deep_iff : w.Deep ↔ w.hub = true ∧ ∃ rest, rest ≠ [] ∧ w.fullDirs = libraryDir ++ rest := by
  have hrest : (libraryDir <+: w.dirs ∧ w.dirs ≠ libraryDir) ↔ ∃ rest, rest ≠ [] ∧ w.dirs = libraryDir ++ rest := by
    constructor
    · rintro ⟨⟨rest, hrest⟩, hne⟩
      refine ⟨rest, ?_, hrest.symm⟩
      rintro rfl
      exact hne (hrest.symm.trans (List.append_nil _))
    · rintro ⟨rest, hne, hrest⟩
      refine ⟨⟨rest, hrest.symm⟩, fun h => ?_⟩
      rw [hrest] at h
      exact hne (List.append_right_eq_self.mp h)
  rw [Deep, hrest]
  refine and_congr_right fun hhub => exists_congr fun rest => and_congr_right fun hne => ?_
  rw [fullDirs]
  split
  · rename_i h
    rw [h.2]
    exact iff_of_false (fun heq => hne (List.append_eq_nil_iff.mp heq.symm).2)
      fun heq => hne (List.append_right_eq_self.mp heq.symm)
  · exact Iff.rfl

theorem fullDirs_ne (h : w.hub = true) : w.fullDirs ≠ [] := by
  rw [fullDirs]
  split
  · decide
  · rename_i hdirs
    exact fun hnil => hdirs ⟨h, hnil⟩

/-- Docker Hub's prefix comes back, but for one that more directories follow. --/
theorem canon_fullDirs : w.canon.fullDirs = w.fullDirs ↔ ¬w.Deep := by
  have hcanon : w.canon.fullDirs = if w.hub = true ∧ w.shownDirs = [] then libraryDir else w.shownDirs := by
    rw [fullDirs, canon_hub]
    rfl
  rw [hcanon, deep_iff]
  by_cases hlib : w.hub = true ∧ libraryDir <+: w.fullDirs
  · obtain ⟨hhub, rest, hrest⟩ := hlib
    have hshown : w.shownDirs = rest := by
      rw [shownDirs, if_pos ⟨hhub, rest, hrest⟩, ← hrest, List.drop_left]
    rw [hshown, ← hrest]
    by_cases hnil : rest = []
    · rw [if_pos ⟨hhub, hnil⟩, hnil, List.append_nil]
      refine iff_of_true rfl ?_
      rintro ⟨-, rest', hne, heq⟩
      exact hne (List.append_right_eq_self.mp heq.symm)
    · rw [if_neg fun h => hnil h.2]
      refine iff_of_false (fun heq => ?_) (not_not.mpr ⟨hhub, rest, hnil, rfl⟩)
      exact absurd (List.append_left_eq_self.mp heq.symm) (by decide)
  · have hshown : w.shownDirs = w.fullDirs := by rw [shownDirs, if_neg hlib]
    rw [hshown, if_neg fun h => w.fullDirs_ne h.1 h.2]
    refine iff_of_true rfl ?_
    rintro ⟨hhub, rest, -, hrest⟩
    exact hlib ⟨hhub, rest, hrest.symm⟩

/-- The tag of a reference without a digest ends with white space, which the `@` at the end of the input keeps. --/
def Spaced : Prop := w.tagged ∧ w.base.getLast?.any Text.isSpace = true

instance : Decidable w.Spaced := inferInstanceAs (Decidable (_ ∧ _))

/-- A reference with a digest has no tag, and one without has at most one colon after the last slash. --/
def OneTag : Prop := if w.digest = [] then w.base.count ':' ≤ 1 else ':' ∉ w.base

instance : Decidable w.OneTag := inferInstanceAs (Decidable (if w.digest = [] then w.base.count ':' ≤ 1 else ':' ∉ w.base))

theorem base_eq (h : w.tagged) : w.base = w.name ++ ':' :: w.tag := by
  obtain ⟨a, b, hab, hb⟩ := Text.exists_last h.2
  have hdrop : (a ++ ':' :: b).drop (a.length + 1) = b := by
    rw [List.append_cons a ':' b]
    exact List.drop_left' (by simp)
  rw [name, tag, if_pos h, if_pos h, hab, Text.lastIndex_append_cons hb, hdrop]
  exact congrArg (· ++ ':' :: b) (List.take_left' rfl).symm

/-! ### The image that is named -/

theorem drop_repository : (w.fullDirs ++ w.name).drop (Text.lastIndex '/' (w.fullDirs ++ w.name)) = w.name := by
  rw [lastIndex_closed w.fullDirs_closed w.name_slash, List.drop_left]

theorem name_plain_iff : ':' ∉ w.name ↔ w.OneTag := by
  rw [OneTag]
  by_cases ht : w.tagged
  · have hcount : w.base.count ':' = w.name.count ':' + 1 := by
      rw [w.base_eq ht]
      simp [List.count_append, List.count_eq_zero_of_not_mem w.colon_not_mem_tag]
    rw [if_pos ht.1, hcount, ← List.count_eq_zero]
    omega
  · rw [name, if_neg ht]
    by_cases hd : w.digest = []
    · have hcolon : ':' ∉ w.base := fun h => ht ⟨hd, h⟩
      rw [if_pos hd, List.count_eq_zero_of_not_mem hcolon]
      exact iff_of_true hcolon (Nat.zero_le 1)
    · rw [if_neg hd]

/-- The repository and the reference are those that the user names when the last component has one tag at most. --/
theorem image_of_oneTag (h : w.OneTag) : w.image = (w.registry, w.fullDirs ++ w.name, w.parsed.reference) := by
  have hname := w.name_plain_iff.mpr h
  have hreference : w.parsed.reference = if w.digest = [] then w.tag else w.digest := rfl
  rw [image, hreference]
  by_cases ht : w.tagged
  · rw [w.base_eq ht, Text.takeWhile_ne_append hname, Text.dropWhile_ne_append hname, if_neg (not_not.mpr ht.1), if_pos ht.1,
      if_pos (by simp)]
    rfl
  · have hself : w.name = w.base := by rw [name, if_neg ht]
    rw [hself] at hname ⊢
    rw [Text.takeWhile_ne_self hname, if_neg hname, tag, if_neg ht]
    by_cases hd : w.digest = []
    · rw [if_neg (not_not.mpr hd), if_pos hd]
    · rw [if_pos hd, if_neg hd]

end Written

/-! ### Canonical forms of inputs -/

section
variable {input : Text}

theorem prefix_written_host {h : Text} (hh : (written input).host = some h) : h <+: Text.trim input := by
  have hunfold : (written input).host = hostText (refText input) := rfl
  rw [hunfold, hostText] at hh
  split at hh
  · cases hh
    exact (List.takeWhile_prefix _).trans (List.takeWhile_prefix _)
  · cases hh

theorem hostLike_ne {h : Text} (hlike : hostLike h = true) : h ≠ [] := by
  rintro rfl
  cases hlike

theorem head?_shownHost (x : Char) (hx : x ∈ (written input).shownHost.head?) : Text.isSpace x = false := by
  rw [Written.shownHost] at hx
  split at hx
  · cases hx
    decide
  · rename_i hhub
    rw [Written.hub] at hhub
    cases hh : (written input).host with
    | none =>
      rw [hh] at hhub
      exact absurd rfl hhub
    | some h =>
      have hne := hostLike_ne ((written input).host_like h hh).1
      have hregistry : (written input).registry = h ∨ (written input).registry = dockerRegistry := by
        rw [Written.registry, hh]
        dsimp only
        split
        · exact Or.inr rfl
        · exact Or.inl rfl
      rcases hregistry with hregistry | hregistry
      · rw [hregistry] at hx
        obtain ⟨t, ht⟩ := prefix_written_host hh
        refine Text.head?_trim (s := input) x ?_
        rw [← ht, List.head?_append_of_ne_nil _ hne]
        exact hx
      · rw [hregistry] at hx
        cases hx
        decide

theorem written_digest_suffix : (written input).digest <:+ Text.trim input :=
  (List.drop_suffix _ _).trans (List.dropWhile_suffix _)

theorem getLast?_suffix {s t : Text} (h : s <:+ t) (x : Char) (hx : x ∈ s.getLast?) : x ∈ t.getLast? := by
  obtain ⟨front, rfl⟩ := h
  rw [List.getLast?_append, hx]
  rfl

/-- The canonical form ends with white space when the tag does. --/
theorem getLast?_ending : (written input).ending.getLast?.any Text.isSpace = true ↔ (written input).Spaced := by
  rw [Written.Spaced]
  by_cases ht : (written input).tagged
  · have hlast : (written input).base.getLast? = (written input).ending.getLast? := by
      rw [Written.base_eq _ ht, Written.ending, if_pos ht.1, List.getLast?_append]
      cases h : (':' :: (written input).tag).getLast? with
      | none => exact absurd (List.getLast?_eq_none_iff.mp h) (List.cons_ne_nil _ _)
      | some x => rfl
    rw [hlast]
    exact (and_iff_right ht).symm
  · refine iff_of_false ?_ fun h => ht h.1
    intro hany
    obtain ⟨x, hx, hspace⟩ := (Option.any_eq_true _ _).mp hany
    rw [Written.ending] at hx
    split at hx
    · rw [Written.tag, if_neg ht] at hx
      cases hx
      exact absurd hspace (by decide)
    · rename_i hdigest
      rw [List.getLast?_cons_of_ne_nil hdigest] at hx
      have hlast := Text.getLast?_trim x (getLast?_suffix written_digest_suffix x hx)
      rw [hspace] at hlast
      cases hlast

theorem canonical_ends (input : Text) : (∀ x ∈ (written input).parsed.canonical.head?, Text.isSpace x = false) ∧
    (written input).parsed.canonical.getLast? = (written input).ending.getLast? := by
  have hne := hostLike_ne ((written input).shownHost_like _ rfl).1
  have hending : (written input).ending ≠ [] := by
    rw [Written.ending]
    split <;> exact List.cons_ne_nil _ _
  have hcanonical : (written input).parsed.canonical =
      ((written input).shownHost ++ '/' :: ((written input).shownDirs ++ (written input).name)) ++ (written input).ending := by
    simp [Written.parsed]
  constructor
  · rw [hcanonical, List.append_assoc, List.head?_append_of_ne_nil _ hne]
    exact head?_shownHost
  · rw [hcanonical, List.getLast?_append_of_ne_nil _ hending]

/-- The canonical form is read with its own parts. --/
theorem written_canonical (h : ¬(written input).Spaced) : written (written input).parsed.canonical = (written input).canon := by
  obtain ⟨hhead, hlast⟩ := canonical_ends input
  have htail : ((if (written input).digest = [] then [] else '@' :: (written input).digest) = [] ∧ (written input).digest = []) ∨
      (if (written input).digest = [] then [] else '@' :: (written input).digest) = '@' :: (written input).digest := by
    by_cases hd : (written input).digest = []
    · exact Or.inl ⟨if_pos hd, hd⟩
    · exact Or.inr (if_neg hd)
  refine written_eq rfl ?_ htail
  refine (Text.trim_eq_self ?_ ?_).trans (written input).canonical_eq
  · exact hhead
  · intro x hx
    rw [hlast] at hx
    by_contra hspace
    exact h (getLast?_ending.mp ((Option.any_eq_true _ _).mpr ⟨x, hx, Bool.not_eq_false _ ▸ hspace⟩))

theorem trim_canonical_ne (input : Text) : Text.trim (written input).parsed.canonical ≠ [] := by
  obtain ⟨hhead, -⟩ := canonical_ends input
  have hne := hostLike_ne ((written input).shownHost_like _ rfl).1
  cases h : (written input).parsed.canonical with
  | nil => exact absurd (List.append_eq_nil_iff.mp h).1 hne
  | cons x rest =>
    rw [h] at hhead
    exact Text.trim_ne_nil (hhead x rfl)

/-- A reference that is read from a text without `@` does not end with white space. --/
theorem getLast?_reference (hat : '@' ∉ input) (x : Char) (hx : x ∈ (written input).parsed.reference.getLast?) :
    Text.isSpace x = false := by
  have htrim : '@' ∉ Text.trim input := fun h => hat (Text.trim_subset input h)
  have hdigest : (written input).digest = [] := by
    have hunfold : (written input).digest = ((Text.trim input).dropWhile (· ≠ '@')).drop 1 := rfl
    rw [hunfold, Text.dropWhile_ne_nil htrim, List.drop_nil]
  have hreference : (written input).parsed.reference = (written input).tag := if_pos hdigest
  rw [hreference, Written.tag] at hx
  split at hx
  · have hself : refText input = Text.trim input := Text.takeWhile_ne_self htrim
    have hbase : (written input).base <:+ Text.trim input := by
      rw [← hself]
      exact (List.drop_suffix _ _).trans (pathText_suffix _)
    exact Text.getLast?_trim x (getLast?_suffix ((List.drop_suffix _ _).trans hbase) x hx)
  · cases hx
    decide

end

/-! ### The results -/

def SameTriple (r s : ImageReference) : Prop :=
  (r.registry, r.repository, r.reference) = (s.registry, s.repository, s.reference)

instance {r s : ImageReference} : Decidable (SameTriple r s) := inferInstanceAs (Decidable (_ = _))

/-- The repository holds no tag and no digest, the image is the one that the user names, and the canonical form leads back to it. --/
def Faithful (input : Text) (r : ImageReference) : Prop :=
  ('@' ∉ r.repository ∧ ':' ∉ r.repository.drop (Text.lastIndex '/' r.repository)) ∧
  (r.registry, r.repository, r.reference) = (written input).image ∧
  ∃ s, parseImageReference r.canonical = .ok s ∧ SameTriple r s

/-- What is written has one tag at most, no other directories below Docker Hub's `library/`, and no white space after the tag. --/
def Plain (w : Written) : Prop := w.OneTag ∧ ¬w.Deep ∧ ¬w.Spaced

instance {w : Written} : Decidable (Plain w) := inferInstanceAs (Decidable (_ ∧ _))

/-- The last component of a reference and what it ends with, the default tag included. --/
def Written.spelled (w : Written) : Text :=
  w.base ++ if w.digest = [] then (if ':' ∈ w.base then [] else ":latest".toList) else '@' :: w.digest

/-- The same image but for the `library/` before the path of the first. --/
def Shadows (w v : Written) : Prop :=
  w.hub = true ∧ v.hub = true ∧ w.fullDirs = libraryDir ++ v.fullDirs ∧ ¬libraryDir <+: v.fullDirs ∧ w.spelled = v.spelled

instance {w v : Written} : Decidable (Shadows w v) := inferInstanceAs (Decidable (_ ∧ _))

theorem parse_ok {input : Text} {r : ImageReference} (h : parseImageReference input = .ok r) : r = (written input).parsed := by
  have hne : Text.trim input ≠ [] := by
    intro hnil
    rw [parseImageReference, hnil] at h
    cases h
  rw [parse_eq hne] at h
  exact (Except.ok.inj h).symm

theorem reparse_iff (input : Text) :
    (∃ s, parseImageReference (written input).parsed.canonical = .ok s ∧ SameTriple (written input).parsed s) ↔
      ¬(written input).Deep ∧ ¬(written input).Spaced := by
  have hparse := parse_eq (trim_canonical_ne input)
  by_cases hspace : (written input).Spaced
  · refine iff_of_false ?_ fun h => h.2 hspace
    rintro ⟨s, hs, hsame⟩
    -- the white space at the end is lost
    obtain ⟨x, hx, hxspace⟩ := (Option.any_eq_true _ _).mp (getLast?_ending.mpr hspace)
    have hdigest := hspace.1.1
    have hat : '@' ∉ (written input).parsed.canonical := by
      obtain ⟨-, -, hhost⟩ := (written input).shownHost_like _ rfl
      rw [Written.canonical_eq, if_pos hdigest]
      simp [hhost, (written input).canon.dirs_at, (written input).canon.base_at]
    have hreference : (written (written input).parsed.canonical).parsed.reference = (written input).tag := by
      rw [← parse_ok hs]
      exact (Prod.mk.inj (Prod.mk.inj hsame).2).2.symm.trans (if_pos hdigest)
    rw [Written.ending, if_pos hdigest] at hx
    by_cases htag : (written input).tag = []
    · rw [htag] at hx
      cases hx
      exact absurd hxspace (by decide)
    · rw [List.getLast?_cons_of_ne_nil htag, ← hreference] at hx
      have hlast := getLast?_reference hat x hx
      rw [hxspace] at hlast
      cases hlast
  · rw [written_canonical hspace] at hparse
    rw [hparse, ← (written input).canon_fullDirs]
    constructor
    · rintro ⟨s, hs, hsame⟩
      obtain rfl := Except.ok.inj hs
      refine ⟨?_, hspace⟩
      have hrepository : (written input).fullDirs ++ (written input).name = (written input).canon.fullDirs ++ (written input).canon.name :=
        (Prod.mk.inj (Prod.mk.inj hsame).2).1
      rw [Written.canon_name] at hrepository
      exact (List.append_cancel_right hrepository).symm
    · rintro ⟨hdirs, -⟩
      refine ⟨_, rfl, ?_⟩
      have hrepository : (written input).canon.parsed.repository = (written input).parsed.repository := by
        simp only [Written.parsed, hdirs, Written.canon_name]
      have hregistry : (written input).canon.parsed.registry = (written input).parsed.registry := Written.canon_registry _
      rw [SameTriple, hrepository, hregistry, Written.canon_reference]

theorem faithful_iff (input : Text) : Faithful input (written input).parsed ↔ Plain (written input) := by
  have hat : '@' ∉ (written input).parsed.repository := by
    intro h
    rcases List.mem_append.mp h with h | h
    · exact (written input).fullDirs_at h
    · exact (written input).base_at ((written input).name_subset h)
  have hplain : ':' ∉ (written input).parsed.repository.drop (Text.lastIndex '/' (written input).parsed.repository) ↔
      (written input).OneTag := by
    have hrepository : (written input).parsed.repository = (written input).fullDirs ++ (written input).name := rfl
    rw [hrepository, Written.drop_repository, Written.name_plain_iff]
  rw [Faithful, Plain, hplain, reparse_iff]
  constructor
  · rintro ⟨⟨-, hone⟩, -, hre⟩
    exact ⟨hone, hre⟩
  · rintro ⟨hone, hre⟩
    exact ⟨⟨hat, hone⟩, ((written input).image_of_oneTag hone).symm, hre⟩

/-! ### Canonical forms that are shared -/

namespace Written
variable (w v : Written)

theorem spelled_eq : w.name ++ w.ending = w.spelled := by
  rw [spelled, ending]
  by_cases ht : w.tagged
  · rw [if_pos ht.1, if_pos ht.1, if_pos ht.2, List.append_nil, ← w.base_eq ht]
  · have hname : w.name = w.base := by rw [name, if_neg ht]
    rw [hname]
    by_cases hd : w.digest = []
    · rw [if_pos hd, if_pos hd, if_neg fun h => ht ⟨hd, h⟩, tag, if_neg ht]
      rfl
    · rw [if_neg hd, if_neg hd]

theorem fullDirs_cases : (w.fullDirs = w.shownDirs ∧ ¬(w.hub = true ∧ libraryDir <+: w.fullDirs)) ∨
    (w.fullDirs = libraryDir ++ w.shownDirs ∧ w.hub = true) := by
  rw [shownDirs]
  by_cases h : w.hub = true ∧ libraryDir <+: w.fullDirs
  · rw [if_pos h]
    obtain ⟨hhub, rest, hrest⟩ := h
    rw [← hrest, List.drop_left]
    exact Or.inr ⟨rfl, hhub⟩
  · rw [if_neg h]
    exact Or.inl ⟨rfl, h⟩

theorem canonical_spelled : w.parsed.canonical = w.shownHost ++ '/' :: (w.shownDirs ++ w.spelled) := by
  have hcanonical : w.parsed.canonical = w.shownHost ++ '/' :: (w.shownDirs ++ w.name ++ w.ending) := rfl
  rw [hcanonical, List.append_assoc, spelled_eq]

end Written

/-- A canonical form has its parts in one way only. --/
theorem canon_inj {w v : Written} (h : w.parsed.canonical = v.parsed.canonical) : w.canon = v.canon := by
  have hplain : ∀ u : Written, '@' ∉ u.shownHost ++ '/' :: (u.canon.dirs ++ u.canon.base) := by
    intro u
    obtain ⟨-, -, hhost⟩ := u.shownHost_like _ rfl
    simp [hhost, u.canon.dirs_at, u.canon.base_at]
  have hends : ∀ u : Written, u.parsed.canonical.takeWhile (· ≠ '@') = u.shownHost ++ '/' :: (u.canon.dirs ++ u.canon.base) ∧
      (u.parsed.canonical.dropWhile (· ≠ '@')).drop 1 = u.canon.digest := by
    intro u
    have hdigest : u.canon.digest = u.digest := rfl
    rw [u.canonical_eq, hdigest]
    by_cases hd : u.digest = []
    · rw [if_pos hd, List.append_nil, Text.takeWhile_ne_self (hplain u), Text.dropWhile_ne_nil (hplain u), hd]
      exact ⟨rfl, rfl⟩
    · rw [if_neg hd, Text.takeWhile_ne_append (hplain u), Text.dropWhile_ne_append (hplain u)]
      exact ⟨rfl, rfl⟩
  obtain ⟨hw, hwd⟩ := hends w
  obtain ⟨hv, hvd⟩ := hends v
  rw [h, hv] at hw
  rw [h, hvd] at hwd
  obtain ⟨-, hwslash, -⟩ := w.shownHost_like _ rfl
  obtain ⟨-, hvslash, -⟩ := v.shownHost_like _ rfl
  obtain ⟨hhost, hpath⟩ := Text.append_cons_inj hvslash hwslash hw
  have hindex := congrArg (Text.lastIndex '/') hpath
  rw [Written.lastIndex_closed v.canon.dirs_closed v.canon.base_slash, Written.lastIndex_closed w.canon.dirs_closed w.canon.base_slash]
    at hindex
  obtain ⟨hdirs, hbase⟩ := List.append_inj hpath hindex
  exact Written.ext (congrArg some hhost.symm) hdirs.symm hbase.symm hwd.symm

theorem canonical_of_shadows {w v : Written} (h : Shadows w v) : w.parsed.canonical = v.parsed.canonical := by
  obtain ⟨hw, hv, hdirs, hlib, hspelled⟩ := h
  have hprefix : libraryDir <+: w.fullDirs := ⟨v.fullDirs, hdirs.symm⟩
  have hshown : w.shownDirs = v.shownDirs := by
    rw [Written.shownDirs, if_pos ⟨hw, hprefix⟩, hdirs, List.drop_left, Written.shownDirs, if_neg fun h => hlib h.2]
  rw [Written.canonical_spelled, Written.canonical_spelled, hshown, hspelled, w.shownHost_docker.mpr hw, v.shownHost_docker.mpr hv]

theorem name_of_canon {w v : Written} (h : w.canon = v.canon) : w.name = v.name := by
  rw [← w.canon_name, ← v.canon_name, h]

theorem not_shadows {w v : Written} (hshared : w.parsed.canonical = v.parsed.canonical → SameTriple w.parsed v.parsed) :
    ¬Shadows w v := by
  intro h
  have hcanonical := canonical_of_shadows h
  have hrepository : w.fullDirs ++ w.name = v.fullDirs ++ v.name := (Prod.mk.inj (Prod.mk.inj (hshared hcanonical)).2).1
  rw [name_of_canon (canon_inj hcanonical), h.2.2.1] at hrepository
  exact absurd (List.append_left_eq_self.mp (List.append_cancel_right hrepository)) (by decide)

/-- Two references share a canonical form without naming one image exactly when one is the other below `library/`. --/
theorem shared_iff (w v : Written) :
    (w.parsed.canonical = v.parsed.canonical → SameTriple w.parsed v.parsed) ↔ ¬Shadows w v ∧ ¬Shadows v w := by
  constructor
  · intro hshared
    exact ⟨not_shadows hshared, not_shadows fun h => (hshared h.symm).symm⟩
  · rintro ⟨hwv, hvw⟩ hcanonical
    have hcanon := canon_inj hcanonical
    have hname := name_of_canon hcanon
    have hregistry : w.registry = v.registry := by rw [← w.canon_registry, ← v.canon_registry, hcanon]
    have hreference : w.parsed.reference = v.parsed.reference := by rw [← w.canon_reference, ← v.canon_reference, hcanon]
    have hhub : w.hub = v.hub := by rw [← w.canon_hub, ← v.canon_hub, hcanon]
    have hshown : w.shownDirs = v.shownDirs := congrArg Written.dirs hcanon
    have hspelled : w.spelled = v.spelled := by
      have hhost : w.shownHost = v.shownHost := Option.some.inj (congrArg Written.host hcanon)
      have hbodies := hcanonical
      rw [w.canonical_spelled, v.canonical_spelled, hshown, hhost] at hbodies
      exact List.append_cancel_left (List.cons.inj (List.append_cancel_left hbodies)).2
    have hdirs : w.fullDirs = v.fullDirs := by
      rcases w.fullDirs_cases with ⟨hw, hwlib⟩ | ⟨hw, hwhub⟩ <;> rcases v.fullDirs_cases with ⟨hv, hvlib⟩ | ⟨hv, hvhub⟩
      · rw [hw, hv, hshown]
      · have hwhub := hhub.trans hvhub
        exact absurd ⟨hvhub, hwhub, by rw [hv, hw, hshown], fun h => hwlib ⟨hwhub, h⟩, hspelled.symm⟩ hvw
      · have hvhub := hhub.symm.trans hwhub
        exact absurd ⟨hwhub, hvhub, by rw [hv, hw, hshown], fun h => hvlib ⟨hvhub, h⟩, hspelled⟩ hwv
      · rw [hw, hv, hshown]
    have hrepository : w.parsed.repository = v.parsed.repository := by
      simp only [Written.parsed, hdirs, hname]
    have hregistries : w.parsed.registry = v.parsed.registry := hregistry
    rw [SameTriple, hregistries, hrepository, hreference]

/-- A reference is parsed faithfully exactly when what is written is plain, and two references share a canonical form for one image
    only, but for those of Docker Hub that are alike below `library/`. --/
theorem image_reference_iff (input input' : Text) (r s : ImageReference) (hr : parseImageReference input = .ok r)
    (hs : parseImageReference input' = .ok s) :
    (Faithful input r ↔ Plain (written input)) ∧
    ((r.canonical = s.canonical → SameTriple r s) ↔
      ¬Shadows (written input) (written input') ∧ ¬Shadows (written input') (written input)) := by
  rw [parse_ok hr, parse_ok hs]
  exact ⟨faithful_iff input, shared_iff _ _⟩

theorem image_reference_alpine :
    ∃ r s, parseImageReference " alpine:3.20 ".toList = .ok r ∧ parseImageReference "localhost:5000/ns/app@sha256:abc".toList = .ok s ∧
      Faithful " alpine:3.20 ".toList r ∧ Faithful "localhost:5000/ns/app@sha256:abc".toList s ∧
      (r.canonical = s.canonical → SameTriple r s) := by
  have hr : parseImageReference " alpine:3.20 ".toList = .ok (written " alpine:3.20 ".toList).parsed := by decide
  have hs : parseImageReference "localhost:5000/ns/app@sha256:abc".toList =
      .ok (written "localhost:5000/ns/app@sha256:abc".toList).parsed := by decide
  obtain ⟨hfaithful, hshared⟩ := image_reference_iff _ _ _ _ hr hs
  obtain ⟨hfaithful', -⟩ := image_reference_iff _ _ _ _ hs hr
  exact ⟨_, _, hr, hs, hfaithful.mpr (by decide), hfaithful'.mpr (by decide), hshared.mpr (by decide)⟩

/-- A tag before a digest stays in the repository, the path of an image below `library/` loses it, and two images share a form. --/
theorem tag_before_digest :
    (∃ r, parseImageReference "alpine:3.20@sha256:abc".toList = .ok r ∧ ¬Faithful "alpine:3.20@sha256:abc".toList r) ∧
    (∃ r s, parseImageReference "library/a/b".toList = .ok r ∧ parseImageReference "a/b".toList = .ok s ∧
      r.canonical = s.canonical ∧ ¬SameTriple r s) := by
  refine ⟨⟨_, rfl, ?_⟩, _, _, rfl, rfl, by decide, by decide⟩
  rintro ⟨⟨-, hcolon⟩, -⟩
  exact absurd hcolon (by decide)

end NodeVmm.Oci
