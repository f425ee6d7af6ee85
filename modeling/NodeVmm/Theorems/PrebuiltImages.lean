import NodeVmm.ImageReference
import NodeVmm.PrebuiltRootfs

/-! Which published root filesystem an image gets. Case, a scheme and the old name of the registry are folded on purpose;
    what is left is read alike by the parser of references. -/

namespace NodeVmm.PrebuiltRootfs
open RootfsCache Oci

variable {s t image : Text} {m : PrebuiltRootfsImageMapping}

/-- The reference as it is compared, with its registry and directories. --/
def folded (image : Text) : Text :=
  let normalized := Text.lower (Text.trim image)
  let normalized := if Text.startsWith normalized "https://".toList then dropStart normalized "https://".toList
    else dropStart normalized "http://".toList
  if Text.startsWith normalized "index.docker.io/".toList then
    "docker.io/".toList ++ dropStart normalized "index.docker.io/".toList
  else normalized

/-- What `normalizeImageReference` leaves out at last. --/
def withoutHub (normalized : Text) : Text :=
  dropStart (if Text.startsWith normalized "docker.io/library/".toList then
      dropStart normalized "docker.io/library/".toList
    else dropStart normalized "docker.io/".toList) "library/".toList

theorem normalize_eq (image : Text) : normalizeImageReference image = withoutHub (folded image) := rfl

theorem dropStart_eq (h : dropStart s t = image) : s = image ∨ s = t ++ image := by
  unfold dropStart at h
  split at h
  · rename_i hstart
    obtain ⟨rest, rfl⟩ := List.isPrefixOf_iff_prefix.mp hstart
    rw [List.drop_left] at h
    exact Or.inr (congrArg (t ++ ·) h)
  · exact Or.inl h

/-- The spellings of an image in the hub that are told apart no more. --/
theorem withoutHub_eq (h : withoutHub s = image) : s = image ∨ s = "library/".toList ++ image ∨
    s = "docker.io/".toList ++ image ∨ s = "docker.io/library/".toList ++ image ∨
    s = "docker.io/library/library/".toList ++ image := by
  unfold withoutHub at h
  split_ifs at h with hstart
  · obtain ⟨rest, rfl⟩ := List.isPrefixOf_iff_prefix.mp hstart
    have hdrop : dropStart ("docker.io/library/".toList ++ rest) "docker.io/library/".toList = rest := by
      rw [dropStart, if_pos hstart, List.drop_left]
    rw [hdrop] at h
    rcases dropStart_eq h with rfl | rfl
    · exact Or.inr (Or.inr (Or.inr (Or.inl rfl)))
    · exact Or.inr (Or.inr (Or.inr (Or.inr rfl)))
  · rcases dropStart_eq h with hrest | hrest
    · rcases dropStart_eq hrest with rfl | rfl
      · exact Or.inl rfl
      · exact Or.inr (Or.inr (Or.inl rfl))
    · rcases dropStart_eq hrest with rfl | rfl
      · exact Or.inr (Or.inl rfl)
      · exact Or.inr (Or.inr (Or.inr (Or.inl rfl)))

/-- The names of a published image are spellings of it. --/
theorem normalize_published {name : Text} (hm : m ∈ prebuiltRootfsImages) (hname : name ∈ m.image :: m.aliases) :
    normalizeImageReference name = m.image := by
  have hall : (prebuiltRootfsImages.all fun m => (m.image :: m.aliases).all fun name =>
      decide (normalizeImageReference name = m.image)) = true := by decide +kernel
  simp only [List.all_eq_true, decide_eq_true_eq] at hall
  exact hall m hm name hname

theorem normalize_of_mapping (h : prebuiltRootfsImageForImage image = some m) :
    m ∈ prebuiltRootfsImages ∧ normalizeImageReference image = m.image := by
  unfold prebuiltRootfsImageForImage at h
  have hm := List.mem_of_find?_eq_some h
  have hany := List.find?_some h
  simp only [List.any_eq_true, decide_eq_true_eq] at hany
  obtain ⟨name, hname, heq⟩ := hany
  exact ⟨hm, heq.symm.trans (normalize_published hm hname)⟩

/-- A directory `library/` that the parser keeps is left out by the comparison. --/
def Superfluous (folded image : Text) : Prop :=
  "docker.io/library/library/".toList <+: folded ∨
    '/' ∈ image ∧ ("library/".toList <+: folded ∨ "docker.io/library/".toList <+: folded)

instance : Decidable (Superfluous s t) := inferInstanceAs (Decidable (_ ∨ _))

/-- The spellings of the published images. --/
def spellings (image : Text) : List Text :=
  [image, "library/".toList ++ image, "docker.io/".toList ++ image, "docker.io/library/".toList ++ image,
    "docker.io/library/library/".toList ++ image]

theorem spelled (h : prebuiltRootfsImageForImage image = some m) : folded image ∈ spellings m.image := by
  obtain ⟨-, hnormal⟩ := normalize_of_mapping h
  rw [normalize_eq] at hnormal
  simpa [spellings] using withoutHub_eq hnormal

theorem parse_spelled (hm : m ∈ prebuiltRootfsImages) (hs : s ∈ spellings m.image) (hlib : ¬Superfluous s m.image) :
    ∃ r, parseImageReference s = .ok r ∧ parseImageReference m.image = .ok r := by
  have hall : (prebuiltRootfsImages.all fun m => (spellings m.image).all fun s => Superfluous s m.image ||
      (parseImageReference s).toOption.any fun r => parseImageReference m.image = .ok r) = true := by decide +kernel
  have hagrees := List.all_eq_true.mp (List.all_eq_true.mp hall m hm) s hs
  rw [decide_eq_false hlib, Bool.false_or] at hagrees
  obtain ⟨r, hr, heq⟩ := (Option.any_eq_true ..).mp hagrees
  refine ⟨r, ?_, of_decide_eq_true heq⟩
  rcases hp : parseImageReference s with e | q
  · rw [hp] at hr
    cases hr
  · rw [hp] at hr
    cases hr
    rfl

/-- `Alpine:3.20` gets what is published for `alpine:3.20`, and the parser tells the two apart. --/
theorem case_is_folded : ¬∀ image m, prebuiltRootfsImageForImage image = some m → ∃ r, parseImageReference image = .ok r ∧
    ∃ name ∈ m.image :: m.aliases, (parseImageReference name).map ImageReference.canonical = .ok r.canonical := by
  intro hall
  have hm : (prebuiltRootfsImageForImage "Alpine:3.20".toList).any (fun m => (m.image :: m.aliases).all fun name =>
      (parseImageReference name).map ImageReference.canonical ≠
        (parseImageReference "Alpine:3.20".toList).map ImageReference.canonical) = true := by decide +kernel
  obtain ⟨m, hsome, hdiffer⟩ := (Option.any_eq_true ..).mp hm
  obtain ⟨r, hr, name, hname, heq⟩ := hall _ m hsome
  have hne := of_decide_eq_true (List.all_eq_true.mp hdiffer name hname)
  rw [hr] at hne
  exact hne heq

/-- An image that gets a published root filesystem is parsed like the image that this was made from, once case, scheme and
    the old name of the registry are folded, unless it is written below a `library/` that the parser keeps. --/
theorem prebuilt_image_agrees (image : Text) (m : PrebuiltRootfsImageMapping) (h : prebuiltRootfsImageForImage image = some m)
    (hlib : ¬Superfluous (folded image) m.image) :
    ∃ r, parseImageReference (folded image) = .ok r ∧ parseImageReference m.image = .ok r :=
  parse_spelled (normalize_of_mapping h).1 (spelled h) hlib

theorem prebuilt_image_agrees_url : ∃ m r,
    prebuiltRootfsImageForImage "HTTPS://index.docker.io/Oven/Bun:1-alpine".toList = some m ∧
    parseImageReference (folded "HTTPS://index.docker.io/Oven/Bun:1-alpine".toList) = .ok r ∧
    parseImageReference m.image = .ok r := by
  have hm : (prebuiltRootfsImageForImage "HTTPS://index.docker.io/Oven/Bun:1-alpine".toList).any (fun m =>
      ¬Superfluous (folded "HTTPS://index.docker.io/Oven/Bun:1-alpine".toList) m.image) = true := by decide +kernel
  obtain ⟨m, hsome, hlib⟩ := (Option.any_eq_true ..).mp hm
  obtain ⟨r, hr⟩ := prebuilt_image_agrees _ m hsome (of_decide_eq_true hlib)
  exact ⟨m, r, hsome, hr⟩

end NodeVmm.PrebuiltRootfs
