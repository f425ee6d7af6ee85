import NodeVmm.ImageReference

/-! The parts that the user writes in a reference, the image that they name, and what `parseImageReference` makes of them. -/

namespace NodeVmm.Oci

/-- What the first component of a reference looks like when it is a registry. --/
def hostLike (first : Text) : Bool := first.contains '.' || first.contains ':' || first == "localhost".toList

/-- The parts of a reference: the registry, the directories of the path with a slash after each, its last component, and the
    digest, which is empty when there is none. --/
@[ext]
structure Written where
  host : Option Text
  dirs : Text
  base : Text
  digest : Text
  host_like : ∀ h ∈ host, hostLike h = true ∧ '/' ∉ h ∧ '@' ∉ h
  dirs_closed : dirs = [] ∨ ∃ d, dirs = d ++ ['/']
  dirs_at : '@' ∉ dirs
  base_at : '@' ∉ base
  base_slash : '/' ∉ base

/-! ### The directories of a path -/

theorem take_lastIndex (path : Text) :
    path.take (Text.lastIndex '/' path) = [] ∨ ∃ d, path.take (Text.lastIndex '/' path) = d ++ ['/'] := by
  by_cases h : '/' ∈ path
  · obtain ⟨a, b, rfl, hb⟩ := Text.exists_last h
    right
    refine ⟨a, ?_⟩
    rw [Text.lastIndex_append_cons hb, List.append_cons a '/' b]
    exact List.take_left' (by simp)
  · left
    rw [Text.lastIndex_of_not_mem h, List.take_zero]

theorem slash_not_mem_drop (path : Text) : '/' ∉ path.drop (Text.lastIndex '/' path) := by
  by_cases h : '/' ∈ path
  · obtain ⟨a, b, rfl, hb⟩ := Text.exists_last h
    have hdrop : (a ++ '/' :: b).drop (a.length + 1) = b := by
      rw [List.append_cons a '/' b]
      exact List.drop_left' (by simp)
    rwa [Text.lastIndex_append_cons hb, hdrop]
  · rwa [Text.lastIndex_of_not_mem h, List.drop_zero]

/-- What stands before the first `@`. --/
def refText (input : Text) : Text := (Text.trim input).takeWhile (· ≠ '@')

theorem at_not_mem_refText (input : Text) : '@' ∉ refText input := Text.not_mem_takeWhile_ne

/-- The registry that a reference is written with. --/
def hostText (ref : Text) : Option Text :=
  if ref.contains '/' && hostLike (ref.takeWhile (· ≠ '/')) then some (ref.takeWhile (· ≠ '/')) else none

def pathText (ref : Text) : Text :=
  if ref.contains '/' && hostLike (ref.takeWhile (· ≠ '/')) then (ref.dropWhile (· ≠ '/')).drop 1 else ref

theorem pathText_suffix (ref : Text) : pathText ref <:+ ref := by
  rw [pathText]
  split
  · exact (List.drop_suffix _ _).trans (List.dropWhile_suffix _)
  · exact List.suffix_rfl

theorem at_not_mem_pathText (input : Text) : '@' ∉ pathText (refText input) := fun h =>
  at_not_mem_refText input ((pathText_suffix _).mem h)

def written (input : Text) : Written where
  host := hostText (refText input)
  dirs := (pathText (refText input)).take (Text.lastIndex '/' (pathText (refText input)))
  base := (pathText (refText input)).drop (Text.lastIndex '/' (pathText (refText input)))
  digest := referenceDigest input
  host_like := by
    intro h hh
    rw [hostText] at hh
    split at hh
    · rename_i hlike
      cases hh
      refine ⟨(Bool.and_eq_true_iff.mp hlike).2, Text.not_mem_takeWhile_ne, fun hat => ?_⟩
      exact at_not_mem_refText input ((List.takeWhile_prefix _).mem hat)
    · cases hh
  dirs_closed := take_lastIndex _
  dirs_at := fun h => at_not_mem_pathText input (List.mem_of_mem_take h)
  base_at := fun h => at_not_mem_pathText input (List.mem_of_mem_drop h)
  base_slash := slash_not_mem_drop _

def libraryDir : Text := "library/".toList

namespace Written
variable (w : Written)

/-- The reference is to Docker Hub. --/
def hub : Bool := match w.host with
  | none => true
  | some h => h = "docker.io".toList || h = dockerRegistry

def registry : Text := match w.host with
  | none => dockerRegistry
  | some h => if h = "docker.io".toList then dockerRegistry else h

/-- The directories of the repository: those of Docker Hub's own images are not written. --/
def fullDirs : Text := if w.hub = true ∧ w.dirs = [] then libraryDir else w.dirs

/-- The registry, the repository and the tag or digest of the image that the user names: the name of the last component ends at
    its first colon, and a digest is taken before a tag. --/
def image : Text × Text × Text :=
  (w.registry, w.fullDirs ++ w.base.takeWhile (· ≠ ':'),
    if w.digest ≠ [] then w.digest
    else if ':' ∈ w.base then (w.base.dropWhile (· ≠ ':')).drop 1 else "latest".toList)

/-! What the code makes of the parts: only a reference without a digest has a tag, after its last colon. -/

def tagged : Prop := w.digest = [] ∧ ':' ∈ w.base

instance : Decidable w.tagged := inferInstanceAs (Decidable (_ ∧ _))

def name : Text := if w.tagged then w.base.take (Text.lastIndex ':' w.base - 1) else w.base

def tag : Text := if w.tagged then w.base.drop (Text.lastIndex ':' w.base) else "latest".toList

def ending : Text := if w.digest = [] then ':' :: w.tag else '@' :: w.digest

def shownHost : Text := if w.hub then "docker.io".toList else w.registry

def shownDirs : Text :=
  if w.hub = true ∧ libraryDir <+: w.fullDirs then w.fullDirs.drop libraryDir.length else w.fullDirs

def parsed : ImageReference where
  registry := w.registry
  repository := w.fullDirs ++ w.name
  reference := if w.digest = [] then w.tag else w.digest
  canonical := w.shownHost ++ '/' :: (w.shownDirs ++ w.name ++ w.ending)

end Written

/-! ### The parts that the code finds -/

section
variable {ref : Text}

theorem split_of_slash (h : '/' ∈ ref) :
    Text.split '/' ref = ref.takeWhile (· ≠ '/') :: Text.split '/' ((ref.dropWhile (· ≠ '/')).drop 1) := by
  obtain ⟨a, b, rfl, ha⟩ := List.eq_append_cons_of_mem h
  have hsplit : Text.split '/' (a ++ '/' :: b) = Text.split '/' a ++ Text.split '/' b := List.splitOn_append_cons_self a b
  have hone : Text.split '/' a = [a] := List.splitOn_eq_singleton ha
  rw [Text.takeWhile_ne_append ha, Text.dropWhile_ne_append ha, hsplit, hone]
  rfl

theorem split_of_not_slash (h : '/' ∉ ref) : Text.split '/' ref = [ref] := List.splitOn_eq_singleton h

theorem headD_split (ref : Text) : (Text.split '/' ref).headD [] = ref.takeWhile (· ≠ '/') := by
  by_cases h : '/' ∈ ref
  · rw [split_of_slash h]
    rfl
  · rw [split_of_not_slash h, Text.takeWhile_ne_self h]
    rfl

theorem one_lt_length_split (ref : Text) : decide ((Text.split '/' ref).length > 1) = ref.contains '/' := by
  by_cases h : '/' ∈ ref
  · have hne : Text.split '/' ((ref.dropWhile (· ≠ '/')).drop 1) ≠ [] := List.splitOn_ne_nil _ _
    have hlen := List.length_pos_of_ne_nil hne
    rw [split_of_slash h, List.length_cons, List.contains_iff_mem.mpr h]
    exact decide_eq_true (by omega)
  · have hno : ref.contains '/' = false := by simpa using h
    rw [split_of_not_slash h, hno]
    rfl

theorem join_drop_split (h : '/' ∈ ref) :
    Text.join '/' ((Text.split '/' ref).drop 1) = (ref.dropWhile (· ≠ '/')).drop 1 := by
  rw [split_of_slash h]
  exact List.intercalate_splitOn '/'

end

namespace Written
variable (w : Written)

theorem hub_iff : w.hub = true ↔ w.registry = dockerRegistry := by
  rw [hub, registry]
  cases w.host with
  | none => exact iff_of_true rfl rfl
  | some h =>
    by_cases hd : h = "docker.io".toList
    · simp only [hd, decide_true, Bool.true_or, if_true]
    · simp only [hd, decide_false, Bool.false_or, if_false, decide_eq_true_eq]

theorem fullDirs_closed : w.fullDirs = [] ∨ ∃ d, w.fullDirs = d ++ ['/'] := by
  rw [fullDirs]
  split
  · exact Or.inr ⟨"library".toList, rfl⟩
  · exact w.dirs_closed

theorem slash_mem_path : '/' ∈ w.dirs ++ w.base ↔ w.dirs ≠ [] := by
  rw [List.mem_append, or_iff_left w.base_slash]
  rcases w.dirs_closed with h | ⟨d, h⟩ <;> simp [h]

theorem lastIndex_closed {dirs base : Text} (hdirs : dirs = [] ∨ ∃ d, dirs = d ++ ['/']) (hbase : '/' ∉ base) :
    Text.lastIndex '/' (dirs ++ base) = dirs.length := by
  rw [Text.lastIndex_append_of_not_mem hbase]
  rcases hdirs with rfl | ⟨d, rfl⟩
  · rfl
  · rw [Text.lastIndex_append_cons List.not_mem_nil, List.length_append]
    rfl

/-- A colon comes after the last slash exactly when it is in the last component. --/
theorem slash_lt_colon :
    Text.lastIndex ':' (w.fullDirs ++ w.base) > Text.lastIndex '/' (w.fullDirs ++ w.base) ↔ ':' ∈ w.base := by
  rw [lastIndex_closed w.fullDirs_closed w.base_slash]
  by_cases h : ':' ∈ w.base
  · have hpos := Text.lastIndex_pos h
    rw [Text.lastIndex_append_of_mem h]
    exact iff_of_true (by omega) h
  · have hle := Text.lastIndex_le ':' w.fullDirs
    rw [Text.lastIndex_append_of_not_mem h]
    exact iff_of_false (by omega) h

theorem name_slash : '/' ∉ w.name := by
  rw [name]
  split
  · exact fun h => w.base_slash (List.mem_of_mem_take h)
  · exact w.base_slash

theorem library_prefix_iff : libraryDir <+: w.fullDirs ++ w.name ↔ libraryDir <+: w.fullDirs := by
  refine ⟨fun h => ?_, fun h => h.trans (List.prefix_append _ _)⟩
  rcases List.prefix_or_prefix_of_prefix h (List.prefix_append w.fullDirs w.name) with hdirs | ⟨v, hv⟩
  · exact hdirs
  · -- the slash at the end of `library/` is not in the last component
    rw [← hv, List.prefix_append_right_inj] at h
    rcases List.eq_nil_or_concat' v with rfl | ⟨u, c, rfl⟩
    · exact (List.append_nil _).symm.trans hv ▸ List.prefix_rfl
    · have hlast := congrArg List.getLast? hv
      rw [← List.append_assoc, List.getLast?_concat] at hlast
      obtain rfl : c = '/' := Option.some.inj hlast
      exact absurd (h.mem (List.mem_append_right u List.mem_cons_self)) w.name_slash

theorem registry_ne : w.registry ≠ "docker.io".toList := by
  rw [registry]
  cases w.host with
  | none => decide
  | some h =>
    dsimp only
    split
    · decide
    · assumption

theorem shownHost_docker : w.shownHost = "docker.io".toList ↔ w.hub = true := by
  rw [shownHost]
  split
  · rename_i h
    exact iff_of_true rfl h
  · rename_i h
    exact iff_of_false w.registry_ne h

theorem dirs_append_base (input : Text) : (written input).dirs ++ (written input).base = pathText (refText input) :=
  List.take_append_drop _ _

theorem tag_eq (h : w.tagged) : (w.fullDirs ++ w.base).drop (Text.lastIndex ':' (w.fullDirs ++ w.base)) = w.tag := by
  rw [Text.lastIndex_append_of_mem h.2, List.drop_length_add_append, tag, if_pos h]

theorem name_eq (h : w.tagged) :
    (w.fullDirs ++ w.base).take (Text.lastIndex ':' (w.fullDirs ++ w.base) - 1) = w.fullDirs ++ w.name := by
  have hpos := Text.lastIndex_pos h.2
  rw [Text.lastIndex_append_of_mem h.2, Nat.add_sub_assoc hpos, List.take_length_add_append, name, if_pos h]

theorem shownDirs_eq :
    (if w.hub = true ∧ libraryDir <+: w.fullDirs ++ w.name then (w.fullDirs ++ w.name).drop libraryDir.length
      else w.fullDirs ++ w.name) = w.shownDirs ++ w.name := by
  simp only [shownDirs, library_prefix_iff]
  split
  · rename_i h
    exact List.drop_append_of_le_length h.2.length_le
  · rfl

end Written

/-- The repository before its tag is taken off. --/
theorem repository_eq (w : Written) :
    (if w.registry = dockerRegistry && !(w.dirs ++ w.base).contains '/' then libraryDir ++ (w.dirs ++ w.base)
      else w.dirs ++ w.base) = w.fullDirs ++ w.base := by
  have hslash : (w.dirs ++ w.base).contains '/' = true ↔ w.dirs ≠ [] := List.contains_iff_mem.trans w.slash_mem_path
  have hboth : (decide (w.registry = dockerRegistry) && !(w.dirs ++ w.base).contains '/') = true ↔
      w.hub = true ∧ w.dirs = [] := by
    rw [Bool.and_eq_true_iff, decide_eq_true_iff, Bool.not_eq_true', ← Bool.not_eq_true, hslash, not_ne_iff, w.hub_iff]
  rw [Written.fullDirs]
  by_cases h : w.hub = true ∧ w.dirs = []
  · rw [if_pos h, if_pos (hboth.mpr h), h.2, List.nil_append]
  · rw [if_neg h, if_neg (mt hboth.mp h)]

theorem registry_eq (input : Text) :
    (if (if (refText input).contains '/' && hostLike ((refText input).takeWhile (· ≠ '/')) then
          (refText input).takeWhile (· ≠ '/')
        else dockerRegistry) = "docker.io".toList then dockerRegistry
      else if (refText input).contains '/' && hostLike ((refText input).takeWhile (· ≠ '/')) then
        (refText input).takeWhile (· ≠ '/')
      else dockerRegistry) = (written input).registry := by
  rw [Written.registry]
  cases h : (refText input).contains '/' && hostLike ((refText input).takeWhile (· ≠ '/')) with
  | true =>
    have hhost : (written input).host = some ((refText input).takeWhile (· ≠ '/')) := if_pos h
    rw [hhost]
    rfl
  | false =>
    have hhost : (written input).host = none := if_neg (by rw [h]; exact Bool.false_ne_true)
    rw [hhost]
    rfl

/-- The code takes a reference apart into what is written. --/
theorem parse_eq {input : Text} (h : Text.trim input ≠ []) : parseImageReference input = .ok (written input).parsed := by
  rw [parseImageReference]
  extract_lets digest ref parts first hasRegistry registry₀ repository₀ registry repository₁ slash colon tagged tag
    repository canonicalRegistry canonicalRepo
  have hfirst : first = (refText input).takeWhile (· ≠ '/') := headD_split _
  have hlike : hasRegistry = ((refText input).contains '/' && hostLike ((refText input).takeWhile (· ≠ '/'))) := by
    have hunfold : hasRegistry = (decide (parts.length > 1) && hostLike first) := rfl
    rw [hunfold, hfirst, one_lt_length_split]
    rfl
  have hregistry : registry = (written input).registry := by
    rw [← registry_eq, ← hlike, ← hfirst]
  have hpath : repository₀ = (written input).dirs ++ (written input).base := by
    rw [Written.dirs_append_base, pathText, ← hlike]
    split
    · rename_i hhost
      have hslash : '/' ∈ refText input := by
        rw [hlike] at hhost
        exact List.contains_iff_mem.mp (Bool.and_eq_true_iff.mp hhost).1
      exact (if_pos hhost).trans (join_drop_split hslash)
    · rename_i hhost
      exact if_neg hhost
  have hfull : repository₁ = (written input).fullDirs ++ (written input).base := by
    rw [← repository_eq, ← hpath, ← hregistry]
    rfl
  have htagged : tagged = true ↔ (written input).tagged := by
    have hunfold : tagged =
        (decide (digest = []) && decide (Text.lastIndex ':' repository₁ > Text.lastIndex '/' repository₁)) := rfl
    rw [hunfold, hfull, Bool.and_eq_true_iff, decide_eq_true_iff, decide_eq_true_iff, Written.slash_lt_colon]
    rfl
  have htag : tag = (written input).tag := by
    by_cases ht : (written input).tagged
    · rw [← Written.tag_eq _ ht, ← hfull]
      exact if_pos (htagged.mpr ht)
    · rw [Written.tag, if_neg ht]
      exact if_neg (mt htagged.mp ht)
  have hrepository : repository = (written input).fullDirs ++ (written input).name := by
    by_cases ht : (written input).tagged
    · rw [← Written.name_eq _ ht, ← hfull]
      exact if_pos (htagged.mpr ht)
    · rw [Written.name, if_neg ht, ← hfull]
      exact if_neg (mt htagged.mp ht)
  have hhost : canonicalRegistry = (written input).shownHost := by
    have hunfold : canonicalRegistry = if registry = dockerRegistry then "docker.io".toList else registry := rfl
    rw [hunfold, hregistry, Written.shownHost]
    simp only [Written.hub_iff]
  have hdirs : canonicalRepo = (written input).shownDirs ++ (written input).name := by
    have hunfold : canonicalRepo =
        if (decide (canonicalRegistry = "docker.io".toList) && Text.startsWith repository libraryDir) = true then
          repository.drop libraryDir.length
        else repository := rfl
    rw [hunfold, hhost, hrepository, ← Written.shownDirs_eq]
    simp only [Bool.and_eq_true_iff, decide_eq_true_iff, Written.shownHost_docker, Text.startsWith, List.isPrefixOf_iff_prefix]
  rw [if_neg h, hregistry, htag, hrepository, hhost, hdirs]
  refine congrArg Except.ok ?_
  rw [Written.parsed, ImageReference.mk.injEq]
  refine ⟨rfl, rfl, rfl, ?_⟩
  have hending : (if digest = [] then ":".toList ++ (written input).tag else "@".toList ++ digest) =
      (written input).ending := rfl
  rw [hending, List.append_assoc, List.append_assoc]
  rfl

end NodeVmm.Oci
