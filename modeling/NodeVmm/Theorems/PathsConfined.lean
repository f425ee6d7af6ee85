import NodeVmm.DockerfilePaths
import NodeVmm.LayerFiles

/-! The host paths of layer entries and of the paths in a Dockerfile are those of the root or of something below it. Every
    check is made on the resolved path, which has only names in it. -/

namespace NodeVmm
open PosixPath
variable {cwd root dir path s rel : Text}

/-- A path that passes the check is within. --/
theorem within_of_resolved {segments : List Text}
    (h : ¬(resolve cwd segments ≠ resolve cwd [dir] ∧
      Text.startsWith (resolve cwd segments) (resolve cwd [dir] ++ ['/']) = false)) : Within cwd dir (resolve cwd segments) := by
  refine within_of_check (resolveNames_names cwd segments) (resolve_eq cwd segments) ?_
  rw [not_and_or, not_not, Bool.not_eq_false] at h
  exact h

theorem within_resolveInside (h : Oci.resolveInside cwd root rel = .ok path) : Within cwd root path := by
  rw [Oci.resolveInside] at h
  split at h
  · cases h
  · rename_i hcheck
    cases h
    exact within_of_resolved hcheck

theorem within_hostPathInside (h : Dockerfile.hostPathInside cwd root s = .ok path) : Within cwd root path := by
  rw [Dockerfile.hostPathInside] at h
  split at h
  · cases h
  · rename_i hcheck
    cases h
    exact within_of_resolved hcheck

/-! ### What is left of a layer entry -/

/-- The names of a text under the root directory. --/
theorem normalize_rooted (s : Text) : ∃ tail, (tail = [] ∨ tail = ['/']) ∧
    normalize ('/' :: s) = if normalizeString false ('/' :: s) = [] then ['/'] else ofNames (normalizeString false ('/' :: s)) ++ tail := by
  have hbody : Text.join '/' (normalizeString false ('/' :: s)) = [] ↔ normalizeString false ('/' :: s) = [] := by
    constructor
    · intro hjoin
      by_contra hne
      obtain ⟨c, rest, hcons⟩ := List.exists_cons_of_ne_nil hne
      have hname := normalizeString_names ('/' :: s) c (by rw [hcons]; exact List.mem_cons_self)
      rw [hcons] at hjoin
      exact join_ne_nil hname.1 hjoin
    · intro hnil
      rw [hnil]
      rfl
  refine ⟨if ('/' :: s).getLast? = some '/' then ['/'] else [], by split <;> simp, ?_⟩
  have habs : isAbsolute ('/' :: s) = true := rfl
  unfold PosixPath.normalize
  simp only [List.cons_ne_nil, if_false, habs, Bool.not_true, if_true, hbody, decide_eq_true_eq]
  split
  · rfl
  · rw [List.singleton_append, List.cons_append]
    rfl

theorem dropWhile_ofNames {p : List Text} (hp : ∀ c ∈ p, IsName c) (hne : p ≠ []) (tail : Text) :
    (ofNames p ++ tail).dropWhile (· = '/') = Text.join '/' p ++ tail := by
  obtain ⟨c, rest, rfl⟩ := List.exists_cons_of_ne_nil hne
  obtain ⟨hcne, -, -, hslash⟩ := hp c List.mem_cons_self
  obtain ⟨x, c', rfl⟩ := List.exists_cons_of_ne_nil hcne
  have hx : x ≠ '/' := fun h => hslash (h ▸ List.mem_cons_self)
  have hjoin : ∃ t, Text.join '/' ((x :: c') :: rest) = x :: t := by
    cases rest with
    | nil => exact ⟨c', by simp [Text.join]⟩
    | cons d rest => exact ⟨_, Text.join_cons_cons⟩
  obtain ⟨t, ht⟩ := hjoin
  rw [ofNames, ht]
  simp [hx]

theorem split_join_tail {p : List Text} {tail : Text} (hp : ∀ c ∈ p, IsName c) (hne : p ≠ []) (htail : tail = [] ∨ tail = ['/']) :
    ∃ more, Text.split '/' (Text.join '/' p ++ tail) = p ++ more := by
  rcases htail with rfl | rfl
  · exact ⟨[], by rw [List.append_nil, List.append_nil, split_join hp hne]⟩
  · exact ⟨_, by rw [split_append_slash, split_join hp hne]⟩

/-- A layer entry is clamped to names under the root, or skipped when there are none. --/
theorem cleanLayerEntry_eq (name : Text) : ∃ tail, (tail = [] ∨ tail = ['/']) ∧
    Oci.cleanLayerEntry name = .ok (if normalizeString false ('/' :: Text.trim name) = [] then none
      else some (Text.join '/' (normalizeString false ('/' :: Text.trim name)) ++ tail)) := by
  obtain ⟨tail, htail, hnormalize⟩ := normalize_rooted (Text.trim name)
  have hnames := normalizeString_names ('/' :: Text.trim name)
  refine ⟨tail, htail, ?_⟩
  rw [Oci.cleanLayerEntry, hnormalize]
  split
  · rfl
  · rename_i hne
    obtain ⟨more, hsplit⟩ := split_join_tail hnames hne htail
    obtain ⟨c, rest, hcons⟩ := List.exists_cons_of_ne_nil hne
    obtain ⟨hcne, hdot, hdd, -⟩ := hnames c (by rw [hcons]; exact List.mem_cons_self)
    rw [dropWhile_ofNames hnames hne]
    generalize Text.join '/' (normalizeString false ('/' :: Text.trim name)) ++ tail = cleaned at hsplit
    -- the first component of what is left is a name
    have hhead : (Text.split '/' cleaned).head? = some c := by rw [hsplit, hcons]; rfl
    have hsome : ¬(cleaned = [] ∨ cleaned = dot) := by
      rintro (rfl | rfl)
      · exact hcne (Option.some.inj hhead).symm
      · exact hdot (Option.some.inj hhead).symm
    have hinside : ¬(Text.startsWith cleaned "../".toList || cleaned == dotdot) = true := by
      intro hup
      rcases Bool.or_eq_true_iff.mp hup with hup | hup
      · obtain ⟨u, rfl⟩ := List.isPrefixOf_iff_prefix.mp hup
        have hsplit' : Text.split '/' ("../".toList ++ u) = [dotdot] ++ Text.split '/' u := split_append_slash dotdot u
        rw [hsplit'] at hhead
        exact hdd (Option.some.inj hhead).symm
      · rw [eq_of_beq hup] at hhead
        exact hdd (Option.some.inj hhead).symm
    simp only [if_neg hsome, if_neg hinside]

/-! ### What is left of a path in a container -/

/-- A path in a container is clamped to names under its root. --/
theorem normalizeContainerPath_eq (s : Text) : Dockerfile.normalizeContainerPath s = ofNames (normalizeString false ('/' :: s)) := by
  obtain ⟨tail, htail, hnormalize⟩ := normalize_rooted s
  have hnames := normalizeString_names ('/' :: s)
  rw [Dockerfile.normalizeContainerPath, hnormalize]
  split_ifs with hnil hroot hroot
  · rw [hnil]
    rfl
  · exact absurd rfl hroot
  · obtain ⟨c, rest, hcons⟩ := List.exists_cons_of_ne_nil hnil
    have hc := (hnames c (by rw [hcons]; exact List.mem_cons_self)).1
    injection hroot with _ hbody
    rw [hcons] at hbody
    exact absurd (List.append_eq_nil_iff.mp hbody).1 (join_ne_nil hc)
  · exact stripEnd_ofNames hnames hnil htail

/-- What the check of the path of some names under the root refuses. --/
theorem check_iff {p names : List Text} (hp : ∀ c ∈ p, IsName c) (hn : ∀ c ∈ names, IsName c) :
    (ofNames (p ++ names) ≠ ofNames p ∧ Text.startsWith (ofNames (p ++ names)) (ofNames p ++ ['/']) = false) ↔
      p = [] ∧ names ≠ [] := by
  have happend := List.forall_mem_append.mpr ⟨hp, hn⟩
  constructor
  · rintro ⟨hne, hcheck⟩
    have hnames : names ≠ [] := by
      rintro rfl
      exact hne (by rw [List.append_nil])
    refine ⟨?_, hnames⟩
    by_contra hpne
    obtain ⟨d, rest, rfl⟩ := List.exists_cons_of_ne_nil hnames
    have hprefix : ofNames p ++ ['/'] <+: ofNames (p ++ d :: rest) := by
      have hlong : ofNames (p ++ d :: rest) = (p ++ d :: rest).flatMap ('/' :: ·) := ofNames_eq_flatMap (by simp)
      rw [hlong, List.flatMap_append, ← ofNames_eq_flatMap hpne, List.flatMap_cons]
      exact ⟨d ++ rest.flatMap ('/' :: ·), by simp⟩
    rw [Text.startsWith, List.isPrefixOf_iff_prefix.mpr hprefix] at hcheck
    cases hcheck
  · rintro ⟨rfl, hnames⟩
    rw [List.nil_append] at happend ⊢
    have hnil : ofNames names ≠ ofNames [] := fun h => hnames (ofNames_inj hn nofun h)
    refine ⟨hnil, ?_⟩
    rw [← Bool.not_eq_true]
    intro hprefix
    have hslashes : ofNames [] ++ ['/'] <+: ofNames names := List.isPrefixOf_iff_prefix.mp hprefix
    obtain ⟨c, rest, rfl⟩ := List.exists_cons_of_ne_nil hnames
    obtain ⟨hcne, -, -, hslash⟩ := hn c List.mem_cons_self
    obtain ⟨x, c', rfl⟩ := List.exists_cons_of_ne_nil hcne
    rw [ofNames_eq_flatMap (List.cons_ne_nil _ _), List.flatMap_cons] at hslashes
    obtain ⟨t, ht⟩ := hslashes
    injection ht with _ ht
    injection ht with hx _
    exact hslash (hx ▸ List.mem_cons_self)

/-! ### The host path of names under the root -/

/-- A path in a container, on the host: the directory `/` holds no other path than itself. --/
theorem hostPathInside_eq (cwd root s : Text) : Dockerfile.hostPathInside cwd root s =
    if resolveNames cwd [root] = [] ∧ normalizeString false ('/' :: s) ≠ [] then
      .error ("Dockerfile path escapes rootfs: " ++ Text.str s)
    else .ok (ofNames (resolveNames cwd [root] ++ normalizeString false ('/' :: s))) := by
  have hnames := normalizeString_names ('/' :: s)
  have hroot := resolveNames_names cwd [root]
  have hresolved : resolve cwd [root, (ofNames (normalizeString false ('/' :: s))).dropWhile (· = '/')] =
      ofNames (resolveNames cwd [root] ++ normalizeString false ('/' :: s)) := by
    by_cases hnil : normalizeString false ('/' :: s) = []
    · rw [hnil, List.append_nil, resolve_eq]
      have hstay : resolveNames cwd [root, []] = resolveNames cwd [root] := by
        rw [resolveNames_snoc rfl]
        exact List.reverse_reverse _
      exact congrArg ofNames hstay
    · have hdrop := dropWhile_ofNames hnames hnil []
      rw [List.append_nil] at hdrop
      rw [hdrop, resolve_eq, resolveNames_join hnames hnil (Or.inl rfl)]
  rw [Dockerfile.hostPathInside, normalizeContainerPath_eq, hresolved, resolve_eq]
  simp only [check_iff hroot hnames]

/-- An entry of a layer, on the host. --/
theorem resolveInside_cleaned (cwd root : Text) {name : Text} (h : Oci.cleanLayerEntry name = .ok (some rel)) :
    normalizeString false ('/' :: Text.trim name) ≠ [] ∧
      Oci.resolveInside cwd root rel = if resolveNames cwd [root] = [] then .error ("layer entry escapes rootfs: " ++ Text.str rel)
        else .ok (ofNames (resolveNames cwd [root] ++ normalizeString false ('/' :: Text.trim name))) := by
  obtain ⟨tail, htail, hcleaned⟩ := cleanLayerEntry_eq name
  have hnames := normalizeString_names ('/' :: Text.trim name)
  have hroot := resolveNames_names cwd [root]
  rw [hcleaned] at h
  split at h
  · cases h
  · rename_i hne
    cases h
    refine ⟨hne, ?_⟩
    rw [Oci.resolveInside, resolve_eq, resolve_eq, resolveNames_join hnames hne htail]
    simp only [check_iff hroot hnames, hne, ne_eq, not_false_eq_true, and_true]

/-! ### The symlinks of a layer -/

theorem normalizeString_normalize (s : Text) : normalizeString false (normalize ('/' :: s)) = normalizeString false ('/' :: s) := by
  obtain ⟨tail, htail, hnormalize⟩ := normalize_rooted s
  have hnames := normalizeString_names ('/' :: s)
  rw [hnormalize]
  split
  · rename_i hnil
    rw [hnil]
    rfl
  · rename_i hnil
    have hsplit : Text.split '/' (ofNames (normalizeString false ('/' :: s)) ++ tail) =
        [] :: Text.split '/' (Text.join '/' (normalizeString false ('/' :: s)) ++ tail) :=
      split_append_slash [] (Text.join '/' (normalizeString false ('/' :: s)) ++ tail)
    have hslash : ∀ d ∈ normalizeString false ('/' :: s), '/' ∉ d := fun d hd => (hnames d hd).2.2.2
    have hpush : (Text.split '/' (Text.join '/' (normalizeString false ('/' :: s)) ++ tail)).foldl (pushComponent false) [] = _ :=
      foldl_push_join hslash hnil htail
    rw [normalizeString, hsplit, List.foldl_cons, push_nil, hpush, foldl_push_of_names hnames, List.append_nil,
      List.reverse_reverse]

theorem normalizeString_absolute (s : Text) :
    normalizeString false (Oci.normalizeAbsoluteContainerPath ('/' :: s)) = normalizeString false ('/' :: s) := by
  have habs : isAbsolute (normalize ('/' :: s)) = true := by
    obtain ⟨tail, -, hnormalize⟩ := normalize_rooted s
    rw [hnormalize]
    split <;> rfl
  rw [Oci.normalizeAbsoluteContainerPath]
  simp only [habs, if_true, normalizeString_normalize]

theorem relativeTarget_eq (rel link : Text) : Oci.relativeTarget rel link =
    if relative (dirname ('/' :: rel)) (Oci.normalizeAbsoluteContainerPath link) = [] then dot
    else relative (dirname ('/' :: rel)) (Oci.normalizeAbsoluteContainerPath link) := by
  rw [Oci.relativeTarget]

/-- The repaired link of an entry, followed from the entry on the host, stays under the root. --/
theorem resolve_relativeTarget {name link : Text} (h : Oci.cleanLayerEntry name = .ok (some rel)) (hlink : isAbsolute link = true)
    (hpath : Oci.resolveInside cwd root rel = .ok path) :
    resolve cwd [dirname path, Oci.relativeTarget rel link] =
      ofNames (resolveNames cwd [root] ++ normalizeString false link) := by
  obtain ⟨hne, hresolved⟩ := resolveInside_cleaned cwd root h
  obtain ⟨tail, htail, hcleaned⟩ := cleanLayerEntry_eq name
  have hnames := normalizeString_names ('/' :: Text.trim name)
  have hroot := resolveNames_names cwd [root]
  rw [hcleaned, if_neg hne] at h
  cases h
  rw [hresolved] at hpath
  split at hpath
  · cases hpath
  · cases hpath
    obtain ⟨init, c, hsnoc⟩ := (List.eq_nil_or_concat' _).resolve_left hne
    rw [hsnoc] at hnames ⊢
    have hall : ∀ d ∈ (resolveNames cwd [root] ++ init) ++ [c], IsName d := by
      rw [List.append_assoc]
      exact List.forall_mem_append.mpr ⟨hroot, hnames⟩
    -- the directory of the entry, on the host and in the container
    have hhost : normalizeString false (dirname (ofNames (resolveNames cwd [root] ++ (init ++ [c])) ++ [])) =
        resolveNames cwd [root] ++ init := by
      rw [← List.append_assoc]
      exact normalizeString_dirname hall (Or.inl rfl)
    have hparent : normalizeString false (dirname ('/' :: (Text.join '/' (init ++ [c]) ++ tail))) = init :=
      normalizeString_dirname hnames htail
    rw [List.append_nil] at hhost
    have hfrom : resolveNames cwd [dirname (ofNames (resolveNames cwd [root] ++ (init ++ [c])))] =
        resolveNames cwd [root] ++ normalizeString false (dirname ('/' :: (Text.join '/' (init ++ [c]) ++ tail))) := by
      rw [resolveNames_absolute (isAbsolute_dirname isAbsolute_ofNames), hhost, hparent]
    obtain ⟨s, rfl⟩ : ∃ s, link = '/' :: s := by
      cases link with
      | nil => cases hlink
      | cons x s => exact ⟨s, by simpa [isAbsolute] using hlink⟩
    have htarget := resolveNames_relative hfrom (relativeTarget_eq (Text.join '/' (init ++ [c]) ++ tail) ('/' :: s))
    rw [resolve_eq, htarget, normalizeString_absolute]

/-- Layer entries, their links and the paths of a Dockerfile are confined to the root: a path that is not within it is refused,
    and an entry or a path in the container is first clamped to names. --/
theorem paths_confined (cwd root : Text) :
    (∀ rel path, Oci.resolveInside cwd root rel = .ok path → Within cwd root path) ∧
    (∀ name, (Oci.cleanLayerEntry name = .ok none ∧ normalizeString false ('/' :: Text.trim name) = []) ∨
      ∃ rel, Oci.cleanLayerEntry name = .ok (some rel) ∧
        Oci.resolveInside cwd root rel = if resolveNames cwd [root] = [] then .error ("layer entry escapes rootfs: " ++ Text.str rel)
          else .ok (ofNames (resolveNames cwd [root] ++ normalizeString false ('/' :: Text.trim name)))) ∧
    (∀ name rel link path, Oci.cleanLayerEntry name = .ok (some rel) → isAbsolute link = true →
      Oci.resolveInside cwd root rel = .ok path → Within cwd root (resolve cwd [dirname path, Oci.relativeTarget rel link])) ∧
    (∀ s path, Dockerfile.hostPathInside cwd root s = .ok path → Within cwd root path) ∧
    (∀ s, Dockerfile.hostPathInside cwd root s =
      if resolveNames cwd [root] = [] ∧ normalizeString false ('/' :: s) ≠ [] then
        .error ("Dockerfile path escapes rootfs: " ++ Text.str s)
      else .ok (ofNames (resolveNames cwd [root] ++ normalizeString false ('/' :: s)))) := by
  refine ⟨fun rel path h => within_resolveInside h, ?_, ?_, fun s path h => within_hostPathInside h, hostPathInside_eq cwd root⟩
  · intro name
    obtain ⟨tail, -, hcleaned⟩ := cleanLayerEntry_eq name
    by_cases hnil : normalizeString false ('/' :: Text.trim name) = []
    · rw [if_pos hnil] at hcleaned
      exact Or.inl ⟨hcleaned, hnil⟩
    · rw [if_neg hnil] at hcleaned
      exact Or.inr ⟨_, hcleaned, (resolveInside_cleaned cwd root hcleaned).2⟩
  · intro name rel link path hrel hlink hpath
    exact ⟨_, normalizeString_names link, resolve_relativeTarget hrel hlink hpath⟩

theorem paths_confined_dotdots :
    Within "/w".toList "root".toList "/w/root/a/b".toList ∧
    Within "/w".toList "root".toList
      (resolve "/w".toList [dirname "/w/root/a/b".toList, Oci.relativeTarget "a/b/".toList "/../../etc".toList]) ∧
    Within "/w".toList "root".toList "/w/root/x".toList := by
  obtain ⟨hlayer, -, hlink, hbuild, -⟩ := paths_confined "/w".toList "root".toList
  have hentry : Oci.cleanLayerEntry " ../../a/./b/".toList = .ok (some "a/b/".toList) := by decide
  have hpath : Oci.resolveInside "/w".toList "root".toList "a/b/".toList = .ok "/w/root/a/b".toList := by decide
  have hcopy : Dockerfile.hostPathInside "/w".toList "root".toList "/../..//x/".toList = .ok "/w/root/x".toList := by decide
  exact ⟨hlayer _ _ hpath, hlink _ _ _ _ hentry (by decide) hpath, hbuild _ _ hcopy⟩

end NodeVmm
