import NodeVmm.Theorems.PathsConfined

/-! COPY and ADD take files of the build context only when the directory of a pattern is checked: a source without `*` is, a
    pattern is not. -/

namespace NodeVmm.Dockerfile
open PosixPath
variable {readdir : Listing} {cwd contextDir source path : Text}

/-- The host paths that a source names: the entries that a pattern matches in its directory, or the one path. --/
def Named (readdir : Listing) (cwd contextDir source path : Text) : Prop :=
  if (normalizedSource source).contains '*' = true then
    ∃ names, readdir (resolve cwd [contextDir, globDir (normalizedSource source)]) = .ok names ∧
      ∃ name ∈ names, globMatches (globPattern (normalizedSource source)) name.val = true ∧
        path = join (resolve cwd [contextDir, globDir (normalizedSource source)]) name.val
  else path = resolve cwd [contextDir, normalizedSource source]

/-- What is returned is in the context, and a source that names something outside is refused. --/
def Confined (readdir : Listing) (cwd contextDir source : Text) : Prop :=
  (∀ paths, expandContextSources readdir cwd contextDir source = .ok paths → ∀ path ∈ paths, Within cwd contextDir path) ∧
  ((∃ path, Named readdir cwd contextDir source path ∧ ¬Within cwd contextDir path) →
    ∃ e, expandContextSources readdir cwd contextDir source = .error e)

/-- The directory of a pattern is in the context, or all that is matched in it is the context itself. --/
def GlobInside (readdir : Listing) (cwd contextDir source : Text) : Prop :=
  (normalizedSource source).contains '*' = true →
    Within cwd contextDir (resolve cwd [contextDir, globDir (normalizedSource source)]) ∨
    ∀ names, readdir (resolve cwd [contextDir, globDir (normalizedSource source)]) = .ok names → ∀ name ∈ names,
      globMatches (globPattern (normalizedSource source)) name.val = true →
      join (resolve cwd [contextDir, globDir (normalizedSource source)]) name.val = resolve cwd [contextDir]

/-- An entry of a directory is in the context with the directory, or when it is the context. --/
theorem within_join {dir c : Text} {segments : List Text} (hc : IsName c) :
    Within cwd dir (join (resolve cwd segments) c) ↔
      Within cwd dir (resolve cwd segments) ∨ join (resolve cwd segments) c = resolve cwd [dir] := by
  have hnames := resolveNames_names cwd segments
  have hall : ∀ d ∈ resolveNames cwd segments ++ [c], IsName d :=
    List.forall_mem_append.mpr ⟨hnames, List.forall_mem_singleton.mpr hc⟩
  rw [resolve_eq, resolve_eq, join_ofNames_name hnames hc, within_ofNames hall, within_ofNames hnames, List.prefix_concat_iff,
    or_comm]
  refine or_congr_right ⟨fun h => congrArg ofNames h.symm, fun h => ?_⟩
  exact (ofNames_inj hall (resolveNames_names cwd [dir]) h).symm

theorem expand_literal (h : (normalizedSource source).contains '*' = false) :
    expandContextSources readdir cwd contextDir source =
      if resolve cwd [contextDir, normalizedSource source] ≠ resolve cwd [contextDir] ∧
          Text.startsWith (resolve cwd [contextDir, normalizedSource source]) (resolve cwd [contextDir] ++ ['/']) = false then
        .error ("Dockerfile source escapes context: " ++ Text.str source)
      else .ok [resolve cwd [contextDir, normalizedSource source]] := by
  rw [expandContextSources]
  simp only [h, Bool.false_eq_true, if_false]

/-- A pattern returns what it names. --/
theorem expand_glob (h : (normalizedSource source).contains '*' = true) {paths : List Text}
    (hok : expandContextSources readdir cwd contextDir source = .ok paths) :
    path ∈ paths ↔ Named readdir cwd contextDir source path := by
  rw [expandContextSources] at hok
  simp only [h, if_true] at hok
  rw [Named, if_pos h]
  cases hdir : readdir (resolve cwd [contextDir, globDir (normalizedSource source)]) with
  | error e =>
    rw [hdir] at hok
    cases hok
  | ok names =>
    rw [hdir] at hok
    cases hok
    simp only [List.mem_map, List.mem_filter, Except.ok.injEq, exists_eq_left', and_assoc, eq_comm (a := path)]

theorem expand_glob_ok (h : (normalizedSource source).contains '*' = true) {names : List { c : Text // IsName c }}
    (hdir : readdir (resolve cwd [contextDir, globDir (normalizedSource source)]) = .ok names) :
    ∃ paths, expandContextSources readdir cwd contextDir source = .ok paths := by
  rw [expandContextSources]
  simp only [h, if_true, hdir]
  exact ⟨_, rfl⟩

/-- A source without `*` is checked. --/
theorem confined_literal (h : (normalizedSource source).contains '*' = false) : Confined readdir cwd contextDir source := by
  have hnamed : ∀ path, Named readdir cwd contextDir source path ↔ path = resolve cwd [contextDir, normalizedSource source] := by
    intro path
    rw [Named, if_neg (by rw [h]; exact Bool.false_ne_true)]
  rw [Confined, expand_literal h]
  constructor
  · intro paths hok path hpath
    split at hok
    · cases hok
    · rename_i hcheck
      cases hok
      rw [List.mem_singleton.mp hpath]
      exact within_of_resolved hcheck
  · rintro ⟨path, hpath, hout⟩
    rw [(hnamed path).mp hpath] at hout
    rw [if_pos (not_not.mp fun hcheck => hout (within_of_resolved hcheck))]
    exact ⟨_, rfl⟩

/-- Every source of COPY and ADD is confined to the context exactly when the directory of its pattern is inside, for the pattern
    is not checked. --/
theorem context_sources_confined_iff (readdir : Listing) (cwd contextDir source : Text) :
    Confined readdir cwd contextDir source ↔ GlobInside readdir cwd contextDir source := by
  cases hglob : (normalizedSource source).contains '*' with
  | false =>
    refine iff_of_true (confined_literal hglob) fun h => ?_
    rw [hglob] at h
    cases h
  | true =>
    have hnamed : ∀ path, Named readdir cwd contextDir source path ↔
        ∃ names, readdir (resolve cwd [contextDir, globDir (normalizedSource source)]) = .ok names ∧
          ∃ name ∈ names, globMatches (globPattern (normalizedSource source)) name.val = true ∧
            path = join (resolve cwd [contextDir, globDir (normalizedSource source)]) name.val := by
      intro path
      rw [Named, if_pos hglob]
    constructor
    · rintro ⟨hwithin, -⟩ -
      by_cases hdir : Within cwd contextDir (resolve cwd [contextDir, globDir (normalizedSource source)])
      · exact Or.inl hdir
      · refine Or.inr fun names hnames name hname hmatch => ?_
        obtain ⟨paths, hok⟩ := expand_glob_ok hglob hnames
        have hpath := (expand_glob hglob hok).mpr ((hnamed _).mpr ⟨names, hnames, name, hname, hmatch, rfl⟩)
        exact ((within_join name.property).mp (hwithin paths hok _ hpath)).resolve_left hdir
    · intro hinside
      have hall : ∀ path, Named readdir cwd contextDir source path → Within cwd contextDir path := by
        intro path hpath
        obtain ⟨names, hnames, name, hname, hmatch, rfl⟩ := (hnamed path).mp hpath
        refine (within_join name.property).mpr ?_
        exact (hinside hglob).imp_right fun hcontext => hcontext names hnames name hname hmatch
      refine ⟨fun paths hok path hpath => hall path ((expand_glob hglob hok).mp hpath), ?_⟩
      rintro ⟨path, hpath, hout⟩
      exact absurd (hall path hpath) hout

/-- `COPY ../*` takes what is beside the context. --/
theorem copy_dotdot_glob : ¬∀ (readdir : Listing) (cwd contextDir source : Text), Confined readdir cwd contextDir source := by
  intro h
  obtain ⟨hwithin, -⟩ := h (fun _ => .ok [⟨"key".toList, by decide⟩]) "/w".toList "ctx".toList "../*".toList
  obtain ⟨names, hnames, hpath⟩ := hwithin ["/w/key".toList] (by decide) _ List.mem_cons_self
  have hall : ∀ d ∈ ["w".toList, "key".toList], IsName d := by decide
  have hprefix : ["w".toList, "ctx".toList] <+: ["w".toList, "key".toList] :=
    (within_ofNames hall).mp ⟨names, hnames, hpath⟩
  exact absurd hprefix (by decide)

end NodeVmm.Dockerfile
