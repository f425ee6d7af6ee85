import NodeVmm.Dockerignore
import NodeVmm.Lib.Exec
import NodeVmm.Lib.Glob
import NodeVmm.Theorems.ContextSources

/-! Which paths of the build context COPY and ADD take. A pattern of `.dockerignore` is fitted to the components of a path and
    of the directories above it, and the answer is that for the path alone, whatever source it is copied for. -/

namespace NodeVmm.Dockerfile
open PosixPath Glob
open Exec (ok_of_bind)
variable {context : Context} {cwd contextDir path : Text} {content : Option Text} {names : List Text} {p : IgnorePattern}
  {filter : Text → Bool}

/-! ### Patterns -/

/-- The pattern fits these components, or the last of them when it is not anchored. --/
def IgnorePattern.Fits (p : IgnorePattern) (components : List Text) : Prop :=
  ∃ b, b <:+ components ∧ (p.anchored = true → b = components) ∧ List.Forall₂ (Glob.Fits '/') (Text.split '/' p.cleaned) b

/-- Some pattern fits the path or a directory above it. --/
def Ignored (content : Option Text) (names : List Text) : Prop :=
  ∃ p ∈ ignorePatterns content, ∃ a, a <+: names ∧ p.Fits a

theorem mem_afterNoSlash {s r : Text} : r ∈ afterNoSlash s ↔ ∃ u, s = u ++ r ∧ '/' ∉ u := by
  induction s with
  | nil =>
    rw [afterNoSlash, List.mem_singleton]
    constructor
    · rintro rfl
      exact ⟨[], rfl, List.not_mem_nil⟩
    · rintro ⟨u, h, -⟩
      exact (List.append_eq_nil_iff.mp h.symm).2
  | cons c s ih =>
    rw [afterNoSlash, List.mem_cons]
    constructor
    · rintro (rfl | h)
      · exact ⟨[], rfl, List.not_mem_nil⟩
      · split at h
        · cases h
        · rename_i hc
          obtain ⟨u, rfl, hu⟩ := ih.mp h
          exact ⟨c :: u, rfl, fun hmem => (List.mem_cons.mp hmem).elim (fun h => hc h.symm) hu⟩
    · rintro ⟨u, h, hu⟩
      cases u with
      | nil => exact .inl h.symm
      | cons x u =>
        obtain ⟨rfl, rfl⟩ := List.cons.inj h
        obtain ⟨hc, hu⟩ := not_or.mp (mt List.mem_cons.mpr hu)
        rw [if_neg (Ne.symm hc)]
        exact .inr (ih.mpr ⟨u, rfl, hu⟩)

theorem mem_afterIgnore {pattern r : Text} {starts : List Text} :
    r ∈ afterIgnore pattern starts ↔ ∃ s ∈ starts, ∃ u, s = u ++ r ∧ Glob.Fits '/' pattern u := by
  induction pattern generalizing starts with
  | nil =>
    rw [afterIgnore]
    constructor
    · exact fun h => ⟨r, h, [], rfl, rfl⟩
    · rintro ⟨s, hs, u, rfl, hu⟩
      rwa [show u = [] from hu] at hs
  | cons c pattern ih =>
    rw [afterIgnore]
    by_cases hc : c = '*'
    · rw [if_pos hc, ih]
      subst hc
      simp only [List.mem_flatMap, mem_afterNoSlash, fits_star]
      constructor
      · rintro ⟨_, ⟨_, hs, u, rfl, hu⟩, v, rfl, hv⟩
        exact ⟨_, hs, u ++ v, (List.append_assoc _ _ _).symm, u, v, rfl, hu, hv⟩
      · rintro ⟨_, hs, _, rfl, u, v, rfl, hu, hv⟩
        exact ⟨v ++ r, ⟨_, hs, u, List.append_assoc _ _ _, hu⟩, v, rfl, hv⟩
    · rw [if_neg hc, ih]
      simp only [List.mem_filterMap, fits_char hc]
      constructor
      · rintro ⟨_, ⟨s, hs, hhead⟩, v, rfl, hv⟩
        split at hhead
        · rename_i hfirst
          obtain ⟨rest, rfl⟩ := List.head?_eq_some_iff.mp hfirst
          obtain rfl : rest = v ++ r := Option.some.inj hhead
          exact ⟨_, hs, c :: v, rfl, v, rfl, hv⟩
        · cases hhead
      · rintro ⟨_, hs, _, rfl, v, rfl, hv⟩
        exact ⟨v ++ r, ⟨_, hs, if_pos rfl⟩, v, rfl, hv⟩

theorem mem_afterSlash {s r : Text} : r ∈ afterSlash s ↔ ∃ u, s = u ++ '/' :: r := by
  induction s with
  | nil => simp [afterSlash]
  | cons c s ih =>
    have hcons : (∃ u, c :: s = u ++ '/' :: r) ↔ (c = '/' ∧ s = r) ∨ ∃ u, s = u ++ '/' :: r := by
      constructor
      · rintro ⟨u, h⟩
        cases u with
        | nil => exact .inl (List.cons.inj h)
        | cons x u => exact .inr ⟨u, (List.cons.inj h).2⟩
      · rintro (⟨rfl, rfl⟩ | ⟨u, rfl⟩)
        · exact ⟨[], rfl⟩
        · exact ⟨c :: u, rfl⟩
    rw [afterSlash, hcons, ← ih]
    split
    · rename_i hc
      rw [List.mem_cons]
      exact or_congr_left ⟨fun h => ⟨hc, h.symm⟩, fun h => h.2.symm⟩
    · rename_i hc
      simp [hc]

theorem isBelow_iff {r : Text} : isBelow r = true ↔ r = [] ∨ ∃ v, r = '/' :: v ∧ ∀ c ∈ v, isLineEnd c = false := by
  cases r with
  | nil => simp [isBelow]
  | cons c r =>
    have htest : isBelow (c :: r) = true ↔ c = '/' ∧ ∀ x ∈ r, isLineEnd x = false := by simp [isBelow]
    rw [htest]
    constructor
    · rintro ⟨rfl, hr⟩
      exact .inr ⟨r, rfl, hr⟩
    · rintro (h | ⟨v, h, hv⟩)
      · cases h
      · obtain ⟨rfl, rfl⟩ := List.cons.inj h
        exact ⟨rfl, hv⟩

/-- A component without line ends. --/
def Plain (n : Text) : Prop := IsName n ∧ ∀ c ∈ n, isLineEnd c = false

instance (n : Text) : Decidable (Plain n) :=
  decidable_of_iff (IsName n ∧ n.all (fun c => !isLineEnd c) = true) (by simp [Plain])

theorem lineEnd_join {ns : List Text} (h : ∀ n ∈ ns, Plain n) : ∀ c ∈ Text.join '/' ns, isLineEnd c = false := by
  induction ns with
  | nil => simp [Text.join]
  | cons n ns ih =>
    obtain ⟨hn, hns⟩ := List.forall_mem_cons.mp h
    cases ns with
    | nil => simpa [Text.join] using hn.2
    | cons m ns =>
      rw [Text.join_cons_cons]
      intro c hc
      rcases List.mem_append.mp hc with hc | hc
      · exact hn.2 c hc
      · rcases List.mem_cons.mp hc with rfl | hc
        · decide
        · exact ih hns c hc

theorem fits_cleaned_iff {d : Text} {ds : List Text} (hds : ∀ n ∈ d :: ds, '/' ∉ n) :
    Glob.Fits '/' p.cleaned (Text.join '/' (d :: ds)) ↔
      List.Forall₂ (Glob.Fits '/') (Text.split '/' p.cleaned) (d :: ds) := by
  have hjoin : Text.join '/' (Text.split '/' p.cleaned) = p.cleaned := List.intercalate_splitOn '/'
  have h : Glob.Fits '/' (Text.join '/' (Text.split '/' p.cleaned)) (Text.join '/' (d :: ds)) ↔ _ :=
    fits_join (by decide) (List.splitOn_ne_nil '/' p.cleaned) (List.cons_ne_nil d ds) slash_not_mem_split hds
  rwa [hjoin] at h

theorem not_forall₂_nil : ¬List.Forall₂ (Glob.Fits '/') (Text.split '/' p.cleaned) [] := fun h =>
  List.splitOn_ne_nil '/' p.cleaned (List.forall₂_nil_right_iff.mp h)

/-- Where a pattern fits from the begin of a path on, it fits the first components. --/
theorem fits_first_iff {ns : List Text} (hns : ∀ n ∈ ns, Plain n) (hne : ns ≠ []) :
    (∃ r u, Text.join '/' ns = u ++ r ∧ Glob.Fits '/' p.cleaned u ∧ isBelow r = true) ↔
      ∃ d, d <+: ns ∧ List.Forall₂ (Glob.Fits '/') (Text.split '/' p.cleaned) d := by
  have hslash : ∀ n ∈ ns, '/' ∉ n := fun n hn => (hns n hn).1.2.2.2
  have hfits : ∀ {d}, d ≠ [] → d <+: ns →
      (Glob.Fits '/' p.cleaned (Text.join '/' d) ↔ List.Forall₂ (Glob.Fits '/') (Text.split '/' p.cleaned) d) := by
    intro d hd hpre
    obtain ⟨n, ds, rfl⟩ := List.exists_cons_of_ne_nil hd
    exact fits_cleaned_iff fun m hm => hslash m (hpre.subset hm)
  constructor
  · rintro ⟨r, u, heq, hu, hr⟩
    rcases isBelow_iff.mp hr with rfl | ⟨v, rfl, -⟩
    · rw [List.append_nil] at heq
      subst heq
      exact ⟨ns, List.prefix_rfl, (hfits hne List.prefix_rfl).mp hu⟩
    · obtain ⟨b, c, rfl, hb, -, rfl, rfl⟩ := (join_eq_append_iff hslash).mp heq
      exact ⟨b, List.prefix_append b c, (hfits hb (List.prefix_append b c)).mp hu⟩
  · rintro ⟨d, ⟨e, rfl⟩, hd⟩
    have hdne : d ≠ [] := by
      rintro rfl
      exact not_forall₂_nil hd
    have hfit := (hfits hdne (List.prefix_append d e)).mpr hd
    by_cases he : e = []
    · subst he
      rw [List.append_nil]
      exact ⟨[], _, (List.append_nil _).symm, hfit, rfl⟩
    · refine ⟨'/' :: Text.join '/' e, _, join_append hdne he, hfit, isBelow_iff.mpr (.inr ⟨_, rfl, ?_⟩)⟩
      exact lineEnd_join fun n hn => hns n (List.mem_append_right d hn)

/-- The regular expression of a pattern, on a path of components. --/
theorem test_iff (hnames : ∀ n ∈ names, Plain n) (hne : names ≠ []) :
    p.test (Text.join '/' names) = true ↔ ∃ a, a <+: names ∧ p.Fits a := by
  have hslash : ∀ n ∈ names, '/' ∉ n := fun n hn => (hnames n hn).1.2.2.2
  have htest : ∀ starts : List Text, (afterIgnore p.cleaned starts).any isBelow = true ↔
      ∃ s ∈ starts, ∃ r u, s = u ++ r ∧ Glob.Fits '/' p.cleaned u ∧ isBelow r = true := by
    intro starts
    simp only [List.any_eq_true, mem_afterIgnore]
    constructor
    · rintro ⟨r, ⟨s, hs, u, heq, hu⟩, hr⟩
      exact ⟨s, hs, r, u, heq, hu, hr⟩
    · rintro ⟨s, hs, r, u, heq, hu, hr⟩
      exact ⟨r, ⟨s, hs, u, heq, hu⟩, hr⟩
  rw [IgnorePattern.test, htest]
  unfold IgnorePattern.Fits
  cases p.anchored with
  | true =>
    simp only [if_true, List.mem_singleton, exists_eq_left, forall_const]
    rw [fits_first_iff hnames hne]
    refine exists_congr fun d => and_congr_right fun _ => ⟨fun h => ⟨d, List.suffix_rfl, rfl, h⟩, ?_⟩
    rintro ⟨_, -, rfl, h⟩
    exact h
  | false =>
    simp only [Bool.false_eq_true, if_false, List.mem_cons, mem_afterSlash, false_implies, true_and]
    constructor
    · rintro ⟨s, hs, hfit⟩
      have hend : ∃ c, c <:+ names ∧ c ≠ [] ∧ s = Text.join '/' c := by
        rcases hs with rfl | ⟨u, hu⟩
        · exact ⟨names, List.suffix_rfl, hne, rfl⟩
        · obtain ⟨b, c, rfl, -, hc, -, rfl⟩ := (join_eq_append_iff hslash).mp hu
          exact ⟨c, List.suffix_append b c, hc, rfl⟩
      obtain ⟨c, ⟨b, rfl⟩, hc, rfl⟩ := hend
      obtain ⟨d, ⟨e, rfl⟩, hd⟩ := (fits_first_iff (fun n hn => hnames n (List.mem_append_right b hn)) hc).mp hfit
      exact ⟨b ++ d, ⟨e, List.append_assoc _ _ _⟩, d, List.suffix_append b d, hd⟩
    · rintro ⟨_, ⟨e, rfl⟩, d, ⟨b, rfl⟩, hd⟩
      have hne' : d ++ e ≠ [] := by
        refine List.append_ne_nil_of_left_ne_nil ?_ e
        rintro rfl
        exact not_forall₂_nil hd
      refine ⟨Text.join '/' (d ++ e), ?_, (fits_first_iff (fun n hn => hnames n ?_) hne').mpr ⟨d, List.prefix_append d e, hd⟩⟩
      · by_cases hb : b = []
        · subst hb
          exact .inl rfl
        · rw [List.append_assoc]
          exact .inr ⟨Text.join '/' b, join_append hb hne'⟩
      · rw [List.append_assoc]
        exact List.mem_append_right b hn

theorem not_ignored_nil : ¬Ignored content [] := by
  rintro ⟨p, -, a, ha, b, hb, -, h⟩
  obtain rfl := List.prefix_nil.mp ha
  obtain rfl := List.suffix_nil.mp hb
  exact not_forall₂_nil h

theorem loadDockerignore_iff (hnames : ∀ n ∈ names, Plain n) (hne : names ≠ []) :
    loadDockerignore content (Text.join '/' names) = true ↔ Ignored content names := by
  have hrel : (Text.join '/' names).dropWhile (· = '/') = Text.join '/' names := by
    obtain ⟨n, ns, rfl⟩ := List.exists_cons_of_ne_nil hne
    obtain ⟨hn, -, -, hslash⟩ := (hnames n List.mem_cons_self).1
    obtain ⟨c, n, rfl⟩ := List.exists_cons_of_ne_nil hn
    have hc : c ≠ '/' := fun h => hslash (h ▸ List.mem_cons_self)
    cases ns with
    | nil => simp [Text.join, hc]
    | cons m ns => rw [Text.join_cons_cons, List.cons_append, List.dropWhile_cons_of_neg (by simpa using hc)]
  unfold loadDockerignore Ignored
  simp only [hrel, List.any_eq_true, test_iff hnames hne]

/-! ### Copies -/

/-- The path of the context with these names. --/
def contextPath (cwd contextDir : Text) (names : List Text) : Text := ofNames (resolveNames cwd [contextDir] ++ names)

theorem relativeNames_append (root names : List Text) : relativeNames root (root ++ names) = names := by
  induction root with
  | nil => cases names <;> rfl
  | cons c root ih =>
    rw [List.cons_append, relativeNames, if_pos rfl]
    exact ih

/-- What the filter says of a path of the context. --/
theorem contextFilter_iff (hnames : ∀ n ∈ names, Plain n) :
    contextFilter cwd contextDir (loadDockerignore content) (contextPath cwd contextDir names) = true ↔
      ¬Ignored content names := by
  have hall : ∀ n ∈ resolveNames cwd [contextDir] ++ names, IsName n :=
    List.forall_mem_append.mpr ⟨resolveNames_names cwd [contextDir], fun n hn => (hnames n hn).1⟩
  have hrel : relative (resolve cwd [contextDir]) (contextPath cwd contextDir names) = Text.join '/' names := by
    rw [relative, resolve_eq, contextPath, normalizeString_ofNames (resolveNames_names cwd [contextDir]),
      normalizeString_ofNames hall, relativeNames_append]
  unfold contextFilter
  rw [hrel]
  by_cases hne : names = []
  · subst hne
    exact iff_of_true rfl not_ignored_nil
  · obtain ⟨n, ns, rfl⟩ := List.exists_cons_of_ne_nil hne
    have hjoin : Text.join '/' (n :: ns) ≠ [] := join_ne_nil (hnames n List.mem_cons_self).1.1
    rw [← loadDockerignore_iff hnames hne]
    simp [hjoin]

/-- The names that lead from a place to what is in it. --/
inductive ContextNode.Below : ContextNode → List Text → Prop
  | here (node : ContextNode) : Below node []
  | entry {entries : List ({ c : Text // IsName c } × ContextNode)} {e : { c : Text // IsName c } × ContextNode}
      {names : List Text} (he : e ∈ entries) (h : Below e.2 names) : Below (.dir entries) (e.1.val :: names)

theorem mem_cpEntries {source : Text} {entries : List ({ c : Text // IsName c } × ContextNode)} :
    path ∈ cpEntries filter source entries ↔ ∃ e ∈ entries, path ∈ cp filter (join source e.1.val) e.2 := by
  induction entries with
  | nil => simp [cpEntries]
  | cons e entries ih =>
    obtain ⟨name, node⟩ := e
    simp [cpEntries, ih]

theorem sizeOf_entry {entries : List ({ c : Text // IsName c } × ContextNode)} {e : { c : Text // IsName c } × ContextNode}
    (he : e ∈ entries) : sizeOf e.2 < sizeOf (ContextNode.dir entries) := by
  have hlist := List.sizeOf_lt_of_mem he
  obtain ⟨name, node⟩ := e
  simp only [Prod.mk.sizeOf_spec] at hlist
  simp only [ContextNode.dir.sizeOf_spec]
  omega

/-- What is copied from a place on: what is below it and passes the filter with all that is above it. --/
theorem mem_cp : ∀ (node : ContextNode) {names : List Text}, (∀ n ∈ names, IsName n) →
    (path ∈ cp filter (ofNames names) node ↔ ∃ below, node.Below below ∧ path = ofNames (names ++ below) ∧
      ∀ s, s <+: below → filter (ofNames (names ++ s)) = true)
  | .leaf, names, _ => by
    rw [cp]
    constructor
    · intro h
      split at h
      · rename_i hpass
        refine ⟨[], .here _, by rw [List.append_nil, List.mem_singleton.mp h], fun s hs => ?_⟩
        rwa [List.prefix_nil.mp hs, List.append_nil]
      · cases h
    · rintro ⟨_, ⟨⟩, rfl, hpass⟩
      have hfilter := hpass [] List.prefix_rfl
      rw [List.append_nil] at hfilter ⊢
      simp [hfilter]
  | .dir entries, names, hnames => by
    have ih : ∀ e ∈ entries, (path ∈ cp filter (join (ofNames names) e.1.val) e.2 ↔ ∃ below, e.2.Below below ∧
        path = ofNames (names ++ e.1.val :: below) ∧ ∀ s, s <+: below → filter (ofNames (names ++ e.1.val :: s)) = true) := by
      intro e he
      have hall : ∀ n ∈ names ++ [e.1.val], IsName n :=
        List.forall_mem_append.mpr ⟨hnames, List.forall_mem_singleton.mpr e.1.property⟩
      rw [join_ofNames_name hnames e.1.property, mem_cp e.2 hall]
      simp only [List.append_assoc, List.singleton_append]
    rw [cp]
    constructor
    · intro h
      split at h
      · rename_i hpass
        rcases List.mem_cons.mp h with rfl | h
        · refine ⟨[], .here _, by rw [List.append_nil], fun s hs => ?_⟩
          rwa [List.prefix_nil.mp hs, List.append_nil]
        · obtain ⟨e, he, hcopied⟩ := mem_cpEntries.mp h
          obtain ⟨below, hbelow, rfl, hall⟩ := (ih e he).mp hcopied
          refine ⟨_, .entry he hbelow, rfl, fun s hs => ?_⟩
          rcases List.prefix_cons_iff.mp hs with rfl | ⟨t, rfl, ht⟩
          · rwa [List.append_nil]
          · exact hall t ht
      · cases h
    · rintro ⟨below, hbelow, rfl, hpass⟩
      have hfilter := hpass [] List.nil_prefix
      rw [List.append_nil] at hfilter
      rw [if_pos hfilter]
      cases hbelow with
      | here => exact List.mem_cons.mpr (.inl (by rw [List.append_nil]))
      | entry he h =>
        refine List.mem_cons_of_mem _ (mem_cpEntries.mpr ⟨_, he, (ih _ he).mpr ⟨_, h, rfl, fun s hs => ?_⟩⟩)
        exact hpass _ (List.cons_prefix_cons.mpr ⟨rfl, hs⟩)
termination_by node => sizeOf node
decreasing_by exact sizeOf_entry he

/-- The names that lead from a source to what it selects: to all that is in a directory, or nowhere from a file. --/
def Takes : Option ContextNode → List Text → Prop
  | none, _ => False
  | some .leaf, below => below = []
  | some (.dir entries), below => below ≠ [] ∧ (ContextNode.dir entries).Below below

theorem isName_of_below {node : ContextNode} {below : List Text} (h : node.Below below) : ∀ n ∈ below, IsName n := by
  induction h with
  | here => exact nofun
  | @entry entries e below he h ih => exact List.forall_mem_cons.mpr ⟨e.1.property, ih⟩

theorem isName_of_takes {node : Option ContextNode} {below : List Text} (h : Takes node below) : ∀ n ∈ below, IsName n := by
  rcases node with - | (- | entries)
  · exact h.elim
  · rw [show below = [] from h]
    exact nofun
  · exact isName_of_below h.2

theorem mem_copySourcePath {copied : List Text} (hnames : ∀ n ∈ names, IsName n)
    (h : copySourcePath context filter (ofNames names) = .ok copied) :
    path ∈ copied ↔ ∃ below, Takes (context (ofNames names)) below ∧ path = ofNames (names ++ below) ∧
      ∀ s, s <+: below → (s = [] → below = []) → filter (ofNames (names ++ s)) = true := by
  unfold copySourcePath at h
  cases hnode : context (ofNames names) with
  | none =>
    rw [hnode] at h
    cases h
  | some node =>
    rw [hnode] at h
    cases node with
    | leaf =>
      cases h
      constructor
      · intro h
        split at h
        · rename_i hpass
          refine ⟨[], rfl, by rw [List.append_nil, List.mem_singleton.mp h], fun s hs _ => ?_⟩
          rwa [List.prefix_nil.mp hs, List.append_nil]
        · cases h
      · rintro ⟨_, rfl, rfl, hpass⟩
        have hfilter := hpass [] List.prefix_rfl fun _ => rfl
        rw [List.append_nil] at hfilter ⊢
        simp [hfilter]
    | dir entries =>
      cases h
      have hentry : ∀ e ∈ entries, (path ∈ (if filter (join (ofNames names) e.1.val) = true then
            cp filter (join (ofNames names) e.1.val) e.2 else []) ↔ ∃ below, e.2.Below below ∧
          path = ofNames (names ++ e.1.val :: below) ∧
          ∀ s, s <+: below → filter (ofNames (names ++ e.1.val :: s)) = true) := by
        intro e he
        have hall : ∀ n ∈ names ++ [e.1.val], IsName n :=
          List.forall_mem_append.mpr ⟨hnames, List.forall_mem_singleton.mpr e.1.property⟩
        have hcp := @mem_cp path filter e.2 _ hall
        simp only [List.append_assoc, List.singleton_append] at hcp
        rw [join_ofNames_name hnames e.1.property, ← hcp]
        split
        · rfl
        · rename_i hpass
          refine iff_of_false List.not_mem_nil fun h => hpass ?_
          obtain ⟨_, -, -, hfirst⟩ := hcp.mp h
          exact hfirst [] List.nil_prefix
      rw [List.mem_flatMap]
      constructor
      · rintro ⟨e, he, hpath⟩
        obtain ⟨below, hbelow, rfl, hpass⟩ := (hentry e he).mp hpath
        refine ⟨_, ⟨List.cons_ne_nil _ _, .entry he hbelow⟩, rfl, fun s hs hne => ?_⟩
        rcases List.prefix_cons_iff.mp hs with rfl | ⟨t, rfl, ht⟩
        · exact absurd (hne rfl) (List.cons_ne_nil _ _)
        · exact hpass t ht
      · rintro ⟨below, ⟨hne, hbelow⟩, rfl, hpass⟩
        cases hbelow with
        | here => exact absurd rfl hne
        | @entry _ e below he h =>
          refine ⟨e, he, (hentry e he).mpr ⟨below, h, rfl, fun s hs => ?_⟩⟩
          exact hpass _ (List.cons_prefix_cons.mpr ⟨rfl, hs⟩) (fun h => absurd h (List.cons_ne_nil _ _))

/-! ### Sources -/

/-- The paths that a source selects. --/
def Selected (context : Context) (cwd contextDir source path : Text) : Prop :=
  ∃ q below, Named context.readdir cwd contextDir source q ∧ Takes (context q) below ∧ path = below.foldl join q

theorem mem_expandContextSources {readdir : Listing} {source q : Text} {paths : List Text}
    (h : expandContextSources readdir cwd contextDir source = .ok paths) :
    q ∈ paths ↔ Named readdir cwd contextDir source q := by
  cases hglob : (normalizedSource source).contains '*' with
  | true => exact expand_glob hglob h
  | false =>
    rw [expand_literal hglob] at h
    split at h
    · cases h
    · cases h
      rw [List.mem_singleton, Named, if_neg (by rw [hglob]; exact Bool.false_ne_true)]

theorem mem_mapM_flatten {f : Text → Except String (List Text)} : ∀ {paths : List Text} {copied : List (List Text)},
    paths.mapM f = .ok copied → (path ∈ copied.flatten ↔ ∃ q ∈ paths, ∃ l, f q = .ok l ∧ path ∈ l)
  | [], copied, h => by
    have hnil : Except.ok [] = (.ok copied : Except String _) := h
    cases hnil
    simp
  | q :: paths, copied, h => by
    rw [List.mapM_cons] at h
    obtain ⟨l, hq, hothers⟩ := ok_of_bind h
    obtain ⟨ls, hrest, heq⟩ := ok_of_bind hothers
    cases heq
    simp [mem_mapM_flatten hrest, hq]

theorem mem_copyDockerfileSources {ignored : Text → Bool} : ∀ {sources : List Text} {copied : List Text},
    copyDockerfileSources context cwd contextDir ignored sources = .ok copied →
    (path ∈ copied ↔ ∃ source ∈ sources, ∃ q, Named context.readdir cwd contextDir source q ∧
      ∃ l, copySourcePath context (contextFilter cwd contextDir ignored) q = .ok l ∧ path ∈ l)
  | [], copied, h => by
    cases h
    simp
  | source :: sources, copied, h => by
    rw [copyDockerfileSources] at h
    obtain ⟨paths, hpaths, hcopies⟩ := ok_of_bind h
    obtain ⟨ls, hls, hothers⟩ := ok_of_bind hcopies
    obtain ⟨rest, hrest, heq⟩ := ok_of_bind hothers
    cases heq
    rw [List.mem_append, mem_mapM_flatten hls, mem_copyDockerfileSources hrest]
    simp only [mem_expandContextSources hpaths, List.mem_cons, exists_eq_or_imp]

/-- A source that stays in the context. --/
def StaysInside (context : Context) (cwd contextDir source : Text) : Prop :=
  ∀ q, Named context.readdir cwd contextDir source q → Within cwd contextDir q

theorem foldl_join : ∀ {below names : List Text}, (∀ n ∈ names, IsName n) → (∀ n ∈ below, IsName n) →
    below.foldl join (ofNames names) = ofNames (names ++ below)
  | [], names, _, _ => by rw [List.append_nil]; rfl
  | n :: below, names, hnames, hbelow => by
    obtain ⟨hn, hrest⟩ := List.forall_mem_cons.mp hbelow
    have hall : ∀ m ∈ names ++ [n], IsName m := List.forall_mem_append.mpr ⟨hnames, List.forall_mem_singleton.mpr hn⟩
    rw [List.foldl_cons, join_ofNames_name hnames hn, foldl_join hall hrest, List.append_assoc]
    rfl

/-- The filter looks at all that is above a path, but the answer is that for the path. --/
theorem forall_not_ignored_iff {first below : List Text} :
    (∀ s, s <+: below → (s = [] → below = []) → ¬Ignored content (first ++ s)) ↔ ¬Ignored content (first ++ below) := by
  constructor
  · exact fun h => h below List.prefix_rfl id
  · rintro h s ⟨t, rfl⟩ - ⟨p, hp, a, ⟨b, hb⟩, hfits⟩
    exact h ⟨p, hp, a, ⟨b ++ t, by rw [← List.append_assoc, hb, List.append_assoc]⟩, hfits⟩

/-- What is copied for a path that a source names. --/
theorem mem_copied_at {q : Text} (hq : Within cwd contextDir q) (hnames : ∀ n ∈ names, Plain n) :
    (∃ l, copySourcePath context (contextFilter cwd contextDir (loadDockerignore content)) q = .ok l ∧
        contextPath cwd contextDir names ∈ l) ↔
      (∃ below, Takes (context q) below ∧ contextPath cwd contextDir names = below.foldl join q) ∧ ¬Ignored content names := by
  obtain ⟨first, hfirst, rfl⟩ := hq
  have hroot := resolveNames_names cwd [contextDir]
  have hstart : ∀ n ∈ resolveNames cwd [contextDir] ++ first, IsName n := List.forall_mem_append.mpr ⟨hroot, hfirst⟩
  have hpath : ∀ {below}, (∀ n ∈ below, IsName n) →
      (contextPath cwd contextDir names = ofNames (resolveNames cwd [contextDir] ++ first ++ below) ↔
        names = first ++ below) := by
    intro below hbelow
    rw [contextPath, List.append_assoc]
    refine ⟨fun h => List.append_cancel_left (ofNames_inj ?_ ?_ h), fun h => by rw [h]⟩
    · exact List.forall_mem_append.mpr ⟨hroot, fun n hn => (hnames n hn).1⟩
    · exact List.forall_mem_append.mpr ⟨hroot, List.forall_mem_append.mpr ⟨hfirst, hbelow⟩⟩
  have hpasses : ∀ {below}, names = first ++ below →
      ((∀ s, s <+: below → (s = [] → below = []) → contextFilter cwd contextDir (loadDockerignore content)
        (ofNames (resolveNames cwd [contextDir] ++ first ++ s)) = true) ↔ ¬Ignored content names) := by
    rintro below rfl
    rw [← forall_not_ignored_iff]
    refine forall₃_congr fun s hs _ => ?_
    have hplain : ∀ n ∈ first ++ s, Plain n := fun n hn =>
      hnames n ((List.prefix_append_right_inj first).mpr hs |>.subset hn)
    rw [← contextFilter_iff hplain, contextPath, List.append_assoc]
  constructor
  · rintro ⟨l, hl, hmem⟩
    obtain ⟨below, htakes, heq, hpass⟩ := (mem_copySourcePath hstart hl).mp hmem
    have hbelow := isName_of_takes htakes
    have hsplit := (hpath hbelow).mp heq
    exact ⟨⟨below, htakes, by rw [foldl_join hstart hbelow, heq]⟩, (hpasses hsplit).mp hpass⟩
  · rintro ⟨⟨below, htakes, heq⟩, hnot⟩
    have hbelow := isName_of_takes htakes
    rw [foldl_join hstart hbelow] at heq
    have hl : ∃ l, copySourcePath context (contextFilter cwd contextDir (loadDockerignore content))
        (ofNames (resolveNames cwd [contextDir] ++ first)) = .ok l := by
      unfold copySourcePath
      split
      · rename_i hnode
        rw [hnode] at htakes
        exact htakes.elim
      · exact ⟨_, rfl⟩
      · exact ⟨_, rfl⟩
    obtain ⟨l, hl⟩ := hl
    exact ⟨l, hl, (mem_copySourcePath hstart hl).mpr ⟨below, htakes, heq, (hpasses ((hpath hbelow).mp heq)).mpr hnot⟩⟩

/-- A context in `/c`. --/
def smallContext : Context := fun path =>
  if path = "/c".toList then
    some (.dir [(⟨"key.pem".toList, by decide⟩, .leaf), (⟨"keep.log".toList, by decide⟩, .leaf),
      (⟨"a.log".toList, by decide⟩, .leaf), (⟨"src".toList, by decide⟩, .dir [(⟨"tmp".toList, by decide⟩, .leaf)]),
      (⟨"old".toList, by decide⟩, .dir [(⟨"a\nb".toList, by decide⟩, .leaf)])])
  else if path = "/c/old".toList then some (.dir [(⟨"a\nb".toList, by decide⟩, .leaf)])
  else none

/-- A path of the context is copied exactly when a source selects it and no pattern fits it or a directory above it. --/
theorem context_path_copied_iff {sources copied : List Text}
    (hcopied : copyDockerfileSources context cwd contextDir (loadDockerignore content) sources = .ok copied)
    (hinside : ∀ source ∈ sources, StaysInside context cwd contextDir source) (hnames : ∀ n ∈ names, Plain n) :
    contextPath cwd contextDir names ∈ copied ↔
      (∃ source ∈ sources, Selected context cwd contextDir source (contextPath cwd contextDir names)) ∧
        ¬Ignored content names := by
  have hat : ∀ source ∈ sources, ∀ q, Named context.readdir cwd contextDir source q →
      ((∃ l, copySourcePath context (contextFilter cwd contextDir (loadDockerignore content)) q = .ok l ∧
        contextPath cwd contextDir names ∈ l) ↔ _) := fun source hsource q hq =>
    mem_copied_at (hinside source hsource q hq) hnames
  rw [mem_copyDockerfileSources hcopied]
  constructor
  · rintro ⟨source, hsource, q, hq, hl⟩
    obtain ⟨⟨below, htakes, heq⟩, hnot⟩ := (hat source hsource q hq).mp hl
    exact ⟨⟨source, hsource, q, below, hq, htakes, heq⟩, hnot⟩
  · rintro ⟨⟨source, hsource, q, below, hq, htakes, heq⟩, hnot⟩
    exact ⟨source, hsource, q, hq, (hat source hsource q hq).mpr ⟨⟨below, htakes, heq⟩, hnot⟩⟩

/-- `COPY . /app` with `*.log`: the key is copied. --/
theorem context_path_copied_key : contextPath "/".toList "/c".toList ["key.pem".toList] ∈
      ["/c/key.pem".toList, "/c/src".toList, "/c/src/tmp".toList, "/c/old".toList, "/c/old/a\nb".toList] ↔
    (∃ source ∈ [dot], Selected smallContext "/".toList "/c".toList source
      (contextPath "/".toList "/c".toList ["key.pem".toList])) ∧ ¬Ignored (some "*.log".toList) ["key.pem".toList] :=
  context_path_copied_iff rfl (fun source hsource q hq => by
    obtain rfl : source = dot := List.mem_singleton.mp hsource
    obtain rfl : q = "/c".toList := hq
    exact ⟨[], nofun, rfl⟩) (by decide +kernel)

/-! ### Docker's rules -/

/-- A component of a pattern: `*` stands for any characters, `?` for one. --/
def dockerName : Text → Text → Bool
  | [], n => n = []
  | c :: pattern, n =>
    if c = '*' then n.tails.any (dockerName pattern)
    else match n with
      | [] => false
      | d :: n => (c = '?' || c = d) && dockerName pattern n

/-- The components of a pattern: `**` stands for any number of components. --/
def dockerFits : List Text → List Text → Bool
  | [], ns => ns = []
  | c :: cs, ns =>
    if c = "**".toList then ns.tails.any (dockerFits cs)
    else match ns with
      | [] => false
      | n :: ns => dockerName c n && dockerFits cs ns

/-- Whether a line is negated, and the components of its pattern. --/
def dockerPattern (line : Text) : Bool × List Text :=
  let negated := Text.startsWith line ['!']
  (negated, (Text.split '/' (if negated then Text.trim line.tail else line)).filter fun c => c ≠ [] ∧ c ≠ dot)

def dockerPatterns (content : Text) : List (Bool × List Text) :=
  (((Text.split '\n' content).map Text.trim).filter fun line =>
    line ≠ [] ∧ Text.startsWith line ['#'] = false).map dockerPattern

/-- The last pattern that fits the path or a directory above it decides. --/
def dockerIgnores (content : Text) (names : List Text) : Bool :=
  (dockerPatterns content).foldl (fun ignored p => if names.inits.any (dockerFits p.2) then !p.1 else ignored) false

/-- What is copied for a source is what it selects and Docker does not ignore. --/
def DockerRules (context : Context) (cwd contextDir content source : Text) : Prop :=
  ∀ copied, copyDockerfileSources context cwd contextDir (loadDockerignore (some content)) [source] = .ok copied →
    ∀ names, (∀ n ∈ names, IsName n) → (contextPath cwd contextDir names ∈ copied ↔
      Selected context cwd contextDir source (contextPath cwd contextDir names) ∧ dockerIgnores content names = false)

section
variable {text source : Text} {copied : List Text}

/-- A path is copied that Docker ignores. --/
theorem not_dockerRules_of_leak
    (h : copyDockerfileSources context cwd contextDir (loadDockerignore (some text)) [source] = .ok copied)
    (hnames : ∀ n ∈ names, IsName n) (hmem : contextPath cwd contextDir names ∈ copied)
    (hignored : dockerIgnores text names = true) : ¬DockerRules context cwd contextDir text source := fun hrules => by
  obtain ⟨-, hkept⟩ := (hrules copied h names hnames).mp hmem
  rw [hignored] at hkept
  cases hkept

/-- A path is selected and not copied that Docker does not ignore. --/
theorem not_dockerRules_of_loss
    (h : copyDockerfileSources context cwd contextDir (loadDockerignore (some text)) [source] = .ok copied)
    (hnames : ∀ n ∈ names, IsName n) (hmem : contextPath cwd contextDir names ∉ copied)
    (hselected : Selected context cwd contextDir source (contextPath cwd contextDir names))
    (hkept : dockerIgnores text names = false) : ¬DockerRules context cwd contextDir text source := fun hrules =>
  hmem ((hrules copied h names hnames).mpr ⟨hselected, hkept⟩)

end

/-- `**` wants a directory, `?` stands for itself, negations are dropped, a pattern fits in a directory too, and a line end in
    a name hides the directory that is ignored. --/
theorem dockerignore_not_docker :
    ¬DockerRules smallContext "/".toList "/c".toList "**/*.pem".toList dot ∧
    ¬DockerRules smallContext "/".toList "/c".toList "?.log".toList dot ∧
    ¬DockerRules smallContext "/".toList "/c".toList "*.log\n!keep.log".toList dot ∧
    ¬DockerRules smallContext "/".toList "/c".toList "tmp".toList dot ∧
    ¬DockerRules smallContext "/".toList "/c".toList "old".toList "old".toList := by
  have hlog : Selected smallContext "/".toList "/c".toList dot (contextPath "/".toList "/c".toList ["keep.log".toList]) := by
    refine ⟨"/c".toList, ["keep.log".toList], rfl, ⟨List.cons_ne_nil _ _, ?_⟩, rfl⟩
    exact .entry (List.mem_cons_of_mem _ List.mem_cons_self) (.here _)
  have htmp : Selected smallContext "/".toList "/c".toList dot
      (contextPath "/".toList "/c".toList ["src".toList, "tmp".toList]) := by
    refine ⟨"/c".toList, ["src".toList, "tmp".toList], rfl, ⟨List.cons_ne_nil _ _, ?_⟩, rfl⟩
    have hsrc : ∀ {e : { c : Text // IsName c } × ContextNode} {a b c : _} {rest : List _},
        e ∈ a :: b :: c :: e :: rest := by simp
    exact .entry hsrc (.entry List.mem_cons_self (.here _))
  refine ⟨?_, ?_, ?_, ?_, ?_⟩
  · exact @not_dockerRules_of_leak _ _ _ ["key.pem".toList] _ _ _ rfl (by decide) (by decide +kernel) (by decide +kernel)
  · exact @not_dockerRules_of_leak _ _ _ ["a.log".toList] _ _ _ rfl (by decide) (by decide +kernel) (by decide +kernel)
  · exact not_dockerRules_of_loss rfl (by decide) (by decide +kernel) hlog (by decide +kernel)
  · exact not_dockerRules_of_loss rfl (by decide) (by decide +kernel) htmp (by decide +kernel)
  · exact @not_dockerRules_of_leak _ _ _ ["old".toList, "a\nb".toList] _ _ _ rfl (by decide) (by decide +kernel)
      (by decide +kernel)

end NodeVmm.Dockerfile
