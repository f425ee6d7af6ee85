import Mathlib.Data.List.Induction
import Mathlib.Data.List.Infix
import Mathlib.Data.List.Nodup
import NodeVmm.Lib.PosixPath

/-! File trees with symbolic links, and the resolution of paths in them by a POSIX kernel. A path of the tree is
    the list of names from the root; the root is a directory always. -/

open PosixPath

inductive FileNode where
  | file (data : List UInt8)
  | dir
  | symlink (target : Text)
  deriving DecidableEq, Repr

structure FileTree where
  entries : List (List Text × FileNode)
  names : ∀ e ∈ entries, e.1 ≠ [] ∧ ∀ c ∈ e.1, IsName c
  nodup : (entries.map Prod.fst).Nodup

namespace FileTree

def empty : FileTree := ⟨[], fun _ h => absurd h List.not_mem_nil, List.nodup_nil⟩

def lookup (t : FileTree) (p : List Text) : Option FileNode :=
  if p = [] then some .dir else (t.entries.find? (·.1 = p)).map Prod.snd

/-- The names in a directory. --/
def children (t : FileTree) (p : List Text) : List Text :=
  (t.entries.filter (·.1.dropLast = p)).filterMap (·.1.getLast?)

/-- The tree without the entry at `p` and all that is below it. --/
def erase (t : FileTree) (p : List Text) : FileTree where
  entries := t.entries.filter fun e => !p.isPrefixOf e.1
  names e he := t.names e (List.mem_of_mem_filter he)
  nodup := t.nodup.sublist (List.filter_sublist.map _)

/-- The tree with this entry at a path of names. --/
def insert (t : FileTree) (p : List Text) (node : FileNode) : FileTree :=
  if h : p ≠ [] ∧ ∀ c ∈ p, IsName c then
    { entries := (p, node) :: t.entries.filter (·.1 ≠ p)
      names := by
        rintro e (_ | ⟨_, he⟩)
        · exact h
        · exact t.names e (List.mem_of_mem_filter he)
      nodup := by
        refine List.nodup_cons.mpr ⟨fun hmem => ?_, t.nodup.sublist (List.filter_sublist.map _)⟩
        obtain ⟨e, he, heq⟩ := List.mem_map.mp hmem
        exact of_decide_eq_true (List.mem_filter.mp he).2 heq }
  else t

/-! ### Resolution -/

/-- The walk of a path from a directory; `follow` goes on with the target of a symbolic link. --/
def walk (t : FileTree) (follow : List Text → List Text → Except String (List Text)) :
    List Text → List Text → Except String (List Text)
  | cur, [] => .ok cur
  | cur, c :: rest =>
    if c = [] ∨ c = dot then walk t follow cur rest
    else if c = dotdot then walk t follow cur.dropLast rest
    else
      match t.lookup (cur ++ [c]) with
      | none => .error "ENOENT"
      | some .dir => walk t follow (cur ++ [c]) rest
      | some (.file _) => if rest = [] then .ok (cur ++ [c]) else .error "ENOTDIR"
      | some (.symlink target) =>
        follow (if isAbsolute target then [] else cur) (Text.split '/' target ++ rest)

/-- The walk through at most `links` symbolic links. --/
def resolveFrom (t : FileTree) : Nat → List Text → List Text → Except String (List Text)
  | 0 => t.walk fun _ _ => .error "ELOOP"
  | links + 1 => t.walk (t.resolveFrom links)

/-- The entry that a path of components names, through symbolic links. --/
def resolve (t : FileTree) (components : List Text) : Except String (List Text) := t.resolveFrom 40 [] components

/-- The place of the last name of a path: symbolic links are followed up to its directory. --/
def locate (t : FileTree) (components : List Text) : Except String (List Text) :=
  match components.getLast? with
  | none => .ok []
  | some c =>
    if c = [] ∨ c = dot ∨ c = dotdot then t.resolve components
    else do
      let parent ← t.resolve components.dropLast
      if t.lookup parent = some .dir then .ok (parent ++ [c]) else .error "ENOTDIR"

/-! ### Entries -/

section
variable {t : FileTree} {p q : List Text} {n m : FileNode}

@[simp] theorem lookup_nil : t.lookup [] = some .dir := rfl

theorem lookup_eq_some (hp : p ≠ []) : t.lookup p = some n ↔ (p, n) ∈ t.entries := by
  rw [lookup, if_neg hp]
  constructor
  · intro h
    obtain ⟨e, he, hn⟩ := Option.map_eq_some_iff.mp h
    have hmem := List.mem_of_find?_eq_some he
    have hkey : e.1 = p := by simpa using List.find?_some he
    rw [← hn, ← hkey]
    exact hmem
  · intro h
    rcases hf : t.entries.find? (·.1 = p) with _ | e
    · exact absurd (decide_eq_true rfl) (List.find?_eq_none.mp hf _ h)
    · have hmem := List.mem_of_find?_eq_some hf
      have hkey : e.1 = p := by simpa using List.find?_some hf
      have heq : e = (p, n) := List.inj_on_of_nodup_map t.nodup hmem h hkey
      rw [hf, heq]
      rfl

theorem names_of_lookup (h : t.lookup p = some n) : ∀ c ∈ p, IsName c := by
  by_cases hp : p = []
  · rw [hp]
    exact fun _ hc => absurd hc List.not_mem_nil
  · exact (t.names _ ((lookup_eq_some hp).mp h)).2

theorem lookup_erase (hq : q ≠ []) : (t.erase p).lookup q = if p <+: q then none else t.lookup q := by
  refine Option.ext fun n => ?_
  rw [lookup_eq_some hq]
  split
  · rename_i h
    simp [erase, h]
  · rename_i h
    have hb : p.isPrefixOf q = false := Bool.eq_false_iff.mpr fun hb => h (List.isPrefixOf_iff_prefix.mp hb)
    simp [erase, hb, lookup_eq_some hq]

theorem lookup_insert (hp : p ≠ []) (hn : ∀ c ∈ p, IsName c) : (t.insert p n).lookup q =
    if q = p then some n else t.lookup q := by
  by_cases hq : q = []
  · rw [hq, lookup_nil, lookup_nil, if_neg hp.symm]
  refine Option.ext fun m => ?_
  rw [lookup_eq_some hq, insert, dif_pos ⟨hp, hn⟩]
  split
  · rename_i h
    subst h
    simp [eq_comm]
  · rename_i h
    simp [h, lookup_eq_some hq]

theorem mem_children {c : Text} : c ∈ t.children p ↔ IsName c ∧ (t.lookup (p ++ [c])).isSome = true := by
  unfold children
  rw [Option.isSome_iff_exists]
  constructor
  · intro h
    obtain ⟨e, he, hlast⟩ := List.mem_filterMap.mp h
    obtain ⟨hmem, hdrop⟩ := List.mem_filter.mp he
    have heq : e.1 = p ++ [c] := by
      rw [← of_decide_eq_true hdrop]
      exact (List.dropLast_append_getLast? c hlast).symm
    have hne : p ++ [c] ≠ [] := by simp
    exact ⟨(t.names e hmem).2 c (heq ▸ by simp), e.2, (lookup_eq_some hne).mpr (heq ▸ hmem)⟩
  · rintro ⟨-, n, hn⟩
    refine List.mem_filterMap.mpr ⟨(p ++ [c], n), List.mem_filter.mpr ⟨(lookup_eq_some (by simp)).mp hn, ?_⟩, ?_⟩
    · simp
    · simp

end

/-! ### Directories without links above them -/

/-- Every directory on the way to `p` is one itself. --/
def RealDir (t : FileTree) (p : List Text) : Prop := ∀ q, q <+: p → t.lookup q = some .dir

/-- A place that resolution can end at. --/
def Real (t : FileTree) (p : List Text) : Prop := t.RealDir p ∨ p ≠ [] ∧ t.RealDir p.dropLast ∧ ∃ d, t.lookup p = some (.file d)

section
variable {t : FileTree} {p q : List Text}

theorem realDir_nil : t.RealDir [] := fun q hq => by
  rw [List.prefix_nil.mp hq]
  rfl

theorem RealDir.of_prefix (h : t.RealDir p) (hq : q <+: p) : t.RealDir q := fun r hr => h r (hr.trans hq)

theorem RealDir.dropLast (h : t.RealDir p) : t.RealDir p.dropLast := h.of_prefix (List.dropLast_prefix p)

theorem RealDir.snoc {c : Text} (h : t.RealDir p) (hc : t.lookup (p ++ [c]) = some .dir) : t.RealDir (p ++ [c]) := by
  intro q hq
  rcases List.prefix_concat_iff.mp hq with rfl | hq
  · exact hc
  · exact h q hq

theorem walk_real {follow : List Text → List Text → Except String (List Text)}
    (hf : ∀ cur cs p, t.RealDir cur → follow cur cs = .ok p → t.Real p) :
    ∀ {cs cur : List Text} {p : List Text}, t.RealDir cur → t.walk follow cur cs = .ok p → t.Real p
  | [], cur, p, hcur, h => by
    cases h
    exact Or.inl hcur
  | c :: rest, cur, p, hcur, h => by
    unfold walk at h
    split at h
    · exact walk_real hf hcur h
    split at h
    · exact walk_real hf hcur.dropLast h
    split at h
    · cases h
    · rename_i hc
      exact walk_real hf (hcur.snoc hc) h
    · rename_i d hd
      split at h
      · cases h
        exact Or.inr ⟨by simp, by rwa [List.dropLast_concat], d, hd⟩
      · cases h
    · refine hf _ _ p ?_ h
      split
      · exact realDir_nil
      · exact hcur

theorem resolveFrom_real : ∀ {links : Nat} {cur cs p : List Text}, t.RealDir cur →
    t.resolveFrom links cur cs = .ok p → t.Real p
  | 0, _, _, _, hcur, h => @walk_real t (fun _ _ => .error "ELOOP") (fun _ _ _ _ h => by cases h) _ _ _ hcur h
  | _ + 1, _, _, _, hcur, h => walk_real (fun _ _ _ hcur h => resolveFrom_real hcur h) hcur h

theorem resolve_real {cs : List Text} (h : t.resolve cs = .ok p) : t.Real p := resolveFrom_real realDir_nil h

theorem Real.realDir (h : t.Real p) (hd : t.lookup p = some .dir) : t.RealDir p := by
  rcases h with h | ⟨-, -, d, hf⟩
  · exact h
  · rw [hd] at hf
    cases hf

/-- A walk along real directories ends at the last of them. --/
theorem walk_realDir {follow : List Text → List Text → Except String (List Text)} :
    ∀ {cs cur : List Text}, t.RealDir (cur ++ cs) → (∀ c ∈ cs, IsName c) → t.walk follow cur cs = .ok (cur ++ cs)
  | [], cur, _, _ => by rw [List.append_nil]; rfl
  | c :: rest, cur, h, hn => by
    obtain ⟨hne, hdot, hdd, -⟩ := hn c List.mem_cons_self
    have hsplit : cur ++ c :: rest = (cur ++ [c]) ++ rest := by simp
    have hc : t.lookup (cur ++ [c]) = some .dir := h _ (hsplit ▸ List.prefix_append _ _)
    unfold walk
    rw [if_neg (not_or.mpr ⟨hne, hdot⟩), if_neg hdd, hc, hsplit]
    exact walk_realDir (hsplit ▸ h) fun d hd => hn d (List.mem_cons_of_mem _ hd)

theorem resolve_realDir (h : t.RealDir p) : t.resolve p = .ok p :=
  walk_realDir h (names_of_lookup (h p (List.prefix_refl p)))

theorem RealDir.names (h : t.RealDir p) : ∀ c ∈ p, IsName c := names_of_lookup (h p (List.prefix_refl p))

theorem Real.names (h : t.Real p) : ∀ c ∈ p, IsName c := by
  rcases h with h | ⟨-, -, d, hf⟩
  · exact h.names
  · exact names_of_lookup hf

/-- The text of a name in a real directory locates that name. --/
theorem locate_ofNames_snoc {c : Text} (h : t.RealDir p) (hc : IsName c) :
    t.locate (Text.split '/' (ofNames (p ++ [c]))) = .ok (p ++ [c]) := by
  have hn : ∀ d ∈ p ++ [c], IsName d := by
    intro d hd
    rcases List.mem_append.mp hd with hd | hd
    · exact h.names d hd
    · exact List.mem_singleton.mp hd ▸ hc
  have hcomp : ¬(c = [] ∨ c = dot ∨ c = dotdot) := by
    rintro (hx | hx | hx)
    · exact hc.1 hx
    · exact hc.2.1 hx
    · exact hc.2.2.1 hx
  have hlast : ([] :: (p ++ [c])).getLast? = some c := by
    rw [← List.cons_append, List.getLast?_concat]
  have hdrop : ([] :: (p ++ [c])).dropLast = [] :: p := by
    rw [← List.cons_append, List.dropLast_concat]
  have hresolve : t.resolve ([] :: p) = .ok p := resolve_realDir h
  rw [split_ofNames hn, if_neg (List.append_ne_nil_of_right_ne_nil _ (List.cons_ne_nil _ _)), locate, hlast]
  simp only [if_neg hcomp, hdrop, hresolve, bind, Except.bind, h p (List.prefix_refl p), if_true]

/-- The text of a real directory locates it. --/
theorem locate_ofNames (h : t.RealDir p) : t.locate (Text.split '/' (ofNames p)) = .ok p := by
  rcases List.eq_nil_or_concat' p with rfl | ⟨init, c, rfl⟩
  · rfl
  · exact locate_ofNames_snoc (h.of_prefix (List.prefix_append _ _)) (h.names c (by simp))

/-- Removing what is not above a directory keeps it. --/
theorem RealDir.erase (h : t.RealDir p) (hq : ¬q <+: p) : (t.erase q).RealDir p := fun r hr => by
  by_cases hne : r = []
  · rw [hne, lookup_nil]
  · rw [lookup_erase hne, if_neg fun hqr => hq (hqr.trans hr)]
    exact h r hr

end
/-! ### Paths that lead to the same entry -/

/-- A path without some of the components that name nothing. --/
inductive Thinner : List Text → List Text → Prop
  | nil : Thinner [] []
  | keep {cs ds : List Text} (c : Text) : Thinner cs ds → Thinner (c :: cs) (c :: ds)
  | drop {cs ds : List Text} {c : Text} : c = [] ∨ c = dot → Thinner cs ds → Thinner (c :: cs) ds

/-- Each `..` leaves a directory, the one of the names before it, that is no link and has none above it. --/
def StepsOut (t : FileTree) (cs : List Text) : Prop :=
  ∀ before after, cs = before ++ dotdot :: after → t.RealDir (before.foldl (pushComponent false) []).reverse

theorem stepsOut_iff {t : FileTree} {cs : List Text} : t.StepsOut cs ↔
    ∀ i < cs.length, cs[i]? = some dotdot → t.RealDir ((cs.take i).foldl (pushComponent false) []).reverse := by
  constructor
  · intro h i hi hc
    obtain ⟨_, heq⟩ := List.getElem?_eq_some_iff.mp hc
    refine h (cs.take i) (cs.drop (i + 1)) ?_
    rw [← heq, List.getElem_cons_drop, List.take_append_drop]
  · rintro h before after rfl
    have hreal := h before.length (by simp) (by simp)
    rwa [List.take_left] at hreal

instance {t : FileTree} {p : List Text} : Decidable (t.RealDir p) :=
  decidable_of_iff (∀ q ∈ p.inits, t.lookup q = some .dir) (by simp only [List.mem_inits, RealDir])

instance {t : FileTree} {cs : List Text} : Decidable (t.StepsOut cs) := decidable_of_iff _ stepsOut_iff.symm

section
variable {t : FileTree} {follow : List Text → List Text → Except String (List Text)} {cur base p rest cs ds : List Text}

theorem Thinner.refl : ∀ cs : List Text, Thinner cs cs
  | [] => .nil
  | c :: cs => .keep c (refl cs)

theorem Thinner.append (h : Thinner cs ds) : ∀ p : List Text, Thinner (p ++ cs) (p ++ ds)
  | [] => h
  | c :: p => .keep c (h.append p)

/-- The names alone, when there is no `..`. --/
theorem Thinner.of_fold : ∀ {cs stack : List Text}, dotdot ∉ cs →
    ∃ ds, cs.foldl (pushComponent false) stack = ds.reverse ++ stack ∧ ∀ rest, Thinner (cs ++ rest) (ds ++ rest)
  | [], _, _ => ⟨[], rfl, Thinner.refl⟩
  | c :: cs, stack, h => by
    obtain ⟨hc, hcs⟩ := not_or.mp (mt List.mem_cons.mpr h)
    by_cases hempty : c = [] ∨ c = dot
    · obtain ⟨ds, hfold, hthin⟩ := @of_fold cs stack hcs
      refine ⟨ds, ?_, fun rest => .drop hempty (hthin rest)⟩
      rw [List.foldl_cons, pushComponent, if_pos hempty, hfold]
    · obtain ⟨ds, hfold, hthin⟩ := @of_fold cs (c :: stack) hcs
      refine ⟨c :: ds, ?_, fun rest => .keep c (hthin rest)⟩
      rw [List.foldl_cons, pushComponent, if_neg hempty, if_neg (Ne.symm hc), hfold, List.reverse_cons, List.append_assoc]
      rfl

/-- What a path leads to, it leads to without the components that name nothing. --/
theorem walk_thinner (hf : ∀ {cur cs ds q}, Thinner cs ds → follow cur cs = .ok q → follow cur ds = .ok q)
    (h : Thinner cs ds) : ∀ {cur : List Text}, t.walk follow cur cs = .ok p → t.walk follow cur ds = .ok p := by
  induction h with
  | nil => exact id
  | drop hc _ ih =>
    intro cur hwalk
    rw [walk, if_pos hc] at hwalk
    exact ih hwalk
  | @keep cs ds c hthin ih =>
    intro cur hwalk
    unfold walk at hwalk ⊢
    by_cases hempty : c = [] ∨ c = dot
    · rw [if_pos hempty] at hwalk ⊢
      exact ih hwalk
    by_cases hdd : c = dotdot
    · rw [if_neg hempty, if_pos hdd] at hwalk ⊢
      exact ih hwalk
    rw [if_neg hempty, if_neg hdd] at hwalk ⊢
    split at hwalk
    · cases hwalk
    · exact ih hwalk
    · split at hwalk
      · rename_i hnil
        subst hnil
        cases hthin
        exact hwalk
      · cases hwalk
    · exact hf (hthin.append _) hwalk

theorem resolveFrom_thinner : ∀ {links : Nat} {cur cs ds q : List Text}, Thinner cs ds →
    t.resolveFrom links cur cs = .ok q → t.resolveFrom links cur ds = .ok q
  | 0, _, _, _, _, h, hq => @walk_thinner t (fun _ _ => .error "ELOOP") _ _ _ nofun h _ hq
  | links + 1, _, _, _, _, h, hq => @walk_thinner t (t.resolveFrom links) _ _ _ resolveFrom_thinner h _ hq

/-- Every resolution is a walk. --/
theorem exists_walk (t : FileTree) : ∀ links : Nat, ∃ follow, t.resolveFrom links = t.walk follow
  | 0 => ⟨_, rfl⟩
  | links + 1 => ⟨t.resolveFrom links, rfl⟩

theorem walk_append_realDir : ∀ {cs cur : List Text}, t.RealDir (cur ++ cs) → (∀ c ∈ cs, IsName c) →
    t.walk follow cur (cs ++ rest) = t.walk follow (cur ++ cs) rest
  | [], cur, _, _ => by rw [List.append_nil, List.nil_append]
  | c :: cs, cur, h, hn => by
    obtain ⟨⟨hne, hdot, hdd, -⟩, hcs⟩ := List.forall_mem_cons.mp hn
    have hsplit : cur ++ c :: cs = (cur ++ [c]) ++ cs := by simp
    have hc : t.lookup (cur ++ [c]) = some .dir := h _ (hsplit ▸ List.prefix_append _ _)
    rw [List.cons_append, walk, if_neg (not_or.mpr ⟨hne, hdot⟩), if_neg hdd, hc, hsplit]
    exact walk_append_realDir (hsplit ▸ h) hcs

theorem walk_dotdots : ∀ p : List Text, t.walk follow (cur ++ p) ((p.map fun _ => dotdot) ++ rest) = t.walk follow cur rest
  | [] => by rw [List.append_nil]; rfl
  | c :: p => by
    have hlast : (cur ++ c :: p).dropLast = cur ++ (c :: p).dropLast := List.dropLast_append_of_ne_nil (List.cons_ne_nil c p)
    have hmap : (p.map fun _ => dotdot) = ((c :: p).dropLast.map fun _ => dotdot) := by
      rw [List.map_const', List.map_const', List.length_dropLast, List.length_cons, Nat.add_sub_cancel]
    rw [List.map_cons, List.cons_append, walk, if_neg (by decide), if_pos rfl, hlast, hmap]
    exact walk_dotdots (c :: p).dropLast
  termination_by p => p.length

/-- The way from one directory to another passes the directory that both are below. --/
theorem walk_relative : ∀ {source target base : List Text}, t.RealDir (base ++ source) → (∀ c ∈ source, IsName c) →
    t.walk follow (base ++ source) (relativeNames source target ++ rest) = t.walk follow base (target ++ rest)
  | [], target, base, _, _ => by simp [relativeNames]
  | c :: source, [], base, _, _ => by
    have hnil : relativeNames (c :: source) [] = (c :: source).map fun _ => dotdot := by simp [relativeNames]
    rw [hnil]
    exact walk_dotdots (c :: source)
  | c :: source, d :: target, base, h, hn => by
    obtain ⟨hc, hsource⟩ := List.forall_mem_cons.mp hn
    rw [relativeNames]
    split
    · rename_i hcd
      subst hcd
      have hsplit : base ++ c :: source = (base ++ [c]) ++ source := by simp
      rw [hsplit] at h ⊢
      have hshared : t.walk follow base ([c] ++ (target ++ rest)) = t.walk follow (base ++ [c]) (target ++ rest) :=
        walk_append_realDir (h.of_prefix (List.prefix_append _ _)) (by simpa using hc)
      rw [walk_relative h hsource, ← hshared]
      rfl
    · rw [List.append_assoc]
      exact walk_dotdots (c :: source)

/-- Components before which each `..` leaves a real directory lead where their names lead, if that is one too. --/
theorem walk_stepsOut : ∀ {cs : List Text}, t.StepsOut cs → (∀ c ∈ cs, '/' ∉ c) →
    t.RealDir (cs.foldl (pushComponent false) []).reverse →
    t.walk follow [] (cs ++ rest) = t.walk follow (cs.foldl (pushComponent false) []).reverse rest := by
  intro cs
  induction cs using List.reverseRecOn generalizing rest with
  | nil =>
    intro _ _ _
    rfl
  | append_singleton cs c ih =>
    intro hsteps hslash hreal
    obtain ⟨hcs, hc⟩ := List.forall_mem_append.mp hslash
    have hbefore : t.StepsOut cs := fun before after hsplit =>
      hsteps before (after ++ [c]) (by rw [hsplit, List.append_assoc, List.cons_append])
    have hnames : ∀ d ∈ cs.foldl (pushComponent false) [], IsName d := foldl_push_names nofun hcs
    rw [List.foldl_append, List.foldl_cons, List.foldl_nil] at hreal ⊢
    rw [List.append_assoc, List.singleton_append]
    by_cases hempty : c = [] ∨ c = dot
    · rw [pushComponent, if_pos hempty] at hreal ⊢
      rw [ih hbefore hcs hreal, walk, if_pos hempty]
    · by_cases hdd : c = dotdot
      · subst hdd
        have hout : t.RealDir (cs.foldl (pushComponent false) []).reverse := hsteps cs [] rfl
        have hpop : (pushComponent false (cs.foldl (pushComponent false) []) dotdot).reverse =
            (cs.foldl (pushComponent false) []).reverse.dropLast := by
          rw [pushComponent, if_neg (by decide), if_pos rfl]
          cases hstack : cs.foldl (pushComponent false) [] with
          | nil => rfl
          | cons top below =>
            have htop := (hnames top (by rw [hstack]; exact List.mem_cons_self)).2.2.1
            rw [popComponent, if_neg htop, List.reverse_cons, List.dropLast_concat]
        rw [hpop, ih hbefore hcs hout, walk, if_neg (by decide), if_pos rfl]
      · rw [pushComponent, if_neg hempty, if_neg hdd, List.reverse_cons] at hreal ⊢
        have hparent : t.RealDir (cs.foldl (pushComponent false) []).reverse := hreal.of_prefix (List.prefix_append _ _)
        have hname : IsName c := hreal.names c (by simp)
        have hstep : t.walk follow (cs.foldl (pushComponent false) []).reverse ([c] ++ rest) =
            t.walk follow ((cs.foldl (pushComponent false) []).reverse ++ [c]) rest :=
          walk_append_realDir hreal (by simpa using hname)
        rw [ih hbefore hcs hparent]
        exact hstep

/-- The last of some components is found from its place: before it, what is no such component. --/
theorem exists_last_dotdot : ∀ cs : List Text, dotdot ∉ cs ∨ ∃ before after, cs = before ++ dotdot :: after ∧ dotdot ∉ after
  | [] => Or.inl List.not_mem_nil
  | c :: cs => by
    rcases exists_last_dotdot cs with h | ⟨before, after, rfl, hafter⟩
    · by_cases hc : c = dotdot
      · exact Or.inr ⟨[], cs, by rw [hc]; rfl, h⟩
      · exact Or.inl (by simp [Ne.symm hc, h])
    · exact Or.inr ⟨c :: before, after, rfl, hafter⟩

/-- A path whose every `..` leaves a real directory leads to what its names lead to. --/
theorem resolveFrom_stepsOut {links : Nat} {q : List Text} (hsteps : t.StepsOut cs) (hslash : ∀ c ∈ cs, '/' ∉ c)
    (h : t.resolveFrom links [] (cs ++ rest) = .ok q) :
    t.resolveFrom links [] ((cs.foldl (pushComponent false) []).reverse ++ rest) = .ok q := by
  obtain ⟨follow, hwalk⟩ := t.exists_walk links
  -- the real directory after the last `..`, and the components behind it
  obtain ⟨before, after, hreal, hafter, hcs, hfrom⟩ : ∃ before after : List Text,
      t.RealDir (before.foldl (pushComponent false) []).reverse ∧ dotdot ∉ after ∧ cs = before ++ after ∧
        t.walk follow [] (cs ++ rest) = t.walk follow (before.foldl (pushComponent false) []).reverse (after ++ rest) := by
    rcases exists_last_dotdot cs with hnone | ⟨before, after, rfl, hafter⟩
    · exact ⟨[], cs, realDir_nil, hnone, rfl, rfl⟩
    · have hbefore : t.RealDir (before.foldl (pushComponent false) []).reverse := hsteps before after rfl
      have hsteps' : t.StepsOut (before ++ [dotdot]) := by
        intro b a hsplit
        exact hsteps b (a ++ after) (by rw [List.append_cons, hsplit, List.append_assoc, List.cons_append])
      have hslash' : ∀ c ∈ before ++ [dotdot], '/' ∉ c := fun c hc => hslash c (by
        rw [List.append_cons]
        exact List.mem_append_left _ hc)
      have hnames : ∀ d ∈ before.foldl (pushComponent false) [], IsName d :=
        foldl_push_names nofun fun c hc => hslash c (List.mem_append_left _ hc)
      have hparent : t.RealDir ((before ++ [dotdot]).foldl (pushComponent false) []).reverse := by
        rw [List.foldl_append, List.foldl_cons, List.foldl_nil, pushComponent, if_neg (by decide), if_pos rfl]
        cases hstack : before.foldl (pushComponent false) [] with
        | nil => exact realDir_nil
        | cons top below =>
          have htop := (hnames top (by rw [hstack]; exact List.mem_cons_self)).2.2.1
          rw [hstack, List.reverse_cons] at hbefore
          rw [popComponent, if_neg htop]
          exact hbefore.of_prefix (List.prefix_append _ _)
      refine ⟨before ++ [dotdot], after, hparent, hafter, by simp, ?_⟩
      rw [List.append_cons, List.append_assoc]
      exact walk_stepsOut hsteps' hslash' hparent
  obtain ⟨names, hfold, hthin⟩ := @Thinner.of_fold after (before.foldl (pushComponent false) []) hafter
  have hthere : t.resolveFrom links (before.foldl (pushComponent false) []).reverse (after ++ rest) = .ok q := by
    rw [hwalk] at h ⊢
    rwa [← hfrom]
  have hnames := resolveFrom_thinner (hthin rest) hthere
  rw [hwalk] at hnames ⊢
  rw [hcs, List.foldl_append, hfold, List.reverse_append, List.reverse_reverse, List.append_assoc,
    walk_append_realDir (by simpa using hreal) (by simpa using hreal.names)]
  exact hnames

end
end FileTree
