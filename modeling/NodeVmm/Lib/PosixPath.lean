import NodeVmm.Lib.Text

/-! Paths as texts: the functions of `path.posix` of Node.js, and the names that a normalized path is made of. -/

namespace PosixPath

def dot : Text := ['.']
def dotdot : Text := ['.', '.']

def isAbsolute (s : Text) : Bool := s.head? = some '/'

/-- A name that an entry of a directory can have. --/
def IsName (c : Text) : Prop := c ≠ [] ∧ c ≠ dot ∧ c ≠ dotdot ∧ '/' ∉ c

instance {c : Text} : Decidable (IsName c) := inferInstanceAs (Decidable (_ ∧ _))

/-- `..` after these components, which are in reverse. --/
def popComponent (allowAboveRoot : Bool) : List Text → List Text
  | [] => if allowAboveRoot then [dotdot] else []
  | top :: rest => if top = dotdot then dotdot :: top :: rest else rest

/-- One component of `normalizeString`. --/
def pushComponent (allowAboveRoot : Bool) (stack : List Text) (c : Text) : List Text :=
  if c = [] ∨ c = dot then stack
  else if c = dotdot then popComponent allowAboveRoot stack
  else c :: stack

def normalizeString (allowAboveRoot : Bool) (s : Text) : List Text :=
  ((Text.split '/' s).foldl (pushComponent allowAboveRoot) []).reverse

def normalize (s : Text) : Text :=
  if s = [] then dot
  else
    let absolute := isAbsolute s
    let trailingSeparator : Bool := s.getLast? = some '/'
    let body := Text.join '/' (normalizeString (!absolute) s)
    if body = [] then (if absolute then ['/'] else if trailingSeparator then ['.', '/'] else dot)
    else (if absolute then ['/'] else []) ++ body ++ (if trailingSeparator then ['/'] else [])

def join (a b : Text) : Text :=
  normalize (Text.join '/' ([a, b].filter (· ≠ [])))

/-- The text of the absolute path of these names. --/
def ofNames (p : List Text) : Text := '/' :: Text.join '/' p

/-- From the right, up to the first absolute segment. --/
def resolveSegments : List Text → Text → Text
  | [], acc => acc
  | p :: rest, acc =>
    if p = [] then resolveSegments rest acc
    else if isAbsolute p then p ++ '/' :: acc
    else resolveSegments rest (p ++ '/' :: acc)

/-- `path.resolve` in an absolute working directory. --/
def resolve (cwd : Text) (segments : List Text) : Text :=
  '/' :: Text.join '/' (normalizeString false (resolveSegments (segments.reverse ++ [cwd]) []))

/-- The names that the segments are resolved to. --/
def resolveNames (cwd : Text) (segments : List Text) : List Text :=
  normalizeString false (resolveSegments (segments.reverse ++ [cwd]) [])

/-- `path.posix.relative` of absolute paths: up from the one to what they share, and down to the other. --/
def relativeNames : List Text → List Text → List Text
  | c :: source, d :: target => if c = d then relativeNames source target else (c :: source).map (fun _ => dotdot) ++ d :: target
  | source, target => source.map (fun _ => dotdot) ++ target

def relative (source target : Text) : Text :=
  Text.join '/' (relativeNames (normalizeString false source) (normalizeString false target))

/-- The path is that of the directory or of something below it. --/
def Within (cwd dir path : Text) : Prop :=
  ∃ names : List Text, (∀ c ∈ names, IsName c) ∧ path = ofNames (resolveNames cwd [dir] ++ names)

/-- A text without the separators at its end. --/
def stripEnd (s : Text) : Text := (s.reverse.dropWhile (· = '/')).reverse

def basename (s : Text) : Text := ((stripEnd s).reverse.takeWhile (· ≠ '/')).reverse

def dirname (s : Text) : Text :=
  let before := ((stripEnd s).reverse.dropWhile (· ≠ '/')).reverse
  if before.length ≤ 1 then (if isAbsolute s then ['/'] else dot)
  else if isAbsolute s && before.length = 2 then ['/', '/']
  else before.dropLast

/-! ### Names -/

section
variable {p : List Text} {s c : Text} {above : Bool}

theorem join_ne_nil {rest : List Text} (hc : c ≠ []) : Text.join '/' (c :: rest) ≠ [] := by
  cases rest with
  | nil => simpa [Text.join] using hc
  | cons d rest =>
    rw [Text.join_cons_cons]
    exact List.append_ne_nil_of_left_ne_nil hc _

theorem split_join (hp : ∀ c ∈ p, IsName c) (hne : p ≠ []) : Text.split '/' (Text.join '/' p) = p :=
  List.splitOn_intercalate '/' (fun c hc => (hp c hc).2.2.2) hne

theorem slash_not_mem_split : ∀ {s : Text}, ∀ c ∈ Text.split '/' s, '/' ∉ c
  | [], c, hc => by
    rw [List.mem_singleton.mp hc]
    exact List.not_mem_nil
  | x :: s, c, hc => by
    unfold Text.split at hc
    rw [List.splitOn_cons_eq_if_modifyHead] at hc
    split at hc
    · rcases List.mem_cons.mp hc with rfl | hc
      · exact List.not_mem_nil
      · exact slash_not_mem_split c hc
    · rename_i hx
      rcases hs : List.splitOn '/' s with _ | ⟨d, rest⟩
      · exact absurd hs (List.splitOn_ne_nil _ _)
      · rw [hs, List.modifyHead_cons] at hc
        rcases List.mem_cons.mp hc with rfl | hc
        · rintro (_ | ⟨_, hmem⟩)
          · exact hx (beq_self_eq_true '/')
          · exact slash_not_mem_split d (hs.symm ▸ List.mem_cons_self : d ∈ List.splitOn '/' s) hmem
        · exact slash_not_mem_split c (hs.symm ▸ List.mem_cons_of_mem _ hc : c ∈ List.splitOn '/' s)

theorem popComponent_names {stack : List Text} (hs : ∀ c ∈ stack, IsName c) : ∀ c ∈ popComponent false stack, IsName c := by
  cases stack with
  | nil => exact hs
  | cons top rest =>
    rw [popComponent, if_neg (hs top List.mem_cons_self).2.2.1]
    exact fun c hc => hs c (List.mem_cons_of_mem _ hc)

theorem pushComponent_names {stack : List Text} (hs : ∀ c ∈ stack, IsName c) (hc : '/' ∉ c) :
    ∀ d ∈ pushComponent false stack c, IsName d := by
  unfold pushComponent
  split
  · exact hs
  · rename_i hx
    split
    · exact popComponent_names hs
    · rename_i hdd
      rw [not_or] at hx
      rintro d (_ | ⟨_, hd⟩)
      · exact ⟨hx.1, hx.2, hdd, hc⟩
      · exact hs d hd

/-- The components that stay below the root are names. --/
theorem foldl_push_names : ∀ {cs stack : List Text}, (∀ c ∈ stack, IsName c) → (∀ c ∈ cs, '/' ∉ c) →
    ∀ c ∈ cs.foldl (pushComponent false) stack, IsName c
  | [], _, hs, _ => hs
  | x :: cs, stack, hs, hcs => by
    have hpush := pushComponent_names hs (hcs x List.mem_cons_self)
    exact @foldl_push_names cs _ hpush fun c hc => hcs c (List.mem_cons_of_mem _ hc)

theorem normalizeString_names (s : Text) : ∀ c ∈ normalizeString false s, IsName c := fun c hc =>
  foldl_push_names (fun _ h => absurd h List.not_mem_nil) slash_not_mem_split c (List.mem_reverse.mp hc)

theorem foldl_push_of_names : ∀ {cs stack : List Text}, (∀ c ∈ cs, IsName c) →
    cs.foldl (pushComponent above) stack = cs.reverse ++ stack
  | [], _, _ => rfl
  | x :: cs, stack, h => by
    obtain ⟨hne, hdot, hdd, -⟩ := h x List.mem_cons_self
    have hpush : pushComponent above stack x = x :: stack := by
      rw [pushComponent, if_neg (not_or.mpr ⟨hne, hdot⟩), if_neg hdd]
    rw [List.foldl_cons, hpush, foldl_push_of_names fun c hc => h c (List.mem_cons_of_mem _ hc), List.reverse_cons,
      List.append_assoc]
    rfl

theorem slash_not_mem_basename (s : Text) : '/' ∉ basename s := fun h => by
  have hall := List.all_eq_true.mp List.all_takeWhile _ (List.mem_reverse.mp h)
  exact absurd hall (by decide)

theorem isAbsolute_ofNames : isAbsolute (ofNames p) = true := rfl

theorem split_ofNames (hp : ∀ c ∈ p, IsName c) : Text.split '/' (ofNames p) = [] :: if p = [] then [[]] else p := by
  have h := List.splitOn_append_cons_self (a := '/') [] (Text.join '/' p)
  rw [List.nil_append] at h
  refine h.trans ?_
  split
  · rename_i hnil
    rw [hnil]
    rfl
  · rename_i hne
    exact congrArg ([] :: ·) (split_join hp hne)

theorem foldl_push_ofNames {b : Bool} (hp : ∀ c ∈ p, IsName c) :
    (Text.split '/' (ofNames p)).foldl (pushComponent b) [] = p.reverse := by
  rw [split_ofNames hp, List.foldl_cons, show pushComponent b [] [] = [] from rfl]
  split
  · rename_i hnil
    rw [hnil]
    rfl
  · rw [foldl_push_of_names hp, List.append_nil]

theorem ofNames_inj {q : List Text} (hp : ∀ c ∈ p, IsName c) (hq : ∀ c ∈ q, IsName c) (h : ofNames p = ofNames q) :
    p = q := by
  have hrev := foldl_push_ofNames (b := false) hp
  rw [h, foldl_push_ofNames hq] at hrev
  exact List.reverse_injective hrev.symm

theorem normalize_of_absolute {cs : List Text} (habs : isAbsolute s = true) (hlast : s.getLast? ≠ some '/')
    (hcs : normalizeString false s = cs) : normalize s = ofNames cs := by
  have hne : s ≠ [] := by
    rintro rfl
    cases habs
  unfold normalize
  simp only [if_neg hne, habs, Bool.not_true, hcs, hlast, decide_false]
  split
  · rename_i hbody
    rw [ofNames, hbody]
    rfl
  · simp [ofNames]

/-- The join of an absolute path and one more component. --/
theorem join_ofNames (hp : ∀ c ∈ p, IsName c) (hs : '/' ∉ s) (hne : s ≠ []) :
    join (ofNames p) s = ofNames (pushComponent false p.reverse s).reverse := by
  have hjoin : Text.join '/' ([ofNames p, s].filter (· ≠ [])) = ofNames p ++ '/' :: s := by
    simp [hne, ofNames, Text.join]
  rw [join, hjoin]
  refine normalize_of_absolute rfl ?_ ?_
  · rw [List.getLast?_append_of_ne_nil _ (List.cons_ne_nil _ _), List.getLast?_cons_of_ne_nil hne]
    intro hlast
    exact hs (List.mem_of_getLast? hlast)
  · have hsplit : Text.split '/' (ofNames p ++ '/' :: s) = Text.split '/' (ofNames p) ++ [s] := by
      refine (List.splitOn_append_cons_self (ofNames p) s).trans ?_
      rw [List.splitOn_eq_singleton hs]
      rfl
    rw [normalizeString, hsplit, List.foldl_append, foldl_push_ofNames hp]
    rfl

/-- The join of any absolute path and a name. --/
theorem join_of_absolute (habs : isAbsolute s = true) (hc : IsName c) :
    join s c = ofNames (normalizeString false s ++ [c]) := by
  obtain ⟨hne, hdot, hdd, hslash⟩ := hc
  have hsne : s ≠ [] := by
    rintro rfl
    cases habs
  have hjoin : Text.join '/' ([s, c].filter (· ≠ [])) = s ++ '/' :: c := by
    simp [hne, hsne, Text.join]
  rw [join, hjoin]
  refine normalize_of_absolute ?_ ?_ ?_
  · cases s with
    | nil => cases habs
    | cons x s => exact habs
  · rw [List.getLast?_append_of_ne_nil _ (List.cons_ne_nil _ _), List.getLast?_cons_of_ne_nil hne]
    exact fun hlast => hslash (List.mem_of_getLast? hlast)
  · have hsplit : Text.split '/' (s ++ '/' :: c) = Text.split '/' s ++ [c] := by
      refine (List.splitOn_append_cons_self s c).trans ?_
      rw [List.splitOn_eq_singleton hslash]
      rfl
    rw [normalizeString, hsplit, List.foldl_append, List.foldl_cons, List.foldl_nil, pushComponent,
      if_neg (not_or.mpr ⟨hne, hdot⟩), if_neg hdd, List.reverse_cons]
    rfl

theorem normalizeString_ofNames (hp : ∀ c ∈ p, IsName c) : normalizeString false (ofNames p) = p := by
  rw [normalizeString, foldl_push_ofNames hp, List.reverse_reverse]

theorem join_ofNames_name (hp : ∀ c ∈ p, IsName c) (hc : IsName c) : join (ofNames p) c = ofNames (p ++ [c]) := by
  obtain ⟨hne, hdot, hdd, hslash⟩ := hc
  rw [join_ofNames hp hslash hne, pushComponent, if_neg (not_or.mpr ⟨hne, hdot⟩), if_neg hdd, List.reverse_cons,
    List.reverse_reverse]

theorem join_ofNames_dotdot (hp : ∀ c ∈ p, IsName c) : join (ofNames p) dotdot = ofNames p.dropLast := by
  rw [join_ofNames hp (by decide) (by decide), pushComponent, if_neg (by decide), if_pos rfl]
  rcases List.eq_nil_or_concat' p with rfl | ⟨init, c, rfl⟩
  · rfl
  · have hc := (hp c (by simp)).2.2.1
    rw [List.reverse_append, List.dropLast_concat]
    simp [popComponent, hc]

theorem join_ofNames_dot (hp : ∀ c ∈ p, IsName c) : join (ofNames p) dot = ofNames p := by
  rw [join_ofNames hp (by decide) (by decide), pushComponent, if_pos (Or.inr rfl), List.reverse_reverse]

theorem ofNames_eq_flatMap : ∀ {p : List Text}, p ≠ [] → ofNames p = p.flatMap ('/' :: ·)
  | [], h => absurd rfl h
  | [c], _ => by simp [ofNames, Text.join]
  | c :: d :: rest, _ => by
    have ih := ofNames_eq_flatMap (p := d :: rest) (List.cons_ne_nil _ _)
    rw [List.flatMap_cons, ← ih, ofNames, Text.join_cons_cons]
    rfl

theorem getLast?_ofNames (hp : ∀ c ∈ p, IsName c) (hne : p ≠ []) : (ofNames p).getLast? ≠ some '/' := by
  rcases List.eq_nil_or_concat' p with rfl | ⟨init, c, rfl⟩
  · exact absurd rfl hne
  · obtain ⟨hcne, -, -, hslash⟩ := hp c (by simp)
    rw [ofNames_eq_flatMap hne, List.flatMap_append, List.flatMap_singleton,
      List.getLast?_append_of_ne_nil _ (List.cons_ne_nil _ _), List.getLast?_cons_of_ne_nil hcne]
    exact fun hlast => hslash (List.mem_of_getLast? hlast)

theorem join_ofNames_nil (hp : ∀ c ∈ p, IsName c) : join (ofNames p) [] = ofNames p := by
  have hjoin : Text.join '/' ([ofNames p, []].filter (· ≠ [])) = ofNames p := by
    simp [ofNames, Text.join]
  rw [join, hjoin]
  by_cases hne : p = []
  · rw [hne]
    rfl
  · refine normalize_of_absolute rfl (getLast?_ofNames hp hne) ?_
    rw [normalizeString, foldl_push_ofNames hp, List.reverse_reverse]

/-- Two texts without separators that are followed by separators alike. --/
theorem eq_of_prefix_slash : ∀ {c d : Text} {r u : Text}, '/' ∉ c → '/' ∉ d → (∀ x ∈ u.head?, x = '/') →
    c ++ '/' :: r <+: d ++ u → c = d ∧ '/' :: r <+: u
  | [], [], _, _, _, _, _, h => ⟨rfl, h⟩
  | [], y :: d, r, u, _, hd, _, h => by
    obtain ⟨rfl, -⟩ := List.cons_prefix_cons.mp h
    exact absurd List.mem_cons_self hd
  | x :: c, [], r, u, hc, _, hu, h => by
    rcases u with _ | ⟨y, u⟩
    · cases List.prefix_nil.mp h
    · obtain ⟨rfl, -⟩ := List.cons_prefix_cons.mp h
      rw [hu x rfl] at hc
      exact absurd List.mem_cons_self hc
  | x :: c, y :: d, r, u, hc, hd, hu, h => by
    obtain ⟨rfl, hrest⟩ := List.cons_prefix_cons.mp h
    obtain ⟨rfl, hru⟩ := eq_of_prefix_slash (fun hm => hc (List.mem_cons_of_mem _ hm))
      (fun hm => hd (List.mem_cons_of_mem _ hm)) hu hrest
    exact ⟨rfl, hru⟩

theorem head?_flatMap_slash : ∀ x ∈ (p.flatMap ('/' :: ·)).head?, x = '/' := by
  cases p with
  | nil => exact fun _ hx => nomatch hx
  | cons c rest =>
    intro x hx
    exact (Option.some.inj hx).symm

theorem prefix_of_flatMap : ∀ {p q : List Text}, (∀ c ∈ p, IsName c) → (∀ c ∈ q, IsName c) →
    p.flatMap ('/' :: ·) ++ ['/'] <+: q.flatMap ('/' :: ·) → p <+: q ∧ p ≠ q
  | [], [], _, _, h => by cases List.prefix_nil.mp h
  | [], _ :: _, _, _, _ => ⟨List.nil_prefix, nofun⟩
  | _ :: _, [], _, _, h => by cases List.prefix_nil.mp h
  | c :: p, d :: q, hp, hq, h => by
    rw [List.flatMap_cons, List.flatMap_cons, List.append_assoc, List.cons_append, List.cons_append] at h
    obtain ⟨-, hrest⟩ := List.cons_prefix_cons.mp h
    -- what follows `c` starts with a separator
    obtain ⟨r, hr⟩ : ∃ r, p.flatMap ('/' :: ·) ++ ['/'] = '/' :: r := by
      cases p with
      | nil => exact ⟨[], rfl⟩
      | cons e p => exact ⟨_, rfl⟩
    rw [hr] at hrest
    obtain ⟨rfl, hru⟩ := eq_of_prefix_slash (hp c List.mem_cons_self).2.2.2 (hq d List.mem_cons_self).2.2.2
      head?_flatMap_slash hrest
    obtain ⟨hpre, hne⟩ := prefix_of_flatMap (fun e he => hp e (List.mem_cons_of_mem _ he))
      (fun e he => hq e (List.mem_cons_of_mem _ he)) (hr ▸ hru)
    exact ⟨List.cons_prefix_cons.mpr ⟨rfl, hpre⟩, fun heq => hne (List.cons.inj heq).2⟩

/-- A text that continues an absolute path after a separator is the text of a path below it. --/
theorem prefix_of_ofNames {q : List Text} (hp : ∀ c ∈ p, IsName c) (hq : ∀ c ∈ q, IsName c)
    (h : ofNames p ++ ['/'] <+: ofNames q) : p <+: q ∧ p ≠ q := by
  have hqne : q ≠ [] := by
    rintro rfl
    have hlen := h.length_le
    simp [ofNames, Text.join] at hlen
  by_cases hpne : p = []
  · subst hpne
    exact ⟨List.nil_prefix, hqne.symm⟩
  · rw [ofNames_eq_flatMap hpne, ofNames_eq_flatMap hqne] at h
    exact prefix_of_flatMap hp hq h

theorem stripEnd_ofNames {tail : Text} (hp : ∀ c ∈ p, IsName c) (hne : p ≠ []) (htail : tail = [] ∨ tail = ['/']) :
    stripEnd (ofNames p ++ tail) = ofNames p := by
  have hlast : (ofNames p).reverse.dropWhile (· = '/') = (ofNames p).reverse := by
    have hhead := getLast?_ofNames hp hne
    rw [← List.head?_reverse] at hhead
    rcases hrev : (ofNames p).reverse with _ | ⟨x, rest⟩
    · rfl
    · rw [hrev] at hhead
      have hx : x ≠ '/' := fun h => hhead (congrArg some h)
      simp [hx]
  rcases htail with rfl | rfl
  · rw [List.append_nil, stripEnd, hlast, List.reverse_reverse]
  · have hdrop : (ofNames p ++ ['/']).reverse.dropWhile (· = '/') = (ofNames p).reverse.dropWhile (· = '/') := by simp
    rw [stripEnd, hdrop, hlast, List.reverse_reverse]

/-! ### Resolution -/

theorem resolve_eq (cwd : Text) (segments : List Text) : resolve cwd segments = ofNames (resolveNames cwd segments) := rfl

theorem resolveNames_names (cwd : Text) (segments : List Text) : ∀ c ∈ resolveNames cwd segments, IsName c :=
  normalizeString_names _

/-- What the check of a resolved path says. --/
theorem within_of_check {cwd dir path : Text} {q : List Text} (hq : ∀ c ∈ q, IsName c) (hpath : path = ofNames q)
    (h : path = resolve cwd [dir] ∨ Text.startsWith path (resolve cwd [dir] ++ ['/']) = true) : Within cwd dir path := by
  have hroot := resolveNames_names cwd [dir]
  rcases h with h | h
  · exact ⟨[], nofun, by rw [List.append_nil, h, resolve_eq]⟩
  · rw [hpath, resolve_eq] at h
    obtain ⟨⟨names, rfl⟩, -⟩ := prefix_of_ofNames hroot hq (List.isPrefixOf_iff_prefix.mp h)
    exact ⟨names, fun c hc => hq c (List.mem_append_right _ hc), hpath⟩

theorem within_ofNames {cwd dir : Text} {q : List Text} (hq : ∀ c ∈ q, IsName c) :
    Within cwd dir (ofNames q) ↔ resolveNames cwd [dir] <+: q := by
  constructor
  · rintro ⟨names, hnames, heq⟩
    have happend : ∀ c ∈ resolveNames cwd [dir] ++ names, IsName c :=
      List.forall_mem_append.mpr ⟨resolveNames_names cwd [dir], hnames⟩
    exact ⟨names, (ofNames_inj hq happend heq).symm⟩
  · rintro ⟨names, rfl⟩
    exact ⟨names, fun c hc => hq c (List.mem_append_right _ hc), rfl⟩

theorem resolveSegments_append : ∀ (segments : List Text) (acc : Text),
    resolveSegments segments acc = resolveSegments segments [] ++ acc
  | [], acc => rfl
  | p :: rest, acc => by
    unfold resolveSegments
    split_ifs
    · exact resolveSegments_append rest acc
    · simp
    · rw [resolveSegments_append rest (p ++ '/' :: acc), resolveSegments_append rest (p ++ ['/'])]
      simp

/-- What is resolved so far is nothing, or ends with a separator. --/
theorem resolveSegments_closed : ∀ segments : List Text,
    resolveSegments segments [] = [] ∨ ∃ s, resolveSegments segments [] = s ++ ['/']
  | [] => Or.inl rfl
  | p :: rest => by
    unfold resolveSegments
    split_ifs
    · exact resolveSegments_closed rest
    · exact Or.inr ⟨p, rfl⟩
    · rw [resolveSegments_append]
      exact Or.inr ⟨resolveSegments rest [] ++ p, by simp⟩

theorem split_append_slash (s t : Text) : Text.split '/' (s ++ '/' :: t) = Text.split '/' s ++ Text.split '/' t :=
  List.splitOn_append_cons_self s t

theorem push_nil (stack : List Text) : pushComponent above stack [] = stack := if_pos (Or.inl rfl)

/-- Components after a closed text. --/
theorem foldl_push_append {t : Text} (hs : s = [] ∨ ∃ r, s = r ++ ['/']) :
    (Text.split '/' (s ++ t)).foldl (pushComponent above) [] =
      (Text.split '/' t).foldl (pushComponent above) ((Text.split '/' s).foldl (pushComponent above) []) := by
  rcases hs with rfl | ⟨r, rfl⟩
  · rfl
  · have hclosed : Text.split '/' (r ++ ['/']) = Text.split '/' r ++ [[]] := split_append_slash r []
    rw [List.append_assoc, List.singleton_append, split_append_slash, hclosed, List.foldl_append, List.foldl_append,
      List.foldl_cons, List.foldl_nil, push_nil]

/-- A relative path is walked from the directory that it is resolved in. --/
theorem resolveNames_snoc {cwd dir t : Text} (ht : isAbsolute t = false) : resolveNames cwd [dir, t] =
    ((Text.split '/' t).foldl (pushComponent false) (resolveNames cwd [dir]).reverse).reverse := by
  have hdir : (resolveNames cwd [dir]).reverse =
      (Text.split '/' (resolveSegments [dir, cwd] [])).foldl (pushComponent false) [] := List.reverse_reverse _
  have hsegments : resolveSegments [t, dir, cwd] [] = resolveSegments [dir, cwd] [] ++ (if t = [] then [] else t ++ ['/']) := by
    rw [resolveSegments]
    split_ifs with hnil habs
    · rw [List.append_nil]
    · rw [ht] at habs
      cases habs
    · exact resolveSegments_append _ _
  rw [hdir]
  refine congrArg List.reverse ?_
  show (Text.split '/' (resolveSegments [t, dir, cwd] [])).foldl (pushComponent false) [] = _
  rw [hsegments, foldl_push_append (resolveSegments_closed _)]
  split_ifs with hnil
  · rw [hnil]
  · have hclosed : Text.split '/' (t ++ ['/']) = Text.split '/' t ++ [[]] := split_append_slash t []
    rw [hclosed, List.foldl_append, List.foldl_cons, List.foldl_nil, push_nil]

/-- An absolute path is resolved on its own. --/
theorem resolveNames_absolute {cwd t : Text} (ht : isAbsolute t = true) : resolveNames cwd [t] = normalizeString false t := by
  have hne : t ≠ [] := by
    rintro rfl
    cases ht
  have hclosed : Text.split '/' (t ++ ['/']) = Text.split '/' t ++ [[]] := split_append_slash t []
  have hsegments : resolveSegments [t, cwd] [] = t ++ ['/'] := by
    rw [resolveSegments, if_neg hne, if_pos ht]
  refine congrArg List.reverse ?_
  show (Text.split '/' (resolveSegments [t, cwd] [])).foldl (pushComponent false) [] = _
  rw [hsegments, hclosed, List.foldl_append, List.foldl_cons, List.foldl_nil, push_nil]

/-- Components without separators, with or without a separator at the end. --/
theorem foldl_push_join {stack : List Text} {tail : Text} (hp : ∀ c ∈ p, '/' ∉ c) (hne : p ≠ [])
    (htail : tail = [] ∨ tail = ['/']) :
    (Text.split '/' (Text.join '/' p ++ tail)).foldl (pushComponent above) stack = p.foldl (pushComponent above) stack := by
  have hsplit : Text.split '/' (Text.join '/' p) = p := List.splitOn_intercalate '/' hp hne
  rcases htail with rfl | rfl
  · rw [List.append_nil, hsplit]
  · have hclosed := split_append_slash (Text.join '/' p) []
    have hnil : Text.split '/' [] = [[]] := rfl
    rw [hclosed, hsplit, hnil, List.foldl_append, List.foldl_cons, List.foldl_nil, push_nil]

theorem isAbsolute_join {c : Text} {tail : Text} (hc : c ≠ []) (hslash : '/' ∉ c) :
    isAbsolute (Text.join '/' (c :: p) ++ tail) = false := by
  obtain ⟨x, c', rfl⟩ := List.exists_cons_of_ne_nil hc
  have hx : x ≠ '/' := fun h => hslash (h ▸ List.mem_cons_self)
  cases p with
  | nil => simp [Text.join, isAbsolute, hx]
  | cons d rest =>
    rw [Text.join_cons_cons]
    simp [isAbsolute, hx]

/-- Names are joined to the directory that they are resolved in. --/
theorem resolveNames_join {cwd dir tail : Text} (hp : ∀ c ∈ p, IsName c) (hne : p ≠ []) (htail : tail = [] ∨ tail = ['/']) :
    resolveNames cwd [dir, Text.join '/' p ++ tail] = resolveNames cwd [dir] ++ p := by
  obtain ⟨c, rest, rfl⟩ := List.exists_cons_of_ne_nil hne
  have hc := hp c List.mem_cons_self
  have hslash : ∀ d ∈ c :: rest, '/' ∉ d := fun d hd => (hp d hd).2.2.2
  rw [resolveNames_snoc (isAbsolute_join hc.1 hc.2.2.2), foldl_push_join hslash hne htail, foldl_push_of_names hp,
    List.reverse_append, List.reverse_reverse, List.reverse_reverse]

/-! ### Relative paths -/

theorem foldl_push_dotdots : ∀ {q r : List Text}, (∀ c ∈ q, IsName c) →
    (q.map fun _ => dotdot).foldl (pushComponent false) (q.reverse ++ r) = r
  | [], _, _ => rfl
  | c :: q, r, h => by
    obtain ⟨hc, hq⟩ := List.forall_mem_cons.mp h
    have hmap : ((c :: q).map fun _ => dotdot) = (q.map fun _ => dotdot) ++ [dotdot] := by
      rw [List.map_const', List.map_const', ← List.replicate_succ', List.length_cons]
    have hpop : pushComponent false (c :: r) dotdot = r := by
      rw [pushComponent, if_neg (by decide), if_pos rfl, popComponent, if_neg hc.2.2.1]
    rw [hmap, List.foldl_append, List.reverse_cons, List.append_assoc, foldl_push_dotdots hq]
    exact hpop

/-- The relative path leads from the one path to the other. --/
theorem foldl_push_relative : ∀ {source target r : List Text}, (∀ c ∈ source, IsName c) → (∀ c ∈ target, IsName c) →
    (relativeNames source target).foldl (pushComponent false) (source.reverse ++ r) = target.reverse ++ r
  | [], target, r, _, ht => by
    have hnil : relativeNames [] target = target := by simp [relativeNames]
    rw [hnil, foldl_push_of_names ht]
    rfl
  | c :: source, [], r, hs, _ => by
    have hnil : relativeNames (c :: source) [] = (c :: source).map fun _ => dotdot := by simp [relativeNames]
    rw [hnil, foldl_push_dotdots hs]
    rfl
  | c :: source, d :: target, r, hs, ht => by
    rw [relativeNames]
    split
    · rename_i hcd
      subst hcd
      simp only [List.reverse_cons, List.append_assoc]
      exact foldl_push_relative (List.forall_mem_cons.mp hs).2 (List.forall_mem_cons.mp ht).2
    · rw [List.foldl_append, foldl_push_dotdots hs, foldl_push_of_names ht]

theorem mem_relativeNames : ∀ {source target : List Text}, (∀ c ∈ target, IsName c) →
    ∀ c ∈ relativeNames source target, '/' ∉ c ∧ c ≠ []
  | [], target, ht, c, hc => by
    have hnil : relativeNames [] target = target := by simp [relativeNames]
    rw [hnil] at hc
    exact ⟨(ht c hc).2.2.2, (ht c hc).1⟩
  | a :: source, [], _, c, hc => by
    have hnil : relativeNames (a :: source) [] = (a :: source).map fun _ => dotdot := by simp [relativeNames]
    rw [hnil] at hc
    obtain ⟨-, -, rfl⟩ := List.mem_map.mp hc
    decide
  | a :: source, d :: target, ht, c, hc => by
    rw [relativeNames] at hc
    split at hc
    · exact mem_relativeNames (List.forall_mem_cons.mp ht).2 c hc
    · rcases List.mem_append.mp hc with hc | hc
      · obtain ⟨-, -, rfl⟩ := List.mem_map.mp hc
        decide
      · exact ⟨(ht c hc).2.2.2, (ht c hc).1⟩

/-- As often up as there are names, at most, and then names. --/
theorem relativeNames_shape : ∀ {source target : List Text}, (∀ c ∈ target, IsName c) →
    ∃ k rest, k ≤ source.length ∧ relativeNames source target = List.replicate k dotdot ++ rest ∧ ∀ c ∈ rest, IsName c
  | [], target, ht => ⟨0, target, le_rfl, by simp [relativeNames], ht⟩
  | c :: source, [], _ => ⟨source.length + 1, [], le_rfl, by simp [relativeNames, List.map_const', List.replicate_succ], nofun⟩
  | c :: source, d :: target, ht => by
    rw [relativeNames]
    split
    · obtain ⟨k, rest, hk, hshape, hrest⟩ := @relativeNames_shape source target (List.forall_mem_cons.mp ht).2
      exact ⟨k, rest, Nat.le_succ_of_le hk, hshape, hrest⟩
    · exact ⟨source.length + 1, d :: target, le_rfl, by rw [List.map_const', List.length_cons], ht⟩

theorem foldl_replicate_dotdot : ∀ {k : Nat} {stack : List Text}, k ≤ stack.length → (∀ c ∈ stack, IsName c) →
    (List.replicate k dotdot).foldl (pushComponent above) stack = stack.drop k
  | 0, _, _, _ => rfl
  | k + 1, [], hk, _ => absurd hk (Nat.not_succ_le_zero k)
  | k + 1, top :: stack, hk, hs => by
    obtain ⟨htop, hstack⟩ := List.forall_mem_cons.mp hs
    have hpop : pushComponent above (top :: stack) dotdot = stack := by
      rw [pushComponent, if_neg (by decide), if_pos rfl, popComponent, if_neg htop.2.2.1]
    rw [List.replicate_succ, List.foldl_cons, hpop, List.drop_succ_cons]
    exact foldl_replicate_dotdot (Nat.le_of_succ_le_succ hk) hstack

/-- On the way from the one path to the other there is never a step above the root. --/
theorem foldl_push_climb {source target before : List Text} (hs : ∀ c ∈ source, IsName c) (ht : ∀ c ∈ target, IsName c)
    (hb : before <+: relativeNames source target) : ∀ c ∈ before.foldl (pushComponent above) source.reverse, IsName c := by
  obtain ⟨k, rest, hk, hshape, hrest⟩ := @relativeNames_shape source target ht
  have hsource : ∀ c ∈ source.reverse, IsName c := fun c hc => hs c (List.mem_reverse.mp hc)
  rw [hshape] at hb
  obtain ⟨after, hsplit⟩ := hb
  rcases List.append_eq_append_iff.mp hsplit with ⟨names, hdots, -⟩ | ⟨names, rfl, hnames⟩
  · obtain ⟨j, hj, rfl⟩ : ∃ j, j ≤ k ∧ before = List.replicate j dotdot := by
      obtain ⟨hlen, hreplicate⟩ := List.prefix_replicate_iff.mp ⟨names, hdots.symm⟩
      exact ⟨before.length, hlen, hreplicate⟩
    rw [foldl_replicate_dotdot (by simpa using hj.trans hk) hsource]
    exact fun c hc => hsource c (List.mem_of_mem_drop hc)
  · rw [List.foldl_append, foldl_replicate_dotdot (by simpa using hk) hsource,
      foldl_push_of_names fun c hc => hrest c (hnames ▸ List.mem_append_left _ hc)]
    intro c hc
    rcases List.mem_append.mp hc with hc | hc
    · exact hrest c (hnames ▸ List.mem_append_left _ (List.mem_reverse.mp hc))
    · exact hsource c (List.mem_of_mem_drop hc)

/-- The names of the directory of a path that may end with a separator. --/
theorem normalizeString_dirname {c : Text} {tail : Text} (hp : ∀ d ∈ p ++ [c], IsName d) (htail : tail = [] ∨ tail = ['/']) :
    normalizeString false (dirname (ofNames (p ++ [c]) ++ tail)) = p := by
  obtain ⟨hinit, hc⟩ := List.forall_mem_append.mp hp
  obtain ⟨hne, -, -, hslash⟩ := hc c List.mem_cons_self
  have hpath : ofNames (p ++ [c]) = p.flatMap ('/' :: ·) ++ '/' :: c := by
    rw [ofNames_eq_flatMap (by simp), List.flatMap_append, List.flatMap_singleton]
  have hlast : ∀ x ∈ c.reverse.head?, x ≠ '/' := by
    intro x hx hxs
    rw [List.head?_reverse] at hx
    exact hslash (hxs ▸ List.mem_of_getLast? hx)
  have hstrip : stripEnd (ofNames (p ++ [c]) ++ tail) = p.flatMap ('/' :: ·) ++ '/' :: c := by
    have hends : (p.flatMap ('/' :: ·) ++ '/' :: c).reverse.dropWhile (· = '/') = (p.flatMap ('/' :: ·) ++ '/' :: c).reverse := by
      rw [List.reverse_append, List.reverse_cons]
      rcases hrev : c.reverse with _ | ⟨x, rest⟩
      · exact absurd (List.reverse_eq_nil_iff.mp hrev) hne
      · have hx : x ≠ '/' := hlast x (by rw [hrev]; rfl)
        simp [hx]
    rcases htail with rfl | rfl
    · rw [List.append_nil, stripEnd, hpath, hends, List.reverse_reverse]
    · rw [stripEnd, hpath, List.reverse_append]
      have hdrop : (['/'].reverse ++ (p.flatMap ('/' :: ·) ++ '/' :: c).reverse).dropWhile (· = '/') =
          (p.flatMap ('/' :: ·) ++ '/' :: c).reverse.dropWhile (· = '/') := by simp
      rw [hdrop, hends, List.reverse_reverse]
  have hbefore : ((stripEnd (ofNames (p ++ [c]) ++ tail)).reverse.dropWhile (· ≠ '/')).reverse =
      p.flatMap ('/' :: ·) ++ ['/'] := by
    have hall : ∀ x ∈ c.reverse, decide (x ≠ '/') = true := fun x hx =>
      decide_eq_true fun hxs => hslash (hxs ▸ List.mem_reverse.mp hx)
    rw [hstrip, List.reverse_append, List.reverse_cons, List.append_assoc, List.dropWhile_append_of_pos hall]
    simp
  unfold dirname
  simp only [hbefore]
  by_cases hnil : p = []
  · subst hnil
    rfl
  · have hlen : 2 < (p.flatMap ('/' :: ·) ++ ['/']).length := by
      rcases p with _ | ⟨d, rest⟩
      · exact absurd rfl hnil
      · have hd := List.length_pos_of_ne_nil (hinit d List.mem_cons_self).1
        simp
        omega
    have htwo : (p.flatMap ('/' :: ·) ++ ['/']).length ≠ 2 := by omega
    rw [if_neg (by omega), if_neg (by simp only [htwo, decide_false, Bool.and_false]; decide), List.dropLast_concat,
      ← ofNames_eq_flatMap hnil, normalizeString_ofNames hinit]

theorem isAbsolute_dirname (habs : isAbsolute s = true) : isAbsolute (dirname s) = true := by
  have hstrip : stripEnd s <+: s := List.reverse_suffix.mp (by rw [stripEnd, List.reverse_reverse]; exact List.dropWhile_suffix _)
  have hbefore : ((stripEnd s).reverse.dropWhile (· ≠ '/')).reverse <+: s :=
    (List.reverse_suffix.mp (by rw [List.reverse_reverse]; exact List.dropWhile_suffix _)).trans hstrip
  unfold dirname
  simp only [habs, Bool.true_and, decide_eq_true_eq, if_true]
  split_ifs with hshort htwo
  · rfl
  · rfl
  · have hne : ((stripEnd s).reverse.dropWhile (· ≠ '/')).reverse.dropLast ≠ [] := by
      intro hnil
      have hlen := congrArg List.length hnil
      rw [List.length_dropLast, List.length_nil] at hlen
      omega
    obtain ⟨t, ht⟩ := (List.dropLast_prefix _).trans hbefore
    rw [isAbsolute, ← ht, List.head?_append_of_ne_nil _ hne] at habs
    exact habs

/-- The relative path, resolved in the directory that it leads from. --/
theorem resolveNames_relative {cwd dir source target t : Text} (hdir : resolveNames cwd [dir] = p ++ normalizeString false source)
    (ht : t = if relative source target = [] then dot else relative source target) :
    resolveNames cwd [dir, t] = p ++ normalizeString false target := by
  have hsource := normalizeString_names source
  have htarget := normalizeString_names target
  have hcomponents : ∀ c ∈ relativeNames (normalizeString false source) (normalizeString false target), '/' ∉ c ∧ c ≠ [] :=
    mem_relativeNames htarget
  have hfold := foldl_push_relative (r := p.reverse) hsource htarget
  rcases hnames : relativeNames (normalizeString false source) (normalizeString false target) with _ | ⟨c, rest⟩
  · have hempty : relative source target = [] := by
      rw [relative, hnames]
      rfl
    rw [if_pos hempty] at ht
    subst ht
    rw [hnames, List.foldl_nil] at hfold
    have hstay : (Text.split '/' dot).foldl (pushComponent false) (resolveNames cwd [dir]).reverse =
        (resolveNames cwd [dir]).reverse := rfl
    rw [resolveNames_snoc rfl, hstay, hdir, List.reverse_append, hfold, List.reverse_append, List.reverse_reverse,
      List.reverse_reverse]
  · rw [hnames] at hfold hcomponents
    obtain ⟨hslash, hne⟩ := hcomponents c List.mem_cons_self
    have hrelative : relative source target = Text.join '/' (c :: rest) := by rw [relative, hnames]
    have habs : isAbsolute (Text.join '/' (c :: rest) ++ []) = false := isAbsolute_join hne hslash
    rw [List.append_nil] at habs
    have hnonempty : relative source target ≠ [] := by
      rw [hrelative]
      exact join_ne_nil hne
    rw [if_neg hnonempty, hrelative] at ht
    subst ht
    have hpush : (Text.split '/' (Text.join '/' (c :: rest) ++ [])).foldl (pushComponent false) (resolveNames cwd [dir]).reverse =
        (c :: rest).foldl (pushComponent false) (resolveNames cwd [dir]).reverse :=
      foldl_push_join (fun d hd => (hcomponents d hd).1) (List.cons_ne_nil c rest) (Or.inl rfl)
    rw [List.append_nil] at hpush
    rw [resolveNames_snoc habs, hpush, hdir, List.reverse_append, hfold, List.reverse_append, List.reverse_reverse,
      List.reverse_reverse]

end
end PosixPath
