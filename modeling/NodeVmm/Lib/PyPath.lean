import NodeVmm.Lib.PosixPath

/-! Paths as texts: the functions of `posixpath` of Python, and `strip` of its strings. On absolute paths they know the
    same names as those of Node.js. -/

namespace PyPath

/-- The white space that `strip` removes. --/
def isSpace (c : Char) : Bool :=
  (9 ≤ c.toNat && c.toNat ≤ 13) || (0x1C ≤ c.toNat && c.toNat ≤ 0x20) || c.toNat == 0x85 || c.toNat == 0xA0 ||
    c.toNat == 0x1680 || (0x2000 ≤ c.toNat && c.toNat ≤ 0x200A) || c.toNat == 0x2028 || c.toNat == 0x2029 ||
    c.toNat == 0x202F || c.toNat == 0x205F || c.toNat == 0x3000

def strip (s : Text) : Text := ((s.dropWhile isSpace).reverse.dropWhile isSpace).reverse

/-- `s.lstrip("/")` --/
def lstripSlash (s : Text) : Text := s.dropWhile (· = '/')

/-- One component in the loop of `normpath`; what is kept so far is in reverse. --/
def normStep (initialSlashes : Nat) (newComps : List Text) (comp : Text) : List Text :=
  if comp = [] ∨ comp = PosixPath.dot then newComps
  else if comp ≠ PosixPath.dotdot ∨ (initialSlashes = 0 ∧ newComps = []) ∨ newComps.head? = some PosixPath.dotdot then
    comp :: newComps
  else newComps.tail

/-- Two slashes in front are kept, three are one. --/
def initialSlashes (path : Text) : Nat :=
  if Text.startsWith path ['/'] then
    if Text.startsWith path ['/', '/'] && !Text.startsWith path ['/', '/', '/'] then 2 else 1
  else 0

def normpath (path : Text) : Text :=
  if path = [] then PosixPath.dot
  else
    let comps := ((Text.split '/' path).foldl (normStep (initialSlashes path)) []).reverse
    let path := List.replicate (initialSlashes path) '/' ++ Text.join '/' comps
    if path = [] then PosixPath.dot else path

def dirname (p : Text) : Text :=
  let head := p.take (Text.lastIndex '/' p)
  if head ≠ [] ∧ head ≠ List.replicate head.length '/' then PosixPath.stripEnd head else head

/-- `posixpath.join` of a directory and a path. --/
def join (dir path : Text) : Text :=
  if Text.startsWith path ['/'] then path
  else if dir = [] ∨ dir.getLast? = some '/' then dir ++ path
  else dir ++ '/' :: path

def abspath (cwd path : Text) : Text := normpath (if Text.startsWith path ['/'] then path else join cwd path)

/-- The length of what two lists share in front. --/
def commonLength : List Text → List Text → Nat
  | c :: start, d :: path => if c = d then commonLength start path + 1 else 0
  | _, _ => 0

/-- The components of an absolute path. --/
def pathList (cwd path : Text) : List Text := (Text.split '/' (abspath cwd path)).filter (· ≠ [])

def relpath (cwd path start : Text) : Except String Text :=
  if path = [] then .error "no path specified"
  else
    let startList := pathList cwd start
    let pathList := pathList cwd path
    let i := commonLength startList pathList
    let relList := List.replicate (startList.length - i) PosixPath.dotdot ++ pathList.drop i
    .ok (if relList = [] then PosixPath.dot else Text.join '/' relList)

/-! ### Absolute paths -/

section
open PosixPath
variable {s path start : Text}

theorem exists_cons_of_absolute (h : isAbsolute s = true) : ∃ r, s = '/' :: r := by
  cases s with
  | nil => cases h
  | cons x r => exact ⟨r, by simpa [isAbsolute] using h⟩

theorem startsWith_slash (s : Text) : Text.startsWith s ['/'] = isAbsolute s := by
  cases s with
  | nil => rfl
  | cons x s =>
    have hstart : Text.startsWith (x :: s) ['/'] = ('/' == x) := Bool.and_true _
    rw [hstart, isAbsolute, List.head?_cons, Bool.eq_iff_iff, beq_iff_eq, decide_eq_true_iff, Option.some.injEq]
    exact eq_comm

/-- With a slash in front, `..` goes up as far as the root, in both. --/
theorem normStep_eq (n : Nat) : normStep (n + 1) = pushComponent false := by
  funext newComps comp
  unfold normStep pushComponent
  refine if_congr Iff.rfl rfl ?_
  by_cases hdd : comp = dotdot
  · subst hdd
    cases newComps with
    | nil => rfl
    | cons top rest => simp [popComponent, eq_comm]
  · rw [if_pos (Or.inl hdd), if_neg hdd]

theorem initialSlashes_absolute (h : isAbsolute s = true) : ∃ n, initialSlashes s = n + 1 := by
  rw [initialSlashes, startsWith_slash, if_pos h]
  split
  · exact ⟨1, rfl⟩
  · exact ⟨0, rfl⟩

/-- An absolute path is one or two slashes and the names that it has in Node.js too. --/
theorem normpath_absolute (h : isAbsolute s = true) :
    ∃ n, normpath s = List.replicate n '/' ++ ofNames (normalizeString false s) := by
  obtain ⟨n, hn⟩ := initialSlashes_absolute h
  have hne : s ≠ [] := by
    rintro rfl
    cases h
  refine ⟨n, ?_⟩
  have hsplit : List.replicate (n + 1) '/' ++ Text.join '/' (normalizeString false s) =
      List.replicate n '/' ++ ofNames (normalizeString false s) := by
    rw [List.replicate_succ', List.append_assoc]
    rfl
  simp only [normpath, if_neg hne, hn, normStep_eq]
  rw [if_neg (by simp [List.replicate_succ])]
  exact hsplit

theorem split_slashes : ∀ (n : Nat) (s : Text),
    Text.split '/' (List.replicate n '/' ++ s) = List.replicate n [] ++ Text.split '/' s
  | 0, s => rfl
  | n + 1, s => by
    have hfirst : Text.split '/' ('/' :: (List.replicate n '/' ++ s)) = [] :: Text.split '/' (List.replicate n '/' ++ s) :=
      split_append_slash [] _
    rw [List.replicate_succ, List.cons_append, hfirst, split_slashes n s]
    rfl

theorem filter_split_ofNames {p : List Text} (hp : ∀ c ∈ p, IsName c) : (Text.split '/' (ofNames p)).filter (· ≠ []) = p := by
  have hkeep : p.filter (· ≠ []) = p := List.filter_eq_self.mpr fun c hc => decide_eq_true (hp c hc).1
  rw [split_ofNames hp]
  split
  · rename_i hnil
    rw [hnil]
    rfl
  · exact hkeep

theorem isAbsolute_normpath (h : isAbsolute s = true) : isAbsolute (normpath s) = true := by
  obtain ⟨n, hn⟩ := normpath_absolute h
  rw [hn]
  cases n <;> rfl

theorem normalizeString_slashes {p : List Text} (hp : ∀ c ∈ p, IsName c) (n : Nat) :
    normalizeString false (List.replicate n '/' ++ ofNames p) = p := by
  have hempty : (List.replicate n ([] : Text)).foldl (pushComponent false) [] = [] := by
    induction n with
    | zero => rfl
    | succ n ih => rw [List.replicate_succ, List.foldl_cons, push_nil, ih]
  rw [normalizeString, split_slashes, List.foldl_append, hempty, foldl_push_ofNames hp, List.reverse_reverse]

theorem pathList_absolute {cwd : Text} (h : isAbsolute s = true) : pathList cwd s = normalizeString false s := by
  obtain ⟨n, hn⟩ := normpath_absolute h
  have hnames := normalizeString_names s
  have hempty : (List.replicate n ([] : Text)).filter (· ≠ []) = [] := by simp
  rw [pathList, abspath, startsWith_slash, if_pos h, hn, split_slashes, List.filter_append, hempty,
    filter_split_ofNames hnames]
  rfl

theorem normalizeString_normpath (h : isAbsolute s = true) : normalizeString false (normpath s) = normalizeString false s := by
  obtain ⟨n, hn⟩ := normpath_absolute h
  rw [hn, normalizeString_slashes (normalizeString_names s)]

theorem relList_eq : ∀ start path : List Text,
    List.replicate (start.length - commonLength start path) dotdot ++ path.drop (commonLength start path) =
      relativeNames start path
  | [], path => by simp [commonLength, relativeNames]
  | c :: start, [] => by simp [commonLength, relativeNames, List.map_const', List.replicate_succ]
  | c :: start, d :: path => by
    rw [commonLength, relativeNames]
    split
    · rw [List.length_cons, Nat.add_sub_add_right, List.drop_succ_cons]
      exact relList_eq start path
    · rw [List.map_const']
      rfl

/-- The relative path between absolute paths, with `.` for none. --/
theorem relpath_absolute {cwd : Text} (hpath : isAbsolute path = true) (hstart : isAbsolute start = true) :
    relpath cwd path start = .ok (if relative start path = [] then dot else relative start path) := by
  have hne : path ≠ [] := by
    rintro rfl
    cases hpath
  have hcomponents : ∀ c ∈ relativeNames (normalizeString false start) (normalizeString false path), '/' ∉ c ∧ c ≠ [] :=
    mem_relativeNames (normalizeString_names path)
  have hempty : Text.join '/' (relativeNames (normalizeString false start) (normalizeString false path)) = [] ↔
      relativeNames (normalizeString false start) (normalizeString false path) = [] := by
    refine ⟨fun hjoin => ?_, fun hnil => by rw [hnil]; rfl⟩
    by_contra hne
    obtain ⟨c, rest, hcons⟩ := List.exists_cons_of_ne_nil hne
    rw [hcons] at hjoin hcomponents
    exact join_ne_nil (hcomponents c List.mem_cons_self).2 hjoin
  simp only [relpath, if_neg hne, pathList_absolute hpath, pathList_absolute hstart, relList_eq, relative, hempty]

/-- The directory of some names. --/
theorem normalizeString_dirname {p : List Text} {c : Text} (hp : ∀ d ∈ p ++ [c], IsName d) :
    normalizeString false (dirname (ofNames (p ++ [c]))) = p ∧ isAbsolute (dirname (ofNames (p ++ [c]))) = true := by
  obtain ⟨hinit, hc⟩ := List.forall_mem_append.mp hp
  have hslash : '/' ∉ c := (hc c List.mem_cons_self).2.2.2
  have hpath : ofNames (p ++ [c]) = p.flatMap ('/' :: ·) ++ '/' :: c := by
    rw [ofNames_eq_flatMap (by simp), List.flatMap_append, List.flatMap_singleton]
  have hhead : (ofNames (p ++ [c])).take (Text.lastIndex '/' (ofNames (p ++ [c]))) = p.flatMap ('/' :: ·) ++ ['/'] := by
    rw [hpath, Text.lastIndex_append_cons hslash, List.append_cons, List.take_left' (by simp)]
  unfold dirname
  simp only [hhead]
  by_cases hnil : p = []
  · subst hnil
    exact ⟨rfl, rfl⟩
  · rw [← ofNames_eq_flatMap hnil]
    have hall : ofNames p ++ ['/'] ≠ List.replicate (ofNames p ++ ['/']).length '/' := by
      intro hsame
      obtain ⟨d, rest, rfl⟩ := List.exists_cons_of_ne_nil hnil
      obtain ⟨hdne, -, -, hdslash⟩ := hinit d List.mem_cons_self
      obtain ⟨x, d', rfl⟩ := List.exists_cons_of_ne_nil hdne
      have hmem : x ∈ ofNames ((x :: d') :: rest) ++ ['/'] := by
        rw [ofNames_eq_flatMap (List.cons_ne_nil _ _)]
        simp
      rw [hsame] at hmem
      exact hdslash ((List.eq_of_mem_replicate hmem) ▸ List.mem_cons_self)
    rw [if_pos ⟨by simp, hall⟩, stripEnd_ofNames hinit hnil (Or.inr rfl), normalizeString_ofNames hinit]
    exact ⟨rfl, rfl⟩

end
end PyPath
