import Mathlib.Data.List.Basic
import Mathlib.Data.List.TakeWhile

/-! Texts as lists of characters, with the string functions of JavaScript that they replace. -/

abbrev Text := List Char

namespace Text

def str (s : Text) : String := String.ofList s

/-- Every character of a text that is looked through has the property. --/
theorem forall_of_all {P : Char → Prop} [DecidablePred P] {s : Text} (h : (s.all fun c => decide (P c)) = true) :
    ∀ c ∈ s, P c := fun c hc => of_decide_eq_true (List.all_eq_true.mp h c hc)

/-- The white space and line ends that `trim` removes. --/
def isSpace (c : Char) : Bool :=
  (9 ≤ c.toNat && c.toNat ≤ 13) || c.toNat == 0x20 || c.toNat == 0xA0 || c.toNat == 0x1680 ||
    (0x2000 ≤ c.toNat && c.toNat ≤ 0x200A) || c.toNat == 0x2028 || c.toNat == 0x2029 || c.toNat == 0x202F ||
    c.toNat == 0x205F || c.toNat == 0x3000 || c.toNat == 0xFEFF

def trimStart (s : Text) : Text := s.dropWhile isSpace

def trimEnd (s : Text) : Text := (s.reverse.dropWhile isSpace).reverse

def trim (s : Text) : Text := trimEnd (trimStart s)

def startsWith (s t : Text) : Bool := t.isPrefixOf s

/-- `s.includes(t)`. --/
def includes (s t : Text) : Bool := s.tails.any fun u => t.isPrefixOf u

/-- One more than the last index of `c`, or 0 when `c` does not occur. --/
def lastIndex (c : Char) (s : Text) : Nat := (s.reverse.dropWhile (· ≠ c)).length

/-- `s.split(c)`. --/
def split (c : Char) (s : Text) : List Text := s.splitOn c

/-- `parts.join(c)`. --/
def join (c : Char) (parts : List Text) : Text := [c].intercalate parts

/-- The two characters outside ASCII whose lower case has an ASCII character. The others stand for themselves. --/
def lowerChar (c : Char) : Text :=
  if c = Char.ofNat 0x212A then ['k'] else if c = Char.ofNat 0x130 then ['i', Char.ofNat 0x307] else [c.toLower]

/-- `s.toLowerCase()` --/
def lower (s : Text) : Text := s.flatMap lowerChar

/-- `Number.parseInt(s, 10)`, or `none` for `NaN`. --/
def parseInt (s : Text) : Option Int :=
  let s := trimStart s
  let negative := s.head? = some '-'
  let digits := (if s.head? = some '-' ∨ s.head? = some '+' then s.drop 1 else s).takeWhile Char.isDigit
  if digits = [] then none
  else
    let n : Int := digits.foldl (fun n c => 10 * n + (c.toNat - '0'.toNat)) 0
    some (if negative then -n else n)

/-! ### The last occurrence of a character -/

section
variable {c : Char} {s t : Text}

theorem ne_of_not_mem (h : c ∉ s) : ∀ x ∈ s, decide (x ≠ c) = true := by
  intro x hx
  exact decide_eq_true fun hxc => h (hxc ▸ hx)

theorem ne_of_not_mem_reverse (h : c ∉ s) : ∀ x ∈ s.reverse, decide (x ≠ c) = true :=
  ne_of_not_mem (mt List.mem_reverse.mp h)

theorem lastIndex_append_cons (h : c ∉ t) : lastIndex c (s ++ c :: t) = s.length + 1 := by
  have hdrop : (t.reverse ++ c :: s.reverse).dropWhile (· ≠ c) = c :: s.reverse := by
    rw [List.dropWhile_append_of_pos (ne_of_not_mem_reverse h)]
    simp
  rw [lastIndex, List.reverse_append, List.reverse_cons, List.append_assoc, List.singleton_append, hdrop, List.length_cons,
    List.length_reverse]

theorem lastIndex_of_not_mem (h : c ∉ s) : lastIndex c s = 0 := by
  have hdrop : s.reverse.dropWhile (· ≠ c) = [] := List.dropWhile_eq_nil_iff.mpr (ne_of_not_mem_reverse h)
  rw [lastIndex, hdrop, List.length_nil]

theorem lastIndex_le (c : Char) (s : Text) : lastIndex c s ≤ s.length := by
  have hle : (s.reverse.dropWhile (· ≠ c)).length ≤ s.reverse.length := (List.dropWhile_suffix _).length_le
  rwa [List.length_reverse] at hle

theorem lastIndex_append_of_not_mem (h : c ∉ t) : lastIndex c (s ++ t) = lastIndex c s := by
  rw [lastIndex, List.reverse_append, List.dropWhile_append_of_pos (ne_of_not_mem_reverse h), ← lastIndex]

/-- A text is divided at the last occurrence of a character. --/
theorem exists_last : ∀ {s : Text}, c ∈ s → ∃ a b, s = a ++ c :: b ∧ c ∉ b
  | x :: s, h => by
    by_cases hs : c ∈ s
    · obtain ⟨a, b, rfl, hb⟩ := exists_last hs
      exact ⟨x :: a, b, rfl, hb⟩
    · obtain rfl := (List.mem_cons.mp h).resolve_right hs
      exact ⟨[], s, rfl, hs⟩

theorem lastIndex_append_of_mem (h : c ∈ t) : lastIndex c (s ++ t) = s.length + lastIndex c t := by
  obtain ⟨a, b, rfl, hb⟩ := exists_last h
  rw [lastIndex_append_cons hb, ← List.append_assoc, lastIndex_append_cons hb, List.length_append, Nat.add_assoc]

theorem lastIndex_pos (h : c ∈ s) : 0 < lastIndex c s := by
  obtain ⟨a, b, rfl, hb⟩ := exists_last h
  rw [lastIndex_append_cons hb]
  exact Nat.succ_pos _

/-- A text is divided at the first occurrence of a character. --/
theorem takeWhile_ne_append (h : c ∉ s) : (s ++ c :: t).takeWhile (· ≠ c) = s := by
  rw [List.takeWhile_append_of_pos (ne_of_not_mem h)]
  simp

theorem dropWhile_ne_append (h : c ∉ s) : (s ++ c :: t).dropWhile (· ≠ c) = c :: t := by
  rw [List.dropWhile_append_of_pos (ne_of_not_mem h)]
  simp

theorem takeWhile_ne_self (h : c ∉ s) : s.takeWhile (· ≠ c) = s :=
  List.takeWhile_eq_self_iff.mpr (ne_of_not_mem h)

theorem dropWhile_ne_nil (h : c ∉ s) : s.dropWhile (· ≠ c) = [] :=
  List.dropWhile_eq_nil_iff.mpr (ne_of_not_mem h)

theorem not_mem_takeWhile_ne : c ∉ s.takeWhile (· ≠ c) := by
  intro h
  have hne := List.mem_takeWhile_imp h
  exact of_decide_eq_true hne rfl

theorem append_cons_inj {s' t' : Text} (hs : c ∉ s) (hs' : c ∉ s') (h : s ++ c :: t = s' ++ c :: t') : s = s' ∧ t = t' := by
  have hbefore := congrArg (List.takeWhile (· ≠ c)) h
  have hafter := congrArg (List.dropWhile (· ≠ c)) h
  rw [takeWhile_ne_append hs, takeWhile_ne_append hs'] at hbefore
  rw [dropWhile_ne_append hs, dropWhile_ne_append hs'] at hafter
  exact ⟨hbefore, List.tail_eq_of_cons_eq hafter⟩

/-! ### Trimmed texts -/

theorem head?_dropWhile_space (x : Char) (hx : x ∈ (s.dropWhile isSpace).head?) : isSpace x = false := by
  have hnot := List.head?_dropWhile_not isSpace s
  rw [hx] at hnot
  simpa using hnot

theorem prefix_trimEnd (s : Text) : trimEnd s <+: s :=
  List.reverse_suffix.mp (by rw [trimEnd, List.reverse_reverse]; exact List.dropWhile_suffix _)

theorem head?_trim (x : Char) (hx : x ∈ (trim s).head?) : isSpace x = false := by
  obtain ⟨t, ht⟩ := prefix_trimEnd (trimStart s)
  refine head?_dropWhile_space (s := s) x ?_
  have hne : trim s ≠ [] := by
    intro hnil
    rw [hnil] at hx
    cases hx
  have hhead : (trimEnd (trimStart s) ++ t).head? = some x := (List.head?_append_of_ne_nil _ hne).trans hx
  rw [ht] at hhead
  exact hhead

theorem getLast?_trim (x : Char) (hx : x ∈ (trim s).getLast?) : isSpace x = false := by
  refine head?_dropWhile_space (s := (trimStart s).reverse) x ?_
  rwa [← List.getLast?_reverse]

theorem trim_eq_self (hhead : ∀ x ∈ s.head?, isSpace x = false) (hlast : ∀ x ∈ s.getLast?, isSpace x = false) : trim s = s := by
  have hkeep : ∀ {t : Text}, (∀ x ∈ t.head?, isSpace x = false) → t.dropWhile isSpace = t := by
    intro t ht
    cases t with
    | nil => rfl
    | cons x t => simp [ht x rfl]
  rw [trim, trimEnd, trimStart, hkeep hhead, hkeep (by rwa [List.head?_reverse]), List.reverse_reverse]

theorem trim_subset (s : Text) : trim s ⊆ s := fun _ h =>
  (List.dropWhile_suffix isSpace).subset ((prefix_trimEnd (trimStart s)).subset h)

theorem trim_ne_nil {x : Char} (hx : isSpace x = false) : trim (x :: s) ≠ [] := by
  intro hnil
  have hstart : trimStart (x :: s) = x :: s := by simp [trimStart, hx]
  rw [trim, hstart, trimEnd, List.reverse_eq_nil_iff, List.dropWhile_eq_nil_iff] at hnil
  have hspace := hnil x (List.mem_reverse.mpr List.mem_cons_self)
  rw [hx] at hspace
  cases hspace

end

/-! ### Joined texts -/

section
variable {c : Char} {p q : Text} {parts : List Text}

theorem join_cons_cons : join c (p :: q :: parts) = p ++ c :: join c (q :: parts) := by simp [join]

/-- Joined parts and a last `c` are the parts with a `c` after each. --/
theorem join_append_singleton : ∀ {parts : List Text}, parts ≠ [] → join c parts ++ [c] = parts.flatMap (· ++ [c])
  | [p], _ => by simp [join]
  | p :: q :: parts, _ => by
    have hrest := join_append_singleton (List.cons_ne_nil q parts)
    rw [List.flatMap_cons, ← hrest, join_cons_cons]
    simp

end
end Text
