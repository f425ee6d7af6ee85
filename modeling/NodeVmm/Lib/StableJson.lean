import Mathlib.Data.List.Sort
import NodeVmm.Lib.Text

/-! JSON texts of values whose objects have their members in the order of a comparison of names, as they are hashed
    to identify the value. Such a text says everything about the value but the order in which the members came. -/

namespace StableJson

/-- A number, by its decimal text if it is not an integer below `10 ^ 21`. JSON has no text for one that is not
    finite. --/
inductive Number where
  | int (n : Int)
  | notFinite
  | other (text : Text) (chars : ∀ c ∈ text, c.isDigit ∨ c = '-' ∨ c = '+' ∨ c = '.' ∨ c = 'e')
    (mark : ∃ c ∈ text, c = '.' ∨ c = 'e')
  deriving DecidableEq

def Number.text : Number → Text
  | .int (.ofNat n) => Nat.toDigits 10 n
  | .int (.negSucc n) => '-' :: Nat.toDigits 10 (n + 1)
  | .notFinite => "null".toList
  | .other text _ _ => text

/-- The escape of a character in a JSON string. --/
def escape (c : Char) : Text :=
  if c = '"' then ['\\', '"']
  else if c = '\\' then ['\\', '\\']
  else if c.toNat = 8 then ['\\', 'b']
  else if c.toNat = 9 then ['\\', 't']
  else if c.toNat = 10 then ['\\', 'n']
  else if c.toNat = 12 then ['\\', 'f']
  else if c.toNat = 13 then ['\\', 'r']
  else if c.toNat < 32 then ['\\', 'u', '0', '0', Nat.digitChar (c.toNat / 16), Nat.digitChar (c.toNat % 16)]
  else [c]

def quote (s : Text) : Text := '"' :: (s.flatMap escape ++ ['"'])

mutual
/-- A value without arrays. --/
inductive Value where
  | undefined
  | null
  | number (n : Number)
  | string (s : Text)
  | object (members : Members)

inductive Members where
  | nil
  | cons (name : Text) (value : Value) (rest : Members)
end

def Members.ofList : List (Text × Value) → Members
  | [] => .nil
  | (name, value) :: rest => .cons name value (ofList rest)

/-- A string or `undefined`. --/
def ofText : Option Text → Value
  | none => .undefined
  | some s => .string s

/-- A number or `undefined`. --/
def ofNumber : Option Number → Value
  | none => .undefined
  | some n => .number n

/-- An object of strings. --/
def ofStrings (fields : List (Text × Text)) : Value :=
  .object (Members.ofList (fields.map fun e => (e.1, .string e.2)))

variable (le : Text → Text → Bool)

/-- The order of the members: `localeCompare` of their names. --/
def byName (a b : Text × Text) : Prop := le a.1 b.1

instance : DecidableRel (byName le) := fun a b => inferInstanceAs (Decidable (le a.1 b.1 = true))

/-- The sort is stable. --/
def sortByName (l : List (Text × Text)) : List (Text × Text) := l.insertionSort (byName le)

def member (e : Text × Text) : Text := quote e.1 ++ ':' :: e.2

mutual
def stableJson : Value → Text
  | .undefined => "undefined".toList
  | .null => "null".toList
  | .number n => n.text
  | .string s => quote s
  | .object members =>
    '{' :: (Text.join ',' ((sortByName le (entries members)).map member) ++ ['}'])

/-- The names of the members with the texts of their values. --/
def entries : Members → List (Text × Text)
  | .nil => []
  | .cons name value rest => (name, stableJson value) :: entries rest
end

/-! ### Strings -/

section
variable {c d : Char} {s t x y : Text}

def hexValue (c : Char) : Nat := if c.isDigit then c.toNat - 48 else c.toNat - 87

/-- The first character of an escaped text, and the rest. --/
def unescape : Text → Option (Char × Text)
  | '\\' :: 'u' :: '0' :: '0' :: h :: l :: rest => some (Char.ofNat (16 * hexValue h + hexValue l), rest)
  | '\\' :: 'b' :: rest => some (Char.ofNat 8, rest)
  | '\\' :: 't' :: rest => some (Char.ofNat 9, rest)
  | '\\' :: 'n' :: rest => some (Char.ofNat 10, rest)
  | '\\' :: 'f' :: rest => some (Char.ofNat 12, rest)
  | '\\' :: 'r' :: rest => some (Char.ofNat 13, rest)
  | '\\' :: c :: rest => some (c, rest)
  | c :: rest => some (c, rest)
  | [] => none

theorem hexValue_digits : ∀ n < 32, 16 * hexValue (Nat.digitChar (n / 16)) + hexValue (Nat.digitChar (n % 16)) = n := by
  decide

theorem unescape_escape : unescape (escape c ++ x) = some (c, x) := by
  have hof : ∀ n, c.toNat = n → Char.ofNat n = c := fun n h => h ▸ Char.ofNat_toNat c
  unfold escape
  split
  · subst c; rfl
  split
  · subst c; rfl
  split
  · simpa [unescape] using hof 8 ‹_›
  split
  · simpa [unescape] using hof 9 ‹_›
  split
  · simpa [unescape] using hof 10 ‹_›
  split
  · simpa [unescape] using hof 12 ‹_›
  split
  · simpa [unescape] using hof 13 ‹_›
  split
  · rename_i hlt
    simp [unescape, hexValue_digits _ hlt]
  · have hplain : unescape (c :: x) = some (c, x) := by
      unfold unescape
      split <;> simp_all
    exact hplain

theorem escape_inj (h : escape c ++ x = escape d ++ y) : c = d ∧ x = y := by
  have hboth := congrArg unescape h
  rw [unescape_escape, unescape_escape] at hboth
  exact Prod.mk.inj (Option.some.inj hboth)

theorem quote_not_head_escape : escape c ++ x ≠ '"' :: y := by
  intro h
  unfold escape at h
  split at h
  · cases h
  repeat' split at h
  all_goals first | (cases h; done) | skip
  rename_i hne _ _ _ _ _ _ _
  exact hne (List.cons.inj h).1

theorem escaped_inj : ∀ {s t : Text}, s.flatMap escape ++ '"' :: x = t.flatMap escape ++ '"' :: y → s = t ∧ x = y
  | [], [], h => ⟨rfl, (List.cons.inj h).2⟩
  | [], d :: t, h => by
    rw [List.flatMap_cons, List.append_assoc] at h
    exact absurd h.symm quote_not_head_escape
  | c :: s, [], h => by
    rw [List.flatMap_cons, List.append_assoc] at h
    exact absurd h quote_not_head_escape
  | c :: s, d :: t, h => by
    rw [List.flatMap_cons, List.flatMap_cons, List.append_assoc, List.append_assoc] at h
    obtain ⟨rfl, hrest⟩ := escape_inj h
    obtain ⟨rfl, hxy⟩ := escaped_inj hrest
    exact ⟨rfl, hxy⟩

/-- A quoted text ends by itself. --/
theorem quote_inj (h : quote s ++ x = quote t ++ y) : s = t ∧ x = y := by
  unfold quote at h
  simp only [List.cons_append, List.append_assoc, List.nil_append] at h
  exact escaped_inj (List.cons.inj h).2

/-! ### Values end by themselves -/

/-- What may follow a value. --/
def Ends (r : Text) : Prop := ∀ c ∈ r.head?, c = ',' ∨ c = '\x7d'

/-- The characters of a number and of a word. --/
def Plain (c : Char) : Prop := c ≠ ',' ∧ c ≠ '\x7d' ∧ c ≠ '"' ∧ c ≠ '\x7b'

theorem ends_append {r : Text} {c : Char} (hc : c = ',' ∨ c = '\x7d') : Ends (c :: r) := fun d hd => by
  cases hd
  exact hc

theorem plain_split : ∀ {t u r s : Text}, (∀ c ∈ t, Plain c) → (∀ c ∈ u, Plain c) → Ends r → Ends s →
    t ++ r = u ++ s → t = u ∧ r = s
  | [], [], _, _, _, _, _, _, h => ⟨rfl, h⟩
  | [], c :: u, r, s, _, hu, hr, _, h => by
    have hc := hu c List.mem_cons_self
    rcases hr c (by rw [show r = c :: (u ++ s) from h]; rfl) with rfl | rfl
    · exact absurd rfl hc.1
    · exact absurd rfl hc.2.1
  | c :: t, [], r, s, ht, _, _, hs, h => by
    have hc := ht c List.mem_cons_self
    rcases hs c (by rw [← show c :: (t ++ r) = s from h]; rfl) with rfl | rfl
    · exact absurd rfl hc.1
    · exact absurd rfl hc.2.1
  | c :: t, d :: u, _, _, ht, hu, hr, hs, h => by
    obtain ⟨rfl, hrest⟩ := List.cons.inj h
    obtain ⟨rfl, hrs⟩ := plain_split (fun c hc => ht c (List.mem_cons_of_mem _ hc))
      (fun c hc => hu c (List.mem_cons_of_mem _ hc)) hr hs hrest
    exact ⟨rfl, hrs⟩

theorem plain_of_isDigit (h : c.isDigit = true) : Plain c := by
  refine ⟨?_, ?_, ?_, ?_⟩ <;> rintro rfl <;> exact absurd h (by decide)

instance : DecidablePred Plain := fun c =>
  inferInstanceAs (Decidable (c ≠ ',' ∧ c ≠ '\x7d' ∧ c ≠ '"' ∧ c ≠ '\x7b'))

theorem plain_undefined : ∀ c ∈ "undefined".toList, Plain c := Text.forall_of_all (by decide)

theorem plain_null : ∀ c ∈ "null".toList, Plain c := Text.forall_of_all (by decide)

theorem plain_number (n : Number) : ∀ c ∈ n.text, Plain c := by
  have hdigits : ∀ k, ∀ c ∈ Nat.toDigits 10 k, Plain c := fun k c hc =>
    plain_of_isDigit (Nat.isDigit_of_mem_toDigits (by decide) (by decide) hc)
  rcases n with (n | n) | _ | ⟨text, chars, _⟩
  · exact hdigits n
  · intro c hc
    rcases List.mem_cons.mp hc with rfl | hc
    · exact ⟨by decide, by decide, by decide, by decide⟩
    · exact hdigits _ c hc
  · exact plain_null
  · intro c hc
    rcases chars c hc with h | rfl | rfl | rfl | rfl
    · exact plain_of_isDigit h
    all_goals exact ⟨by decide, by decide, by decide, by decide⟩

theorem number_ne_nil (n : Number) : n.text ≠ [] := by
  rcases n with (n | n) | _ | ⟨text, _, c, hc, _⟩
  · exact Nat.toDigits_ne_nil
  · exact List.cons_ne_nil _ _
  · exact List.cons_ne_nil _ _
  · exact List.ne_nil_of_mem hc

end

section
variable {le : Text → Text → Bool} {r s : Text}

theorem sortByName_perm {l : List (Text × Text)} : (sortByName le l).Perm l := List.perm_insertionSort _ _

theorem mem_sortByName {l : List (Text × Text)} {e : Text × Text} : e ∈ sortByName le l ↔ e ∈ l :=
  sortByName_perm.mem_iff

theorem filter_orderedInsert {k : Text} {e : Text × Text} (hrefl : le k k = true) : ∀ {l : List (Text × Text)},
    (l.orderedInsert (byName le) e).filter (fun x => x.1 = k) = (e :: l).filter fun x => x.1 = k
  | [] => rfl
  | x :: l => by
    rw [List.orderedInsert_cons]
    split
    · rfl
    · rename_i hnot
      have ih := filter_orderedInsert hrefl (e := e) (l := l)
      by_cases he : e.1 = k
      · have hx : x.1 ≠ k := fun hx => hnot (show le e.1 x.1 = true by rw [he, hx, hrefl])
        rw [List.filter_cons_of_neg (by simpa using hx), ih, List.filter_cons_of_pos (by simpa using he),
          List.filter_cons_of_pos (by simpa using he), List.filter_cons_of_neg (by simpa using hx)]
      · rw [List.filter_cons_of_neg (by simpa using he)] at ih
        rw [List.filter_cons_of_neg (a := e) (by simpa using he), List.filter_cons, List.filter_cons, ih]

/-- The entries of one name keep their order. --/
theorem filter_sortByName {k : Text} (hrefl : le k k = true) (l : List (Text × Text)) :
    (sortByName le l).filter (fun x => x.1 = k) = l.filter fun x => x.1 = k := by
  induction l with
  | nil => rfl
  | cons e l ih =>
    refine (filter_orderedInsert hrefl).trans ?_
    rw [List.filter_cons, List.filter_cons]
    exact congrArg (fun t => if decide (e.1 = k) then e :: t else t) ih

/-- Entries that the order tells apart are sorted in one way. --/
theorem filter_sortByName_of_perm {p : Text × Text → Bool} {l m : List (Text × Text)} (htotal : ∀ a b, le a b || le b a)
    (htrans : ∀ a b c, le a b → le b c → le a c) (h : l.Perm m)
    (hanti : ∀ a ∈ l, ∀ b ∈ l, p a → p b → le a.1 b.1 → le b.1 a.1 → a = b) :
    (sortByName le l).filter p = (sortByName le m).filter p := by
  have : Std.Total (byName le) := ⟨fun a b => (Bool.or_eq_true ..).mp (htotal a.1 b.1)⟩
  have : IsTrans _ (byName le) := ⟨fun a b c hab hbc => htrans a.1 b.1 c.1 hab hbc⟩
  have hsorted : ∀ n, ((sortByName le n).filter p).Pairwise (byName le) := fun n =>
    (List.pairwise_insertionSort (byName le) n).filter p
  have hmem : ∀ {a n}, a ∈ (sortByName le n).filter p → a ∈ n ∧ p a = true := fun ha =>
    ⟨mem_sortByName.mp (List.mem_filter.mp ha).1, (List.mem_filter.mp ha).2⟩
  refine List.Perm.eq_of_pairwise (fun a b ha hb hab hba => ?_) (hsorted l) (hsorted m) ?_
  · obtain ⟨ha, hpa⟩ := hmem ha
    obtain ⟨hb, hpb⟩ := hmem hb
    exact hanti a ha b (h.mem_iff.mpr hb) hpa hpb hab hba
  · exact ((sortByName_perm.trans h).trans sortByName_perm.symm).filter p

/-- No other value has the text `t` or a text that starts with it. --/
def Tight (le : Text → Text → Bool) (t : Text) : Prop :=
  ∀ w r s, Ends r → Ends s → t ++ r = stableJson le w ++ s → t = stableJson le w ∧ r = s

/-- The text after the first of some members. --/
def afterFirst (rest : List (Text × Text)) (r : Text) : Text :=
  match rest with
  | [] => '\x7d' :: r
  | e :: rest => ',' :: (Text.join ',' ((e :: rest).map member) ++ '\x7d' :: r)

theorem join_members (e : Text × Text) (rest : List (Text × Text)) (r : Text) :
    Text.join ',' ((e :: rest).map member) ++ '\x7d' :: r = member e ++ afterFirst rest r := by
  rcases rest with _ | ⟨f, rest⟩
  · simp [Text.join, afterFirst, List.intercalate]
  · simp [Text.join, afterFirst, List.intercalate]

theorem ends_afterFirst (rest : List (Text × Text)) (r : Text) : Ends (afterFirst rest r) := by
  rcases rest with _ | ⟨f, rest⟩
  · exact ends_append (.inr rfl)
  · exact ends_append (.inl rfl)

theorem members_inj : ∀ {es fs : List (Text × Text)}, (∀ e ∈ es, Tight le e.2) → (∀ f ∈ fs, ∃ w, f.2 = stableJson le w) →
    Text.join ',' (es.map member) ++ '\x7d' :: r = Text.join ',' (fs.map member) ++ '\x7d' :: s → es = fs ∧ r = s
  | [], [], _, _, h => ⟨rfl, (List.cons.inj h).2⟩
  | [], f :: fs, _, _, h => by
    rw [join_members] at h
    exact absurd (List.cons.inj h).1 (by decide)
  | e :: es, [], _, _, h => by
    rw [join_members] at h
    exact absurd (List.cons.inj h).1 (by decide)
  | e :: es, f :: fs, hes, hfs, h => by
    rw [join_members, join_members, member, member, List.append_assoc, List.append_assoc] at h
    obtain ⟨hname, hrest⟩ := quote_inj h
    obtain ⟨w, hw⟩ := hfs f List.mem_cons_self
    have hvalue := (List.cons.inj hrest).2
    rw [hw] at hvalue
    obtain ⟨htext, hafter⟩ := hes e List.mem_cons_self w _ _ (ends_afterFirst es r) (ends_afterFirst fs s) hvalue
    have hef : e = f := Prod.ext hname (htext.trans hw.symm)
    rcases es with _ | ⟨e', es⟩ <;> rcases fs with _ | ⟨f', fs⟩
    · exact ⟨by rw [hef], (List.cons.inj hafter).2⟩
    · exact absurd (List.cons.inj hafter).1 (by decide)
    · exact absurd (List.cons.inj hafter).1 (by decide)
    · obtain ⟨hes', hrs⟩ := members_inj (fun e he => hes e (List.mem_cons_of_mem _ he))
        (fun f hf => hfs f (List.mem_cons_of_mem _ hf)) (List.cons.inj hafter).2
      exact ⟨by rw [hef, hes'], hrs⟩

theorem value_cases (le : Text → Text → Bool) (w : Value) : (∀ c ∈ stableJson le w, Plain c) ∧ stableJson le w ≠ [] ∨
    (∃ t, stableJson le w = quote t) ∨ ∃ members, w = .object members := by
  cases w with
  | undefined => exact .inl ⟨plain_undefined, List.cons_ne_nil _ _⟩
  | null => exact .inl ⟨plain_null, List.cons_ne_nil _ _⟩
  | number n => exact .inl ⟨plain_number n, number_ne_nil n⟩
  | string t => exact .inr (.inl ⟨t, rfl⟩)
  | object members => exact .inr (.inr ⟨members, rfl⟩)

theorem head_not_plain {t u : Text} {c : Char} (ht : ∀ d ∈ t, Plain d) (hne : t ≠ []) (hc : ¬Plain c) :
    t ++ r ≠ c :: u := by
  intro h
  obtain ⟨d, t, rfl⟩ := List.exists_cons_of_ne_nil hne
  exact hc ((List.cons.inj h).1 ▸ ht d List.mem_cons_self)

theorem not_plain_quote : ¬Plain '"' := fun h => h.2.2.1 rfl

theorem not_plain_brace : ¬Plain '\x7b' := fun h => h.2.2.2 rfl

theorem stableJson_object {members : Members} : stableJson le (.object members) =
    '\x7b' :: (Text.join ',' ((sortByName le (entries le members)).map member) ++ ['\x7d']) := rfl

theorem object_split (members : Members) (r : Text) : stableJson le (.object members) ++ r =
    '\x7b' :: (Text.join ',' ((sortByName le (entries le members)).map member) ++ '\x7d' :: r) := by
  rw [stableJson_object, List.cons_append, List.append_assoc]
  rfl

theorem entries_nil : entries le .nil = [] := by rw [entries]

theorem entries_cons {name : Text} {value : Value} {rest : Members} :
    entries le (.cons name value rest) = (name, stableJson le value) :: entries le rest := by rw [entries]

theorem entries_json : ∀ {members : Members}, ∀ e ∈ entries le members, ∃ w, e.2 = stableJson le w
  | .nil, e, he => by
    rw [entries_nil] at he
    exact absurd he List.not_mem_nil
  | .cons _ value rest, e, he => by
    rw [entries_cons] at he
    rcases List.mem_cons.mp he with rfl | he
    · exact ⟨value, rfl⟩
    · exact entries_json e he

theorem tight_plain {t : Text} (ht : ∀ c ∈ t, Plain c) (hne : t ≠ []) : Tight le t := by
  intro w r s hr hs h
  rcases value_cases le w with ⟨hw, -⟩ | ⟨u, hu⟩ | ⟨members, rfl⟩
  · exact plain_split ht hw hr hs h
  · rw [hu] at h
    exact absurd h (head_not_plain ht hne not_plain_quote)
  · rw [object_split] at h
    exact absurd h (head_not_plain ht hne not_plain_brace)

theorem tight_quote {t : Text} : Tight le (quote t) := by
  intro w r s _ _ h
  rcases value_cases le w with ⟨hw, hne⟩ | ⟨u, hu⟩ | ⟨members, rfl⟩
  · exact absurd h.symm (head_not_plain hw hne not_plain_quote)
  · rw [hu] at h ⊢
    obtain ⟨rfl, hrs⟩ := quote_inj h
    exact ⟨rfl, hrs⟩
  · rw [object_split] at h
    exact absurd (List.cons.inj h).1 (by decide)

mutual
theorem tight_value : ∀ v : Value, Tight le (stableJson le v)
  | .undefined => tight_plain plain_undefined (List.cons_ne_nil _ _)
  | .null => tight_plain plain_null (List.cons_ne_nil _ _)
  | .number n => tight_plain (plain_number n) (number_ne_nil n)
  | .string _ => tight_quote
  | .object members => by
    intro w r s _ _ h
    rcases value_cases le w with ⟨hw, hne⟩ | ⟨u, hu⟩ | ⟨others, rfl⟩
    · rw [object_split] at h
      exact absurd h.symm (head_not_plain hw hne not_plain_brace)
    · rw [hu, object_split] at h
      exact absurd (List.cons.inj h).1 (by decide)
    · rw [object_split, object_split] at h
      obtain ⟨hsame, hrs⟩ := members_inj
        (fun e he => tight_entries members e (mem_sortByName.mp he))
        (fun f hf => entries_json f (mem_sortByName.mp hf)) (List.cons.inj h).2
      exact ⟨by rw [stableJson_object, stableJson_object, hsame], hrs⟩

theorem tight_entries : ∀ members : Members, ∀ e ∈ entries le members, Tight le e.2
  | .nil, e, he => by
    rw [entries_nil] at he
    exact absurd he List.not_mem_nil
  | .cons _ value rest, e, he => by
    rw [entries_cons] at he
    rcases List.mem_cons.mp he with rfl | he
    · exact tight_value value
    · exact tight_entries rest e he
end

/-! ### What a text says -/

/-- Equal texts of objects: equal members, in the order of their names. --/
theorem entries_of_object {a b : Members} (h : stableJson le (.object a) = stableJson le (.object b)) :
    sortByName le (entries le a) = sortByName le (entries le b) := by
  have h := congrArg (· ++ ([] : Text)) h
  simp only [object_split] at h
  exact (members_inj (fun e he => tight_entries a e (mem_sortByName.mp he))
    (fun f hf => entries_json f (mem_sortByName.mp hf)) (List.cons.inj h).2).1

theorem entries_ofList : ∀ {fields : List (Text × Value)},
    entries le (Members.ofList fields) = fields.map fun e => (e.1, stableJson le e.2)
  | [] => rfl
  | (name, value) :: rest => by
    rw [List.map_cons, ← entries_ofList]
    rfl

theorem eq_of_perm_of_names {α : Type} : ∀ {l m : List (Text × α)}, l.map Prod.fst = m.map Prod.fst →
    (l.map Prod.fst).Nodup → l.Perm m → l = m
  | [], [], _, _, _ => rfl
  | e :: l, f :: m, hnames, hnodup, hperm => by
    obtain ⟨hname, hrest⟩ := List.cons.inj hnames
    have hnot : e.1 ∉ l.map Prod.fst := (List.nodup_cons.mp hnodup).1
    have hef : e = f := by
      rcases List.mem_cons.mp (hperm.mem_iff.mp List.mem_cons_self) with hef | hmem
      · exact hef
      · exact absurd (hrest ▸ List.mem_map_of_mem hmem) hnot
    subst hef
    rw [eq_of_perm_of_names hrest (List.nodup_cons.mp hnodup).2 (hperm.cons_inv)]

/-- The values of an object with fixed names have the same texts if the objects have. --/
theorem texts_of_object {l m : List (Text × Value)}
    (h : stableJson le (.object (Members.ofList l)) = stableJson le (.object (Members.ofList m)))
    (hnames : l.map Prod.fst = m.map Prod.fst) (hnodup : (l.map Prod.fst).Nodup) :
    l.map (fun e => (e.1, stableJson le e.2)) = m.map fun e => (e.1, stableJson le e.2) := by
  have hsorted := entries_of_object h
  rw [entries_ofList, entries_ofList] at hsorted
  have hperm := (sortByName_perm.symm.trans (List.Perm.of_eq hsorted)).trans sortByName_perm
  refine eq_of_perm_of_names ?_ ?_ hperm
  · rw [List.map_map, List.map_map]
    exact hnames
  · rw [List.map_map]
    exact hnodup

theorem sorted_entries_ofStrings (fields : List (Text × Text)) :
    sortByName le (entries le (Members.ofList (fields.map fun e => (e.1, .string e.2)))) =
      (sortByName le fields).map fun e => (e.1, quote e.2) := by
  have hentries : entries le (Members.ofList (fields.map fun e => (e.1, .string e.2))) =
      fields.map fun e => (e.1, quote e.2) := by
    rw [entries_ofList, List.map_map]
    rfl
  rw [hentries, sortByName, sortByName]
  refine (List.map_insertionSort (r := byName le) (s := byName le) _ _ ?_).symm
  exact fun a _ b _ => Iff.rfl

theorem ofStrings_text_iff {a b : List (Text × Text)} :
    stableJson le (ofStrings a) = stableJson le (ofStrings b) ↔ sortByName le a = sortByName le b := by
  refine ⟨fun h => ?_, fun h => ?_⟩
  · have hsorted := entries_of_object h
    rw [sorted_entries_ofStrings, sorted_entries_ofStrings] at hsorted
    refine List.map_injective_iff.mpr (fun e f hef => ?_) hsorted
    obtain ⟨hname, hvalue⟩ := Prod.mk.inj hef
    exact Prod.ext hname (quote_inj (x := []) (y := []) (by rw [hvalue])).1
  · rw [ofStrings, ofStrings, stableJson_object, stableJson_object, sorted_entries_ofStrings, sorted_entries_ofStrings, h]

theorem ofText_inj {a b : Option Text} (h : stableJson le (ofText a) = stableJson le (ofText b)) : a = b := by
  rcases a with _ | a <;> rcases b with _ | b
  · rfl
  · exact absurd (List.cons.inj h).1 (by decide)
  · exact absurd (List.cons.inj h).1 (by decide)
  · rw [(quote_inj (x := []) (y := []) (congrArg (· ++ ([] : Text)) h)).1]

theorem digits_inj {m n : Nat} (h : Nat.toDigits 10 m = Nat.toDigits 10 n) : m = n := by
  rw [← Nat.ofDigitChars_ten_toDigits (n := m), h, Nat.ofDigitChars_ten_toDigits]

theorem digits_ne_minus {m : Nat} {t : Text} : Nat.toDigits 10 m ≠ '-' :: t := fun h =>
  absurd (Nat.isDigit_of_mem_toDigits (by decide) (by decide) (h ▸ List.mem_cons_self)) (by decide)

theorem integer_chars (n : Int) : ∀ c ∈ Number.text (.int n), c.isDigit ∨ c = '-' := by
  rcases n with n | n
  · exact fun c hc => .inl (Nat.isDigit_of_mem_toDigits (by decide) (by decide) hc)
  · intro c hc
    rcases List.mem_cons.mp hc with rfl | hc
    · exact .inr rfl
    · exact .inl (Nat.isDigit_of_mem_toDigits (by decide) (by decide) hc)

theorem integer_inj {m n : Int} (h : Number.text (.int m) = Number.text (.int n)) : m = n := by
  rcases m with m | m <;> rcases n with n | n
  · rw [digits_inj h]
  · exact absurd h digits_ne_minus
  · exact absurd h.symm digits_ne_minus
  · have hsucc := digits_inj (List.cons.inj h).2
    rw [Nat.succ.inj hsucc]

/-- A text with a point, an exponent or a letter is not of an integer. --/
theorem integer_ne {n : Int} {t : Text} {c : Char} (hc : c ∈ t) (hmark : ¬(c.isDigit ∨ c = '-')) :
    Number.text (.int n) ≠ t := fun h => hmark (integer_chars n c (h ▸ hc))

theorem number_inj {m n : Number} (h : m.text = n.text) : m = n := by
  have hmark : ∀ c : Char, c = '.' ∨ c = 'e' → ¬(c.isDigit ∨ c = '-') := by
    rintro c (rfl | rfl) <;> decide
  have hnull : ∀ t : Text, (∀ c ∈ t, c.isDigit ∨ c = '-' ∨ c = '+' ∨ c = '.' ∨ c = 'e') → t ≠ "null".toList :=
    fun t ht hn => absurd (ht 'n' (hn ▸ List.mem_cons_self)) (by decide)
  rcases m with m | _ | ⟨t, ht, c, hc, hcm⟩ <;> rcases n with n | _ | ⟨u, hu, d, hd, hdm⟩
  · rw [integer_inj h]
  · exact absurd h (integer_ne (t := "null".toList) List.mem_cons_self (by decide))
  · exact absurd h (integer_ne (t := u) hd (hmark d hdm))
  · exact absurd h.symm (integer_ne (t := "null".toList) List.mem_cons_self (by decide))
  · rfl
  · exact absurd h.symm (hnull u hu)
  · exact absurd h.symm (integer_ne (t := t) hc (hmark c hcm))
  · exact absurd h (hnull t ht)
  · cases h
    rfl

theorem ofNumber_inj {a b : Option Number} (h : stableJson le (ofNumber a) = stableJson le (ofNumber b)) : a = b := by
  have hword : ∀ n : Number, n.text ≠ "undefined".toList := by
    have hu : 'u' ∈ "undefined".toList := List.mem_cons_self
    rintro (n | _ | ⟨t, ht, hmark⟩) hn
    · exact integer_ne (t := "undefined".toList) hu (by decide) hn
    · exact absurd hn (by decide)
    · have hmem : 'u' ∈ t := by
        rw [show t = "undefined".toList from hn]
        exact hu
      exact absurd (ht 'u' hmem) (by decide)
  rcases a with _ | a <;> rcases b with _ | b
  · rfl
  · exact absurd h.symm (hword b)
  · exact absurd h (hword a)
  · rw [number_inj h]

end
end StableJson
