import NodeVmm.Lib.Shell

/-! The variables in a text that a shell reads. How the reader goes from one character to the next and what the commands do are
    parameters. Where a command does not change a variable, a reference to it stands for its value, and where the reader takes
    the characters of a value as text, they stand for the value: both may be exchanged in any number of places. -/

namespace Shell

abbrev Env := Text → Option Text

/-! ### References -/

/-- The name that stands after a `$`, in braces or not, and how many characters there are to the end. --/
def parameter (s : Text) : Option (Text × Nat) :=
  if s.head? = some '{' then
    let name := s.tail.takeWhile isNameChar
    if name.head?.any isNameStart && (s.tail.drop name.length).head? = some '}' then some (name, name.length + 2) else none
  else
    let name := s.takeWhile isNameChar
    if name.head?.any isNameStart then some (name, name.length) else none

section
variable {s t u name : Text} {n : Nat}

theorem dollar_not_nameChar : isNameChar '$' = false := by decide

theorem not_mem_takeWhile : '$' ∉ s.takeWhile isNameChar := fun h =>
  absurd (List.mem_takeWhile_imp h) (by simp [dollar_not_nameChar])

/-- A character begins a reference or does not. --/
theorem begins_or_not (c : Char) (s : Text) :
    (c = '$' → parameter s = none) ∨ ∃ name n, c = '$' ∧ parameter s = some (name, n) := by
  by_cases hmatch : c = '$' → parameter s = none
  · exact .inl hmatch
  · obtain ⟨hc, hsome⟩ := Classical.not_imp.mp hmatch
    obtain ⟨⟨name, n⟩, hm⟩ := Option.ne_none_iff_exists'.mp hsome
    exact .inr ⟨name, n, hc, hm⟩

/-- A reference ends before the next `$`. --/
theorem parameter_not_mem (h : parameter s = some (name, n)) : '$' ∉ s.take n := by
  unfold parameter at h
  dsimp only at h
  split at h
  · rename_i hbrace
    obtain ⟨t, rfl⟩ := List.head?_eq_some_iff.mp hbrace
    rw [List.tail_cons] at h
    split at h
    · rename_i hname
      obtain ⟨-, hend⟩ := Bool.and_eq_true_iff.mp hname
      obtain ⟨u, hu⟩ := List.head?_eq_some_iff.mp (of_decide_eq_true hend)
      obtain ⟨-, rfl⟩ := Prod.mk.inj (Option.some.inj h)
      have htake : t.take ((t.takeWhile isNameChar).length + 1) = t.takeWhile isNameChar ++ ['}'] := by
        rw [List.take_add, hu, List.take_succ_cons, List.take_zero]
        exact congrArg (· ++ ['}']) (List.prefix_iff_eq_take.mp (List.takeWhile_prefix _)).symm
      rw [List.take_succ_cons, htake]
      simp [not_mem_takeWhile]
    · cases h
  · split at h
    · obtain ⟨-, rfl⟩ := Prod.mk.inj (Option.some.inj h)
      rw [← List.prefix_iff_eq_take.mp (List.takeWhile_prefix _)]
      exact not_mem_takeWhile
    · cases h

/-- Only the characters up to the end of a name tell whether there is a reference. --/
theorem parameter_none_of_head (h : parameter s = none) (hbrace : s.head? ≠ some '{') (hst : t.head? = s.head?) :
    parameter t = none := by
  cases s with
  | nil =>
    rw [List.head?_eq_none_iff.mp hst]
    rfl
  | cons c s =>
    obtain ⟨t, rfl⟩ := List.head?_eq_some_iff.mp hst
    have hc : (c :: t).head? ≠ some '{' := hbrace
    rw [parameter, if_neg hbrace] at h
    rw [parameter, if_neg hc]
    cases hname : isNameChar c <;> simp_all

theorem parameter_none_of_brace (h : parameter ('{' :: (name ++ s)) = none) (hname : ∀ c ∈ name, isNameChar c = true)
    (hs : ∀ c ∈ s.head?, isNameChar c = false) (hst : t.head? = s.head?) : parameter ('{' :: (name ++ t)) = none := by
  have htake : ∀ {u : Text}, u.head? = s.head? → (name ++ u).takeWhile isNameChar = name := fun {u} hu => by
    rw [List.takeWhile_append_of_pos hname]
    cases u with
    | nil => simp
    | cons c u => simp [hs c (by rw [← hu]; rfl)]
  simp only [parameter, List.head?_cons, if_true, List.tail_cons, htake rfl, List.drop_left] at h
  simp only [parameter, List.head?_cons, if_true, List.tail_cons, htake hst, List.drop_left, hst]
  exact h

end

/-! ### Readers -/

/-- Where quotes take a reader, from one character to the next. --/
def quoteStep : Place → Char → Option Place
  | .plain, c =>
    if c = '\'' then some .single else if c = '\\' then some .escaped
    else if ordinary c ∨ c = ' ' then some .plain else none
  | .escaped, _ => some .plain
  | .single, c => some (if c = '\'' then .plain else .single)
  | .operator, _ => none

/-- How a shell reads. `start` is where a command begins, `next` and `after` are where the reader is after a character and after
    a reference, `expands` tells where a reference is one, and `literal` where a character is taken as text of a word. `place` is
    where the reader is as far as quotes go, when they are simple. --/
structure Reader where
  Pos : Type
  start : Pos
  next : Pos → Char → Pos
  after : Pos → Pos
  expands : Pos → Bool
  literal : Pos → Char → Bool
  place : Pos → Option Place
  place_start : place start = some .plain
  place_next : ∀ {q p p' c}, place q = some p → quoteStep p c = some p' → place (next q c) = some p'
  expands_quoted : ∀ {q p}, place q = some p → p ≠ .plain → expands q = false
  -- `$$` is a parameter, and there are no references in the name after `${`
  expands_dollar : ∀ {q}, expands q = true → expands (next q '$') = false
  expands_braced : ∀ {q} {name : Text}, expands q = true → (∀ c ∈ name, isNameChar c = true) →
    expands (name.foldl next (next (next q '$') '{')) = false
  literal_dollar : ∀ {q}, expands q = true → literal q '$' = false

/-- What a shell has read: characters where they stand, references, and values that are text and nothing else. --/
inductive Item (Pos : Type) where
  | char (q : Pos) (c : Char)
  | param (q : Pos) (name : Text)
  | value (q : Pos) (v : Text)
  deriving DecidableEq, Repr

/-- A name after a `$`, as it is written, whether or not the reader takes it as a reference there. --/
structure Reference (Pos : Type) where
  pos : Pos
  name : Text
  source : Text
  deriving DecidableEq, Repr

namespace Reader
variable (r : Reader)

/-- The items of a text after some characters that are in the last reference. --/
def readAfter : Nat → r.Pos → Text → List (Item r.Pos)
  | _, _, [] => []
  | n + 1, q, _ :: s => readAfter n q s
  | 0, q, c :: s =>
    match if c = '$' ∧ r.expands q = true then parameter s else none with
    | some (name, n) => .param q name :: readAfter n (r.after q) s
    | none => .char q c :: readAfter 0 (r.next q c) s

def read (s : Text) : List (Item r.Pos) := r.readAfter 0 r.start s

def referencesAfter : Nat → r.Pos → Text → List (Reference r.Pos)
  | _, _, [] => []
  | n + 1, q, _ :: s => referencesAfter n q s
  | 0, q, c :: s =>
    match if c = '$' then parameter s else none with
    | some (name, n) => ⟨q, name, '$' :: s.take n⟩ ::
        if r.expands q then referencesAfter n (r.after q) s else referencesAfter 0 (r.next q c) s
    | none => referencesAfter 0 (r.next q c) s

def references (s : Text) : List (Reference r.Pos) := r.referencesAfter 0 r.start s

/-- The characters of a text in a place. --/
def chars : r.Pos → Text → List (Item r.Pos)
  | _, [] => []
  | q, c :: v => .char q c :: chars (r.next q c) v

/-- The reader takes every character as text and goes on as in the place `p`. --/
def InertTo (p : r.Pos) : r.Pos → Text → Prop
  | q, [] => q = p
  | q, c :: v => r.literal q c = true ∧ InertTo p (r.next q c) v

/-- Written out in a place, the value is read as text, and what follows as after a reference. --/
def Inert (q : r.Pos) (v : Text) : Prop := r.InertTo (r.after q) q v

variable {r} {q p : r.Pos} {c : Char} {s v name : Text} {n : Nat}

theorem readAfter_param (h : parameter s = some (name, n)) (hq : r.expands q = true) :
    r.readAfter 0 q ('$' :: s) = .param q name :: r.readAfter n (r.after q) s := by
  rw [readAfter, if_pos ⟨rfl, hq⟩, h]

theorem readAfter_char (h : c = '$' → r.expands q = true → parameter s = none) :
    r.readAfter 0 q (c :: s) = .char q c :: r.readAfter 0 (r.next q c) s := by
  rw [readAfter]
  split
  · rename_i hmatch
    obtain ⟨hc, hmatch⟩ := Option.ite_none_right_eq_some.mp hmatch
    rw [h hc.1 hc.2] at hmatch
    cases hmatch
  · rfl

theorem referencesAfter_match (h : parameter s = some (name, n)) :
    r.referencesAfter 0 q ('$' :: s) = ⟨q, name, '$' :: s.take n⟩ ::
      if r.expands q then r.referencesAfter n (r.after q) s else r.referencesAfter 0 (r.next q '$') s := by
  rw [referencesAfter, if_pos rfl, h]

theorem referencesAfter_char (h : c = '$' → parameter s = none) :
    r.referencesAfter 0 q (c :: s) = r.referencesAfter 0 (r.next q c) s := by
  rw [referencesAfter]
  split
  · rename_i hmatch
    obtain ⟨hc, hmatch⟩ := Option.ite_none_right_eq_some.mp hmatch
    rw [h hc] at hmatch
    cases hmatch
  · rfl

/-- A reference is written with a `$` first. --/
theorem source_eq {ref : Reference r.Pos} (h : ref ∈ r.referencesAfter n q s) : ∃ source, ref.source = '$' :: source := by
  induction s generalizing n q with
  | nil => cases n <;> cases h
  | cons c s ih =>
    cases n with
    | succ n => exact ih h
    | zero =>
      rcases begins_or_not c s with hmatch | ⟨name, n, rfl, hm⟩
      · rw [referencesAfter_char hmatch] at h
        exact ih h
      · rw [referencesAfter_match hm] at h
        rcases List.mem_cons.mp h with rfl | h
        · exact ⟨_, rfl⟩
        · split at h
          · exact ih h
          · exact ih h

/-- The references that the shell reads are those of the text where it expands. --/
theorem param_mem_readAfter : .param p name ∈ r.readAfter n q s ↔
    ∃ ref ∈ r.referencesAfter n q s, ref.pos = p ∧ ref.name = name ∧ r.expands p = true := by
  induction s generalizing n q with
  | nil => cases n <;> simp [readAfter, referencesAfter]
  | cons c s ih =>
    cases n with
    | succ n => exact ih
    | zero =>
      by_cases hc : c = '$'
      · subst hc
        cases hmatch : parameter s with
        | none => simp [readAfter_char, referencesAfter_char, hmatch, ih]
        | some m =>
          rw [referencesAfter_match hmatch]
          cases hq : r.expands q with
          | true =>
            have hself : (p = q ∧ name = m.1) ↔ q = p ∧ m.1 = name ∧ r.expands p = true := by
              constructor
              · rintro ⟨rfl, rfl⟩
                exact ⟨rfl, rfl, hq⟩
              · rintro ⟨rfl, rfl, -⟩
                exact ⟨rfl, rfl⟩
            rw [readAfter_param hmatch hq, List.mem_cons, Item.param.injEq, ih, hself]
            simp
          | false =>
            have hself : ¬(q = p ∧ m.1 = name ∧ r.expands p = true) := by
              rintro ⟨rfl, -, hp⟩
              rw [hq] at hp
              cases hp
            rw [readAfter_char (by simp [hq]), List.mem_cons, ih]
            simp [hself]
      · simp [readAfter_char, referencesAfter_char, hc, ih]

theorem readAfter_inert (h : r.InertTo p q v) : r.readAfter 0 q (v ++ s) = r.chars q v ++ r.readAfter 0 p s := by
  induction v generalizing q with
  | nil => rw [show q = p from h]; rfl
  | cons c v ih =>
    obtain ⟨hc, hv⟩ := h
    have hnot : ¬(c = '$' ∧ r.expands q = true) := by
      rintro ⟨rfl, hq⟩
      rw [r.literal_dollar hq] at hc
      cases hc
    rw [List.cons_append, readAfter_char fun hc hq => absurd ⟨hc, hq⟩ hnot]
    exact congrArg (.char q c :: ·) (ih hv)

/-- In a text that is quoted word by word the reader takes no `$` as a reference. --/
theorem references_quoted {word : Text} {place : Place} (hplace : r.place q = some place)
    (hword : (unquoteFrom place word).isSome = true) :
    r.place (word.foldl r.next q) = some .plain ∧
      ∀ ref ∈ r.referencesAfter 0 q (word ++ s), r.expands ref.pos = false ∨
        ref ∈ r.referencesAfter 0 (word.foldl r.next q) s := by
  induction word generalizing q place with
  | nil =>
    cases place with
    | plain => exact ⟨hplace, fun ref href => .inr href⟩
    | _ => cases hword
  | cons c word ih =>
    obtain ⟨place', hstep, hrest⟩ : ∃ place', quoteStep place c = some place' ∧ (unquoteFrom place' word).isSome = true := by
      cases place with
      | plain =>
        rw [unquoteFrom] at hword
        rw [quoteStep]
        split_ifs at hword ⊢ <;> simp_all
      | escaped =>
        rw [unquoteFrom] at hword
        split_ifs at hword
        · cases hword
        · exact ⟨.plain, rfl, by simpa using hword⟩
      | single =>
        rw [unquoteFrom] at hword
        rw [quoteStep]
        split_ifs at hword ⊢ <;> simp_all
      | operator => cases hword
    have hexpands : c = '$' → r.expands q = false := by
      rintro rfl
      refine r.expands_quoted hplace fun hplain => ?_
      subst hplain
      cases hword
    obtain ⟨hend, hrefs⟩ := ih (r.place_next hplace hstep) hrest
    refine ⟨hend, fun ref href => ?_⟩
    rw [List.cons_append] at href
    rcases begins_or_not c (word ++ s) with hmatch | ⟨name, n, rfl, hm⟩
    · rw [referencesAfter_char hmatch] at href
      exact hrefs ref href
    · rw [referencesAfter_match hm, hexpands rfl, if_neg (by simp)] at href
      rcases List.mem_cons.mp href with rfl | href
      · exact .inl (hexpands rfl)
      · exact hrefs ref href

end Reader

/-! ### What commands do -/

/-- What a shell does with the items that it has read and the variables that it begins with, where `changes` are the variables
    that it sets to something else. --/
structure Lawful {β : Type} (r : Reader) (changes : List (Item r.Pos) → Env → Text → Prop)
    (run : List (Item r.Pos) → Env → β) : Prop where
  value : ∀ {xs ys q name v env}, env name = some v → ¬changes (xs ++ .param q name :: ys) env name →
    run (xs ++ .value q v :: ys) env = run (xs ++ .param q name :: ys) env
  text : ∀ {xs ys q v env}, r.Inert q v → run (xs ++ (r.chars q v ++ ys)) env = run (xs ++ .value q v :: ys) env

/-- Which variables a shell changes is something that it does. --/
structure Commands (r : Reader) where
  changes : List (Item r.Pos) → Env → Text → Prop
  lawful : Lawful r changes changes

section
variable {r : Reader} {changes : List (Item r.Pos) → Env → Text → Prop} {β : Type} {run : List (Item r.Pos) → Env → β}

/-- A reference with the text `fill` in its place. --/
def Reader.fillItem (r : Reader) (fill : Text → Text) : Item r.Pos → List (Item r.Pos)
  | .param q name => r.chars q (fill name)
  | i => [i]

/-- A command behaves as before when the values of variables that it does not change are written out. --/
theorem Lawful.run_fill (hchanges : Lawful r changes changes) {fill : Text → Text} {env : Env} :
    ∀ (ys xs : List (Item r.Pos)), (∀ q name, .param q name ∈ ys →
      env name = some (fill name) ∧ r.Inert q (fill name) ∧ ¬changes (xs ++ ys) env name) →
    ∀ {β : Type} {run : List (Item r.Pos) → Env → β}, Lawful r changes run →
      run (xs ++ ys.flatMap (r.fillItem fill)) env = run (xs ++ ys) env
  | [], _, _, _, _, _ => rfl
  | y :: ys, xs, h, _, run, hrun => by
    have hrest : ∀ {β : Type} {run : List (Item r.Pos) → Env → β}, Lawful r changes run →
        run (xs ++ (y :: ys.flatMap (r.fillItem fill))) env = run (xs ++ y :: ys) env := fun hrun => by
      have hys := run_fill hchanges ys (xs ++ [y])
        (fun q name hmem => by simpa using h q name (List.mem_cons_of_mem _ hmem)) hrun
      simpa using hys
    rw [← hrest hrun, List.flatMap_cons]
    cases y with
    | char q c => rfl
    | value q v => rfl
    | param q name =>
      obtain ⟨henv, hinert, hsame⟩ := h q name List.mem_cons_self
      rw [← hrest hchanges] at hsame
      rw [← hrun.value henv hsame, ← hrun.text hinert]
      rfl

/-! The behaviour that tells as much as the laws let it tell: the items with the values of the variables that do not change
    written out, and the variables. -/

open Classical in
noncomputable def Reader.writeOut (r : Reader) (q : r.Pos) (v : Text) : List (Item r.Pos) :=
  if r.Inert q v then r.chars q v else [.value q v]

open Classical in
noncomputable def Reader.resolveItem (r : Reader) (fixed : Text → Prop) (env : Env) : Item r.Pos → List (Item r.Pos)
  | .char q c => [.char q c]
  | .value q v => r.writeOut q v
  | .param q name =>
    match env name with
    | some v => if fixed name then r.writeOut q v else [.param q name]
    | none => [.param q name]

noncomputable def Reader.resolve (r : Reader) (changes : List (Item r.Pos) → Env → Text → Prop) (xs : List (Item r.Pos))
    (env : Env) : List (Item r.Pos) × Env :=
  (xs.flatMap (r.resolveItem (fun k => ¬changes xs env k) env), env)

theorem resolveItem_chars {fixed : Text → Prop} {env : Env} (q : r.Pos) (v : Text) :
    (r.chars q v).flatMap (r.resolveItem fixed env) = r.chars q v := by
  induction v generalizing q with
  | nil => rfl
  | cons c v ih => exact congrArg (.char q c :: ·) (ih (r.next q c))

theorem lawful_resolve (h : Lawful r changes changes) : Lawful r changes (r.resolve changes) where
  value {xs ys q name v env} henv hsame := by
    have hchanges : changes (xs ++ .value q v :: ys) env = changes (xs ++ .param q name :: ys) env := h.value henv hsame
    have hparam : r.resolveItem (fun k => ¬changes (xs ++ .param q name :: ys) env k) env (.param q name) = r.writeOut q v := by
      simp only [Reader.resolveItem, henv]
      exact if_pos hsame
    simp only [Reader.resolve, hchanges, List.flatMap_append, List.flatMap_cons, hparam]
    rfl
  text {xs ys q v env} hinert := by
    have hchanges : changes (xs ++ (r.chars q v ++ ys)) env = changes (xs ++ .value q v :: ys) env := h.text hinert
    have hvalue : ∀ fixed, r.resolveItem fixed env (.value q v) = r.chars q v := fun _ => if_pos hinert
    simp only [Reader.resolve, hchanges, List.flatMap_append, List.flatMap_cons, hvalue, resolveItem_chars]

theorem param_not_mem_chars {q p : r.Pos} {name v : Text} : .param p name ∉ r.chars q v := by
  induction v generalizing q with
  | nil => simp [Reader.chars]
  | cons c v ih => simp [Reader.chars, ih]

theorem param_of_resolve {fixed : Text → Prop} {env : Env} {xs : List (Item r.Pos)} {q : r.Pos} {name : Text}
    (h : .param q name ∈ xs.flatMap (r.resolveItem fixed env)) : .param q name ∈ xs := by
  have hwrite : ∀ {p : r.Pos} {v : Text}, .param q name ∉ r.writeOut p v := fun {p v} => by
    unfold Reader.writeOut
    split
    · exact param_not_mem_chars
    · simp
  obtain ⟨x, hx, hmem⟩ := List.mem_flatMap.mp h
  cases x with
  | char p c => simp [Reader.resolveItem] at hmem
  | value p v => exact absurd hmem hwrite
  | param p name' =>
    have hself : .param q name = (.param p name' : Item r.Pos) := by
      simp only [Reader.resolveItem] at hmem
      split at hmem
      · split at hmem
        · exact absurd hmem hwrite
        · exact List.mem_singleton.mp hmem
      · exact List.mem_singleton.mp hmem
    rw [hself]
    exact hx

/-- What every lawful shell takes for a command has the references of that command to variables that the command changes. --/
theorem Commands.param_mem {c : Commands r} {xs ys : List (Item r.Pos)} {env env' : Env}
    (h : r.resolve c.changes xs env = r.resolve c.changes ys env') {q : r.Pos} {name : Text}
    (hmem : .param q name ∈ ys) (hchanges : c.changes ys env' name) : .param q name ∈ xs := by
  have hitem : r.resolveItem (fun k => ¬c.changes ys env' k) env' (.param q name) = [.param q name] := by
    simp only [Reader.resolveItem]
    split
    · exact if_neg (not_not_intro hchanges)
    · rfl
  have hresolved : .param q name ∈ (r.resolve c.changes ys env').1 :=
    List.mem_flatMap.mpr ⟨_, hmem, by rw [hitem]; exact List.mem_singleton_self _⟩
  rw [← h] at hresolved
  exact param_of_resolve hresolved

/-- Commands that change the same variables wherever they run. --/
def Commands.constant (changed : Text → Prop) : Commands r where
  changes _ _ := changed
  lawful := ⟨fun _ _ => rfl, fun _ => rfl⟩

end

/-! ### Texts with quotes and references -/

inductive QuotePos where
  | word (double : Bool)
  | escaped (double : Bool)
  | single
  | dollar (double : Bool)
  | braced (double : Bool)
  deriving DecidableEq, Repr

namespace QuotePos

/-- After a character of a word, between double quotes or not. --/
def inWord : Bool → Char → QuotePos
  | false, c =>
    if c = '\'' then .single else if c = '\\' then .escaped false else if c = '"' then .word true
    else if c = '$' then .dollar false else .word false
  | true, c =>
    if c = '"' then .word false else if c = '\\' then .escaped true else if c = '$' then .dollar true else .word true

def next : QuotePos → Char → QuotePos
  | .word double, c => inWord double c
  | .escaped double, _ => .word double
  | .single, c => if c = '\'' then .word false else .single
  | .dollar double, c => if c = '{' then .braced double else if c = '$' then .word double else inWord double c
  | .braced double, c => if c = '}' then .word double else .braced double

def expands : QuotePos → Bool
  | .word _ => true
  | _ => false

def literal : QuotePos → Char → Bool
  | .word false, c => ordinary c
  | .word true, c => !"\"$`\\".toList.contains c
  | _, _ => false

def place : QuotePos → Option Place
  | .word false => some .plain
  | .escaped false => some .escaped
  | .single => some .single
  | _ => none

theorem place_next {q : QuotePos} {p p' : Place} {c : Char} (hp : q.place = some p) (hstep : quoteStep p c = some p') :
    (q.next c).place = some p' := by
  cases q with
  | word double =>
    cases double with
    | false =>
      obtain rfl := Option.some.inj hp
      have hspecial : ordinary c = true ∨ c = ' ' → c ≠ '"' ∧ c ≠ '$' := by
        rintro (h | rfl)
        · constructor
          · rintro rfl
            cases h
          · rintro rfl
            cases h
        · decide
      unfold quoteStep at hstep
      simp only [next, inWord]
      split_ifs at hstep ⊢ <;> simp_all [place]
    | true => cases hp
  | escaped double =>
    cases double with
    | false =>
      obtain rfl := Option.some.inj hp
      exact hstep
    | true => cases hp
  | single =>
    obtain rfl := Option.some.inj hp
    simp only [quoteStep] at hstep
    simp only [next]
    split_ifs at hstep ⊢ <;> exact hstep
  | dollar _ => cases hp
  | braced _ => cases hp

theorem expands_quoted {q : QuotePos} {p : Place} (hp : q.place = some p) (hne : p ≠ .plain) : q.expands = false := by
  cases q with
  | word double =>
    cases double with
    | false => exact absurd (Option.some.inj hp).symm hne
    | true => cases hp
  | _ => rfl

theorem next_dollar {q : QuotePos} (hq : q.expands = true) : ∃ double, q.next '$' = .dollar double := by
  cases q with
  | word double => cases double <;> exact ⟨_, rfl⟩
  | _ => cases hq

theorem braced_name (double : Bool) : ∀ {name : Text}, (∀ c ∈ name, isNameChar c = true) →
    name.foldl next (.braced double) = .braced double
  | [], _ => rfl
  | c :: name, h => by
    obtain ⟨hc, hname⟩ := List.forall_mem_cons.mp h
    have hbrace : c ≠ '}' := fun heq => by
      rw [heq] at hc
      cases hc
    rw [List.foldl_cons, next, if_neg hbrace]
    exact braced_name double hname

end QuotePos

/-- A reader of texts that have quotes and references, and no substitutions, comments or here-documents. --/
def quoteReader : Reader where
  Pos := QuotePos
  start := .word false
  next := QuotePos.next
  after := id
  expands := QuotePos.expands
  literal := QuotePos.literal
  place := QuotePos.place
  place_start := rfl
  place_next := QuotePos.place_next
  expands_quoted := QuotePos.expands_quoted
  expands_dollar hq := by
    obtain ⟨double, hnext⟩ := QuotePos.next_dollar hq
    rw [hnext]
    rfl
  expands_braced hq hname := by
    obtain ⟨double, hnext⟩ := QuotePos.next_dollar hq
    rw [hnext, show QuotePos.next (.dollar double) '{' = .braced double from rfl, QuotePos.braced_name double hname]
    rfl
  literal_dollar {q} hq := by
    cases q with
    | word double => cases double <;> rfl
    | _ => cases hq

end Shell
