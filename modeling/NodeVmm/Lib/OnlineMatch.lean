import Mathlib.Data.List.Infix
import Mathlib.Algebra.Group.Nat.Even

/-! Patterns that are looked for in a stream one symbol at a time.

    `StepBack` is a matcher that goes back through the pattern to the last place that has the symbol it got: it finds
    every occurrence, and also what steps through the pattern with repetitions. `HoldBack` is a filter that removes a
    pattern with a first symbol of its own: it holds a partial occurrence back, and gives it up as a whole. --/

namespace StepBack
variable {α : Type} {p s w : List α} {b : α} {n : Nat}

/-- The symbols step through the pattern up to the place `n`: each is the next one, or one from before again. --/
inductive Walk (p : List α) : List α → Nat → Prop
  | first {b : α} (h : p[0]? = some b) : Walk p [b] 1
  | next {s : List α} {n m : Nat} {b : α} (hs : Walk p s n) (hm : m ≤ n) (h : p[m]? = some b) : Walk p (s ++ [b]) (m + 1)

theorem Walk.le_length (h : Walk p s n) : n ≤ p.length := by
  cases h with
  | first h => exact Nat.succ_le_of_lt (List.getElem?_eq_some_iff.mp h).1
  | next _ _ h => exact Nat.succ_le_of_lt (List.getElem?_eq_some_iff.mp h).1

theorem Walk.ne_nil (h : Walk p s n) : s ≠ [] := by
  cases h with
  | first _ => exact List.cons_ne_nil _ _
  | next _ _ _ => exact List.append_ne_nil_of_right_ne_nil _ (List.cons_ne_nil _ _)

theorem walk_take : ∀ {n : Nat}, n < p.length → Walk p (p.take (n + 1)) (n + 1) := by
  intro n
  induction n with
  | zero =>
    intro h
    have htake : p.take 1 = [p[0]] := by
      rw [List.take_succ_eq_append_getElem h]
      rfl
    rw [htake]
    exact .first (List.getElem?_eq_getElem h)
  | succ n ih =>
    intro h
    rw [List.take_succ_eq_append_getElem h]
    exact .next (ih (Nat.lt_of_succ_lt h)) (Nat.le_refl _) (List.getElem?_eq_getElem h)

/-- The pattern itself is a walk through it. --/
theorem walk_self (hp : p ≠ []) : Walk p p p.length := by
  obtain ⟨n, hn⟩ := Nat.exists_eq_succ_of_ne_zero (mt List.length_eq_zero_iff.mp hp)
  have h := walk_take (p := p) (n := n) (hn ▸ Nat.lt_succ_self n)
  rwa [← Nat.succ_eq_add_one, ← hn, List.take_length] at h

variable [DecidableEq α]

/-- The last place up to `n` at which the pattern has the symbol, or 0. --/
def fallBack (p : List α) (b : α) : Nat → Nat
  | 0 => 0
  | n + 1 => if p[n + 1]? = some b then n + 1 else fallBack p b n

/-- The number of symbols matched after one more. --/
def advance (p : List α) (n : Nat) (b : α) : Nat :=
  if p[fallBack p b n]? = some b then fallBack p b n + 1 else fallBack p b n

theorem fallBack_le : fallBack p b n ≤ n := by
  induction n with
  | zero => exact Nat.le_refl 0
  | succ n ih =>
    unfold fallBack
    split
    · exact Nat.le_refl _
    · exact Nat.le_succ_of_le ih

theorem fallBack_eq : fallBack p b n = 0 ∨ p[fallBack p b n]? = some b := by
  induction n with
  | zero => exact Or.inl rfl
  | succ n ih =>
    unfold fallBack
    split
    · exact Or.inr ‹_›
    · exact ih

theorem le_fallBack {j : Nat} (hj : j ≤ n) (h : p[j]? = some b) : j ≤ fallBack p b n := by
  induction n with
  | zero => exact hj
  | succ n ih =>
    unfold fallBack
    split
    · exact hj
    · rename_i hne
      rcases Nat.lt_or_eq_of_le hj with hlt | rfl
      · exact ih (Nat.le_of_lt_succ hlt)
      · exact absurd h hne

/-- Any place up to `n` that has the symbol lets the matcher get at least behind it. --/
theorem lt_advance {j : Nat} (hj : j ≤ n) (h : p[j]? = some b) : j < advance p n b := by
  have hle := le_fallBack hj h
  have hhas : p[fallBack p b n]? = some b := by
    rcases fallBack_eq (p := p) (b := b) (n := n) with hzero | hhas
    · rw [hzero] at hle ⊢
      rwa [Nat.le_zero.mp hle] at h
    · exact hhas
  rw [advance, if_pos hhas]
  exact Nat.lt_succ_of_le hle

/-- The matcher is as far as a walk at the end of the stream. --/
theorem exists_walk : w.foldl (advance p) 0 = 0 ∨ ∃ s, s <:+ w ∧ Walk p s (w.foldl (advance p) 0) := by
  induction w using List.reverseRecOn with
  | nil => exact Or.inl rfl
  | append_singleton w b ih =>
    rw [List.foldl_append, List.foldl_cons, List.foldl_nil]
    by_cases hhas : p[fallBack p b (w.foldl (advance p) 0)]? = some b
    · right
      rw [advance, if_pos hhas]
      rcases ih with hzero | ⟨s, hs, hwalk⟩
      · rw [hzero] at hhas ⊢
        exact ⟨[b], List.suffix_append w [b], .first hhas⟩
      · exact ⟨s ++ [b], List.suffix_append_self_iff.mpr hs, .next hwalk fallBack_le hhas⟩
    · left
      rw [advance, if_neg hhas]
      exact fallBack_eq.resolve_right hhas

/-- No walk at the end of the stream is ahead of the matcher. --/
theorem Walk.le_foldl (h : Walk p s n) : ∀ {w : List α}, s <:+ w → n ≤ w.foldl (advance p) 0 := by
  have hlast : ∀ {s w : List α} {b : α}, s ++ [b] <:+ w → ∃ v, w = v ++ [b] ∧ s <:+ v := by
    rintro s w b ⟨u, rfl⟩
    exact ⟨u ++ s, (List.append_assoc u s [b]).symm, List.suffix_append u s⟩
  induction h with
  | first h =>
    intro w hw
    obtain ⟨v, rfl, -⟩ := hlast (s := []) hw
    rw [List.foldl_append, List.foldl_cons, List.foldl_nil]
    exact lt_advance (Nat.zero_le _) h
  | next _ hm h ih =>
    intro w hw
    obtain ⟨v, rfl, hv⟩ := hlast hw
    rw [List.foldl_append, List.foldl_cons, List.foldl_nil]
    exact lt_advance (hm.trans (ih hv)) h

/-- The matcher has been at the end of the pattern. --/
def Seen (p w : List α) : Prop := ∃ v, v <+: w ∧ v.foldl (advance p) 0 = p.length

/-- The matcher gets to the end of the pattern exactly by a walk through it. --/
theorem seen_iff (hp : p ≠ []) : Seen p w ↔ ∃ s, s <:+: w ∧ Walk p s p.length := by
  constructor
  · rintro ⟨v, hv, heq⟩
    rcases exists_walk (p := p) (w := v) with hzero | ⟨s, hs, hwalk⟩
    · exact absurd (List.length_eq_zero_iff.mp (heq.symm.trans hzero)) hp
    · exact ⟨s, hs.isInfix.trans hv.isInfix, heq ▸ hwalk⟩
  · rintro ⟨s, ⟨x, y, rfl⟩, hwalk⟩
    refine ⟨x ++ s, List.prefix_append _ _, Nat.le_antisymm ?_ (hwalk.le_foldl (List.suffix_append x s))⟩
    rcases exists_walk (p := p) (w := x ++ s) with hzero | ⟨u, -, hu⟩
    · rw [hzero]
      exact Nat.zero_le _
    · exact hu.le_length

/-- No occurrence is missed. --/
theorem seen_of_occurrence (hp : p ≠ []) (h : p <:+: w) : Seen p w := (seen_iff hp).mpr ⟨p, h, walk_self hp⟩

end StepBack

namespace HoldBack
variable {α : Type} {q p p' u y y' w : List α} {esc b : α}

/-- A partial occurrence. --/
structure Partial (q p : List α) : Prop where
  ne_nil : p ≠ []
  isPrefix : p <+: q
  ne : p ≠ q

/-- The stream ends with so many partial occurrences in a row and not with one more. --/
def PartialRun (q u : List α) (n : Nat) : Prop :=
  ∃ (y : List α) (ps : List (List α)), u = y ++ ps.flatten ∧ (∀ p ∈ ps, Partial q p) ∧ ps.length = n ∧
    ¬∃ y' p, y = y' ++ p ∧ Partial q p

/-- An occurrence stands right behind an odd number of partial ones in a row. --/
def Missed (q w : List α) : Prop := ∃ u v n, w = u ++ q ++ v ∧ PartialRun q u n ∧ ¬Even n

/-- A pattern with a first symbol that is not in it again. --/
structure Unique (esc : α) (q : List α) : Prop where
  cons : ∃ rest, q = esc :: rest ∧ rest ≠ [] ∧ esc ∉ rest

/-! ### Partial occurrences at the end of a stream -/

theorem Unique.head (hq : Unique esc q) (hp : p ≠ []) (hpre : p <+: q) : ∃ r, p = esc :: r ∧ esc ∉ r := by
  obtain ⟨rest, rfl, -, hnot⟩ := hq.cons
  rcases p with _ | ⟨c, r⟩
  · exact absurd rfl hp
  · obtain ⟨rfl, hr⟩ := List.cons_prefix_cons.mp hpre
    exact ⟨r, rfl, fun hmem => hnot (hr.subset hmem)⟩

/-- The last first symbol of a stream tells where an occurrence at its end starts. --/
theorem Unique.eq_of_append (hq : Unique esc q) (hp : p ≠ []) (hpre : p <+: q) (hp' : p' ≠ []) (hpre' : p' <+: q)
    (h : y ++ p = y' ++ p') : y = y' ∧ p = p' := by
  obtain ⟨r, rfl, hr⟩ := hq.head hp hpre
  obtain ⟨r', rfl, hr'⟩ := hq.head hp' hpre'
  rcases List.append_eq_append_iff.mp h with ⟨z, rfl, hz⟩ | ⟨z, rfl, hz⟩
  · rcases z with _ | ⟨c, z⟩
    · exact ⟨(List.append_nil y).symm, hz⟩
    · obtain ⟨rfl, rfl⟩ := List.cons.inj hz
      exact absurd (List.mem_append_right z List.mem_cons_self) hr
  · rcases z with _ | ⟨c, z⟩
    · exact ⟨List.append_nil y', hz.symm⟩
    · obtain ⟨rfl, rfl⟩ := List.cons.inj hz
      exact absurd (List.mem_append_right z List.mem_cons_self) hr'

theorem PartialRun.snoc {n : Nat} (h : PartialRun q y n) (hp : Partial q p) : PartialRun q (y ++ p) (n + 1) := by
  obtain ⟨x, ps, rfl, hps, rfl, hx⟩ := h
  refine ⟨x, ps ++ [p], ?_, fun r hr => ?_, ?_, hx⟩
  · simp
  · rcases List.mem_append.mp hr with hr | hr
    · exact hps r hr
    · exact List.mem_singleton.mp hr ▸ hp
  · simp

/-- A run of partial occurrences ends with the last of them. --/
theorem PartialRun.cases {n : Nat} (h : PartialRun q u n) :
    (n = 0 ∧ ¬∃ y p, u = y ++ p ∧ Partial q p) ∨
      ∃ m y p, n = m + 1 ∧ u = y ++ p ∧ Partial q p ∧ PartialRun q y m := by
  obtain ⟨x, ps, rfl, hps, rfl, hx⟩ := h
  rcases List.eq_nil_or_concat' ps with rfl | ⟨ps, p, rfl⟩
  · left
    rw [List.flatten_nil, List.append_nil]
    exact ⟨rfl, hx⟩
  · refine Or.inr ⟨ps.length, x ++ ps.flatten, p, List.length_append, by simp, hps p (by simp), x, ps, rfl, ?_, rfl, hx⟩
    exact fun r hr => hps r (List.mem_append_left _ hr)

theorem Unique.run_unique (hq : Unique esc q) : ∀ {n m : Nat} {u : List α}, PartialRun q u n → PartialRun q u m → n = m := by
  intro n
  induction n with
  | zero =>
    intro m u hn hm
    rcases hn.cases with ⟨-, hnot⟩ | ⟨_, _, _, hcontra, -⟩
    · rcases hm.cases with ⟨rfl, -⟩ | ⟨_, y, p, -, hu, hp, -⟩
      · rfl
      · exact absurd ⟨y, p, hu, hp⟩ hnot
    · cases hcontra
  | succ n ih =>
    intro m u hn hm
    rcases hn.cases with ⟨hcontra, -⟩ | ⟨n', y, p, heq, rfl, hp, hrun⟩
    · cases hcontra
    · cases heq
      rcases hm.cases with ⟨-, hnot⟩ | ⟨m', y', p', rfl, hu, hp', hrun'⟩
      · exact absurd ⟨y, p, rfl, hp⟩ hnot
      · obtain ⟨rfl, rfl⟩ := hq.eq_of_append hp.ne_nil hp.isPrefix hp'.ne_nil hp'.isPrefix hu
        rw [ih hrun hrun']

theorem exists_run : ∀ u : List α, ∃ n, PartialRun q u n := by
  intro u
  induction h : u.length using Nat.strong_induction_on generalizing u with
  | _ k ih =>
    by_cases hends : ∃ y p, u = y ++ p ∧ Partial q p
    · obtain ⟨y, p, rfl, hp⟩ := hends
      have hlt : y.length < k := by
        rw [← h, List.length_append]
        exact Nat.lt_add_of_pos_right (List.length_pos_iff.mpr hp.ne_nil)
      obtain ⟨n, hn⟩ := ih y.length hlt y rfl
      exact ⟨n + 1, hn.snoc hp⟩
    · exact ⟨0, u, [], (List.append_nil u).symm, fun p hp => absurd hp List.not_mem_nil, rfl, hends⟩

/-- An odd number of partial occurrences in a row at the end. --/
def OddRun (q u : List α) : Prop := ∃ n, PartialRun q u n ∧ ¬Even n

/-- With one partial occurrence more, an odd run is even and an even one odd. --/
theorem Unique.oddRun_snoc (hq : Unique esc q) (hp : Partial q p) : OddRun q (y ++ p) ↔ ¬OddRun q y := by
  obtain ⟨n, hn⟩ := exists_run (q := q) y
  constructor
  · rintro ⟨m, hm, hodd⟩ ⟨k, hk, hodd'⟩
    have hm' := hq.run_unique hm (hn.snoc hp)
    have hk' := hq.run_unique hk hn
    subst hm' hk'
    exact hodd (Nat.even_add_one.mpr hodd')
  · intro hnot
    refine ⟨n + 1, hn.snoc hp, fun heven => hnot ⟨n, hn, Nat.even_add_one.mp heven⟩⟩

theorem OddRun.ends (h : OddRun q u) : ∃ y p, u = y ++ p ∧ Partial q p := by
  obtain ⟨n, hn, hodd⟩ := h
  rcases hn.cases with ⟨rfl, -⟩ | ⟨_, y, p, -, hu, hp, -⟩
  · exact absurd Even.zero hodd
  · exact ⟨y, p, hu, hp⟩

theorem Unique.ne_nil (hq : Unique esc q) : q ≠ [] := by
  obtain ⟨rest, rfl, -, -⟩ := hq.cons
  exact List.cons_ne_nil esc rest

/-- An occurrence at the start of a stream that ends with one is within what is before the last one. --/
theorem Unique.of_append_self (hq : Unique esc q) (hy : y ≠ []) (h : q <+: y ++ q) : q <+: y := by
  obtain ⟨z, hz⟩ := h
  rcases List.append_eq_append_iff.mp hz with ⟨x, rfl, -⟩ | ⟨x, hx, hxz⟩
  · exact List.prefix_append q x
  · rcases x with _ | ⟨c, x⟩
    · rw [hx, List.append_nil]
    · obtain ⟨rest, hrest, -, hnot⟩ := hq.cons
      have hc : c = esc := by
        rw [hrest] at hxz
        exact (List.cons.inj hxz).1.symm
      rcases y with _ | ⟨a, y⟩
      · exact absurd rfl hy
      · rw [hrest] at hx
        refine absurd ?_ hnot
        rw [(List.cons.inj hx).2, ← hc]
        exact List.mem_append_right y List.mem_cons_self

theorem Partial.not_suffix (hp : Partial q p) (hq : Unique esc q) : ¬q <:+ y ++ p := by
  rintro ⟨y', h⟩
  exact hp.ne (hq.eq_of_append hq.ne_nil (List.prefix_refl q) hp.ne_nil hp.isPrefix h).2.symm

theorem Partial.of_snoc (hp : Partial q (p ++ [b])) (hne : p ≠ []) : Partial q p := by
  refine ⟨hne, (List.prefix_append p [b]).trans hp.isPrefix, ?_⟩
  rintro rfl
  have hlen := hp.isPrefix.length_le
  rw [List.length_append] at hlen
  exact absurd hlen (Nat.not_succ_le_self _)

/-- The pattern without its last symbol is a partial occurrence. --/
theorem Unique.exists_last (hq : Unique esc q) : ∃ p b, q = p ++ [b] ∧ Partial q p := by
  obtain ⟨rest, rfl, hrest, -⟩ := hq.cons
  rcases List.eq_nil_or_concat' rest with rfl | ⟨r, b, rfl⟩
  · exact absurd rfl hrest
  · refine ⟨esc :: r, b, rfl, List.cons_ne_nil esc r, List.prefix_append (esc :: r) [b], fun h => ?_⟩
    have hlen := congrArg List.length h
    simp at hlen

theorem Missed.snoc (h : Missed q w) : Missed q (w ++ [b]) := by
  obtain ⟨x, v, n, rfl, hrun⟩ := h
  exact ⟨x, v ++ [b], n, List.append_assoc .., hrun⟩

theorem append_complete (hu : u = y ++ p) (hp : p ++ [b] = q) : u ++ [b] = y ++ q := by
  rw [hu, ← hp, List.append_assoc]

/-! ### Occurrences removed -/

section Remove
variable [DecidableEq α]

/-- Leaves out `skip` symbols, and every occurrence after them. --/
def stripAux (q : List α) : Nat → List α → List α
  | _, [] => []
  | skip + 1, _ :: w => stripAux q skip w
  | 0, b :: w => if q <+: b :: w then stripAux q (q.length - 1) w else b :: stripAux q 0 w

/-- The stream with every occurrence of the pattern removed. --/
def strip (q w : List α) : List α := stripAux q 0 w

/-- The number of places at which an occurrence ends. --/
def occurrences (q w : List α) : Nat := w.inits.countP fun u => decide (q <:+ u)

theorem stripAux_drop : ∀ {k : Nat} {w : List α}, stripAux q k w = strip q (w.drop k) := by
  intro k
  induction k with
  | zero =>
    intro w
    rfl
  | succ k ih =>
    rintro (_ | ⟨b, w⟩)
    · rfl
    · exact ih

theorem strip_cons (h : ¬q <+: b :: w) : strip q (b :: w) = b :: strip q w := if_neg h

theorem Unique.strip_append (hq : Unique esc q) : strip q (q ++ w) = strip q w := by
  obtain ⟨rest, rfl, -, -⟩ := hq.cons
  have hpre : esc :: rest <+: esc :: (rest ++ w) := List.prefix_append (esc :: rest) w
  rw [List.cons_append, strip, stripAux, if_pos hpre, stripAux_drop, List.length_cons, Nat.add_sub_cancel, List.drop_left]

/-- An occurrence at the end is removed as one. --/
theorem Unique.strip_append_self (hq : Unique esc q) : strip q (y ++ q) = strip q y := by
  induction h : y.length using Nat.strong_induction_on generalizing y with
  | _ k ih =>
    rcases y with _ | ⟨a, y⟩
    · have hself := hq.strip_append (w := [])
      rwa [List.append_nil] at hself
    · by_cases hpre : q <+: a :: y
      · obtain ⟨z, hz⟩ := hpre
        have hlt : z.length < k := by
          rw [← h, ← hz, List.length_append]
          exact Nat.lt_add_of_pos_left (List.length_pos_iff.mpr hq.ne_nil)
        rw [← hz, List.append_assoc, hq.strip_append, hq.strip_append]
        exact ih z.length hlt rfl
      · have hpre' : ¬q <+: a :: (y ++ q) := mt (hq.of_append_self (List.cons_ne_nil a y)) hpre
        rw [List.cons_append, strip_cons hpre', strip_cons hpre, ih y.length (h ▸ Nat.lt_succ_self _) rfl]

/-- A symbol at which no occurrence ends stays. --/
theorem Unique.strip_snoc (hq : Unique esc q) (h : ¬q <:+ u ++ [b]) : strip q (u ++ [b]) = strip q u ++ [b] := by
  induction hlen : u.length using Nat.strong_induction_on generalizing u with
  | _ k ih =>
    rcases u with _ | ⟨a, u⟩
    · have hpre : ¬q <+: [b] := by
        intro hpre
        rcases List.prefix_concat_iff.mp (show q <+: [] ++ [b] from hpre) with heq | hnil
        · exact h (heq ▸ List.suffix_refl _)
        · exact hq.ne_nil (List.prefix_nil.mp hnil)
      exact strip_cons hpre
    · by_cases hpre : q <+: a :: u
      · obtain ⟨z, hz⟩ := hpre
        have hlt : z.length < k := by
          rw [← hlen, ← hz, List.length_append]
          exact Nat.lt_add_of_pos_left (List.length_pos_iff.mpr hq.ne_nil)
        rw [← hz, List.append_assoc] at h ⊢
        rw [hq.strip_append, hq.strip_append]
        exact ih z.length hlt (fun hsuf => h (hsuf.trans (List.suffix_append q _))) rfl
      · have hpre' : ¬q <+: (a :: u) ++ [b] := by
          intro hlong
          rcases List.prefix_concat_iff.mp hlong with heq | hshort
          · exact h (heq ▸ List.suffix_refl _)
          · exact hpre hshort
        have hsuf : ¬q <:+ u ++ [b] := fun hsuf => h (hsuf.trans (List.suffix_cons a _))
        rw [List.cons_append] at hpre' ⊢
        rw [strip_cons hpre', strip_cons hpre, ih u.length (hlen ▸ Nat.lt_succ_self _) hsuf rfl]
        rfl

theorem occurrences_snoc : occurrences q (u ++ [b]) = occurrences q u + if q <:+ u ++ [b] then 1 else 0 := by
  simp [occurrences, List.inits_append, List.countP_append, List.countP_singleton]

/-- Nothing of a partial occurrence at the end is removed or counted. --/
theorem Partial.keeps (hq : Unique esc q) (hp : Partial q p) :
    strip q (y ++ p) = strip q y ++ p ∧ occurrences q (y ++ p) = occurrences q y := by
  induction p using List.reverseRecOn with
  | nil => exact absurd rfl hp.ne_nil
  | append_singleton p b ih =>
    have hnot := hp.not_suffix hq (y := y)
    rw [← List.append_assoc] at hnot ⊢
    rw [hq.strip_snoc hnot, occurrences_snoc, if_neg hnot, Nat.add_zero]
    rcases eq_or_ne p [] with rfl | hne
    · rw [List.append_nil]
      exact ⟨rfl, rfl⟩
    · obtain ⟨hstrip, hocc⟩ := ih (hp.of_snoc hne)
      rw [hstrip, hocc, List.append_assoc]
      exact ⟨rfl, rfl⟩

theorem Unique.occurrences_append_self (hq : Unique esc q) : occurrences q (y ++ q) = occurrences q y + 1 := by
  obtain ⟨p, b, hpb, hp⟩ := hq.exists_last
  have hends : q <:+ (y ++ p) ++ [b] := by
    rw [List.append_assoc, ← hpb]
    exact List.suffix_append y q
  calc occurrences q (y ++ q) = occurrences q ((y ++ p) ++ [b]) := by rw [List.append_assoc, ← hpb]
    _ = occurrences q y + 1 := by rw [occurrences_snoc, if_pos hends, (hp.keeps hq).2]

/-- What is removed has the length of the pattern at each place. --/
theorem Unique.length_strip (hq : Unique esc q) : (strip q w).length + q.length * occurrences q w = w.length := by
  induction h : w.length using Nat.strong_induction_on generalizing w with
  | _ k ih =>
    rcases List.eq_nil_or_concat' w with rfl | ⟨u, b, rfl⟩
    · subst h
      have hnil : ¬q <:+ [] := fun hsuf => hq.ne_nil (List.suffix_nil.mp hsuf)
      simp [strip, stripAux, occurrences, hnil]
    · by_cases hends : q <:+ u ++ [b]
      · obtain ⟨y, hy⟩ := hends
        have hlen : y.length + q.length = k := by
          rw [← h, ← hy, List.length_append]
        have hlt : y.length < k := hlen ▸ Nat.lt_add_of_pos_right (List.length_pos_iff.mpr hq.ne_nil)
        rw [← hy, hq.strip_append_self, hq.occurrences_append_self, Nat.mul_add, Nat.mul_one, ← Nat.add_assoc,
          ih y.length hlt rfl, hlen]
      · have hlen : u.length + 1 = k := by
          rw [← h, List.length_append, List.length_singleton]
        have hu := ih u.length (hlen ▸ Nat.lt_succ_self _) rfl
        rw [hq.strip_snoc hends, occurrences_snoc, if_neg hends, List.length_append, List.length_singleton, ← hlen, ← hu]
        exact Nat.add_right_comm ..

/-! ### The filter -/

/-- What is held back, what has been let through, and how many occurrences have been removed. --/
structure Filter (α : Type) where
  pending : List α := []
  emitted : List α := []
  matched : Nat := 0

/-- Holds a first symbol and what continues it back: an occurrence is removed, anything else let through as a whole. --/
def step (q : List α) (esc : α) (f : Filter α) (b : α) : Filter α :=
  if f.pending ≠ [] ∨ b = esc then
    if f.pending ++ [b] <+: q then
      if f.pending ++ [b] = q then { f with pending := [], matched := f.matched + 1 }
      else { f with pending := f.pending ++ [b] }
    else { f with pending := [], emitted := f.emitted ++ (f.pending ++ [b]) }
  else { f with emitted := f.emitted ++ [b] }

/-- A partial occurrence is held back only behind an even run of them. --/
def Held (q u pending : List α) : Prop :=
  (pending = [] ∧ ¬OddRun q u) ∨ (Partial q pending ∧ ∃ y, u = y ++ pending ∧ ¬OddRun q y)

/-- One symbol more completes an occurrence behind an even run, or all it adds is one symbol let through or held. --/
def StepSpec (q u : List α) (f f' : Filter α) (b : α) : Prop :=
  (∃ y, u = y ++ f.pending ∧ f.pending ++ [b] = q ∧ ¬OddRun q y ∧
      f' = { f with pending := [], matched := f.matched + 1 }) ∨
    ((∀ y, u ++ [b] = y ++ q → OddRun q y) ∧ f'.emitted ++ f'.pending = f.emitted ++ f.pending ++ [b] ∧
      f'.matched = f.matched)

theorem Unique.step_idle (hq : Unique esc q) {f : Filter α} (hnil : f.pending = []) (hu : ¬OddRun q u) :
    Held q (u ++ [b]) (step q esc f b).pending ∧ StepSpec q u f (step q esc f b) b := by
  have hodd : ∀ y, u ++ [b] = y ++ q → OddRun q y := by
    intro y hy
    obtain ⟨p, c, hpc, hp⟩ := hq.exists_last
    rw [hpc, ← List.append_assoc] at hy
    obtain ⟨rfl, -⟩ := List.append_inj' hy rfl
    by_contra hnot
    exact hu ((hq.oddRun_snoc hp).mpr hnot)
  obtain ⟨rest, hrest, hrestne, -⟩ := hq.cons
  by_cases hb : b = esc
  · subst hb
    have hpart : Partial q [b] := by
      refine ⟨List.cons_ne_nil b [], hrest ▸ List.prefix_append [b] rest, fun h => hrestne ?_⟩
      rw [hrest] at h
      exact (List.cons.inj h).2.symm
    have hstep : step q b f b = { f with pending := [b] } := by
      rw [step, if_pos (Or.inr rfl), hnil, List.nil_append, if_pos hpart.isPrefix, if_neg hpart.ne]
    rw [hstep]
    refine ⟨Or.inr ⟨hpart, u, rfl, hu⟩, Or.inr ⟨hodd, ?_, rfl⟩⟩
    rw [hnil, List.append_nil]
  · have hstep : step q esc f b = { f with emitted := f.emitted ++ [b] } := by
      rw [step, if_neg (not_or.mpr ⟨not_not.mpr hnil, hb⟩)]
    rw [hstep]
    refine ⟨Or.inl ⟨hnil, fun hcontra => ?_⟩, Or.inr ⟨hodd, ?_, rfl⟩⟩
    · obtain ⟨y, p, hyp, hp⟩ := hcontra.ends
      rcases List.eq_nil_or_concat' p with rfl | ⟨p, c, rfl⟩
      · exact hp.ne_nil rfl
      · have hyp' := hyp
        rw [← List.append_assoc] at hyp'
        obtain ⟨rfl, hbc⟩ := List.append_inj' hyp' rfl
        obtain rfl : b = c := (List.cons.inj hbc).1
        rcases eq_or_ne p [] with rfl | hne
        · obtain ⟨r, hr, -⟩ := hq.head hp.ne_nil hp.isPrefix
          exact hb (List.cons.inj hr).1
        · rw [hyp] at hcontra
          exact hu ((hq.oddRun_snoc (hp.of_snoc hne)).mpr ((hq.oddRun_snoc hp).mp hcontra))
    · rw [hnil, List.append_nil, List.append_nil]

theorem Unique.step_pending (hq : Unique esc q) {f : Filter α} (hp : Partial q f.pending) (hy : ¬OddRun q y) :
    Held q (y ++ f.pending ++ [b]) (step q esc f b).pending ∧
      StepSpec q (y ++ f.pending) f (step q esc f b) b := by
  have hne : f.pending ++ [b] ≠ [] := List.append_ne_nil_of_right_ne_nil _ (List.cons_ne_nil b [])
  by_cases hpre : f.pending ++ [b] <+: q
  · by_cases heq : f.pending ++ [b] = q
    · have hstep : step q esc f b = { f with pending := [], matched := f.matched + 1 } := by
        rw [step, if_pos (Or.inl hp.ne_nil), if_pos hpre, if_pos heq]
      rw [hstep]
      refine ⟨Or.inl ⟨rfl, fun hcontra => ?_⟩, Or.inl ⟨y, rfl, heq, hy, rfl⟩⟩
      obtain ⟨y', p, hyp, hp'⟩ := hcontra.ends
      rw [List.append_assoc, heq] at hyp
      exact hp'.not_suffix hq ⟨y, hyp⟩
    · have hstep : step q esc f b = { f with pending := f.pending ++ [b] } := by
        rw [step, if_pos (Or.inl hp.ne_nil), if_pos hpre, if_neg heq]
      rw [hstep]
      have hpart : Partial q (f.pending ++ [b]) := ⟨hne, hpre, heq⟩
      refine ⟨Or.inr ⟨hpart, y, List.append_assoc .., hy⟩, Or.inr ⟨fun y' hy' => ?_, (List.append_assoc ..).symm, rfl⟩⟩
      rw [List.append_assoc] at hy'
      exact absurd ⟨y', hy'.symm⟩ (hpart.not_suffix hq)
  · have hstep : step q esc f b = { f with pending := [], emitted := f.emitted ++ (f.pending ++ [b]) } := by
      rw [step, if_pos (Or.inl hp.ne_nil), if_neg hpre]
    rw [hstep]
    refine ⟨Or.inl ⟨rfl, fun hcontra => ?_⟩, Or.inr ⟨fun y' hy' => ?_, ?_, rfl⟩⟩
    · obtain ⟨y', p, hyp, hp'⟩ := hcontra.ends
      rcases List.eq_nil_or_concat' p with rfl | ⟨p, c, rfl⟩
      · exact hp'.ne_nil rfl
      · have hyp' := hyp
        rw [← List.append_assoc] at hyp'
        obtain ⟨hu, hbc⟩ := List.append_inj' hyp' rfl
        obtain rfl : b = c := (List.cons.inj hbc).1
        rcases eq_or_ne p [] with rfl | hpne
        · exact (hq.oddRun_snoc hp').mp hcontra ((hq.oddRun_snoc hp).mpr hy)
        · have hpart := hp'.of_snoc hpne
          obtain ⟨-, heq⟩ := hq.eq_of_append hp.ne_nil hp.isPrefix hpart.ne_nil hpart.isPrefix hu
          exact hpre (heq ▸ hp'.isPrefix)
    · obtain ⟨p, c, hpc, hpart⟩ := hq.exists_last
      rw [hpc, ← List.append_assoc] at hy'
      obtain ⟨hu, hbc⟩ := List.append_inj' hy' rfl
      obtain rfl : b = c := (List.cons.inj hbc).1
      obtain ⟨-, heq⟩ := hq.eq_of_append hp.ne_nil hp.isPrefix hpart.ne_nil hpart.isPrefix hu
      exact absurd (heq ▸ hpc ▸ List.prefix_refl q) hpre
    · rw [List.append_nil, List.append_assoc]

theorem Held.step (hq : Unique esc q) {f : Filter α} (h : Held q u f.pending) :
    Held q (u ++ [b]) (step q esc f b).pending ∧ StepSpec q u f (step q esc f b) b := by
  rcases h with ⟨hnil, hu⟩ | ⟨hp, y, rfl, hy⟩
  · exact hq.step_idle hnil hu
  · exact hq.step_pending hp hy

/-- What the filter has done with a stream. --/
def run (q : List α) (esc : α) (w : List α) : Filter α := w.foldl (step q esc) {}

theorem run_snoc : run q esc (w ++ [b]) = step q esc (run q esc w) b := List.foldl_concat ..

theorem Unique.held (hq : Unique esc q) : Held q w (run q esc w).pending := by
  induction w using List.reverseRecOn with
  | nil =>
    refine Or.inl ⟨rfl, fun h => ?_⟩
    obtain ⟨y, p, hyp, hp⟩ := h.ends
    exact hp.ne_nil (List.append_eq_nil_iff.mp hyp.symm).2
  | append_singleton w b ih =>
    rw [run_snoc]
    exact (ih.step hq).1

theorem Unique.step_run (hq : Unique esc q) : StepSpec q w (run q esc w) (run q esc (w ++ [b])) b := by
  rw [run_snoc]
  exact (hq.held.step hq).2

theorem Unique.length_run (hq : Unique esc q) :
    ((run q esc w).emitted ++ (run q esc w).pending).length + q.length * (run q esc w).matched = w.length := by
  induction w using List.reverseRecOn with
  | nil => rfl
  | append_singleton w b ih =>
    rcases hq.step_run (w := w) (b := b) with ⟨y, -, heq, -, hrun⟩ | ⟨-, hlog, hmatched⟩
    · have hlen : (run q esc w).pending.length + 1 = q.length := by
        have hcount := congrArg List.length heq
        rwa [List.length_append, List.length_singleton] at hcount
      simp only [List.length_append] at ih
      simp only [hrun, List.length_append, List.length_nil, List.length_singleton, Nat.mul_add, Nat.mul_one]
      omega
    · simp only [List.length_append] at ih
      simp only [hlog, hmatched, List.length_append, List.length_singleton]
      omega

theorem Unique.matched_le (hq : Unique esc q) : (run q esc w).matched ≤ occurrences q w := by
  induction w using List.reverseRecOn with
  | nil => exact Nat.zero_le _
  | append_singleton w b ih =>
    rw [occurrences_snoc]
    rcases hq.step_run (w := w) (b := b) with ⟨y, hy, heq, -, hrun⟩ | ⟨-, -, hmatched⟩
    · have hends : q <:+ w ++ [b] := ⟨y, (append_complete hy heq).symm⟩
      rw [hrun, if_pos hends]
      exact Nat.succ_le_succ ih
    · rw [hmatched]
      exact ih.trans (Nat.le_add_right _ _)

theorem Unique.matched_lt (hq : Unique esc q) (h : Missed q w) : (run q esc w).matched < occurrences q w := by
  obtain ⟨x, v, n, rfl, hrun, hodd⟩ := h
  induction v using List.reverseRecOn with
  | nil =>
    obtain ⟨p, b, hpb, -⟩ := hq.exists_last
    have hends : q <:+ x ++ p ++ [b] := ⟨x, by rw [List.append_assoc, ← hpb]⟩
    have hx : x ++ q ++ [] = x ++ p ++ [b] := by rw [List.append_nil, List.append_assoc, ← hpb]
    rw [hx, occurrences_snoc, if_pos hends]
    rcases hq.step_run (w := x ++ p) (b := b) with ⟨y, hy, heq, hnot, -⟩ | ⟨-, -, hmatched⟩
    · refine absurd (show OddRun q x from ⟨n, hrun, hodd⟩) ?_
      have hxy : x ++ q = y ++ q := by rw [← append_complete hy heq, List.append_assoc, ← hpb]
      rw [List.append_cancel_right hxy]
      exact hnot
    · rw [hmatched]
      exact Nat.lt_succ_of_le hq.matched_le
  | append_singleton v b ih =>
    rw [← List.append_assoc, occurrences_snoc]
    rcases hq.step_run (w := x ++ q ++ v) (b := b) with ⟨y, hy, heq, -, hrun⟩ | ⟨-, -, hmatched⟩
    · have hends : q <:+ x ++ q ++ v ++ [b] := ⟨y, (append_complete hy heq).symm⟩
      rw [hrun, if_pos hends]
      exact Nat.succ_lt_succ ih
    · rw [hmatched]
      exact Nat.lt_of_lt_of_le ih (Nat.le_add_right _ _)

theorem Unique.run_eq (hq : Unique esc q) (h : ¬Missed q w) :
    (run q esc w).emitted ++ (run q esc w).pending = strip q w ∧ (run q esc w).matched = occurrences q w := by
  induction w using List.reverseRecOn with
  | nil =>
    have hnil : ¬q <:+ [] := fun hsuf => hq.ne_nil (List.suffix_nil.mp hsuf)
    simp [run, strip, stripAux, occurrences, hnil]
  | append_singleton w b ih =>
    obtain ⟨hlog, hmatched⟩ := ih (mt Missed.snoc h)
    rcases hq.step_run (w := w) (b := b) with ⟨y, hy, heq, -, hrun⟩ | ⟨hodd, hlog', hmatched'⟩
    · obtain ⟨p, c, hpc, hp⟩ := hq.exists_last
      obtain ⟨hpend, -⟩ := List.append_inj' (heq.trans hpc) rfl
      have hyp : w = y ++ p := hpend ▸ hy
      obtain ⟨hstrip, hocc⟩ := hp.keeps hq (y := y)
      rw [← hyp, ← hlog, hpend] at hstrip
      rw [hrun, append_complete hy heq, hq.strip_append_self, hq.occurrences_append_self, List.append_nil]
      refine ⟨List.append_cancel_right hstrip, ?_⟩
      rw [hmatched, hyp, hocc]
    · have hends : ¬q <:+ w ++ [b] := by
        rintro ⟨y, hy⟩
        obtain ⟨n, hn, hodd'⟩ := hodd y hy.symm
        exact h ⟨y, [], n, (List.append_nil _).symm ▸ hy.symm, hn, hodd'⟩
      rw [hlog', hmatched', hq.strip_snoc hends, occurrences_snoc, if_neg hends, hlog, hmatched]
      exact ⟨rfl, rfl⟩

/-- What is let through and held is the stream without the pattern, exactly if no occurrence is missed. --/
theorem Unique.run_iff (hq : Unique esc q) :
    (run q esc w).emitted ++ (run q esc w).pending = strip q w ↔ ¬Missed q w := by
  refine ⟨fun heq hmissed => ?_, fun h => (hq.run_eq h).1⟩
  have hrun := hq.length_run (w := w)
  rw [heq, ← hq.length_strip (w := w)] at hrun
  have hmatched := Nat.eq_of_mul_eq_mul_left (List.length_pos_iff.mpr hq.ne_nil) (Nat.add_left_cancel hrun)
  exact Nat.ne_of_lt (hq.matched_lt hmissed) hmatched

end Remove

end HoldBack
