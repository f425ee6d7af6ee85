import Mathlib.Algebra.BigOperators.Fin
import Mathlib.Algebra.Order.BigOperators.Group.Finset

/-! Runs of systems whose events may be disabled, and of systems of `n` threads of which an event moves one. -/

namespace Runs
variable {σ ε : Type} {step : σ → ε → Option σ} {ok : σ → ε → Prop} {s t u : σ} {es fs : List ε}

/-- A run from `s` to `t` by the events `es`, every one of them taken where `ok` allows it. --/
inductive Under (step : σ → ε → Option σ) (ok : σ → ε → Prop) : σ → List ε → σ → Prop
  | nil {s : σ} : Under step ok s [] s
  | cons {s t u : σ} {e : ε} {es : List ε} (hok : ok s e) (hstep : step s e = some t) (hrest : Under step ok t es u) :
    Under step ok s (e :: es) u

/-- The last state of a run whose events are all allowed. --/
def runUnder (step : σ → ε → Option σ) (ok : σ → ε → Prop) [∀ s e, Decidable (ok s e)] : σ → List ε → Option σ
  | s, [] => some s
  | s, e :: es => if ok s e then (step s e).bind fun t => runUnder step ok t es else none

theorem under_of_runUnder [∀ s e, Decidable (ok s e)] : ∀ {s : σ} {es : List ε},
    runUnder step ok s es = some t → Under step ok s es t
  | _, [], h => by
    cases h
    exact .nil
  | s, e :: es, h => by
    unfold runUnder at h
    split at h
    · rename_i hok
      obtain ⟨u, hstep, hrest⟩ := Option.bind_eq_some_iff.mp h
      exact .cons hok hstep (under_of_runUnder hrest)
    · cases h

/-- A run that is checked by evaluation. --/
theorem exists_under (step : σ → ε → Option σ) (ok : σ → ε → Prop) [∀ s e, Decidable (ok s e)] (s : σ) (es : List ε)
    (P : σ → Prop) [DecidablePred P] (h : (runUnder step ok s es).any (fun t => decide (P t)) = true) : ∃ t, Under step ok s es t ∧ P t := by
  obtain ⟨t, hrun, hP⟩ := (Option.any_eq_true ..).mp h
  exact ⟨t, under_of_runUnder hrun, of_decide_eq_true hP⟩

/-- What every allowed step keeps holds at the end of a run that starts with it. --/
theorem Under.invariant {P : σ → Prop} (hP : ∀ s e t, P s → ok s e → step s e = some t → P t)
    (h : Under step ok s es t) (hs : P s) : P t := by
  induction h with
  | nil => exact hs
  | cons hok hstep _ ih => exact ih (hP _ _ _ hs hok hstep)

/-- The invariant rule for runs of which every event is in a class. --/
theorem Under.invariant_of {P : σ → Prop} {Q : ε → Prop}
    (hP : ∀ s e t, P s → Q e → ok s e → step s e = some t → P t) (h : Under step ok s es t) (hQ : ∀ e ∈ es, Q e)
    (hs : P s) : P t := by
  induction h with
  | nil => exact hs
  | cons hok hstep _ ih =>
    exact ih (fun e he => hQ e (List.mem_cons_of_mem _ he)) (hP _ _ _ hs (hQ _ List.mem_cons_self) hok hstep)

theorem Under.mono {ok' : σ → ε → Prop} (hok : ∀ s e, ok s e → ok' s e) (h : Under step ok s es t) :
    Under step ok' s es t := by
  induction h with
  | nil => exact .nil
  | cons hok₁ hstep _ ih => exact .cons (hok _ _ hok₁) hstep ih

theorem Under.append (h : Under step ok s es t) (h' : Under step ok t fs u) : Under step ok s (es ++ fs) u := by
  induction h with
  | nil => exact h'
  | cons hok hstep _ ih => exact .cons hok hstep (ih h')

/-! ### Runs as lists of events -/

/-- What holds of a run exactly as long as each event keeps it, is decided event by event. --/
theorem holds_iff_steps {P : List ε → Prop} {Q R : List ε → ε → Prop} (hnil : P [])
    (hsnoc : ∀ es e, P (es ++ [e]) ↔ P es ∧ Q es e) (hstep : ∀ es e, P es → (Q es e ↔ R es e)) (es : List ε) :
    P es ↔ ∀ pre e, pre ++ [e] <+: es → R pre e := by
  induction es using List.reverseRecOn with
  | nil =>
    refine ⟨fun _ pre e h => ?_, fun _ => hnil⟩
    simp at h
  | append_singleton es e ih =>
    rw [hsnoc, ih]
    constructor
    · intro ⟨hes, he⟩ pre f h
      rcases List.prefix_concat_iff.mp h with heq | hpre
      · obtain ⟨rfl, hf⟩ := List.append_inj' heq rfl
        cases hf
        exact (hstep pre e (ih.mpr hes)).mp he
      · exact hes pre f hpre
    · intro h
      have hes : ∀ pre f, pre ++ [f] <+: es → R pre f := fun pre f hpre => h pre f (hpre.trans (List.prefix_append _ _))
      exact ⟨hes, (hstep es e (ih.mpr hes)).mpr (h es e (List.prefix_refl _))⟩

end Runs

/-! ### Threads -/

namespace Threads
variable {n : Nat} {Loc : Type} {p : Loc → Bool} {f : Fin n → Loc} {i : Fin n} {v : Loc}

/-- The threads of a system of two. --/
def first : Fin 2 := ⟨0, Nat.zero_lt_two⟩

def second : Fin 2 := ⟨1, Nat.one_lt_two⟩

/-- The threads at a location in `p`. --/
def count (p : Loc → Bool) (f : Fin n → Loc) : Nat := ∑ i, if p (f i) then 1 else 0

theorem count_update (p : Loc → Bool) (f : Fin n → Loc) (i : Fin n) (v : Loc) :
    count p (Function.update f i v) + (if p (f i) then 1 else 0) = count p f + if p v then 1 else 0 := by
  unfold count
  have hupdate : (fun j => if p (Function.update f i v j) then 1 else 0) =
      Function.update (fun j => if p (f j) then 1 else 0) i (if p v then 1 else 0) := by
    funext j
    by_cases h : j = i
    · subst h
      simp
    · simp [Function.update_of_ne h]
  have hsplit := Finset.add_sum_erase Finset.univ (fun j => if p (f j) then 1 else 0) (Finset.mem_univ i)
  rw [hupdate, Finset.sum_update_of_mem (Finset.mem_univ i), ← Finset.erase_eq]
  omega

theorem count_mono {Loc' : Type} {q : Loc' → Bool} {g : Fin n → Loc'} (h : ∀ i, p (f i) = true → q (g i) = true) :
    count p f ≤ count q g := by
  unfold count
  refine Finset.sum_le_sum fun i _ => ?_
  by_cases hi : p (f i) = true
  · rw [if_pos hi, if_pos (h i hi)]
  · rw [if_neg hi]
    exact Nat.zero_le _

theorem count_eq_zero (h : ∀ i, p (f i) = false) : count p f = 0 := by
  simp [count, h]

theorem count_pos (h : p (f i) = true) : 0 < count p f := by
  have hle : (if p (f i) then 1 else 0) ≤ count p f :=
    Finset.single_le_sum (f := fun i => if p (f i) then 1 else 0) (fun _ _ => Nat.zero_le _) (Finset.mem_univ i)
  rw [if_pos h] at hle
  exact hle

/-- All threads are counted only if each is at a location in `p`. --/
theorem all_of_count_eq (h : count p f = n) (i : Fin n) : p (f i) = true := by
  by_contra hi
  have hlt : count p f < ∑ _j : Fin n, 1 := by
    refine Finset.sum_lt_sum (fun j _ => ?_) ⟨i, Finset.mem_univ i, ?_⟩
    · split <;> omega
    · rw [if_neg hi]
      exact Nat.one_pos
  rw [h, Finset.sum_const, Finset.card_univ, Fintype.card_fin, smul_eq_mul, mul_one] at hlt
  exact absurd hlt (lt_irrefl n)

section
variable {P : Loc → Prop} {j : Fin n}

/-- A thread other than the one that moved is where it was. --/
theorem update_cases (h : P (Function.update f i v j)) : j = i ∧ P v ∨ j ≠ i ∧ P (f j) := by
  by_cases hji : j = i
  · subst hji
    rw [Function.update_self] at h
    exact Or.inl ⟨rfl, h⟩
  · rw [Function.update_of_ne hji] at h
    exact Or.inr ⟨hji, h⟩

theorem update_intro (hi : j = i → P v) (ho : j ≠ i → P (f j)) : P (Function.update f i v j) := by
  by_cases hji : j = i
  · subst hji
    rw [Function.update_self]
    exact hi rfl
  · rw [Function.update_of_ne hji]
    exact ho hji

/-- A move that keeps `P` of its thread keeps it of every thread. --/
theorem update_imp (hv : P (f i) → P v) (hj : P (f j)) : P (Function.update f i v j) :=
  update_intro (fun heq => hv (heq ▸ hj)) fun _ => hj

theorem imp_of_update (hv : P v → P (f i)) (hj : P (Function.update f i v j)) : P (f j) := by
  rcases update_cases hj with ⟨rfl, hv'⟩ | ⟨-, hj'⟩
  · exact hv hv'
  · exact hj'

end
end Threads
