import Mathlib.Logic.Basic

/-! Calls that throw, or that reach outside what they may access. `Stays` says that a call never does the latter and that
    what it returns has a property; `Agree` that two calls return the same, whatever they throw. -/

namespace Checked
variable {α β ι σ : Type}

/-- How a call ends without a result. --/
inductive Fault where
  | thrown (message : String)
  | outside
  deriving DecidableEq, Repr

abbrev Call (α : Type) : Type := Except Fault α

def check (ok : Bool) (message : String) : Call Unit := if ok then .ok () else .error (.thrown message)

/-- An access that is only all right where `ok`. --/
def access (ok : Bool) : Call Unit := if ok then .ok () else .error .outside

/-- A computation that only throws. --/
def lift (x : Except String α) : Call α := x.mapError .thrown

/-! ### What a call returns -/

/-- The call makes no access outside, and what it returns has the property. --/
def Stays (x : Call α) (P : α → Prop) : Prop := x ≠ .error .outside ∧ ∀ a, x = .ok a → P a

section
variable {x : Call α} {f : α → Call β} {P P' : α → Prop} {Q : β → Prop} {a : α}

theorem Stays.ok (h : P a) : Stays (.ok a) P := by
  refine ⟨nofun, fun b hb => ?_⟩
  cases hb
  exact h

theorem Stays.bind (hx : Stays x P) (hf : ∀ a, P a → Stays (f a) Q) : Stays (x >>= f) Q := by
  cases x with
  | ok a => exact hf a (hx.2 a rfl)
  | error e =>
    refine ⟨fun h => hx.1 ?_, fun b hb => absurd hb nofun⟩
    cases h
    rfl

theorem Stays.mono (hx : Stays x P) (h : ∀ a, P a → P' a) : Stays x P' := ⟨hx.1, fun a ha => h a (hx.2 a ha)⟩

theorem ok_of_bind {b : β} (h : (x >>= f) = .ok b) : ∃ a, x = .ok a ∧ f a = .ok b := by
  cases x with
  | ok a => exact ⟨a, rfl, h⟩
  | error e => cases h

theorem ok_of_check {ok : Bool} {message : String} {u : Unit} (h : check ok message = .ok u) : ok = true := by
  cases ok with
  | true => rfl
  | false => cases h

theorem ok_of_lift {x : Except String α} (h : lift x = .ok a) : x = .ok a := by
  cases x with
  | ok b =>
    cases h
    rfl
  | error e => cases h

theorem stays_check {ok : Bool} {message : String} : Stays (check ok message) fun _ => ok = true := by
  cases ok with
  | true => exact .ok rfl
  | false => exact ⟨nofun, nofun⟩

theorem stays_access {ok : Bool} (h : ok = true) : Stays (access ok) fun _ => True := by
  rw [access, if_pos h]
  exact .ok trivial

theorem stays_lift {x : Except String α} (h : ∀ a, x = .ok a → P a) : Stays (lift x) P := by
  cases x with
  | ok a => exact .ok (h a rfl)
  | error e => exact ⟨nofun, nofun⟩

/-- The rule of a loop over a list: the invariant is about what has been done. --/
theorem Stays.foldlM {step : σ → ι → Call σ} {inv : List ι → σ → Prop} {ok : ι → Prop}
    (hstep : ∀ done i s, ok i → inv done s → Stays (step s i) (inv (done ++ [i]))) :
    ∀ {l done : List ι} {s : σ}, (∀ i ∈ l, ok i) → inv done s → Stays (l.foldlM step s) (inv (done ++ l)) := by
  intro l
  induction l with
  | nil =>
    intro done s _ h
    rw [List.append_nil]
    exact .ok h
  | cons i l ih =>
    intro done s hok h
    rw [List.foldlM_cons, List.append_cons]
    refine (hstep done i s (hok i List.mem_cons_self) h).bind fun t ht => ih (fun j hj => ?_) ht
    exact hok j (List.mem_cons_of_mem i hj)

end

/-! ### Calls that return the same -/

def Agree (x y : Call α) : Prop := x.toOption = y.toOption

section
variable {x y : Call α} {f g : α → Call β}

theorem Agree.refl (x : Call α) : Agree x x := rfl

theorem Agree.bind (h : Agree x y) (hf : ∀ a, Agree (f a) (g a)) : Agree (x >>= f) (y >>= g) := by
  cases x with
  | ok a =>
    cases y with
    | ok b =>
      obtain rfl : a = b := Option.some.inj h
      exact hf a
    | error e => cases h
  | error e =>
    cases y with
    | ok b => cases h
    | error e' => rfl

theorem agree_check {ok : Bool} {m m' : String} : Agree (check ok m) (check ok m') := by
  cases ok <;> rfl

theorem agree_lift {x y : Except String α} (h : x.toOption = y.toOption) : Agree (lift x) (lift y) := by
  cases x <;> cases y <;> exact h

theorem Agree.foldlM {step step' : σ → ι → Call σ} (h : ∀ s i, Agree (step s i) (step' s i)) :
    ∀ {l : List ι} {s : σ}, Agree (l.foldlM step s) (l.foldlM step' s) := by
  intro l
  induction l with
  | nil => exact fun {s} => .refl _
  | cons i l ih =>
    intro s
    rw [List.foldlM_cons, List.foldlM_cons]
    exact (h s i).bind fun t => ih

end
end Checked
