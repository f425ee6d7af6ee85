/-! Computations over a state that may throw. What a computation stored before it throws stays stored,
    as in a language with exceptions and assignment. `Keeps R` says that a computation moves the state
    along the relation `R` whether it returns or throws. -/

/-- A computation over the state `σ` that returns an `α` or throws a message. --/
def Exec (σ α : Type) : Type := σ → Except String α × σ

namespace Exec
variable {σ τ α β : Type}

instance : Monad (Exec σ) where
  pure a := fun s => (.ok a, s)
  bind x f := fun s => match x s with
    | (.ok a, t) => f a t
    | (.error e, t) => (.error e, t)

instance : MonadExceptOf String (Exec σ) where
  throw e := fun s => (.error e, s)
  tryCatch x h := fun s => match x s with
    | (.ok a, t) => (.ok a, t)
    | (.error e, t) => h e t

def get : Exec σ σ := fun s => (.ok s, s)

def modify (f : σ → σ) : Exec σ Unit := fun s => (.ok (), f s)

/-- A value computed without the state, or its error. --/
def lift (x : Except String α) : Exec σ α := fun s => (x, s)

/-- Throw `message` unless `ok`. --/
def check (ok : Bool) (message : String) : Exec σ Unit := lift (if ok then .ok () else .error message)

/-- Run `x` on the part of the state that `view` reads and `put` stores. --/
def focus (view : σ → τ) (put : τ → σ → σ) (x : Exec τ α) : Exec σ α := fun s =>
  ((x (view s)).1, put (x (view s)).2 s)

/-- Without a state. --/
theorem ok_of_bind {x : Except String α} {f : α → Except String β} {b : β} (h : (x >>= f) = .ok b) :
    ∃ a, x = .ok a ∧ f a = .ok b := by
  cases x with
  | error e => cases h
  | ok a => exact ⟨a, rfl, h⟩

/-! ### Running -/

section
variable {x : Exec σ α} {f : α → Exec σ β} {h : String → Exec σ α} {s t : σ} {a : α} {e : String}

@[simp] theorem pure_apply : (pure a : Exec σ α) s = (.ok a, s) := rfl

@[simp] theorem throw_apply : (throw e : Exec σ α) s = (.error e, s) := rfl

@[simp] theorem get_apply : (get : Exec σ σ) s = (.ok s, s) := rfl

@[simp] theorem modify_apply {g : σ → σ} : modify g s = (.ok (), g s) := rfl

@[simp] theorem lift_apply {y : Except String α} : (lift y : Exec σ α) s = (y, s) := rfl

theorem bind_apply : (x >>= f) s = match x s with
    | (.ok a, t) => f a t
    | (.error e, t) => (.error e, t) := rfl

theorem tryCatch_apply : (tryCatch x h) s = match x s with
    | (.ok a, t) => (.ok a, t)
    | (.error e, t) => h e t := rfl

theorem bind_of_ok (hx : x s = (.ok a, t)) : (x >>= f) s = f a t := by
  show (match x s with | (.ok a, t) => f a t | (.error e, t) => (.error e, t)) = f a t
  rw [hx]

theorem bind_of_error (hx : x s = (.error e, t)) : (x >>= f) s = (.error e, t) := by
  show (match x s with | (.ok a, t) => f a t | (.error e, t) => (.error e, t)) = (.error e, t)
  rw [hx]

theorem tryCatch_of_ok (hx : x s = (.ok a, t)) : (tryCatch x h) s = (.ok a, t) := by
  show (match x s with | (.ok a, t) => (.ok a, t) | (.error e, t) => h e t) = (.ok a, t)
  rw [hx]

theorem tryCatch_of_error (hx : x s = (.error e, t)) : (tryCatch x h) s = h e t := by
  show (match x s with | (.ok a, t) => (.ok a, t) | (.error e, t) => h e t) = h e t
  rw [hx]

/-- A sequence that returns: both parts returned. --/
theorem bind_eq_ok {b : β} (hx : (x >>= f) s = (.ok b, t)) : ∃ a u, x s = (.ok a, u) ∧ f a u = (.ok b, t) := by
  rcases hr : x s with ⟨e | a, u⟩
  · rw [bind_of_error hr] at hx
    cases hx
  · exact ⟨a, u, rfl, (bind_of_ok hr).symm.trans hx⟩

theorem lift_eq_ok {y : Except String α} (h : (lift y : Exec σ α) s = (.ok a, t)) : y = .ok a ∧ t = s := by
  obtain ⟨hy, ht⟩ := Prod.mk.inj h
  exact ⟨hy, ht.symm⟩

theorem check_eq_ok {ok : Bool} {m : String} {u : Unit} (h : (check ok m : Exec σ Unit) s = (.ok u, t)) :
    ok = true ∧ t = s := by
  cases ok with
  | true =>
    cases h
    exact ⟨rfl, rfl⟩
  | false => cases h

/-- A computation that returned in spite of a handler that throws its exceptions again. --/
theorem tryCatch_rethrow_eq_ok {m : String → Exec σ Unit}
    (hx : (tryCatch x fun e => do m e; throw e) s = (.ok a, t)) : x s = (.ok a, t) := by
  rcases hr : x s with ⟨e | b, u⟩
  · rw [tryCatch_of_error hr] at hx
    obtain ⟨_, _, _, hthrow⟩ := bind_eq_ok hx
    cases hthrow
  · exact (tryCatch_of_ok hr).symm.trans hx

theorem check_of_true {ok : Bool} {m : String} (h : ok = true) : (check ok m : Exec σ Unit) s = (.ok (), s) := by
  subst h
  rfl

theorem check_of_false {ok : Bool} {m : String} (h : ok = false) :
    (check ok m : Exec σ Unit) s = (.error m, s) := by
  subst h
  rfl

end

/-- A run whose outcome is checked by evaluation. --/
theorem exists_ok {x : Exec σ α} {s : σ} (P : α → Prop) [DecidablePred P]
    (h : (match (x s).1 with | .ok a => decide (P a) | .error _ => false) = true) :
    ∃ a t, x s = (.ok a, t) ∧ P a := by
  rcases hx : x s with ⟨e | a, t⟩
  · rw [hx] at h
    cases h
  · rw [hx] at h
    exact ⟨a, t, rfl, of_decide_eq_true h⟩

/-- A run that throws, checked by evaluation. --/
theorem exists_error {x : Exec σ α} {s : σ} (h : (match (x s).1 with | .ok _ => false | .error _ => true) = true) :
    ∃ e t, x s = (.error e, t) := by
  rcases hx : x s with ⟨e | a, t⟩
  · exact ⟨e, t, rfl⟩
  · rw [hx] at h
    cases h

/-- A sequence whose first part leaves the state alone. --/
theorem bind_still {Q : σ → Prop} {x : Exec σ α} {f : α → Exec σ β} {s : σ} (hx : (x s).2 = s) (hs : Q s)
    (hf : ∀ a, x s = (.ok a, s) → Q (f a s).2) : Q ((x >>= f) s).2 := by
  rcases hr : x s with ⟨e | a, t⟩
  · rw [hr] at hx
    rw [bind_of_error hr]
    exact hx ▸ hs
  · rw [hr] at hx
    cases hx
    rw [bind_of_ok hr]
    exact hf a hr

/-! ### What a computation keeps -/

/-- From every state, `x` ends in a state related by `R`, returning or throwing. --/
def Keeps (R : σ → σ → Prop) (x : Exec σ α) : Prop := ∀ s, R s (x s).2

/-- A relation that holds across no step and across two steps in a row. --/
structure Frame (R : σ → σ → Prop) : Prop where
  refl : ∀ s, R s s
  trans : ∀ {s t u}, R s t → R t u → R s u

namespace Frame
variable {R : σ → σ → Prop} {x : Exec σ α} {s : σ}

/-- A sequence moves the state along `R` when its first part does, and its second part from there. --/
theorem bind (hR : Frame R) {f : α → Exec σ β} (hx : R s (x s).2)
    (hf : ∀ a t, x s = (.ok a, t) → R t (f a t).2) : R s ((x >>= f) s).2 := by
  cases hr : x s with
  | mk r t =>
    rw [hr] at hx
    cases r with
    | ok a => rw [bind_of_ok hr]; exact hR.trans hx (hf a t hr)
    | error e => rw [bind_of_error hr]; exact hx

theorem tryCatch (hR : Frame R) {h : String → Exec σ α} (hx : R s (x s).2)
    (hh : ∀ e t, x s = (.error e, t) → R t (h e t).2) : R s ((tryCatch x h) s).2 := by
  cases hr : x s with
  | mk r t =>
    rw [hr] at hx
    cases r with
    | ok a => rw [tryCatch_of_ok hr]; exact hx
    | error e => rw [tryCatch_of_error hr]; exact hR.trans hx (hh e t hr)

end Frame

namespace Keeps
variable {R : σ → σ → Prop}

theorem of_eq {x : Exec σ α} {s t : σ} {result : Except String α} (hx : Keeps R x) (h : x s = (result, t)) : R s t := by
  have hs := hx s
  rwa [h] at hs

theorem pure (hR : Frame R) {a : α} : Keeps R (pure a : Exec σ α) := fun s => hR.refl s

theorem throw (hR : Frame R) {e : String} : Keeps R (throw e : Exec σ α) := fun s => hR.refl s

theorem get (hR : Frame R) : Keeps R (get : Exec σ σ) := fun s => hR.refl s

theorem lift (hR : Frame R) {y : Except String α} : Keeps R (lift y : Exec σ α) := fun s => hR.refl s

theorem check (hR : Frame R) {ok : Bool} {m : String} : Keeps R (check ok m : Exec σ Unit) := lift hR

theorem modify {g : σ → σ} (h : ∀ s, R s (g s)) : Keeps R (modify g) := h

theorem bind (hR : Frame R) {x : Exec σ α} {f : α → Exec σ β} (hx : Keeps R x) (hf : ∀ a, Keeps R (f a)) :
    Keeps R (x >>= f) := fun s => hR.bind (hx s) fun a t _ => hf a t

/-- The same, with a value that the rest may assume something about. --/
theorem bind_of (hR : Frame R) {x : Exec σ α} {f : α → Exec σ β} (hx : Keeps R x)
    (hf : ∀ s a t, x s = (.ok a, t) → Keeps R (f a)) : Keeps R (x >>= f) := fun s =>
  hR.bind (hx s) fun a t hr => hf s a t hr t

theorem tryCatch (hR : Frame R) {x : Exec σ α} {h : String → Exec σ α} (hx : Keeps R x) (hh : ∀ e, Keeps R (h e)) :
    Keeps R (tryCatch x h) := fun s => hR.tryCatch (hx s) fun e t _ => hh e t

theorem ite {c : Prop} [Decidable c] {x y : Exec σ α} (hx : c → Keeps R x) (hy : ¬c → Keeps R y) :
    Keeps R (if c then x else y) := by
  split
  · exact hx ‹_›
  · exact hy ‹_›

theorem focus {view : σ → τ} {put : τ → σ → σ} (h : ∀ s v, R s (put v s)) {x : Exec τ α} :
    Keeps R (focus view put x) := fun s => h s _

/-- A loop keeps what its body keeps. --/
theorem forM (hR : Frame R) {f : α → Exec σ PUnit} : ∀ {l : List α}, (∀ a ∈ l, Keeps R (f a)) → Keeps R (l.forM f)
  | [], _ => pure hR
  | a :: _, h => bind hR (h a List.mem_cons_self) fun _ => forM hR fun b hb => h b (List.mem_cons_of_mem _ hb)

end Keeps

/-! ### What a computation returns -/

/-- Every value that `x` returns is in `Q`. --/
def Returns (Q : α → Prop) (x : Exec σ α) : Prop := ∀ s a t, x s = (.ok a, t) → Q a

namespace Returns
variable {Q : α → Prop} {x : Exec σ α}

theorem pure {a : α} (h : Q a) : Returns Q (pure a : Exec σ α) := fun _ _ _ heq => by
  cases heq
  exact h

theorem throw {e : String} : Returns Q (throw e : Exec σ α) := fun _ _ _ heq => nomatch heq

theorem bind {y : Exec σ β} {f : β → Exec σ α} (hf : ∀ b, Returns Q (f b)) : Returns Q (y >>= f) := fun _ _ _ heq => by
  obtain ⟨b, u, -, hb⟩ := bind_eq_ok heq
  exact hf b _ _ _ hb

/-- The same, with what the first part returns. --/
theorem bind_of {P : β → Prop} {y : Exec σ β} {f : β → Exec σ α} (hy : Returns P y) (hf : ∀ b, P b → Returns Q (f b)) :
    Returns Q (y >>= f) := fun _ _ _ heq => by
  obtain ⟨b, u, hb, hrest⟩ := bind_eq_ok heq
  exact hf b (hy _ _ _ hb) _ _ _ hrest

theorem tryCatch {h : String → Exec σ α} (hx : Returns Q x) (hh : ∀ e, Returns Q (h e)) :
    Returns Q (tryCatch x h) := fun s a t heq => by
  rcases hr : x s with ⟨e | b, u⟩
  · rw [tryCatch_of_error hr] at heq
    exact hh e _ _ _ heq
  · rw [tryCatch_of_ok hr] at heq
    cases heq
    exact hx _ _ _ hr

theorem ite {c : Prop} [Decidable c] {y : Exec σ α} (hx : c → Returns Q x) (hy : ¬c → Returns Q y) :
    Returns Q (if c then x else y) := by
  split
  · exact hx ‹_›
  · exact hy ‹_›

end Returns

/-! ### How a computation ends -/

/-- From `s`, `x` returns with `P` or throws with `E`. --/
def Ends (P : α → σ → Prop) (E : σ → Prop) (x : Exec σ α) (s : σ) : Prop :=
  match x s with
  | (.ok a, t) => P a t
  | (.error _, t) => E t

namespace Ends
variable {P P' : α → σ → Prop} {Q : β → σ → Prop} {E E' : σ → Prop} {x : Exec σ α} {s t : σ} {a : α} {e : String}

theorem of_ok (h : x s = (.ok a, t)) (ht : P a t) : Ends P E x s := by
  unfold Ends
  rw [h]
  exact ht

theorem of_error (h : x s = (.error e, t)) (ht : E t) : Ends P E x s := by
  unfold Ends
  rw [h]
  exact ht

theorem returned (hx : Ends P E x s) (h : x s = (.ok a, t)) : P a t := by
  unfold Ends at hx
  rwa [h] at hx

theorem threw (hx : Ends P E x s) (h : x s = (.error e, t)) : E t := by
  unfold Ends at hx
  rwa [h] at hx

theorem bind {f : α → Exec σ β} (hx : Ends P E x s) (hf : ∀ a t, P a t → Ends Q E (f a) t) : Ends Q E (x >>= f) s := by
  rcases hr : x s with ⟨e | a, t⟩
  · exact of_error (bind_of_error hr) (hx.threw hr)
  · have hrest := hf a t (hx.returned hr)
    unfold Ends
    rw [bind_of_ok hr]
    exact hrest

theorem tryCatch {h : String → Exec σ α} (hx : Ends P E x s) (hh : ∀ e t, E t → Ends P E' (h e) t) :
    Ends P E' (tryCatch x h) s := by
  rcases hr : x s with ⟨e | a, t⟩
  · have hrest := hh e t (hx.threw hr)
    unfold Ends
    rw [tryCatch_of_error hr]
    exact hrest
  · exact of_ok (tryCatch_of_ok hr) (hx.returned hr)

theorem ite {c : Prop} [Decidable c] {y : Exec σ α} (hx : c → Ends P E x s) (hy : ¬c → Ends P E y s) :
    Ends P E (if c then x else y) s := by
  split
  · exact hx ‹_›
  · exact hy ‹_›

theorem mono (hx : Ends P E x s) (hP : ∀ a t, P a t → P' a t) (hE : ∀ t, E t → E' t) : Ends P' E' x s := by
  rcases hr : x s with ⟨e | a, t⟩
  · exact of_error hr (hE t (hx.threw hr))
  · exact of_ok hr (hP a t (hx.returned hr))

/-- A loop keeps what its body keeps, as long as nothing throws. --/
theorem forM {R : σ → Prop} {f : α → Exec σ PUnit} (hf : ∀ a s, R s → Ends (fun _ t => R t) E (f a) s) :
    ∀ {l : List α} {s : σ}, R s → Ends (fun _ t => R t) E (l.forM f) s
  | [], _, hs => hs
  | a :: _, s, hs => bind (hf a s hs) fun _ _ ht => forM hf ht

/-- A value from elsewhere. --/
theorem lift {y : Except String α} (hok : ∀ a, y = .ok a → P a s) (herror : E s) : Ends P E (Exec.lift y) s := by
  cases y with
  | ok a => exact hok a rfl
  | error e => exact herror

end Ends

end Exec
