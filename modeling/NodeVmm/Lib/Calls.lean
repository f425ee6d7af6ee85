/-! Machines that answer calls, and simulations between them: related states give the same answer and
    related next states, so two related machines answer every sequence of calls alike. -/

namespace Calls
variable {σ τ ι ο : Type}

/-- The answers to the calls, in order, and the last state. --/
def run (step : σ → ι → ο × σ) : σ → List ι → List ο × σ
  | s, [] => ([], s)
  | s, c :: rest => ((step s c).1 :: (run step (step s c).2 rest).1, (run step (step s c).2 rest).2)

section
variable {step : σ → ι → ο × σ} {step' : τ → ι → ο × τ}

@[simp] theorem run_nil {s : σ} : run step s [] = ([], s) := rfl

@[simp] theorem run_cons {s : σ} {c : ι} {rest : List ι} :
    run step s (c :: rest) =
      ((step s c).1 :: (run step (step s c).2 rest).1, (run step (step s c).2 rest).2) := rfl

/-- `R` is a simulation: related states answer alike and stay related. --/
def Simulation (step : σ → ι → ο × σ) (step' : τ → ι → ο × τ) (R : σ → τ → Prop) : Prop :=
  ∀ s t c, R s t → (step s c).1 = (step' t c).1 ∧ R (step s c).2 (step' t c).2

theorem Simulation.run {R : σ → τ → Prop} (h : Simulation step step' R) : ∀ {s : σ} {t : τ} (calls : List ι),
    R s t → (Calls.run step s calls).1 = (Calls.run step' t calls).1 ∧
      R (Calls.run step s calls).2 (Calls.run step' t calls).2
  | _, _, [], hR => ⟨rfl, hR⟩
  | s, t, c :: rest, hR => by
    obtain ⟨hans, hnext⟩ := h s t c hR
    obtain ⟨hrest, hlast⟩ := Simulation.run h rest hnext
    exact ⟨by simp only [run_cons, hans, hrest], hlast⟩

end
end Calls
