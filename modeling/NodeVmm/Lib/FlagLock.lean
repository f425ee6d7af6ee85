import Mathlib.Logic.Function.Basic

/-! A flag that one thread at a time holds. The threads are at locations, some of which are inside the section that the
    flag guards; a thread takes the flag when it finds it clear. -/

namespace FlagLock
variable {Thread Loc : Type} [DecidableEq Thread] {holds : Loc → Bool} {locs : Thread → Loc} {flag : Bool} {t u : Thread}
  {loc : Loc}

/-- The flag is set exactly while a thread is inside the section, and no two are. --/
structure Owned (holds : Loc → Bool) (locs : Thread → Loc) (flag : Bool) : Prop where
  set : ∀ t, holds (locs t) = true → flag = true
  unique : ∀ t u, holds (locs t) = true → holds (locs u) = true → t = u
  owner : flag = true → ∃ t, holds (locs t) = true

theorem owned_none (h : ∀ t, holds (locs t) = false) : Owned holds locs false :=
  ⟨fun t ht => absurd ((h t).symm.trans ht) nofun, fun t _ ht => absurd ((h t).symm.trans ht) nofun, nofun⟩

theorem Owned.others (h : Owned holds locs flag) (ht : holds (locs t) = true) (hu : u ≠ t) : holds (locs u) = false :=
  Bool.eq_false_iff.mpr fun hin => hu (h.unique u t hin ht)

theorem Owned.clear (h : Owned holds locs false) (t : Thread) : holds (locs t) = false :=
  Bool.eq_false_iff.mpr fun hin => nomatch h.set t hin

/-- A step that neither enters the section nor leaves it. --/
theorem Owned.move (h : Owned holds locs flag) (hsame : holds loc = holds (locs t)) :
    Owned holds (Function.update locs t loc) flag := by
  have hholds : ∀ u, holds (Function.update locs t loc u) = holds (locs u) := by
    intro u
    by_cases hu : u = t
    · subst hu
      rw [Function.update_self, hsame]
    · rw [Function.update_of_ne hu]
  refine ⟨fun u hu => h.set u (hholds u ▸ hu), fun u v hu hv => h.unique u v (hholds u ▸ hu) (hholds v ▸ hv), fun hflag => ?_⟩
  obtain ⟨u, hu⟩ := h.owner hflag
  exact ⟨u, (hholds u).trans hu⟩

theorem Owned.acquire (h : Owned holds locs false) (hin : holds loc = true) :
    Owned holds (Function.update locs t loc) true := by
  have honly : ∀ u, holds (Function.update locs t loc u) = true → u = t := by
    intro u hu
    by_contra hne
    rw [Function.update_of_ne hne] at hu
    exact absurd ((h.clear u).symm.trans hu) nofun
  refine ⟨fun _ _ => rfl, fun u v hu hv => (honly u hu).trans (honly v hv).symm, fun _ => ⟨t, ?_⟩⟩
  rw [Function.update_self]
  exact hin

theorem Owned.release (h : Owned holds locs flag) (ht : holds (locs t) = true) (hout : holds loc = false) :
    Owned holds (Function.update locs t loc) false := by
  refine owned_none fun u => ?_
  by_cases hu : u = t
  · subst hu
    rw [Function.update_self]
    exact hout
  · rw [Function.update_of_ne hu]
    exact h.others ht hu

end FlagLock
