import Mathlib.Data.List.Basic

/-! What went through a queue: what arrived, in order, and what left it, delivered or discarded. Nothing is lost,
    repeated or out of order when what left is a first part of what arrived. -/

structure History (α β : Type) where
  arrived : List α
  /-- What left, and whether it was delivered. --/
  gone : List (α × Bool)
  delivered : List β

namespace History
variable {α β : Type}

def empty : History α β := ⟨[], [], []⟩

/-- What arrived and has not left. --/
def pending (h : History α β) : List α := h.arrived.drop h.gone.length

def arrive (xs : List α) (h : History α β) : History α β := { h with arrived := h.arrived ++ xs }

def discard (h : History α β) : History α β := { h with gone := h.gone ++ h.pending.map fun x => (x, false) }

/-- The receiver gets `v`, for the first pending element if there is one. --/
def deliver (v : β) (h : History α β) : History α β :=
  { h with gone := h.gone ++ (h.pending.take 1).map fun x => (x, true), delivered := h.delivered ++ [v] }

/-- What left is what arrived first, and the receiver got the values of what was delivered. --/
structure Exact (value : α → β) (h : History α β) : Prop where
  order : h.gone.map Prod.fst <+: h.arrived
  values : h.delivered = (h.gone.filter Prod.snd).map fun x => value x.1

section
variable {value : α → β} {h : History α β} {x : α} {rest : List α} {v : β}

theorem exact_empty : (empty : History α β).Exact value := ⟨List.prefix_refl _, rfl⟩

theorem Exact.split (he : h.Exact value) : h.gone.map Prod.fst ++ h.pending = h.arrived := by
  obtain ⟨after, hafter⟩ := he.order
  have hlen : h.gone.length = (h.gone.map Prod.fst).length := List.length_map .. |>.symm
  rw [pending, hlen, ← hafter, List.drop_left]

theorem pending_arrive (he : h.Exact value) (xs : List α) : (h.arrive xs).pending = h.pending ++ xs := by
  have hle : h.gone.length ≤ h.arrived.length := by
    have hlen := he.order.length_le
    rwa [List.length_map] at hlen
  exact List.drop_append_of_le_length hle

theorem Exact.arrive (he : h.Exact value) (xs : List α) : (h.arrive xs).Exact value :=
  ⟨he.order.trans (List.prefix_append _ _), he.values⟩

theorem pending_discard : h.discard.pending = [] := by
  rw [pending, List.drop_eq_nil_iff]
  simp only [discard, pending, List.length_append, List.length_map, List.length_drop]
  omega

theorem Exact.discard (he : h.Exact value) : h.discard.Exact value := by
  have hmap : (h.pending.map fun x => (x, false)).map Prod.fst = h.pending := by
    simp [Function.comp_def]
  refine ⟨?_, ?_⟩
  · have hall : h.discard.gone.map Prod.fst = h.arrived := by
      rw [History.discard, List.map_append, hmap, he.split]
    exact ⟨[], (List.append_nil _).trans hall⟩
  · have hnone : (h.pending.map fun x => (x, false)).filter Prod.snd = [] := by
      simp [List.filter_map, Function.comp_def]
    rw [History.discard, List.filter_append, hnone, List.append_nil]
    exact he.values

theorem pending_deliver (hp : h.pending = x :: rest) : (h.deliver v).pending = rest := by
  have hgone : (h.deliver v).gone.length = h.gone.length + 1 := by
    simp [deliver, hp]
  rw [pending, hgone, ← List.drop_drop]
  show (h.pending).drop 1 = rest
  rw [hp]
  rfl

/-- A delivery is exact when the receiver gets the value of the first pending element. --/
theorem Exact.deliver (he : h.Exact value) (hp : h.pending = x :: rest) (hv : value x = v) :
    (h.deliver v).Exact value := by
  have hgone : (h.deliver v).gone = h.gone ++ [(x, true)] := by
    simp [History.deliver, hp]
  refine ⟨?_, ?_⟩
  · rw [hgone, List.map_append]
    show h.gone.map Prod.fst ++ [x] <+: h.arrived
    rw [← he.split, hp]
    exact (List.prefix_append_right_inj _).mpr ⟨rest, rfl⟩
  · rw [hgone, List.filter_append, List.map_append, ← he.values]
    simp [History.deliver, hv]

end
end History
