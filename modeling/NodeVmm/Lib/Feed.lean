import Mathlib.Data.List.Basic

/-! A queue with one reader that is fed at both ends: its source adds to what waits, and someone else puts things in
    front of it. The reader gets what the source fed, in order and each once, apart from what was put in front. -/

structure Feed (α : Type) where
  /-- What waits, and whether it is from the source. --/
  waiting : List (α × Bool) := []
  fed : List α := []
  /-- What was taken, and whether it is from the source. --/
  taken : List (α × Bool) := []
  got : List α := []

namespace Feed
variable {α : Type} {f : Feed α} {xs rest : List α} {v : α}

def fromSource (xs : List (α × Bool)) : List α := (xs.filter Prod.snd).map Prod.fst

/-- The source feeds `xs`. --/
def back (xs : List α) (f : Feed α) : Feed α :=
  { f with waiting := f.waiting ++ xs.map fun x => (x, true), fed := f.fed ++ xs }

/-- Someone else puts `xs` before what waits. --/
def front (xs : List α) (f : Feed α) : Feed α := { f with waiting := (xs.map fun x => (x, false)) ++ f.waiting }

/-- The reader takes what waits first, and is given `v`. --/
def take (v : α) (f : Feed α) : Feed α :=
  { f with waiting := f.waiting.drop 1, taken := f.taken ++ f.waiting.take 1, got := f.got ++ [v] }

/-- The queue `queue` is what waits, the reader was given what it took, and what the source fed is what was taken of it
    and what waits of it. --/
structure Tracks (f : Feed α) (queue : List α) : Prop where
  waiting : f.waiting.map Prod.fst = queue
  taken : f.taken.map Prod.fst = f.got
  order : fromSource f.taken ++ fromSource f.waiting = f.fed

@[simp] theorem fromSource_append {xs ys : List (α × Bool)} : fromSource (xs ++ ys) = fromSource xs ++ fromSource ys := by
  simp [fromSource]

@[simp] theorem fromSource_fed : fromSource (xs.map fun x => (x, true)) = xs := by
  simp [fromSource, List.filter_map, Function.comp_def]

@[simp] theorem fromSource_put : fromSource (xs.map fun x => (x, false)) = [] := by
  simp [fromSource, List.filter_map, Function.comp_def]

theorem tracks_empty : Tracks ({} : Feed α) [] := ⟨rfl, rfl, rfl⟩

theorem Tracks.back (h : f.Tracks rest) (xs : List α) : (f.back xs).Tracks (rest ++ xs) := by
  refine ⟨?_, h.taken, ?_⟩
  · simp [Feed.back, h.waiting, Function.comp_def]
  · simp [Feed.back, ← h.order]

theorem Tracks.front (h : f.Tracks rest) (xs : List α) : (f.front xs).Tracks (xs ++ rest) := by
  refine ⟨?_, h.taken, ?_⟩
  · simp [Feed.front, h.waiting, Function.comp_def]
  · simp [Feed.front, ← h.order]

/-- The reader is to be given the first element of the queue. --/
theorem Tracks.take (h : f.Tracks (v :: rest)) : (f.take v).Tracks rest := by
  obtain ⟨x, waiting, hw, hx, hrest⟩ := List.map_eq_cons_iff.mp h.waiting
  have horder := h.order
  rw [hw] at horder
  refine ⟨?_, ?_, ?_⟩
  · simp [Feed.take, hw, hrest]
  · simp [Feed.take, hw, h.taken, hx]
  · rw [← List.singleton_append, fromSource_append] at horder
    simpa [Feed.take, hw] using horder

/-- What the reader has of the source is a first part of what the source fed. --/
theorem Tracks.taken_first (h : f.Tracks rest) : fromSource f.taken <+: f.fed := ⟨_, h.order⟩

/-- When nothing waits, all that was fed was taken. --/
theorem Tracks.all (h : f.Tracks []) : fromSource f.taken = f.fed := by
  have hnil : f.waiting = [] := List.map_eq_nil_iff.mp h.waiting
  simpa [hnil, fromSource] using h.order

end Feed
