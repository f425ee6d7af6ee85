import Mathlib.Data.List.Nodup
import Mathlib.Data.List.Perm.Basic

/-! Objects of JavaScript by their entries in the order of their creation. -/

namespace JsObject
variable {κ α : Type} [DecidableEq κ] {k l : κ} {v : α} {m n e : List (κ × α)}

/-- Assignment to a property: an old one keeps its place. --/
def set (k : κ) (v : α) : List (κ × α) → List (κ × α)
  | [] => [(k, v)]
  | e :: rest => if e.1 = k then (k, v) :: rest else e :: set k v rest

/-- The object with the properties of another assigned to it. --/
def spread (m other : List (κ × α)) : List (κ × α) := other.foldl (fun m e => set e.1 e.2 m) m

def get (k : κ) (m : List (κ × α)) : Option α := (m.find? fun e => e.1 = k).map Prod.snd

/-- Every property is there once. --/
def Distinct (m : List (κ × α)) : Prop := (m.map Prod.fst).Nodup

theorem get_set : ∀ {m : List (κ × α)}, get l (set k v m) = if l = k then some v else get l m
  | [] => by
    by_cases h : l = k
    · simp [get, set, h]
    · simp [get, set, h, Ne.symm h]
  | e :: m => by
    have ih := get_set (m := m)
    unfold get at ih ⊢
    unfold set
    by_cases hek : e.1 = k
    · rw [if_pos hek]
      by_cases h : l = k
      · simp [h]
      · simp [h, hek, Ne.symm h]
    · rw [if_neg hek]
      by_cases hel : e.1 = l
      · have hlk : l ≠ k := fun hlk => hek (hel.trans hlk)
        simp [hel, hlk]
      · simp only [List.find?_cons, hel, decide_false]
        exact ih

theorem mem_keys_set : ∀ {m : List (κ × α)}, l ∈ (set k v m).map Prod.fst → l = k ∨ l ∈ m.map Prod.fst
  | [], h => by simpa [set] using h
  | e :: m, h => by
    unfold set at h
    split at h
    · rcases List.mem_cons.mp h with rfl | h
      · exact .inl rfl
      · exact .inr (List.mem_cons_of_mem _ h)
    · rcases List.mem_cons.mp h with rfl | h
      · exact .inr List.mem_cons_self
      · exact (mem_keys_set h).imp_right (List.mem_cons_of_mem _)

theorem Distinct.set : ∀ {m : List (κ × α)}, Distinct m → Distinct (set k v m)
  | [], _ => List.nodup_singleton k
  | e :: m, h => by
    obtain ⟨hnot, hrest⟩ := List.nodup_cons.mp h
    unfold JsObject.set
    split
    · rename_i hek
      exact List.nodup_cons.mpr ⟨hek ▸ hnot, hrest⟩
    · rename_i hek
      refine List.nodup_cons.mpr ⟨fun hmem => ?_, Distinct.set hrest⟩
      exact (mem_keys_set hmem).elim hek hnot

theorem Distinct.spread (h : Distinct m) : Distinct (spread m e) := by
  unfold JsObject.spread
  induction e generalizing m with
  | nil => exact h
  | cons x e ih => exact ih h.set

/-- A property has the last value that was assigned to it. --/
theorem get_spread : get k (spread m e) = ((e.filter fun x => x.1 = k).getLast?.map Prod.snd).or (get k m) := by
  unfold spread
  induction e generalizing m with
  | nil => rfl
  | cons x e ih =>
    rw [List.foldl_cons, ih, get_set]
    by_cases h : x.1 = k
    · rw [if_pos h.symm, List.filter_cons_of_pos (by simpa using h)]
      cases List.filter (fun x => decide (x.1 = k)) e with
      | nil => rfl
      | cons y rest =>
        rw [List.getLast?_cons_cons]
        simp [List.getLast?_cons]
    · rw [if_neg (Ne.symm h), List.filter_cons_of_neg (by simpa using h)]

/-- An object has each property once. --/
theorem getLast?_filter (he : Distinct e) : (e.filter fun x => x.1 = k).getLast?.map Prod.snd = get k e := by
  induction e with
  | nil => rfl
  | cons p e ih =>
    obtain ⟨hnot, hrest⟩ := List.nodup_cons.mp he
    by_cases hp : p.1 = k
    · have hnone : e.filter (fun x => decide (x.1 = k)) = [] := by
        refine List.filter_eq_nil_iff.mpr fun q hq hqk => hnot ?_
        rw [hp, ← of_decide_eq_true hqk]
        exact List.mem_map_of_mem hq
      rw [List.filter_cons_of_pos (by simpa using hp), hnone, get, List.find?_cons_of_pos (by simpa using hp)]
      rfl
    · rw [List.filter_cons_of_neg (by simpa using hp), ih hrest, get, get, List.find?_cons_of_neg (by simpa using hp)]

theorem get_spread_of_distinct (he : Distinct e) : get k (spread m e) = (get k e).or (get k m) := by
  rw [get_spread, getLast?_filter he]

theorem mem_iff_get (h : Distinct m) : (k, v) ∈ m ↔ get k m = some v := by
  induction m with
  | nil => simp [get]
  | cons x m ih =>
    obtain ⟨hnot, hrest⟩ := List.nodup_cons.mp h
    unfold get at ih ⊢
    by_cases hx : x.1 = k
    · rw [List.find?_cons_of_pos (by simpa using hx)]
      refine ⟨fun hmem => ?_, fun hv => ?_⟩
      · rcases List.mem_cons.mp hmem with rfl | hmem
        · rfl
        · exact absurd (List.mem_map_of_mem hmem) (hx ▸ hnot)
      · obtain ⟨_, rfl⟩ := Option.some.inj hv
        exact hx ▸ List.mem_cons_self
    · rw [List.find?_cons_of_neg (by simpa using hx), ← ih hrest]
      refine ⟨fun hmem => ?_, List.mem_cons_of_mem _⟩
      rcases List.mem_cons.mp hmem with rfl | hmem
      · exact absurd rfl hx
      · exact hmem

theorem get_perm (hm : Distinct m) (h : m.Perm n) : get k m = get k n := by
  have hn : Distinct n := (h.map Prod.fst).nodup_iff.mp hm
  refine Option.ext fun v => ?_
  rw [← mem_iff_get hm, ← mem_iff_get hn]
  exact h.mem_iff

/-- Two objects with the same properties have the same entries. --/
theorem perm_of_get (hm : Distinct m) (hn : Distinct n) (h : ∀ k, get k m = get k n) : m.Perm n := by
  refine (List.perm_ext_iff_of_nodup (List.Nodup.of_map _ hm) (List.Nodup.of_map _ hn)).mpr fun ⟨k, v⟩ => ?_
  rw [mem_iff_get hm, mem_iff_get hn, h]

end JsObject
