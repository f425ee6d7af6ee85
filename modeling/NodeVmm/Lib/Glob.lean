import NodeVmm.Lib.Text

/-! Patterns in which `*` stands for characters other than a separator, and texts that are components with separators between
    them. A pattern fits such a text exactly when it fits component by component. -/

namespace Glob
variable {sep : Char} {p q t u v : Text} {cs ns : List Text}

def Fits (sep : Char) : Text → Text → Prop
  | [], t => t = []
  | c :: p, t => if c = '*' then ∃ u v, t = u ++ v ∧ sep ∉ u ∧ Fits sep p v else ∃ v, t = c :: v ∧ Fits sep p v

theorem fits_star : Fits sep ('*' :: p) t ↔ ∃ u v, t = u ++ v ∧ sep ∉ u ∧ Fits sep p v := Iff.rfl

theorem fits_char {c : Char} (hc : c ≠ '*') : Fits sep (c :: p) t ↔ ∃ v, t = c :: v ∧ Fits sep p v := by
  rw [Fits, if_neg hc]

theorem fits_append : Fits sep (p ++ q) t ↔ ∃ u v, t = u ++ v ∧ Fits sep p u ∧ Fits sep q v := by
  induction p generalizing t with
  | nil => simp [Fits]
  | cons c p ih =>
    rw [List.cons_append]
    by_cases hc : c = '*'
    · subst hc
      simp only [fits_star, ih]
      constructor
      · rintro ⟨u, _, rfl, hu, v, w, rfl, hv, hw⟩
        exact ⟨u ++ v, w, (List.append_assoc _ _ _).symm, ⟨u, v, rfl, hu, hv⟩, hw⟩
      · rintro ⟨_, w, rfl, ⟨u, v, rfl, hu, hv⟩, hw⟩
        exact ⟨u, v ++ w, List.append_assoc _ _ _, hu, v, w, rfl, hv, hw⟩
    · simp only [fits_char hc, ih]
      constructor
      · rintro ⟨_, rfl, v, w, rfl, hv, hw⟩
        exact ⟨c :: v, w, rfl, ⟨v, rfl, hv⟩, hw⟩
      · rintro ⟨_, w, rfl, ⟨v, rfl, hv⟩, hw⟩
        exact ⟨v ++ w, rfl, v, w, rfl, hv, hw⟩

/-- A pattern without separators fits texts without separators. --/
theorem not_mem_of_fits (hp : sep ∉ p) (h : Fits sep p t) : sep ∉ t := by
  induction p generalizing t with
  | nil =>
    rw [show t = [] from h]
    exact List.not_mem_nil
  | cons c p ih =>
    obtain ⟨hc, hrest⟩ := not_or.mp (mt List.mem_cons.mpr hp)
    by_cases hstar : c = '*'
    · subst hstar
      obtain ⟨u, v, rfl, hu, hv⟩ := fits_star.mp h
      exact fun hmem => (List.mem_append.mp hmem).elim hu (ih hrest hv)
    · obtain ⟨v, rfl, hv⟩ := (fits_char hstar).mp h
      exact fun hmem => (List.mem_cons.mp hmem).elim hc (ih hrest hv)

/-! ### Components -/

theorem join_append : ∀ {ns ms : List Text}, ns ≠ [] → ms ≠ [] →
    Text.join sep (ns ++ ms) = Text.join sep ns ++ sep :: Text.join sep ms
  | [n], m :: ms, _, _ => by
    rw [List.singleton_append, Text.join_cons_cons]
    simp [Text.join]
  | n :: n' :: ns, m :: ms, _, hms => by
    have hrest : Text.join sep (n' :: ns ++ m :: ms) = Text.join sep (n' :: ns) ++ sep :: Text.join sep (m :: ms) :=
      join_append (List.cons_ne_nil _ _) hms
    rw [List.cons_append, List.cons_append, Text.join_cons_cons, ← List.cons_append, hrest, Text.join_cons_cons, List.append_assoc,
      List.cons_append]

/-- A separator in a joined text is one between two components. --/
theorem join_eq_append_iff : ∀ {ns : List Text} {u v : Text}, (∀ n ∈ ns, sep ∉ n) → (Text.join sep ns = u ++ sep :: v ↔
    ∃ b c, ns = b ++ c ∧ b ≠ [] ∧ c ≠ [] ∧ Text.join sep b = u ∧ Text.join sep c = v) := by
  intro ns u v hns
  constructor
  · intro h
    induction ns generalizing u with
    | nil => simp [Text.join] at h
    | cons n ns ih =>
      obtain ⟨hn, hrest⟩ := List.forall_mem_cons.mp hns
      cases ns with
      | nil =>
        have hmem : sep ∈ n := by
          rw [show n = u ++ sep :: v by simpa [Text.join] using h]
          simp
        exact absurd hmem hn
      | cons m ns =>
        rw [Text.join_cons_cons] at h
        rcases List.append_eq_append_iff.mp h with ⟨a, rfl, ha⟩ | ⟨a, rfl, ha⟩
        · cases a with
          | nil => exact ⟨[n], m :: ns, rfl, List.cons_ne_nil _ _, List.cons_ne_nil _ _, by simp [Text.join],
              (List.cons.inj ha).2⟩
          | cons x a =>
            obtain ⟨rfl, htail⟩ := List.cons.inj ha
            obtain ⟨b, c, hbc, hb, hc, rfl, hv⟩ := ih hrest htail
            obtain ⟨n', b, rfl⟩ := List.exists_cons_of_ne_nil hb
            exact ⟨n :: n' :: b, c, by rw [hbc]; rfl, List.cons_ne_nil _ _, hc, Text.join_cons_cons, hv⟩
        · cases a with
          | nil => exact ⟨[u], m :: ns, by simp, List.cons_ne_nil _ _, List.cons_ne_nil _ _, by simp [Text.join],
              (List.cons.inj ha).2.symm⟩
          | cons x a =>
            obtain ⟨rfl, -⟩ := List.cons.inj ha
            exact absurd (by simp) hn
  · rintro ⟨b, c, rfl, hb, hc, rfl, rfl⟩
    exact join_append hb hc

/-- A pattern fits component by component. --/
theorem fits_join (hsep : sep ≠ '*') : ∀ {cs ns : List Text}, cs ≠ [] → ns ≠ [] → (∀ c ∈ cs, sep ∉ c) → (∀ n ∈ ns, sep ∉ n) →
    (Fits sep (Text.join sep cs) (Text.join sep ns) ↔ List.Forall₂ (Fits sep) cs ns)
  | [c], n :: ns, _, _, hcs, hns => by
    have hc : Text.join sep [c] = c := by simp [Text.join]
    rw [hc]
    cases ns with
    | nil => simp [Text.join]
    | cons m ns =>
      have hlong : ¬List.Forall₂ (Fits sep) [c] (n :: m :: ns) := by
        rintro (_ | ⟨-, h⟩)
        cases h
      refine iff_of_false (fun h => not_mem_of_fits (hcs c List.mem_cons_self) h ?_) hlong
      rw [Text.join_cons_cons]
      simp
  | c :: d :: cs, n :: ns, _, _, hcs, hns => by
    obtain ⟨hc, hcs⟩ := List.forall_mem_cons.mp hcs
    rw [Text.join_cons_cons, fits_append]
    simp only [fits_char hsep]
    cases ns with
    | nil =>
      have hshort : ¬List.Forall₂ (Fits sep) (c :: d :: cs) [n] := by
        rintro (_ | ⟨-, h⟩)
        cases h
      refine iff_of_false ?_ hshort
      rintro ⟨u, _, hn, -, v, rfl, -⟩
      refine hns n List.mem_cons_self ?_
      rw [show n = u ++ sep :: v by simpa [Text.join] using hn]
      simp
    | cons m ns =>
      obtain ⟨hn, hns⟩ := List.forall_mem_cons.mp hns
      rw [List.forall₂_cons, ← fits_join hsep (List.cons_ne_nil d cs) (List.cons_ne_nil m ns) hcs hns, Text.join_cons_cons]
      constructor
      · rintro ⟨u, _, heq, hu, v, rfl, hv⟩
        obtain ⟨rfl, rfl⟩ := Text.append_cons_inj hn (not_mem_of_fits hc hu) heq
        exact ⟨hu, hv⟩
      · rintro ⟨hu, hv⟩
        exact ⟨n, _, rfl, hu, _, rfl, hv⟩

end Glob
