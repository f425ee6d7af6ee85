import Mathlib.Logic.Basic

/-! Readers of a format: what a reader takes from the front of its input, and what is left. `Reads` says that a piece of
    input is read as a value whatever follows it, `Ends` that all of the input is. A format is read back piece by piece:
    each rule puts the pieces of its parts together. -/

/-- A reader of items of the type `ι`. --/
abbrev Reader (ι α : Type) := StateT (List ι) Option α

namespace Reader
variable {ι α β : Type}

/-- The next item. --/
def next : Reader ι ι
  | [] => none
  | i :: rest => some (i, rest)

/-- The next item, which stays. --/
def peek : Reader ι ι
  | [] => none
  | i :: rest => some (i, i :: rest)

/-- Drops the next item if it is `i`, and says whether it was. --/
def skip [BEq ι] (i : ι) : Reader ι Bool := fun input =>
  if input.head? == some i then some (true, input.tail) else some (false, input)

/-- The next `n` items. --/
def take (n : Nat) : Reader ι (List ι) := fun input =>
  if n ≤ input.length then some (input.take n, input.drop n) else none

def fail : Reader ι α := fun _ => none

def require (p : Prop) [Decidable p] : Reader ι Unit := fun input => if p then some ((), input) else none

/-- The items up to the first one that is `stop`, which is dropped. --/
def untilItem [BEq ι] (stop : ι) : Reader ι (List ι)
  | [] => none
  | i :: rest => if i == stop then some ([], rest) else (untilItem stop rest).map fun (is, rest) => (i :: is, rest)

/-- `r` for `n` times. --/
def times (r : Reader ι α) : Nat → Reader ι (List α)
  | 0 => pure []
  | n + 1 => do
    let a ← r
    let as ← times r n
    pure (a :: as)

/-- A frame of `n` items, of which `r` reads all. --/
def framed (n : Nat) (r : Reader ι α) : Reader ι α := fun input =>
  if n ≤ input.length then
    match r (input.take n) with
    | some (a, []) => some (a, input.drop n)
    | _ => none
  else none

/-- At most `n` times `r`, to the end of the input. --/
def many (r : Reader ι α) : Nat → Reader ι (List α)
  | _, [] => some ([], [])
  | 0, _ :: _ => none
  | n + 1, i :: rest => (r (i :: rest)).bind fun (a, input) => (many r n input).map fun (as, rest) => (a :: as, rest)

/-- `r` again and again, to the end of the input; each time it is to take something. --/
def toEnd (r : Reader ι α) : Reader ι (List α) := fun input => many r input.length input

/-- `r` again and again, at most `n` times, until it reads the end of a list. --/
def untilNone (r : Reader ι (Option α)) : Nat → Reader ι (List α)
  | 0 => fail
  | n + 1 => do
    match ← r with
    | none => pure []
    | some a => do
      let as ← untilNone r n
      pure (a :: as)

/-- `r` until it reads the end of a list; each time it is to take something. --/
def listOf (r : Reader ι (Option α)) : Reader ι (List α) := fun input => untilNone r (input.length + 1) input

/-- What `r` reads of an input, if it reads all of it. --/
def run (r : Reader ι α) (input : List ι) : Option α :=
  match r input with
  | some (a, []) => some a
  | _ => none

/-- `r` reads the piece as `a`, and leaves what follows. --/
def Reads (r : Reader ι α) (piece : List ι) (a : α) : Prop := ∀ rest, r (piece ++ rest) = some (a, rest)

/-- `r` reads all of the input as `a`. --/
def Ends (r : Reader ι α) (input : List ι) (a : α) : Prop := r input = some (a, [])

section
variable {r : Reader ι α} {f : α → Reader ι β} {p q : List ι} {a : α} {b : β} {n : Nat}

theorem Reads.ends (h : Reads r p a) : Ends r p a := by
  have hp := h []
  rwa [List.append_nil] at hp

theorem Ends.run (h : Ends r p a) : run r p = some a := by
  rw [Reader.run, h]

theorem reads_pure (a : α) : Reads (pure a : Reader ι α) [] a := fun _ => rfl

theorem bind_apply (input : List ι) : (r >>= f) input = (r input).bind fun x => f x.1 x.2 := rfl

/-- Two readers in a row read two pieces in a row. --/
theorem Reads.bind (h : Reads r p a) (hf : Reads (f a) q b) : Reads (r >>= f) (p ++ q) b := by
  intro rest
  rw [bind_apply, List.append_assoc, h]
  exact hf rest

/-- What comes after may read nothing. --/
theorem Reads.then (h : Reads r p a) (hf : Reads (f a) [] b) : Reads (r >>= f) p b := by
  have hboth := h.bind hf
  rwa [List.append_nil] at hboth

theorem Reads.bind_ends (h : Reads r p a) (hf : Ends (f a) q b) : Ends (r >>= f) (p ++ q) b := by
  rw [Ends, bind_apply, h]
  exact hf

/-- A reader and what is made of its value. --/
theorem Reads.map (g : α → β) (h : Reads r p a) : Reads (r >>= fun a => pure (g a)) p (g a) := h.then (reads_pure (g a))

theorem Ends.map (g : α → β) (h : Ends r p a) : Ends (r >>= fun a => pure (g a)) p (g a) := by
  rw [Ends, bind_apply, h]
  rfl

theorem reads_next (i : ι) : Reads next [i] i := fun _ => rfl

theorem Reads.next {i : ι} {f : ι → Reader ι β} (h : Reads (f i) p b) : Reads (next >>= f) (i :: p) b :=
  (reads_next i).bind h

theorem Ends.next {i : ι} {f : ι → Reader ι β} (h : Ends (f i) p b) : Ends (Reader.next >>= f) (i :: p) b :=
  (reads_next i).bind_ends h

theorem Reads.peek {i : ι} {f : ι → Reader ι β} (h : Reads (f i) (i :: p) b) : Reads (peek >>= f) (i :: p) b := h

theorem reads_skip [BEq ι] [LawfulBEq ι] (i : ι) : Reads (skip i) [i] true := by
  intro rest
  simp [skip]

/-- Nothing is dropped where another item comes next. --/
theorem Reads.skip_other [BEq ι] [LawfulBEq ι] {i j : ι} {f : Bool → Reader ι β} (hij : j ≠ i)
    (h : Reads (f false) (j :: p) b) : Reads (skip i >>= f) (j :: p) b := by
  intro rest
  rw [bind_apply, skip, List.cons_append, List.head?_cons, if_neg (by simpa using hij)]
  exact h rest

theorem reads_take (h : p.length = n) : Reads (take n) p p := by
  subst h
  intro rest
  rw [take, if_pos (by simp), List.take_left, List.drop_left]

theorem reads_require {c : Prop} [Decidable c] (hc : c) : Reads (require c : Reader ι Unit) [] () := by
  intro rest
  rw [require, if_pos hc]
  rfl

theorem Reads.require {c : Prop} [Decidable c] {f : Unit → Reader ι β} (hc : c) (h : Reads (f ()) p b) :
    Reads (require c >>= f) p b := (reads_require hc).bind h

theorem reads_untilItem [BEq ι] [LawfulBEq ι] {stop : ι} (h : stop ∉ p) : Reads (untilItem stop) (p ++ [stop]) p := by
  intro rest
  induction p with
  | nil => simp [untilItem]
  | cons i p ih =>
    obtain ⟨hi, hp⟩ := List.ne_and_not_mem_of_not_mem_cons h
    rw [List.cons_append, List.cons_append, untilItem, if_neg (by simpa using Ne.symm hi), ih hp]
    rfl

/-- A frame of the length of a piece reads that piece. --/
theorem Ends.framed (h : Ends r p a) (hn : p.length = n) : Reads (framed n r) p a := by
  subst hn
  intro rest
  rw [Reader.framed, if_pos (by simp), List.take_left, List.drop_left, h]

/-! ### Pieces in a row -/

theorem reads_times (pieces : List (List ι × α)) (h : ∀ x ∈ pieces, Reads r x.1 x.2) :
    Reads (times r pieces.length) (pieces.map Prod.fst).flatten (pieces.map Prod.snd) := by
  induction pieces with
  | nil => exact reads_pure []
  | cons x pieces ih =>
    obtain ⟨hx, hrest⟩ := List.forall_mem_cons.mp h
    exact hx.bind ((ih hrest).map _)

theorem many_pieces {pieces : List (List ι × α)} (h : ∀ x ∈ pieces, Reads r x.1 x.2 ∧ x.1 ≠ []) (hn : pieces.length ≤ n) :
    many r n (pieces.map Prod.fst).flatten = some (pieces.map Prod.snd, []) := by
  induction pieces generalizing n with
  | nil => cases n <;> rfl
  | cons x pieces ih =>
    obtain ⟨⟨hx, hne⟩, hrest⟩ := List.forall_mem_cons.mp h
    cases n with
    | zero => cases hn
    | succ n =>
      rw [List.map_cons, List.flatten_cons, List.map_cons]
      obtain ⟨i, tail, hi⟩ := List.exists_cons_of_ne_nil hne
      have hread := hx (pieces.map Prod.fst).flatten
      rw [hi, List.cons_append] at hread ⊢
      rw [many, hread, Option.bind_some]
      dsimp only
      rw [ih hrest (Nat.le_of_succ_le_succ hn)]
      rfl

theorem length_le_flatten {pieces : List (List ι × α)} (h : ∀ x ∈ pieces, x.1 ≠ []) :
    pieces.length ≤ (pieces.map Prod.fst).flatten.length := by
  induction pieces with
  | nil => exact Nat.zero_le _
  | cons x pieces ih =>
    obtain ⟨hx, hrest⟩ := List.forall_mem_cons.mp h
    rw [List.map_cons, List.flatten_cons, List.length_append, List.length_cons, Nat.add_comm]
    exact Nat.add_le_add (List.length_pos_iff.mpr hx) (ih hrest)

/-- A reader that reads each piece reads all of them, to the end of the input. --/
theorem ends_toEnd (pieces : List (List ι × α)) (h : ∀ x ∈ pieces, Reads r x.1 x.2 ∧ x.1 ≠ []) :
    Ends (toEnd r) (pieces.map Prod.fst).flatten (pieces.map Prod.snd) :=
  many_pieces h (length_le_flatten fun x hx => (h x hx).2)

/-- Pieces that are each read as an element, and one that is read as the end of the list. --/
theorem reads_untilNone {r : Reader ι (Option α)} {pieces : List (List ι × α)} (h : ∀ x ∈ pieces, Reads r x.1 (some x.2))
    (hend : Reads r q none) (hn : pieces.length < n) :
    Reads (untilNone r n) ((pieces.map Prod.fst).flatten ++ q) (pieces.map Prod.snd) := by
  induction pieces generalizing n with
  | nil =>
    cases n with
    | zero => cases hn
    | succ n => exact hend.then (reads_pure [])
  | cons x pieces ih =>
    obtain ⟨hx, hrest⟩ := List.forall_mem_cons.mp h
    cases n with
    | zero => cases hn
    | succ n =>
      rw [List.map_cons, List.flatten_cons, List.append_assoc, List.map_cons]
      exact hx.bind ((ih hrest (Nat.lt_of_succ_lt_succ hn)).map _)

theorem reads_listOf {r : Reader ι (Option α)} (pieces : List (List ι × α))
    (h : ∀ x ∈ pieces, Reads r x.1 (some x.2) ∧ x.1 ≠ []) (hend : Reads r q none) :
    Reads (listOf r) ((pieces.map Prod.fst).flatten ++ q) (pieces.map Prod.snd) := by
  intro rest
  refine reads_untilNone (fun x hx => (h x hx).1) hend ?_ rest
  have hle := length_le_flatten fun x hx => (h x hx).2
  rw [List.length_append, List.length_append]
  omega

end
end Reader
