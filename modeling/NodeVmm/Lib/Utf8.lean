import NodeVmm.Lib.Text

/-! UTF-8 read byte by byte, with the replacement character for what is none. A character that is not complete is held
    back; at the end of the bytes it is replaced. -/

namespace Utf8

/-- A character of which some bytes are there: its bits, how many bytes are missing, and the range of the next one. --/
structure Begun where
  codePoint : Nat
  missing : Nat
  lower : Nat
  upper : Nat
  deriving DecidableEq, Repr

def replacement : Char := Char.ofNat 0xFFFD

/-- A byte between two characters. The first bytes after which some second bytes would spell a shorter form, a surrogate or
    a number that is no character narrow the range. --/
def first (b : UInt8) : Option Begun × Text :=
  let n := b.toNat
  if n ≤ 0x7F then (none, [Char.ofNat n])
  else if 0xC2 ≤ n ∧ n ≤ 0xDF then (some ⟨n - 0xC0, 1, 0x80, 0xBF⟩, [])
  else if 0xE0 ≤ n ∧ n ≤ 0xEF then
    (some ⟨n - 0xE0, 2, if n = 0xE0 then 0xA0 else 0x80, if n = 0xED then 0x9F else 0xBF⟩, [])
  else if 0xF0 ≤ n ∧ n ≤ 0xF4 then
    (some ⟨n - 0xF0, 3, if n = 0xF0 then 0x90 else 0x80, if n = 0xF4 then 0x8F else 0xBF⟩, [])
  else (none, [replacement])

def step (held : Option Begun) (b : UInt8) : Option Begun × Text :=
  match held with
  | none => first b
  | some c =>
    if b.toNat < c.lower ∨ c.upper < b.toNat then ((first b).1, replacement :: (first b).2)
    else
      let codePoint := 64 * c.codePoint + b.toNat % 64
      if c.missing ≤ 1 then (none, [Char.ofNat codePoint])
      else (some ⟨codePoint, c.missing - 1, 0x80, 0xBF⟩, [])

/-- The text of some bytes, and what is held back after them. --/
def run : Option Begun → List UInt8 → Option Begun × Text
  | held, [] => (held, [])
  | held, b :: bytes => ((run (step held b).1 bytes).1, (step held b).2 ++ (run (step held b).1 bytes).2)

/-- The text of the end of the bytes. --/
def finish : Option Begun → Text
  | none => []
  | some _ => [replacement]

def decode (bytes : List UInt8) : Text := (run none bytes).2 ++ finish (run none bytes).1

section
variable {held : Option Begun} {b : UInt8} {bytes more : List UInt8}

/-- Bytes in two pieces are read like the bytes in one. --/
theorem run_append : ∀ {bytes : List UInt8} {held : Option Begun}, run held (bytes ++ more) =
    ((run (run held bytes).1 more).1, (run held bytes).2 ++ (run (run held bytes).1 more).2)
  | [], _ => rfl
  | b :: bytes, held => by
    simp only [List.cons_append, run]
    rw [@run_append bytes, List.append_assoc]

theorem first_held (h : (first b).2 = []) : (first b).1 ≠ none := by
  simp only [first] at h ⊢
  split_ifs at h ⊢ <;> simp at h ⊢

/-- A byte gives text or is held back. --/
theorem step_held (h : (step held b).2 = []) : (step held b).1 ≠ none := by
  cases held with
  | none => exact first_held h
  | some c =>
    simp only [step] at h ⊢
    split_ifs at h ⊢
    simp at h ⊢

/-- What is held back and the bytes after it give some text, if there are any. --/
theorem rest_eq_nil : ∀ {bytes : List UInt8} {held : Option Begun},
    (run held bytes).2 ++ finish (run held bytes).1 = [] ↔ bytes = [] ∧ held = none
  | [], none => by simp [run, finish]
  | [], some c => by simp [run, finish]
  | b :: bytes, held => by
    simp only [run, List.append_assoc, reduceCtorEq, false_and, iff_false]
    intro h
    obtain ⟨hstep, hrest⟩ := List.append_eq_nil_iff.mp h
    exact step_held hstep (rest_eq_nil.mp hrest).2

/-- The text of the bytes read so far is that of all bytes exactly if no byte is missing or held back. --/
theorem run_eq_decode : (run none bytes).2 = decode (bytes ++ more) ↔ more = [] ∧ (run none bytes).1 = none := by
  rw [decode, run_append, List.append_assoc, List.self_eq_append_right, rest_eq_nil]

end

example : decode [0x68, 0xC3, 0xA9, 0xE2, 0x82, 0xAC, 0xF0, 0x9F, 0x98, 0x80] = ['h', 'é', '€', '😀'] := by decide

/-- A byte that continues nothing, a character that is cut off, and a surrogate. --/
example : decode [0x80, 0xE2, 0x82, 0x41, 0xED, 0xA0, 0x80, 0xC3] =
    [replacement, replacement, 'A', replacement, replacement, replacement, replacement] := by decide

end Utf8
