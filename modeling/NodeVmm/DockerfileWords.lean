import NodeVmm.Lib.Text

/-! The words of a Dockerfile instruction: `splitWords` of `src/rootfs.ts`. -/

namespace NodeVmm.Dockerfile

/-- The variables of the loop of `splitWords`; no quote is `none`. --/
structure WordScan where
  words : List Text
  current : Text
  quote : Option Char
  escaped : Bool
  deriving DecidableEq, Repr

namespace WordScan

def start : WordScan := ⟨[], [], none, false⟩

def push (char : Char) (s : WordScan) : WordScan := { s with current := s.current ++ [char], escaped := false }

/-- One round of the loop. --/
def step (s : WordScan) (char : Char) : WordScan :=
  if s.escaped then s.push char
  else if char = '\\' ∧ s.quote ≠ some '\'' then { s with escaped := true }
  else if (char = '\'' ∨ char = '"') ∧ (s.quote = none ∨ s.quote = some char) then
    { s with quote := if s.quote = none then some char else none }
  else if s.quote = none ∧ Text.isSpace char then
    if s.current ≠ [] then { s with words := s.words ++ [s.current], current := [] } else s
  else s.push char

/-- What follows the loop. --/
def finish (s : WordScan) : Except String (List Text) :=
  let current := if s.escaped then s.current ++ ['\\'] else s.current
  if s.quote ≠ none then .error "unterminated quote in Dockerfile instruction"
  else .ok (if current ≠ [] then s.words ++ [current] else s.words)

end WordScan

def splitWords (input : Text) : Except String (List Text) := (input.foldl WordScan.step .start).finish

end NodeVmm.Dockerfile
