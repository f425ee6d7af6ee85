import NodeVmm.Lib.Runs
import NodeVmm.RunCommand

/-! What a captured command returns. The texts are read when the `exit` event has come, and that event does not wait for the
    pipes: what is still in one of them, or held back as part of a character, is not in the result. -/

namespace NodeVmm.Process
open Runs
variable {o : CommandOptions} {s t : Call} {started : Bool}

/-! ### Pipes -/

/-- The text is that of the bytes that were read, and after the end there is nothing more to read. --/
structure Pipe.Sound (p : Pipe) : Prop where
  text : p.text = if p.ended then Utf8.decode p.read else (Utf8.run none p.read).2
  decoder : p.ended = false → p.decoder = (Utf8.run none p.read).1
  ended : p.ended = true → p.inFlight = [] ∧ p.writable = false

theorem Pipe.Sound.initial : Pipe.initial.Sound where
  text := rfl
  decoder _ := rfl
  ended h := by cases h

theorem Pipe.Sound.writes {p : Pipe} (h : p.Sound) (hw : p.writable = true) (bytes : List UInt8) :
    Pipe.Sound { p with inFlight := p.inFlight ++ bytes } where
  text := h.text
  decoder := h.decoder
  ended he := by
    have hshut := (h.ended he).2
    rw [hw] at hshut
    cases hshut

theorem Pipe.Sound.shuts {p : Pipe} (h : p.Sound) : Pipe.Sound { p with writable := false } where
  text := h.text
  decoder := h.decoder
  ended he := ⟨(h.ended he).1, rfl⟩

theorem Pipe.Sound.data {p : Pipe} (h : p.Sound) {n : Nat} (hn : 0 < n) (hlen : n ≤ p.inFlight.length) : (p.data n).Sound := by
  have hopen : p.ended = false := by
    by_contra he
    rw [(h.ended (by simpa using he)).1, List.length_nil] at hlen
    omega
  have htext := h.text
  rw [hopen, if_neg Bool.false_ne_true] at htext
  have hdecoder := h.decoder hopen
  constructor
  · simp [Pipe.data, hopen, htext, hdecoder, Utf8.run_append]
  · intro
    simp [Pipe.data, hdecoder, Utf8.run_append]
  · intro he
    rw [show (p.data n).ended = p.ended from rfl, hopen] at he
    cases he

theorem Pipe.Sound.eof {p : Pipe} (h : p.Sound) (hempty : p.inFlight = []) (hopen : p.ended = false) : p.eof.Sound where
  text := by
    have htext := h.text
    rw [hopen, if_neg Bool.false_ne_true] at htext
    simp [Pipe.eof, htext, h.decoder hopen, Utf8.decode]
  decoder he := by cases he
  ended _ := ⟨hempty, rfl⟩

/-- The text is that of all bytes exactly if the end has come, or no byte is missing or held back. --/
theorem Pipe.Sound.text_eq_decode {p : Pipe} (h : p.Sound) :
    p.text = Utf8.decode p.written ↔ p.ended = true ∨ p.inFlight = [] ∧ p.decoder = none := by
  have htext := h.text
  rcases hended : p.ended with _ | _
  · rw [hended, if_neg Bool.false_ne_true] at htext
    simp [htext, Pipe.written, h.decoder hended, Utf8.run_eq_decode]
  · rw [hended, if_pos rfl] at htext
    simp [htext, Pipe.written, (h.ended hended).1]

/-! ### Runs -/

@[simp] theorem receive_pipes (group : Bool) (signal : Signal) : (s.receive group signal).pipes = s.pipes := by
  unfold Call.receive
  split <;> rfl

@[simp] theorem signalChild_pipes (signal : Signal) : (signalChild o s signal).pipes = s.pipes := by
  unfold signalChild
  split_ifs <;> simp

@[simp] theorem startKill_pipes : (startKill o s).pipes = s.pipes := signalChild_pipes .sigterm

theorem setPipe_sound (h : ∀ i, (s.pipes i).Sound) {i : Stream} {p : Pipe} (hp : p.Sound) :
    ∀ j, ((s.setPipe i p).pipes j).Sound := by
  intro j
  by_cases hj : j = i
  · subst hj
    simpa [Call.setPipe] using hp
  · simpa [Call.setPipe, Function.update_of_ne hj] using h j

theorem step_sound {e : Event} (hstep : step o s e = some t) (h : ∀ i, (s.pipes i).Sound) : ∀ i, (t.pipes i).Sound := by
  cases e with
  | writes i bytes =>
    simp only [step, Option.ite_none_right_eq_some, Option.some.injEq] at hstep
    obtain ⟨⟨-, -, hw⟩, rfl⟩ := hstep
    exact setPipe_sound h ((h i).writes hw bytes)
  | shuts i =>
    simp only [step, Option.some.injEq] at hstep
    subst hstep
    exact setPipe_sound h (h i).shuts
  | data i n =>
    simp only [step, Option.ite_none_right_eq_some, Option.some.injEq] at hstep
    obtain ⟨⟨-, hn, hlen⟩, rfl⟩ := hstep
    exact setPipe_sound h ((h i).data hn hlen)
  | eof i =>
    simp only [step, Option.ite_none_right_eq_some, Option.some.injEq] at hstep
    obtain ⟨⟨-, -, hempty, -, hopen⟩, rfl⟩ := hstep
    exact setPipe_sound h ((h i).eof hempty hopen)
  | exit =>
    simp only [step] at hstep
    split at hstep
    · simp only [Option.ite_none_right_eq_some, Option.some.injEq] at hstep
      obtain ⟨-, rfl⟩ := hstep
      exact h
    · cases hstep
  | hostSignal signal =>
    simp only [step] at hstep
    split_ifs at hstep
    all_goals
      cases hstep
      simpa using h
  | forks pid =>
    simp only [step, Option.ite_none_left_eq_some, Option.some.injEq] at hstep
    obtain ⟨-, rfl⟩ := hstep
    exact h
  | exits pid =>
    cases hstep
    exact h
  | leaderExits code signal | error text | continues | close =>
    simp only [step, Option.ite_none_right_eq_some, Option.some.injEq] at hstep
    obtain ⟨-, rfl⟩ := hstep
    exact h
  | timeout | abort | forceKill timer =>
    simp only [step, Option.ite_none_right_eq_some, Option.some.injEq] at hstep
    obtain ⟨-, rfl⟩ := hstep
    simpa using h

theorem run_sound {ok : Call → Event → Prop} {es : List Event} (h : Under (step o) ok (initial o started) es s) (i : Stream) :
    (s.pipes i).Sound := by
  have hrun : ∀ i, (s.pipes i).Sound :=
    h.invariant (fun _ _ _ hs _ hstep => step_sound hstep hs) fun _ => Pipe.Sound.initial
  exact hrun i

/-! ### The result -/

/-- A call that returns, returns the texts as they are. --/
theorem outcome_ok {r : CommandResult} (h : outcome o s = .ok r) :
    r.stdout = (s.pipes .stdout).text ∧ r.stderr = (s.pipes .stderr).text := by
  unfold outcome at h
  split at h
  · cases h
  · simp only at h
    split_ifs at h
    cases h
    exact ⟨rfl, rfl⟩

theorem continues_eq_some (h : step o s .continues = some t) : s.waking = true ∧ t = settle o s := by
  simp only [step, Option.ite_none_right_eq_some, Option.some.injEq] at h
  exact ⟨h.1, h.2.symm⟩

/-- A command that is only captured. --/
def capturing : CommandOptions where
  command := "ip"
  args := ["route"]
  capture := true
  allowFailure := false
  timeoutMs := none
  killTree := false
  signal := false
  win32 := false

end NodeVmm.Process
