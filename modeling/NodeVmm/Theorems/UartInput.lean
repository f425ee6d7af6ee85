import NodeVmm.Lib.Runs
import NodeVmm.Theorems.UartTx
import NodeVmm.UartInput

/-! The host's input reaches the guest, and the interrupt that tells of it is up as long as some waits. On KVM an access
    of the guest may be cut in two by the host, and what IIR says is behind only between the two halves of a write of
    IER. -/

namespace NodeVmm

/-! ### The receive queue -/

theorem pushFront_response {rx : List UInt8} : pushFront response.reverse rx = responseFitting rx ++ rx := pushFront_fitting

theorem responseFitting_length {rx : List UInt8} (h : rx.length ≤ rxLimit) :
    (responseFitting rx ++ rx).length ≤ rxLimit := by
  rw [List.length_append, responseFitting, List.length_drop]
  omega

theorem accepted_length {data rx : List UInt8} (h : rx.length ≤ rxLimit) :
    (rx ++ data.take (rxLimit - rx.length)).length ≤ rxLimit := by
  rw [List.length_append, List.length_take]
  omega

/-! ### KVM -/

namespace Kvm

namespace Uart
variable {u : Uart} {value : UInt8} {data : List UInt8} {offset : Nat}

/-- What IIR is to say: received data, then THR empty, then nothing. --/
def identification (ier : UInt8) (rx : List UInt8) : UInt8 :=
  if ier &&& 0x01 ≠ 0 ∧ rx ≠ [] then 0x04 else if ier &&& 0x02 ≠ 0 then 0x02 else 0x01

/-- The interrupt line follows IIR. --/
def LineTold (u : Uart) : Prop := u.irq = true ↔ u.iir ≠ 0x01

def Identified (u : Uart) : Prop := u.iir = identification u.ier u.rx

theorem updateInterrupt_eq (u : Uart) :
    u.updateInterrupt = { u with iir := identification u.ier u.rx, irq := identification u.ier u.rx ≠ 0x01 } := by
  unfold updateInterrupt identification
  split_ifs <;> simp

theorem lineTold_updateInterrupt (u : Uart) : u.updateInterrupt.LineTold := by
  simp [updateInterrupt_eq, LineTold]

theorem identified_updateInterrupt (u : Uart) : u.updateInterrupt.Identified := by
  simp [updateInterrupt_eq, Identified]

theorem updateInterrupt_irq (level : Bool) : { u with irq := level }.updateInterrupt = u.updateInterrupt := by
  simp [updateInterrupt_eq]

/-- Only a read of RBR takes something, and only a read of RBR or IIR sets the line again. --/
theorem read_cases (u : Uart) (offset : Nat) :
    offset = 0 ∧ u.dlab = false ∧ u.read offset = (u.rx.headD 0, { u with rx := u.rx.tail }.updateInterrupt) ∨
    ¬(offset = 0 ∧ u.dlab = false) ∧ ((u.read offset).2 = u ∨ (u.read offset).2 = u.updateInterrupt) := by
  unfold read
  split
  · cases hdlab : u.dlab with
    | true => exact Or.inr ⟨by simp, Or.inl rfl⟩
    | false => exact Or.inl ⟨rfl, rfl, rfl⟩
  · exact Or.inr ⟨by simp, Or.inl rfl⟩
  · refine Or.inr ⟨by simp, ?_⟩
    dsimp only
    split_ifs
    · exact Or.inr (updateInterrupt_irq false)
    · exact Or.inl rfl
  all_goals exact Or.inr ⟨by simp_all, Or.inl rfl⟩

/-- The registers that a write only stores. --/
theorem write_other (u : Uart) (value : UInt8) (hthr : ¬(offset = 0 ∧ u.dlab = false))
    (hier : ¬(offset = 1 ∧ u.dlab = false)) :
    (u.write offset value).rx = u.rx ∧ (u.write offset value).ier = u.ier ∧ (u.write offset value).iir = u.iir ∧
      (u.write offset value).irq = u.irq := by
  unfold write
  split
  · have hdlab : u.dlab = true := by simpa using hthr
    simp [hdlab]
  · have hdlab : u.dlab = true := by simpa using hier
    simp [hdlab]
  all_goals simp

theorem handleTxByte_rx (u : Uart) (value : UInt8) : (u.handleTxByte value).rx = u.answer value ++ u.rx := by
  unfold handleTxByte answer
  by_cases hheld : u.terminalQuery ≠ [] ∨ value = 0x1B
  · by_cases hquery : u.terminalQuery ++ [value] = query
    · simp [hheld, hquery, enqueueRxFront, updateInterrupt_eq, pushFront_response]
    · simp only [hheld, hquery, if_true, and_false, if_false]
      split_ifs <;> rfl
  · simp [hheld, emitTx]

/-- A byte that is transmitted leaves IER alone, and IIR and the line unless it is answered. --/
theorem handleTxByte_cases (u : Uart) (value : UInt8) : (u.handleTxByte value).ier = u.ier ∧
    ((u.handleTxByte value).rx = u.rx ∧ (u.handleTxByte value).iir = u.iir ∧ (u.handleTxByte value).irq = u.irq ∨
      (u.handleTxByte value).Identified ∧ (u.handleTxByte value).LineTold) := by
  unfold handleTxByte
  dsimp only
  split_ifs
  · simp [enqueueRxFront, updateInterrupt_eq, Identified, LineTold]
  all_goals simp [emitTx]

end Uart

namespace Com1
open Uart
variable {s t : Com1} {e : Event} {es : List Event}

/-- What holds between any two steps. --/
structure Inv (s : Com1) : Prop where
  limit : s.uart.rx.length ≤ rxLimit
  line : s.uart.LineTold
  /-- In the midst of a write of IER, IIR may still be what IER asked for before. --/
  iir : s.uart.Identified ∨
    ∃ ierBefore, s.access = .ierStored ierBefore ∧ s.uart.iir = identification ierBefore s.uart.rx
  feed : s.feed.Tracks s.uart.rx

theorem Inv.identified (h : s.Inv) (hidle : s.access = .idle) : s.uart.Identified := by
  rcases h.iir with hiir | ⟨ierBefore, haccess, -⟩
  · exact hiir
  · rw [hidle] at haccess
    cases haccess

theorem inv_start (out : Console) : Inv { uart := { out := out } } := by
  refine ⟨Nat.zero_le _, ?_, Or.inl ?_, Feed.tracks_empty⟩
  · simp [LineTold]
  · simp [Identified, identification]

theorem inv_read {offset : Nat} (h : s.Inv) : (s.read offset).Inv := by
  rcases read_cases s.uart offset with ⟨rfl, hdlab, hread⟩ | ⟨hother, hread⟩
  · cases hrx : s.uart.rx with
    | nil =>
      have hsame : s.read 0 = { s with uart := s.uart.updateInterrupt } := by
        simp [read, hread, hrx, updateInterrupt_eq]
      rw [hsame]
      refine ⟨?_, lineTold_updateInterrupt _, Or.inl (identified_updateInterrupt _), ?_⟩
      · simpa [updateInterrupt_eq] using h.limit
      · simpa [updateInterrupt_eq] using h.feed
    | cons b rest =>
      have htaken : s.read 0 =
          { s with uart := { s.uart with rx := rest }.updateInterrupt, feed := s.feed.take b } := by
        simp [read, hread, hrx, hdlab]
      have hfeed := h.feed
      have hlimit := h.limit
      rw [hrx] at hfeed hlimit
      rw [htaken]
      refine ⟨?_, lineTold_updateInterrupt _, Or.inl (identified_updateInterrupt _), ?_⟩
      · simpa [updateInterrupt_eq] using Nat.le_of_succ_le hlimit
      · simpa [updateInterrupt_eq] using hfeed.take
  · have hsame : s.read offset = { s with uart := (s.uart.read offset).2 } := by
      have hnot : ¬(offset = 0 ∧ ¬s.uart.dlab = true ∧ s.uart.rx ≠ []) := by
        rintro ⟨hzero, hdlab, -⟩
        exact hother ⟨hzero, by simpa using hdlab⟩
      simp only [read, if_neg hnot]
    rw [hsame]
    rcases hread with hread | hread
    · rw [hread]
      exact h
    · rw [hread]
      refine ⟨?_, lineTold_updateInterrupt _, Or.inl (identified_updateInterrupt _), ?_⟩
      · simpa [updateInterrupt_eq] using h.limit
      · simpa [updateInterrupt_eq] using h.feed

theorem inv_write {offset : Nat} {value : UInt8} (h : s.Inv) (hidle : s.access = .idle) : (s.write offset value).Inv := by
  have hid := h.identified hidle
  unfold write
  split_ifs with hthr hier
  · obtain ⟨hier, hcases⟩ := handleTxByte_cases s.uart value
    have hrx := handleTxByte_rx s.uart value
    refine ⟨?_, ?_, Or.inl ?_, ?_⟩
    · dsimp only
      rw [hrx]
      unfold answer
      split_ifs
      · exact responseFitting_length h.limit
      · exact h.limit
    · rcases hcases with ⟨-, hiir, hirq⟩ | ⟨-, hline⟩
      · simpa [LineTold, hiir, hirq] using h.line
      · exact hline
    · rcases hcases with ⟨hsame, hiir, -⟩ | ⟨hident, -⟩
      · simpa [Identified, hiir, hsame, hier] using hid
      · exact hident
    · dsimp only
      rw [hrx]
      exact h.feed.front _
  · exact ⟨h.limit, h.line, Or.inr ⟨s.uart.ier, rfl, hid⟩, h.feed⟩
  · obtain ⟨hrx, hier', hiir, hirq⟩ := write_other s.uart value (by simpa using hthr) (by simpa using hier)
    refine ⟨?_, ?_, Or.inl ?_, ?_⟩
    · simpa [hrx] using h.limit
    · simpa [LineTold, hiir, hirq] using h.line
    · simpa [Identified, hiir, hrx, hier'] using hid
    · simpa [hrx] using h.feed

theorem inv_proceed (h : s.Inv) : s.proceed.Inv := by
  refine ⟨?_, lineTold_updateInterrupt _, Or.inl (identified_updateInterrupt _), ?_⟩
  · simpa [proceed, updateInterrupt_eq] using h.limit
  · simpa [proceed, updateInterrupt_eq] using h.feed

theorem inv_enqueueRx {data : List UInt8} (h : s.Inv) : (s.enqueueRx data).Inv := by
  refine ⟨?_, lineTold_updateInterrupt _, Or.inl (identified_updateInterrupt _), ?_⟩
  · simpa [enqueueRx, Uart.enqueueRx, updateInterrupt_eq] using accepted_length h.limit
  · simpa [enqueueRx, Uart.enqueueRx, updateInterrupt_eq] using h.feed.back _

theorem inv_step (h : s.Inv) (hstep : s.step e = some t) : t.Inv := by
  cases e with
  | read offset =>
    simp only [step, Option.ite_none_right_eq_some, Option.some.injEq] at hstep
    obtain ⟨-, rfl⟩ := hstep
    exact inv_read h
  | write offset value =>
    simp only [step, Option.ite_none_right_eq_some, Option.some.injEq] at hstep
    obtain ⟨hidle, rfl⟩ := hstep
    exact inv_write h hidle
  | emitBytes data =>
    simp only [step, Option.ite_none_right_eq_some, Option.some.injEq] at hstep
    obtain ⟨-, rfl⟩ := hstep
    exact ⟨h.limit, h.line, h.iir, h.feed⟩
  | proceed =>
    simp only [step, Option.ite_none_left_eq_some, Option.some.injEq] at hstep
    obtain ⟨-, rfl⟩ := hstep
    exact inv_proceed h
  | enqueueRx data =>
    simp only [step, Option.some.injEq] at hstep
    subst hstep
    exact inv_enqueueRx h

theorem inv_run {out : Console} (h : Runs.Under step (fun _ _ => True) { uart := { out := out } } es s) : s.Inv :=
  h.invariant (fun _ _ _ hinv _ hstep => inv_step hinv hstep) (inv_start out)

/-- A write that nothing cuts in two. --/
theorem write_proceed (s : Com1) (offset : Nat) (value : UInt8) (hidle : s.access = .idle) :
    (if (s.write offset value).access = .idle then s.write offset value else (s.write offset value).proceed).uart =
      s.uart.write offset value := by
  by_cases hthr : offset = 0 ∧ ¬s.uart.dlab
  · obtain ⟨rfl, hdlab⟩ := hthr
    by_cases hempty : (s.uart.handleTxByte value).ier &&& 0x02 ≠ 0
    · simp [write, proceed, Uart.write, transmit, hdlab, hempty]
    · simp only [write, Uart.write, transmit, hdlab, hempty]
      simp
  · by_cases hier : offset = 1 ∧ ¬s.uart.dlab
    · obtain ⟨rfl, hdlab⟩ := hier
      simp [write, proceed, Uart.write, hdlab]
    · have hsame : s.write offset value = { s with uart := s.uart.write offset value } := by
        simp only [write, if_neg hthr, if_neg hier]
      simp [hsame, hidle]

/-- Whatever the order of accesses and input: the queue is bounded, the interrupt line is up exactly when IIR reports
    something, LSR shows whether anything waits, IIR reports received data before THR empty exactly when IER asks for it
    and something waits, and the guest reads what the host fed, in order and each once, apart from the answers to its
    queries. IIR may be behind only while a write of IER is under way, which no access of the guest can see. --/
theorem com1_receives (out : Console) (es : List Event) (s : Com1)
    (h : Runs.Under step (fun _ _ => True) { uart := { out := out } } es s) :
    s.uart.rx.length ≤ rxLimit ∧
    (s.uart.irq = true ↔ s.uart.iir ≠ 0x01) ∧
    ((s.uart.read 5).1 &&& 0x01 ≠ 0 ↔ s.uart.rx ≠ []) ∧
    (s.access = .idle ∨ s.access = .byteHandled →
      (s.uart.iir = 0x04 ↔ s.uart.ier &&& 0x01 ≠ 0 ∧ s.uart.rx ≠ []) ∧
      s.uart.iir = identification s.uart.ier s.uart.rx) ∧
    (∀ ierBefore, s.access = .ierStored ierBefore →
      s.uart.iir = identification s.uart.ier s.uart.rx ∨ s.uart.iir = identification ierBefore s.uart.rx) ∧
    s.feed.waiting.map Prod.fst = s.uart.rx ∧
    s.feed.taken.map Prod.fst = s.feed.got ∧
    Feed.fromSource s.feed.taken ++ Feed.fromSource s.feed.waiting = s.feed.fed := by
  have hinv := inv_run h
  refine ⟨hinv.limit, hinv.line, ?_, ?_, ?_, hinv.feed.waiting, hinv.feed.taken, hinv.feed.order⟩
  · by_cases hrx : s.uart.rx = []
    · simp [Uart.read, hrx]
      decide
    · simp [Uart.read, hrx]
      decide
  · intro haccess
    have hid : s.uart.Identified := by
      rcases hinv.iir with hid | ⟨ierBefore, hstored, -⟩
      · exact hid
      · rw [hstored] at haccess
        simp at haccess
    refine ⟨?_, hid⟩
    rw [hid]
    unfold identification
    split_ifs with hdata hthre
    · simp [hdata]
    · simpa using hdata
    · simpa using hdata
  · intro ierBefore haccess
    rcases hinv.iir with hid | ⟨ier, hstored, hiir⟩
    · exact Or.inl hid
    · rw [hstored] at haccess
      cases haccess
      exact Or.inr hiir

/-- The host gets in between the store to IER and the block that follows. --/
theorem com1_receives_within_write :
    ∃ s : Com1, s.uart.rx.length ≤ rxLimit ∧ s.feed.got = [0x61] := by
  obtain ⟨s, hrun, hgot⟩ := Runs.exists_under step (fun _ _ => True) { uart := { out := {} } }
    [.write 1 0x01, .enqueueRx [0x61], .proceed, .read 0] (fun s => s.feed.got = [0x61]) (by decide)
  exact ⟨s, (com1_receives {} _ s hrun).1, hgot⟩

end Com1
end Kvm

/-! ### HVF -/

namespace Hvf

namespace Pl011Uart
variable {u : Pl011Uart} {c : UInt8}

/-- The receive bits of RIS and the interrupt line are what the receive queue makes them. --/
structure Told (u : Pl011Uart) : Prop where
  ris : u.ris &&& kRxInterrupts = if u.rx ≠ [] then kRxInterrupts else 0
  irq : u.irq = true ↔ u.ris &&& u.imsc ≠ 0

theorem told_updateIrq (u : Pl011Uart) : u.updateIrq.Told := by
  refine ⟨?_, by simp [updateIrq]⟩
  have hset : (u.ris ||| kRxInterrupts) &&& kRxInterrupts = kRxInterrupts := by
    rw [← UInt32.toBitVec_inj]
    ext i hi
    simpa using Or.inr
  have hclear : u.ris &&& ~~~kRxInterrupts &&& kRxInterrupts = 0 := by
    rw [UInt32.and_assoc, UInt32.and_comm (~~~kRxInterrupts), UInt32.and_not_self, UInt32.and_zero]
  unfold updateIrq
  dsimp only
  split_ifs
  · exact hset
  · exact hclear

@[simp] theorem updateIrq_rx (u : Pl011Uart) : u.updateIrq.rx = u.rx := rfl

theorem handleTx_rx (u : Pl011Uart) (c : UInt8) : (u.handleTx c).rx = u.answer c ++ u.rx := by
  by_cases hecho : u.echoStdout
  · simp [handleTx, answer, hecho, emitTx]
  · simp only [handleTx, if_neg hecho]
    split_ifs with hheld hfirst hquery
    · simp [answer, hecho, hheld, hquery, pushFront_response]
    · simp [answer, hquery]
    · have hquery : u.terminalQuery ++ [c] ≠ query := by
        intro heq
        exact hfirst (heq ▸ List.prefix_refl _)
      rw [emitTx_all]
      simp [answer, hquery]
    · simp [answer, hheld, emitTx]

theorem readDr_empty (h : u.rx = []) : u.readDr = (0, u) := by
  unfold readDr
  rw [h]

theorem readDr_cons {b : UInt8} {rest : List UInt8} (h : u.rx = b :: rest) :
    ∃ ris, u.readDr = (b, { u with rx := rest, ris := ris }.updateIrq) := by
  unfold readDr
  rw [h]
  exact ⟨_, rfl⟩

end Pl011Uart

namespace Pl011
open Pl011Uart
variable {s : Pl011} {es : List Event} {e : Event}

structure Inv (s : Pl011) : Prop where
  limit : s.uart.rx.length ≤ rxLimit
  told : s.uart.Told
  feed : s.feed.Tracks s.uart.rx

theorem inv_start (limit : Nat) (echo : Bool) : Inv { uart := { consoleLimit := limit, echoStdout := echo } } := by
  refine ⟨Nat.zero_le _, ⟨?_, ?_⟩, Feed.tracks_empty⟩ <;> simp

/-- Registers may change as they like when the line is told afterwards. --/
theorem inv_updateIrq (uart : Pl011Uart) {t : Pl011} (h : s.Inv) (hrx : uart.rx = s.uart.rx) (huart : t.uart = uart.updateIrq)
    (hfeed : t.feed = s.feed) : t.Inv := by
  refine ⟨?_, ?_, ?_⟩
  · rw [huart, updateIrq_rx, hrx]
    exact h.limit
  · rw [huart]
    exact told_updateIrq uart
  · rw [huart, hfeed, updateIrq_rx, hrx]
    exact h.feed

theorem inv_readMmio (offset len : Nat) (h : s.Inv) : (s.readMmio offset len).2.Inv := by
  by_cases hlen : len = 0 ∨ 4 < len
  · simpa only [readMmio, if_pos hlen] using h
  · by_cases hdr : offset = 0x000
    · simp only [readMmio, if_neg hlen, if_pos hdr]
      cases hrx : s.uart.rx with
      | nil =>
        rw [readDr_empty hrx]
        exact h
      | cons b rest =>
        obtain ⟨ris, hread⟩ := readDr_cons hrx
        have hlimit := h.limit
        have hfeed := h.feed
        rw [hrx] at hlimit hfeed
        rw [hread]
        refine ⟨?_, told_updateIrq _, ?_⟩
        · simpa using Nat.le_of_succ_le hlimit
        · simpa using hfeed.take
    · simpa only [readMmio, if_neg hlen, if_neg hdr] using h

theorem inv_transmit (c : UInt8) (h : s.Inv) :
    Inv { s with uart := s.uart.transmit c, feed := s.feed.front (s.uart.answer c) } := by
  have hrx : (s.uart.transmit c).rx = s.uart.answer c ++ s.uart.rx := handleTx_rx s.uart c
  refine ⟨?_, told_updateIrq _, ?_⟩
  · dsimp only
    rw [hrx]
    unfold answer
    split_ifs
    · exact responseFitting_length h.limit
    · exact h.limit
  · dsimp only
    rw [hrx]
    exact h.feed.front _

theorem inv_writeMmio (offset len : Nat) (val : UInt32) (h : s.Inv) : (s.writeMmio offset len val).Inv := by
  unfold writeMmio
  split_ifs
  · exact h
  · split
    · exact inv_transmit _ h
    · exact ⟨h.limit, h.told, h.feed⟩
    · exact ⟨h.limit, h.told, h.feed⟩
    · exact ⟨h.limit, h.told, h.feed⟩
    · exact ⟨h.limit, h.told, h.feed⟩
    · exact inv_updateIrq s.uart h rfl rfl rfl
    · exact inv_updateIrq { s.uart with imsc := val } h rfl rfl rfl
    · exact inv_updateIrq { s.uart with ris := s.uart.ris &&& ~~~val } h rfl rfl rfl
    · exact ⟨h.limit, h.told, h.feed⟩
    · exact h

theorem inv_injectChar (c : UInt8) (h : s.Inv) : (s.injectChar c).Inv := by
  by_cases hroom : s.uart.rx.length < rxLimit
  · have hlen : (s.uart.rx ++ [c]).length ≤ rxLimit := by
      rw [List.length_append]
      exact hroom
    refine ⟨?_, told_updateIrq _, ?_⟩
    · simpa only [injectChar, Pl011Uart.injectChar, if_pos hroom, updateIrq_rx] using hlen
    · simpa [injectChar, Pl011Uart.injectChar, hroom] using h.feed.back [c]
  · refine ⟨?_, told_updateIrq _, ?_⟩
    · simpa [injectChar, Pl011Uart.injectChar, hroom] using h.limit
    · simpa [injectChar, Pl011Uart.injectChar, hroom] using h.feed

theorem inv_step (s : Pl011) (e : Event) (h : s.Inv) : (s.step e).Inv := by
  cases e with
  | readMmio offset len => exact inv_readMmio offset len h
  | writeMmio offset len val => exact inv_writeMmio offset len val h
  | injectChar c => exact inv_injectChar c h
  | injectBytes data => exact ⟨accepted_length h.limit, told_updateIrq _, h.feed.back _⟩
  | refreshIrq => exact inv_updateIrq s.uart h rfl rfl rfl

theorem inv_run (es : List Event) (h : s.Inv) : (es.foldl step s).Inv := by
  induction es generalizing s with
  | nil => exact h
  | cons e es ih => exact ih (inv_step s e h)

/-- What the reads of DR give in a run, also those that find nothing. --/
def drValues : Pl011 → List Event → List UInt32
  | _, [] => []
  | s, .readMmio offset len :: es =>
    let rest := drValues (s.readMmio offset len).2 es
    if offset = 0x000 ∧ ¬(len = 0 ∨ 4 < len) then (s.readMmio offset len).1 :: rest else rest
  | s, e :: es => drValues (s.step e) es

theorem told_bits {u : Pl011Uart} (h : u.Told) :
    (u.ris &&& 0x10 ≠ 0 ↔ u.rx ≠ []) ∧ (u.ris &&& 0x40 ≠ 0 ↔ u.rx ≠ []) := by
  have hrx : u.ris &&& 0x10 = (u.ris &&& kRxInterrupts) &&& 0x10 := by
    rw [UInt32.and_assoc]
    rfl
  have hrt : u.ris &&& 0x40 = (u.ris &&& kRxInterrupts) &&& 0x40 := by
    rw [UInt32.and_assoc]
    rfl
  rw [hrx, hrt, h.ris]
  by_cases hempty : u.rx = []
  · simp [hempty]
  · simp only [ne_eq, hempty, not_false_eq_true, if_true, iff_true]
    decide

/-- A read of DR with nothing in the queue gives a zero that nobody fed. --/
theorem empty_read_gives_zero : ¬∀ es : List Event, ∃ taken : List (UInt8 × Bool),
    taken.map (fun x => x.1.toUInt32) = drValues {} es ∧ Feed.fromSource taken <+: (es.foldl step {}).feed.fed ∧
      ∀ x ∈ taken, x.2 = false → x.1 ∈ response := by
  intro hall
  obtain ⟨taken, hvalues, hfed, hanswers⟩ := hall [.readMmio 0x000 4]
  obtain ⟨⟨b, source⟩, rest, rfl, hb, -⟩ := List.map_eq_cons_iff.mp hvalues
  cases source with
  | true =>
    have hnil : Feed.fromSource ((b, true) :: rest) = [] := List.prefix_nil.mp hfed
    simp [Feed.fromSource] at hnil
  | false =>
    have hnonzero : response.all (fun b => b.toUInt32 ≠ 0) = true := by decide
    have hmem := List.all_eq_true.mp hnonzero b (hanswers (b, false) List.mem_cons_self rfl)
    exact of_decide_eq_true hmem hb

/-- Whatever the order of accesses and input: the receive bits of RIS are set exactly when something waits, the flag
    register's RXFE exactly when nothing does, the interrupt line is at the level of RIS under IMSC, and what the guest
    reads of a queue that is not empty is what the host fed, in order and each once, apart from the answers to its
    queries. --/
theorem pl011_receives (limit : Nat) (echo : Bool) (es : List Event) :
    let s := es.foldl step { uart := { consoleLimit := limit, echoStdout := echo } }
    ((s.uart.ris &&& 0x10 ≠ 0 ↔ s.uart.rx ≠ []) ∧ (s.uart.ris &&& 0x40 ≠ 0 ↔ s.uart.rx ≠ [])) ∧
    (s.uart.fr &&& 0x10 ≠ 0 ↔ s.uart.rx = []) ∧
    (s.uart.irq = true ↔ s.uart.ris &&& s.uart.imsc ≠ 0) ∧
    s.feed.waiting.map Prod.fst = s.uart.rx ∧
    s.feed.taken.map Prod.fst = s.feed.got ∧
    Feed.fromSource s.feed.taken ++ Feed.fromSource s.feed.waiting = s.feed.fed := by
  intro s
  have hinv : s.Inv := inv_run es (inv_start limit echo)
  refine ⟨told_bits hinv.told, ?_, hinv.told.irq, hinv.feed.waiting, hinv.feed.taken, hinv.feed.order⟩
  unfold fr
  by_cases hrx : s.uart.rx = []
  · simp only [hrx, ne_eq, not_true_eq_false, if_false, iff_true]
    decide
  · simp only [hrx, ne_eq, not_false_eq_true, if_true, iff_false]
    decide

end Pl011
end Hvf
end NodeVmm
