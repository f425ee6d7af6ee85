import NodeVmm.Lib.History
import NodeVmm.Lib.Runs
import NodeVmm.Uart

/-! The receive line of the UART. The host's bytes wait in the staging queue, and before it in the FIFO or in RBR;
    DR says that something waits. Switching between FIFO and RBR leaves behind what the other one holds, and a break
    has a place of its own only when nothing waits. -/

namespace NodeVmm.Whp
namespace Uart

/-! ### Bits -/

theorem or_and (x m d : UInt8) : (x ||| m) &&& d = (x &&& d) ||| (m &&& d) := by
  rw [← UInt8.toBitVec_inj]
  ext i hi
  simp [Bool.and_or_distrib_right]

/-- The receive side of the registers. --/
structure Rx where
  fifo : Bool
  dr : Bool
  rbr : UInt8
  rxFifo : List UInt8
  rxStaging : List UInt8

def rx (u : Uart) : Rx := ⟨u.fifoEnabled, u.dataReady, u.rbr, u.rxFifo, u.rxStaging⟩

def Rx.drain (r : Rx) : Rx :=
  if r.fifo then
    let room := fifoSize - r.rxFifo.length
    { r with
      rxFifo := r.rxFifo ++ r.rxStaging.take room
      rxStaging := r.rxStaging.drop room
      dr := r.rxFifo ++ r.rxStaging.take room ≠ [] }
  else
    match r.rxStaging with
    | b :: rest => if r.dr then r else { r with rbr := b, rxStaging := rest, dr := true }
    | [] => r

section
variable {r : Rx}

theorem Rx.drain_of_fifo (hf : r.fifo = true) : r.drain = { r with
    rxFifo := r.rxFifo ++ r.rxStaging.take (fifoSize - r.rxFifo.length)
    rxStaging := r.rxStaging.drop (fifoSize - r.rxFifo.length)
    dr := r.rxFifo ++ r.rxStaging.take (fifoSize - r.rxFifo.length) ≠ [] } := if_pos hf

/-- Without the FIFO, RBR stays while DR is set. --/
theorem Rx.drain_of_dr (hf : r.fifo = false) (hdr : r.dr = true) : r.drain = r := by
  unfold Rx.drain
  rw [if_neg (Bool.eq_false_iff.mp hf)]
  split
  · rw [if_pos hdr]
  · rfl

end

section
variable {u : Uart} {m : UInt8}

theorem dataReady_or (h : m &&& lsrDr = 0) : ({ u with lsr := u.lsr ||| m } : Uart).dataReady = u.dataReady := by
  simp only [dataReady, or_and, h, UInt8.or_zero]

theorem dataReady_and (h : m &&& lsrDr = lsrDr) : ({ u with lsr := u.lsr &&& m } : Uart).dataReady = u.dataReady := by
  simp only [dataReady, UInt8.and_assoc, h]

theorem dataReady_set (h : m &&& lsrDr ≠ 0) : ({ u with lsr := u.lsr ||| m } : Uart).dataReady = true := by
  refine decide_eq_true fun hz => ?_
  rw [or_and] at hz
  exact h (UInt8.or_eq_zero_iff.mp hz).2

theorem dataReady_clear (h : m &&& lsrDr = 0) : ({ u with lsr := u.lsr &&& m } : Uart).dataReady = false := by
  refine decide_eq_false (not_not.mpr ?_)
  show (u.lsr &&& m) &&& lsrDr = 0
  rw [UInt8.and_assoc, h, UInt8.and_zero]

/-- The other bits of LSR are not of the receive side. --/
theorem rx_lsr_or (h : m &&& lsrDr = 0) : ({ u with lsr := u.lsr ||| m } : Uart).rx = u.rx := by
  show Rx.mk u.fifoEnabled ({ u with lsr := u.lsr ||| m } : Uart).dataReady u.rbr u.rxFifo u.rxStaging = _
  rw [dataReady_or h]
  rfl

theorem rx_lsr_and (h : m &&& lsrDr = lsrDr) : ({ u with lsr := u.lsr &&& m } : Uart).rx = u.rx := by
  show Rx.mk u.fifoEnabled ({ u with lsr := u.lsr &&& m } : Uart).dataReady u.rbr u.rxFifo u.rxStaging = _
  rw [dataReady_and h]
  rfl

@[simp] theorem rx_updateInterrupt : u.updateInterrupt.rx = u.rx := rfl

theorem rx_drainRxStaging : u.drainRxStaging.rx = u.rx.drain := by
  unfold drainRxStaging Rx.drain
  cases hf : u.fifoEnabled with
  | true =>
    have hf' : u.rx.fifo = true := hf
    rw [if_pos rfl, if_pos hf']
    dsimp only [fillFifo]
    split
    · rename_i hnil
      have hdr : u.clearDr.dataReady = false := dataReady_clear (by decide)
      simp only [rx, Rx.mk.injEq]
      exact ⟨rfl, hdr.trans (decide_eq_false (not_not.mpr hnil)).symm, rfl, rfl, rfl⟩
    · rename_i hne
      have hdr : u.setDr.dataReady = true := dataReady_set (by decide)
      simp only [rx, Rx.mk.injEq]
      exact ⟨rfl, hdr.trans (decide_eq_true hne).symm, rfl, rfl, rfl⟩
  | false =>
    have hf' : ¬u.rx.fifo = true := Bool.eq_false_iff.mp hf
    rw [if_neg Bool.false_ne_true, if_neg hf']
    show _ = match u.rxStaging with
      | b :: rest => if u.dataReady then u.rx else { u.rx with rbr := b, rxStaging := rest, dr := true }
      | [] => u.rx
    cases hst : u.rxStaging with
    | nil => rfl
    | cons b rest =>
      dsimp only
      cases hd : u.dataReady with
      | true => rfl
      | false =>
        have hdr : u.setDr.dataReady = true := dataReady_set (by decide)
        rw [if_neg Bool.false_ne_true, if_neg Bool.false_ne_true]
        simp only [rx, Rx.mk.injEq]
        exact ⟨rfl, hdr, trivial, rfl, trivial⟩

end

def Rx.readRbr (r : Rx) : UInt8 × Rx :=
  if r.fifo then (r.rxFifo.headD 0, { r with rxFifo := r.rxFifo.tail }.drain)
  else (if r.dr then r.rbr else 0, { r with dr := false }.drain)

/-! ### What waits -/

/-- What the line hands to the guest: a byte of the host, or the zero of a break. --/
inductive Item where
  | byte (b : UInt8)
  | brk
  deriving DecidableEq, Repr

def Item.value : Item → UInt8
  | .byte b => b
  | .brk => 0

/-- The receive side holds the unread items `pending`. --/
inductive Holds : Rx → List Item → Prop
  | empty {r : Rx} (hdr : r.dr = false) (hq : r.rxFifo = []) (hst : r.rxStaging = []) : Holds r []
  | fifo {r : Rx} (hf : r.fifo = true) (hdr : r.dr = true) (hq : r.rxFifo ≠ []) :
    Holds r ((r.rxFifo ++ r.rxStaging).map .byte)
  | brk {r : Rx} (hf : r.fifo = true) (hdr : r.dr = true) (hq : r.rxFifo = []) (hst : r.rxStaging = []) (hr : r.rbr = 0) :
    Holds r [.brk]
  | rbr {r : Rx} {x : Item} (hf : r.fifo = false) (hdr : r.dr = true) (hq : r.rxFifo = []) (hx : x.value = r.rbr) :
    Holds r (x :: r.rxStaging.map .byte)

/-- DR is set for a break that has no byte in the FIFO. --/
def BreakWaits (r : Rx) : Prop := r.fifo = true ∧ r.dr = true ∧ r.rxFifo = []

section
variable {r : Rx} {x : Item} {pending : List Item}

theorem Holds.dr_iff (h : Holds r pending) : r.dr = true ↔ pending ≠ [] := by
  cases h with
  | empty hdr => simp [hdr]
  | fifo _ hdr hq => simp [hdr, hq]
  | brk _ hdr => simp [hdr]
  | rbr _ hdr => simp [hdr]

/-- In FIFO mode all bytes go through the FIFO. --/
theorem holds_drain_fifo (hf : r.fifo = true) : Holds r.drain ((r.rxFifo ++ r.rxStaging).map .byte) := by
  have hd := Rx.drain_of_fifo hf
  by_cases hnil : r.rxFifo ++ r.rxStaging.take (fifoSize - r.rxFifo.length) = []
  · obtain ⟨hq, htake⟩ := List.append_eq_nil_iff.mp hnil
    have hst : r.rxStaging = [] := by
      rcases List.take_eq_nil_iff.mp htake with hroom | hst
      · rw [hq] at hroom
        cases hroom
      · exact hst
    rw [hd, hq, hst]
    exact .empty rfl rfl rfl
  · have hall : r.rxFifo ++ r.rxStaging = r.drain.rxFifo ++ r.drain.rxStaging := by
      rw [hd, List.append_assoc, List.take_append_drop]
    rw [hall]
    exact .fifo (by rw [hd]; exact hf) (by rw [hd]; exact decide_eq_true hnil) (by rw [hd]; exact hnil)

theorem holds_drain_rbr (hf : r.fifo = false) (hq : r.rxFifo = []) (hdr : r.dr = true) (hx : x.value = r.rbr) :
    Holds r.drain (x :: r.rxStaging.map .byte) := by
  rw [Rx.drain_of_dr hf hdr]
  exact .rbr hf hdr hq hx

theorem holds_drain_staging (hf : r.fifo = false) (hq : r.rxFifo = []) (hdr : r.dr = false) :
    Holds r.drain (r.rxStaging.map .byte) := by
  unfold Rx.drain
  rw [if_neg (Bool.eq_false_iff.mp hf)]
  split
  · rename_i b rest hst
    rw [if_neg (Bool.eq_false_iff.mp hdr), hst]
    exact .rbr hf rfl hq rfl
  · rename_i hst
    rw [hst]
    exact .empty hdr hq hst

/-- More bytes from the host. --/
theorem Holds.stage (h : Holds r pending) (hb : ¬BreakWaits r) (bytes : List UInt8) :
    Holds { r with rxStaging := r.rxStaging ++ bytes }.drain (pending ++ bytes.map .byte) := by
  cases h with
  | empty hdr hq hst =>
    rcases Bool.eq_false_or_eq_true r.fifo with hf | hf
    · have hnew := holds_drain_fifo (r := { r with rxStaging := r.rxStaging ++ bytes }) hf
      simp only [hq, hst] at hnew ⊢
      exact hnew
    · have hnew := holds_drain_staging (r := { r with rxStaging := r.rxStaging ++ bytes }) hf hq hdr
      rw [hst] at hnew ⊢
      exact hnew
  | fifo hf hdr hq =>
    have hnew := holds_drain_fifo (r := { r with rxStaging := r.rxStaging ++ bytes }) hf
    simp only [List.map_append, ← List.append_assoc] at hnew ⊢
    exact hnew
  | brk hf hdr hq => exact absurd ⟨hf, hdr, hq⟩ hb
  | rbr hf hdr hq hx =>
    have hnew := holds_drain_rbr (r := { r with rxStaging := r.rxStaging ++ bytes }) hf hq hdr hx
    rw [List.map_append] at hnew
    exact hnew

theorem readRbr_fifo (hf : r.fifo = true) :
    r.readRbr = (r.rxFifo.headD 0, { r with rxFifo := r.rxFifo.tail }.drain) := if_pos hf

theorem readRbr_rbr (hf : r.fifo = false) :
    r.readRbr = (if r.dr then r.rbr else 0, { r with dr := false }.drain) := if_neg (Bool.eq_false_iff.mp hf)

/-- A read of RBR with nothing unread leaves nothing unread. --/
theorem Holds.readRbr_empty (h : Holds r []) : Holds r.readRbr.2 [] := by
  generalize hp : ([] : List Item) = pending at h
  cases h with
  | empty hdr hq hst =>
    rcases Bool.eq_false_or_eq_true r.fifo with hf | hf
    · have hnew := holds_drain_fifo (r := { r with rxFifo := r.rxFifo.tail }) hf
      rw [readRbr_fifo hf]
      simp only [hq, hst] at hnew ⊢
      exact hnew
    · have hnew := holds_drain_staging (r := { r with dr := false }) hf hq rfl
      rw [readRbr_rbr hf]
      simp only [hst] at hnew ⊢
      exact hnew
  | fifo _ _ hq => exact absurd (List.append_eq_nil_iff.mp (List.map_eq_nil_iff.mp hp.symm)).1 hq
  | brk => cases hp
  | rbr => cases hp

/-- A read of RBR takes the first unread item. --/
theorem Holds.readRbr (h : Holds r (x :: pending)) : x.value = r.readRbr.1 ∧ Holds r.readRbr.2 pending := by
  generalize hp : x :: pending = items at h
  cases h with
  | empty => cases hp
  | fifo hf hdr hq =>
    obtain ⟨b, rest, hb⟩ := List.exists_cons_of_ne_nil hq
    have hnew := holds_drain_fifo (r := { r with rxFifo := r.rxFifo.tail }) hf
    rw [hb, List.cons_append, List.map_cons] at hp
    injection hp with hx hpending
    rw [readRbr_fifo hf, hx, hpending]
    simp only [hb] at hnew ⊢
    exact ⟨rfl, hnew⟩
  | brk hf hdr hq hst hr =>
    have hnew := holds_drain_fifo (r := { r with rxFifo := r.rxFifo.tail }) hf
    injection hp with hx hpending
    rw [readRbr_fifo hf, hx, hpending]
    simp only [hq, hst] at hnew ⊢
    exact ⟨rfl, hnew⟩
  | rbr hf hdr hq hv =>
    have hnew := holds_drain_staging (r := { r with dr := false }) hf hq rfl
    injection hp with hx hpending
    rw [readRbr_rbr hf, hx, hpending, if_pos hdr]
    exact ⟨hv, hnew⟩

/-- FCR with the FIFO as it was. --/
theorem Holds.fcr_same {fifo : Bool} (h : Holds r pending) (hb : ¬BreakWaits r) (hf : r.fifo = fifo) :
    Holds { r with fifo := fifo }.drain pending := by
  subst hf
  have hnew := h.stage hb []
  rw [List.append_nil, List.map_nil, List.append_nil] at hnew
  exact hnew

/-- The FIFO may be switched on when RBR is free. --/
theorem Holds.fcr_on (h : Holds r pending) (hdr : r.dr = false) : Holds { r with fifo := true }.drain pending := by
  generalize hp : pending = items at h
  cases h with
  | empty _ hq hst =>
    have hnew := holds_drain_fifo (r := { r with fifo := true }) rfl
    simp only [hq, hst] at hnew ⊢
    exact hnew
  | fifo _ hdr' => rw [hdr] at hdr'; cases hdr'
  | brk _ hdr' => rw [hdr] at hdr'; cases hdr'
  | rbr _ hdr' => rw [hdr] at hdr'; cases hdr'

/-- The FIFO may be switched off when it is empty. --/
theorem Holds.fcr_off (h : Holds r pending) (hf : r.fifo = true) (hq : r.rxFifo = []) :
    Holds { r with fifo := false }.drain pending := by
  generalize hp : pending = items at h
  cases h with
  | empty hdr _ hst =>
    have hnew := holds_drain_staging (r := { r with fifo := false }) rfl hq hdr
    simp only [hst] at hnew ⊢
    exact hnew
  | fifo _ _ hq' => exact absurd hq hq'
  | brk _ hdr _ hst hr =>
    have hnew := holds_drain_rbr (r := { r with fifo := false }) (x := .brk) rfl hq hdr hr.symm
    simp only [hst] at hnew ⊢
    exact hnew
  | rbr hf' => rw [hf] at hf'; cases hf'

theorem Holds.lcr_brk (h : Holds r pending) (hdr : r.dr = false) :
    Holds { r with dr := true, rbr := 0 } (pending ++ [.brk]) := by
  generalize hp : pending = items at h
  cases h with
  | empty _ hq hst =>
    rcases Bool.eq_false_or_eq_true r.fifo with hf | hf
    · exact .brk hf rfl hq hst rfl
    · have hnew := Holds.rbr (r := { r with dr := true, rbr := 0 }) (x := .brk) hf rfl hq rfl
      simp only [hst] at hnew ⊢
      exact hnew
  | fifo _ hdr' => rw [hdr] at hdr'; cases hdr'
  | brk _ hdr' => rw [hdr] at hdr'; cases hdr'
  | rbr _ hdr' => rw [hdr] at hdr'; cases hdr'

end

/-! ### What the registers do to the receive side -/

section
variable {u : Uart} {value : UInt8} {data : List UInt8} {pending : List Item}

theorem stage_eq : ∀ (data : List UInt8) (n : Nat) (u : Uart), ∃ k, stage data n u =
    (n + k, { u with rxStaging := u.rxStaging ++ data.take k })
  | [], n, u => ⟨0, by rw [List.take_nil, List.append_nil]; rfl⟩
  | b :: data, n, u => by
    unfold stage
    split
    · obtain ⟨k, hk⟩ := stage_eq data (n + 1) { u with rxStaging := u.rxStaging ++ [b] }
      refine ⟨k + 1, ?_⟩
      rw [hk, Nat.add_right_comm, List.take_succ_cons, List.append_assoc]
      rfl
    · exact ⟨0, by rw [List.take_zero, List.append_nil]; rfl⟩

/-- The accepted bytes go behind those of the staging queue. --/
theorem rx_enqueueRx (hdata : data ≠ []) : (u.enqueueRx data).2.rx =
    { u.rx with rxStaging := u.rxStaging ++ data.take (u.enqueueRx data).1 }.drain := by
  obtain ⟨k, hk⟩ := stage_eq data 0 u
  rw [enqueueRx, if_neg hdata, hk]
  dsimp only
  rw [rx_updateInterrupt, rx_drainRxStaging, Nat.zero_add]
  split
  · have hdr := dataReady_or (u := { u with rxStaging := u.rxStaging ++ data.take k }) (m := lsrOe) (by decide)
    simp only [rx, hdr]
    rfl
  · rfl

theorem drain_dr (r : Rx) (hf : r.fifo = true) (hq : r.drain.rxFifo = []) : { r.drain with dr := false } = r.drain := by
  unfold Rx.drain at hq ⊢
  rw [if_pos hf] at hq ⊢
  dsimp only at hq ⊢
  rw [hq]
  rfl

theorem rx_clearDr : u.clearDr.rx = { u.rx with dr := false } := by
  have hdr : u.clearDr.dataReady = false := dataReady_clear (by decide)
  rw [rx, hdr]
  rfl

theorem rx_readRbr : (u.readRbr.1, u.readRbr.2.rx) = u.rx.readRbr := by
  rcases Bool.eq_false_or_eq_true u.fifoEnabled with hf | hf
  · rw [readRbr_fifo hf, Uart.readRbr, if_pos hf]
    dsimp only
    rw [rx_updateInterrupt]
    split
    · rename_i hq
      have hrx := rx_drainRxStaging (u := { u with rxFifo := u.rxFifo.tail, timeoutIpending := false })
      have hdr := drain_dr _ hf ((congrArg Rx.rxFifo hrx).symm.trans hq)
      rw [rx_clearDr, hrx, hdr]
      rfl
    · rw [rx_drainRxStaging]
      rfl
  · rw [readRbr_rbr hf, Uart.readRbr, if_neg (Bool.eq_false_iff.mp hf)]
    dsimp only
    rw [rx_updateInterrupt, rx_drainRxStaging]
    rcases Bool.eq_false_or_eq_true u.dataReady with hd | hd
    · simp only [hd, if_true]
      have hclear : ({ u.clearDr with timeoutIpending := false } : Uart).rx = { u.rx with dr := false } := by
        rw [← rx_clearDr]
        rfl
      rw [hclear]
      show _ = (if u.dataReady then u.rbr else 0, _)
      rw [hd]
      rfl
    · simp only [hd, Bool.false_eq_true, if_false]
      have hsame : ({ u with timeoutIpending := false } : Uart).rx = { u.rx with dr := false } := by
        rw [← hd]
        rfl
      rw [hsame]
      show _ = (if u.dataReady then u.rbr else 0, _)
      rw [hd]
      rfl

theorem rx_clearTx : u.clearTx.rx = u.rx := rx_lsr_or (by decide)

/-- The bit of FCR that switches the FIFO. --/
theorem fifoEnabled_fcr : ({ u with fcr := value &&& (fcrEnable ||| fcrTriggerMask) } : Uart).fifoEnabled =
    decide (value &&& fcrEnable ≠ 0) := by
  have hmask : (fcrEnable ||| fcrTriggerMask) &&& fcrEnable = fcrEnable := by decide
  show decide ((value &&& (fcrEnable ||| fcrTriggerMask)) &&& fcrEnable ≠ 0) = _
  rw [UInt8.and_assoc, hmask]

theorem rx_clearRx : u.clearRx.rx = ⟨u.fifoEnabled, false, 0, [], []⟩ := by
  have hdr : ({ u with lsr := u.lsr &&& ~~~(lsrDr ||| lsrOe ||| lsrPe ||| lsrFe ||| lsrBi) } : Uart).dataReady = false :=
    dataReady_clear (by decide)
  show Rx.mk u.fifoEnabled
    ({ u with lsr := u.lsr &&& ~~~(lsrDr ||| lsrOe ||| lsrPe ||| lsrFe ||| lsrBi) } : Uart).dataReady 0 [] [] = _
  rw [hdr]

theorem rx_writeFcr (value : UInt8) : (u.writeFcr value).rx =
    if value &&& fcrClearRx ≠ 0 then ⟨value &&& fcrEnable ≠ 0, false, 0, [], []⟩
    else { u.rx with fifo := value &&& fcrEnable ≠ 0 }.drain := by
  have htx : ∀ (w : Uart) (c : Prop) [Decidable c], (if c then w.clearTx else w).rx = w.rx := by
    intro w c _
    split
    · exact rx_clearTx
    · rfl
  rw [writeFcr]
  dsimp only
  rw [rx_updateInterrupt, htx]
  split
  · rw [rx_clearRx, fifoEnabled_fcr]
  · rw [rx_drainRxStaging, rx, fifoEnabled_fcr]
    rfl

theorem rx_writeLcr (value : UInt8) : (u.writeLcr value).rx =
    if value &&& 0x40 ≠ 0 ∧ u.lcr &&& 0x40 = 0 then { u.rx with dr := true, rbr := 0 } else u.rx := by
  rw [writeLcr]
  dsimp only
  rw [rx_updateInterrupt]
  split
  · have hdr : ({ u with lsr := u.lsr ||| lsrBi ||| lsrDr } : Uart).dataReady = true :=
      dataReady_set (u := { u with lsr := u.lsr ||| lsrBi }) (by decide)
    show Rx.mk u.fifoEnabled ({ u with lsr := u.lsr ||| lsrBi ||| lsrDr } : Uart).dataReady 0 u.rxFifo u.rxStaging = _
    rw [hdr]
    rfl
  · rfl

end

/-! ### The line -/

/-- The UART and what went over its receive line. --/
structure Port where
  uart : Uart
  line : History Item UInt8

/-- The host hands over bytes; the guest reads or writes a register. --/
inductive Access where
  | enqueueRx (data : List UInt8)
  | read (offset : Nat)
  | write (offset : Nat) (value : UInt8)
  deriving DecidableEq, Repr

/-- The guest gets what it reads from RBR while DR is set. --/
def step (p : Port) : Access → Option Port
  | .enqueueRx data =>
    let (accepted, uart) := p.uart.enqueueRx data
    some ⟨uart, p.line.arrive ((data.take accepted).map .byte)⟩
  | .read offset =>
    let (value, uart) := p.uart.read offset
    some ⟨uart, if offset = 0 ∧ p.uart.dlab = false ∧ p.uart.dataReady = true then p.line.deliver value else p.line⟩
  | .write offset value => (p.uart.write offset value).map fun uart =>
    ⟨uart, match offset with
      | 2 => if value &&& fcrClearRx ≠ 0 then p.line.discard else p.line
      | 3 => if value &&& 0x40 ≠ 0 ∧ p.uart.lcr &&& 0x40 = 0 then p.line.arrive [.brk] else p.line
      | _ => p.line⟩

def initial : Port := ⟨{}, .empty⟩

/-- What the guest got is what arrived, in order, each item once, but for what it discarded; and DR says that
    something is unread. --/
structure InOrder (p : Port) : Prop where
  exact : p.line.Exact Item.value
  dataReady : p.uart.dataReady = true ↔ p.line.pending ≠ []

/-- A break waits alone, and the FIFO is switched on only with RBR free and off only when it is empty. --/
def Careful (p : Port) : Access → Prop
  | .enqueueRx data => data = [] ∨ ¬BreakWaits p.uart.rx
  | .read _ => True
  | .write 2 value => value &&& fcrClearRx ≠ 0 ∨
    if value &&& fcrEnable ≠ 0 then
      if p.uart.fifoEnabled then ¬BreakWaits p.uart.rx else p.uart.dataReady = false
    else p.uart.fifoEnabled = true → p.uart.rxFifo = []
  | .write 3 value => value &&& 0x40 ≠ 0 → p.uart.lcr &&& 0x40 = 0 → p.uart.dataReady = false
  | .write _ _ => True

structure Inv (p : Port) : Prop where
  holds : Holds p.uart.rx p.line.pending
  exact : p.line.Exact Item.value

section
variable {p q : Port} {data : List UInt8} {offset : Nat} {value : UInt8} {uart : Uart}

theorem Inv.inOrder (hi : Inv p) : InOrder p := ⟨hi.exact, hi.holds.dr_iff⟩

/-- An access that the receive side does not see. --/
theorem Inv.frame (hi : Inv p) (hrx : uart.rx = p.uart.rx) : Inv ⟨uart, p.line⟩ := ⟨hrx ▸ hi.holds, hi.exact⟩

theorem Inv.enqueueRx (hi : Inv p) (hb : data = [] ∨ ¬BreakWaits p.uart.rx) :
    Inv ⟨(p.uart.enqueueRx data).2, p.line.arrive ((data.take (p.uart.enqueueRx data).1).map .byte)⟩ := by
  rcases eq_or_ne data [] with rfl | hdata
  · have hnone : p.line.arrive [] = p.line := by
      simp only [History.arrive, List.append_nil]
    show Inv ⟨p.uart, p.line.arrive []⟩
    rw [hnone]
    exact hi
  · refine ⟨?_, hi.exact.arrive _⟩
    show Holds (p.uart.enqueueRx data).2.rx _
    rw [rx_enqueueRx hdata, History.pending_arrive hi.exact]
    exact hi.holds.stage (hb.resolve_left hdata) _

theorem Inv.readRbr (hi : Inv p) :
    Inv ⟨p.uart.readRbr.2, if p.uart.dataReady = true then p.line.deliver p.uart.readRbr.1 else p.line⟩ := by
  have hrx := rx_readRbr (u := p.uart)
  have hvalue : p.uart.readRbr.1 = p.uart.rx.readRbr.1 := congrArg Prod.fst hrx
  have hrest : p.uart.readRbr.2.rx = p.uart.rx.readRbr.2 := congrArg Prod.snd hrx
  split
  · rename_i hdr
    obtain ⟨x, rest, hp⟩ := List.exists_cons_of_ne_nil (hi.inOrder.dataReady.mp hdr)
    have hholds := hi.holds
    rw [hp] at hholds
    obtain ⟨hx, hnew⟩ := hholds.readRbr
    refine ⟨?_, hi.exact.deliver hp (hx.trans hvalue.symm)⟩
    rw [History.pending_deliver hp, hrest]
    exact hnew
  · rename_i hdr
    have hp : p.line.pending = [] := by
      by_contra hp
      exact hdr (hi.inOrder.dataReady.mpr hp)
    have hholds := hi.holds
    rw [hp] at hholds
    refine ⟨?_, hi.exact⟩
    rw [hp, hrest]
    exact hholds.readRbr_empty

theorem Inv.writeFcr (hi : Inv p) (hc : Careful p (.write 2 value)) :
    Inv ⟨p.uart.writeFcr value, if value &&& fcrClearRx ≠ 0 then p.line.discard else p.line⟩ := by
  have hrx := rx_writeFcr (u := p.uart) value
  by_cases hclear : value &&& fcrClearRx ≠ 0
  · rw [if_pos hclear] at hrx ⊢
    refine ⟨?_, hi.exact.discard⟩
    rw [History.pending_discard, hrx]
    exact .empty rfl rfl rfl
  · rw [if_neg hclear] at hrx ⊢
    refine ⟨?_, hi.exact⟩
    rw [hrx]
    have hc := hc.resolve_left hclear
    by_cases hon : value &&& fcrEnable ≠ 0
    · rw [if_pos hon] at hc
      rw [decide_eq_true hon]
      split at hc
      · rename_i hf
        exact hi.holds.fcr_same hc hf
      · exact hi.holds.fcr_on hc
    · rw [if_neg hon] at hc
      rw [decide_eq_false hon]
      rcases Bool.eq_false_or_eq_true p.uart.fifoEnabled with hf | hf
      · exact hi.holds.fcr_off hf (hc hf)
      · have hb : ¬BreakWaits p.uart.rx := fun hb => Bool.eq_false_iff.mp hf hb.1
        exact hi.holds.fcr_same hb hf

theorem Inv.writeLcr (hi : Inv p) (hc : Careful p (.write 3 value)) :
    Inv ⟨p.uart.writeLcr value,
      if value &&& 0x40 ≠ 0 ∧ p.uart.lcr &&& 0x40 = 0 then p.line.arrive [.brk] else p.line⟩ := by
  have hrx := rx_writeLcr (u := p.uart) value
  split
  · rename_i hrises
    rw [if_pos hrises] at hrx
    refine ⟨?_, hi.exact.arrive _⟩
    rw [hrx, History.pending_arrive hi.exact]
    exact hi.holds.lcr_brk (hc hrises.1 hrises.2)
  · rename_i hrises
    rw [if_neg hrises] at hrx
    exact hi.frame hrx

theorem initial_inv : Inv initial := ⟨.empty rfl rfl rfl, History.exact_empty⟩

/-- A read of another register than RBR. --/
theorem rx_read (h : offset ≠ 0 ∨ p.uart.dlab = true) : (p.uart.read offset).2.rx = p.uart.rx := by
  unfold Uart.read
  split
  · rw [if_pos (h.resolve_left fun hne => hne rfl)]
  · rfl
  · dsimp only
    split <;> rfl
  · rfl
  · rfl
  · dsimp only
    split
    · rw [rx_updateInterrupt, rx_lsr_and (by decide)]
    · rfl
  · rfl
  · rfl
  · rfl

theorem rx_writeIer : (p.uart.writeIer value).rx = p.uart.rx := by
  rw [writeIer]
  dsimp only
  rw [rx_updateInterrupt]
  split <;> rfl

theorem step_inv {e : Access} (hi : Inv p) (hc : Careful p e) (h : step p e = some q) : Inv q := by
  cases e with
  | enqueueRx data =>
    cases h
    exact hi.enqueueRx hc
  | read offset =>
    have hq := Option.some.inj h
    subst hq
    by_cases hrbr : offset = 0 ∧ p.uart.dlab = false
    · obtain ⟨rfl, hdlab⟩ := hrbr
      have hread : p.uart.read 0 = p.uart.readRbr := by
        rw [Uart.read, hdlab]
        rfl
      show Inv ⟨(p.uart.read 0).2, if 0 = 0 ∧ p.uart.dlab = false ∧ p.uart.dataReady = true then
        p.line.deliver (p.uart.read 0).1 else p.line⟩
      simp only [hread, hdlab, true_and]
      exact hi.readRbr
    · have hne : ¬(offset = 0 ∧ p.uart.dlab = false ∧ p.uart.dataReady = true) := fun h => hrbr ⟨h.1, h.2.1⟩
      rw [if_neg hne]
      refine hi.frame (rx_read ?_)
      rcases Bool.eq_false_or_eq_true p.uart.dlab with hdlab | hdlab
      · exact Or.inr hdlab
      · exact Or.inl fun hz => hrbr ⟨hz, hdlab⟩
  | write offset value =>
    obtain ⟨uart, hwrite, hq⟩ := Option.map_eq_some_iff.mp h
    cases hq
    unfold Uart.write at hwrite
    split at hwrite
    · split at hwrite <;> cases hwrite
      exact hi.frame rfl
    · cases hwrite
      refine hi.frame ?_
      split
      · rfl
      · exact rx_writeIer
    · cases hwrite
      exact hi.writeFcr hc
    · cases hwrite
      exact hi.writeLcr hc
    · cases hwrite
      exact hi.frame rfl
    · cases hwrite
      exact hi.frame rfl
    · cases hwrite
      split
      · contradiction
      · contradiction
      · exact hi.frame rfl

/-- In every run in which breaks wait alone and the FIFO is switched only with nothing to leave behind, the guest
    gets what arrived, in order, each item once, and DR says when. --/
theorem line_in_order {es : List Access} (h : Runs.Under step Careful initial es p) : InOrder p :=
  (h.invariant (fun _ _ _ hi hc hs => step_inv hi hc hs) initial_inv).inOrder

end

instance : ∀ (p : Port) (e : Access), Decidable (Careful p e)
  | p, .enqueueRx data =>
    inferInstanceAs (Decidable (data = [] ∨ ¬(p.uart.rx.fifo = true ∧ p.uart.rx.dr = true ∧ p.uart.rx.rxFifo = [])))
  | _, .read _ => isTrue trivial
  | _, .write 0 _ | _, .write 1 _ => isTrue trivial
  | p, .write 2 value => inferInstanceAs (Decidable (value &&& fcrClearRx ≠ 0 ∨
      if value &&& fcrEnable ≠ 0 then
        if p.uart.fifoEnabled then ¬(p.uart.rx.fifo = true ∧ p.uart.rx.dr = true ∧ p.uart.rx.rxFifo = [])
        else p.uart.dataReady = false
      else p.uart.fifoEnabled = true → p.uart.rxFifo = []))
  | p, .write 3 value => inferInstanceAs
      (Decidable (value &&& 0x40 ≠ 0 → p.uart.lcr &&& 0x40 = 0 → p.uart.dataReady = false))
  | _, .write (_ + 4) _ => isTrue trivial

/-- The FIFO is switched on before the bytes arrive, and off for a break after they are read. --/
def switches : List Access :=
  [.write 2 0xC1, .enqueueRx [0x6C, 0x73], .read 5, .read 0, .read 0, .write 2 0, .write 3 0x43, .read 0,
    .enqueueRx [0x0A, 0x0A], .write 2 0x02, .write 3 3, .enqueueRx [0x21]]

/-- The theorem on these accesses: the guest got the bytes and the break, and the byte after the clear is unread. --/
theorem line_in_order_switches : ∃ p, Runs.Under step Careful initial switches p ∧ InOrder p ∧
    p.line.delivered = [0x6C, 0x73, 0] ∧ p.line.pending = [.byte 0x21] ∧ p.uart.dataReady = true := by
  obtain ⟨p, hrun, hp⟩ := Runs.exists_under step Careful initial switches
    (fun p => p.line.delivered = [0x6C, 0x73, 0] ∧ p.line.pending = [.byte 0x21] ∧ p.uart.dataReady = true) (by decide)
  exact ⟨p, hrun, line_in_order hrun, hp⟩

/-- The FIFO is switched on over an unread byte in RBR: the guest never gets it, and gets the next one in its place. --/
theorem not_in_order_fifo_on : ∃ p, Runs.Under step (fun _ _ => True) initial
    [.enqueueRx [0x41], .write 2 1, .enqueueRx [0x42], .read 0] p ∧ ¬InOrder p := by
  obtain ⟨p, hrun, hdelivered, hgone⟩ := Runs.exists_under step (fun _ _ => True) initial
    [.enqueueRx [0x41], .write 2 1, .enqueueRx [0x42], .read 0]
    (fun p => p.line.delivered = [0x42] ∧ p.line.gone = [(.byte 0x41, true)]) (by decide)
  refine ⟨p, hrun, fun h => ?_⟩
  have hvalues := h.exact.values
  rw [hdelivered, hgone] at hvalues
  exact absurd hvalues (by decide)

end Uart
end NodeVmm.Whp
