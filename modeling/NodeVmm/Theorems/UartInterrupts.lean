import NodeVmm.Theorems.Uart
import NodeVmm.UartTx

/-! What the UART of the WHP back end interrupts the guest for. Whatever the order of the calls, IIR names the most urgent
    of the enabled sources. What the host has sent stays within the FIFO and the capacity, and is announced, as long as
    the FIFO is not switched over an unread byte: a switch hides what the other side holds. -/

namespace NodeVmm.Whp
namespace Uart

/-! ### Sources -/

/-- What an interrupt is for, the most urgent first. --/
inductive Source where
  | lineStatus
  | timeout
  | received
  | thrEmpty
  | modemStatus
  deriving DecidableEq, Repr

def Source.all : List Source := [.lineStatus, .timeout, .received, .thrEmpty, .modemStatus]

/-- How IIR names it. --/
def Source.code : Source → UInt8
  | .lineStatus => 0x06
  | .timeout => 0x0C
  | .received => 0x04
  | .thrEmpty => 0x02
  | .modemStatus => 0x00

/-- The bit of IER that lets it through. --/
def Source.enable : Source → UInt8
  | .lineStatus => ierRlsi
  | .timeout => ierRdi
  | .received => ierRdi
  | .thrEmpty => ierThri
  | .modemStatus => ierMsi

/-- The FIFO holds something, but not enough. --/
def timedOut (u : Uart) : Bool := u.fifoEnabled && u.rxFifo ≠ [] && u.rxFifo.length < u.rxTriggerLevel

def Source.asserted (u : Uart) : Source → Bool
  | .lineStatus => u.lsr &&& (lsrOe ||| lsrPe ||| lsrFe ||| lsrBi) ≠ 0
  | .timeout => u.timedOut
  | .received => if u.fifoEnabled then u.rxTriggerLevel ≤ u.rxFifo.length else u.dataReady
  | .thrEmpty => u.thrIpending && u.lsr &&& lsrThre ≠ 0
  | .modemStatus => u.currentMsr &&& 0x0F ≠ 0

def Source.interrupts (u : Uart) (s : Source) : Bool := u.ier &&& s.enable ≠ 0 && s.asserted u

/-- What IIR is to say. --/
def identification (u : Uart) : UInt8 :=
  Source.all.foldr (fun s rest => if s.interrupts u then s.code else rest) 0x01

section
variable {u v : Uart}

theorem rxTriggerLevel_pos (u : Uart) : 0 < u.rxTriggerLevel := by
  unfold rxTriggerLevel
  split_ifs <;> simp

theorem interrupts_iff (s : Source) : s.interrupts u = true ↔ u.ier &&& s.enable ≠ 0 ∧ s.asserted u = true := by
  simp [Source.interrupts]

/-- What the code announces is what it is to, while its note of the timeout is up to date. --/
theorem pendingInterrupt_eq (h : u.timeoutIpending = u.timedOut) : u.pendingInterrupt = u.identification := by
  have hready : u.rxReadyForInterrupt = Source.asserted u .received := by
    have hpos := u.rxTriggerLevel_pos
    simp only [rxReadyForInterrupt, Source.asserted]
    split
    · cases hq : u.rxFifo with
      | nil => simp [hpos.ne']
      | cons b q => simp
    · rfl
  simp only [pendingInterrupt, h, hready]
  simp [identification, Source.all, interrupts_iff, Source.enable, Source.code, Source.asserted]

/-- Enabled, what waits in the FIFO is announced. --/
theorem pendingInterrupt_of_rxFifo (htimeout : u.timeoutIpending = u.timedOut) (hf : u.fifoEnabled = true)
    (hq : u.rxFifo ≠ []) (hier : u.ier &&& ierRdi ≠ 0) : u.pendingInterrupt ∈ [0x06, 0x0C, 0x04] := by
  unfold pendingInterrupt
  split
  · simp
  · rcases Nat.lt_or_ge u.rxFifo.length u.rxTriggerLevel with hlt | hge
    · have hto : u.timeoutIpending = true := by simp [htimeout, timedOut, hf, hq, hlt]
      simp [hier, hto]
    · have hto : u.timeoutIpending = false := by simp [htimeout, timedOut, hge]
      have hready : u.rxReadyForInterrupt = true := by simp [rxReadyForInterrupt, hf, hq, hge]
      simp [hier, hto, hready]

end

/-! ### The timeout -/

section
variable {u v : Uart} {value : UInt8} {data : List UInt8} {offset : Nat}

/-- The note of the timeout is right when it fits the FIFO and an FCR as before. --/
theorem noted_of {flag : Bool} {q : List UInt8} (u : Uart) (hflag : v.timeoutIpending = flag) (hfcr : v.fcr = u.fcr)
    (hq : v.rxFifo = q) (h : flag = (u.fifoEnabled && q ≠ [] && q.length < u.rxTriggerLevel)) :
    v.timeoutIpending = v.timedOut := by
  subst hflag hq
  rw [h]
  unfold timedOut fifoEnabled rxTriggerLevel
  rw [hfcr]

theorem timeout_drain (u : Uart) : u.drainRxStaging.timeoutIpending = u.drainRxStaging.timedOut := by
  unfold drainRxStaging
  cases hf : u.fifoEnabled with
  | true =>
    rw [if_pos rfl]
    dsimp only
    split_ifs with hnil
    · refine noted_of u rfl rfl hnil ?_
      simp
    · refine noted_of u rfl rfl rfl ?_
      show _ = (_ && decide (u.fillFifo.rxFifo ≠ []) && _)
      rw [hf, decide_eq_true hnil]
      rfl
  | false =>
    rw [if_neg Bool.false_ne_true]
    have hoff : ∀ q : List UInt8, false = (u.fifoEnabled && q ≠ [] && q.length < u.rxTriggerLevel) := by simp [hf]
    split
    · split
      · exact noted_of u rfl rfl rfl (hoff _)
      · exact noted_of u rfl rfl rfl (hoff _)
    · exact noted_of u rfl rfl rfl (hoff _)

theorem timeout_clearRx (u : Uart) : u.clearRx.timeoutIpending = u.clearRx.timedOut := by
  refine noted_of u rfl rfl rfl ?_
  show false = (u.fifoEnabled && decide (([] : List UInt8) ≠ []) && _)
  simp

end

/-! ### The receive side -/

/-- What counts for the capacity. --/
def Rx.queued (r : Rx) : Nat :=
  r.rxStaging.length + if r.fifo then r.rxFifo.length else if r.dr then 1 else 0

/-- A byte gets from the staging queue to RBR. --/
def Rx.loads (r r' : Rx) : Bool := !r'.fifo && !r.dr && r'.dr

/-- What the host has sent fits, and is where the guest gets at it. A byte is in RBR if `inRbr` says so. --/
structure Rx.Fits (r : Rx) (inRbr : Bool) : Prop where
  fifo_le : r.rxFifo.length ≤ fifoSize
  queued_le : r.queued ≤ rxCapacity
  visible : r.fifo = false → r.rxFifo = []
  rbr : inRbr = true → r.fifo = false ∧ r.dr = true

/-- A byte stays in the staging queue only while there is no place in front of it. --/
structure Rx.Sound (r : Rx) (inRbr : Bool) : Prop extends Rx.Fits r inRbr where
  staged : r.fifo = true → r.rxFifo.length < fifoSize → r.rxStaging = []
  drained : r.fifo = false → r.dr = false → r.rxStaging = []

namespace Rx
variable {r r' r'' : Rx} {inRbr : Bool}

theorem loads_same (h : r'.dr = r.dr) : r.loads r' = false := by
  rw [loads, h, Bool.and_assoc, Bool.not_and_self, Bool.and_false]

theorem loads_trans (hfifo : r''.fifo = r'.fifo) (hdr : r'.fifo = false → r.dr = true → r'.dr = true)
    (hdr' : r'.fifo = false → r'.dr = true → r''.dr = true) : (r.loads r' || r'.loads r'') = r.loads r'' := by
  unfold loads
  rw [hfifo]
  cases hf : r'.fifo with
  | true => rfl
  | false =>
    cases h : r.dr with
    | true => simp [hdr hf h]
    | false =>
      cases h' : r'.dr with
      | true => simp [hdr' hf h']
      | false => simp

theorem drain_fifo (r : Rx) : r.drain.fifo = r.fifo := by
  unfold drain
  split
  · rfl
  · split
    · split <;> rfl
    · rfl

theorem Fits.drain_on (h : r.Fits inRbr) (hf : r.fifo = true) : r.drain.Sound false := by
  have hle := h.fifo_le
  have hqueued := h.queued_le
  rw [queued, if_pos hf] at hqueued
  rw [drain_of_fifo hf]
  refine ⟨⟨?_, ?_, fun hoff => ?_, fun hg => ?_⟩, fun _ hlt => ?_, fun hoff => ?_⟩
  · simp
    omega
  · simp only [queued, if_pos hf, List.length_append, List.length_take, List.length_drop]
    omega
  · exact absurd hf (Bool.eq_false_iff.mp hoff)
  · cases hg
  · simp only [List.length_append, List.length_take] at hlt
    exact List.drop_eq_nil_of_le (by omega)
  · exact absurd hf (Bool.eq_false_iff.mp hoff)

theorem Fits.drain_off (h : r.Fits inRbr) (hf : r.fifo = false) : r.drain.Sound (inRbr || r.loads r.drain) := by
  have hqueued := h.queued_le
  rw [queued, if_neg (Bool.eq_false_iff.mp hf)] at hqueued
  cases hdr : r.dr with
  | true =>
    rw [drain_of_dr hf hdr, loads_same rfl, Bool.or_false]
    exact ⟨h, fun hon => absurd hon (Bool.eq_false_iff.mp hf),
      fun _ hno => absurd hdr (Bool.eq_false_iff.mp hno)⟩
  | false =>
    have hg : inRbr = false := Bool.eq_false_iff.mpr fun hg => absurd (h.rbr hg).2 (Bool.eq_false_iff.mp hdr)
    cases hst : r.rxStaging with
    | nil =>
      have hd : r.drain = r := by
        rw [Rx.drain, if_neg (Bool.eq_false_iff.mp hf), hdr, hst]
      rw [hd, loads_same rfl, Bool.or_false]
      exact ⟨h, fun hon => absurd hon (Bool.eq_false_iff.mp hf), fun _ _ => hst⟩
    | cons b rest =>
      have hd : r.drain = { r with rbr := b, rxStaging := rest, dr := true } := by
        rw [Rx.drain, if_neg (Bool.eq_false_iff.mp hf), hdr, hst]
        rfl
      have hloads : (inRbr || r.loads { r with rbr := b, rxStaging := rest, dr := true }) = true := by
        simp [loads, hf, hdr]
      rw [hd, hloads]
      refine ⟨⟨h.fifo_le, ?_, h.visible, fun _ => ⟨hf, rfl⟩⟩, fun hon => absurd hon (Bool.eq_false_iff.mp hf),
        fun _ hno => Bool.noConfusion hno⟩
      simp only [hst, hdr, List.length_cons, queued, hf] at hqueued ⊢
      simpa using hqueued

/-- What is in front of the staging queue is filled from it. --/
theorem Fits.drain (h : r.Fits inRbr) : r.drain.Sound (inRbr || r.loads r.drain) := by
  cases hf : r.fifo with
  | true =>
    have hg : inRbr = false := Bool.eq_false_iff.mpr fun hg => absurd hf (Bool.eq_false_iff.mp (h.rbr hg).1)
    have hloads : r.loads r.drain = false := by simp [loads, drain_fifo, hf]
    rw [hg, hloads]
    exact h.drain_on hf
  | false => exact h.drain_off hf

/-- What the receive side holds counts for the capacity. --/
theorem Fits.held_le (h : r.Fits inRbr) : r.rxStaging.length + r.rxFifo.length + (if inRbr then 1 else 0) ≤ r.queued := by
  unfold queued
  cases hg : inRbr with
  | true =>
    obtain ⟨hf, hdr⟩ := h.rbr hg
    simp [hf, hdr, h.visible hf]
  | false =>
    cases hf : r.fifo with
    | true => simp
    | false => simp [h.visible hf]

/-- A read of RBR. --/
theorem Sound.readRbr (h : r.Sound inRbr) :
    r.readRbr.2.Sound (if r.fifo then inRbr else r.readRbr.2.dr || inRbr && !r.dr) := by
  cases hf : r.fifo with
  | true =>
    have hle := h.fifo_le
    have hqueued := h.queued_le
    have hfits : { r with rxFifo := r.rxFifo.tail }.Fits inRbr := by
      refine ⟨?_, ?_, fun hoff => absurd hf (Bool.eq_false_iff.mp hoff), h.rbr⟩
      · simp
        omega
      · simp only [queued, hf, if_true, List.length_tail] at hqueued ⊢
        omega
    have hg : inRbr = false := Bool.eq_false_iff.mpr fun hg => absurd hf (Bool.eq_false_iff.mp (h.rbr hg).1)
    rw [readRbr_fifo hf, hg]
    exact hfits.drain_on hf
  | false =>
    have hqueued := h.queued_le
    have hfits : { r with dr := false }.Fits false := by
      refine ⟨h.fifo_le, ?_, h.visible, fun hg => Bool.noConfusion hg⟩
      simp only [queued, hf] at hqueued ⊢
      exact le_trans (by simp) hqueued
    have hheld : (inRbr && !r.dr) = false := by
      cases hg : inRbr with
      | true => simp [(h.rbr hg).2]
      | false => rfl
    have hsound := hfits.drain
    have hloads : (false || { r with dr := false }.loads { r with dr := false }.drain) = { r with dr := false }.drain.dr := by
      simp [loads, drain_fifo, hf]
    rw [hloads] at hsound
    rw [readRbr_rbr hf, hheld, Bool.or_false]
    exact hsound

theorem queued_empty {fifo dr : Bool} {rbr : UInt8} : (Rx.mk fifo dr rbr [] []).queued ≤ rxCapacity := by
  cases fifo <;> cases dr <;> simp [queued, rxCapacity]

theorem sound_empty (fifo dr : Bool) (rbr : UInt8) : (Rx.mk fifo dr rbr [] []).Sound false :=
  ⟨⟨Nat.zero_le _, queued_empty, fun _ => rfl, fun hg => Bool.noConfusion hg⟩, fun _ _ => rfl, fun _ _ => rfl⟩

/-- A write of FCR: a switch finds nothing unread where the guest will no longer look. --/
theorem Sound.writeFcr {fifo : Bool} (h : r.Sound inRbr) (hon : fifo = true → r.fifo = false → inRbr = false)
    (hoff : fifo = false → r.fifo = true → r.rxFifo = []) :
    { r with fifo := fifo }.drain.Sound (inRbr || r.loads { r with fifo := fifo }.drain) := by
  have hqueued := h.queued_le
  refine Fits.drain (r := { r with fifo := fifo }) ⟨h.fifo_le, ?_, fun hnew => ?_, fun hg => ?_⟩
  · cases hf : r.fifo with
    | true =>
      cases fifo with
      | true => simpa [queued, hf] using hqueued
      | false =>
        have hq := hoff rfl hf
        rw [hq, h.staged hf (by simp [hq, fifoSize])]
        exact queued_empty
    | false =>
      have hq := h.visible hf
      simp only [queued, hf, hq] at hqueued ⊢
      cases fifo with
      | true => exact le_trans (by simp) hqueued
      | false => exact hqueued
  · cases hf : r.fifo with
    | true => exact hoff hnew hf
    | false => exact h.visible hf
  · obtain ⟨hf, hdr⟩ := h.rbr hg
    refine ⟨Bool.eq_false_iff.mpr fun hnew => ?_, hdr⟩
    exact absurd hg (Bool.eq_false_iff.mp (hon hnew hf))

/-- A break takes the place of what is in RBR. --/
theorem Sound.writeLcr (h : r.Sound inRbr) : { r with dr := true, rbr := 0 }.Sound false := by
  have hqueued := h.queued_le
  refine ⟨⟨h.fifo_le, ?_, h.visible, fun hg => Bool.noConfusion hg⟩, h.staged, fun _ hno => Bool.noConfusion hno⟩
  cases hf : r.fifo with
  | true => simpa [queued, hf] using hqueued
  | false =>
    cases hdr : r.dr with
    | true => simpa [queued, hf, hdr] using hqueued
    | false => simp [queued, h.drained hf hdr, rxCapacity]

end Rx

/-! ### What a call does to it -/

/-- The receive side, FCR and the note of the timeout stay. --/
structure Frame (u v : Uart) : Prop where
  rx : v.rx = u.rx
  fcr : v.fcr = u.fcr
  timeout : v.timeoutIpending = u.timeoutIpending
  irqs : u.irqs ≤ v.irqs

/-- Bytes may get to the receive side. --/
structure Adds (u v : Uart) : Prop where
  fifo : v.rx.fifo = u.rx.fifo
  dataReady : u.rx.fifo = false → u.rx.dr = true → v.rx.dr = true
  irqs : u.irqs ≤ v.irqs
  timeout : u.timeoutIpending = u.timedOut → v.timeoutIpending = v.timedOut
  sound : ∀ inRbr, u.rx.Sound inRbr → v.rx.Sound (inRbr || u.rx.loads v.rx)

/-- A call ends with an update of the interrupt, or touches at most three plain registers. --/
inductive Concludes (u : Uart) : Uart → Prop
  | update (v : Uart) (hirqs : u.irqs ≤ v.irqs) : Concludes u v.updateInterrupt
  | plain (dll dlh scr : UInt8) : Concludes u { u with dll := dll, dlh := dlh, scr := scr }

/-- A call ends with the note of the timeout and then the interrupt up to date. --/
def Ends (u v : Uart) : Prop :=
  ∃ w : Uart, u.irqs ≤ w.irqs ∧ w.timeoutIpending = w.timedOut ∧ v = w.updateInterrupt

section
variable {u v w : Uart} {value : UInt8} {data : List UInt8} {offset : Nat} {inRbr : Bool}

theorem irqs_updateInterrupt : u.irqs ≤ u.updateInterrupt.irqs := by
  unfold updateInterrupt
  dsimp only
  split_ifs <;> omega

theorem Concludes.refl (u : Uart) : Concludes u u := .plain u.dll u.dlh u.scr

theorem Concludes.iir (h : Concludes u v) (hu : u.iir = u.pendingInterrupt) : v.iir = v.pendingInterrupt := by
  cases h with
  | update => rfl
  | plain => exact hu

theorem Concludes.irqs_le (h : Concludes u v) : u.irqs ≤ v.irqs := by
  cases h with
  | update w hirqs => exact hirqs.trans irqs_updateInterrupt
  | plain => exact le_rfl

/-- An interrupt is raised, or what could be told of is as it was. --/
theorem Concludes.raised (h : Concludes u v) (hiir : v.iir ≠ 0x01) :
    u.irqs < v.irqs ∨ v.iir = u.iir ∧ v.rxFifo = u.rxFifo ∧ v.ier = u.ier := by
  cases h with
  | update w hirqs =>
    have hpending : w.pendingInterrupt ≠ 0x01 := hiir
    have hraised : w.updateInterrupt.irqs = w.irqs + 1 := if_neg hpending
    exact Or.inl (hraised ▸ Nat.lt_succ_of_le hirqs)
  | plain => exact Or.inr ⟨rfl, rfl, rfl⟩

theorem Frame.refl (u : Uart) : Frame u u := ⟨rfl, rfl, rfl, le_rfl⟩

theorem Frame.noted (h : Frame u v) (hu : u.timeoutIpending = u.timedOut) : v.timeoutIpending = v.timedOut :=
  noted_of u h.timeout h.fcr (congrArg Rx.rxFifo h.rx) hu

theorem Frame.adds (h : Frame u v) : Adds u v := by
  refine ⟨congrArg Rx.fifo h.rx, fun _ hdr => ?_, h.irqs, h.noted, fun inRbr hs => ?_⟩
  · rw [h.rx]
    exact hdr
  · rw [Rx.loads_same (congrArg Rx.dr h.rx), Bool.or_false, h.rx]
    exact hs

theorem Adds.trans (h : Adds u v) (h' : Adds v w) : Adds u w := by
  refine ⟨h'.fifo.trans h.fifo, fun hf hdr => ?_, h.irqs.trans h'.irqs, fun hu => h'.timeout (h.timeout hu),
    fun inRbr hs => ?_⟩
  · exact h'.dataReady (h.fifo.trans hf) (h.dataReady hf hdr)
  · have hs' := h'.sound _ (h.sound inRbr hs)
    rw [Bool.or_assoc, Rx.loads_trans h'.fifo (fun hf => h.dataReady (h.fifo.symm.trans hf)) h'.dataReady] at hs'
    exact hs'

theorem frame_updateInterrupt (u : Uart) : Frame u u.updateInterrupt := ⟨rfl, rfl, rfl, irqs_updateInterrupt⟩

theorem stage_queued : ∀ (data : List UInt8) (n : Nat) (u : Uart), u.rx.queued ≤ rxCapacity →
    (stage data n u).2.rx.queued ≤ rxCapacity
  | [], _, _, h => h
  | b :: data, n, u, h => by
    unfold stage
    split
    · rename_i hlt
      refine stage_queued data (n + 1) _ ?_
      have hone : ({ u with rxStaging := u.rxStaging ++ [b] } : Uart).rx.queued = u.queued + 1 := by
        show (u.rxStaging ++ [b]).length + _ = u.rxStaging.length + _ + 1
        rw [List.length_append, List.length_singleton, Nat.add_right_comm]
        rfl
      rw [hone]
      exact hlt
    · exact h

theorem irqs_drainRxStaging (u : Uart) : u.drainRxStaging.irqs = u.irqs := by
  unfold drainRxStaging
  split
  · dsimp only
    split <;> rfl
  · split
    · split <;> rfl
    · rfl

theorem Ends.concludes (h : Ends u v) : Concludes u v := by
  obtain ⟨w, hirqs, -, rfl⟩ := h
  exact .update w hirqs

theorem Ends.noted (h : Ends u v) : v.timeoutIpending = v.timedOut := by
  obtain ⟨w, -, hnoted, rfl⟩ := h
  exact (frame_updateInterrupt w).noted hnoted

theorem ends_drain (hirqs : w.irqs = u.irqs) : Ends u w.drainRxStaging.updateInterrupt :=
  ⟨w.drainRxStaging, by rw [irqs_drainRxStaging, hirqs], timeout_drain w, rfl⟩

theorem ends_enqueueRx (hdata : data ≠ []) : Ends u (u.enqueueRx data).2 := by
  obtain ⟨k, hk⟩ := stage_eq data 0 u
  rw [enqueueRx, if_neg hdata, hk]
  refine ends_drain ?_
  split <;> rfl

theorem adds_enqueueRx (data : List UInt8) (u : Uart) : Adds u (u.enqueueRx data).2 := by
  rcases eq_or_ne data [] with rfl | hdata
  · exact (Frame.refl u).adds
  have hends := ends_enqueueRx (u := u) hdata
  have hrx := rx_enqueueRx (u := u) hdata
  refine ⟨?_, fun hf hdr => ?_, hends.concludes.irqs_le, fun _ => hends.noted, fun inRbr hs => ?_⟩
  · rw [hrx, Rx.drain_fifo]
  · have hd := Rx.drain_of_dr (r := { u.rx with rxStaging := u.rxStaging ++ data.take (u.enqueueRx data).1 }) hf hdr
    rw [hrx, hd]
    exact hdr
  · have hle := stage_queued data 0 u hs.queued_le
    obtain ⟨k, hk⟩ := stage_eq data 0 u
    have haccepted : (u.enqueueRx data).1 = k := by
      rw [enqueueRx, if_neg hdata, hk, Nat.zero_add]
    rw [hk] at hle
    rw [hrx, haccepted]
    exact Rx.Fits.drain (r := { u.rx with rxStaging := u.rxStaging ++ data.take k })
      ⟨hs.fifo_le, hle, hs.visible, hs.rbr⟩

theorem ends_readRbr (u : Uart) : Ends u u.readRbr.2 := by
  unfold readRbr
  split
  · dsimp only
    generalize hw : drainRxStaging _ = w
    have hirqs : u.irqs ≤ w.irqs := by rw [← hw, irqs_drainRxStaging]
    have hnoted : w.timeoutIpending = w.timedOut := hw ▸ timeout_drain _
    refine ⟨_, ?_, ?_, rfl⟩
    · split <;> exact hirqs
    · split
      · exact noted_of w rfl rfl rfl hnoted
      · exact hnoted
  · refine ends_drain ?_
    dsimp only
    split <;> rfl

theorem ends_writeFcr (value : UInt8) (u : Uart) : Ends u (u.writeFcr value) := by
  have hrx : ∃ w : Uart, w.irqs = u.irqs ∧ w.timeoutIpending = w.timedOut ∧ u.writeFcr value =
      (if value &&& fcrClearTx ≠ 0 then w.clearTx else w).updateInterrupt := by
    unfold writeFcr
    refine ⟨_, ?_, ?_, rfl⟩
    · split
      · rfl
      · rw [irqs_drainRxStaging]
    · split
      · exact timeout_clearRx _
      · exact timeout_drain _
  obtain ⟨w, hirqs, hnoted, heq⟩ := hrx
  refine ⟨_, ?_, ?_, heq⟩
  · split <;> exact hirqs.ge
  · split
    · exact noted_of w rfl rfl rfl hnoted
    · exact hnoted

theorem concludes_read (u : Uart) (offset : Nat) : Concludes u (u.read offset).2 := by
  unfold read
  split
  · split
    · exact .refl u
    · exact (ends_readRbr u).concludes
  · exact .refl u
  · dsimp only
    split
    · exact .update _ le_rfl
    · exact .refl u
  · exact .refl u
  · exact .refl u
  · dsimp only
    split
    · exact .update _ le_rfl
    · exact .refl u
  · exact .update _ le_rfl
  · exact .refl u
  · exact .refl u

/-- A read of another register than RBR. --/
theorem frame_read (h : offset ≠ 0 ∨ u.dlab = true) : Frame u (u.read offset).2 := by
  have hkept : (u.read offset).2.fcr = u.fcr ∧ (u.read offset).2.timeoutIpending = u.timeoutIpending := by
    unfold read
    split
    · rw [if_pos (h.resolve_left fun hne => hne rfl)]
      exact ⟨rfl, rfl⟩
    · exact ⟨rfl, rfl⟩
    · dsimp only
      split <;> exact ⟨rfl, rfl⟩
    · exact ⟨rfl, rfl⟩
    · exact ⟨rfl, rfl⟩
    · dsimp only
      split <;> exact ⟨rfl, rfl⟩
    · exact ⟨rfl, rfl⟩
    · exact ⟨rfl, rfl⟩
    · exact ⟨rfl, rfl⟩
  exact ⟨rx_read (p := ⟨u, .empty⟩) h, hkept.1, hkept.2, (concludes_read u offset).irqs_le⟩

theorem concludes_writeIer (value : UInt8) (u : Uart) : Concludes u (u.writeIer value) := by
  refine .update _ ?_
  split <;> exact le_rfl

theorem frame_writeIer (value : UInt8) (u : Uart) : Frame u (u.writeIer value) := by
  refine ⟨rx_writeIer (p := ⟨u, .empty⟩), ?_, ?_, (concludes_writeIer value u).irqs_le⟩
  · unfold writeIer
    dsimp only
    split <;> rfl
  · unfold writeIer
    dsimp only
    split <;> rfl

theorem concludes_writeLcr (value : UInt8) (u : Uart) : Concludes u (u.writeLcr value) := by
  refine .update _ ?_
  split <;> exact le_rfl

theorem noted_writeLcr (hu : u.timeoutIpending = u.timedOut) :
    (u.writeLcr value).timeoutIpending = (u.writeLcr value).timedOut := by
  unfold writeLcr
  dsimp only
  split
  · exact noted_of u rfl rfl rfl hu
  · exact noted_of u rfl rfl rfl hu

theorem concludes_writeMcr (value : UInt8) (u : Uart) : Concludes u (u.writeMcr value) := .update _ le_rfl

theorem frame_writeMcr (value : UInt8) (u : Uart) : Frame u (u.writeMcr value) :=
  ⟨rfl, rfl, rfl, (concludes_writeMcr value u).irqs_le⟩

end

end Uart

/-! ### A write of THR -/

namespace Terminal
open Uart
variable {t : Terminal} {value : UInt8} {cursor : Option (Int × Int)}

theorem frame_load (value : UInt8) (t : Terminal) : Frame t.uart (t.load value).uart :=
  ⟨rx_lsr_and (by decide), rfl, rfl, le_rfl⟩

theorem frame_sent (t : Terminal) : Frame t.uart t.sent.uart := ⟨rx_lsr_or (by decide), rfl, rfl, le_rfl⟩

theorem frame_setQuery (held : List UInt8) (t : Terminal) : Frame t.uart (t.setQuery held).uart := ⟨rfl, rfl, rfl, le_rfl⟩

/-- In loopback a byte comes back on the receive side. --/
theorem adds_shiftOut (t : Terminal) (byte : UInt8) : Adds t.uart (t.shiftOut byte).uart := by
  have htsr : Adds t.uart { t.uart with tsr := byte } := Frame.adds ⟨rfl, rfl, rfl, le_rfl⟩
  unfold shiftOut
  dsimp only
  split
  · exact htsr.trans (adds_enqueueRx [byte] _)
  · exact htsr

theorem adds_foldl_shiftOut : ∀ (fifo : List UInt8) (t : Terminal), Adds t.uart (fifo.foldl shiftOut t).uart
  | [], t => (Frame.refl t.uart).adds
  | byte :: fifo, t => (adds_shiftOut t byte).trans (adds_foldl_shiftOut fifo (t.shiftOut byte))

theorem adds_transmitByte (value : UInt8) (t : Terminal) : Adds t.uart (t.transmitByte value).uart := by
  unfold transmitByte
  split
  · have hempty : Adds t.uart { t.uart with txFifo := [] } := Frame.adds ⟨rfl, rfl, rfl, le_rfl⟩
    exact (hempty.trans (adds_foldl_shiftOut _ { t with uart := { t.uart with txFifo := [] } })).trans (frame_sent _).adds
  · exact (adds_shiftOut t value).trans (frame_sent _).adds

theorem adds_answerQuery (cursor : Option (Int × Int)) (t : Terminal) : Adds t.uart (t.answerQuery cursor).uart := by
  unfold answerQuery
  split
  · exact (Frame.refl t.uart).adds
  · exact adds_enqueueRx _ _

/-- A byte for the transmitter may add to the receive side, and ends with an update of the interrupt. --/
theorem handleTxByte_ends (cursor : Option (Int × Int)) (value : UInt8) (t : Terminal) :
    ∃ s : Terminal, Adds t.uart s.uart ∧ t.handleTxByte cursor value = s.updateInterrupt := by
  have hload := (frame_load value t).adds
  have hset := hload.trans (frame_setQuery ((t.load value).uart.terminalQuery ++ [value]) _).adds
  unfold handleTxByte
  dsimp only
  split_ifs
  · exact ⟨_, hload.trans (adds_transmitByte value _), rfl⟩
  · have hanswer := (hset.trans (adds_answerQuery cursor _)).trans (frame_setQuery [] _).adds
    exact ⟨_, hanswer.trans (frame_sent _).adds, rfl⟩
  · exact ⟨_, hset.trans (frame_sent _).adds, rfl⟩
  · refine ⟨_, ?_, rfl⟩
    exact (hset.trans (frame_setQuery [] _).adds).trans (frame_sent _).adds
  · exact ⟨_, hload.trans (adds_transmitByte value _), rfl⟩

/-- A write of a register other than FCR and LCR. --/
theorem write_other {offset : Nat} (hfcr : offset ≠ 2) (hlcr : offset ≠ 3) :
    Adds t.uart (t.write cursor offset value).uart ∧ Concludes t.uart (t.write cursor offset value).uart := by
  have hplain : ∀ dll dlh scr : UInt8, Adds t.uart { t.uart with dll := dll, dlh := dlh, scr := scr } :=
    fun _ _ _ => Frame.adds ⟨rfl, rfl, rfl, le_rfl⟩
  unfold Terminal.write Uart.write
  split
  · rename_i uart hwrite
    split at hwrite
    · split at hwrite <;> cases hwrite
      exact ⟨hplain _ _ _, .plain _ _ _⟩
    · cases hwrite
      split
      · exact ⟨hplain _ _ _, .plain _ _ _⟩
      · exact ⟨(frame_writeIer value t.uart).adds, concludes_writeIer value t.uart⟩
    · exact absurd rfl hfcr
    · exact absurd rfl hlcr
    · cases hwrite
      exact ⟨(frame_writeMcr value t.uart).adds, concludes_writeMcr value t.uart⟩
    · cases hwrite
      exact ⟨hplain _ _ _, .plain _ _ _⟩
    · cases hwrite
      exact ⟨(Frame.refl t.uart).adds, .refl t.uart⟩
  · obtain ⟨s, hadds, heq⟩ := handleTxByte_ends cursor value t
    rw [heq]
    exact ⟨hadds.trans (frame_updateInterrupt s.uart).adds, .update s.uart hadds.irqs⟩

end Terminal

/-! ### Runs -/

/-- The UART with its console, and whether RBR holds a byte of the host that the guest has not read. --/
structure Serial where
  term : Terminal
  inRbr : Bool
  deriving DecidableEq

namespace Serial
open Uart

/-- What the host and the guest do. --/
inductive Call where
  | enqueueRx (data : List UInt8)
  | read (offset : Nat)
  | write (cursor : Option (Int × Int)) (offset : Nat) (value : UInt8)
  | emitBytes (data : List UInt8)
  deriving DecidableEq, Repr

def uart (p : Serial) : Uart := p.term.uart

def call (t : Terminal) : Call → Terminal
  | .enqueueRx data => { t with uart := (t.uart.enqueueRx data).2 }
  | .read offset => { t with uart := (t.uart.read offset).2 }
  | .write cursor offset value => t.write cursor offset value
  | .emitBytes data => t.emitBytes data

/-- A byte in RBR stays there until the guest reads or clears it, or a break takes its place. --/
def rbrAfter (p : Serial) (u : Uart) : Call → Bool
  | .read 0 => if p.uart.dlab || p.uart.fifoEnabled then p.inRbr else u.dataReady || p.inRbr && !p.uart.dataReady
  | .write _ 2 value => if value &&& fcrClearRx ≠ 0 then false else p.inRbr || p.uart.rx.loads u.rx
  | .write _ 3 value => if value &&& 0x40 ≠ 0 ∧ p.uart.lcr &&& 0x40 = 0 then false else p.inRbr
  | _ => p.inRbr || p.uart.rx.loads u.rx

def step (p : Serial) (c : Call) : Option Serial := some ⟨call p.term c, p.rbrAfter (call p.term c).uart c⟩

def initial (out : Console) (dsrPassthrough outputIsConsole : Bool) : Serial :=
  ⟨{ out := out, dsrPassthrough := dsrPassthrough, outputIsConsole := outputIsConsole }, false⟩

/-- The bytes of the host that the guest has not read. --/
def unread (p : Serial) : Nat := p.uart.rxStaging.length + p.uart.rxFifo.length + if p.inRbr then 1 else 0

/-- An unread byte is in the FIFO, and the guest is to be told. --/
def Waits (p : Serial) : Prop := p.uart.rxFifo ≠ [] ∧ p.uart.ier &&& ierRdi ≠ 0

/-- IIR names the most urgent source, the host's bytes are within their bounds, and what waits in the FIFO is announced. --/
structure Identified (p : Serial) : Prop where
  iir : p.uart.iir = p.uart.identification
  fifo_le : p.uart.rxFifo.length ≤ fifoSize
  unread_le : p.unread ≤ rxCapacity
  staged : p.uart.fifoEnabled = true → p.uart.rxFifo.length < fifoSize → p.uart.rxStaging = []
  announced : p.Waits → p.uart.iir ∈ [0x06, 0x0C, 0x04]

/-- The call that makes something wait, or IIR announce something else, raises an interrupt. --/
structure Raised (p q : Serial) : Prop where
  waits : q.Waits → ¬p.Waits → p.uart.irqs < q.uart.irqs
  iir : q.uart.iir ≠ 0x01 → q.uart.iir ≠ p.uart.iir → p.uart.irqs < q.uart.irqs

/-- A write of FCR that switches the FIFO clears the receive side, or finds no unread byte in what it hides: RBR when it
    switches the FIFO on, the FIFO when it switches it off. --/
def Careful (p : Serial) : Call → Prop
  | .write _ 2 value => value &&& fcrClearRx ≠ 0 ∨
    (value &&& fcrEnable ≠ 0 → p.uart.fifoEnabled = false → p.inRbr = false) ∧
      (value &&& fcrEnable = 0 → p.uart.fifoEnabled = true → p.uart.rxFifo = [])
  | _ => True

/-- The interrupt and the note of the timeout are up to date. --/
structure UpToDate (u : Uart) : Prop where
  iir : u.iir = u.pendingInterrupt
  timeout : u.timeoutIpending = u.timedOut

section
variable {p q p₀ : Serial} {c : Call} {cs : List Call} {t : Terminal} {out : Console} {dsrPassthrough outputIsConsole : Bool}

/-- Most calls may add to the receive side; a read of RBR and the writes of FCR and LCR do more. --/
theorem call_cases (p : Serial) (c : Call) :
    (Adds p.uart (call p.term c).uart ∧ Concludes p.uart (call p.term c).uart ∧
      p.rbrAfter (call p.term c).uart c = (p.inRbr || p.uart.rx.loads (call p.term c).uart.rx)) ∨
    (c = .read 0 ∧ p.uart.dlab = false ∧ (call p.term c).uart = p.uart.readRbr.2) ∨
    (∃ cursor value, c = .write cursor 2 value ∧ (call p.term c).uart = p.uart.writeFcr value) ∨
    ∃ cursor value, c = .write cursor 3 value ∧ (call p.term c).uart = p.uart.writeLcr value := by
  cases c with
  | enqueueRx data =>
    refine Or.inl ⟨adds_enqueueRx data p.uart, ?_, rfl⟩
    rcases eq_or_ne data [] with rfl | hdata
    · exact .refl p.uart
    · exact (ends_enqueueRx hdata).concludes
  | read offset =>
    by_cases hrbr : offset = 0 ∧ p.uart.dlab = false
    · obtain ⟨rfl, hdlab⟩ := hrbr
      refine Or.inr (Or.inl ⟨rfl, hdlab, ?_⟩)
      show (p.uart.read 0).2 = p.uart.readRbr.2
      rw [Uart.read, hdlab]
      rfl
    · have hframe : Frame p.uart (p.uart.read offset).2 := frame_read (by simpa [or_iff_not_imp_left] using hrbr)
      have hloads : p.uart.rx.loads (p.uart.read offset).2.rx = false := Rx.loads_same (congrArg Rx.dr hframe.rx)
      refine Or.inl ⟨hframe.adds, concludes_read p.uart offset, ?_⟩
      cases offset with
      | zero =>
        have hdlab : p.uart.dlab = true := by simpa using hrbr
        show (if p.uart.dlab || p.uart.fifoEnabled then p.inRbr else _) = (p.inRbr || p.uart.rx.loads (p.uart.read 0).2.rx)
        rw [hdlab, hloads, Bool.or_false]
        rfl
      | succ n => rfl
  | write cursor offset value =>
    by_cases hfcr : offset = 2
    · subst hfcr
      exact Or.inr (Or.inr (Or.inl ⟨cursor, value, rfl, rfl⟩))
    by_cases hlcr : offset = 3
    · subst hlcr
      exact Or.inr (Or.inr (Or.inr ⟨cursor, value, rfl, rfl⟩))
    obtain ⟨hadds, hconcludes⟩ := Terminal.write_other (t := p.term) hfcr hlcr
    refine Or.inl ⟨hadds, hconcludes, ?_⟩
    unfold rbrAfter
    split
    · cases ‹_›
    · cases ‹_›
      exact absurd rfl hfcr
    · cases ‹_›
      exact absurd rfl hlcr
    · rfl
  | emitBytes => exact Or.inl ⟨(Frame.refl p.uart).adds, .refl p.uart, rfl⟩

theorem concludes_call (p : Serial) (c : Call) : Concludes p.uart (call p.term c).uart := by
  obtain ⟨-, h, -⟩ | ⟨-, -, heq⟩ | ⟨cursor, value, -, heq⟩ | ⟨cursor, value, -, heq⟩ := call_cases p c
  · exact h
  · rw [heq]
    exact (ends_readRbr p.uart).concludes
  · rw [heq]
    exact (ends_writeFcr value p.uart).concludes
  · rw [heq]
    exact concludes_writeLcr value p.uart

theorem upToDate_call (h : UpToDate p.uart) (c : Call) : UpToDate (call p.term c).uart := by
  refine ⟨(concludes_call p c).iir h.iir, ?_⟩
  obtain ⟨hadds, -, -⟩ | ⟨-, -, heq⟩ | ⟨cursor, value, -, heq⟩ | ⟨cursor, value, -, heq⟩ := call_cases p c
  · exact hadds.timeout h.timeout
  · rw [heq]
    exact (ends_readRbr p.uart).noted
  · rw [heq]
    exact (ends_writeFcr value p.uart).noted
  · rw [heq]
    exact noted_writeLcr h.timeout

theorem UpToDate.identified {u : Uart} (h : UpToDate u) : u.iir = u.identification :=
  h.iir.trans (pendingInterrupt_eq h.timeout)

/-- However the calls are ordered, IIR names the most urgent of the enabled sources. --/
theorem iir_identified (h : Runs.Under step (fun _ _ => True) (initial out dsrPassthrough outputIsConsole) cs p) :
    UpToDate p.uart := by
  have hinit : UpToDate ({} : Uart) := ⟨by decide, by decide⟩
  refine h.invariant (P := fun p => UpToDate p.uart) (fun s c t hs _ hstep => ?_) hinit
  cases hstep
  exact upToDate_call hs c

theorem sound_call (hs : p.uart.rx.Sound p.inRbr) (hc : p.Careful c) :
    (call p.term c).uart.rx.Sound (p.rbrAfter (call p.term c).uart c) := by
  obtain ⟨hadds, -, hafter⟩ | ⟨rfl, hdlab, heq⟩ | ⟨cursor, value, rfl, heq⟩ | ⟨cursor, value, rfl, heq⟩ := call_cases p c
  · rw [hafter]
    exact hadds.sound p.inRbr hs
  · have hrest : p.uart.readRbr.2.rx = p.uart.rx.readRbr.2 := congrArg Prod.snd rx_readRbr
    rw [heq]
    show p.uart.readRbr.2.rx.Sound (if p.uart.dlab || p.uart.fifoEnabled then _ else p.uart.readRbr.2.rx.dr || _)
    rw [hrest, hdlab]
    exact hs.readRbr
  · rw [heq]
    show (p.uart.writeFcr value).rx.Sound
      (if value &&& fcrClearRx ≠ 0 then false else p.inRbr || p.uart.rx.loads (p.uart.writeFcr value).rx)
    rw [rx_writeFcr]
    split_ifs with hclear
    · exact Rx.sound_empty _ _ _
    · obtain ⟨hon, hoff⟩ := hc.resolve_left hclear
      exact hs.writeFcr (fun hfifo => hon (of_decide_eq_true hfifo))
        fun hfifo => hoff (not_not.mp (of_decide_eq_false hfifo))
  · rw [heq]
    show (p.uart.writeLcr value).rx.Sound (if value &&& 0x40 ≠ 0 ∧ p.uart.lcr &&& 0x40 = 0 then false else p.inRbr)
    rw [rx_writeLcr]
    split_ifs
    · exact hs.writeLcr
    · exact hs

theorem sound_initial : (initial out dsrPassthrough outputIsConsole).uart.rx.Sound false := Rx.sound_empty _ _ _

/-- What is sound and up to date is as the guest is to see it. --/
theorem identified (hu : UpToDate p.uart) (hs : p.uart.rx.Sound p.inRbr) : p.Identified := by
  refine ⟨hu.identified, hs.fifo_le, ?_, hs.staged, fun ⟨hq, hier⟩ => ?_⟩
  · exact hs.held_le.trans hs.queued_le
  · have hf : p.uart.fifoEnabled = true := by
      by_contra hoff
      exact hq (hs.visible (Bool.eq_false_iff.mpr hoff))
    rw [hu.iir]
    exact pendingInterrupt_of_rxFifo hu.timeout hf hq hier

theorem raised (hq : q.Identified) (h : p.step c = some q) : Raised p q := by
  cases h
  have hraised := (concludes_call p c).raised
  refine ⟨fun hwaits hnot => ?_, fun hiir hne => ?_⟩
  · have hiir : (call p.term c).uart.iir ≠ 0x01 := by
      intro hnone
      have hmem := hq.announced hwaits
      rw [uart, hnone] at hmem
      exact absurd hmem (by decide)
    rcases hraised hiir with hlt | ⟨-, hfifo, hier⟩
    · exact hlt
    · exact absurd ⟨hfifo ▸ hwaits.1, hier ▸ hwaits.2⟩ hnot
  · rcases hraised hiir with hlt | ⟨hsame, -, -⟩
    · exact hlt
    · exact absurd hsame hne

/-- In every run in which the FIFO is switched over nothing unread, IIR is right, the bounds hold, and what waits is
    announced by the call that made it wait. --/
theorem interrupts_identified (h : Runs.Under step Careful (initial out dsrPassthrough outputIsConsole) cs p) :
    p.Identified ∧ ∀ c q, p.Careful c → p.step c = some q → Raised p q := by
  have hu : UpToDate p.uart := iir_identified (h.mono fun _ _ _ => trivial)
  have hs : p.uart.rx.Sound p.inRbr := by
    refine h.invariant (P := fun p => p.uart.rx.Sound p.inRbr) (fun s c t hs hc hstep => ?_) sound_initial
    cases hstep
    exact sound_call hs hc
  refine ⟨identified hu hs, fun c q hc hstep => raised ?_ hstep⟩
  cases hstep
  exact identified (upToDate_call hu c) (sound_call hs hc)

end

instance : ∀ (p : Serial) (c : Call), Decidable (Careful p c)
  | p, .write _ 2 value => inferInstanceAs (Decidable (value &&& fcrClearRx ≠ 0 ∨
      (value &&& fcrEnable ≠ 0 → p.uart.fifoEnabled = false → p.inRbr = false) ∧
        (value &&& fcrEnable = 0 → p.uart.fifoEnabled = true → p.uart.rxFifo = [])))
  | _, .write _ 0 _ | _, .write _ 1 _ | _, .write _ (_ + 3) _ => isTrue trivial
  | _, .enqueueRx _ | _, .read _ | _, .emitBytes _ => isTrue trivial

/-- Two bytes in a FIFO that is to hold eight, one of the host and one that comes back in loopback. --/
def twoWait : List Call :=
  [.write none 2 0x81, .write none 1 0x05, .enqueueRx [0x6C], .write none 4 0x10, .write none 0 0x21]

/-- The theorem on these calls: the timeout is announced. --/
theorem interrupts_identified_twoWait : ∃ p, Runs.Under step Careful (initial {} false false) twoWait p ∧
    (p.Identified ∧ ∀ c q, p.Careful c → p.step c = some q → Raised p q) ∧
    p.uart.rxFifo = [0x6C, 0x21] ∧ p.uart.iir = 0x0C ∧ p.uart.irqs = 4 := by
  obtain ⟨p, hrun, hp⟩ := Runs.exists_under step Careful (initial {} false false) twoWait
    (fun p => p.uart.rxFifo = [0x6C, 0x21] ∧ p.uart.iir = 0x0C ∧ p.uart.irqs = 4) (by decide)
  exact ⟨p, hrun, interrupts_identified hrun, hp⟩

/-- The FIFO is switched off over an unread byte: after a read of the RBR that has nothing, the byte waits unannounced. --/
theorem not_identified_fifo_off : ∃ p, Runs.Under step (fun _ _ => True) (initial {} false false)
    [.write none 2 1, .write none 1 1, .enqueueRx [0x41], .write none 2 0, .read 0] p ∧ ¬p.Identified := by
  obtain ⟨p, hrun, hfifo, hier, hiir⟩ := Runs.exists_under step (fun _ _ => True) (initial {} false false)
    [.write none 2 1, .write none 1 1, .enqueueRx [0x41], .write none 2 0, .read 0]
    (fun p => p.uart.rxFifo = [0x41] ∧ p.uart.ier = 1 ∧ p.uart.iir = 0x01) (by decide)
  refine ⟨p, hrun, fun h => ?_⟩
  have hmem := h.announced ⟨by simp [hfifo], by rw [hier]; decide⟩
  rw [hiir] at hmem
  exact absurd hmem (by decide)

end Serial
end NodeVmm.Whp
