import NodeVmm.Theorems.Uart
import NodeVmm.UartTx

/-! The terminal queries in what a guest transmits, and the markers in what comes out on the console.

    The three UARTs filter like `HoldBack`; the console looks for its two markers like `StepBack`. -/

namespace NodeVmm
open HoldBack

/-! ### Lines -/

/-- What happens at a UART while the guest transmits. --/
inductive Traffic
  | transmit (b : UInt8) (cursor : Option (Int × Int))
  | receive (data : List UInt8)
  | read (offset : Nat)
  deriving DecidableEq, Repr

def Traffic.sent : Traffic → Option UInt8
  | .transmit b _ => some b
  | _ => none

/-- The stream of transmitted bytes. --/
def transmitted (ts : List Traffic) : List UInt8 := ts.filterMap Traffic.sent

/-- A UART seen from outside: what it has emitted, what it holds back of a query, and what waits to be received. `answer`
    puts the report of the cursor with what waits. --/
structure Line (σ : Type) where
  act : σ → Traffic → σ
  emitted : σ → List UInt8
  pending : σ → List UInt8
  received : σ → List UInt8
  answer : Option (Int × Int) → List UInt8 → List UInt8

namespace Line
variable {σ : Type} {l : Line σ} {ok : σ → Prop} {s : σ} {ts us : List Traffic} {b : UInt8} {cursor : Option (Int × Int)}

def run (l : Line σ) (s : σ) (ts : List Traffic) : σ := ts.foldl l.act s

/-- A byte that ends a query puts one report with what waits, if that has room; any other byte none. --/
def Reports (l : Line σ) (s : σ) (ends : Prop) (b : UInt8) (cursor : Option (Int × Int)) : Prop :=
  (¬ends → l.received (l.act s (.transmit b cursor)) = l.received s) ∧
    (ends → (l.answer cursor (l.received s)).length ≤ rxLimit →
      l.received (l.act s (.transmit b cursor)) = l.answer cursor (l.received s))

/-- Every query in the stream is removed, nothing else, and answered once. --/
def Filtered (l : Line σ) (s : σ) (ts : List Traffic) : Prop :=
  l.emitted (l.run s ts) ++ l.pending (l.run s ts) = strip query (transmitted ts) ∧
    ∀ us b cursor vs, ts = us ++ .transmit b cursor :: vs →
      l.Reports (l.run s us) (query <:+ transmitted us ++ [b]) b cursor

/-- The filter does what the UART does, where `ok` holds. --/
structure Filters (l : Line σ) (ok : σ → Prop) : Prop where
  transmit : ∀ s b cursor (f : HoldBack.Filter UInt8), ok s → f.emitted = l.emitted s → f.pending = l.pending s →
    (step query 0x1B f b).emitted = l.emitted (l.act s (.transmit b cursor)) ∧
      (step query 0x1B f b).pending = l.pending (l.act s (.transmit b cursor)) ∧
      l.Reports s ((step query 0x1B f b).matched = f.matched + 1) b cursor
  quiet : ∀ s t, ok s → t.sent = none → l.emitted (l.act s t) = l.emitted s ∧ l.pending (l.act s t) = l.pending s
  ok : ∀ s t, ok s → ok (l.act s t)

theorem query_unique : Unique 0x1B query := ⟨[0x5B, 0x36, 0x6E], rfl, List.cons_ne_nil _ _, by decide⟩

theorem run_snoc {t : Traffic} : l.run s (ts ++ [t]) = l.act (l.run s ts) t := List.foldl_concat ..

theorem transmitted_append : transmitted (ts ++ us) = transmitted ts ++ transmitted us := List.filterMap_append ..

/-- All along, the UART has emitted and holds back what the filter has on the same stream. --/
theorem Filters.run_eq (hl : l.Filters ok) (hs : ok s) (hemitted : l.emitted s = []) (hpending : l.pending s = [])
    (ts : List Traffic) :
    ok (l.run s ts) ∧ (HoldBack.run query 0x1B (transmitted ts)).emitted = l.emitted (l.run s ts) ∧
      (HoldBack.run query 0x1B (transmitted ts)).pending = l.pending (l.run s ts) := by
  induction ts using List.reverseRecOn with
  | nil => exact ⟨hs, hemitted.symm, hpending.symm⟩
  | append_singleton ts t ih =>
    obtain ⟨hok, hem, hpen⟩ := ih
    rw [run_snoc, transmitted_append]
    refine ⟨hl.ok _ _ hok, ?_⟩
    cases hsent : t.sent with
    | none =>
      obtain ⟨hem', hpen'⟩ := hl.quiet _ t hok hsent
      have hnil : transmitted [t] = [] := by simp [transmitted, hsent]
      rw [hnil, List.append_nil, hem', hpen']
      exact ⟨hem, hpen⟩
    | some b =>
      obtain ⟨b', cursor⟩ | _ | _ := t
      · obtain ⟨hem', hpen', -⟩ := hl.transmit _ b' cursor _ hok hem hpen
        have hone : transmitted [.transmit b' cursor] = [b'] := rfl
        rw [hone, HoldBack.run_snoc]
        exact ⟨hem', hpen'⟩
      · cases hsent
      · cases hsent

theorem missed_of_append {w v : List UInt8} (h : Missed query w) : Missed query (w ++ v) := by
  induction v using List.reverseRecOn with
  | nil => rwa [List.append_nil]
  | append_singleton v b ih =>
    rw [← List.append_assoc]
    exact ih.snoc

/-- The UART meets its purpose on the streams without a missed query, and on no other. --/
theorem Filters.filtered_iff (hl : l.Filters ok) (hs : ok s) (hemitted : l.emitted s = []) (hpending : l.pending s = []) :
    l.Filtered s ts ↔ ¬Missed query (transmitted ts) := by
  obtain ⟨-, hem, hpen⟩ := hl.run_eq hs hemitted hpending ts
  have hiff := query_unique.run_iff (w := transmitted ts)
  rw [hem, hpen] at hiff
  refine ⟨fun h => hiff.mp h.1, fun h => ⟨hiff.mpr h, fun us b cursor vs hts => ?_⟩⟩
  obtain ⟨hok, hem', hpen'⟩ := hl.run_eq hs hemitted hpending us
  obtain ⟨-, -, hreports⟩ := hl.transmit _ b cursor _ hok hem' hpen'
  have hsplit : transmitted ts = transmitted us ++ [b] ++ transmitted vs := by
    rw [hts, transmitted_append, List.append_assoc]
    rfl
  have hstream : ¬Missed query (transmitted us ++ [b]) := fun hmissed => h (hsplit ▸ missed_of_append hmissed)
  have hbefore : ¬Missed query (transmitted us) := fun hmissed => hstream hmissed.snoc
  -- with nothing missed, the filter counts what ends here
  have hcount := (query_unique.run_eq hstream).2
  rw [HoldBack.run_snoc, occurrences_snoc, ← (query_unique.run_eq hbefore).2] at hcount
  have hends : (step query 0x1B (HoldBack.run query 0x1B (transmitted us)) b).matched =
      (HoldBack.run query 0x1B (transmitted us)).matched + 1 ↔ query <:+ transmitted us ++ [b] := by
    rw [hcount]
    split
    · rename_i hsuf
      exact ⟨fun _ => hsuf, fun _ => rfl⟩
    · rename_i hsuf
      exact ⟨fun hne => absurd hne (Nat.succ_ne_self _).symm, fun hcontra => absurd hcontra hsuf⟩
  exact ⟨fun hnot => hreports.1 (mt hends.mp hnot), fun hsuf => hreports.2 (hends.mpr hsuf)⟩

end Line

/-! ### The three UARTs -/

/-- The answer that does not fit loses its first bytes. --/
theorem pushFront_fitting {data rx : List UInt8} :
    pushFront data.reverse rx = data.drop (data.length - (rxLimit - rx.length)) ++ rx := by
  induction data using List.reverseRecOn generalizing rx with
  | nil => simp [pushFront]
  | append_singleton data b ih =>
    rw [List.reverse_append, List.reverse_singleton, List.singleton_append, pushFront]
    split_ifs with hroom
    · rw [ih, List.drop_append_of_le_length (by simp; omega)]
      have hlen : (data ++ [b]).length - (rxLimit - rx.length) = data.length - (rxLimit - (b :: rx).length) := by
        simp
        omega
      rw [hlen, List.append_assoc]
      rfl
    · have hall : (data ++ [b]).length - (rxLimit - rx.length) = (data ++ [b]).length := by omega
      rw [hall, List.drop_length, List.nil_append]

theorem pushFront_eq {data rx : List UInt8} (h : (data ++ rx).length ≤ rxLimit) : pushFront data.reverse rx = data ++ rx := by
  have hall : data.length - (rxLimit - rx.length) = 0 := by
    rw [List.length_append] at h
    omega
  rw [pushFront_fitting, hall, List.drop_zero]

namespace Console
variable {c : Console} {bytes : List UInt8} {b : UInt8}

theorem emitted_trackByte : (c.trackByte b).emitted = c.emitted := by
  simp only [trackByte]
  split_ifs <;> rfl

theorem emitted_trackConsoleMarkers : (c.trackConsoleMarkers bytes).emitted = c.emitted := by
  induction bytes generalizing c with
  | nil => rfl
  | cons b bytes ih => exact ih.trans emitted_trackByte

@[simp] theorem emitted_emitTx : (c.emitTx bytes).emitted = c.emitted ++ bytes := by
  rcases eq_or_ne bytes [] with rfl | hne
  · rw [emitTx, if_pos rfl, List.append_nil]
  · simp only [emitTx, if_neg hne]
    split_ifs
    all_goals simp only [writeStdout, emitted_trackConsoleMarkers]

end Console

namespace Kvm.Uart
variable {u : Uart}

def act (u : Uart) : Traffic → Uart
  | .transmit b _ => u.transmit b
  | .receive data => u.enqueueRx data
  | .read offset => (u.read offset).2

/-- The report gets in front of what waits. --/
def line : Line Uart := ⟨act, fun u => u.out.emitted, terminalQuery, rx, fun _ rx => response ++ rx⟩

@[simp] theorem out_updateInterrupt : u.updateInterrupt.out = u.out := by
  unfold updateInterrupt
  split_ifs <;> rfl

@[simp] theorem query_updateInterrupt : u.updateInterrupt.terminalQuery = u.terminalQuery := by
  unfold updateInterrupt
  split_ifs <;> rfl

@[simp] theorem rx_updateInterrupt : u.updateInterrupt.rx = u.rx := by
  unfold updateInterrupt
  split_ifs <;> rfl

theorem transmit_same {b : UInt8} : (u.transmit b).out = (u.handleTxByte b).out ∧
    (u.transmit b).terminalQuery = (u.handleTxByte b).terminalQuery ∧ (u.transmit b).rx = (u.handleTxByte b).rx := by
  simp only [transmit]
  split_ifs <;> simp

theorem line_filters : line.Filters fun _ => True := by
  refine ⟨?_, ?_, fun _ _ _ => trivial⟩
  · intro u b cursor f _ hem hpen
    obtain ⟨hout, hquery, hrx⟩ := u.transmit_same (b := b)
    simp only [line, act, Line.Reports, hout, hquery, hrx] at hem hpen ⊢
    simp only [step, hpen, handleTxByte]
    split_ifs with hheld hpre heq
    · refine ⟨?_, rfl, fun hne => absurd rfl hne, fun _ hroom => ?_⟩
      · simpa [enqueueRxFront] using hem
      · simpa [enqueueRxFront] using pushFront_eq hroom
    · exact ⟨hem, rfl, fun _ => rfl, fun hne => absurd hne (Nat.succ_ne_self _).symm⟩
    · refine ⟨?_, rfl, fun _ => rfl, fun hne => absurd hne (Nat.succ_ne_self _).symm⟩
      simp [emitTx, hem]
    · refine ⟨?_, rfl, fun _ => rfl, fun hne => absurd hne (Nat.succ_ne_self _).symm⟩
      simp [emitTx, hem]
  · rintro u (⟨b, cursor⟩ | data | offset) _ hsent
    · cases hsent
    · simp [line, act, enqueueRx]
    · simp only [line, act, read]
      split <;> (try split_ifs) <;> simp

end Kvm.Uart

namespace Hvf.Pl011Uart
variable {u : Pl011Uart}

def act (u : Pl011Uart) : Traffic → Pl011Uart
  | .transmit b _ => u.transmit b
  | .receive data => u.injectBytes data
  | .read _ => u.readDr.2

def line : Line Pl011Uart := ⟨act, emitted, terminalQuery, rx, fun _ rx => response ++ rx⟩

theorem emitTx_all {held : List UInt8} : held.foldl emitTx u =
    { u with
      console := (held.foldl emitTx u).console
      consoleOutputSeen := (held.foldl emitTx u).consoleOutputSeen
      emitted := u.emitted ++ held } := by
  induction held generalizing u with
  | nil => simp
  | cons b held ih =>
    rw [List.foldl_cons, ih]
    simp [emitTx]

/-- The UART has the filter only where it does not write to standard output itself. --/
theorem line_filters : line.Filters fun u => u.echoStdout = false := by
  refine ⟨?_, ?_, ?_⟩
  · intro u b cursor f hecho hem hpen
    simp only [line, act, Line.Reports, transmit, updateIrq] at hem hpen ⊢
    simp only [step, hpen, handleTx, if_neg (Bool.eq_false_iff.mp hecho)]
    split_ifs with hheld hpre heq
    · exact ⟨hem, rfl, fun hne => absurd rfl hne, fun _ hroom => pushFront_eq hroom⟩
    · exact ⟨hem, rfl, fun _ => rfl, fun hne => absurd hne (Nat.succ_ne_self _).symm⟩
    · rw [emitTx_all]
      refine ⟨?_, rfl, fun _ => rfl, fun hne => absurd hne (Nat.succ_ne_self _).symm⟩
      simp only [hem]
    · refine ⟨?_, rfl, fun _ => rfl, fun hne => absurd hne (Nat.succ_ne_self _).symm⟩
      simp only [emitTx, hem]
  · rintro u (⟨b, cursor⟩ | data | offset) _ hsent
    · cases hsent
    · exact ⟨rfl, rfl⟩
    · simp only [line, act, readDr]
      split <;> exact ⟨rfl, rfl⟩
  · rintro u (⟨b, cursor⟩ | data | offset) hecho
    · simp only [line, act, transmit, updateIrq, handleTx, if_neg (Bool.eq_false_iff.mp hecho)]
      split_ifs
      · exact hecho
      · exact hecho
      · rw [emitTx_all]
        exact hecho
      · exact hecho
    · exact hecho
    · simp only [line, act, readDr]
      split <;> exact hecho

end Hvf.Pl011Uart

namespace Whp
namespace Uart
variable {r : Rx} {u : Uart} {data : List UInt8} {offset : Nat}

/-- What waits for the guest, the next byte first. --/
def Rx.received (r : Rx) : List UInt8 := (if r.fifo then r.rxFifo else if r.dr then [r.rbr] else []) ++ r.rxStaging

theorem Rx.received_drain : r.drain.received = r.received := by
  rcases r with ⟨_ | _, dr, rbr, rxFifo, _ | ⟨b, staging⟩⟩
  · rfl
  · cases dr <;> rfl
  · simp [received, drain]
  · simp [received, drain]

theorem queued_eq : u.queued = u.rx.received.length := by
  have hfifo : u.rx.fifo = u.fifoEnabled := rfl
  have hdr : u.rx.dr = u.dataReady := rfl
  rw [queued, Rx.received, hfifo, hdr, List.length_append, Nat.add_comm]
  split_ifs <;> rfl

theorem stage_room {n : Nat} : u.queued + data.length ≤ rxCapacity → (stage data n u).1 = n + data.length := by
  induction data generalizing n u with
  | nil =>
    intro
    rfl
  | cons b data ih =>
    intro hroom
    have hq : ({ u with rxStaging := u.rxStaging ++ [b] } : Uart).queued = u.queued + 1 := by
      have hlen : (u.rxStaging ++ [b]).length = u.rxStaging.length + 1 := List.length_append
      simp only [queued, hlen, Nat.add_right_comm]
      rfl
    rw [List.length_cons] at hroom ⊢
    have hlt : u.queued < rxCapacity := Nat.lt_of_lt_of_le (Nat.lt_add_of_pos_right (Nat.succ_pos _)) hroom
    rw [stage, if_pos hlt, ih, Nat.add_assoc, Nat.add_comm 1]
    rwa [hq, Nat.add_assoc, Nat.add_comm 1]

/-- What fits is received behind what waits. --/
theorem received_enqueueRx (hroom : (u.rx.received ++ data).length ≤ rxCapacity) :
    (u.enqueueRx data).2.rx.received = u.rx.received ++ data := by
  rcases eq_or_ne data [] with rfl | hne
  · rw [enqueueRx, if_pos rfl, List.append_nil]
  · rw [List.length_append, ← queued_eq] at hroom
    have hall : (u.enqueueRx data).1 = data.length := by
      rw [enqueueRx, if_neg hne]
      exact (stage_room hroom).trans (Nat.zero_add _)
    rw [rx_enqueueRx hne, Rx.received_drain, hall, List.take_length]
    exact (List.append_assoc ..).symm

/-- The transmit side of the registers. --/
def tx (u : Uart) : UInt8 × List UInt8 × List UInt8 := (u.mcr, u.txFifo, u.terminalQuery)

@[simp] theorem tx_updateInterrupt : u.updateInterrupt.tx = u.tx := rfl

@[simp] theorem tx_drainRxStaging : u.drainRxStaging.tx = u.tx := by
  rcases hst : u.rxStaging with _ | ⟨b, staging⟩
  all_goals
    simp only [drainRxStaging, hst]
    split_ifs <;> rfl

theorem tx_enqueueRx (u : Uart) (data : List UInt8) : (u.enqueueRx data).2.tx = u.tx := by
  rcases eq_or_ne data [] with rfl | hne
  · rfl
  · obtain ⟨k, hk⟩ := stage_eq data 0 u
    rw [enqueueRx, if_neg hne, hk]
    dsimp only
    rw [tx_updateInterrupt, tx_drainRxStaging]
    split_ifs <;> rfl

theorem tx_read (u : Uart) (offset : Nat) : (u.read offset).2.tx = u.tx := by
  have hrbr : u.readRbr.2.tx = u.tx := by
    simp only [readRbr]
    split_ifs
    all_goals exact tx_drainRxStaging
  simp only [read]
  split <;> (try split_ifs) <;> first | rfl | exact hrbr

end Uart

namespace Terminal
variable {t : Terminal} {value : UInt8}

def act (t : Terminal) : Traffic → Terminal
  | .transmit b cursor => t.handleTxByte cursor b
  | .receive data => { t with uart := (t.uart.enqueueRx data).2 }
  | .read offset => { t with uart := (t.uart.read offset).2 }

/-- The report gets behind what waits. --/
def line : Line Terminal :=
  ⟨act, fun t => t.out.emitted, fun t => t.uart.terminalQuery, fun t => t.uart.rx.received,
    fun cursor rx => rx ++ cursorPositionReport cursor⟩

/-- No loopback, nothing on its way, and no passthrough of queries. --/
structure Plain (t : Terminal) : Prop where
  loopback : t.uart.mcr &&& 0x10 = 0
  txFifo : t.uart.txFifo = []
  passthrough : ¬(t.dsrPassthrough ∧ t.outputIsConsole)

theorem Plain.frame {t' : Terminal} (h : Plain t) (hmcr : t'.uart.mcr = t.uart.mcr) (hfifo : t'.uart.txFifo = t.uart.txFifo)
    (hdsr : t'.dsrPassthrough = t.dsrPassthrough) (hconsole : t'.outputIsConsole = t.outputIsConsole) : Plain t' :=
  ⟨hmcr ▸ h.loopback, hfifo.trans h.txFifo, by rw [hdsr, hconsole]; exact h.passthrough⟩

@[simp] theorem rx_load : (t.load value).uart.rx = t.uart.rx := by
  have hdr := Uart.dataReady_and (u := t.uart) (m := ~~~(lsrThre ||| lsrTemt)) (by decide)
  simp only [load, Uart.rx, Uart.fifoEnabled, Uart.Rx.mk.injEq]
  exact ⟨rfl, hdr, trivial, trivial, trivial⟩

@[simp] theorem rx_sent : t.sent.uart.rx = t.uart.rx := by
  have hdr := Uart.dataReady_or (u := t.uart) (m := lsrThre ||| lsrTemt) (by decide)
  simp only [sent, Uart.rx, Uart.fifoEnabled, Uart.Rx.mk.injEq]
  exact ⟨rfl, hdr, trivial, trivial, trivial⟩

@[simp] theorem rx_setQuery {held : List UInt8} : (t.setQuery held).uart.rx = t.uart.rx := rfl

@[simp] theorem query_setQuery {held : List UInt8} : (t.setQuery held).uart.terminalQuery = held := rfl

@[simp] theorem rx_updateInterrupt : t.updateInterrupt.uart.rx = t.uart.rx := rfl

/-- A byte that is not held goes straight to the console. --/
theorem transmitByte_eq (h : Plain t) : t.transmitByte value =
    ({ t with uart := { t.uart with tsr := value } }.emitTx [value]).sent := by
  have hmcr : ¬t.uart.mcr &&& 0x10 ≠ 0 := not_not.mpr h.loopback
  simp only [transmitByte, h.txFifo, List.length_nil, List.nil_append]
  split_ifs with hfifo hroom
  · simp only [List.foldl_cons, List.foldl_nil, shiftOut, if_neg hmcr]
  · exact absurd (by decide) hroom
  · simp only [shiftOut, if_neg hmcr, h.txFifo]

/-- What a byte does to a line: what it lets through, what is held then, and what waits to be received. --/
structure Moves (t t' : Terminal) (bytes held received : List UInt8) : Prop where
  emitted : t'.out.emitted = t.out.emitted ++ bytes
  query : t'.uart.terminalQuery = held
  received : t'.uart.rx.received = received
  plain : Plain t'

theorem Moves.sent {t' : Terminal} {bytes held received : List UInt8} (h : Moves t t' bytes held received) :
    Moves t t'.sent.updateInterrupt bytes held received := by
  refine ⟨h.emitted, h.query, ?_, h.plain.frame rfl rfl rfl rfl⟩
  rw [rx_updateInterrupt, rx_sent]
  exact h.received

theorem handleTxByte_spec (value : UInt8) (cursor : Option (Int × Int)) (h : Plain t) :
    (if t.uart.terminalQuery ≠ [] ∨ value = 0x1B then
      if t.uart.terminalQuery ++ [value] <+: query then
        if t.uart.terminalQuery ++ [value] = query then
          ∃ received, Moves t (t.handleTxByte cursor value) [] [] received ∧
            ((t.uart.rx.received ++ cursorPositionReport cursor).length ≤ rxLimit →
              received = t.uart.rx.received ++ cursorPositionReport cursor)
        else Moves t (t.handleTxByte cursor value) [] (t.uart.terminalQuery ++ [value]) t.uart.rx.received
      else Moves t (t.handleTxByte cursor value) (t.uart.terminalQuery ++ [value]) [] t.uart.rx.received
    else Moves t (t.handleTxByte cursor value) [value] t.uart.terminalQuery t.uart.rx.received) := by
  have hload : Plain (t.load value) := h.frame rfl rfl rfl rfl
  have hmcr : ¬(t.load value).uart.mcr &&& 0x10 ≠ 0 := not_not.mpr h.loopback
  have hq : (t.load value).uart.terminalQuery = t.uart.terminalQuery := rfl
  have hrx : (t.load value).uart.rx = t.uart.rx := rx_load
  simp only [handleTxByte, if_neg hmcr, hq, query_setQuery]
  split_ifs with hheld hpre heq
  · have hpass : ¬(((t.load value).setQuery (t.uart.terminalQuery ++ [value])).dsrPassthrough = true ∧
        ((t.load value).setQuery (t.uart.terminalQuery ++ [value])).outputIsConsole = true) := h.passthrough
    have htx := Uart.tx_enqueueRx ((t.load value).setQuery (t.uart.terminalQuery ++ [value])).uart
      (cursorPositionReport cursor)
    rw [answerQuery, if_neg hpass]
    refine ⟨_, Moves.sent ⟨(List.append_nil _).symm, rfl, rfl, ?_⟩, fun hroom => ?_⟩
    · exact h.frame (congrArg Prod.fst htx) (congrArg (fun x => x.2.1) htx) rfl rfl
    · rw [rx_setQuery]
      have hwait : ((t.load value).setQuery (t.uart.terminalQuery ++ [value])).uart.rx.received = t.uart.rx.received :=
        congrArg Uart.Rx.received hrx
      rw [← hwait] at hroom ⊢
      exact Uart.received_enqueueRx hroom
  · refine Moves.sent ⟨(List.append_nil _).symm, rfl, ?_, h.frame rfl rfl rfl rfl⟩
    rw [rx_setQuery, rx_load]
  · refine Moves.sent ⟨Console.emitted_emitTx, rfl, ?_, h.frame rfl rfl rfl rfl⟩
    exact congrArg Uart.Rx.received hrx
  · rw [transmitByte_eq hload]
    refine Moves.sent ⟨Console.emitted_emitTx, rfl, ?_, h.frame rfl rfl rfl rfl⟩
    exact congrArg Uart.Rx.received hrx

theorem line_filters : line.Filters Plain := by
  refine ⟨?_, ?_, ?_⟩
  · intro t b cursor f h hem hpen
    have hspec := handleTxByte_spec b cursor h
    simp only [line, act, Line.Reports] at hem hpen ⊢
    simp only [step, hpen]
    split_ifs at hspec ⊢ with hheld hpre heq
    · obtain ⟨received, hmoves, hroom⟩ := hspec
      rw [hmoves.emitted, hmoves.query, hmoves.received, List.append_nil]
      exact ⟨hem, rfl, fun hne => absurd rfl hne, fun _ => hroom⟩
    · rw [hspec.emitted, hspec.query, hspec.received, List.append_nil]
      exact ⟨hem, rfl, fun _ => rfl, fun hne => absurd hne (Nat.succ_ne_self _).symm⟩
    · rw [hspec.emitted, hspec.query, hspec.received, hem]
      exact ⟨rfl, rfl, fun _ => rfl, fun hne => absurd hne (Nat.succ_ne_self _).symm⟩
    · rw [hspec.emitted, hspec.query, hspec.received, hem]
      exact ⟨rfl, rfl, fun _ => rfl, fun hne => absurd hne (Nat.succ_ne_self _).symm⟩
  · rintro t (⟨b, cursor⟩ | data | offset) _ hsent
    · cases hsent
    · have htx := Uart.tx_enqueueRx t.uart data
      exact ⟨rfl, congrArg (fun x => x.2.2) htx⟩
    · have htx := Uart.tx_read t.uart offset
      exact ⟨rfl, congrArg (fun x => x.2.2) htx⟩
  · rintro t (⟨b, cursor⟩ | data | offset) h
    · have hspec := handleTxByte_spec b cursor h
      split_ifs at hspec
      · obtain ⟨_, hmoves, -⟩ := hspec
        exact hmoves.plain
      · exact hspec.plain
      · exact hspec.plain
      · exact hspec.plain
    · have htx := Uart.tx_enqueueRx t.uart data
      exact h.frame (congrArg Prod.fst htx) (congrArg (fun x => x.2.1) htx) rfl rfl
    · have htx := Uart.tx_read t.uart offset
      exact h.frame (congrArg Prod.fst htx) (congrArg (fun x => x.2.1) htx) rfl rfl

end Terminal
end Whp

/-- Every terminal query is removed and answered, unless one stands right behind an odd number of broken ones in a row:
    the byte that breaks a query is let through with it and is never the start of the next one. --/
theorem queries_removed_iff (ts : List Traffic) :
    (∀ u : Kvm.Uart, u.out.emitted = [] → u.terminalQuery = [] →
      (Kvm.Uart.line.Filtered u ts ↔ ¬Missed query (transmitted ts))) ∧
    (∀ t : Whp.Terminal, t.Plain → t.out.emitted = [] → t.uart.terminalQuery = [] →
      (Whp.Terminal.line.Filtered t ts ↔ ¬Missed query (transmitted ts))) ∧
    (∀ u : Hvf.Pl011Uart, u.echoStdout = false → u.emitted = [] → u.terminalQuery = [] →
      (Hvf.Pl011Uart.line.Filtered u ts ↔ ¬Missed query (transmitted ts))) :=
  ⟨fun _ => Kvm.Uart.line_filters.filtered_iff trivial, fun _ => Whp.Terminal.line_filters.filtered_iff,
    fun _ => Hvf.Pl011Uart.line_filters.filtered_iff⟩

def sends (s : List UInt8) : List Traffic := s.map fun b => .transmit b none

/-- A broken query and another byte before a query, and input of the host within it. --/
def mixedTraffic : List Traffic :=
  sends [0x1B, 0x5B, 0x41, 0x1B, 0x5B] ++ [.receive [0x78], .read 0] ++ sends [0x36, 0x6E, 0x42]

theorem mixedTraffic_filtered : Kvm.Uart.line.Filtered {} mixedTraffic ∧ Whp.Terminal.line.Filtered {} mixedTraffic ∧
    Hvf.Pl011Uart.line.Filtered {} mixedTraffic := by
  have hmissed : ¬Missed query (transmitted mixedTraffic) := Line.query_unique.run_iff.mp (by decide)
  obtain ⟨hkvm, hwhp, hhvf⟩ := queries_removed_iff mixedTraffic
  exact ⟨(hkvm {} rfl rfl).mpr hmissed, (hwhp {} ⟨rfl, rfl, by decide⟩ rfl rfl).mpr hmissed,
    (hhvf {} rfl rfl rfl).mpr hmissed⟩

/-- With an escape right before it, a query gets through. --/
theorem escaped_query_gets_through :
    ¬Kvm.Uart.line.Filtered {} (sends (0x1B :: query)) ∧ ¬Whp.Terminal.line.Filtered {} (sends (0x1B :: query)) ∧
      ¬Hvf.Pl011Uart.line.Filtered {} (sends (0x1B :: query)) :=
  ⟨fun h => absurd h.1 (by decide +kernel), fun h => absurd h.1 (by decide +kernel), fun h => absurd h.1 (by decide +kernel)⟩

/-! ### Markers -/

namespace Console
variable {c : Console} {p w part : List UInt8} {b : UInt8} {calls : List (List UInt8)}

/-- The fields of a marker are those of the matcher after the stream, which stops where it has been at the end. --/
structure Tracked (p w : List UInt8) (seen : Bool) (current : Nat) : Prop where
  seen_iff : seen = true ↔ StepBack.Seen p w
  current : seen = false → current = w.foldl (StepBack.advance p) 0

theorem tracked_nil (hp : p ≠ []) : Tracked p [] false 0 := by
  refine ⟨⟨fun h => absurd h Bool.false_ne_true, ?_⟩, fun _ => rfl⟩
  rintro ⟨v, hv, heq⟩
  rw [List.prefix_nil.mp hv] at heq
  exact absurd (List.length_eq_zero_iff.mp heq.symm) hp

theorem Tracked.step {seen : Bool} {current : Nat} (h : Tracked p w seen current) :
    Tracked p (w ++ [b]) (if seen then seen else decide (advanceMatch p current b = p.length))
      (if seen then current else advanceMatch p current b) := by
  cases seen with
  | true =>
    obtain ⟨v, hv, heq⟩ := h.seen_iff.mp rfl
    exact ⟨iff_of_true rfl ⟨v, hv.trans (List.prefix_append w [b]), heq⟩, fun hcontra => absurd hcontra.symm Bool.false_ne_true⟩
  | false =>
    have hnot : ¬StepBack.Seen p w := mt h.seen_iff.mpr Bool.false_ne_true
    have hnext : advanceMatch p current b = (w ++ [b]).foldl (StepBack.advance p) 0 := by
      rw [List.foldl_concat, ← h.current rfl]
      rfl
    rw [if_neg Bool.false_ne_true, if_neg Bool.false_ne_true, hnext]
    refine ⟨⟨fun hseen => ⟨_, List.prefix_refl _, of_decide_eq_true hseen⟩, ?_⟩, fun _ => rfl⟩
    rintro ⟨v, hv, heq⟩
    rcases List.prefix_concat_iff.mp hv with rfl | hshort
    · exact decide_eq_true heq
    · exact absurd ⟨v, hshort, heq⟩ hnot

/-- Both markers are tracked. --/
structure Tracks (c : Console) (w : List UInt8) : Prop where
  halted : Tracked kHalted w c.haltedSeen c.haltedMatch
  restarting : Tracked kRestarting w c.restartingSeen c.restartingMatch

theorem Tracks.trackByte (h : c.Tracks w) : (c.trackByte b).Tracks (w ++ [b]) := by
  have hhalted := h.halted.step (b := b)
  have hrestarting := h.restarting.step (b := b)
  simp only [Console.trackByte]
  constructor
  · split_ifs at hhalted ⊢ <;> exact hhalted
  · split_ifs at hrestarting ⊢ <;> exact hrestarting

theorem Tracks.trackConsoleMarkers (part : List UInt8) (h : c.Tracks w) : (c.trackConsoleMarkers part).Tracks (w ++ part) := by
  induction part generalizing c w with
  | nil =>
    rw [List.append_nil]
    exact h
  | cons b part ih =>
    rw [List.append_cons]
    exact ih h.trackByte

/-- The limit of the console and the writing to standard output have no part in it. --/
theorem Tracks.emitTx (h : c.Tracks w) : (c.emitTx part).Tracks (w ++ part) := by
  rcases eq_or_ne part [] with rfl | hne
  · rw [Console.emitTx, if_pos rfl, List.append_nil]
    exact h
  · simp only [Console.emitTx, if_neg hne]
    obtain ⟨hhalted, hrestarting⟩ := h.trackConsoleMarkers part
    split_ifs
    · exact ⟨hhalted, hrestarting⟩
    · exact ⟨hhalted, hrestarting⟩

/-- A needle that is no marker is found exactly where the console has it. --/
theorem contains_iff (hhalted : p ≠ kHalted) (hrestarting : p ≠ kRestarting) : c.contains p = true ↔ p <:+: c.console := by
  rw [contains, if_neg hhalted, if_neg hrestarting, List.any_eq_true]
  constructor
  · rintro ⟨t, ht, hpre⟩
    exact (List.isPrefixOf_iff_prefix.mp hpre).isInfix.trans ((List.mem_tails _ _).mp ht).isInfix
  · rintro ⟨x, y, hxy⟩
    refine ⟨p ++ y, (List.mem_tails _ _).mpr ⟨x, ?_⟩, List.isPrefixOf_iff_prefix.mpr (List.prefix_append p y)⟩
    rw [← hxy, List.append_assoc]

/-- The start of a console, for the markers. --/
structure Unmarked (c : Console) : Prop where
  haltedSeen : c.haltedSeen = false
  haltedMatch : c.haltedMatch = 0
  restartingSeen : c.restartingSeen = false
  restartingMatch : c.restartingMatch = 0

theorem Unmarked.tracks (h : c.Unmarked) : c.Tracks [] := by
  constructor
  · rw [h.haltedSeen, h.haltedMatch]
    exact tracked_nil (by decide)
  · rw [h.restartingSeen, h.restartingMatch]
    exact tracked_nil (by decide)

/-- The markers that have been seen are those that the stream contains. --/
def Exact (c : Console) (w : List UInt8) : Prop :=
  (c.haltedSeen = true ↔ kHalted <:+: w) ∧ (c.restartingSeen = true ↔ kRestarting <:+: w)

/-- Who steps through a marker, also with bytes of it again, comes by the marker itself. --/
def Straight (w : List UInt8) : Prop :=
  ∀ v, v <+: w → ∀ p ∈ [kHalted, kRestarting], (∃ s, s <:+: v ∧ StepBack.Walk p s p.length) → p <:+: v

theorem Tracked.contains_iff {seen : Bool} {current : Nat} (h : Tracked p w seen current) (hp : p ≠ []) :
    (seen = true ↔ p <:+: w) ↔ ((∃ s, s <:+: w ∧ StepBack.Walk p s p.length) → p <:+: w) := by
  rw [h.seen_iff, ← StepBack.seen_iff hp]
  exact ⟨fun hiff => hiff.mp, fun himp => ⟨himp, StepBack.seen_of_occurrence hp⟩⟩

theorem Tracks.exact_iff (h : c.Tracks w) : c.Exact w ↔
    ∀ p ∈ [kHalted, kRestarting], (∃ s, s <:+: w ∧ StepBack.Walk p s p.length) → p <:+: w := by
  rw [Exact, h.halted.contains_iff (by decide), h.restarting.contains_iff (by decide)]
  simp

/-- A part of the stream is some calls and the start of one more. --/
theorem exists_call (hw : w <+: calls.flatten) (hne : w ≠ []) :
    ∃ done part rest more, calls = done ++ (part ++ rest) :: more ∧ w = done.flatten ++ part := by
  induction calls generalizing w with
  | nil => exact absurd (List.prefix_nil.mp hw) hne
  | cons call calls ih =>
    rcases List.prefix_or_prefix_of_prefix hw (List.prefix_append call calls.flatten) with ⟨rest, rfl⟩ | ⟨v, rfl⟩
    · exact ⟨[], w, rest, calls, rfl, rfl⟩
    · have hv : v <+: calls.flatten := (List.prefix_append_right_inj call).mp hw
      rcases eq_or_ne v [] with rfl | hvne
      · exact ⟨[], call, [], calls, by simp, by simp⟩
      · obtain ⟨done, part, rest, more, rfl, rfl⟩ := ih hv hvne
        exact ⟨call :: done, part, rest, more, rfl, by simp⟩

/-- The matcher itself tells whether it comes by a marker that is not there. --/
theorem straight_of_inits (h : ∀ v ∈ w.inits, ∀ p ∈ [kHalted, kRestarting],
    v.foldl (StepBack.advance p) 0 = p.length → p <:+: v) : Straight w := by
  intro v hv p hp hwalk
  have hne : p ≠ [] := (by decide : ∀ p ∈ [kHalted, kRestarting], p ≠ []) p hp
  obtain ⟨u, hu, heq⟩ := (StepBack.seen_iff hne).mpr hwalk
  exact (h u ((List.mem_inits _ _).mpr (hu.trans hv)) p hp heq).trans hu.isInfix

section Port
variable {σ : Type} {emit : σ → List UInt8 → σ} {out : σ → Console} {s : σ}

/-- After each byte of each call, what has been seen is what the stream so far contains. --/
def ExactThroughout (emit : σ → List UInt8 → σ) (out : σ → Console) (s : σ) (calls : List (List UInt8)) : Prop :=
  ∀ done part rest more, calls = done ++ (part ++ rest) :: more →
    ((out (done.foldl emit s)).trackConsoleMarkers part).Exact (done.flatten ++ part)

theorem Tracks.foldl (hemit : ∀ s bytes, out (emit s bytes) = (out s).emitTx bytes) {done : List (List UInt8)} :
    (out s).Tracks w → (out (done.foldl emit s)).Tracks (w ++ done.flatten) := by
  induction done generalizing s w with
  | nil =>
    intro h
    simpa using h
  | cons call done ih =>
    intro h
    rw [List.flatten_cons, ← List.append_assoc]
    refine ih ?_
    rw [hemit]
    exact h.emitTx

theorem exactThroughout_iff (hemit : ∀ s bytes, out (emit s bytes) = (out s).emitTx bytes) (h : (out s).Unmarked) :
    ExactThroughout emit out s calls ↔ Straight calls.flatten := by
  have htracks : ∀ (done : List (List UInt8)) (part : List UInt8), ((out (done.foldl emit s)).trackConsoleMarkers part).Tracks (done.flatten ++ part) :=
    fun done part => (Tracks.foldl hemit h.tracks).trackConsoleMarkers part
  constructor
  · intro hexact v hv
    rcases eq_or_ne v [] with rfl | hne
    · rintro p - ⟨s, hs, hwalk⟩
      exact absurd (List.infix_nil.mp hs) hwalk.ne_nil
    · obtain ⟨done, part, rest, more, hcalls, rfl⟩ := exists_call hv hne
      exact (htracks done part).exact_iff.mp (hexact done part rest more hcalls)
  · rintro hstraight done part rest more rfl
    refine (htracks done part).exact_iff.mpr (hstraight _ ?_)
    rw [List.flatten_append, List.flatten_cons, List.append_assoc]
    exact (List.prefix_append_right_inj _).mpr (List.prefix_append part _)

end Port
end Console

/-- The markers that have been seen are at every byte those that the console's stream contains, unless the stream steps
    through a marker with bytes of it again: the matcher takes a byte it has had before as the end of a shorter match. --/
theorem markers_exact_iff (calls : List (List UInt8)) :
    (∀ u : Kvm.Uart, u.out.Unmarked →
      (Console.ExactThroughout (fun u bytes => Kvm.Uart.emitTx bytes u) Kvm.Uart.out u calls ↔
        Console.Straight calls.flatten)) ∧
    (∀ t : Whp.Terminal, t.out.Unmarked →
      (Console.ExactThroughout (fun t bytes => Whp.Terminal.emitTx bytes t) Whp.Terminal.out t calls ↔
        Console.Straight calls.flatten)) :=
  ⟨fun _ => Console.exactThroughout_iff fun _ _ => rfl, fun _ => Console.exactThroughout_iff fun _ _ => rfl⟩

/-- A marker with the start of another one before it, over two calls, with a console that takes eight bytes. --/
theorem markers_exact_split :
    Console.ExactThroughout (fun u bytes => Kvm.Uart.emitTx bytes u) Kvm.Uart.out { out := { limit := 8 } }
        [ascii "reboot: Sysreboot: Sys", ascii "tem halted"] ∧
      Console.ExactThroughout (fun t bytes => Whp.Terminal.emitTx bytes t) Whp.Terminal.out { out := { limit := 8 } }
        [ascii "reboot: Sysreboot: Sys", ascii "tem halted"] := by
  have hstraight : Console.Straight [ascii "reboot: Sysreboot: Sys", ascii "tem halted"].flatten :=
    Console.straight_of_inits (by decide +kernel)
  obtain ⟨hkvm, hwhp⟩ := markers_exact_iff [ascii "reboot: Sysreboot: Sys", ascii "tem halted"]
  exact ⟨(hkvm { out := { limit := 8 } } ⟨rfl, rfl, rfl, rfl⟩).mpr hstraight,
    (hwhp { out := { limit := 8 } } ⟨rfl, rfl, rfl, rfl⟩).mpr hstraight⟩

/-- A letter twice, and the system is taken for halted. --/
theorem halted_seen_too_soon :
    ¬Console.ExactThroughout (fun u bytes => Kvm.Uart.emitTx bytes u) Kvm.Uart.out {} [ascii "reboot: System halteed"] ∧
      ¬Console.ExactThroughout (fun t bytes => Whp.Terminal.emitTx bytes t) Whp.Terminal.out {}
        [ascii "reboot: System halteed"] := by
  have hfalse : ¬(({} : Console).trackConsoleMarkers (ascii "reboot: System halteed")).Exact
      (ascii "reboot: System halteed") := fun h => absurd h.1 (by decide +kernel)
  exact ⟨fun h => hfalse (h [] (ascii "reboot: System halteed") [] [] rfl),
    fun h => hfalse (h [] (ascii "reboot: System halteed") [] [] rfl)⟩

end NodeVmm
