import NodeVmm.Lib.FlagLock
import NodeVmm.Lib.Runs
import NodeVmm.Theorems.WhpDeliver
import NodeVmm.WhpRx

/-! The backlog of received frames. Frames leave it in the order in which they came, each once, since one thread at a
    time holds the flush flag. A notify that finds the flag returns at once; if the holder has just failed to deliver
    and not cleared the flag yet, nobody looks at the backlog again, although the guest has posted buffers. -/

namespace NodeVmm.Whp

/-- The thread is between setting `rx_flush_active_` and clearing it. --/
def NetLoc.flushing : NetLoc → Bool
  | .flush .start => false
  | .flush _ => true
  | _ => false

/-- The thread has delivered the packet at the front of the backlog. --/
def NetLoc.popping : NetLoc → Bool
  | .flush (.pop _) => true
  | _ => false

/-- The thread has yet to look at the backlog, before it leaves the RX path. --/
def NetLoc.willLook : NetLoc → Bool
  | .idle => false
  | .flush .failed => false
  | _ => true

/-- What the thread knows of the backlog. --/
def NetLoc.Knows (backlog : List Packet) : NetLoc → Prop
  | .direct _ _ => backlog = []
  | .flush (.deliver packet _) => backlog.head? = some packet
  | .flush (.pop packet) => backlog.head? = some packet
  | .flush .failed => backlog ≠ []
  | _ => True

/-- The locations of vCPU threads. --/
def NetLoc.OfVcpu : NetLoc → Prop
  | .idle => True
  | .flush _ => True
  | _ => False

namespace RxPath
variable {n : Nat} {s s' : RxPath n} {t u : NetThread n} {e : Event n} {frame packet : Packet}

/-! ### What a step does -/

/-- A device on which a delivery has taken a step. --/
structure Delivering (net net' : VirtioNet) : Prop where
  backlog : net'.rxBacklog = net.rxBacklog
  active : net'.rxFlushActive = net.rxFlushActive

theorem delivering_takeHead (net : VirtioNet) : Delivering net net.takeHead.2 := by
  unfold VirtioNet.takeHead
  split
  · exact ⟨rfl, rfl⟩
  · split <;> exact ⟨rfl, rfl⟩

theorem delivering_publishUsed (descIdx : UInt16) (size : Nat) (net : VirtioNet) :
    Delivering net (VirtioNet.publishUsed descIdx size net).2 := by
  unfold VirtioNet.publishUsed
  split <;> exact ⟨rfl, rfl⟩

theorem delivering_raiseUsedBufferIrq (net : VirtioNet) : Delivering net net.raiseUsedBufferIrq := by
  unfold VirtioNet.raiseUsedBufferIrq
  split
  · exact ⟨rfl, rfl⟩
  · split <;> exact ⟨rfl, rfl⟩

theorem delivering_deliverStep (frame : Packet) (loc : VirtioNet.DeliverLoc) (net : VirtioNet) :
    Delivering net (VirtioNet.deliverStep frame loc net).2 := by
  cases loc with
  | take =>
    have htake := delivering_takeHead net
    rw [VirtioNet.deliverStep]
    split
    · exact ⟨rfl, rfl⟩
    · split
      all_goals
        rename_i heq
        rw [heq] at htake
        exact htake
  | fill descIdx queueNum descAddr => exact ⟨rfl, rfl⟩
  | publish descIdx size =>
    have hpublish := delivering_publishUsed descIdx size net
    rw [VirtioNet.deliverStep]
    split
    all_goals
      rename_i heq
      rw [heq] at hpublish
      exact hpublish
  | irq => exact delivering_raiseUsedBufferIrq net

/-- A delivery fails only where there is no buffer. --/
theorem deliverStep_failed {loc : VirtioNet.DeliverLoc} {net net' : VirtioNet}
    (h : VirtioNet.deliverStep frame loc net = (.done false, net')) : net.rxAvailable = false ∧ net' = net := by
  cases loc with
  | take =>
    rw [VirtioNet.deliverStep] at h
    split at h
    · cases h
    · cases havail : net.rxAvailable with
      | false =>
        rw [VirtioNet.takeHead, if_pos (by rw [havail]; rfl)] at h
        cases h
        exact ⟨rfl, rfl⟩
      | true =>
        rw [VirtioNet.takeHead_of_available havail] at h
        split at h
        · rename_i heq
          split at heq <;> cases heq
        · cases h
        · cases h
  | fill descIdx queueNum descAddr =>
    rw [VirtioNet.deliverStep] at h
    split at h <;> cases h
  | publish descIdx size =>
    rw [VirtioNet.deliverStep] at h
    split at h <;> cases h
  | irq => cases h

/-- What the next step of thread `t` does. --/
inductive Ran (s : RxPath n) (t : NetThread n) : RxPath n → Prop
  | direct {frame : Packet} (hloc : s.locs t = .arrived frame) (hempty : s.net.rxBacklog = []) :
    Ran s t (s.goto t (.direct frame .take))
  | behind {frame : Packet} (hloc : s.locs t = .arrived frame) : Ran s t (s.goto t (.enqueue frame))
  | directStep {frame : Packet} {loc loc' : VirtioNet.DeliverLoc} {net : VirtioNet} (hloc : s.locs t = .direct frame loc)
    (hnet : Delivering s.net net) : Ran s t ((s.setNet net).goto t (.direct frame loc'))
  | directDone {frame : Packet} {loc : VirtioNet.DeliverLoc} {net : VirtioNet} (hloc : s.locs t = .direct frame loc)
    (hnet : Delivering s.net net) : Ran s t ((((s.setNet net).accept frame).handle frame).goto t (.flush .start))
  | directFailed {frame : Packet} {loc : VirtioNet.DeliverLoc} (hloc : s.locs t = .direct frame loc) :
    Ran s t (s.goto t (.enqueue frame))
  | enqueue {frame : Packet} (hloc : s.locs t = .enqueue frame) : Ran s t ((s.pushBacklog frame).goto t (.flush .start))
  | returns (hloc : s.locs t = .flush .start) (hactive : s.net.rxFlushActive = true) : Ran s t (s.goto t .idle)
  | enters (hloc : s.locs t = .flush .start) (hclear : s.net.rxFlushActive = false) :
    Ran s t ((s.setFlushActive true).goto t (.flush .look))
  | empty (hloc : s.locs t = .flush .look) (hempty : s.net.rxBacklog = []) : Ran s t ((s.setFlushActive false).goto t .idle)
  | front {packet : Packet} (hloc : s.locs t = .flush .look) (hfront : s.net.rxBacklog.head? = some packet) :
    Ran s t (s.goto t (.flush (.deliver packet .take)))
  | deliverStep {packet : Packet} {loc loc' : VirtioNet.DeliverLoc} {net : VirtioNet}
    (hloc : s.locs t = .flush (.deliver packet loc)) (hnet : Delivering s.net net) :
    Ran s t ((s.setNet net).goto t (.flush (.deliver packet loc')))
  | deliverDone {packet : Packet} {loc : VirtioNet.DeliverLoc} {net : VirtioNet}
    (hloc : s.locs t = .flush (.deliver packet loc)) (hnet : Delivering s.net net) :
    Ran s t (((s.setNet net).handle packet).goto t (.flush (.pop packet)))
  | fails {packet : Packet} {loc : VirtioNet.DeliverLoc} (hloc : s.locs t = .flush (.deliver packet loc))
    (hnone : s.net.rxAvailable = false) : Ran s t (s.goto t (.flush .failed))
  | gives (hloc : s.locs t = .flush .failed) : Ran s t ((s.setFlushActive false).goto t .idle)
  | pops {packet : Packet} (hloc : s.locs t = .flush (.pop packet)) : Ran s t (s.popBacklog.goto t (.flush .look))

theorem ran_of_run (h : s.run t = some s') : Ran s t s' := by
  cases hloc : s.locs t with
  | idle =>
    rw [run, hloc] at h
    cases h
  | arrived frame =>
    simp only [run, hloc] at h
    split at h
    · rename_i hempty
      cases h
      exact .direct hloc hempty
    · cases h
      exact .behind hloc
  | direct frame loc =>
    have hnet := delivering_deliverStep frame loc s.net
    simp only [run, hloc] at h
    split at h
    · rename_i heq
      rw [heq] at hnet
      cases h
      exact .directStep hloc hnet
    · rename_i heq
      rw [heq] at hnet
      cases h
      exact .directDone hloc hnet
    · rename_i heq
      obtain ⟨-, rfl⟩ := deliverStep_failed heq
      cases h
      exact .directFailed hloc
  | enqueue frame =>
    simp only [run, hloc] at h
    cases h
    exact .enqueue hloc
  | flush loc =>
    simp only [run, hloc] at h
    cases h
    cases loc with
    | start =>
      rw [flushStep]
      split
      · rename_i hactive
        exact .returns hloc hactive
      · rename_i hclear
        exact .enters hloc (Bool.eq_false_iff.mpr hclear)
    | look =>
      rw [flushStep]
      split
      · rename_i hempty
        exact .empty hloc hempty
      · rename_i hcons
        exact .front hloc (by rw [hcons]; rfl)
    | deliver packet loc =>
      have hnet := delivering_deliverStep packet loc s.net
      rw [flushStep]
      split
      · rename_i heq
        rw [heq] at hnet
        exact .deliverStep hloc hnet
      · rename_i heq
        rw [heq] at hnet
        exact .deliverDone hloc hnet
      · rename_i heq
        obtain ⟨hnone, rfl⟩ := deliverStep_failed heq
        exact .fails hloc hnone
    | failed => exact .gives hloc
    | pop packet => exact .pops hloc

/-! ### The order of the frames -/

/-- The flag is held by one thread, and each thread knows of the backlog what it relies on. --/
structure Ordered (s : RxPath n) : Prop where
  flag : FlagLock.Owned NetLoc.flushing s.locs s.net.rxFlushActive
  vcpu : ∀ i, (s.locs (some i)).OfVcpu
  knows : ∀ t, (s.locs t).Knows s.net.rxBacklog
  waits : (∀ t, (s.locs t).popping = false) → s.accepted = s.handled ++ s.net.rxBacklog
  popped : ∀ t, (s.locs t).popping = true → s.accepted = s.handled ++ s.net.rxBacklog.tail

theorem flushing_of_popping {loc : NetLoc} (h : loc.popping = true) : loc.flushing = true := by
  cases loc with
  | flush loc => cases loc <;> first | rfl | exact nomatch h
  | _ => cases h

/-- The slirp thread is the one with a frame of its own. --/
theorem Ordered.slirp (h : Ordered s) (hloc : ¬(s.locs t).OfVcpu) : t = none := by
  cases t with
  | none => rfl
  | some i => exact absurd (h.vcpu i) hloc

/-- While a frame is delivered at once, nothing has been taken from the backlog. --/
theorem Ordered.not_popping (h : Ordered s) (hempty : s.net.rxBacklog = []) (u : NetThread n) :
    (s.locs u).popping = false := by
  refine Bool.eq_false_iff.mpr fun hpop => ?_
  have hknows := h.knows u
  cases hloc : s.locs u with
  | flush loc =>
    rw [hloc] at hpop hknows
    cases loc with
    | pop packet =>
      have hhead : s.net.rxBacklog.head? = some packet := hknows
      rw [hempty] at hhead
      cases hhead
    | _ => cases hpop
  | _ =>
    rw [hloc] at hpop
    cases hpop

/-- The rule for a step of one thread. --/
theorem Ordered.moves (h : Ordered s) {loc : NetLoc} (hlocs : s'.locs = Function.update s.locs t loc)
    (hflag : FlagLock.Owned NetLoc.flushing (Function.update s.locs t loc) s'.net.rxFlushActive)
    (hvcpu : t ≠ none → loc.OfVcpu) (hknows : loc.Knows s'.net.rxBacklog)
    (hothers : ∀ u, u ≠ t → (s.locs u).Knows s'.net.rxBacklog)
    (hwaits : (∀ u, u ≠ t → (s.locs u).popping = false) → loc.popping = false → s'.accepted = s'.handled ++ s'.net.rxBacklog)
    (hpopped : loc.popping = true ∨ (∃ u, u ≠ t ∧ (s.locs u).popping = true) → s'.accepted = s'.handled ++ s'.net.rxBacklog.tail) :
    Ordered s' := by
  refine ⟨by rw [hlocs]; exact hflag, fun i => ?_, fun u => ?_, fun hnone => ?_, fun u hu => ?_⟩
  · rw [hlocs]
    by_cases hi : some i = t
    · rw [hi, Function.update_self]
      exact hvcpu (hi ▸ nofun)
    · rw [Function.update_of_ne hi]
      exact h.vcpu i
  · rw [hlocs]
    by_cases hu : u = t
    · rw [hu, Function.update_self]
      exact hknows
    · rw [Function.update_of_ne hu]
      exact hothers u hu
  · rw [hlocs] at hnone
    refine hwaits (fun u hu => ?_) ?_
    · rw [← Function.update_of_ne hu loc s.locs]
      exact hnone u
    · rw [← Function.update_self t loc s.locs]
      exact hnone t
  · rw [hlocs] at hu
    by_cases hut : u = t
    · rw [hut, Function.update_self] at hu
      exact hpopped (Or.inl hu)
    · rw [Function.update_of_ne hut] at hu
      exact hpopped (Or.inr ⟨u, hut, hu⟩)

/-- A step that leaves the frames where they are. --/
theorem Ordered.goto (h : Ordered s) {loc : NetLoc} (hlocs : s'.locs = Function.update s.locs t loc)
    (hframes : s'.net.rxBacklog = s.net.rxBacklog ∧ s'.accepted = s.accepted ∧ s'.handled = s.handled)
    (hflag : FlagLock.Owned NetLoc.flushing (Function.update s.locs t loc) s'.net.rxFlushActive)
    (hvcpu : t ≠ none → loc.OfVcpu) (hknows : loc.Knows s.net.rxBacklog) (hpop : loc.popping = (s.locs t).popping) :
    Ordered s' := by
  obtain ⟨hbacklog, haccepted, hhandled⟩ := hframes
  refine h.moves hlocs hflag hvcpu (hbacklog ▸ hknows) (fun u _ => hbacklog ▸ h.knows u) (fun hnone hloc => ?_) fun hsome => ?_
  · rw [haccepted, hhandled, hbacklog]
    refine h.waits fun u => ?_
    by_cases hu : u = t
    · rw [hu, ← hpop, hloc]
    · exact hnone u hu
  · rw [haccepted, hhandled, hbacklog]
    rcases hsome with hloc | ⟨u, -, hu⟩
    · exact h.popped t (hpop ▸ hloc)
    · exact h.popped u hu

theorem Ordered.guest (h : Ordered s) (stores : List GuestStore) : Ordered (s.guestStores stores) :=
  ⟨h.flag, h.vcpu, h.knows, h.waits, h.popped⟩

/-- A step of the slirp thread with a frame of its own. --/
theorem Ordered.slirpGoto (h : Ordered s) {loc loc' : NetLoc} (hloc : s.locs t = loc) (hown : ¬loc.OfVcpu)
    (hlocs : s'.locs = Function.update s.locs t loc') (hnet : Delivering s.net s'.net)
    (hsame : s'.accepted = s.accepted ∧ s'.handled = s.handled) (hknows : loc'.Knows s.net.rxBacklog)
    (hout : loc.flushing = false ∧ loc'.flushing = false) (hpop : loc.popping = false ∧ loc'.popping = false) : Ordered s' := by
  subst hloc
  refine h.goto hlocs ⟨hnet.backlog, hsame⟩ ?_ (fun ht => absurd (h.slirp hown) ht) hknows (hpop.2.trans hpop.1.symm)
  rw [hnet.active]
  exact h.flag.move (hout.2.trans hout.1.symm)

/-- No thread is about to pop. --/
theorem Ordered.accepted_eq (h : Ordered s) (hself : (s.locs t).popping = false)
    (hnone : ∀ u, u ≠ t → (s.locs u).popping = false) : s.accepted = s.handled ++ s.net.rxBacklog := by
  refine h.waits fun u => ?_
  by_cases hu : u = t
  · rw [hu]
    exact hself
  · exact hnone u hu

/-- While a thread is flushing, no other one is about to pop. --/
theorem Ordered.others_popping (h : Ordered s) (ht : (s.locs t).flushing = true) (u : NetThread n) (hu : u ≠ t) :
    (s.locs u).popping = false := by
  refine Bool.eq_false_iff.mpr fun hpop => ?_
  exact absurd ((h.flag.others ht hu).symm.trans (flushing_of_popping hpop)) nofun

theorem knows_append {loc : NetLoc} {backlog : List Packet} (hvcpu : loc.OfVcpu) (h : loc.Knows backlog) (frame : Packet) :
    loc.Knows (backlog ++ [frame]) := by
  cases loc with
  | flush loc =>
    cases loc with
    | deliver packet _ | pop packet =>
      have hfront : backlog.head? = some packet := h
      show (backlog ++ [frame]).head? = some packet
      rw [List.head?_append, hfront]
      rfl
    | failed => exact List.append_ne_nil_of_left_ne_nil h _
    | _ => trivial
  | direct frame loc => exact absurd hvcpu id
  | _ => trivial

theorem knows_of_not_flushing {loc : NetLoc} {backlog backlog' : List Packet} (hout : loc.flushing = false)
    (hempty : backlog ≠ []) (h : loc.Knows backlog) : loc.Knows backlog' := by
  cases loc with
  | flush loc =>
    cases loc with
    | start => trivial
    | _ => cases hout
  | direct frame loc => exact absurd h hempty
  | _ => trivial

theorem Ordered.enqueue (h : Ordered s) (hloc : s.locs t = .enqueue frame) :
    Ordered ((s.pushBacklog frame).goto t (.flush .start)) := by
  have hslirp : t = none := h.slirp (by rw [hloc]; exact id)
  have hflag : FlagLock.Owned NetLoc.flushing (Function.update s.locs t (.flush .start)) s.net.rxFlushActive :=
    h.flag.move (by rw [hloc]; rfl)
  have hself : (s.locs t).popping = false := by
    rw [hloc]
    rfl
  by_cases hroom : s.net.rxBacklog.length < rxBacklogLimit
  · simp only [pushBacklog, if_pos hroom]
    refine h.moves rfl hflag (fun _ => trivial) trivial (fun u hu => ?_) (fun hnone _ => ?_) fun hsome => ?_
    · cases u with
      | none => exact absurd hslirp.symm hu
      | some i => exact knows_append (h.vcpu i) (h.knows _) frame
    · show s.accepted ++ [frame] = s.handled ++ (s.net.rxBacklog ++ [frame])
      rw [h.accepted_eq hself hnone, List.append_assoc]
    · rcases hsome with hpop | ⟨u, -, hu⟩
      · cases hpop
      · show s.accepted ++ [frame] = s.handled ++ (s.net.rxBacklog ++ [frame]).tail
        have hne : s.net.rxBacklog ≠ [] := fun hempty => absurd (hu.symm.trans (h.not_popping hempty u)) nofun
        rw [h.popped u hu, List.tail_append_of_ne_nil hne, List.append_assoc]
  · simp only [pushBacklog, if_neg hroom]
    exact h.goto rfl ⟨rfl, rfl, rfl⟩ hflag (fun _ => trivial) trivial (by rw [hloc]; rfl)

theorem Ran.ordered (hran : Ran s t s') (h : Ordered s) : Ordered s' := by
  cases hran with
  | direct hloc hempty => exact h.slirpGoto hloc id rfl ⟨rfl, rfl⟩ ⟨rfl, rfl⟩ hempty ⟨rfl, rfl⟩ ⟨rfl, rfl⟩
  | behind hloc => exact h.slirpGoto hloc id rfl ⟨rfl, rfl⟩ ⟨rfl, rfl⟩ trivial ⟨rfl, rfl⟩ ⟨rfl, rfl⟩
  | @directStep frame loc loc' net hloc hnet =>
    have hempty := h.knows t
    rw [hloc] at hempty
    have hknows : NetLoc.Knows s.net.rxBacklog (.direct frame loc') := hempty
    exact h.slirpGoto hloc id rfl hnet ⟨rfl, rfl⟩ hknows ⟨rfl, rfl⟩ ⟨rfl, rfl⟩
  | directFailed hloc => exact h.slirpGoto hloc id rfl ⟨rfl, rfl⟩ ⟨rfl, rfl⟩ trivial ⟨rfl, rfl⟩ ⟨rfl, rfl⟩
  | @directDone frame loc net hloc hnet =>
    have hempty := h.knows t
    rw [hloc] at hempty
    have hempty : s.net.rxBacklog = [] := hempty
    have hflag : FlagLock.Owned NetLoc.flushing (Function.update s.locs t (.flush .start)) net.rxFlushActive :=
      hnet.active ▸ h.flag.move (by rw [hloc]; rfl)
    refine h.moves rfl hflag (fun _ => trivial) trivial (fun u _ => ?_) (fun _ _ => ?_) fun hsome => ?_
    · show NetLoc.Knows net.rxBacklog (s.locs u)
      rw [hnet.backlog]
      exact h.knows u
    · show s.accepted ++ [frame] = s.handled ++ [frame] ++ net.rxBacklog
      rw [hnet.backlog, hempty, List.append_nil, h.waits (h.not_popping hempty), hempty, List.append_nil]
    · rcases hsome with hpop | ⟨u, -, hu⟩
      · cases hpop
      · exact absurd (hu.symm.trans (h.not_popping hempty u)) nofun
  | enqueue hloc => exact h.enqueue hloc
  | returns hloc hactive =>
    exact h.goto rfl ⟨rfl, rfl, rfl⟩ (h.flag.move (by rw [hloc]; rfl)) (fun _ => trivial) trivial (by rw [hloc]; rfl)
  | enters hloc hclear =>
    refine h.goto rfl ⟨rfl, rfl, rfl⟩ ?_ (fun _ => trivial) trivial (by rw [hloc]; rfl)
    have hflag := h.flag
    rw [hclear] at hflag
    exact hflag.acquire rfl
  | empty hloc hempty =>
    exact h.goto rfl ⟨rfl, rfl, rfl⟩ (h.flag.release (by rw [hloc]; rfl) rfl) (fun _ => trivial) trivial (by rw [hloc]; rfl)
  | front hloc hfront =>
    exact h.goto rfl ⟨rfl, rfl, rfl⟩ (h.flag.move (by rw [hloc]; rfl)) (fun _ => trivial) hfront (by rw [hloc]; rfl)
  | @deliverStep packet loc loc' net hloc hnet =>
    have hfront := h.knows t
    rw [hloc] at hfront
    have hknows : NetLoc.Knows s.net.rxBacklog (.flush (.deliver packet loc')) := hfront
    exact h.goto rfl ⟨hnet.backlog, rfl, rfl⟩ (hnet.active ▸ h.flag.move (by rw [hloc]; rfl)) (fun _ => trivial) hknows
      (by rw [hloc]; rfl)
  | @deliverDone packet loc net hloc hnet =>
    have hfront := h.knows t
    rw [hloc] at hfront
    have hfront : s.net.rxBacklog.head? = some packet := hfront
    have hflushing : (s.locs t).flushing = true := by
      rw [hloc]
      rfl
    have hflag : FlagLock.Owned NetLoc.flushing (Function.update s.locs t (.flush (.pop packet))) net.rxFlushActive :=
      hnet.active ▸ h.flag.move (by rw [hloc]; rfl)
    refine h.moves rfl hflag (fun _ => trivial) (hnet.backlog ▸ hfront) (fun u _ => ?_) (fun _ hpop => nomatch hpop) fun _ => ?_
    · show NetLoc.Knows net.rxBacklog (s.locs u)
      rw [hnet.backlog]
      exact h.knows u
    · show s.accepted = s.handled ++ [packet] ++ net.rxBacklog.tail
      obtain ⟨rest, hrest⟩ := List.head?_eq_some_iff.mp hfront
      rw [hnet.backlog, h.accepted_eq (t := t) (by rw [hloc]; rfl) (h.others_popping hflushing), List.append_assoc, hrest]
      rfl
  | fails hloc hnone =>
    have hfront := h.knows t
    rw [hloc] at hfront
    refine h.goto rfl ⟨rfl, rfl, rfl⟩ (h.flag.move (by rw [hloc]; rfl)) (fun _ => trivial) ?_ (by rw [hloc]; rfl)
    intro hempty
    have hfront : s.net.rxBacklog.head? = some _ := hfront
    rw [hempty] at hfront
    cases hfront
  | gives hloc =>
    exact h.goto rfl ⟨rfl, rfl, rfl⟩ (h.flag.release (by rw [hloc]; rfl) rfl) (fun _ => trivial) trivial (by rw [hloc]; rfl)
  | @pops packet hloc =>
    have hflushing : (s.locs t).flushing = true := by
      rw [hloc]
      rfl
    have hpopping : (s.locs t).popping = true := by
      rw [hloc]
      rfl
    have hne : s.net.rxBacklog ≠ [] := fun hempty => absurd (hpopping.symm.trans (h.not_popping hempty t)) nofun
    refine h.moves rfl (h.flag.move (by rw [hloc]; rfl)) (fun _ => trivial) trivial (fun u hu => ?_) (fun _ _ => ?_) fun hsome => ?_
    · exact knows_of_not_flushing (h.flag.others hflushing hu) hne (h.knows u)
    · exact h.popped t hpopping
    · rcases hsome with hpop | ⟨u, hu, hpop⟩
      · cases hpop
      · exact absurd (hpop.symm.trans (h.others_popping hflushing u hu)) nofun

theorem Ordered.step (h : Ordered s) (hstep : step s e = some s') : Ordered s' := by
  cases e with
  | send frame =>
    obtain ⟨hidle, heq⟩ := Option.ite_none_right_eq_some.mp hstep
    cases heq
    exact h.goto rfl ⟨rfl, rfl, rfl⟩ (h.flag.move (by rw [hidle]; rfl)) (fun hne => absurd rfl hne) trivial (by rw [hidle]; rfl)
  | guest stores =>
    obtain ⟨-, heq⟩ := Option.ite_none_left_eq_some.mp hstep
    cases heq
    exact h.guest stores
  | notify i stores =>
    obtain ⟨hidle, heq⟩ := Option.ite_none_right_eq_some.mp hstep
    cases heq
    exact h.goto rfl ⟨rfl, rfl, rfl⟩ (h.flag.move (by rw [hidle]; rfl)) (fun _ => trivial) trivial (by rw [hidle]; rfl)
  | run t => exact (ran_of_run hstep).ordered h

theorem ordered_start (net : VirtioNet) : Ordered (start net : RxPath n) :=
  ⟨FlagLock.owned_none fun _ => rfl, fun _ => trivial, fun _ => trivial, fun _ => rfl, nofun⟩

/-! ### The backlog is looked at -/

/-- Where a flush has failed while buffers are there, a notify is on its way; and where frames and buffers are there,
    some thread will look at the backlog. --/
structure Awake (s : RxPath n) : Prop where
  seen : ∀ t, s.locs t = .flush .failed → s.net.rxAvailable = true → ∃ i, s.locs (some i) = .flush .start
  cover : s.net.rxBacklog ≠ [] → s.net.rxAvailable = true → ∃ t, (s.locs t).willLook = true

/-- A notify that looks at the flag, with buffers for the backlog, does not find it held by a thread that has failed to
    deliver. --/
def FlagSettled (s : RxPath n) : Event n → Prop
  | .run (some i) => s.locs (some i) = .flush .start → s.net.rxAvailable = true → ∀ t, s.locs t ≠ .flush .failed
  | _ => True

theorem Ordered.others_failed (h : Ordered s) (ht : (s.locs t).flushing = true) (hu : u ≠ t) : s.locs u ≠ .flush .failed := by
  intro hfailed
  have hout := h.flag.others ht hu
  rw [hfailed] at hout
  cases hout

theorem Ordered.not_failed (h : Ordered s) (hempty : s.net.rxBacklog = []) (u : NetThread n) : s.locs u ≠ .flush .failed := by
  intro hfailed
  have hknows := h.knows u
  rw [hfailed] at hknows
  exact hknows hempty

/-- A thread that will still look keeps the backlog covered. --/
theorem awake_of_look {loc : NetLoc} (hlocs : s'.locs = Function.update s.locs t loc) (hlook : loc.willLook = true)
    (hseen : ∀ u, u ≠ t → s.locs u = .flush .failed → s'.net.rxAvailable = true →
      ∃ i, some i ≠ t ∧ s.locs (some i) = .flush .start) : Awake s' := by
  refine ⟨fun u hu havail => ?_, fun _ _ => ⟨t, ?_⟩⟩
  · rw [hlocs] at hu
    by_cases hut : u = t
    · rw [hut, Function.update_self] at hu
      rw [hu] at hlook
      cases hlook
    · rw [Function.update_of_ne hut] at hu
      obtain ⟨i, hi, hstart⟩ := hseen u hut hu havail
      exact ⟨i, by rw [hlocs, Function.update_of_ne hi, hstart]⟩
  · rw [hlocs, Function.update_self]
    exact hlook

/-- The notify that is on its way is another thread's. --/
theorem Awake.seen_other (h : Awake s) (hloc : s.locs t ≠ .flush .start) (hu : s.locs u = .flush .failed)
    (havail : s.net.rxAvailable = true) : ∃ i, some i ≠ t ∧ s.locs (some i) = .flush .start := by
  obtain ⟨i, hi⟩ := h.seen u hu havail
  exact ⟨i, fun heq => hloc (heq ▸ hi), hi⟩

/-- The thread at the flag is a vCPU that finds no failed flush, or the slirp thread. --/
theorem Awake.seen_at_flag (h : Awake s) (hok : FlagSettled s (.run t)) (hloc : s.locs t = .flush .start)
    (hu : s.locs u = .flush .failed) (havail : s.net.rxAvailable = true) : ∃ i, some i ≠ t ∧ s.locs (some i) = .flush .start := by
  cases t with
  | some i => exact absurd hu (hok hloc havail u)
  | none =>
    obtain ⟨i, hi⟩ := h.seen u hu havail
    exact ⟨i, nofun, hi⟩

/-- A thread that goes idle leaves the backlog to the others. --/
theorem awake_of_idle (hlocs : s'.locs = Function.update s.locs t .idle)
    (hseen : ∀ u, u ≠ t → s.locs u = .flush .failed → s'.net.rxAvailable = true →
      ∃ i, some i ≠ t ∧ s.locs (some i) = .flush .start)
    (hcover : s'.net.rxBacklog ≠ [] → s'.net.rxAvailable = true → ∃ u, u ≠ t ∧ (s.locs u).willLook = true) : Awake s' := by
  refine ⟨fun u hu havail => ?_, fun hne havail => ?_⟩
  · rw [hlocs] at hu
    by_cases hut : u = t
    · rw [hut, Function.update_self] at hu
      cases hu
    · rw [Function.update_of_ne hut] at hu
      obtain ⟨i, hi, hstart⟩ := hseen u hut hu havail
      exact ⟨i, by rw [hlocs, Function.update_of_ne hi, hstart]⟩
  · obtain ⟨u, hu, hlook⟩ := hcover hne havail
    exact ⟨u, by rw [hlocs, Function.update_of_ne hu]; exact hlook⟩

theorem willLook_of_flushing {loc : NetLoc} (hflushing : loc.flushing = true) (hfailed : loc ≠ .flush .failed) :
    loc.willLook = true := by
  cases loc with
  | flush loc =>
    cases loc with
    | failed => exact absurd rfl hfailed
    | _ => rfl
  | _ => cases hflushing

theorem pushBacklog_keeps (frame : Packet) (s : RxPath n) :
    (s.pushBacklog frame).locs = s.locs ∧ (s.pushBacklog frame).net.rxAvailable = s.net.rxAvailable := by
  unfold pushBacklog
  split <;> exact ⟨rfl, rfl⟩

/-- A notify that finds the flag set leaves the backlog to its holder, or to another notify. --/
theorem Awake.returns (h : Awake s) (hord : Ordered s) (hok : FlagSettled s (.run t)) (hloc : s.locs t = .flush .start)
    (hactive : s.net.rxFlushActive = true) : Awake (s.goto t .idle) := by
  refine awake_of_idle rfl (fun u _ hu havail => h.seen_at_flag hok hloc hu havail) fun _ havail => ?_
  obtain ⟨v, hv⟩ := hord.flag.owner hactive
  by_cases hfailed : s.locs v = .flush .failed
  · obtain ⟨i, hi, hstart⟩ := h.seen_at_flag hok hloc hfailed havail
    exact ⟨some i, hi, by rw [hstart]; rfl⟩
  · refine ⟨v, fun heq => ?_, willLook_of_flushing hv hfailed⟩
    rw [heq, hloc] at hv
    cases hv

theorem Ran.awake (hran : Ran s t s') (hord : Ordered s) (h : Awake s) (hok : FlagSettled s (.run t)) : Awake s' := by
  have hnone (hflushing : (s.locs t).flushing = true) (u : NetThread n) (hu : u ≠ t) (hfailed : s.locs u = .flush .failed) :
      ∃ i, some i ≠ t ∧ s.locs (some i) = .flush .start := absurd hfailed (hord.others_failed hflushing hu)
  cases hran with
  | direct hloc _ | behind hloc | directFailed hloc =>
    exact awake_of_look rfl rfl fun u _ hu havail => h.seen_other (by rw [hloc]; nofun) hu havail
  | directStep hloc _ | directDone hloc _ =>
    have hempty := hord.knows t
    rw [hloc] at hempty
    exact awake_of_look rfl rfl fun u _ hu _ => absurd hu (hord.not_failed hempty u)
  | @enqueue frame hloc =>
    obtain ⟨hlocs, havail⟩ := pushBacklog_keeps frame s
    refine awake_of_look (s := s) (t := t) (by rw [RxPath.goto, hlocs]) rfl fun u _ hu hthere => ?_
    exact h.seen_other (by rw [hloc]; nofun) hu (havail.symm.trans hthere)
  | returns hloc hactive => exact h.returns hord hok hloc hactive
  | enters hloc hclear =>
    exact awake_of_look rfl rfl fun u _ hu havail => h.seen_at_flag hok hloc hu havail
  | empty hloc hempty =>
    exact awake_of_idle rfl (fun u hu hfailed _ => hnone (by rw [hloc]; rfl) u hu hfailed) fun hne _ => absurd hempty hne
  | front hloc _ | deliverStep hloc _ | deliverDone hloc _ | pops hloc =>
    exact awake_of_look rfl rfl fun u hu hfailed _ => hnone (by rw [hloc]; rfl) u hu hfailed
  | fails hloc hunavailable =>
    exact ⟨fun _ _ havail => absurd (hunavailable.symm.trans havail) nofun,
      fun _ havail => absurd (hunavailable.symm.trans havail) nofun⟩
  | gives hloc =>
    refine awake_of_idle (s := s) (t := t) rfl (fun u hu hfailed _ => hnone (by rw [hloc]; rfl) u hu hfailed) fun _ havail => ?_
    obtain ⟨i, hi, hstart⟩ := h.seen_other (by rw [hloc]; nofun) hloc havail
    exact ⟨some i, hi, by rw [hstart]; rfl⟩

theorem Awake.step (h : Awake s) (hord : Ordered s) (hok : FlagSettled s e) (hstep : step s e = some s') : Awake s' := by
  cases e with
  | send frame =>
    obtain ⟨hidle, heq⟩ := Option.ite_none_right_eq_some.mp hstep
    cases heq
    exact awake_of_look rfl rfl fun u _ hu havail => h.seen_other (by rw [hidle]; nofun) hu havail
  | guest stores =>
    obtain ⟨hposts, heq⟩ := Option.ite_none_left_eq_some.mp hstep
    cases heq
    have hbefore (havail : (s.guestStores stores).net.rxAvailable = true) : s.net.rxAvailable = true :=
      Bool.eq_true_of_not_eq_false fun hnone => hposts ⟨havail, hnone⟩
    exact ⟨fun u hu havail => h.seen u hu (hbefore havail), fun hne havail => h.cover hne (hbefore havail)⟩
  | notify i stores =>
    obtain ⟨hidle, heq⟩ := Option.ite_none_right_eq_some.mp hstep
    cases heq
    refine ⟨fun _ _ _ => ⟨i, Function.update_self ..⟩, fun _ _ => ⟨some i, ?_⟩⟩
    rw [show (((s.guestStores stores).goto (some i) (.flush .start)).locs (some i)) = .flush .start from Function.update_self ..]
    rfl
  | run t => exact (ran_of_run hstep).awake hord h hok

theorem awake_start (net : VirtioNet) : Awake (start net : RxPath n) := ⟨nofun, fun hne => absurd rfl hne⟩

/-! ### Runs -/

/-- No thread is on the RX path. --/
def Quiescent (s : RxPath n) : Prop := ∀ t, s.locs t = .idle

/-- At rest no frame is held back while the guest has a buffer; and the frames that were accepted are those that were
    handled, in this order, followed by those that still wait in the backlog. --/
structure BacklogServed (s : RxPath n) : Prop where
  served : Quiescent s → s.net.rxAvailable = true → s.net.rxBacklog = []
  order : ∃ waiting, s.accepted = s.handled ++ waiting ∧
    (waiting = s.net.rxBacklog ∨ ∃ t packet, s.locs t = .flush (.pop packet) ∧ s.net.rxBacklog = packet :: waiting)

theorem Ordered.order (h : Ordered s) : ∃ waiting, s.accepted = s.handled ++ waiting ∧
    (waiting = s.net.rxBacklog ∨ ∃ t packet, s.locs t = .flush (.pop packet) ∧ s.net.rxBacklog = packet :: waiting) := by
  by_cases hnone : ∀ t, (s.locs t).popping = false
  · exact ⟨_, h.waits hnone, Or.inl rfl⟩
  · obtain ⟨t, ht⟩ := not_forall.mp hnone
    rw [Bool.not_eq_false] at ht
    refine ⟨_, h.popped t ht, Or.inr ⟨t, ?_⟩⟩
    have hknows := h.knows t
    cases hloc : s.locs t with
    | flush loc =>
      rw [hloc] at ht hknows
      cases loc with
      | pop packet =>
        obtain ⟨rest, hrest⟩ := List.head?_eq_some_iff.mp hknows
        exact ⟨packet, rfl, by rw [hrest]; rfl⟩
      | _ => cases ht
    | _ =>
      rw [hloc] at ht
      cases ht

theorem Awake.served (h : Awake s) (hquiet : Quiescent s) (havail : s.net.rxAvailable = true) : s.net.rxBacklog = [] := by
  by_contra hne
  obtain ⟨t, ht⟩ := h.cover hne havail
  rw [hquiet t] at ht
  cases ht

/-- Over every run in which no notify finds the flag with a flush that has failed, while buffers are there. --/
theorem backlog_served {net : VirtioNet} {es : List (Event n)} (hrun : Runs.Under step FlagSettled (start net) es s) :
    BacklogServed s := by
  have hall : Ordered s ∧ Awake s := by
    refine hrun.invariant (P := fun s => Ordered s ∧ Awake s) (fun s e t h hok hstep => ?_) ⟨ordered_start net, awake_start net⟩
    exact ⟨h.1.step hstep, h.2.step h.1 hok hstep⟩
  exact ⟨hall.2.served, hall.1.order⟩

/-! ### One vCPU -/

instance (s : RxPath n) (e : Event n) : Decidable (FlagSettled s e) := by
  unfold FlagSettled
  split <;> infer_instance

instance (s : RxPath n) : Decidable (Quiescent s) := inferInstanceAs (Decidable (∀ t, s.locs t = .idle))

/-- The first entry of the avail ring names a buffer of 80 bytes, and its index does not count it yet. --/
def emptyRing (i : Nat) : UInt8 := if i = 0x102 then 0 else VirtioNet.oneBuffer 80 2 i

/-- The index counts the buffer. --/
def postOne : List GuestStore := [⟨0x102, [1]⟩]

def oneVcpu : RxPath 1 := start (VirtioNet.sampleDevice emptyRing)

/-- A frame comes while there is no buffer, and its flush fails. --/
def frameWithoutBuffer : List (Event 1) :=
  [.send VirtioNet.paddedFrame, .run none, .run none, .run none, .run none, .run none, .run none]

/-- The notify comes after the flag has been cleared. --/
def notifyAfterClear : List (Event 1) :=
  frameWithoutBuffer ++ .run none :: .notify (Fin.last 0) postOne :: List.replicate 8 (.run (some (Fin.last 0)))

theorem backlog_served_after_clear : ∃ t, Runs.Under step FlagSettled oneVcpu notifyAfterClear t ∧
    (Quiescent t ∧ t.handled = [VirtioNet.paddedFrame] ∧ t.net.rxBacklog = []) ∧ BacklogServed t := by
  obtain ⟨t, hrun, hserved⟩ := Runs.exists_under step FlagSettled oneVcpu notifyAfterClear
    (fun t => Quiescent t ∧ t.handled = [VirtioNet.paddedFrame] ∧ t.net.rxBacklog = []) (by decide +kernel)
  exact ⟨t, hrun, hserved, backlog_served hrun⟩

/-- The notify comes before it. --/
def notifyBeforeClear : List (Event 1) := frameWithoutBuffer ++ [.notify (Fin.last 0) postOne, .run (some (Fin.last 0)), .run none]

/-- No thread is on the RX path, the guest has a buffer with room for the frame, and the frame is in the backlog. --/
theorem not_backlog_served_before_clear : ∃ t, Runs.Under step (fun _ _ => True) oneVcpu notifyBeforeClear t ∧
    VirtioNet.Room t.net.rx.num t.net.rx.descAddr t.net.rx.num t.net.availHead
      (VirtioNet.framed t.net.driverFeatures VirtioNet.paddedFrame) t.net.mem ∧
    t.net.rxBacklog = [VirtioNet.paddedFrame] ∧ ¬BacklogServed t := by
  obtain ⟨t, hrun, hquiet, havail, hbacklog, hok, hleft⟩ := Runs.exists_under step (fun _ _ => True) oneVcpu notifyBeforeClear
    (fun t => Quiescent t ∧ t.net.rxAvailable = true ∧ t.net.rxBacklog = [VirtioNet.paddedFrame] ∧
      (VirtioNet.copied VirtioNet.undisturbed VirtioNet.paddedFrame t.net).ok = true ∧
      (VirtioNet.copied VirtioNet.undisturbed VirtioNet.paddedFrame t.net).left = 0) (by decide +kernel)
  refine ⟨t, hrun, (VirtioNet.room_iff (List.ne_nil_of_length_pos (VirtioNet.length_framed _).1)).mpr ⟨hok, hleft⟩, hbacklog,
    fun h => ?_⟩
  rw [h.served hquiet havail] at hbacklog
  cases hbacklog

end RxPath
end NodeVmm.Whp
