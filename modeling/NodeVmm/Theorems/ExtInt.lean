import NodeVmm.ExtInt
import NodeVmm.Lib.Runs

/-! The slot of the external interrupt. It holds one vector: a producer that raises another one while the first is
    undelivered takes its place. As long as no producer does, each raised vector stays in the slot until it is
    delivered. -/

namespace NodeVmm.Whp.ExtInt

/-! ### The slot -/

/-- The vector that the event puts in the slot, if it does. --/
def stores (s : ExtInt) : Event → Option UInt32
  | .uart irq _ =>
    if s.ioapic.irqUnmasked irq then none
    else if !s.pic.isInitialized || !s.pic.irqUnmasked irq.toUInt8 then none
    else some (s.pic.vectorForIrq irq.toUInt8)
  | .timer pin picIrq _ _ =>
    if pin < 24 && s.ioapic.irqUnmasked pin then none
    else if picIrq < 8 && s.pic.isInitialized && s.pic.irqUnmasked picIrq then some (s.pic.vectorForIrq picIrq)
    else none
  | _ => none

/-- What a step does to the slot. --/
inductive SlotStep (s : ExtInt) : Option UInt32 → ExtInt → Prop
  | quiet {t : ExtInt} (hpending : t.vcpu.extIntPending = s.vcpu.extIntPending)
    (hvector : t.vcpu.extIntVector = s.vcpu.extIntVector) (hdelivered : t.delivered = s.delivered) : SlotStep s none t
  | raise {t : ExtInt} {vector : UInt32} (hpending : t.vcpu.extIntPending = true) (hvector : t.vcpu.extIntVector = vector)
    (hdelivered : t.delivered = s.delivered) : SlotStep s (some vector) t
  | deliver {t : ExtInt} (hpending : t.vcpu.extIntPending = false)
    (hdelivered : t.delivered = s.delivered ++ [s.vcpu.extIntVector]) : SlotStep s none t

section
variable {s t u : ExtInt} {e : Event} {v : UInt32}

theorem SlotStep.congr {d : Option UInt32} (h : SlotStep s d t) (hvcpu : u.vcpu = t.vcpu) (hdelivered : u.delivered = t.delivered) :
    SlotStep s d u := by
  cases h with
  | quiet hp hv hd => exact .quiet (hvcpu ▸ hp) (hvcpu ▸ hv) (hdelivered.trans hd)
  | raise hp hv hd => exact .raise (hvcpu ▸ hp) (hvcpu ▸ hv) (hdelivered.trans hd)
  | deliver hp hd => exact .deliver (hvcpu ▸ hp) (hdelivered.trans hd)

/-- The fields that a step starts from. --/
theorem SlotStep.of_same {d : Option UInt32} (h : SlotStep u d t) (hpending : u.vcpu.extIntPending = s.vcpu.extIntPending)
    (hvector : u.vcpu.extIntVector = s.vcpu.extIntVector) (hdelivered : u.delivered = s.delivered) : SlotStep s d t := by
  cases h with
  | quiet hp hv hd => exact .quiet (hp.trans hpending) (hv.trans hvector) (hd.trans hdelivered)
  | raise hp hv hd => exact .raise hp hv (hd.trans hdelivered)
  | deliver hp hd => exact .deliver hp (by rw [hd, hdelivered, hvector])

theorem slotStep_tryDeliver (ok : ApiOk) (s : ExtInt) : SlotStep s none (s.tryDeliver ok) := by
  have harm : SlotStep s none { s with vcpu := s.vcpu.armInterruptWindow ok.window } := by
    refine .quiet ?_ ?_ rfl <;> simp only [VcpuIrq.armInterruptWindow] <;> split <;> rfl
  unfold tryDeliver
  split
  · exact .quiet rfl rfl rfl
  · split
    · refine .deliver ?_ rfl
      simp only [VcpuIrq.disarmInterruptWindow]
      split <;> rfl
    · exact harm
  · exact harm

theorem slotStep_deliverNow (ok : ApiOk) (s : ExtInt) : SlotStep s none (deliverNow ok s) := by
  unfold deliverNow
  split
  · exact slotStep_tryDeliver ok s
  · exact .quiet rfl rfl rfl

theorem slotStep_of_step (hstep : step s e = some t) : SlotStep s (stores s e) t := by
  cases e with
  | uart irq accept =>
    cases hstep
    simp only [stores, raiseUart]
    split
    · exact .quiet rfl rfl rfl
    · split
      · exact .quiet rfl rfl rfl
      · exact .raise rfl rfl rfl
  | timer pin picIrq level accept =>
    cases hstep
    simp only [stores, deliverTimer]
    split
    · split <;> exact .quiet rfl rfl rfl
    · split
      · exact .raise rfl rfl rfl
      · exact .quiet rfl rfl rfl
  | pic port value =>
    cases hstep
    exact .quiet rfl rfl rfl
  | ioapic e =>
    obtain ⟨ioapic, -, rfl⟩ := Option.map_eq_some_iff.mp hstep
    exact .quiet rfl rfl rfl
  | preRun ok accept =>
    cases hstep
    exact (slotStep_tryDeliver ok s).congr rfl rfl
  | exit ctx =>
    cases hstep
    exact .quiet rfl rfl rfl
  | halt ok =>
    cases hstep
    exact (slotStep_deliverNow ok { s with vcpu := s.vcpu.setReady }).of_same rfl rfl rfl
  | interruptWindow ok accept =>
    cases hstep
    have hslot := slotStep_deliverNow ok { s with vcpu := { s.vcpu.setReady with windowRegistered := false } }
    exact SlotStep.of_same (SlotStep.congr (u := drain accept _) hslot rfl rfl) rfl rfl rfl

/-! ### Runs -/

/-- The vector has been delivered since `s`, or it is still in the slot. --/
def Answered (v : UInt32) (s t : ExtInt) : Prop :=
  (∃ more, t.delivered = s.delivered ++ more ∧ v ∈ more) ∨ t.vcpu.extIntPending = true ∧ t.vcpu.extIntVector = v

/-- Each vector that an event of the run raises is delivered after it, or in the slot at the end. --/
inductive AllKept : ExtInt → List Event → ExtInt → Prop
  | nil {s : ExtInt} : AllKept s [] s
  | cons {s u t : ExtInt} {e : Event} {es : List Event} (hstep : step s e = some u)
    (hkept : ∀ v, stores s e = some v → Answered v s t) (rest : AllKept u es t) : AllKept s (e :: es) t

/-- The event does not put another vector in the place of one that is still in the slot. --/
def NoClash (s : ExtInt) (e : Event) : Prop :=
  ∀ v, stores s e = some v → s.vcpu.extIntPending = true → s.vcpu.extIntVector = v

theorem delivered_grows {es : List Event} {ok : ExtInt → Event → Prop} (hrun : Runs.Under step ok s es t) :
    ∃ more, t.delivered = s.delivered ++ more := by
  induction hrun with
  | nil => exact ⟨[], (List.append_nil _).symm⟩
  | @cons s u t e es _ hstep _ ih =>
    obtain ⟨more, hmore⟩ := ih
    have hslot := slotStep_of_step hstep
    generalize stores s e = d at hslot
    cases hslot with
    | quiet _ _ hd | raise _ _ hd => exact ⟨more, by rw [hmore, hd]⟩
    | deliver _ hd => exact ⟨s.vcpu.extIntVector :: more, by rw [hmore, hd, List.append_assoc, List.singleton_append]⟩

theorem Answered.of_delivered (h : Answered v u t) (hd : u.delivered = s.delivered) : Answered v s t := by
  unfold Answered at *
  rwa [hd] at h

/-- A vector in the slot stays there until it is delivered. --/
theorem answered_of_slot {es : List Event} (hrun : Runs.Under step NoClash s es t) :
    s.vcpu.extIntPending = true → s.vcpu.extIntVector = v → Answered v s t := by
  induction hrun with
  | nil => exact fun hp hv => Or.inr ⟨hp, hv⟩
  | @cons s u t e es hok hstep hrest ih =>
    intro hp hv
    have hslot := slotStep_of_step hstep
    unfold NoClash at hok
    generalize stores s e = d at hslot hok
    cases hslot with
    | quiet hpending hvector hd => exact (ih (hpending.trans hp) (hvector.trans hv)).of_delivered hd
    | raise hpending hvector hd =>
      have hsame : s.vcpu.extIntVector = u.vcpu.extIntVector := (hok _ rfl hp).trans hvector.symm
      exact (ih hpending (hsame.symm.trans hv)).of_delivered hd
    | deliver _ hd =>
      obtain ⟨more, hmore⟩ := delivered_grows hrest
      refine Or.inl ⟨v :: more, ?_, List.mem_cons_self⟩
      rw [hmore, hd, hv, List.append_assoc, List.singleton_append]

end

/-- The guest gives the master the vector base 0x30 and unmasks IRQ 0 and IRQ 4. --/
def setUpPic : List Event := [.pic 0x20 0x11, .pic 0x21 0x30, .pic 0x21 4, .pic 0x21 1, .pic 0x21 0xEE]

instance (s : ExtInt) (e : Event) : Decidable (NoClash s e) :=
  match h : stores s e with
  | none => .isTrue fun v hv => nomatch h.symm.trans hv
  | some w =>
    decidable_of_iff (s.vcpu.extIntPending = true → s.vcpu.extIntVector = w)
      ⟨fun hw v hv => Option.some.inj (h.symm.trans hv) ▸ hw, fun hall => hall w h⟩

/-- The UART raises its interrupt while that of the timer is undelivered: only the second is delivered. --/
def twoRaised : List Event := [.timer 2 0 false 0, .uart 4 0, .interruptWindow ⟨true, true⟩ 0]

theorem not_kept_of_two {s t : ExtInt} (hrun : AllKept s twoRaised t) (hstores : stores s (.timer 2 0 false 0) = some 0x30)
    (hdelivered : t.delivered = s.delivered ++ [0x34]) (hpending : t.vcpu.extIntPending = false) : False := by
  cases hrun with
  | cons _ hkept _ =>
    rcases hkept 0x30 hstores with ⟨more, hmore, hmem⟩ | ⟨hp, -⟩
    · rw [List.append_cancel_left (hdelivered.symm.trans hmore) |>.symm] at hmem
      exact absurd hmem (by decide)
    · exact absurd (hp.symm.trans hpending) nofun

end NodeVmm.Whp.ExtInt
