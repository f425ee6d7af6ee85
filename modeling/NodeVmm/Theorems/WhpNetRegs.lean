import NodeVmm.Lib.Runs
import NodeVmm.WhpNetRegs

/-! What a driver can rely on in the negotiation with the virtio-net device of the WHP backend, and which writes break
    it: the device takes features after FEATURES_OK, a reset leaves them and the selectors as they are, and a status
    with FAILED skips the check of the features. -/

namespace NodeVmm.Whp
open Hvf (Reg)
open VirtioNet (netHdrLen featureMrgRxbuf)

namespace NetEvent
variable {es pre : List NetEvent} {e : NetEvent} {s : NetRegs}

/-! ### What a run promises -/

/-- The driver and the device agreed on the feature. --/
def Negotiated (s : NetRegs) (feature : UInt64) : Prop :=
  s.featuresOk = true ∧ s.driverFeatures &&& netDeviceFeatures &&& feature ≠ 0

/-- In every state of the run. --/
structure Negotiates (es : List NetEvent) : Prop where
  subset : ∀ pre, pre <+: es → (after pre).featuresOk = true → offered (after pre).driverFeatures = true
  frozen : ∀ pre mid, pre ++ mid <+: es → (after pre).featuresOk = true → reset ∉ mid →
    (after (pre ++ mid)).driverFeatures = (after pre).driverFeatures
  header : ∀ pre, pre <+: es → ∀ i, ((after pre).queues i).ready = true → (after pre).hdrLen = 14 →
    Negotiated (after pre) featureMrgRxbuf
  reset : ∀ pre, pre ++ [reset] <+: es → after (pre ++ [reset]) = .powerOn

/-- FEATURES_OK has shown since the last reset. --/
def Accepted (es : List NetEvent) : Prop :=
  ∃ pre mid, es = pre ++ mid ∧ (after pre).featuresOk = true ∧ reset ∉ mid

/-- What a reset leaves is as at power-on. --/
def Clean (s : NetRegs) : Prop :=
  s.driverFeatures = 0 ∧ s.deviceFeaturesSel = 0 ∧ s.driverFeaturesSel = 0 ∧ s.queueSel = 0

/-- The event is one that the device handles right after `es`. --/
def Fits (es : List NetEvent) : NetEvent → Prop
  | .write .drvFeatures value =>
    (after es).takeFeatures value = (after es).driverFeatures ∨
      ¬ Accepted es ∧ ∀ i, ((after es).queues i).ready = true → (after es).takeFeatures value &&& featureMrgRxbuf = 0
  | .write .status value =>
    (value = 0 → Clean (after es)) ∧
      (value &&& statusFailed ≠ 0 → value &&& statusFeaturesOk ≠ 0 → offered (after es).driverFeatures = true)
  | .write .queueReady value =>
    value ≠ 0 → (after es).queueSel.toNat < 2 → (after es).driverFeatures &&& featureMrgRxbuf = 0
  | _ => True

/-- What the last event of a run has to keep. --/
structure Honours (es : List NetEvent) (e : NetEvent) : Prop where
  subset : (apply (after es) e).featuresOk = true → offered (apply (after es) e).driverFeatures = true
  frozen : Accepted es → e ≠ .reset → (apply (after es) e).driverFeatures = (after es).driverFeatures
  header : ∀ i, ((apply (after es) e).queues i).ready = true → (apply (after es) e).driverFeatures &&& featureMrgRxbuf = 0
  reset : e = .reset → apply (after es) e = .powerOn

/-! ### The mergeable buffers -/

theorem after_concat : after (es ++ [e]) = apply (after es) e := List.foldl_concat ..

theorem hdrLen_eq : s.hdrLen = 14 ↔ s.driverFeatures &&& featureMrgRxbuf ≠ 0 := by
  unfold NetRegs.hdrLen netHdrLen
  split
  · next h => simpa using h
  · next h => simpa using h

/-- The device never offers them. --/
theorem not_negotiated : ¬ Negotiated s featureMrgRxbuf := by
  intro ⟨_, h⟩
  have hnone : netDeviceFeatures &&& featureMrgRxbuf = 0 := rfl
  rw [UInt64.and_assoc, hnone, UInt64.and_zero] at h
  exact h rfl

theorem no_mergeable (h : offered s.driverFeatures = true) : s.driverFeatures &&& featureMrgRxbuf = 0 := by
  have hzero : s.driverFeatures &&& ~~~netDeviceFeatures = 0 := by simpa [offered] using h
  have hsub : ~~~netDeviceFeatures &&& featureMrgRxbuf = featureMrgRxbuf := rfl
  rw [← hsub, ← UInt64.and_assoc, hzero, UInt64.zero_and]

/-! ### The run, event by event -/

theorem accepted_of_featuresOk (h : (after es).featuresOk = true) : Accepted es :=
  ⟨es, [], (List.append_nil es).symm, h, List.not_mem_nil⟩

theorem Negotiates.offered_of_accepted (h : Negotiates es) (hacc : Accepted es) :
    offered (after es).driverFeatures = true := by
  obtain ⟨pre, mid, rfl, hok, hmid⟩ := hacc
  rw [h.frozen pre mid (List.prefix_refl _) hok hmid]
  exact h.subset pre (List.prefix_append _ _) hok

theorem Negotiates.no_mergeable (h : Negotiates es) {i : Fin 2} (hready : ((after es).queues i).ready = true) :
    (after es).driverFeatures &&& featureMrgRxbuf = 0 := by
  by_contra hmrg
  exact not_negotiated (h.header es (List.prefix_refl _) i hready (hdrLen_eq.mpr hmrg))

theorem negotiates_nil : Negotiates [] where
  subset pre h hok := by
    rw [List.prefix_nil.mp h]
    rfl
  frozen pre mid h _ _ := by
    obtain ⟨rfl, rfl⟩ := List.append_eq_nil_iff.mp (List.prefix_nil.mp h)
    rfl
  header pre h i hready := by
    rw [List.prefix_nil.mp h] at hready
    cases hready
  reset pre h := by simp at h

theorem negotiates_concat : Negotiates (es ++ [e]) ↔ Negotiates es ∧ Honours es e := by
  constructor
  · intro h
    have hes : Negotiates es := {
      subset := fun pre hpre => h.subset pre (hpre.trans (List.prefix_append _ _))
      frozen := fun pre mid hpre => h.frozen pre mid (hpre.trans (List.prefix_append _ _))
      header := fun pre hpre => h.header pre (hpre.trans (List.prefix_append _ _))
      reset := fun pre hpre => h.reset pre (hpre.trans (List.prefix_append _ _)) }
    refine ⟨hes, ?_, ?_, ?_, ?_⟩
    · rw [← after_concat]
      exact h.subset _ (List.prefix_refl _)
    · intro ⟨pre, mid, heq, hok, hmid⟩ hne
      have hlast := h.frozen pre (mid ++ [e]) (by rw [heq, List.append_assoc]) hok
        (by simp [hmid, Ne.symm hne])
      rw [← after_concat, heq, List.append_assoc, hlast]
      exact (hes.frozen pre mid (by rw [heq]) hok hmid).symm
    · intro i hready
      rw [← after_concat] at hready ⊢
      exact h.no_mergeable hready
    · rintro rfl
      rw [← after_concat]
      exact h.reset es (List.prefix_refl _)
  · intro ⟨h, he⟩
    refine ⟨?_, ?_, ?_, ?_⟩
    · intro pre hpre
      rcases List.prefix_concat_iff.mp hpre with rfl | hpre
      · rw [after_concat]
        exact he.subset
      · exact h.subset pre hpre
    · intro pre mid hpre hok hmid
      rcases List.prefix_concat_iff.mp hpre with heq | hpre
      · rcases List.eq_nil_or_concat mid with rfl | ⟨mid, f, rfl⟩
        · rw [List.append_nil]
        · rw [List.concat_eq_append, ← List.append_assoc] at heq
          obtain ⟨rfl, hf⟩ := List.append_inj' heq rfl
          cases hf
          simp only [List.concat_eq_append, List.mem_append, List.mem_singleton, not_or] at hmid
          rw [List.concat_eq_append, ← List.append_assoc, after_concat,
            he.frozen ⟨pre, mid, rfl, hok, hmid.1⟩ (Ne.symm hmid.2)]
          exact h.frozen pre mid (List.prefix_refl _) hok hmid.1
      · exact h.frozen pre mid hpre hok hmid
    · intro pre hpre i hready hlen
      rcases List.prefix_concat_iff.mp hpre with rfl | hpre
      · rw [after_concat] at hready hlen
        exact absurd (he.header i hready) (hdrLen_eq.mp hlen)
      · exact h.header pre hpre i hready hlen
    · intro pre hpre
      rcases List.prefix_concat_iff.mp hpre with heq | hpre
      · obtain ⟨rfl, hf⟩ := List.append_inj' heq rfl
        cases hf
        rw [after_concat]
        exact he.reset rfl
      · exact h.reset pre hpre

/-! ### One event -/

/-- An event that keeps the features and the status, and makes no queue ready. --/
theorem Negotiates.honours_of_same (h : Negotiates es) (hne : e ≠ .reset)
    (hfeatures : (apply (after es) e).driverFeatures = (after es).driverFeatures)
    (hstatus : (apply (after es) e).status = (after es).status)
    (hready : ∀ i, ((apply (after es) e).queues i).ready = true → ((after es).queues i).ready = true) : Honours es e where
  subset hok := by
    rw [NetRegs.featuresOk, hstatus] at hok
    rw [hfeatures]
    exact h.subset es (List.prefix_refl _) hok
  frozen _ _ := hfeatures
  header i hi := by
    rw [hfeatures]
    exact h.no_mergeable (hready i hi)
  reset heq := absurd heq hne

theorem onSelected_ready {f : Queue → Queue} (hf : ∀ q, (f q).ready = true → q.ready = true) {i : Fin 2}
    (h : ((s.onSelected f).queues i).ready = true) : (s.queues i).ready = true := by
  unfold NetRegs.onSelected at h
  split at h
  · by_cases hi : i = ⟨s.queueSel.toNat, by assumption⟩
    · subst hi
      simp only [Function.update_self] at h
      exact hf _ h
    · simp only [Function.update_of_ne hi] at h
      exact h
  · exact h

@[simp] theorem onSelected_features {f : Queue → Queue} : (s.onSelected f).driverFeatures = s.driverFeatures := by
  unfold NetRegs.onSelected
  split <;> rfl

@[simp] theorem onSelected_status {f : Queue → Queue} : (s.onSelected f).status = s.status := by
  unfold NetRegs.onSelected
  split <;> rfl

theorem Negotiates.honours_work (h : Negotiates es) (i : Fin 2) (avail used : UInt16) (raised : Bool) :
    Honours es (.work i avail used raised) := by
  refine h.honours_of_same (by simp [NetEvent.reset]) rfl rfl fun j hj => ?_
  by_cases hji : j = i
  · subst hji
    simpa [apply, NetRegs.work] using hj
  · simpa [apply, NetRegs.work, hji] using hj

/-- Size and address registers. --/
theorem Negotiates.honours_queue (h : Negotiates es) {reg : Reg} {value : UInt32}
    (hreg : ∀ s : NetRegs, s.write reg value = s.onSelected (Queue.write reg value)) (hstatus : reg ≠ .status)
    (hready : ∀ q : Queue, (q.write reg value).ready = true → q.ready = true) : Honours es (.write reg value) := by
  refine h.honours_of_same (by simp [NetEvent.reset, hstatus]) ?_ ?_ ?_
  · rw [apply, hreg, onSelected_features]
  · rw [apply, hreg, onSelected_status]
  · intro i hi
    rw [apply, hreg] at hi
    exact onSelected_ready hready hi

theorem Negotiates.honours_features_iff (h : Negotiates es) (value : UInt32) :
    Honours es (.write .drvFeatures value) ↔ Fits es (.write .drvFeatures value) := by
  have hne : NetEvent.write .drvFeatures value ≠ .reset := by simp [NetEvent.reset]
  constructor
  · intro he
    by_cases hsame : (after es).takeFeatures value = (after es).driverFeatures
    · exact Or.inl hsame
    · exact Or.inr ⟨fun hacc => hsame (he.frozen hacc hne), he.header⟩
  · rintro (hsame | ⟨hacc, hmrg⟩)
    · exact h.honours_of_same hne hsame rfl fun _ hi => hi
    · exact ⟨fun hok => absurd (accepted_of_featuresOk hok) hacc, fun hacc' => absurd hacc' hacc, hmrg,
        fun heq => absurd heq hne⟩

theorem Negotiates.honours_ready_iff (h : Negotiates es) (value : UInt32) :
    Honours es (.write .queueReady value) ↔ Fits es (.write .queueReady value) := by
  have hne : NetEvent.write .queueReady value ≠ .reset := by simp [NetEvent.reset]
  constructor
  · intro he hvalue hsel
    have hready : ((apply (after es) (.write .queueReady value)).queues ⟨_, hsel⟩).ready = true := by
      simp [apply, NetRegs.write, NetRegs.onSelected, hsel, Queue.write, hvalue]
    have hmrg := he.header _ hready
    simpa [apply, NetRegs.write] using hmrg
  · intro hfits
    have hfeatures : (apply (after es) (.write .queueReady value)).driverFeatures = (after es).driverFeatures := by
      simp [apply, NetRegs.write]
    by_cases hset : value ≠ 0 ∧ (after es).queueSel.toNat < 2
    · refine ⟨?_, fun _ _ => hfeatures, fun i _ => ?_, fun heq => absurd heq hne⟩
      · intro hok
        rw [hfeatures]
        exact h.subset es (List.prefix_refl _) (by simpa [apply, NetRegs.write, NetRegs.featuresOk] using hok)
      · rw [hfeatures]
        exact hfits hset.1 hset.2
    · refine h.honours_of_same hne hfeatures (by simp [apply, NetRegs.write]) fun i hi => ?_
      by_cases hsel : (after es).queueSel.toNat < 2
      · have hzero : value = 0 := by simpa [hsel] using hset
        subst hzero
        exact onSelected_ready (by simp [Queue.write]) hi
      · simpa [apply, NetRegs.write, NetRegs.onSelected, hsel] using hi

/-! ### The work on the RX queue -/

/-- A step that brings a frame to the guest is `work` on the RX queue, as far as the registers go. --/
theorem deliverStep_work (frame : Packet) (loc : VirtioNet.DeliverLoc) (d : VirtioNet) :
    ∃ (avail used : UInt16) (raised : Bool), (VirtioNet.deliverStep frame loc d).2.rx =
        { d.rx with lastAvailIdx := avail, lastUsedIdx := used } ∧
      (VirtioNet.deliverStep frame loc d).2.interruptStatus =
        (if raised then d.interruptStatus ||| 1 else d.interruptStatus) ∧
      (VirtioNet.deliverStep frame loc d).2.driverFeatures = d.driverFeatures := by
  cases loc with
  | take =>
    simp only [VirtioNet.deliverStep, VirtioNet.takeHead, VirtioNet.bumpLastAvail]
    split_ifs
    · exact ⟨_, _, false, rfl, rfl, rfl⟩
    · exact ⟨_, _, false, rfl, rfl, rfl⟩
    · exact ⟨_, _, false, rfl, rfl, rfl⟩
    · exact ⟨_, _, false, rfl, rfl, rfl⟩
  | fill => exact ⟨_, _, false, rfl, rfl, rfl⟩
  | publish =>
    simp only [VirtioNet.deliverStep, VirtioNet.publishUsed]
    split_ifs
    · exact ⟨_, _, false, rfl, rfl, rfl⟩
    · exact ⟨_, _, false, rfl, rfl, rfl⟩
  | irq =>
    simp only [VirtioNet.deliverStep, VirtioNet.raiseUsedBufferIrq]
    split_ifs
    · exact ⟨_, _, false, rfl, rfl, rfl⟩
    · exact ⟨_, _, false, rfl, rfl, rfl⟩
    · exact ⟨_, _, true, rfl, rfl, rfl⟩

/-! ### Writes to Status -/

theorem updateStatus_features (value : UInt32) : (s.updateStatus value).driverFeatures = s.driverFeatures := by
  simp only [NetRegs.updateStatus, NetRegs.checkFeatures]
  split_ifs <;> rfl

/-- With FAILED the status is taken as it is. --/
theorem updateStatus_failed {value : UInt32} (hvalue : value ≠ 0) (hfailed : value &&& statusFailed ≠ 0) :
    s.updateStatus value = { s with status := value, queues := fun i => { s.queues i with ready := false } } := by
  simp [NetRegs.updateStatus, hvalue, hfailed]

theorem updateStatus_queues {value : UInt32} (hvalue : value ≠ 0) (hfailed : value &&& statusFailed = 0) :
    (s.updateStatus value).queues = s.queues := by
  simp only [NetRegs.updateStatus, NetRegs.checkFeatures, hvalue, hfailed, if_false, ne_eq, not_true_eq_false]
  split_ifs <;> rfl

/-- Without FAILED the status shows FEATURES_OK only after the check. --/
theorem featuresOk_updateStatus {value : UInt32} (hvalue : value ≠ 0) (hfailed : value &&& statusFailed = 0)
    (hok : (s.updateStatus value).featuresOk = true) : s.featuresOk = true ∨ offered s.driverFeatures = true := by
  by_contra hnot
  rw [not_or, Bool.not_eq_true, Bool.not_eq_true] at hnot
  obtain ⟨hwas, hoff⟩ := hnot
  have hshown : (s.updateStatus value).status &&& statusFeaturesOk = 0 := by
    by_cases hset : value &&& statusFeaturesOk = 0
    · simp only [NetRegs.updateStatus, NetRegs.checkFeatures, hvalue, hfailed, hset, if_false, ne_eq, not_true_eq_false,
        false_and]
      split_ifs <;> exact hset
    · have hclear : ∀ w : UInt32, w &&& ~~~statusFeaturesOk &&& statusFeaturesOk = 0 := by
        intro w
        have hnone : ~~~statusFeaturesOk &&& statusFeaturesOk = 0 := rfl
        rw [UInt32.and_assoc, hnone, UInt32.and_zero]
      simp only [NetRegs.updateStatus, NetRegs.checkFeatures, hvalue, hfailed, hset, hwas, hoff, if_false, if_true, ne_eq,
        not_true_eq_false, not_false_eq_true, and_self, Bool.false_eq_true]
      split_ifs <;> exact hclear value
  rw [NetRegs.featuresOk, hshown] at hok
  exact absurd hok (by simp)

theorem reset_iff_clean : s.updateStatus 0 = .powerOn ↔ Clean s := by
  constructor
  · intro h
    simp only [NetRegs.updateStatus, if_true, NetRegs.powerOn, NetRegs.mk.injEq] at h
    exact ⟨h.2.2.1, h.1, h.2.1, h.2.2.2.2.2.1⟩
  · intro ⟨hfeatures, hdev, hdrv, hsel⟩
    simp [NetRegs.updateStatus, NetRegs.powerOn, hfeatures, hdev, hdrv, hsel]

theorem honours_reset_iff : Honours es .reset ↔ Clean (after es) := by
  rw [← reset_iff_clean]
  constructor
  · intro he
    exact he.reset rfl
  · intro hclean
    have happly : apply (after es) .reset = .powerOn := hclean
    refine ⟨?_, fun _ hne => absurd rfl hne, ?_, fun _ => happly⟩
    · rw [happly]
      intro hok
      cases hok
    · rw [happly]
      intro i hi
      cases hi

theorem Negotiates.honours_status_iff (h : Negotiates es) (value : UInt32) :
    Honours es (.write .status value) ↔ Fits es (.write .status value) := by
  by_cases hvalue : value = 0
  · subst hvalue
    have hfits : Fits es (.write .status 0) ↔ Clean (after es) :=
      ⟨fun hf => hf.1 rfl, fun hclean => ⟨fun _ => hclean, fun hne => absurd rfl hne⟩⟩
    exact honours_reset_iff.trans hfits.symm
  · have hne : NetEvent.write .status value ≠ .reset := by simpa [NetEvent.reset] using hvalue
    have hfeatures : (apply (after es) (.write .status value)).driverFeatures = (after es).driverFeatures :=
      updateStatus_features value
    by_cases hfailed : value &&& statusFailed = 0
    · refine ⟨fun _ => ⟨fun heq => absurd heq hvalue, fun hset => absurd hfailed hset⟩, fun _ => ?_⟩
      refine ⟨fun hok => ?_, fun _ _ => hfeatures, fun i hi => ?_, fun heq => absurd heq hne⟩
      · rw [hfeatures]
        rcases featuresOk_updateStatus hvalue hfailed hok with hwas | hoff
        · exact h.subset es (List.prefix_refl _) hwas
        · exact hoff
      · rw [hfeatures]
        have hqueues : (apply (after es) (.write .status value)).queues = (after es).queues :=
          updateStatus_queues hvalue hfailed
        rw [hqueues] at hi
        exact h.no_mergeable hi
    · have happly : apply (after es) (.write .status value) = _ := updateStatus_failed hvalue hfailed
      constructor
      · intro he
        refine ⟨fun heq => absurd heq hvalue, fun _ hset => ?_⟩
        have hok : (apply (after es) (.write .status value)).featuresOk = true := by
          rw [happly]
          simpa [NetRegs.featuresOk] using hset
        exact hfeatures ▸ he.subset hok
      · intro hfits
        refine ⟨fun hok => ?_, fun _ _ => hfeatures, fun i hi => ?_, fun heq => absurd heq hne⟩
        · rw [hfeatures]
          rw [happly] at hok
          exact hfits.2 hfailed (by simpa [NetRegs.featuresOk] using hok)
        · rw [happly] at hi
          cases hi

/-! ### Every event -/

theorem Negotiates.honours_iff (h : Negotiates es) (e : NetEvent) : Honours es e ↔ Fits es e := by
  have hother {e : NetEvent} (he : Honours es e) (hfits : Fits es e) : Honours es e ↔ Fits es e :=
    ⟨fun _ => hfits, fun _ => he⟩
  cases e with
  | work i avail used raised => exact hother (h.honours_work i avail used raised) trivial
  | write reg value =>
    cases reg with
    | drvFeatures => exact h.honours_features_iff value
    | status => exact h.honours_status_iff value
    | queueReady => exact h.honours_ready_iff value
    | devFeaturesSel | drvFeaturesSel | queueSel | queueNotify | interruptAck =>
      exact hother (h.honours_of_same (by simp [NetEvent.reset]) rfl rfl fun _ hi => hi) trivial
    | queueNum | descLow | descHigh | driverLow | driverHigh | deviceLow | deviceHigh =>
      exact hother (h.honours_queue (fun _ => rfl) (by simp) fun _ hq => hq) trivial

/-- The negotiation is as a driver may expect exactly in the runs whose events all fit. --/
theorem negotiates_iff (es : List NetEvent) : Negotiates es ↔ ∀ pre e, pre ++ [e] <+: es → Fits pre e :=
  Runs.holds_iff_steps negotiates_nil (fun _ _ => negotiates_concat) (fun _ e h => h.honours_iff e) es

/-- A driver that writes features after FEATURES_OK, and one that resets the device with the second queue selected. --/
theorem negotiation_broken : ¬ Negotiates [.write .status 0x0B, .write .drvFeatures 0x8020] ∧
    ¬ Negotiates [.write .queueSel 1, .reset] := by
  constructor
  · intro h
    have hoff := h.subset _ (List.prefix_refl _) (by decide)
    exact absurd hoff (by decide)
  · intro h
    have hreset := h.reset [.write .queueSel 1] (List.prefix_refl _)
    exact absurd (congrArg NetRegs.queueSel hreset) (by decide)

end NetEvent
end NodeVmm.Whp
