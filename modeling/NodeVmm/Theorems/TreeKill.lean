import NodeVmm.Theorems.RunCapture

/-! What is left of the process group when a call settles. The end of the leader settles it and clears the timer in
    `killTimeout`, also when descendants are left that `SIGTERM` did not end; only the first of two timers survives that. -/

namespace NodeVmm.Process
open Runs
variable {o : CommandOptions} {s t u : Call} {started : Bool}

/-- Every process of the group has exited, or a `SIGKILL` will be sent. --/
def Call.Covered (s : Call) : Prop := s.gone ∨ s.killTimers ≠ []

/-- A call that settled after a timeout or an abort leaves no process alone. --/
def Call.Cleaned (s : Call) : Prop := s.settled.isSome = true → s.timedOut = true ∨ s.aborted = true → s.Covered

/-- After a timeout or an abort the call goes on only with no process left, or with the timer of the other of the two still
    to fire. --/
def Outlasted (s : Call) (e : Event) : Prop :=
  e = .continues → s.timedOut = true ∨ s.aborted = true → s.gone ∨ ∃ timer ∈ s.killTimers, some timer ≠ s.killTimeout

instance {s : Call} {e : Event} : Decidable (Outlasted s e) := inferInstanceAs (Decidable (_ → _))

/-- What holds from the start of a call on. --/
structure Kept (s : Call) : Prop where
  timers : s.killTimers ≠ [] → s.timedOut = true ∨ s.aborted = true
  absent : s.leader = .absent → s.descendants = []
  woken : s.woken.isSome = true → s.leader ≠ .running
  settled : s.settled.isSome = true →
    s.woken.isSome = true ∧ s.timeout = false ∧ s.onSigint = false ∧ s.onSigterm = false ∧ s.onAbort = false

/-! ### Signals -/

/-- A signal changes nothing but the processes and the record of signals. --/
structure Signalled (s t : Call) : Prop where
  woken : t.woken = s.woken
  timeout : t.timeout = s.timeout
  killTimeout : t.killTimeout = s.killTimeout
  killTimers : t.killTimers = s.killTimers
  onSigint : t.onSigint = s.onSigint
  onSigterm : t.onSigterm = s.onSigterm
  onAbort : t.onAbort = s.onAbort
  timedOut : t.timedOut = s.timedOut
  aborted : t.aborted = s.aborted
  settled : t.settled = s.settled
  absent : t.leader = .absent ↔ s.leader = .absent
  leader : s.leader ≠ .running → t.leader ≠ .running
  descendants : s.descendants = [] → t.descendants = []

theorem receive_leader (group : Bool) (signal : Signal) : (s.receive group signal).leader = s.leader ∨
    s.leader = .running ∧ (s.receive group signal).leader = .exited none (some .sigkill) := by
  unfold Call.receive
  by_cases hsignal : signal = .sigkill
  · by_cases hrunning : s.leader = .running
    · exact Or.inr ⟨hrunning, by simp [hsignal, hrunning]⟩
    · exact Or.inl (by simp [hsignal, hrunning])
  · exact Or.inl (by simp [hsignal])

theorem signalled_receive (group : Bool) (signal : Signal) (sent : List Signal) :
    Signalled s { s.receive group signal with sent := sent } := by
  have hleader := receive_leader (s := s) group signal
  unfold Call.receive at hleader ⊢
  split_ifs at hleader ⊢
  all_goals
    refine ⟨rfl, rfl, rfl, rfl, rfl, rfl, rfl, rfl, rfl, rfl, ?_, ?_, ?_⟩
    · rcases hleader with h | ⟨h, h'⟩ <;> simp_all
    · rcases hleader with h | ⟨h, h'⟩ <;> simp_all
    · simp_all

theorem signalled_refl : Signalled s s := ⟨rfl, rfl, rfl, rfl, rfl, rfl, rfl, rfl, rfl, rfl, Iff.rfl, id, id⟩

theorem signalled_signalChild (signal : Signal) : Signalled s (signalChild o s signal) := by
  unfold signalChild
  split_ifs
  · exact signalled_refl
  · exact signalled_receive true signal _
  · exact signalled_refl
  · exact signalled_receive false signal _

/-- The `SIGKILL` of a detached call ends its group. --/
theorem gone_sigkill (hdetached : o.detached = true) (h : s.leader = .absent → s.descendants = []) :
    (signalChild o s .sigkill).gone := by
  by_cases habsent : s.leader = .absent
  · simp [signalChild, habsent, Call.gone, h habsent]
  · by_cases hrunning : s.leader = .running
    · simp [signalChild, hdetached, Call.receive, Call.gone, hrunning]
    · simp [signalChild, habsent, hdetached, Call.receive, Call.gone, hrunning]

theorem Kept.of_signalled (h : Kept s) (ht : Signalled s t) : Kept t where
  timers hne := by
    rw [ht.timedOut, ht.aborted]
    exact h.timers (ht.killTimers ▸ hne)
  absent habsent := ht.descendants (h.absent (ht.absent.mp habsent))
  woken hwoken := ht.leader (h.woken (ht.woken ▸ hwoken))
  settled hsettled := by
    rw [ht.woken, ht.timeout, ht.onSigint, ht.onSigterm, ht.onAbort]
    exact h.settled (ht.settled ▸ hsettled)

/-! ### Steps -/

theorem kept_initial : Kept (initial o started) where
  timers h := absurd rfl h
  absent _ := rfl
  woken h := by cases h
  settled h := by cases h

theorem kept_startKill (h : Kept s) (ht : s.timedOut = true ∨ s.aborted = true) : Kept (startKill o s) := by
  have hsignal := signalled_signalChild (o := o) (s := s) .sigterm
  have hkept := h.of_signalled hsignal
  refine ⟨fun _ => ?_, hkept.absent, hkept.woken, hkept.settled⟩
  rw [← hsignal.timedOut, ← hsignal.aborted] at ht
  exact ht

theorem step_kept {e : Event} (hkill : o.killTree = true) (hstep : step o s e = some t) (h : Kept s) : Kept t := by
  cases e with
  | writes i bytes | data i n | eof i =>
    simp only [step, Option.ite_none_right_eq_some, Option.some.injEq] at hstep
    obtain ⟨-, rfl⟩ := hstep
    exact ⟨h.timers, h.absent, h.woken, h.settled⟩
  | shuts i =>
    cases hstep
    exact ⟨h.timers, h.absent, h.woken, h.settled⟩
  | forks pid =>
    simp only [step, Option.ite_none_left_eq_some, Option.some.injEq] at hstep
    obtain ⟨halive, rfl⟩ := hstep
    refine ⟨h.timers, fun habsent => absurd ⟨?_, h.absent habsent⟩ halive, h.woken, h.settled⟩
    intro hrunning
    simp only at habsent
    rw [hrunning] at habsent
    cases habsent
  | exits pid =>
    cases hstep
    refine ⟨h.timers, fun habsent => ?_, h.woken, h.settled⟩
    simp only [h.absent habsent, List.erase_nil]
  | leaderExits code signal =>
    simp only [step, Option.ite_none_right_eq_some, Option.some.injEq] at hstep
    obtain ⟨-, rfl⟩ := hstep
    refine ⟨h.timers, ?_, ?_, h.settled⟩
    · rintro ⟨⟩
    · rintro - ⟨⟩
  | exit =>
    simp only [step] at hstep
    split at hstep
    · rename_i hleader
      simp only [Option.ite_none_right_eq_some, Option.some.injEq] at hstep
      obtain ⟨-, rfl⟩ := hstep
      refine ⟨h.timers, h.absent, fun _ => ?_, fun hsettled => ⟨rfl, (h.settled hsettled).2⟩⟩
      rw [hleader]
      rintro ⟨⟩
    · cases hstep
  | error text =>
    simp only [step, Option.ite_none_right_eq_some, Option.some.injEq] at hstep
    obtain ⟨⟨hleader, -⟩, rfl⟩ := hstep
    refine ⟨h.timers, h.absent, fun _ => ?_, fun hsettled => ⟨rfl, (h.settled hsettled).2⟩⟩
    rw [hleader]
    rintro ⟨⟩
  | continues =>
    obtain ⟨hwaking, rfl⟩ := continues_eq_some hstep
    have hwoken : s.woken.isSome = true := (Bool.and_eq_true_iff.mp hwaking).1
    refine ⟨fun hne => h.timers fun hnil => hne (by simp [settle, hnil]), h.absent, h.woken, fun _ => ⟨hwoken, rfl, ?_⟩⟩
    simp [settle, hkill]
  | close =>
    simp only [step, Option.ite_none_right_eq_some, Option.some.injEq] at hstep
    obtain ⟨-, rfl⟩ := hstep
    exact h
  | timeout =>
    simp only [step, Option.ite_none_right_eq_some, Option.some.injEq] at hstep
    obtain ⟨⟨harmed, -⟩, rfl⟩ := hstep
    refine kept_startKill ⟨fun _ => Or.inl rfl, h.absent, h.woken, fun hsettled => ?_⟩ (Or.inl rfl)
    exact ⟨(h.settled hsettled).1, rfl, (h.settled hsettled).2.2⟩
  | abort =>
    simp only [step, Option.ite_none_right_eq_some, Option.some.injEq] at hstep
    obtain ⟨-, rfl⟩ := hstep
    refine kept_startKill ⟨fun _ => Or.inr rfl, h.absent, h.woken, fun hsettled => ?_⟩ (Or.inr rfl)
    obtain ⟨hwoken, htimeout, hsigint, hsigterm, -⟩ := h.settled hsettled
    exact ⟨hwoken, htimeout, hsigint, hsigterm, rfl⟩
  | hostSignal signal =>
    simp only [step] at hstep
    split_ifs at hstep
    · cases hstep
      refine Kept.of_signalled ?_ (signalled_signalChild .sigint)
      refine ⟨h.timers, h.absent, h.woken, fun hsettled => ?_⟩
      obtain ⟨hwoken, htimeout, -, hrest⟩ := h.settled hsettled
      exact ⟨hwoken, htimeout, rfl, hrest⟩
    · cases hstep
      refine Kept.of_signalled ?_ (signalled_signalChild .sigterm)
      refine ⟨h.timers, h.absent, h.woken, fun hsettled => ?_⟩
      obtain ⟨hwoken, htimeout, hsigint, -, hrest⟩ := h.settled hsettled
      exact ⟨hwoken, htimeout, hsigint, rfl, hrest⟩
  | forceKill timer =>
    simp only [step, Option.ite_none_right_eq_some, Option.some.injEq] at hstep
    obtain ⟨⟨htimer, -⟩, rfl⟩ := hstep
    refine Kept.of_signalled ?_ (signalled_signalChild .sigkill)
    exact ⟨fun _ => h.timers (List.ne_nil_of_mem htimer), h.absent, h.woken, h.settled⟩

theorem run_kept {ok : Call → Event → Prop} {es : List Event} (hkill : o.killTree = true)
    (h : Under (step o) ok (initial o started) es s) : Kept s :=
  h.invariant (fun _ _ _ hs _ hstep => step_kept hkill hstep hs) kept_initial

/-! ### Settling -/

/-- Only the continuation of the call settles it. --/
theorem step_settled {e : Event} (hstep : step o s e = some t) (he : e ≠ .continues) : t.settled = s.settled := by
  cases e with
  | continues => exact absurd rfl he
  | shuts i | exits pid =>
    cases hstep
    rfl
  | forks pid =>
    simp only [step, Option.ite_none_left_eq_some, Option.some.injEq] at hstep
    obtain ⟨-, rfl⟩ := hstep
    rfl
  | exit =>
    simp only [step] at hstep
    split at hstep
    · simp only [Option.ite_none_right_eq_some, Option.some.injEq] at hstep
      obtain ⟨-, rfl⟩ := hstep
      rfl
    · cases hstep
  | hostSignal signal =>
    simp only [step] at hstep
    split_ifs at hstep
    all_goals
      cases hstep
      exact (signalled_signalChild _).settled
  | timeout | abort =>
    simp only [step, Option.ite_none_right_eq_some, Option.some.injEq] at hstep
    obtain ⟨-, rfl⟩ := hstep
    exact (signalled_signalChild .sigterm).settled
  | forceKill timer =>
    simp only [step, Option.ite_none_right_eq_some, Option.some.injEq] at hstep
    obtain ⟨-, rfl⟩ := hstep
    exact (signalled_signalChild .sigkill).settled
  | writes i bytes | data i n | eof i | leaderExits code signal | error text | close =>
    simp only [step, Option.ite_none_right_eq_some, Option.some.injEq] at hstep
    obtain ⟨-, rfl⟩ := hstep
    rfl

/-- After the call has settled, a step keeps its flags, its timers and the record of signals, and revives no process. --/
structure Still (s t : Call) : Prop where
  timedOut : t.timedOut = s.timedOut
  aborted : t.aborted = s.aborted
  killTimers : t.killTimers = s.killTimers
  sent : t.sent = s.sent
  gone : s.gone → t.gone

/-- The one other thing that happens then is that a timer fires. --/
theorem step_still {e : Event} (hstep : step o s e = some t) (h : Kept s) (hsettled : s.settled.isSome = true) :
    Still s t ∨ ∃ timer ∈ s.killTimers, t = signalChild o { s with killTimers := s.killTimers.erase timer } .sigkill := by
  obtain ⟨hwoken, htimeout, hsigint, hsigterm, habort⟩ := h.settled hsettled
  have hleader := h.woken hwoken
  cases e with
  | writes i bytes | data i n | eof i | close =>
    simp only [step, Option.ite_none_right_eq_some, Option.some.injEq] at hstep
    obtain ⟨-, rfl⟩ := hstep
    exact Or.inl ⟨rfl, rfl, rfl, rfl, id⟩
  | shuts i =>
    cases hstep
    exact Or.inl ⟨rfl, rfl, rfl, rfl, id⟩
  | forks pid =>
    simp only [step, Option.ite_none_left_eq_some, Option.some.injEq] at hstep
    obtain ⟨halive, rfl⟩ := hstep
    exact Or.inl ⟨rfl, rfl, rfl, rfl, fun hgone => absurd hgone halive⟩
  | exits pid =>
    cases hstep
    exact Or.inl ⟨rfl, rfl, rfl, rfl, fun hgone => ⟨hgone.1, by simp only [hgone.2, List.erase_nil]⟩⟩
  | leaderExits code signal => simp [step, hleader] at hstep
  | exit =>
    have hnone : s.woken ≠ none := Option.isSome_iff_ne_none.mp hwoken
    simp only [step, if_neg hnone] at hstep
    split at hstep <;> cases hstep
  | error text =>
    have hnone : s.woken ≠ none := Option.isSome_iff_ne_none.mp hwoken
    simp [step, hnone] at hstep
  | continues =>
    have hsome : s.settled.isNone = false := by simpa using hsettled
    simp [step, Call.waking, hsome] at hstep
  | timeout => simp [step, htimeout] at hstep
  | abort => simp [step, habort] at hstep
  | hostSignal signal => simp [step, hsigint, hsigterm] at hstep
  | forceKill timer =>
    simp only [step, Option.ite_none_right_eq_some, Option.some.injEq] at hstep
    obtain ⟨⟨htimer, -⟩, rfl⟩ := hstep
    exact Or.inr ⟨timer, htimer, rfl⟩

/-- The call goes on. --/
theorem settle_cleaned (hstep : step o s .continues = some t) : t.Cleaned ↔ Outlasted s .continues := by
  obtain ⟨-, rfl⟩ := continues_eq_some hstep
  have htimers : (settle o s).killTimers ≠ [] ↔ ∃ timer ∈ s.killTimers, some timer ≠ s.killTimeout := by
    simp [settle, List.filter_eq_nil_iff]
  have hcovered : (settle o s).Covered ↔ s.gone ∨ ∃ timer ∈ s.killTimers, some timer ≠ s.killTimeout :=
    or_congr Iff.rfl htimers
  constructor
  · intro h _ ht
    exact hcovered.mp (h rfl ht)
  · intro h _ ht
    exact hcovered.mpr (h rfl ht)

theorem step_cleaned {e : Event} (hdetached : o.detached = true) (hstep : step o s e = some t) (h : Kept s)
    (hok : Outlasted s e) (hs : s.Cleaned) : t.Cleaned := by
  by_cases he : e = .continues
  · subst he
    exact (settle_cleaned hstep).mpr hok
  · intro hsettled ht
    rw [step_settled hstep he] at hsettled
    rcases step_still hstep h hsettled with hstill | ⟨timer, -, rfl⟩
    · rw [hstill.timedOut, hstill.aborted] at ht
      rcases hs hsettled ht with hgone | htimers
      · exact Or.inl (hstill.gone hgone)
      · exact Or.inr (hstill.killTimers ▸ htimers)
    · exact Or.inl (gone_sigkill hdetached h.absent)

/-- A call that settled for another reason. --/
def Quiet (s : Call) : Prop := s.settled.isSome = true ∧ s.timedOut = false ∧ s.aborted = false

/-- It sends no signal any more. --/
theorem run_quiet {es : List Event} {ok : Call → Event → Prop} (hkill : o.killTree = true) (h : Under (step o) ok s es t)
    (hs : Kept s) (hquiet : Quiet s) : t.sent = s.sent := by
  have hinvariant : Kept t ∧ Quiet t ∧ t.sent = s.sent := by
    refine h.invariant (P := fun u => Kept u ∧ Quiet u ∧ u.sent = s.sent) ?_ ⟨hs, hquiet, rfl⟩
    intro u e v ⟨hu, ⟨hsettled, htimedOut, haborted⟩, hsent⟩ _ hstep
    have hnone : u.killTimers = [] := by
      by_contra hne
      rcases hu.timers hne with ht | ht
      · rw [htimedOut] at ht
        cases ht
      · rw [haborted] at ht
        cases ht
    have hwoken : e ≠ .continues := by
      rintro rfl
      obtain ⟨hwaking, -⟩ := continues_eq_some hstep
      have hnot := (Bool.and_eq_true_iff.mp hwaking).2
      simp [Option.isNone_iff_eq_none.mp hnot] at hsettled
    rcases step_still hstep hu hsettled with hstill | ⟨timer, htimer, -⟩
    · refine ⟨step_kept hkill hstep hu, ⟨?_, hstill.timedOut.trans htimedOut, hstill.aborted.trans haborted⟩,
        hstill.sent.trans hsent⟩
      rw [step_settled hstep hwoken]
      exact hsettled
    · rw [hnone] at htimer
      cases htimer
  exact hinvariant.2.2

/-- With `killTree` on POSIX: as long as no call goes on, after a timeout or an abort, with descendants left and only the
    cleared timer set, each state of a run has the group gone or a `SIGKILL` to come; a call that goes on otherwise has
    neither. In every run a call that settled for another reason sends no signal any more. --/
theorem tree_kill (hkill : o.killTree = true) (hposix : o.win32 = false) (started : Bool) :
    (∀ es s, Under (step o) Outlasted (initial o started) es s → s.Cleaned) ∧
    (∀ s t, step o s .continues = some t → (t.Cleaned ↔ Outlasted s .continues)) ∧
    (∀ es s fs t, Under (step o) (fun _ _ => True) (initial o started) es s → Quiet s →
      Under (step o) (fun _ _ => True) s fs t → t.sent = s.sent) := by
  have hdetached : o.detached = true := by simp [CommandOptions.detached, hkill, hposix]
  refine ⟨fun es s hrun => ?_, fun s t hstep => settle_cleaned hstep, fun es s fs t hrun hquiet hmore => ?_⟩
  · have hboth : Kept s ∧ s.Cleaned := by
      refine hrun.invariant (P := fun u => Kept u ∧ u.Cleaned) ?_ ⟨kept_initial, fun h => by cases h⟩
      intro u e v ⟨hu, hcleaned⟩ hok hstep
      exact ⟨step_kept hkill hstep hu, step_cleaned hdetached hstep hu hok hcleaned⟩
    exact hboth.2
  · exact run_quiet hkill hmore (run_kept hkill hrun) hquiet

/-- A command with a timeout and a signal. --/
def guarded : CommandOptions where
  command := "docker"
  args := ["build"]
  capture := false
  allowFailure := true
  timeoutMs := some 1000
  killTree := true
  signal := true
  win32 := false

/-- A descendant that outlives the leader is killed by the timer of the abort, which came before the timeout. --/
theorem tree_kill_twice : ∃ s t, step guarded s (.forceKill 0) = some t ∧ s.settled.isSome = true ∧ s.Covered ∧ t.gone := by
  obtain ⟨s, hrun, t, hstep, hsettled, htimedOut, hgone⟩ : ∃ s, Under (step guarded) Outlasted (initial guarded true)
      [.forks 7, .abort, .timeout, .leaderExits none (some .sigterm), .exit, .continues] s ∧
      ∃ t, step guarded s (.forceKill 0) = some t ∧ s.settled.isSome = true ∧ s.timedOut = true ∧ t.gone :=
    ⟨_, under_of_runUnder rfl, _, rfl, rfl, rfl, by decide⟩
  have hcleaned := (tree_kill (o := guarded) rfl rfl true).1 _ s hrun
  exact ⟨s, t, hstep, hsettled, hcleaned hsettled (Or.inl htimedOut), hgone⟩

/-- The leader ends at the `SIGTERM` of the timeout and a descendant does not: the timer is cleared, and it stays. --/
theorem tree_kill_descendant : ¬∀ (o : CommandOptions) (es : List Event) (s : Call), o.killTree = true → o.win32 = false →
    Under (step o) (fun _ _ => True) (initial o true) es s → s.Cleaned := by
  intro h
  obtain ⟨s, hrun, hsettled, htimedOut, hleft, htimers⟩ : ∃ s, Under (step guarded) (fun _ _ => True) (initial guarded true)
      [.forks 7, .timeout, .leaderExits none (some .sigterm), .exit, .continues] s ∧
      s.settled.isSome = true ∧ s.timedOut = true ∧ s.descendants = [7] ∧ s.killTimers = [] :=
    ⟨_, under_of_runUnder rfl, rfl, rfl, rfl, rfl⟩
  rcases h guarded _ s rfl rfl hrun hsettled (Or.inl htimedOut) with hgone | hne
  · rw [hgone.2] at hleft
    cases hleft
  · exact hne htimers

end NodeVmm.Process
