import NodeVmm.Theorems.BlkQueue

/-! Write confinement: what `process_request` may change in guest RAM. The code keeps to the writable buffers
    of the chain and to the published used element as long as three of its branches are not taken: the id of
    a type-8 request goes to its first data descriptor unchecked, the catch path stores its status byte at the
    last descriptor unchecked, and it finds that descriptor in a table that the request may have overwritten. -/

namespace NodeVmm.Blk
open ByteStore

variable {b : Backend} {head : UInt16} {s t u : Blk}

/-- The offset `i` is in the buffer of a device-writable descriptor of the chain that `head` names. --/
def InWritable (b : Backend) (head : UInt16) (s : Blk) (i : Nat) : Prop :=
  ∃ chain, s.mem.walkChain b s.queue head = .ok chain ∧
    ∃ d ∈ chain, d.writable = true ∧ Touches b d.addr d.len.toNat i

/-- The offset `i` belongs to the index of the used ring, or to the element at `position`. --/
def InUsed (b : Backend) (q : Queue) (position : UInt16) (i : Nat) : Prop :=
  GuestMemory.InUsedIdx b q i ∨ GuestMemory.InUsedElem b q position i

/-- A request changes RAM only in the writable buffers of its chain and, when it publishes, in the used index
    and the element that the index then counts last. --/
def Confined (b : Backend) (head : UInt16) (s : Blk) : Prop :=
  ∀ i, ¬InWritable b head s i →
    ((processRequest b head s).1 = .ok () →
      ¬InUsed b s.queue ((processRequest b head s).2.mem.usedIdx b s.queue - 1) i) →
    (processRequest b head s).2.mem.ram.byte i = s.mem.ram.byte i

/-- The chain passes the checks before the branch on the request type. --/
structure Accepted (b : Backend) (m : GuestMemory) (header status : Desc) : Prop where
  headerLen : 16 ≤ header.len
  writable : status.writable = true
  statusLen : 1 ≤ status.len
  ram : m.InRam b header.addr 16

/-- The try block throws. --/
def Throws (b : Backend) (head : UInt16) (s : Blk) : Prop :=
  ∃ e t, serveRequest b head (setWritten 0 s) = (.error e, t)

/-- The condition on the state in which a request starts. --/
structure Guarded (b : Backend) (head : UInt16) (s : Blk) : Prop where
  /-- A last descriptor that is not writable, or is empty, is outside RAM, or its first byte is 1 already or
      one that the request may change. --/
  status : ∀ chain last, s.mem.walkChain b s.queue head = .ok chain → chain.getLast? = some last →
    ¬(last.writable = true ∧ 1 ≤ last.len) → s.mem.InRam b last.addr 1 → ∀ i, Touches b last.addr 1 i →
    s.mem.ram.byte i = 1 ∨ InWritable b head s i ∨
      (s.mem.InRam b s.queue.deviceAddr (4 + 8 * s.queue.size) ∧
        InUsed b s.queue (s.mem.usedIdx b s.queue) i)
  /-- The first data descriptor of a type-8 request is writable, or the id is there already. --/
  id : ∀ header d rest status, s.mem.walkChain b s.queue head = .ok (header :: (d :: rest ++ [status])) →
    Accepted b s.mem header status → requestType b s.mem header = 8 →
    IdSpares b (fun i => ¬InWritable b head s i) s.mem d
  /-- When the try block throws, no writable buffer overlaps the descriptor table. --/
  table : ∀ header data status, s.mem.walkChain b s.queue head = .ok (header :: (data ++ [status])) →
    Accepted b s.mem header status → Throws b head s →
    ∀ d ∈ header :: (data ++ [status]), d.writable = true → Spares b (GuestMemory.InDescTable b s.queue) d

/-! ### The state of the last publication -/

theorem LastPush.queue (h : LastPush b head s u) : u.queue = s.queue := by
  have hful : Same (fun _ => False) (setWritten 0 s) (fulfil b head (setWritten 0 s)).2 :=
    same_fulfil fun header data status _ => ⟨fun _ _ _ _ _ h => h, fun _ _ _ _ _ _ _ h => h.elim⟩
  cases h with
  | served hrun _ =>
    rw [hrun] at hful
    exact hful.queue
  | caught r t hrun _ hreport =>
    rw [hrun] at hful
    have hkeep : Same (fun _ => False) t u := by
      cases hc : t.mem.walkChain b t.queue head with
      | error e =>
        rw [reportError_of_error hc] at hreport
        cases hreport
        exact Same.refl _ _
      | ok chain =>
        obtain ⟨last, hl⟩ := GuestMemory.walkChain_last hc
        rw [reportError_of_chain hc hl] at hreport
        cases hreport
        exact same_failed fun _ _ h => h
    exact hkeep.queue.trans hful.queue

/-- What the request changed before its last publication decides. --/
theorem confined_iff (b : Backend) (head : UInt16) (s : Blk) : ∃ u, LastPush b head s u ∧ (Confined b head s ↔ ∀ i, ¬InWritable b head s i →
    ¬(u.mem.CanPublish b s.queue ∧ InUsed b s.queue (u.mem.usedIdx b s.queue) i) →
    u.mem.ram.byte i = s.mem.ram.byte i) := by
  obtain ⟨u, hlp, hend⟩ := processRequest_lastPush b head s
  refine ⟨u, hlp, ?_⟩
  rw [hlp.queue] at hend
  unfold Confined
  rcases hend with ⟨hcan, w, hend⟩ | ⟨hcan, e, hend⟩
  · have hidx : (u.mem.published b s.queue head.toUInt32 w).usedIdx b s.queue - 1 = u.mem.usedIdx b s.queue := by
      rw [GuestMemory.usedIdx_published, UInt16.add_sub_cancel]
    have hbyte : ∀ i, ¬InUsed b s.queue (u.mem.usedIdx b s.queue) i →
        (u.mem.published b s.queue head.toUInt32 w).ram.byte i = u.mem.ram.byte i := fun i hi =>
      (GuestMemory.agreeOn_published _ w hcan).byte i ⟨fun h => hi (.inl h), fun h => hi (.inr h)⟩
    rw [hend]
    dsimp only [setMem]
    rw [hidx]
    refine forall_congr' fun i => forall_congr' fun _ => ?_
    constructor
    · intro h hno
      have hi : ¬InUsed b s.queue (u.mem.usedIdx b s.queue) i := fun hi => hno ⟨hcan, hi⟩
      rw [← hbyte i hi]
      exact h fun _ => hi
    · intro h hno
      rw [hbyte i (hno rfl)]
      exact h fun hi => hno rfl hi.2
  · rw [hend]
    refine forall_congr' fun i => forall_congr' fun _ => ?_
    exact ⟨fun h _ => h (fun hok => nomatch hok), fun h _ => h fun hi => hcan hi.1⟩

/-! ### Chains whose request is not carried out -/

theorem fulfil_of_invalid {chain : List Desc} {last : Desc} (hw : s.mem.walkChain b s.queue head = .ok chain)
    (hl : chain.getLast? = some last) (hbad : ¬(last.writable = true ∧ 1 ≤ last.len)) :
    ∃ e, fulfil b head s = (.error e, s) := by
  rcases chain with _ | ⟨header, rest⟩
  · cases hl
  · rcases List.eq_nil_or_concat rest with rfl | ⟨data, status, rfl⟩
    · exact fulfil_of_single hw
    · rw [List.concat_eq_append] at hw hl
      have hlast : (header :: (data ++ [status])).getLast? = some status := List.getLast?_concat (l := header :: data)
      obtain rfl := Option.some.inj (hlast.symm.trans hl)
      rw [fulfil_of_chain hw]
      exact fulfilChain_of_invalid header data hbad

theorem fulfilChain_of_not_accepted {header status : Desc} (data : List Desc)
    (h : ¬Accepted b s.mem header status) : ∃ e, fulfilChain b header data status s = (.error e, s) := by
  by_cases hst : status.writable = true ∧ 1 ≤ status.len
  · unfold fulfilChain
    by_cases hlen : 16 ≤ header.len
    · have hvalid : (status.writable && decide (1 ≤ status.len)) = true := by simpa using hst
      obtain ⟨e, he⟩ := GuestMemory.ptr_of_not_inRam (fun hin => h ⟨hlen, hst.1, hst.2, hin⟩)
      exact ⟨e, (Exec.bind_of_ok (Exec.check_of_true (by simpa using hlen))).trans
        ((Exec.bind_of_ok (Exec.check_of_true hvalid)).trans
          (Exec.bind_of_error (ptr_run.trans (congrArg (·, s) he))))⟩
    · exact ⟨_, Exec.bind_of_error (Exec.check_of_false (by simpa using hlen))⟩
  · exact fulfilChain_of_invalid header data hst

/-- A failed request that stored nothing ends with the status byte at the last descriptor of its chain. --/
theorem LastPush.of_error {e : String} (h : LastPush b head s u)
    (hful : fulfil b head (setWritten 0 s) = (.error e, setWritten 0 s)) {chain : List Desc} {last : Desc}
    (hw : s.mem.walkChain b s.queue head = .ok chain) (hl : chain.getLast? = some last) :
    u = failed b last (setWritten 0 s) := by
  cases h with
  | served hrun _ =>
    rw [hful] at hrun
    cases hrun
  | caught r t hrun _ hreport =>
    rw [hful] at hrun
    cases hrun
    rw [reportError_of_chain (s := setWritten 0 s) hw hl] at hreport
    cases hreport
    rfl

theorem byte_failed {last : Desc} {i : Nat} :
    (failed b last s).mem.ram.byte i =
      if s.mem.InRam b last.addr 1 ∧ Touches b last.addr 1 i then 1 else s.mem.ram.byte i := by
  unfold failed
  by_cases hin : s.mem.InRam b last.addr 1
  · by_cases hi : Touches b last.addr 1 i
    · rw [if_pos hin, if_pos ⟨hin, hi⟩]
      have hw : Within (b.offset last.addr) [(1 : UInt8)].length i := hin.touches_iff.mpr hi
      show (s.mem.ram.write (b.offset last.addr) [1]).byte i = 1
      rw [byte_write_of_within hw]
      have h1 := hw.1
      have h2 := hw.2
      simp only [List.length_cons, List.length_nil] at h2
      have h0 : i - b.offset last.addr = 0 := by omega
      rw [h0]
      rfl
    · rw [if_pos hin, if_neg fun h => hi h.2]
      exact byte_write_of_not_within fun hw => hi (hin.touches_iff.mp hw)
  · rw [if_neg hin, if_neg fun h => hin h.1]

theorem throws_of_caught {r : Except String Unit} (hrun : fulfil b head (setWritten 0 s) = (r, t))
    (hthrow : r = .ok () → ¬t.mem.CanPublish b t.queue) : Throws b head s := by
  cases r with
  | error e => exact ⟨e, t, Exec.bind_of_error hrun⟩
  | ok a =>
    obtain ⟨e, he⟩ := publish_of_not_canPublish head (t.written + 1) (hthrow rfl)
    exact ⟨e, t, (Exec.bind_of_ok hrun).trans ((Exec.bind_of_ok Exec.get_apply).trans he)⟩

/-! ### The condition is enough -/

/-- The status byte at an unchecked last descriptor, under the condition on it. --/
theorem Guarded.byte_failed_of_invalid (h : Guarded b head s) {chain : List Desc} {last : Desc} {i : Nat}
    (hc : s.mem.walkChain b s.queue head = .ok chain) (hl : chain.getLast? = some last)
    (hbad : ¬(last.writable = true ∧ 1 ≤ last.len)) (hw : ¬InWritable b head s i)
    (hno : ¬((failed b last (setWritten 0 s)).mem.CanPublish b s.queue ∧
      InUsed b s.queue ((failed b last (setWritten 0 s)).mem.usedIdx b s.queue) i)) :
    (failed b last (setWritten 0 s)).mem.ram.byte i = s.mem.ram.byte i := by
  rw [byte_failed]
  split
  · rename_i hi
    rcases h.status chain last hc hl hbad hi.1 i hi.2 with h1 | h1 | ⟨hdev, hused⟩
    · exact h1.symm
    · exact absurd h1 hw
    · have hsize : (failed b last (setWritten 0 s)).mem.size = s.mem.size := by unfold failed; split <;> rfl
      have hdev' := (GuestMemory.inRam_congr hsize).mpr hdev
      refine absurd ⟨GuestMemory.canPublish_of_inRam hdev', ?_⟩ hno
      by_cases hidx : GuestMemory.InUsedIdx b s.queue i
      · exact .inl hidx
      · have hsame : (failed b last (setWritten 0 s)).mem.usedIdx b s.queue = s.mem.usedIdx b s.queue := by
          refine readU16_congr fun k hk => byte_failed.trans (if_neg ?_)
          rintro ⟨-, hk'⟩
          have hki : k = i := by
            have := hi.2.1
            have := hi.2.2
            have := hk'.1
            have := hk'.2
            omega
          exact hidx (hki ▸ (GuestMemory.usedIdx_inRam hdev).touches_iff.mp hk)
        rw [hsame]
        exact hused
  · rfl

theorem confined_of_guarded (h : Guarded b head s) : Confined b head s := by
  obtain ⟨u, hlp, hiff⟩ := confined_iff b head s
  refine hiff.mpr fun i hw hno => ?_
  cases hc : s.mem.walkChain b s.queue head with
  | error e =>
    cases hlp with
    | served hrun _ =>
      rw [fulfil_of_error (s := setWritten 0 s) hc] at hrun
      cases hrun
    | caught r t hrun _ hreport =>
      rw [fulfil_of_error (s := setWritten 0 s) hc] at hrun
      cases hrun
      rw [reportError_of_error (s := setWritten 0 s) hc] at hreport
      cases hreport
      rfl
  | ok chain =>
    obtain ⟨last, hl⟩ := GuestMemory.walkChain_last hc
    by_cases hgood : last.writable = true ∧ 1 ≤ last.len
    · -- the status byte goes to a writable buffer, so only the stores before it matter
      have hlast : ∀ t : Blk, (failed b (last) t).mem.ram.byte i = t.mem.ram.byte i := fun t => by
        rw [byte_failed, if_neg]
        rintro ⟨-, hi⟩
        have hlen : 1 ≤ last.len.toNat := hgood.2
        exact hw ⟨chain, hc, _, List.mem_of_getLast? hl, hgood.1, hi.1, by have := hi.2; omega⟩
      have hnostore : ∀ e, fulfil b head (setWritten 0 s) = (.error e, setWritten 0 s) →
          u.mem.ram.byte i = s.mem.ram.byte i := fun e he => by
        rw [hlp.of_error he hc hl, hlast]
        rfl
      rcases chain with _ | ⟨header, rest⟩
      · cases hl
      · rcases List.eq_nil_or_concat rest with rfl | ⟨data, status, rfl⟩
        · obtain ⟨e, he⟩ := fulfil_of_single (s := setWritten 0 s) hc
          exact hnostore e he
        · rw [List.concat_eq_append] at hc hl
          by_cases hacc : Accepted b s.mem header status
          · have hful : Same (fun i => ¬InWritable b head s i) (setWritten 0 s) (fulfil b head (setWritten 0 s)).2 := by
              rw [fulfil_of_chain (s := setWritten 0 s) hc]
              refine same_fulfilChain (fun d hd hdw i hi => not_not.mpr ?_) (fun hdw i hi => not_not.mpr ?_)
                fun h8 d rest hdata => ?_
              · exact ⟨_, hc, d, by simp [hd], hdw, hi⟩
              · exact ⟨_, hc, status, by simp, hdw, hi⟩
              · subst hdata
                exact h.id header d rest status hc hacc h8
            cases hlp with
            | served hrun _ =>
              rw [hrun] at hful
              exact hful.ram.byte i hw
            | caught r t hrun hthrow hreport =>
              rw [hrun] at hful
              have htable : ∀ k, GuestMemory.InDescTable b s.queue k → ¬InWritable b head s k := by
                rintro k hk ⟨chain', hc', d, hd, hdw, hi⟩
                obtain rfl := Except.ok.inj (hc.symm.trans hc')
                exact h.table header data status hc hacc (throws_of_caught hrun hthrow) d hd hdw k hi hk
              have hwalk : t.mem.walkChain b t.queue head = .ok (header :: (data ++ [status])) := by
                rw [hful.queue]
                exact (GuestMemory.walkChain_congr hful.ram htable head).trans hc
              rw [reportError_of_chain hwalk hl] at hreport
              cases hreport
              exact (hlast t).trans (hful.ram.byte i hw)
          · obtain ⟨e, he⟩ := fulfilChain_of_not_accepted (s := setWritten 0 s) data hacc
            exact hnostore e ((fulfil_of_chain (s := setWritten 0 s) hc).trans he)
    · obtain ⟨e, he⟩ := fulfil_of_invalid (s := setWritten 0 s) hc hl hgood
      obtain rfl := hlp.of_error he hc hl
      exact h.byte_failed_of_invalid hc hl hgood hw hno

/-! ### The condition is needed -/

/-- The id of an accepted type-8 request reaches its first data descriptor, and stays there. --/
theorem byte_fulfilChain_id {header d status : Desc} {rest : List Desc} {i : Nat} (hacc : Accepted b s.mem header status)
    (h8 : requestType b s.mem header = 8) (hin : s.mem.InRam b d.addr (idLen d)) (hi : Touches b d.addr (idLen d) i)
    (hst : ¬Touches b status.addr status.len.toNat i) :
    (fulfilChain b header (d :: rest) status s).2.mem.ram.byte i = idBytes.getD (i - b.offset d.addr) 0 := by
  have hw := hin.touches_iff.mpr hi
  have hid : (setMem (s.mem.store (b.offset d.addr) (idBytes.take (idLen d))) s).mem.ram.byte i =
      idBytes.getD (i - b.offset d.addr) 0 := by
    have hlt : i - b.offset d.addr < idLen d := by have := hw.1; have := hw.2; omega
    show (s.mem.ram.write (b.offset d.addr) (idBytes.take (idLen d))).byte i = _
    rw [byte_write_of_within (by rwa [length_id])]
    simp only [List.getD_eq_getElem?_getD, List.getElem?_take, hlt, if_true]
  have hget : getId b (d :: rest) s = (.ok (), addWritten (UInt32.ofNat (idLen d))
      (setMem (s.mem.store (b.offset d.addr) (idBytes.take (idLen d))) s)) :=
    Exec.bind_of_ok (ptr_run.trans (congrArg (·, s) (GuestMemory.ptr_of_inRam hin)))
  have hreq : request b (s.mem.ram.readU32 (b.offset header.addr)) (s.mem.ram.readU64 (b.offset header.addr + 8))
      (d :: rest) s =
      (.ok 0, addWritten (UInt32.ofNat (idLen d))
        (setMem (s.mem.store (b.offset d.addr) (idBytes.take (idLen d))) s)) := by
    rw [show s.mem.ram.readU32 (b.offset header.addr) = 8 from h8]
    exact Exec.bind_of_ok hget
  have hvalid : (status.writable && decide (1 ≤ status.len)) = true := by simpa using ⟨hacc.writable, hacc.statusLen⟩
  unfold fulfilChain
  rw [Exec.bind_of_ok (Exec.check_of_true (by simpa using hacc.headerLen)), Exec.bind_of_ok (Exec.check_of_true hvalid),
    Exec.bind_of_ok (ptr_run.trans (congrArg (·, s) (GuestMemory.ptr_of_inRam hacc.ram))),
    Exec.bind_of_ok Exec.get_apply, Exec.bind_of_ok hreq]
  refine Eq.trans ?_ hid
  have hframe := same_frame fun k => k = i
  refine AgreeOn.byte (K := fun k => k = i) (Same.ram (hframe.bind (keeps_ptr _) fun p t ht => ?_)) i rfl
  obtain ⟨hin', rfl, -⟩ := ptr_ok ht
  refine keeps_store (K := fun k => k = i) (fun k hk (hki : k = i) => hst (hki ▸ ?_)) t
  have hlen : 1 ≤ status.len.toNat := hacc.statusLen
  have h1 := hin'.touches_iff.mp hk
  exact ⟨h1.1, by have := h1.2; simp only [List.length_cons, List.length_nil] at this; omega⟩

section
variable (hfit : RingsFit b s.mem s.queue)
  (hspare : ∀ chain, s.mem.walkChain b s.queue head = .ok chain → ∀ d ∈ chain, Spares b (InRings b s.queue) d)
include hfit hspare

/-- On rings in RAM that no buffer overlaps, a confined request meets the condition. --/
theorem guarded_of_confined (h : Confined b head s) : Guarded b head s := by
  obtain ⟨u, hlp, hiff⟩ := confined_iff b head s
  have hsame := hiff.mp h
  refine ⟨fun chain last hc hl hbad hin i hi => ?_, fun header d rest status hc hacc h8 hid i hi hw => ?_,
    fun header data status hc _ _ d hd _ i hi htable => ?_⟩
  · obtain ⟨e, he⟩ := fulfil_of_invalid (s := setWritten 0 s) hc hl hbad
    obtain rfl := hlp.of_error he hc hl
    by_cases hw : InWritable b head s i
    · exact .inr (.inl hw)
    · by_cases hused : InUsed b s.queue (s.mem.usedIdx b s.queue) i
      · exact .inr (.inr ⟨hfit.device, hused⟩)
      · refine .inl ?_
        have hidx : (failed b last (setWritten 0 s)).mem.usedIdx b s.queue = s.mem.usedIdx b s.queue := by
          refine readU16_congr fun k hk => byte_failed.trans (if_neg ?_)
          rintro ⟨-, hk'⟩
          have hki : k = i := by
            have := hi.1
            have := hi.2
            have := hk'.1
            have := hk'.2
            omega
          exact hused (.inl (hki ▸ (GuestMemory.usedIdx_inRam hfit.device).touches_iff.mp hk))
        have hbyte := hsame i hw fun hno => hused (hidx ▸ hno.2)
        rw [byte_failed, if_pos ⟨hin, hi⟩] at hbyte
        exact hbyte.symm
  · have hrings : ¬InRings b s.queue i := hspare _ hc d (by simp) i
      ⟨hi.1, Nat.lt_of_lt_of_le hi.2 (Nat.add_le_add_left (Nat.min_le_left _ _) _)⟩
    have hst : ¬Touches b status.addr status.len.toNat i := fun hi' =>
      hw ⟨_, hc, status, by simp, hacc.writable, hi'⟩
    have hfulbyte : (fulfil b head (setWritten 0 s)).2.mem.ram.byte i = idBytes.getD (i - b.offset d.addr) 0 := by
      rw [fulfil_of_chain (s := setWritten 0 s) hc]
      exact byte_fulfilChain_id (s := setWritten 0 s) hacc h8 hid hi hst
    have hful : Same (InRings b s.queue) (setWritten 0 s) (fulfil b head (setWritten 0 s)).2 :=
      same_fulfil (s := setWritten 0 s) fun header data status hc' =>
        ⟨fun d hd _ => hspare _ hc' d (List.mem_cons_of_mem _ hd),
          fun _ d rest hd => (hspare _ hc' d (by simp [hd])).idSpares _⟩
    have hu : u.mem.ram.byte i = idBytes.getD (i - b.offset d.addr) 0 := by
      cases hlp with
      | served hrun _ =>
        rw [hrun] at hfulbyte
        exact hfulbyte
      | caught r t hrun _ hreport =>
        rw [hrun] at hfulbyte hful
        have hwalk : t.mem.walkChain b t.queue head = .ok (header :: (d :: rest ++ [status])) := by
          rw [hful.queue]
          exact (GuestMemory.walkChain_congr hful.ram (fun k => hfit.inRings_of_inDescTable) head).trans hc
        have hl : (header :: (d :: rest ++ [status])).getLast? = some status :=
          List.getLast?_concat (l := header :: d :: rest)
        rw [reportError_of_chain hwalk hl] at hreport
        cases hreport
        rw [byte_failed, if_neg, hfulbyte]
        rintro ⟨-, hi'⟩
        have hlen : 1 ≤ status.len.toNat := hacc.statusLen
        exact hst ⟨hi'.1, by have := hi'.2; omega⟩
    have hbyte := hsame i hw fun hno => hrings (Or.inr (Or.inr (hno.2.elim
      (GuestMemory.touches_of_inUsedIdx hfit.device) (GuestMemory.touches_of_inUsedElem hfit.device))))
    exact hbyte.symm.trans hu
  · exact hspare _ hc d hd i hi (hfit.inRings_of_inDescTable htable)

end

end NodeVmm.Blk
