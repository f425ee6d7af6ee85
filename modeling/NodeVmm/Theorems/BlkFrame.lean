import NodeVmm.Theorems.Virtqueue
import NodeVmm.VirtioBlk

/-! What the parts of `process_request` keep. Up to its call of `push_used`, the try block stores into the
    writable descriptors of the chain and, for a type-8 request, into the first data descriptor. -/

namespace NodeVmm

/-! ### Lengths of disk transfers -/

namespace Disk
variable {b : Backend} {d d' : Disk} {file : ByteStore} {len off : Nat} {t : Transfer}

theorem nextFault_ok (d : Disk) : ∃ f d', nextFault d = (.ok f, d') := by
  unfold nextFault
  cases d.faults with
  | nil => exact ⟨_, _, rfl⟩
  | cons f rest => exact ⟨_, _, rfl⟩

theorem preadAll_length_le (h : (preadAll b file len off d).1 = .ok t) : t.bytes.length ≤ len := by
  unfold preadAll at h
  obtain ⟨f, d', hf⟩ := nextFault_ok d
  rw [Exec.bind_of_ok hf] at h
  cases f with
  | none =>
    dsimp only at h
    split at h <;> cases h <;> simp only [ByteStore.length_read] <;> omega
  | some k =>
    dsimp only at h
    split at h
    · cases h
      simp only [ByteStore.length_read]
      omega
    · split at h <;> cases h <;> simp only [ByteStore.length_read] <;> omega

theorem readSectors_length_le {byteOff : Nat} : ∀ {fuel done : Nat} {d : Disk} {t : Transfer},
    (readSectors b byteOff len fuel done d).1 = .ok t → t.bytes.length ≤ len - done
  | 0, _, _, _, h => by
    cases h
    simp
  | fuel + 1, done, d, t, h => by
    unfold readSectors at h
    split at h
    · cases h
      simp
    · rename_i hdone
      rw [Exec.bind_of_ok Exec.get_apply] at h
      generalize hfile : (if d.sectorDirty (u64 (byteOff + done) / 512) = true then d.overlayFile else d.base) = file at h
      generalize hchunk : min (len - done) (512 - u64 (byteOff + done) % 512) = chunk at h
      have hle : chunk ≤ len - done := by omega
      rcases hp : preadAll b file chunk (u64 (byteOff + done)) d with ⟨e | part, d₁⟩
      · rw [Exec.bind_of_error hp] at h
        cases h
      · rw [Exec.bind_of_ok hp] at h
        have hpart : part.bytes.length ≤ chunk := preadAll_length_le (d := d) (by rw [hp])
        cases he : part.error with
        | some e =>
          simp only [he] at h
          cases h
          dsimp only
          omega
        | none =>
          simp only [he] at h
          rcases hr : readSectors b byteOff len fuel (done + chunk) d₁ with ⟨e | rest, d₂⟩
          · rw [Exec.bind_of_error hr] at h
            cases h
          · rw [Exec.bind_of_ok hr] at h
            have hrest := readSectors_length_le (d := d₁) (by rw [hr])
            cases h
            simp only [List.length_append]
            omega

/-- `ReadDisk` stores at most the bytes it was asked for. --/
theorem readDisk_length_le {sector : UInt64} (h : (readDisk b sector len d).1 = .ok t) : t.bytes.length ≤ len := by
  unfold readDisk at h
  rw [Exec.bind_of_ok Exec.get_apply] at h
  cases ho : d.diskOffset b "read" sector len with
  | error e =>
    rw [Exec.bind_of_error (by rw [Exec.lift_apply, ho])] at h
    cases h
  | ok byteOff =>
    rw [Exec.bind_of_ok (by rw [Exec.lift_apply, ho])] at h
    split at h
    · exact preadAll_length_le h
    · simpa using readSectors_length_le h

end Disk

namespace Blk
open ByteStore

/-! ### States that agree outside the stores -/

/-- `t` has the queue registers of `s` and its RAM at the offsets in `K`. --/
structure Same (K : Nat → Prop) (s t : Blk) : Prop where
  queue : t.queue = s.queue
  ram : AgreeOn K s.mem.ram t.mem.ram

section
variable {K : Nat → Prop} {b : Backend} {s t u : Blk}

theorem Same.refl (K : Nat → Prop) (s : Blk) : Same K s s := ⟨rfl, .refl K _⟩

theorem Same.trans (h₁ : Same K s t) (h₂ : Same K t u) : Same K s u :=
  ⟨h₂.queue.trans h₁.queue, h₁.ram.trans h₂.ram⟩

theorem Same.mono {L : Nat → Prop} (hL : ∀ i, L i → K i) (h : Same K s t) : Same L s t := ⟨h.queue, h.ram.mono hL⟩

theorem Same.size (h : Same K s t) : t.mem.size = s.mem.size := h.ram.size

theorem same_frame (K : Nat → Prop) : Exec.Frame (Same K) := ⟨Same.refl K, Same.trans⟩

theorem ptr_run {gpa : UInt64} {len : Nat} : ptr b gpa len s = (s.mem.ptr b gpa len, s) := rfl

theorem ptr_ok {gpa : UInt64} {len off : Nat} (h : ptr b gpa len s = (.ok off, t)) :
    s.mem.InRam b gpa len ∧ off = b.offset gpa ∧ t = s := by
  rw [ptr_run] at h
  obtain ⟨hp, ht⟩ := Prod.mk.inj h
  obtain ⟨hin, hoff⟩ := GuestMemory.ptr_eq_ok.mp hp
  exact ⟨hin, hoff, ht.symm⟩

theorem keeps_ptr {gpa : UInt64} {len : Nat} : Exec.Keeps (Same K) (ptr b gpa len) :=
  .bind (same_frame K) (.get (same_frame K)) fun _ => .lift (same_frame K)

theorem keeps_onDisk {α : Type} {x : Exec Disk α} : Exec.Keeps (Same K) (onDisk x) :=
  .focus fun _ _ => ⟨rfl, .refl K _⟩

theorem keeps_store {off : Nat} {bs : List UInt8} (h : ∀ i, Within off bs.length i → ¬K i) :
    Exec.Keeps (Same K) (store off bs) := fun _ => ⟨rfl, AgreeOn.write h⟩

theorem keeps_addWritten {n : UInt32} : Exec.Keeps (Same K) (Exec.modify (addWritten n)) :=
  .modify fun _ => ⟨rfl, .refl K _⟩

/-- `K` has no offset in the buffer of `d`. --/
def Spares (b : Backend) (K : Nat → Prop) (d : Desc) : Prop := ∀ i, Touches b d.addr d.len.toNat i → ¬K i

theorem keeps_readInto {sector : UInt64} {d : Desc} (h : Spares b K d) : Exec.Keeps (Same K) (readInto b sector d) := by
  refine .bind_of (same_frame K) keeps_ptr fun s dst t hdst => ?_
  obtain ⟨hin, rfl, -⟩ := ptr_ok hdst
  refine .bind_of (same_frame K) keeps_onDisk fun s part t hpart => ?_
  have hlen : part.bytes.length ≤ d.len.toNat :=
    Disk.readDisk_length_le (d := s.disk) (congrArg Prod.fst hpart)
  refine .bind (same_frame K) (keeps_store fun i hi => h i (hin.touches_iff.mp ⟨hi.1, ?_⟩)) fun _ => ?_
  · have := hi.2
    omega
  · cases part.error with
    | some e => exact .throw (same_frame K)
    | none => exact .pure (same_frame K)

theorem keeps_readData : ∀ {sector : UInt64} {data : List Desc}, (∀ d ∈ data, d.writable = true → Spares b K d) →
    Exec.Keeps (Same K) (readData b sector data)
  | _, [], _ => .pure (same_frame K)
  | sector, d :: rest, h => by
    obtain ⟨hd, hrest⟩ := List.forall_mem_cons.mp h
    unfold readData
    cases hw : d.writable with
    | false =>
      intro s
      exact Same.refl K s
    | true =>
      refine .bind (same_frame K) (.check (same_frame K)) fun _ => ?_
      refine .bind (same_frame K) (.check (same_frame K)) fun _ => ?_
      refine .bind (same_frame K) (keeps_readInto (hd hw)) fun _ => ?_
      refine .bind (same_frame K) (.get (same_frame K)) fun _ => ?_
      refine .bind (same_frame K) (.check (same_frame K)) fun _ => ?_
      exact .bind (same_frame K) keeps_addWritten fun _ => keeps_readData hrest

theorem keeps_writeData : ∀ {sector : UInt64} {data : List Desc}, Exec.Keeps (Same K) (writeData b sector data)
  | _, [] => .pure (same_frame K)
  | sector, d :: rest => by
    refine .bind (same_frame K) (.check (same_frame K)) fun _ => ?_
    refine .bind (same_frame K) (.check (same_frame K)) fun _ => ?_
    refine .bind (same_frame K) keeps_ptr fun _ => ?_
    refine .bind (same_frame K) (.get (same_frame K)) fun _ => ?_
    exact .bind (same_frame K) keeps_onDisk fun _ => keeps_writeData

/-- The number of bytes of the id that fit the descriptor. --/
def idLen (d : Desc) : Nat := min d.len.toNat idBytes.length

theorem length_id (d : Desc) : (idBytes.take (idLen d)).length = idLen d := by
  rw [List.length_take, idLen]
  omega

theorem getId_run (data : List Desc) :
    (∃ e, getId b data s = (.error e, s)) ∨ (data = [] ∧ getId b data s = (.ok (), s)) ∨
    ∃ d rest, data = d :: rest ∧ s.mem.InRam b d.addr (idLen d) ∧
      getId b data s = (.ok (), addWritten (UInt32.ofNat (idLen d))
        (setMem (s.mem.store (b.offset d.addr) (idBytes.take (idLen d))) s)) := by
  cases data with
  | nil => exact .inr (.inl ⟨rfl, rfl⟩)
  | cons d rest =>
    by_cases hin : s.mem.InRam b d.addr (idLen d)
    · refine .inr (.inr ⟨d, rest, rfl, hin, ?_⟩)
      exact Exec.bind_of_ok (ptr_run.trans (congrArg (·, s) (GuestMemory.ptr_of_inRam hin)))
    · obtain ⟨e, he⟩ := GuestMemory.ptr_of_not_inRam hin
      exact .inl ⟨e, Exec.bind_of_error (ptr_run.trans (congrArg (·, s) he))⟩

/-- The id changes no byte of `K`: it does not reach one, or the byte has its value already. --/
def IdSpares (b : Backend) (K : Nat → Prop) (m : GuestMemory) (d : Desc) : Prop :=
  m.InRam b d.addr (idLen d) → ∀ i, Touches b d.addr (idLen d) i → K i →
    m.ram.byte i = idBytes.getD (i - b.offset d.addr) 0

theorem Spares.idSpares {d : Desc} (h : Spares b K d) (m : GuestMemory) : IdSpares b K m d := fun _ i hi hK =>
  absurd hK (h i ⟨hi.1, Nat.lt_of_lt_of_le hi.2 (Nat.add_le_add_left (Nat.min_le_left _ _) _)⟩)

theorem same_getId {data : List Desc} (h : ∀ d rest, data = d :: rest → IdSpares b K s.mem d) :
    Same K s (getId b data s).2 := by
  rcases getId_run (b := b) (s := s) data with ⟨e, he⟩ | ⟨-, he⟩ | ⟨d, rest, rfl, hin, he⟩
  · rw [he]; exact Same.refl K s
  · rw [he]; exact Same.refl K s
  · rw [he]
    refine ⟨rfl, rfl, fun i hi => ?_⟩
    by_cases hw : Within (b.offset d.addr) (idLen d) i
    · have hbyte := h d rest rfl hin i (hin.touches_iff.mp hw) hi
      have hlt : i - b.offset d.addr < idLen d := by have := hw.1; have := hw.2; omega
      show (s.mem.ram.write (b.offset d.addr) (idBytes.take (idLen d))).byte i = s.mem.ram.byte i
      rw [byte_write_of_within (by rwa [length_id]), hbyte]
      simp only [List.getD_eq_getElem?_getD, List.getElem?_take, hlt, if_true]
    · exact byte_write_of_not_within (by rwa [length_id])

/-- The branch on the request type, for any type other than 8. --/
theorem keeps_request {type : UInt32} {sector : UInt64} {data : List Desc} (h8 : type ≠ 8)
    (h : ∀ d ∈ data, d.writable = true → Spares b K d) : Exec.Keeps (Same K) (request b type sector data) := by
  unfold request
  split
  · exact .bind (same_frame K) (keeps_readData h) fun _ => .pure (same_frame K)
  · split
    · exact .bind (same_frame K) keeps_writeData fun _ => .pure (same_frame K)
    · split
      · refine .bind (same_frame K) (.get (same_frame K)) fun s => ?_
        split
        · exact .pure (same_frame K)
        · exact .bind (same_frame K) keeps_onDisk fun _ => .pure (same_frame K)
      · exact .pure (same_frame K)

theorem same_request {type : UInt32} {sector : UInt64} {data : List Desc}
    (h : ∀ d ∈ data, d.writable = true → Spares b K d)
    (hid : type = 8 → ∀ d rest, data = d :: rest → IdSpares b K s.mem d) :
    Same K s (request b type sector data s).2 := by
  by_cases h8 : type = 8
  · have hr : request b type sector data = (getId b data >>= fun _ => pure 0) := by
      subst h8
      rfl
    rw [hr]
    exact (same_frame K).bind (same_getId (hid h8)) fun _ t _ => Same.refl K t
  · exact keeps_request h8 h s

/-! ### The try block -/

/-- The type word of a request. --/
def requestType (b : Backend) (m : GuestMemory) (header : Desc) : UInt32 := m.ram.readU32 (b.offset header.addr)

variable {head : UInt16} {header status : Desc} {data : List Desc}

theorem walk_run : walk b head s = (s.mem.walkChain b s.queue head, s) := rfl

theorem fulfil_of_error {e : String} (hw : s.mem.walkChain b s.queue head = .error e) :
    fulfil b head s = (.error e, s) := by
  unfold fulfil
  exact Exec.bind_of_error (walk_run.trans (congrArg (·, s) hw))

theorem fulfil_of_single {d : Desc} (hw : s.mem.walkChain b s.queue head = .ok [d]) :
    ∃ e, fulfil b head s = (.error e, s) := by
  unfold fulfil
  exact ⟨_, Exec.bind_of_ok (walk_run.trans (congrArg (·, s) hw))⟩

theorem fulfil_of_chain (hw : s.mem.walkChain b s.queue head = .ok (header :: (data ++ [status]))) :
    fulfil b head s = fulfilChain b header data status s := by
  unfold fulfil
  cases data with
  | nil => exact Exec.bind_of_ok (walk_run.trans (congrArg (·, s) hw))
  | cons d rest =>
    refine (Exec.bind_of_ok (walk_run.trans (congrArg (·, s) hw))).trans ?_
    show fulfilChain b header (d :: (rest ++ [status])).dropLast ((d :: (rest ++ [status])).getLast _) s = _
    congr 1
    · exact @List.dropLast_concat _ (d :: rest) status
    · exact List.getLast_concat (l := d :: rest)

/-- A status descriptor that is not writable, or is empty, ends the request before its first store. --/
theorem fulfilChain_of_invalid (header : Desc) (data : List Desc) (hst : ¬(status.writable = true ∧ 1 ≤ status.len)) :
    ∃ e, fulfilChain b header data status s = (.error e, s) := by
  unfold fulfilChain
  by_cases hlen : 16 ≤ header.len
  · have hfalse : (status.writable && decide (1 ≤ status.len)) = false := by simpa using hst
    exact ⟨_, (Exec.bind_of_ok (Exec.check_of_true (by simpa using hlen))).trans
      (Exec.bind_of_error (Exec.check_of_false hfalse))⟩
  · exact ⟨_, Exec.bind_of_error (Exec.check_of_false (by simpa using hlen))⟩

theorem same_fulfilChain (h : ∀ d ∈ data, d.writable = true → Spares b K d)
    (hst : status.writable = true → Spares b K status)
    (hid : requestType b s.mem header = 8 → ∀ d rest, data = d :: rest → IdSpares b K s.mem d) :
    Same K s (fulfilChain b header data status s).2 := by
  by_cases hvalid : status.writable = true ∧ 1 ≤ status.len
  · unfold fulfilChain
    refine (same_frame K).bind (Same.refl K s) fun _ t ht => ?_
    obtain rfl : s = t := (Prod.mk.inj ht).2
    refine (same_frame K).bind (Same.refl K s) fun _ t ht => ?_
    obtain rfl : s = t := (Prod.mk.inj ht).2
    refine (same_frame K).bind (Same.refl K s) fun hdr t ht => ?_
    obtain ⟨-, rfl, rfl⟩ := ptr_ok ht
    rw [Exec.bind_of_ok Exec.get_apply]
    refine (same_frame K).bind (same_request h hid) fun v t _ => ?_
    refine (same_frame K).bind (Same.refl K t) fun p t' ht => ?_
    obtain ⟨hin, rfl, rfl⟩ := ptr_ok ht
    refine keeps_store (fun i hi => hst hvalid.1 i ?_) t'
    have hlen : 1 ≤ status.len.toNat := hvalid.2
    have := hin.touches_iff.mp hi
    exact ⟨this.1, by have := this.2; simp only [List.length_cons, List.length_nil] at this; omega⟩
  · obtain ⟨e, he⟩ := fulfilChain_of_invalid (b := b) (s := s) header data hvalid
    rw [he]
    exact Same.refl K s

/-- The try block keeps the bytes that neither a writable descriptor of its chain nor the id reaches. --/
theorem same_fulfil (h : ∀ header data status, s.mem.walkChain b s.queue head = .ok (header :: (data ++ [status])) →
      (∀ d ∈ data ++ [status], d.writable = true → Spares b K d) ∧
      (requestType b s.mem header = 8 → ∀ d rest, data = d :: rest → IdSpares b K s.mem d)) :
    Same K s (fulfil b head s).2 := by
  cases hc : s.mem.walkChain b s.queue head with
  | error e =>
    rw [fulfil_of_error hc]
    exact Same.refl K s
  | ok chain =>
    rcases chain with _ | ⟨header, rest⟩
    · exact absurd hc GuestMemory.walkFrom_ne_nil
    · rcases List.eq_nil_or_concat rest with rfl | ⟨data, status, rfl⟩
      · obtain ⟨e, he⟩ := fulfil_of_single hc
        rw [he]
        exact Same.refl K s
      · rw [List.concat_eq_append] at hc
        obtain ⟨hwr, hid⟩ := h header data status hc
        rw [fulfil_of_chain hc]
        exact same_fulfilChain (fun d hd => hwr d (List.mem_append_left _ hd)) (hwr status (by simp)) hid

/-! ### The handler -/

theorem reportError_of_error {e : String} (hw : s.mem.walkChain b s.queue head = .error e) :
    reportError b head s = (.ok (), s) := by
  unfold reportError
  exact Exec.tryCatch_of_error (Exec.bind_of_error (walk_run.trans (congrArg (·, s) hw)))

/-- The state after the status byte 1 was stored, where RAM has the byte. --/
def failed (b : Backend) (last : Desc) (s : Blk) : Blk :=
  if s.mem.InRam b last.addr 1 then setMem (s.mem.store (b.offset last.addr) [1]) s else s

theorem reportError_of_chain {chain : List Desc} {last : Desc} (hw : s.mem.walkChain b s.queue head = .ok chain)
    (hlast : chain.getLast? = some last) : reportError b head s = (.ok (), failed b last s) := by
  unfold reportError failed
  have hwalk := walk_run.trans (congrArg (·, s) hw)
  split
  · rename_i hin
    refine Exec.tryCatch_of_ok ?_
    rw [Exec.bind_of_ok hwalk, hlast]
    exact Exec.bind_of_ok (congrArg (·, s) (GuestMemory.ptr_of_inRam hin))
  · rename_i hin
    obtain ⟨e, he⟩ := GuestMemory.ptr_of_not_inRam hin
    refine (Exec.tryCatch_of_error (e := e) (t := s) ?_).trans rfl
    rw [Exec.bind_of_ok hwalk, hlast]
    exact Exec.bind_of_error (congrArg (·, s) he)

theorem same_failed {last : Desc} (h : ∀ i, Touches b last.addr 1 i → ¬K i) : Same K s (failed b last s) := by
  unfold failed
  split
  · rename_i hin
    exact ⟨rfl, AgreeOn.write fun i hi => h i (hin.touches_iff.mp hi)⟩
  · exact Same.refl K s

theorem publish_of_canPublish {w : UInt32} (h : s.mem.CanPublish b s.queue) :
    publish b head w s = (.ok (), setMem (s.mem.published b s.queue head.toUInt32 w) s) := by
  unfold publish
  rw [Exec.bind_of_ok Exec.get_apply]
  unfold onMem Exec.focus
  rw [GuestMemory.pushUsed_of_canPublish h]

theorem publish_of_not_canPublish (head : UInt16) (w : UInt32) (h : ¬s.mem.CanPublish b s.queue) :
    ∃ e, publish b head w s = (.error e, s) := by
  obtain ⟨e, he⟩ := GuestMemory.pushUsed_of_not_canPublish head.toUInt32 w h
  refine ⟨e, ?_⟩
  unfold publish
  rw [Exec.bind_of_ok Exec.get_apply]
  unfold onMem Exec.focus
  rw [he]
  rfl

/-- The handler reports its error without throwing. --/
theorem reportError_returns (b : Backend) (head : UInt16) (s : Blk) : ∃ u, reportError b head s = (.ok (), u) := by
  cases hc : s.mem.walkChain b s.queue head with
  | error e => exact ⟨s, reportError_of_error hc⟩
  | ok chain =>
    obtain ⟨last, hl⟩ := GuestMemory.walkChain_last hc
    exact ⟨_, reportError_of_chain hc hl⟩

/-- The state `u` in which the last call of `push_used` finds the device, and whether the catch path ran
    before it. The try block threw when it left the state `t` with an error or could not publish there. --/
inductive LastPush (b : Backend) (head : UInt16) (s u : Blk) : Prop
  | served (hrun : fulfil b head (setWritten 0 s) = (.ok (), u)) (hcan : u.mem.CanPublish b u.queue)
  | caught (r : Except String Unit) (t : Blk) (hrun : fulfil b head (setWritten 0 s) = (r, t))
      (hthrow : r = .ok () → ¬t.mem.CanPublish b t.queue) (hreport : reportError b head t = (.ok (), u))

/-- A request ends with a publication from the last state, or throws there. --/
theorem processRequest_lastPush (b : Backend) (head : UInt16) (s : Blk) : ∃ u, LastPush b head s u ∧
    ((u.mem.CanPublish b u.queue ∧ ∃ w,
      processRequest b head s = (.ok (), setMem (u.mem.published b u.queue head.toUInt32 w) u)) ∨
    (¬u.mem.CanPublish b u.queue ∧ ∃ e, processRequest b head s = (.error e, u))) := by
  have hstart : processRequest b head s =
      (tryCatch (serveRequest b head) fun _ => failRequest b head : Exec Blk Unit) (setWritten 0 s) := rfl
  have hpublish : ∀ (u : Blk) (w : UInt32),
      (u.mem.CanPublish b u.queue ∧ ∃ w',
        publish b head w u = (.ok (), setMem (u.mem.published b u.queue head.toUInt32 w') u)) ∨
      (¬u.mem.CanPublish b u.queue ∧ ∃ e, publish b head w u = (.error e, u)) := fun u w => by
    by_cases hcan : u.mem.CanPublish b u.queue
    · exact .inl ⟨hcan, w, publish_of_canPublish hcan⟩
    · exact .inr ⟨hcan, publish_of_not_canPublish head w hcan⟩
  -- the handler, from the state that the try block left
  have hcatch : ∀ {e r t}, serveRequest b head (setWritten 0 s) = (.error e, t) →
      fulfil b head (setWritten 0 s) = (r, t) → (r = .ok () → ¬t.mem.CanPublish b t.queue) → ∃ u, LastPush b head s u ∧
        ((u.mem.CanPublish b u.queue ∧ ∃ w,
          processRequest b head s = (.ok (), setMem (u.mem.published b u.queue head.toUInt32 w) u)) ∨
        (¬u.mem.CanPublish b u.queue ∧ ∃ e, processRequest b head s = (.error e, u))) := by
    intro e r t hserve hrun hthrow
    obtain ⟨u, hu⟩ := reportError_returns b head t
    have hend : processRequest b head s = publish b head u.written u := by
      rw [hstart, Exec.tryCatch_of_error hserve]
      exact (Exec.bind_of_ok hu).trans (Exec.bind_of_ok Exec.get_apply)
    rw [hend]
    exact ⟨u, .caught r t hrun hthrow hu, hpublish u u.written⟩
  rcases hrun : fulfil b head (setWritten 0 s) with ⟨e | a, t⟩
  · exact hcatch (Exec.bind_of_error hrun) hrun fun h => nomatch h
  · have hserve : serveRequest b head (setWritten 0 s) = publish b head (t.written + 1) t :=
      (Exec.bind_of_ok hrun).trans (Exec.bind_of_ok Exec.get_apply)
    rcases hpublish t (t.written + 1) with ⟨hcan, w, hpub⟩ | ⟨hcan, e, hpub⟩
    · refine ⟨t, .served hrun hcan, .inl ⟨hcan, w, ?_⟩⟩
      rw [hstart, Exec.tryCatch_of_ok (hserve.trans hpub)]
    · exact hcatch (hserve.trans hpub) hrun fun _ => hcan

end

/-! ### What a request keeps whatever it finds -/

/-- `R` holds across each store, disk call and publication. --/
structure Carried (b : Backend) (R : Blk → Blk → Prop) : Prop where
  frame : Exec.Frame R
  store : ∀ off bs, Exec.Keeps R (store off bs)
  readDisk : ∀ sector len, Exec.Keeps R (onDisk (Disk.readDisk b sector len))
  writeDisk : ∀ sector src, Exec.Keeps R (onDisk (Disk.writeDisk b sector src))
  flush : Exec.Keeps R (onDisk (Disk.flush b))
  written : ∀ n s, R s (setWritten n s)
  publish : ∀ head n, Exec.Keeps R (publish b head n)

namespace Carried
variable {b : Backend} {R : Blk → Blk → Prop} {head : UInt16} (hR : Carried b R)
include hR

theorem keeps_ptr {gpa : UInt64} {len : Nat} : Exec.Keeps R (Blk.ptr b gpa len) :=
  .bind hR.frame (.get hR.frame) fun _ => .lift hR.frame

theorem keeps_readData : ∀ (data : List Desc) (sector : UInt64), Exec.Keeps R (Blk.readData b sector data)
  | [], _ => .pure hR.frame
  | d :: rest, sector => by
    have hF := hR.frame
    refine .bind hF (.check hF) fun _ => .bind hF (.check hF) fun _ => .bind hF ?_ fun _ => .bind hF (.get hF) fun _ => ?_
    · refine .bind hF hR.keeps_ptr fun _ => .bind hF (hR.readDisk _ _) fun part => .bind hF (hR.store _ _) fun _ => ?_
      cases part.error with
      | some e => exact .throw hF
      | none => exact .pure hF
    · refine .bind hF (.check hF) fun _ => .bind hF (.modify fun s => hR.written (s.written + d.len) s) fun _ => ?_
      exact keeps_readData rest _

theorem keeps_writeData : ∀ (data : List Desc) (sector : UInt64), Exec.Keeps R (Blk.writeData b sector data)
  | [], _ => .pure hR.frame
  | d :: rest, sector => by
    have hF := hR.frame
    refine .bind hF (.check hF) fun _ => .bind hF (.check hF) fun _ => .bind hF hR.keeps_ptr fun _ => ?_
    exact .bind hF (.get hF) fun _ => .bind hF (hR.writeDisk _ _) fun _ => keeps_writeData rest _

theorem keeps_getId (data : List Desc) : Exec.Keeps R (Blk.getId b data) := by
  have hF := hR.frame
  cases data with
  | nil => exact .pure hF
  | cons d rest =>
    refine .bind hF hR.keeps_ptr fun _ => .bind hF (hR.store _ _) fun _ => ?_
    exact .modify fun s => hR.written (s.written + _) s

theorem keeps_request {type : UInt32} {sector : UInt64} {data : List Desc} :
    Exec.Keeps R (Blk.request b type sector data) := by
  have hF := hR.frame
  have hpure : ∀ {x : Exec Blk Unit}, Exec.Keeps R x → Exec.Keeps R (do x; pure (0 : UInt8)) := fun hx =>
    .bind hF hx fun _ => .pure hF
  refine .ite (fun _ => hpure (hR.keeps_readData data sector)) fun _ => ?_
  refine .ite (fun _ => hpure (hR.keeps_writeData data sector)) fun _ => ?_
  refine .ite (fun _ => .bind hF (.get hF) fun _ => ?_) fun _ => ?_
  · exact .ite (fun _ => .pure hF) fun _ => hpure hR.flush
  · exact .ite (fun _ => hpure (hR.keeps_getId data)) fun _ => .pure hF

theorem keeps_walk : Exec.Keeps R (Blk.walk b head) := .bind hR.frame (.get hR.frame) fun _ => .lift hR.frame

theorem keeps_fulfil : Exec.Keeps R (Blk.fulfil b head) := by
  have hF := hR.frame
  refine .bind hF hR.keeps_walk fun chain => ?_
  rcases chain with _ | ⟨header, _ | ⟨d, rest⟩⟩
  · exact .throw hF
  · exact .throw hF
  · refine .bind hF (.check hF) fun _ => .bind hF (.check hF) fun _ => .bind hF hR.keeps_ptr fun _ => ?_
    refine .bind hF (.get hF) fun _ => .bind hF hR.keeps_request fun _ => ?_
    exact .bind hF hR.keeps_ptr fun _ => hR.store _ _

theorem keeps_processRequest : Exec.Keeps R (Blk.processRequest b head) := by
  have hF := hR.frame
  refine .bind hF (.modify fun s => hR.written 0 s) fun _ => .tryCatch hF ?_ fun _ => ?_
  · exact .bind hF hR.keeps_fulfil fun _ => .bind hF (.get hF) fun _ => hR.publish _ _
  · refine .bind hF (.tryCatch hF (.bind hF hR.keeps_walk fun chain => ?_) fun _ => .pure hF) fun _ =>
      .bind hF (.get hF) fun _ => hR.publish _ _
    cases chain.getLast? with
    | some status => exact .bind hF hR.keeps_ptr fun _ => hR.store _ _
    | none => exact .pure hF

section
variable (hbump : ∀ s, R s s.bumpLastAvail)
include hbump

theorem keeps_serveUntil {availIdx : UInt16} : ∀ fuel, Exec.Keeps R (Blk.serveUntil b availIdx fuel)
  | 0 => .pure hR.frame
  | fuel + 1 => by
    have hF := hR.frame
    refine .bind hF (.get hF) fun _ => .ite (fun _ => .pure hF) fun _ => .bind hF ?_ fun _ => keeps_serveUntil fuel
    refine .bind hF (.get hF) fun _ => .bind hF hR.keeps_ptr fun _ => ?_
    exact .bind hF (.modify hbump) fun _ => hR.keeps_processRequest

theorem keeps_handleQueue : Exec.Keeps R (Blk.handleQueue b) :=
  .bind hR.frame (.get hR.frame) fun _ => .bind hR.frame hR.keeps_ptr fun _ => hR.keeps_serveUntil hbump _

end
end Carried

end Blk
end NodeVmm
