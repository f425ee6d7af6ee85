import NodeVmm.Aml
import NodeVmm.Lib.Exec

/-! The encoders of AML and a reader by the grammar. A package is read back from the length in front of it, whichever of
    the four widths that length has; a tree is read back from its parts, level by level. -/

namespace NodeVmm.Acpi.Aml
open Reader
open Exec (ok_of_bind)

section
variable {n k v : Nat} {out follow p q : Bytes} {rest : Bytes} {α : Type} {r : Reader UInt8 α} {a : α}

/-! ### Lengths of packages -/

theorem byte_shift {s : Nat} : UInt8.ofNat (v >>> s &&& 0xFF) = UInt8.ofNat (v / 2 ^ s) := by
  rw [Nat.shiftRight_eq_div_pow]
  refine UInt8.toNat_inj.mp ?_
  have hmask : (0xFF : Nat) = 2 ^ 8 - 1 := rfl
  rw [UInt8.toNat_ofNat', UInt8.toNat_ofNat', hmask, Nat.and_two_pow_sub_one_eq_mod, Nat.mod_mod]

/-- The first byte of a length that more bytes follow. --/
def leadByte (k x : Nat) : UInt8 := UInt8.ofNat (k <<< 6 ||| x)

theorem lengthLen_cases : lengthLen n = 1 ∨ lengthLen n = 2 ∨ lengthLen n = 3 ∨ lengthLen n = 4 := by
  rw [lengthLen]
  split_ifs
  · exact Or.inr (Or.inr (Or.inr rfl))
  · exact Or.inr (Or.inr (Or.inl rfl))
  · exact Or.inr (Or.inl rfl)
  · exact Or.inl rfl

/-- A length is one byte, or a first byte with its low four bits and the others in the bytes that follow. --/
theorem appendPkgLength_eq : appendPkgLength out n true =
    out ++ if lengthLen n = 1 then [UInt8.ofNat (n + 1)]
      else leadByte (lengthLen n - 1) ((n + lengthLen n) % 16) :: Words.le (lengthLen n - 1) ((n + lengthLen n) / 16) := by
  have hmod : ∀ v : Nat, v &&& 0x0F = v % 16 := fun v => Nat.and_two_pow_sub_one_eq_mod v 4
  rw [appendPkgLength]
  rcases lengthLen_cases (n := n) with hk | hk | hk | hk
  all_goals simp only [hk, if_true, byte_shift, hmod, leadByte, Words.le, Nat.div_div_eq_div_mul]
  all_goals rfl

theorem appendPkgLength_append : appendPkgLength out n true = out ++ appendPkgLength [] n true := by
  rw [appendPkgLength_eq, appendPkgLength_eq, List.nil_append]

/-- The length fits in its bytes. --/
theorem lengthLen_fits (h : n < 2 ^ 28 - 4) :
    if lengthLen n = 1 then n + 1 < 64 else (n + lengthLen n) / 16 < 256 ^ (lengthLen n - 1) := by
  rcases lengthLen_cases (n := n) with hone | hmany
  · rw [if_pos hone]
    rw [lengthLen] at hone
    split_ifs at hone <;> omega
  · rw [if_neg (by omega)]
    rcases hmany with hk | hk | hk
    all_goals rw [hk]
    all_goals rw [lengthLen] at hk
    all_goals split_ifs at hk
    all_goals omega

theorem leadByte_spec : ∀ k : Fin 4, ∀ x : Fin 16, (leadByte k.val x.val >>> 6).toNat = k.val ∧
    leadByte k.val x.val &&& 0x30 = 0 ∧ (leadByte k.val x.val &&& 0x0F).toNat = x.val := by decide

theorem shortByte_spec : ∀ x : Fin 64, (UInt8.ofNat x.val >>> 6).toNat = 0 ∧ (UInt8.ofNat x.val &&& 0x3F).toNat = x.val := by
  decide

/-- The length of a package is read as what it was, with its own bytes. --/
theorem reads_pkgLength (h : n < 2 ^ 28 - 4) :
    Reads pkgLength (appendPkgLength [] n true) (n + lengthLen n, lengthLen n) := by
  have hfits := lengthLen_fits h
  rw [appendPkgLength_eq, List.nil_append]
  split at hfits
  · rename_i hone
    obtain ⟨hnone, hvalue⟩ := shortByte_spec ⟨n + 1, hfits⟩
    dsimp only at hnone hvalue
    rw [if_pos hone, hone]
    refine .next ((reads_take (p := []) hnone.symm).then ?_)
    rw [if_pos rfl, hvalue]
    exact reads_pure _
  · rename_i hmany
    have hcases := lengthLen_cases (n := n)
    obtain ⟨hfollow, hbits, hlow⟩ := leadByte_spec ⟨lengthLen n - 1, by omega⟩ ⟨(n + lengthLen n) % 16, Nat.mod_lt _ (by decide)⟩
    dsimp only at hfollow hbits hlow
    rw [if_neg hmany]
    refine .next ((reads_take (Words.length_le.trans hfollow.symm)).then ?_)
    have hne : Words.le (lengthLen n - 1) ((n + lengthLen n) / 16) ≠ [] := by
      rw [← List.length_pos_iff, Words.length_le]
      omega
    have hvalue : (n + lengthLen n) % 16 + 16 * ((n + lengthLen n) / 16) = n + lengthLen n := Nat.mod_add_div _ _
    have hwidth : lengthLen n - 1 + 1 = lengthLen n := by omega
    rw [if_neg hne, hlow, Words.ofLe_le, Nat.mod_eq_of_lt hfits, hvalue, Words.length_le, hwidth]
    exact .require hbits (reads_pure _)

/-- A package is read by what reads all of its payload. --/
theorem reads_package (h : Ends r p a) (hp : p.length < 2 ^ 28 - 4) :
    Reads (package r) (appendPkgLength [] p.length true ++ p) a := by
  refine (reads_pkgLength hp).bind (.require (Nat.le_add_left _ _) (h.framed ?_))
  rw [Nat.add_sub_cancel]

end

/-! ### Paths -/

/-- The segment does not begin with a byte that the grammar reads otherwise. --/
def Seg.Plain (s : Seg) : Prop := s.bytes.headD 0 ∉ notLead

instance (s : Seg) : Decidable s.Plain := inferInstanceAs (Decidable (_ ∉ _))

def Path.Plain (p : Path) : Prop := ∀ s ∈ p.segs, s.Plain

instance (p : Path) : Decidable p.Plain := inferInstanceAs (Decidable (∀ s ∈ p.segs, s.Plain))

section
variable {p : Path} {s : Seg} {segs : List Seg} {parts : List Bytes}

theorem Seg.eq_cons (s : Seg) : ∃ rest, s.bytes = s.bytes.headD 0 :: rest := by
  have hlen := s.length_eq
  cases hb : s.bytes with
  | nil => simp [hb] at hlen
  | cons b rest => exact ⟨rest, rfl⟩

theorem Seg.head_ne_dot (s : Seg) : s.bytes.headD 0 ≠ dot := by
  obtain ⟨rest, hs⟩ := s.eq_cons
  intro hdot
  refine s.no_dot ?_
  rw [hs, hdot]
  exact List.mem_cons_self

theorem mapM_checkPart (h : ∀ part ∈ parts, part.length = 4) : parts.mapM checkPart = .ok parts := by
  induction parts with
  | nil => rfl
  | cons part parts ih =>
    obtain ⟨hpart, hrest⟩ := List.forall_mem_cons.mp h
    rw [List.mapM_cons, ih hrest, checkPart, if_pos hpart]
    rfl

theorem splitOn_text (hne : segs ≠ []) : ([dot].intercalate (segs.map Seg.bytes)).splitOn dot = segs.map Seg.bytes := by
  refine List.splitOn_intercalate dot ?_ (by simpa using hne)
  simp only [List.mem_map]
  rintro part ⟨s, -, rfl⟩
  exact s.no_dot

theorem head_text (hne : segs ≠ []) : ∃ s ∈ segs, ([dot].intercalate (segs.map Seg.bytes)).head? = some (s.bytes.headD 0) := by
  obtain ⟨s, segs, rfl⟩ := List.exists_cons_of_ne_nil hne
  refine ⟨s, List.mem_cons_self, ?_⟩
  obtain ⟨rest, hs⟩ := s.eq_cons
  cases segs with
  | nil => rw [List.map_singleton, List.intercalate_singleton, hs]; rfl
  | cons t segs =>
    rw [List.map_cons, List.map_cons, List.intercalate_cons_cons, hs]
    rfl

/-- The bytes of a path. --/
def Path.bytes (p : Path) : Bytes :=
  (if p.root then [backslash] else []) ++ countBytes p.segs.length ++ (p.segs.map Seg.bytes).flatten

theorem encodePath_text (h : p.Plain) : encodePath p.text = .ok p.bytes := by
  have hname : (if p.text.head? == some backslash then p.text.tail else p.text) = [dot].intercalate (p.segs.map Seg.bytes) ∧
      (p.text.head? == some backslash) = p.root := by
    rw [Path.text]
    cases p.root with
    | true => exact ⟨rfl, rfl⟩
    | false =>
      obtain ⟨s, hs, hhead⟩ := head_text p.nonempty
      have hother : s.bytes.headD 0 ≠ backslash := fun hb => h s hs (hb ▸ List.mem_cons_self)
      have hbeq : (some (s.bytes.headD 0) == some backslash) = false := by simpa using hother
      simp only [Bool.false_eq_true, if_false, List.nil_append, hhead, hbeq, and_self]
  have hparts : ∀ part ∈ p.segs.map Seg.bytes, part.length = 4 := by
    simp only [List.mem_map]
    rintro part ⟨s, -, rfl⟩
    exact s.length_eq
  simp only [encodePath]
  rw [hname.1, hname.2, splitOn_text p.nonempty, mapM_checkPart hparts, Path.bytes, ← List.length_map (f := Seg.bytes)]
  rfl

theorem reads_nameSeg (s : Seg) : Reads nameSeg s.bytes s := by
  refine (reads_take s.length_eq).then ?_
  rw [dif_pos ⟨s.length_eq, s.no_dot⟩]
  exact reads_pure _

theorem reads_segs (segs : List Seg) : Reads (times nameSeg segs.length) (segs.map Seg.bytes).flatten segs := by
  have hpieces := reads_times (r := nameSeg) (segs.map fun s => (s.bytes, s)) fun x hx => by
    obtain ⟨s, -, rfl⟩ := List.mem_map.mp hx
    exact reads_nameSeg s
  simpa [Function.comp_def] using hpieces

theorem reads_segCount_one {α : Type} {f : Nat → Reader UInt8 α} {a : α} (rest : Bytes) (hs : s.Plain)
    (h : Reads (f 1) (s.bytes ++ rest) a) : Reads (segCount >>= f) (s.bytes ++ rest) a := by
  obtain ⟨tail, hbytes⟩ := s.eq_cons
  have htwo : s.bytes.headD 0 ≠ 0x2E := s.head_ne_dot
  have hmany : s.bytes.headD 0 ≠ 0x2F := fun hb => hs (hb ▸ by decide)
  have hone : ∀ input, segCount (s.bytes ++ input) = some (1, s.bytes ++ input) := by
    intro input
    rw [hbytes, List.cons_append, segCount, bind_apply, peek, Option.bind_some]
    dsimp only
    rw [if_neg htwo, if_neg hmany, bind_apply, require, if_pos (show s.bytes.headD 0 ∉ notLead from hs)]
    rfl
  intro input
  rw [bind_apply, List.append_assoc, hone, Option.bind_some]
  have := h input
  rwa [List.append_assoc] at this

theorem reads_segCount (hne : 1 < segs.length) (hle : segs.length ≤ 255) :
    Reads segCount (countBytes segs.length) segs.length := by
  rw [countBytes, segCount]
  split
  · rename_i htwo
    rw [htwo]
    exact .peek (.next (reads_pure _))
  · rw [if_pos (by omega)]
    refine .peek (.next (.next ?_))
    rw [UInt8.toNat_ofNat_of_lt' (by show _ < 256; omega)]
    exact reads_pure _

theorem reads_nameString (h : p.Plain) : Reads nameString p.bytes p := by
  obtain ⟨root, segs, hne, hle⟩ := p
  have hsegs : ∀ root, Reads (segCount >>= fun count => times nameSeg count >>= fun segs =>
      if h : segs ≠ [] ∧ segs.length ≤ 255 then pure (⟨root, segs, h.1, h.2⟩ : Path) else fail)
      (countBytes segs.length ++ (segs.map Seg.bytes).flatten) ⟨root, segs, hne, hle⟩ := by
    intro root
    have hpath : Reads (times nameSeg segs.length >>= fun segs =>
        if h : segs ≠ [] ∧ segs.length ≤ 255 then pure (⟨root, segs, h.1, h.2⟩ : Path) else fail)
        (segs.map Seg.bytes).flatten ⟨root, segs, hne, hle⟩ := by
      refine (reads_segs segs).then ?_
      rw [dif_pos ⟨hne, hle⟩]
      exact reads_pure _
    rcases Nat.lt_or_ge 1 segs.length with hmany | hone
    · exact (reads_segCount hmany hle).bind hpath
    · obtain ⟨s, rfl⟩ := List.length_eq_one_iff.mp (Nat.le_antisymm hone (List.length_pos_iff.mpr hne))
      exact reads_segCount_one [] (h s List.mem_cons_self) hpath
  cases root with
  | true => exact (reads_skip backslash).bind (hsegs true)
  | false =>
    obtain ⟨lead, rest, hlead, hother⟩ : ∃ lead rest,
        countBytes segs.length ++ (segs.map Seg.bytes).flatten = lead :: rest ∧ lead ≠ backslash := by
      rw [countBytes]
      split_ifs
      · exact ⟨_, _, rfl, by decide⟩
      · exact ⟨_, _, rfl, by decide⟩
      · obtain ⟨s, segs, rfl⟩ := List.exists_cons_of_ne_nil hne
        obtain ⟨tail, hs⟩ := s.eq_cons
        refine ⟨s.bytes.headD 0, tail ++ (segs.map Seg.bytes).flatten, ?_, fun hb => ?_⟩
        · rw [List.map_cons, List.flatten_cons, hs]
          rfl
        · exact h s List.mem_cons_self (hb ▸ List.mem_cons_self)
    have hname := hsegs false
    rw [hlead] at hname
    have hbytes : Path.bytes ⟨false, segs, hne, hle⟩ = lead :: rest := hlead
    rw [hbytes]
    exact hname.skip_other hother

end
/-! ### Data -/

theorem reads_word {n v : Nat} (h : v < 256 ^ n) : Reads (word n) (Words.le n v) v := by
  refine (reads_take Words.length_le).then ?_
  rw [Words.ofLe_le, Nat.mod_eq_of_lt h]
  exact reads_pure v

theorem reads_integer (v : UInt64) : Reads integer (encodeInteger v) v := by
  have hword : ∀ n, v.toNat < 256 ^ n →
      Reads (word n >>= fun value => pure (UInt64.ofNat value)) (Words.le n v.toNat) v := by
    intro n hn
    have hread := (reads_word hn).map UInt64.ofNat
    rwa [UInt64.ofNat_toNat] at hread
  rw [encodeInteger]
  split_ifs with h0 h1 h8 h16 h32
  · exact .next (h0 ▸ reads_pure _)
  · exact .next (h1 ▸ reads_pure _)
  · exact .next (hword 1 (Nat.lt_succ_of_le (UInt64.le_iff_toNat_le.mp h8)))
  · exact .next (hword 2 (Nat.lt_succ_of_le (UInt64.le_iff_toNat_le.mp h16)))
  · exact .next (hword 4 (Nat.lt_succ_of_le (UInt64.le_iff_toNat_le.mp h32)))
  · exact .next (hword 8 v.toNat_lt)

theorem reads_string (s : NulFree) : Reads string (encodeString s.bytes) s := by
  refine .next (.require rfl ((reads_untilItem s.no_nul).then ?_))
  rw [dif_pos s.no_nul]
  exact reads_pure _

theorem flags_spec : ∀ consumer edgeTriggered activeLow shared : Bool,
    let flags := interruptFlags consumer edgeTriggered activeLow shared
    flags &&& 0xF0 = 0 ∧ (flags &&& 0x01 != 0) = consumer ∧ (flags &&& 0x02 != 0) = edgeTriggered ∧
      (flags &&& 0x04 != 0) = activeLow ∧ (flags &&& 0x08 != 0) = shared := by decide

theorem reads_memory32Fixed (readWrite : Bool) (base length : UInt32) :
    Reads descriptor (resMemory32Fixed readWrite base length) (some (.memory32Fixed readWrite base length)) := by
  have hbody : Reads memory32Fixed
      (Words.le 2 9 ++ ((if readWrite then 1 else 0) :: (Words.le 4 base.toNat ++ Words.le 4 length.toNat)))
      (.memory32Fixed readWrite base length) := by
    refine (reads_word (by decide)).bind (.require rfl (.next (.require ?_ ?_)))
    · cases readWrite <;> rfl
    · refine (reads_word base.toNat_lt).bind ((reads_word length.toNat_lt).then ?_)
      rw [UInt32.ofNat_toNat, UInt32.ofNat_toNat]
      cases readWrite <;> exact reads_pure _
  rw [resMemory32Fixed]
  simp only [List.append_assoc, List.singleton_append]
  exact .next (hbody.map some)

theorem reads_interrupt (consumer edgeTriggered activeLow shared : Bool) (number : UInt32) :
    Reads descriptor (resInterrupt consumer edgeTriggered activeLow shared number)
      (some (.interrupt consumer edgeTriggered activeLow shared number)) := by
  obtain ⟨hnone, hconsumer, hedge, hlow, hshared⟩ := flags_spec consumer edgeTriggered activeLow shared
  have hbody : Reads interrupt
      (Words.le 2 6 ++ (interruptFlags consumer edgeTriggered activeLow shared :: 1 :: Words.le 4 number.toNat))
      (.interrupt consumer edgeTriggered activeLow shared number) := by
    refine (reads_word (by decide)).bind (.require rfl (.next (.require hnone (.next (.require rfl ?_)))))
    refine (reads_word number.toNat_lt).then ?_
    rw [UInt32.ofNat_toNat, hconsumer, hedge, hlow, hshared]
    exact reads_pure _
  rw [resInterrupt]
  simp only [List.append_assoc, List.cons_append, List.nil_append]
  exact .next (hbody.map some)

theorem reads_ioPort (base : UInt16) (length : UInt8) :
    Reads descriptor (resIoPort base length) (some (.ioPort base length)) := by
  have hbody : Reads ioPort (1 :: (Words.le 2 base.toNat ++ (Words.le 2 base.toNat ++ [1, length]))) (.ioPort base length) := by
    refine .next (.require rfl ((reads_word base.toNat_lt).bind ((reads_word base.toNat_lt).bind (.require rfl ?_))))
    rw [UInt16.ofNat_toNat]
    exact .next (.require rfl (.next (reads_pure _)))
  rw [resIoPort]
  simp only [List.append_assoc, List.cons_append, List.nil_append]
  exact .next (hbody.map some)

theorem reads_descriptor (r : Resource) : Reads descriptor r.encode (some r) := by
  cases r with
  | memory32Fixed readWrite base length => exact reads_memory32Fixed readWrite base length
  | interrupt consumer edgeTriggered activeLow shared number =>
    exact reads_interrupt consumer edgeTriggered activeLow shared number
  | ioPort base length => exact reads_ioPort base length

theorem encode_ne_nil (r : Resource) : r.encode ≠ [] := by
  cases r <;> exact List.cons_ne_nil _ _

theorem closed_some (rs : List Resource) : closed (rs.map some ++ [none]) = some rs := by
  induction rs with
  | nil => rfl
  | cons r rs ih =>
    rw [List.map_cons, List.cons_append, closed, ih]
    rfl

/-- The resources of a template are read back up to the end tag. --/
theorem ends_template (rs : List Resource) : Ends template ((rs.map Resource.encode).flatten ++ [0x79, 0x00]) rs := by
  have hend : Reads descriptor [0x79, 0x00] none := .next (.next (.require rfl (reads_pure _)))
  have hpieces := ends_toEnd (r := descriptor)
    (rs.map (fun r => (r.encode, some r)) ++ [([0x79, 0x00], none)]) fun x hx => by
      rcases List.mem_append.mp hx with hx | hx
      · obtain ⟨r, -, rfl⟩ := List.mem_map.mp hx
        exact ⟨reads_descriptor r, encode_ne_nil r⟩
      · rw [List.mem_singleton.mp hx]
        exact ⟨hend, List.cons_ne_nil _ _⟩
  simp only [List.map_append, List.map_map, Function.comp_def, List.map_singleton, List.flatten_append,
    List.flatten_singleton] at hpieces
  rw [Ends, template, bind_apply, hpieces, Option.bind_some]
  dsimp only
  rw [closed_some]
  rfl

/-- The sizes of the packages that a datum has are in range. --/
def Data.Fits : Data → Prop
  | .resources rs => (templateContent (rs.map Resource.encode)).length < 2 ^ 28 - 4
  | _ => True

theorem reads_buffer {rs : List Resource} (h : Data.Fits (.resources rs)) :
    Reads buffer (buildResourceTemplate (rs.map Resource.encode)) rs := by
  have hsize : (UInt64.ofNat ((rs.map Resource.encode).flatten ++ [0x79, 0x00]).length).toNat =
      ((rs.map Resource.encode).flatten ++ [0x79, 0x00]).length := by
    refine UInt64.toNat_ofNat_of_lt' (Nat.lt_of_le_of_lt (m := 2 ^ 28) ?_ (by decide))
    rw [Data.Fits, templateContent, List.length_append] at h
    omega
  have hcontent : Ends (integer >>= fun size => framed size.toNat template) (templateContent (rs.map Resource.encode)) rs :=
    (reads_integer _).bind_ends ((ends_template rs).framed hsize.symm).ends
  rw [buildResourceTemplate, appendPkgLength_append, List.append_assoc]
  exact .next (.require rfl (reads_package hcontent h))

theorem encodeInteger_head (v : UInt64) : ∃ op rest, encodeInteger v = op :: rest ∧ op ≠ 0x0D ∧ op ≠ 0x11 := by
  rw [encodeInteger]
  split_ifs
  all_goals exact ⟨_, _, rfl, by decide, by decide⟩

theorem reads_data {d : Data} (h : d.Fits) : Reads data d.encode d := by
  cases d with
  | integer v =>
    obtain ⟨op, rest, hbytes, hstring, hbuffer⟩ := encodeInteger_head v
    have hread := (reads_integer v).map Data.integer
    rw [Data.encode, hbytes]
    rw [hbytes] at hread
    refine .peek ?_
    rwa [if_neg hstring, if_neg hbuffer]
  | string s => exact .peek ((reads_string s).map Data.string)
  | resources rs =>
    have hread := (reads_buffer h).map Data.resources
    rw [Data.encode, buildResourceTemplate, appendPkgLength_append, List.append_assoc]
    rw [buildResourceTemplate, appendPkgLength_append, List.append_assoc] at hread
    exact .peek hread

/-! ### Terms -/

/-- What a package holds is in the range of its length. --/
def Small (payload : Except String Bytes) : Prop := ∀ b, payload = .ok b → b.length < 2 ^ 28 - 4

mutual

/-- The packages of the tree are in range. --/
def Term.Fits : Term → Prop
  | .scope path children => FitsAll children ∧ Small (encodeAll children >>= packagePayload path.text)
  | .device path children => FitsAll children ∧ Small (encodeAll children >>= packagePayload path.text)
  | .name _ value => value.Fits

def FitsAll : List Term → Prop
  | [] => True
  | t :: ts => t.Fits ∧ FitsAll ts

end

mutual

/-- The paths of the tree are plain. --/
def Term.Plain : Term → Prop
  | .scope path children => path.Plain ∧ PlainAll children
  | .device path children => path.Plain ∧ PlainAll children
  | .name path _ => path.Plain

def PlainAll : List Term → Prop
  | [] => True
  | t :: ts => t.Plain ∧ PlainAll ts

end

/-- Whatever is in a package, the bytes of the package are read back. --/
structure Read (t : Term) (bytes : Bytes) : Prop where
  nonempty : bytes ≠ []
  reads : ∀ levels, bytes.length ≤ levels → Reads (term levels) bytes t

section
variable {path : Path} {ts : List Term} {pieces : List Bytes} {levels : Nat}

theorem pieces_of_read (h : List.Forall₂ Read ts pieces) (hlevels : pieces.flatten.length ≤ levels) :
    ∃ pairs : List (Bytes × Term), pairs.map Prod.fst = pieces ∧ pairs.map Prod.snd = ts ∧
      ∀ x ∈ pairs, Reads (term levels) x.1 x.2 ∧ x.1 ≠ [] := by
  induction h with
  | nil => exact ⟨[], rfl, rfl, fun _ hx => absurd hx List.not_mem_nil⟩
  | @cons t piece ts pieces hread _ ih =>
    rw [List.flatten_cons, List.length_append] at hlevels
    obtain ⟨pairs, rfl, rfl, hpairs⟩ := ih (Nat.le_of_add_left_le hlevels)
    refine ⟨(piece, t) :: pairs, rfl, rfl, ?_⟩
    rw [List.forall_mem_cons]
    exact ⟨⟨hread.reads levels (Nat.le_of_add_right_le hlevels), hread.nonempty⟩, hpairs⟩

/-- The path and the children of a package, with `make` for what they are made into. --/
theorem ends_content {make : Path → List Term → Term} (hplain : path.Plain) (h : List.Forall₂ Read ts pieces)
    (hlevels : pieces.flatten.length ≤ levels) :
    Ends (nameString >>= fun path => toEnd (term levels) >>= fun children => pure (make path children))
      (path.bytes ++ pieces.flatten) (make path ts) := by
  obtain ⟨pairs, rfl, rfl, hpairs⟩ := pieces_of_read h hlevels
  exact (reads_nameString hplain).bind_ends ((ends_toEnd pairs hpairs).map _)

theorem packagePayload_eq (pieces : List Bytes) (hplain : path.Plain) : packagePayload path.text pieces = .ok (path.bytes ++ pieces.flatten) := by
  rw [packagePayload, encodePath_text hplain]
  rfl

/-- The bytes of a package are more than those of its children. --/
theorem levels_of_package {op : Bytes} {b : UInt8}
    (h : (b :: op ++ (appendPkgLength [] n true ++ (path.bytes ++ pieces.flatten))).length ≤ levels) :
    ∃ l, levels = l + 1 ∧ pieces.flatten.length ≤ l := by
  cases levels with
  | zero => simp at h
  | succ l =>
    refine ⟨l, rfl, ?_⟩
    simp only [List.cons_append, List.length_cons, List.length_append] at h ⊢
    omega

mutual

theorem term_read : (t : Term) → t.Plain → t.Fits → ∃ bytes, t.encode = .ok bytes ∧ Read t bytes
  | .scope path children, hplain, hfits => by
    obtain ⟨pieces, hpieces, hread⟩ := all_read children hplain.2 hfits.1
    have hpayload := packagePayload_eq pieces hplain.1
    have hsmall := hfits.2 _ (by rw [hpieces]; exact hpayload)
    refine ⟨[0x10] ++ (appendPkgLength [] (path.bytes ++ pieces.flatten).length true ++ (path.bytes ++ pieces.flatten)), ?_,
      List.cons_ne_nil _ _, fun levels hlevels => ?_⟩
    · rw [Term.encode, hpieces]
      show appendScope path.text pieces = _
      rw [appendScope, hpayload, ← List.append_assoc, ← appendPkgLength_append]
      rfl
    · obtain ⟨l, rfl, hl⟩ := levels_of_package hlevels
      rw [term]
      exact .next (reads_package (ends_content hplain.1 hread hl) hsmall)
  | .device path children, hplain, hfits => by
    obtain ⟨pieces, hpieces, hread⟩ := all_read children hplain.2 hfits.1
    have hpayload := packagePayload_eq pieces hplain.1
    have hsmall := hfits.2 _ (by rw [hpieces]; exact hpayload)
    refine ⟨[0x5B, 0x82] ++ (appendPkgLength [] (path.bytes ++ pieces.flatten).length true ++ (path.bytes ++ pieces.flatten)), ?_,
      List.cons_ne_nil _ _, fun levels hlevels => ?_⟩
    · rw [Term.encode, hpieces]
      show appendDevice path.text pieces = _
      rw [appendDevice, hpayload, ← List.append_assoc, ← appendPkgLength_append]
      rfl
    · obtain ⟨l, rfl, hl⟩ := levels_of_package hlevels
      rw [term]
      exact .next (.next (.require rfl (reads_package (ends_content hplain.1 hread hl) hsmall)))
  | .name path value, hplain, hfits => by
    refine ⟨[0x08] ++ path.bytes ++ value.encode, ?_, List.cons_ne_nil _ _, fun levels hlevels => ?_⟩
    · rw [Term.encode, appendName, encodePath_text hplain]
      rfl
    · cases levels with
      | zero => simp at hlevels
      | succ l =>
        rw [term, List.append_assoc]
        exact .next (.require rfl ((reads_nameString hplain).bind ((reads_data hfits).map _)))

theorem all_read : (ts : List Term) → PlainAll ts → FitsAll ts →
    ∃ pieces, encodeAll ts = .ok pieces ∧ List.Forall₂ Read ts pieces
  | [], _, _ => ⟨[], rfl, .nil⟩
  | t :: ts, hplain, hfits => by
    obtain ⟨bytes, hbytes, hread⟩ := term_read t hplain.1 hfits.1
    obtain ⟨pieces, hpieces, hrest⟩ := all_read ts hplain.2 hfits.2
    refine ⟨bytes :: pieces, ?_, .cons hread hrest⟩
    rw [encodeAll, hbytes, hpieces]
    rfl

end
end
/-! ### Tables -/

section
variable {table : Bytes} {i : Nat} {c : UInt8}

/-- The sum of the bytes. --/
def byteSum (table : Bytes) : Nat := table.foldr (fun b sum => b.toNat + sum) 0

theorem tableSum_toNat (table : Bytes) : (tableSum table).toNat = byteSum table % 256 := by
  have hfold : ∀ start : UInt8, (table.foldl (· + ·) start).toNat = (start.toNat + byteSum table) % 256 := by
    induction table with
    | nil =>
      intro start
      exact (Nat.mod_eq_of_lt start.toNat_lt).symm
    | cons b table ih =>
      intro start
      have hcons : byteSum (b :: table) = b.toNat + byteSum table := rfl
      rw [List.foldl_cons, ih, UInt8.toNat_add, hcons]
      omega
  exact (hfold 0).trans (by rw [UInt8.toNat_zero, Nat.zero_add])

/-- A byte in place of a zero adds to the sum. --/
theorem byteSum_set (h : i < table.length) : byteSum (table.set i c) = byteSum (table.set i 0) + c.toNat := by
  induction table generalizing i with
  | nil => cases h
  | cons b table ih =>
    cases i with
    | zero => simp [byteSum, Nat.add_comm]
    | succ i =>
      have hrest := ih (Nat.lt_of_succ_lt_succ h)
      simp only [byteSum, List.set_cons_succ, List.foldr_cons] at hrest ⊢
      omega

/-- The checksum makes the sum of the bytes zero. --/
theorem byteSum_finalizeSdt (h : 9 < table.length) : byteSum (finalizeSdt table) % 256 = 0 := by
  have hset : byteSum (finalizeSdt table) = byteSum (table.set 9 0) + (tableChecksum (table.set 9 0)).toNat := by
    rw [finalizeSdt, byteSum_set (by rwa [List.length_set]), List.set_set]
  have hsum := tableSum_toNat (table.set 9 0)
  have hneg : (tableChecksum (table.set 9 0)).toNat = (255 - (tableSum (table.set 9 0)).toNat + 1) % 256 := by
    rw [tableChecksum, UInt8.toNat_add, UInt8.toNat_not]
    rfl
  have hlt := (tableSum (table.set 9 0)).toNat_lt
  rw [hset, hneg, hsum]
  omega

theorem length_finalizeSdt : (finalizeSdt table).length = table.length := by
  rw [finalizeSdt, List.length_set, List.length_set]

theorem finalizeSdt_eq (table : Bytes) : ∃ c, finalizeSdt table = table.set 9 c := ⟨_, by rw [finalizeSdt, List.set_set]⟩

end

/-- A table has its own size in its header, its bytes have the sum zero, and after the header comes the body. --/
theorem dsdtTable_spec (body : Bytes) (h : body.length < 2 ^ 32 - 36) :
    Words.ofLe (((dsdtTable body).drop 4).take 4) = (dsdtTable body).length ∧
      byteSum (dsdtTable body) % 256 = 0 ∧ (dsdtTable body).drop 36 = body := by
  obtain ⟨front, rest, hfront, hrest, hheader⟩ : ∃ front rest : Bytes, front.length = 4 ∧ rest.length = 28 ∧
      buildSdtHeader (Words.ascii "DSDT") (UInt32.ofNat (36 + body.length)) 2 (Words.ascii "GCDSDT01") =
        front ++ Words.le 4 (UInt32.ofNat (36 + body.length)).toNat ++ rest := by
    refine ⟨(Words.ascii "DSDT").take 4, [2, 0] ++ Words.ascii "GOCRKR" ++ (Words.ascii "GCDSDT01").take 8 ++ [0, 0, 0, 0] ++
      Words.le 4 0x47434154 ++ Words.le 4 0x20260402, by decide, by decide, ?_⟩
    simp only [buildSdtHeader, List.append_assoc]
  have hsize : (UInt32.ofNat (36 + body.length)).toNat = 36 + body.length :=
    UInt32.toNat_ofNat_of_lt' (show _ < 2 ^ 32 by omega)
  have hlen : (front ++ Words.le 4 (36 + body.length)).length = 8 := by
    rw [List.length_append, hfront, Words.length_le]
  obtain ⟨c, hc⟩ := finalizeSdt_eq (front ++ Words.le 4 (36 + body.length) ++ (rest ++ body))
  have htable : dsdtTable body = front ++ Words.le 4 (36 + body.length) ++ (rest.set 1 c ++ body) := by
    rw [dsdtTable, hheader, hsize, List.append_assoc, hc, List.set_append_right _ _ (by omega), hlen,
      List.set_append_left _ _ (by omega)]
  have hsum : byteSum (dsdtTable body) % 256 = 0 := by
    rw [dsdtTable]
    refine byteSum_finalizeSdt ?_
    rw [hheader, List.length_append, List.length_append, List.length_append, hfront, hrest, Words.length_le]
    omega
  refine ⟨?_, hsum, ?_⟩
  · rw [htable, List.append_assoc, List.drop_left' hfront, List.take_left' Words.length_le, Words.ofLe_le]
    simp only [List.length_append, List.length_set, hfront, hrest, Words.length_le]
    omega
  · have hskip : (front ++ Words.le 4 (36 + body.length) ++ rest.set 1 c).length = 36 := by
      rw [List.length_append, hlen, List.length_set, hrest]
    rw [htable, ← List.append_assoc, List.drop_left' hskip]

/-! ### Sizes -/

section
variable {path : Path} {children ts : List Term} {pieces : List Bytes} {bytes : Bytes} {n : Nat}

theorem length_appendPkgLength {out : Bytes} : (appendPkgLength out n true).length = out.length + lengthLen n := by
  rw [appendPkgLength_eq, List.length_append]
  split
  · rename_i hone
    rw [hone]
    rfl
  · have hcases := lengthLen_cases (n := n)
    rw [List.length_cons, Words.length_le]
    omega

/-- What a package holds. --/
theorem package_bytes {op : Bytes}
    (h : ((encodeAll children >>= packagePayload path.text) >>= fun payload =>
      pure (appendPkgLength op payload.length true ++ payload)) = .ok bytes) :
    ∃ pieces payload, encodeAll children = .ok pieces ∧ packagePayload path.text pieces = .ok payload ∧
      bytes.length = op.length + lengthLen payload.length + payload.length ∧ pieces.flatten.length ≤ payload.length := by
  obtain ⟨payload, hpayload, hbytes⟩ := ok_of_bind h
  obtain ⟨pieces, hpieces, hpayload⟩ := ok_of_bind hpayload
  obtain ⟨front, -, hfront⟩ := ok_of_bind hpayload
  refine ⟨pieces, payload, hpieces, hpayload, ?_, ?_⟩
  · cases hbytes
    rw [List.length_append, length_appendPkgLength]
  · cases hfront
    rw [List.length_append]
    exact Nat.le_add_left _ _

theorem encode_scope : Term.encode (.scope path children) =
    ((encodeAll children >>= packagePayload path.text) >>= fun payload =>
      pure (appendPkgLength [0x10] payload.length true ++ payload)) := by
  rw [Term.encode, bind_assoc]
  rfl

theorem encode_device : Term.encode (.device path children) =
    ((encodeAll children >>= packagePayload path.text) >>= fun payload =>
      pure (appendPkgLength [0x5B, 0x82] payload.length true ++ payload)) := by
  rw [Term.encode, bind_assoc]
  rfl

/-- A package is at most six bytes longer than what it holds. --/
theorem package_length {t : Term} (h : t.isPackage = true) (hfits : t.Fits) (hbytes : t.encode = .ok bytes) :
    bytes.length < 2 ^ 28 + 2 := by
  cases t with
  | name path value => cases h
  | scope path children =>
    obtain ⟨pieces, payload, hpieces, hpayload, hlen, -⟩ := package_bytes (encode_scope ▸ hbytes)
    have hsmall := hfits.2 payload (by rw [hpieces]; exact hpayload)
    have hcases := lengthLen_cases (n := payload.length)
    simp only [List.length_singleton] at hlen
    omega
  | device path children =>
    obtain ⟨pieces, payload, hpieces, hpayload, hlen, -⟩ := package_bytes (encode_device ▸ hbytes)
    have hsmall := hfits.2 payload (by rw [hpieces]; exact hpayload)
    have hcases := lengthLen_cases (n := payload.length)
    simp only [List.length_cons, List.length_nil] at hlen
    omega

mutual

/-- A tree with few bytes fits. --/
theorem fits_of_length : (t : Term) → (bytes : Bytes) → t.encode = .ok bytes → bytes.length < 2 ^ 28 - 4 → t.Fits
  | .scope path children, bytes, hbytes, hlen => by
    obtain ⟨pieces, payload, hpieces, hpayload, hsize, hinner⟩ := package_bytes (encode_scope ▸ hbytes)
    refine ⟨fitsAll_of_length children pieces hpieces (by omega), fun b hb => ?_⟩
    rw [hpieces] at hb
    cases hb.symm.trans hpayload
    omega
  | .device path children, bytes, hbytes, hlen => by
    obtain ⟨pieces, payload, hpieces, hpayload, hsize, hinner⟩ := package_bytes (encode_device ▸ hbytes)
    refine ⟨fitsAll_of_length children pieces hpieces (by omega), fun b hb => ?_⟩
    rw [hpieces] at hb
    cases hb.symm.trans hpayload
    omega
  | .name path value, bytes, hbytes, hlen => by
    obtain ⟨front, -, hbytes⟩ := ok_of_bind hbytes
    cases hbytes
    cases value with
    | integer v => trivial
    | string s => trivial
    | resources rs =>
      rw [Data.encode, buildResourceTemplate] at hlen
      simp only [List.length_append] at hlen
      rw [Term.Fits, Data.Fits]
      omega

theorem fitsAll_of_length : (ts : List Term) → (pieces : List Bytes) → encodeAll ts = .ok pieces →
    pieces.flatten.length < 2 ^ 28 - 4 → FitsAll ts
  | [], _, _, _ => trivial
  | t :: ts, pieces, hpieces, hlen => by
    obtain ⟨first, hfirst, hothers⟩ := ok_of_bind hpieces
    obtain ⟨rest, hrest, heq⟩ := ok_of_bind hothers
    cases heq
    rw [List.flatten_cons, List.length_append] at hlen
    exact ⟨fits_of_length t first hfirst (by omega), fitsAll_of_length ts rest hrest (by omega)⟩

end
end

/-! ### The trees of the DSDTs -/

section
variable {stride : UInt64} {index diskCount : UInt32} {bytes body : Bytes} {pieces : List Bytes} {networkEnabled : Bool}

theorem ok_of_check {ok : Bool} {message : String} {u : Unit} (h : check ok message = .ok u) : ok = true := by
  cases ok with
  | true => rfl
  | false => cases h

theorem virtioMmioDevice_ok (h : virtioMmioDevice stride index = .ok bytes) :
    (virtioTree stride index).encode = .ok bytes ∧ index ≤ 999 := by
  obtain ⟨name, hname, hdevice⟩ := ok_of_bind h
  obtain ⟨_, hcheck, hname⟩ := ok_of_bind hname
  cases hname
  refine ⟨?_, of_decide_eq_true (ok_of_check hcheck)⟩
  rw [← hdevice, virtioTree, buildVirtioMmioDevice]
  simp only [Term.encode, encodeAll, bind_assoc, pure_bind]
  rfl

theorem diskDevices_ok {l : List Nat}
    (h : (l.mapM fun index => virtioMmioDevice stride (UInt32.ofNat index)) = .ok pieces) :
    encodeAll (l.map fun index => virtioTree stride (UInt32.ofNat index)) = .ok pieces ∧
      ∀ index ∈ l, UInt32.ofNat index ≤ 999 := by
  induction l generalizing pieces with
  | nil => exact ⟨h, fun _ hi => absurd hi List.not_mem_nil⟩
  | cons index l ih =>
    rw [List.mapM_cons] at h
    obtain ⟨first, hfirst, hothers⟩ := ok_of_bind h
    obtain ⟨rest, hrest, heq⟩ := ok_of_bind hothers
    obtain ⟨hencode, hindex⟩ := virtioMmioDevice_ok hfirst
    obtain ⟨hall, hindices⟩ := ih hrest
    refine ⟨?_, List.forall_mem_cons.mpr ⟨hindex, hindices⟩⟩
    rw [List.map_cons, encodeAll, hencode, hall]
    exact heq

theorem encodeAll_append {ts us : List Term} {ps qs : List Bytes} (hts : encodeAll ts = .ok ps) (hus : encodeAll us = .ok qs) :
    encodeAll (ts ++ us) = .ok (ps ++ qs) := by
  induction ts generalizing ps with
  | nil =>
    cases hts
    exact hus
  | cons t ts ih =>
    obtain ⟨first, hfirst, hothers⟩ := ok_of_bind hts
    obtain ⟨rest, hrest, heq⟩ := ok_of_bind hothers
    cases heq
    rw [List.cons_append, encodeAll, hfirst, ih hrest]
    rfl

theorem netTrees_ok (h : netDevice stride networkEnabled diskCount = .ok pieces) :
    encodeAll (netTrees stride networkEnabled diskCount) = .ok pieces := by
  cases networkEnabled with
  | false => exact h
  | true =>
    rw [netDevice, if_pos rfl] at h
    cases hdevice : virtioMmioDevice stride diskCount with
    | error e =>
      rw [hdevice] at h
      cases h
    | ok bytes =>
      rw [hdevice] at h
      cases h
      rw [netTrees, if_pos rfl, encodeAll, (virtioMmioDevice_ok hdevice).1]
      rfl

theorem diskTrees_ok (h : diskDevices stride diskCount = .ok pieces) :
    encodeAll (diskTrees stride diskCount) = .ok pieces ∧ diskCount.toNat ≤ 1000 := by
  obtain ⟨hall, hindices⟩ := diskDevices_ok h
  refine ⟨hall, ?_⟩
  by_contra hgt
  exact absurd (hindices 1000 (List.mem_range.mpr (Nat.lt_of_not_le hgt))) (by decide)

theorem deviceCount_ok {count : Nat} {u : Unit} (h : checkVirtioMmioDeviceCount count = .ok u) : count < 20 := by
  obtain ⟨_, -, hmany⟩ := ok_of_bind h
  have hpins := of_decide_eq_true (ok_of_check hmany)
  have hbase : virtioMmioIrqBase.toNat = 5 := rfl
  have hmax : maxIoApicPins = 24 := rfl
  omega

/-- The body that KVM builds is that of its tree. --/
theorem kvmDsdt_ok (h : Kvm.buildDsdtBody networkEnabled diskCount = .ok body) :
    (kvmDsdt networkEnabled diskCount).encode = .ok body ∧ diskCount.toNat < 20 := by
  obtain ⟨_, hcount, hdisks⟩ := ok_of_bind h
  obtain ⟨disks, hdisks, hnet⟩ := ok_of_bind hdisks
  obtain ⟨net, hnet, hscope⟩ := ok_of_bind hnet
  obtain ⟨hencode, hle⟩ := diskTrees_ok hdisks
  constructor
  · rw [kvmDsdt, Term.encode, encodeAll_append hencode (netTrees_ok hnet)]
    exact hscope
  · have hlt := deviceCount_ok hcount
    have hone : (if networkEnabled then 1 else 0 : UInt32).toNat ≤ 1 := by split <;> decide
    rw [UInt32.toNat_add] at hlt
    omega

theorem whpDsdt_ok (h : Whp.buildDsdtBody networkEnabled diskCount = .ok body) :
    (whpDsdt networkEnabled diskCount).encode = .ok body ∧ diskCount.toNat < 20 := by
  obtain ⟨_, hcount, hhpet⟩ := ok_of_bind h
  obtain ⟨hpet, hhpet, hcom1⟩ := ok_of_bind hhpet
  obtain ⟨com1, hcom1, hdisks⟩ := ok_of_bind hcom1
  obtain ⟨disks, hdisks, hrng⟩ := ok_of_bind hdisks
  obtain ⟨rng, hrng, hnet⟩ := ok_of_bind hrng
  obtain ⟨net, hnet, hscope⟩ := ok_of_bind hnet
  obtain ⟨hencode, hle⟩ := diskTrees_ok hdisks
  have hfront : encodeAll [hpetTree, com1Tree] = .ok [hpet, com1] := by
    have hh : hpetTree.encode = .ok hpet := by
      rw [← hhpet, hpetTree, Whp.buildHpetDevice]
      simp only [Term.encode, encodeAll, bind_assoc, pure_bind]
      rfl
    have hc : com1Tree.encode = .ok com1 := by
      rw [← hcom1, com1Tree, Whp.buildCom1Device]
      simp only [Term.encode, encodeAll, bind_assoc, pure_bind]
      rfl
    rw [encodeAll, encodeAll, hh, hc]
    rfl
  have hback : encodeAll [virtioTree Whp.virtioStride (diskCount + 1)] = .ok [rng] := by
    rw [encodeAll, (virtioMmioDevice_ok hrng).1]
    rfl
  constructor
  · rw [whpDsdt, Term.encode, encodeAll_append (encodeAll_append (encodeAll_append hfront hencode) hback) (netTrees_ok hnet)]
    exact hscope
  · have hlt := deviceCount_ok hcount
    rw [UInt32.toNat_add, UInt32.toNat_add] at hlt
    have hone : (1 : UInt32).toNat = 1 := rfl
    omega

theorem plain_single {s : Seg} (h : s.Plain) : (single s).Plain := by
  intro t ht
  rw [List.mem_singleton.mp ht]
  exact h

theorem plainAll_append {ts us : List Term} (hts : PlainAll ts) (hus : PlainAll us) : PlainAll (ts ++ us) := by
  induction ts with
  | nil => exact hus
  | cons t ts ih => exact ⟨hts.1, ih hts.2⟩

/-- The names in the trees begin with a letter or an underscore. --/
theorem plain_virtioTree : (virtioTree stride index).Plain :=
  ⟨plain_single (show (0x56 : UInt8) ∉ notLead by decide), plain_single (by decide), plain_single (by decide),
    plain_single (by decide), plain_single (by decide), trivial⟩

theorem plain_diskTrees : PlainAll (diskTrees stride diskCount) := by
  rw [diskTrees]
  induction List.range diskCount.toNat with
  | nil => trivial
  | cons i l ih => exact ⟨plain_virtioTree, ih⟩

theorem plain_netTrees : PlainAll (netTrees stride networkEnabled diskCount) := by
  rw [netTrees]
  split
  · exact ⟨plain_virtioTree, trivial⟩
  · trivial

theorem plain_kvmDsdt : (kvmDsdt networkEnabled diskCount).Plain :=
  ⟨by decide, plainAll_append plain_diskTrees plain_netTrees⟩

theorem plain_whpDsdt : (whpDsdt networkEnabled diskCount).Plain := by
  have hhpet : hpetTree.Plain :=
    ⟨plain_single (by decide), plain_single (by decide), plain_single (by decide), plain_single (by decide), trivial⟩
  have hcom1 : com1Tree.Plain :=
    ⟨plain_single (by decide), plain_single (by decide), plain_single (by decide), plain_single (by decide), trivial⟩
  exact ⟨by decide, plainAll_append (plainAll_append (plainAll_append ⟨hhpet, hcom1, trivial⟩ plain_diskTrees)
    ⟨plain_virtioTree, trivial⟩) plain_netTrees⟩

/-- With as many disks as there are pins, the bodies are far below the size of a package. --/
theorem dsdt_sizes : ∀ disks : Fin 20, ∀ networkEnabled : Bool,
    (Kvm.buildDsdtBody networkEnabled (UInt32.ofNat disks.val)).toOption.all (fun b => decide (b.length < 2 ^ 12)) = true ∧
    (Whp.buildDsdtBody networkEnabled (UInt32.ofNat disks.val)).toOption.all (fun b => decide (b.length < 2 ^ 12)) = true := by
  decide +kernel

end

/-! ### The round trip -/

/-- A tree is read back from its bytes; a package is also read back from a table, with a size and a checksum in order. --/
theorem read_encode {t : Term} (hplain : t.Plain) (hfits : t.Fits) :
    ∃ body, t.encode = .ok body ∧ read body = some [t] ∧
      (t.isPackage = true → Words.ofLe (((dsdtTable body).drop 4).take 4) = (dsdtTable body).length ∧
        byteSum (dsdtTable body) % 256 = 0 ∧ read ((dsdtTable body).drop 36) = some [t]) := by
  obtain ⟨body, hbody, hread⟩ := term_read t hplain hfits
  have hall : read body = some [t] := by
    have hend := ends_toEnd (r := term body.length) [(body, t)] fun x hx => by
      rw [List.mem_singleton.mp hx]
      exact ⟨hread.reads _ (Nat.le_refl _), hread.nonempty⟩
    rw [List.map_singleton, List.map_singleton, List.flatten_singleton] at hend
    exact hend.run
  refine ⟨body, hbody, hall, fun hpackage => ?_⟩
  have hlen := package_length hpackage hfits hbody
  obtain ⟨hsize, hsum, hdrop⟩ := dsdtTable_spec body (by omega)
  exact ⟨hsize, hsum, hdrop.symm ▸ hall⟩

theorem aml_round_trip {t : Term} (hplain : t.Plain) (hfits : t.Fits) :
    (∀ n < 2 ^ 28 - 4, Reads pkgLength (appendPkgLength [] n true)
      (n + (appendPkgLength [] n true).length, (appendPkgLength [] n true).length)) ∧
    ∃ body, t.encode = .ok body ∧ read body = some [t] ∧
      (t.isPackage = true → Words.ofLe (((dsdtTable body).drop 4).take 4) = (dsdtTable body).length ∧
        byteSum (dsdtTable body) % 256 = 0 ∧ read ((dsdtTable body).drop 36) = some [t]) := by
  refine ⟨fun n hn => ?_, read_encode hplain hfits⟩
  have hlen : (appendPkgLength [] n true).length = lengthLen n := by
    rw [length_appendPkgLength, List.length_nil, Nat.zero_add]
  rw [hlen]
  exact reads_pkgLength hn

/-- The DSDT of WHP for one disk and a network. --/
theorem aml_round_trip_small :
    (∀ n < 2 ^ 28 - 4, Reads pkgLength (appendPkgLength [] n true)
      (n + (appendPkgLength [] n true).length, (appendPkgLength [] n true).length)) ∧
    ∃ body, (whpDsdt true 1).encode = .ok body ∧ read body = some [whpDsdt true 1] ∧
      ((whpDsdt true 1).isPackage = true → Words.ofLe (((dsdtTable body).drop 4).take 4) = (dsdtTable body).length ∧
        byteSum (dsdtTable body) % 256 = 0 ∧ read ((dsdtTable body).drop 36) = some [whpDsdt true 1]) := by
  refine aml_round_trip plain_whpDsdt ?_
  cases hbytes : (whpDsdt true 1).encode with
  | error e =>
    have hok : (whpDsdt true 1).encode.toOption.isSome = true := by decide +kernel
    rw [hbytes] at hok
    cases hok
  | ok bytes =>
    have hsize : (whpDsdt true 1).encode.toOption.all (fun b => decide (b.length < 2 ^ 28 - 4)) = true := by decide +kernel
    rw [hbytes] at hsize
    exact fits_of_length _ bytes hbytes (of_decide_eq_true hsize)

/-- A segment that begins with the sign for several segments is not read back. --/
theorem slash_not_read : ¬∀ t : Term, t.Fits → ∃ body, t.encode = .ok body ∧ read body = some [t] := by
  intro h
  obtain ⟨body, hbody, hread⟩ := h (.name (single (seg "/ABC" (by decide))) (.integer 0)) trivial
  have hnone : (Term.encode (.name (single (seg "/ABC" (by decide))) (.integer 0))).toOption.any
      (fun b => (read b).isSome) = false := by decide +kernel
  rw [hbody] at hnone
  rw [Except.toOption, Option.any_some, hread] at hnone
  cases hnone

/-! ### The DSDTs -/

section
variable {networkEnabled : Bool} {diskCount : UInt32} {table body : Bytes} {t : Term}

/-- The table of a body that is a tree with few bytes. --/
theorem table_of_tree (hplain : t.Plain) (hpackage : t.isPackage = true) (hbody : t.encode = .ok body)
    (hsize : body.length < 2 ^ 12) : Words.ofLe (((dsdtTable body).drop 4).take 4) = (dsdtTable body).length ∧
      byteSum (dsdtTable body) % 256 = 0 ∧ read ((dsdtTable body).drop 36) = some [t] := by
  obtain ⟨_, hencode, -, htable⟩ := read_encode hplain (fits_of_length t body hbody (Nat.lt_trans hsize (by decide)))
  cases hencode.symm.trans hbody
  exact htable hpackage

/-- What KVM builds for any number of disks is read as the tree of its devices. --/
theorem kvm_dsdt_read (h : Kvm.buildDsdtTable networkEnabled diskCount = .ok table) :
    Words.ofLe ((table.drop 4).take 4) = table.length ∧ byteSum table % 256 = 0 ∧
      read (table.drop 36) = some [kvmDsdt networkEnabled diskCount] := by
  cases hbody : Kvm.buildDsdtBody networkEnabled diskCount with
  | error e =>
    rw [Kvm.buildDsdtTable, hbody] at h
    cases h
  | ok body =>
    rw [Kvm.buildDsdtTable, hbody] at h
    cases h
    obtain ⟨hencode, hlt⟩ := kvmDsdt_ok hbody
    have hsize := (dsdt_sizes ⟨diskCount.toNat, hlt⟩ networkEnabled).1
    rw [UInt32.ofNat_toNat, hbody] at hsize
    exact table_of_tree plain_kvmDsdt rfl hencode (of_decide_eq_true hsize)

theorem whp_dsdt_read (h : Whp.buildDsdtTable networkEnabled diskCount = .ok table) :
    Words.ofLe ((table.drop 4).take 4) = table.length ∧ byteSum table % 256 = 0 ∧
      read (table.drop 36) = some [whpDsdt networkEnabled diskCount] := by
  cases hbody : Whp.buildDsdtBody networkEnabled diskCount with
  | error e =>
    rw [Whp.buildDsdtTable, hbody] at h
    cases h
  | ok body =>
    rw [Whp.buildDsdtTable, hbody] at h
    cases h
    obtain ⟨hencode, hlt⟩ := whpDsdt_ok hbody
    have hsize := (dsdt_sizes ⟨diskCount.toNat, hlt⟩ networkEnabled).2
    rw [UInt32.ofNat_toNat, hbody] at hsize
    exact table_of_tree plain_whpDsdt rfl hencode (of_decide_eq_true hsize)

end
end NodeVmm.Acpi.Aml
