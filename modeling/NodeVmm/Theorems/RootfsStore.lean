import Mathlib.Data.Char
import Mathlib.Data.List.Lex
import NodeVmm.RunImage

/-! What the operations on root disks keep: a relation that holds across every change of the files that they may
    change holds across the operations. -/

namespace NodeVmm.RootfsCache
open Exec
open StableJson (Number)

variable {Tree : Type}

/-! ### Paths in the cache -/

section
variable {c k l : Text} {t : Text}

theorem resolvePath_absolute {cwd target : Text} : PosixPath.isAbsolute (resolvePath cwd target) = true := by
  unfold resolvePath
  split
  · assumption
  · rfl

theorem resolveAttachedDisks_mem {cwd : Text} {attached : List AttachedDisk} {d : AttachedDisk} :
    ∀ {disks : List AttachedDisk} {i : Nat}, resolveAttachedDisks cwd disks i = .ok attached → d ∈ attached →
      ∃ disk ∈ disks, d.path = resolvePath cwd disk.path ∧ d.isReadonly = disk.isReadonly
  | [], _, hok, hmem => by
    cases hok
    cases hmem
  | disk :: rest, i, hok, hmem => by
    unfold resolveAttachedDisks at hok
    split at hok
    · cases hok
    · rcases hrest : resolveAttachedDisks cwd rest (i + 1) with e | resolved <;> rw [hrest] at hok <;> cases hok
      rcases List.mem_cons.mp hmem with rfl | hmem
      · exact ⟨disk, List.mem_cons_self, rfl, rfl⟩
      · obtain ⟨other, hother, hsame⟩ := resolveAttachedDisks_mem hrest hmem
        exact ⟨other, List.mem_cons_of_mem _ hother, hsame⟩

theorem ext4_isName (hk : '/' ∉ k) : PosixPath.IsName (k ++ ".ext4".toList) := by
  have hlen : 5 ≤ (k ++ ".ext4".toList).length := by
    rw [List.length_append]
    exact Nat.le_add_left 5 _
  refine ⟨?_, ?_, ?_, ?_⟩
  · intro hnil
    rw [hnil] at hlen
    exact absurd hlen (by decide)
  · intro hdot
    rw [hdot] at hlen
    exact absurd hlen (by decide)
  · intro hdotdot
    rw [hdotdot] at hlen
    exact absurd hlen (by decide)
  · rw [List.mem_append, not_or]
    exact ⟨hk, by decide⟩

/-- The names of a path in the cache. --/
theorem cachedPath_eq (hc : PosixPath.isAbsolute c = true) (hk : '/' ∉ k) : cachedPath c k =
    PosixPath.ofNames (PosixPath.normalizeString false c ++ ["rootfs".toList] ++ [k ++ ".ext4".toList]) := by
  have hrootfs : PosixPath.IsName "rootfs".toList := by decide
  have hnames : ∀ n ∈ PosixPath.normalizeString false c ++ ["rootfs".toList], PosixPath.IsName n := by
    intro n hn
    rcases List.mem_append.mp hn with hn | hn
    · exact PosixPath.normalizeString_names c n hn
    · rw [List.mem_singleton.mp hn]
      exact hrootfs
  rw [cachedPath, PosixPath.join_of_absolute hc hrootfs, PosixPath.join_ofNames_name hnames (ext4_isName hk)]

theorem cachedPath_names (hk : '/' ∉ k) : ∀ n ∈ PosixPath.normalizeString false c ++ ["rootfs".toList] ++
    [k ++ ".ext4".toList], PosixPath.IsName n := by
  intro n hn
  rcases List.mem_append.mp hn with hn | hn
  · rcases List.mem_append.mp hn with hn | hn
    · exact PosixPath.normalizeString_names c n hn
    · rw [List.mem_singleton.mp hn]
      decide
  · rw [List.mem_singleton.mp hn]
    exact ext4_isName hk

theorem cachedPath_inj {c' : Text} (hc : PosixPath.isAbsolute c = true) (hc' : PosixPath.isAbsolute c' = true)
    (hk : '/' ∉ k) (hl : '/' ∉ l) (h : cachedPath c k = cachedPath c' l) : k = l := by
  rw [cachedPath_eq hc hk, cachedPath_eq hc' hl] at h
  have hnames := PosixPath.ofNames_inj (cachedPath_names hk) (cachedPath_names hl) h
  have hlast := (List.append_inj' hnames rfl).2
  exact List.append_cancel_right (List.cons.inj hlast).1

theorem slash_not_mem_sha256 (h : Machine Tree) : '/' ∉ h.sha256 t := fun hmem =>
  absurd (h.sha256_hex t '/' hmem) (by decide)

end

/-! ### Operations -/

/-- A relation that holds whatever is stored under a path in `P`. --/
structure Puts (P : Text → Prop) (R : Store Tree → Store Tree → Prop) : Prop extends Frame R where
  put : ∀ f, P f → ∀ s file, R s (s.put f file)

namespace Run
variable {r : Run Tree} {h : Machine Tree} {R : Store Tree → Store Tree → Prop} {P : Text → Prop} {op stat truncate : Op}
  {f g : Text}

theorem keeps_attempt (hR : Puts P R) : Keeps R (r.attempt op) := Keeps.check hR.toFrame

theorem keeps_put (hR : Puts P R) (hf : P f) {file : Option (File Tree)} : Keeps R (Exec.modify (Store.put f file)) :=
  Keeps.modify fun s => hR.put f hf s file

theorem keeps_rm (hR : Puts P R) (hf : P f) : Keeps R (r.rm op f) :=
  Keeps.bind hR.toFrame (keeps_attempt hR) fun _ => keeps_put hR hf

theorem keeps_rename (hR : Puts P R) (hf : P f) (hg : P g) : Keeps R (r.rename op f g) := by
  refine Keeps.bind hR.toFrame (keeps_attempt hR) fun _ => Keeps.bind hR.toFrame (Keeps.get hR.toFrame) fun s => ?_
  cases s.files f with
  | none => exact Keeps.throw hR.toFrame
  | some file => exact Keeps.modify fun t => hR.trans (hR.put f hf t none) (hR.put g hg _ _)

theorem keeps_write (hR : Puts P R) (hf : P f) {file : Option (File Tree)} : Keeps R (r.write op f file) := by
  unfold write
  split
  · exact keeps_put hR hf
  · exact Keeps.bind hR.toFrame (keeps_put hR hf) fun _ => Keeps.throw hR.toFrame

theorem keeps_ensure (hR : Puts P R) (hf : P f) {diskMiB : Number} :
    Keeps R (r.ensureDiskSizeAtLeast stat truncate f diskMiB) := by
  unfold ensureDiskSizeAtLeast
  split
  · refine Keeps.bind hR.toFrame (keeps_attempt hR) fun _ => Keeps.bind hR.toFrame (Keeps.get hR.toFrame) fun s => ?_
    cases s.files f with
    | none => exact Keeps.throw hR.toFrame
    | some file =>
      refine Keeps.ite (fun _ => Keeps.throw hR.toFrame) fun _ => Keeps.ite (fun _ => Keeps.pure hR.toFrame) fun _ => ?_
      exact Keeps.bind hR.toFrame (keeps_attempt hR) fun _ =>
        Keeps.bind hR.toFrame (keeps_put hR hf) fun _ => Keeps.pure hR.toFrame
  · exact Keeps.throw hR.toFrame

end Run

/-! ### A host -/

/-- The digests of some texts, each known by its first characters. --/
structure Digests where
  known : List (Text × Text)
  hex : ∀ e ∈ known, ∀ c ∈ e.2, isHexDigit c

theorem hex_of_all {known : List (Text × Text)} (h : (known.all fun e => e.2.all isHexDigit) = true) :
    ∀ e ∈ known, ∀ c ∈ e.2, isHexDigit c := fun e he => List.all_eq_true.mp (List.all_eq_true.mp h e he)

def Digests.sha256 (d : Digests) (t : Text) : Text := ((d.known.find? fun e => e.1.isPrefixOf t).map Prod.snd).getD []

theorem Digests.sha256_hex (d : Digests) {t : Text} {c : Char} (hc : c ∈ d.sha256 t) : isHexDigit c := by
  unfold sha256 at hc
  rcases hfind : d.known.find? fun e => e.1.isPrefixOf t with _ | e
  · rw [hfind] at hc
    cases hc
  · rw [hfind] at hc
    exact d.hex e (List.mem_of_find?_eq_some hfind) c hc

/-- A Linux host on which names are compared by their characters, with a registry and a release of one image. --/
def linuxHost (d : Digests) (config : ImageConfig) (prebuilt : Option (File String)) : Machine String where
  platform := .linux
  arch := "x64".toList
  localeCompare := {
    le := fun a b => decide (a ≤ b)
    total := fun a b => by simpa using le_total a b
    trans := fun a b c hab hbc => decide_eq_true (le_trans (of_decide_eq_true hab) (of_decide_eq_true hbc)) }
  localeCompare_identifiers := fun a b _ _ hab hba => le_antisymm (of_decide_eq_true hab) (of_decide_eq_true hba)
  sha256 := d.sha256
  sha256_hex := fun _ _ hc => d.sha256_hex hc
  pullOciImage image arch := some (image.str ++ " for " ++ arch.str, config)
  dockerfileRootfs o := some ("from " ++ (o.dockerfile.getD []).str, config)
  packageVersion := some "0.1.4".toList
  prebuilt _ _ := prebuilt

def noFiles : Store String := ⟨fun _ => none, fun _ => PersistentDisk.empty⟩

/-- A run of these options with this random part, in which every operation succeeds. --/
def plainRun (o : SdkRunOptions) (random : String) (hrandom : '/' ∉ random.toList := by decide) : Run String where
  options := o
  cwd := "/work".toList
  defaultCacheDir := "/cache".toList
  processCwd := "/work".toList
  randomId := "vm-".toList ++ random.toList
  madeTempDir := "/tmp/run-".toList ++ random.toList
  madeOverlayDir := "/dev/shm/overlay-".toList ++ random.toList
  unique := random.toList
  unique_name := hrandom
  fails _ := false
  fetchReason := ""
  partialFile := none
  now := "1".toList
  refreshNow := "2".toList
  failsNamed _ := false
  guest _ old := old.getD ⟨⟨"", [], [], [], false⟩, 0⟩

end NodeVmm.RootfsCache
