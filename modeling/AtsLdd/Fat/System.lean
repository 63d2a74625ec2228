/-
The calls of user processes to a volume: it is mounted, names are looked up, directories listed, files read and created, in
any order and with any failure. Inodes may leave memory in between. A step without a state after it is an assertion that
fails, which stops the kernel.

- `fatBmapCluster_getCluster`, `lastCluster_getCluster`: the assertion of `fat_get_cluster` holds where it is called;
- `volStep_none_iff`: the only call that an assertion stops is a read of a file without a first cluster, below its size;
- `run_ne_none_iff`: a run is stopped exactly when it makes such a read;
- `read_stops`: a volume with an entry of 5 bytes and first cluster 0.
-/
import AtsLdd.Core.Run
import AtsLdd.Fat.Create
import AtsLdd.Fat.Listing

namespace AtsLdd.Fat

open AtsLdd.Machine AtsLdd.Run

/-! ## Calls -/

/-- a volume that `fat_fill_super` accepts, and its super block -/
structure AcceptedVolume where
  env : MountEnv
  boot : BootSector
  fsinfo : FsInfo
  sbi : SbInfo
  accepted : fatFillSuper 64 env boot fsinfo = .ok sbi
  sb : FatSb
  mounts : sb.Mounts sbi

/-- a mounted volume, its options and the inodes in memory -/
structure Mounted where
  sb : FatSb
  mopts : MountOptions
  opts : InodeOptions
  nls : NlsTable
  dirsync : Bool
  root : VfsInode
  table : InodeTable

/-- a call to a mounted volume. A directory is given by the number of its entry, the root directory by none. -/
inductive VolCall where
  | lookup (dir : Option ℕ) (name : List UInt8) (mem : Bool)
  | readdir (dir : Option ℕ) (filldir : ℕ → Bool) (fPos : ℕ)
  | read (file : ℕ) (p n pos : ℕ)
  | create (dir : Option ℕ) (name : List UInt8) (ts : Timespec) (mem : Bool)
  /-- an inode leaves memory -/
  | evict (iPos : ℕ)

inductive SysCall where
  | mount (v : AcceptedVolume) (mopts : MountOptions) (opts : InodeOptions) (nls : NlsTable) (dirsync : Bool)
  | vol (c : VolCall)

/-- the inode of a directory -/
def Mounted.dir? (m : Mounted) : Option ℕ → Option VfsInode
  | none => some m.root
  | some iPos => (m.table iPos).filter fun ino => ino.IsDir

/-- the inode of a file -/
def Mounted.file? (m : Mounted) (iPos : ℕ) : Option VfsInode := (m.table iPos).filter fun ino => ¬ ino.IsDir

def Mounted.setDir (m : Mounted) (dir : Option ℕ) (ino : VfsInode) : Mounted :=
  match dir with
  | none => { m with root := ino }
  | some iPos => { m with table := Function.update m.table iPos (some ino) }

/-- a file, as reading sees it: its first cluster is an `int`, its size a 32-bit word -/
def VfsInode.file (ino : VfsInode) : FatInode where
  iStart := int32 ino.iStart
  iSize := (ino.iSize % 2 ^ 32).toNat
  start_min := (int32_bounds ino.iStart).1
  start_max := (int32_bounds ino.iStart).2
  size_max := by
    unfold S_MAXBYTES
    omega

/-- a directory, as adding an entry sees it -/
def VfsInode.grown (opts : InodeOptions) (dirsync : Bool) (ino : VfsInode) : DirInode :=
  { ino.toDirInode opts dirsync with iSize := ulong ino.iSize, mmuPrivate := ulong ino.mmuPrivate }

/-- the directory after an entry was added to it -/
def VfsInode.afterCreate (ino : VfsInode) (c : Create) : VfsInode :=
  { ino with
    iStart := c.dir.iStart, iLogstart := c.dir.iLogstart, iSize := int64 c.dir.iSize
    mmuPrivate := int64 c.dir.mmuPrivate, iBlocks := c.dir.iBlocks
    iMtime := c.dirTime.getD ino.iMtime, iCtime := c.dirTime.getD ino.iCtime }

/-- one call to a mounted volume -/
def volStep (env : Env) (m : Mounted) (s : St) : VolCall → Option (Mounted × St)
  | .lookup dir name mem =>
    match m.dir? dir with
    | none => some (m, s)
    | some d =>
      (msdosLookup env m.sb m.mopts m.opts m.table s d.mapped name mem).map fun r => ({ m with table := r.table }, r.s)
  | .readdir dir filldir fPos =>
    match m.dir? dir with
    | none => some (m, s)
    | some d => some (m, (fatReaddir env m.sb m.mopts m.nls filldir d.isRoot d.mapped s fPos).s)
  | .read file p n pos =>
    match m.file? file with
    | none => some (m, s)
    | some ino =>
      let r := fatSyncRead env m.sb ino.file s p n pos
      r.ret.map fun _ => (m, r.s)
  | .create dir name ts mem =>
    match m.dir? dir with
    | none => some (m, s)
    | some d =>
      (msdosCreate env m.sb m.mopts m.opts ⟨d.grown m.opts m.dirsync, m.table, none, false, none, s⟩ name ts mem).map
        fun r => ({ m with table := r.2.table }.setDir dir (d.afterCreate r.2), r.2.s)
  | .evict iPos => some ({ m with table := Function.update m.table iPos none }, s)

/-- the device with its volume, mounted or not -/
structure Sys where
  s : St
  mounted : Option Mounted

/-- one call -/
def sysStep (env : Env) (σ : Sys) : SysCall → Option Sys
  | .mount v mopts opts nls dirsync =>
    match σ.mounted with
    | some _ => some σ
    | none =>
      let s := { σ.s with
        freeClusters := v.sbi.freeClusters, freeClusValid := v.sbi.freeClusValid, prevFree := v.sbi.prevFree }
      (fatReadRoot env v.sb opts s).map fun r =>
        if r.1 < 0 then ⟨r.2.2, none⟩ else ⟨r.2.2, some ⟨v.sb, mopts, opts, nls, dirsync, r.2.1, fun _ => none⟩⟩
  | .vol c =>
    match σ.mounted with
    | none => some σ
    | some m => (volStep env m σ.s c).map fun r => ⟨r.2, some r.1⟩

/-- a run goes on until an assertion fails -/
def runStep (σ : Option Sys) (c : Env × SysCall) : Option Sys := σ.bind fun σ => sysStep c.1 σ c.2

/-! ## Assertions -/

section
variable {env : Env} {sb : FatSb} {s : St}

/-- `fat_bmap_cluster` calls `fat_get_cluster` only with a first cluster -/
theorem fatBmapCluster_getCluster (env : Env) (sb : FatSb) (s : St) (ino : Inode) (cluster : ℤ) :
    fatBmapCluster env sb s ino cluster = if ino.iStart = 0 then (0, s) else
      match fatGetCluster env sb s ino cluster with
      | none => (0, s)
      | some r => if r.ret < 0 then (r.ret, r.s) else if r.ret = FAT_ENT_EOF then (- EIO, r.s) else (r.dclus, r.s) := by
  unfold fatBmapCluster fatGetCluster
  by_cases h0 : ino.iStart = 0
  · rw [if_pos h0, if_pos h0]
  · simp only [if_neg h0]

/-- `fat_chain_add` calls `fat_get_cluster` only with a first cluster -/
theorem lastCluster_getCluster (env : Env) (sb : FatSb) (s : St) (dir : DirInode) :
    lastCluster env sb s dir = if dir.iStart = 0 then (0, 0, s) else
      match fatGetCluster env sb s dir.toInode FAT_ENT_EOF with
      | none => (0, 0, s)
      | some r => (r.ret, r.dclus, r.s) := by
  unfold lastCluster fatGetCluster
  by_cases h0 : dir.iStart = 0
  · rw [if_neg (not_not.2 h0), if_pos h0]
  · simp only [if_pos h0, if_neg h0, ne_eq]

/-- **The assertion of a read.** -/
theorem fatSyncRead_none_iff (env : Env) (sb : FatSb) (ino : FatInode) (s : St) (p n pos : ℕ) :
    (fatSyncRead env sb ino s p n pos).ret = none ↔ ino.iStart = 0 ∧ pos < ino.iSize := by
  unfold fatSyncRead
  by_cases hpos : pos ≥ ino.iSize
  · rw [if_pos hpos]
    exact iff_of_false (by simp) fun h => absurd h.2 (not_lt.2 hpos)
  rw [if_neg hpos]
  by_cases h0 : ino.iStart = 0
  · simp only [if_pos h0]
    exact iff_of_true trivial ⟨h0, not_le.1 hpos⟩
  · simp only [if_neg h0]
    refine iff_of_false ?_ fun h => h0 h.1
    split_ifs <;> simp

/-- a read is of a file with a first cluster, or not below its size -/
def VolCall.Fits (m : Mounted) : VolCall → Prop
  | .read file _ _ pos => ∀ ino, m.file? file = some ino → ino.file.iStart ≠ 0 ∨ ino.file.iSize ≤ pos
  | _ => True

/-- **The one call that an assertion stops.** -/
theorem volStep_none_iff (env : Env) (m : Mounted) (s : St) (c : VolCall) : volStep env m s c = none ↔ ¬ c.Fits m := by
  have hsome : ∀ {α β : Type} {o : Option α} (f : α → β), o.isSome → o.map f ≠ none := by
    intro α β o f h
    obtain ⟨a, rfl⟩ := Option.isSome_iff_exists.1 h
    exact Option.some_ne_none _
  cases c with
  | lookup dir name mem =>
    refine iff_of_false ?_ (not_not.2 trivial)
    simp only [volStep]
    cases m.dir? dir with
    | none => exact Option.some_ne_none _
    | some d => exact hsome _ (msdosLookup_some env m.sb m.mopts m.opts m.table s d.mapped name mem)
  | readdir dir filldir fPos =>
    refine iff_of_false ?_ (not_not.2 trivial)
    simp only [volStep]
    cases m.dir? dir with
    | none => exact Option.some_ne_none _
    | some d => exact Option.some_ne_none _
  | read file p n pos =>
    simp only [volStep, VolCall.Fits]
    cases m.file? file with
    | none => exact iff_of_false (Option.some_ne_none _) (not_not.2 fun ino h => absurd h.symm (Option.some_ne_none ino))
    | some ino =>
      simp only [Option.map_eq_none_iff, fatSyncRead_none_iff, Option.some.injEq, forall_eq', not_or, not_not, not_le]
  | create dir name ts mem =>
    refine iff_of_false ?_ (not_not.2 trivial)
    simp only [volStep]
    cases m.dir? dir with
    | none => exact Option.some_ne_none _
    | some d => exact hsome _ (msdosCreate_some env m.sb m.mopts m.opts _ name ts mem)
  | evict iPos => exact iff_of_false (Option.some_ne_none _) (not_not.2 trivial)

/-- what the run condition says about one call -/
def CallFits (σ : Option Sys) (c : Env × SysCall) : Prop :=
  ∀ m v, (∃ s, σ = some ⟨s, some m⟩) → c.2 = .vol v → v.Fits m

theorem sysStep_none_iff (env : Env) (σ : Sys) (c : SysCall) : sysStep env σ c = none ↔ ¬ CallFits (some σ) (env, c) := by
  unfold CallFits
  cases c with
  | mount v mopts opts nls dirsync =>
    refine iff_of_false ?_ (not_not.2 fun m v _ h => absurd h (by simp))
    simp only [sysStep]
    cases σ.mounted with
    | some m => exact Option.some_ne_none _
    | none =>
      simp only [Option.map_eq_none_iff]
      exact Option.isSome_iff_ne_none.1 (fatReadRoot_some env v.sb opts _)
  | vol c =>
    simp only [sysStep]
    obtain ⟨s, _ | m⟩ := σ
    · exact iff_of_false (Option.some_ne_none _) (not_not.2 fun m v ⟨s', h⟩ _ => absurd h (by simp))
    · simp only [Option.map_eq_none_iff, volStep_none_iff]
      refine not_congr ⟨fun h m' v ⟨s', heq⟩ hv => ?_, fun h => h m c ⟨s, rfl⟩ rfl⟩
      simp only [Option.some.injEq, Sys.mk.injEq] at heq
      rw [← SysCall.vol.inj hv, ← heq.2]
      exact h

/-- **No assertion fails** in a run exactly when every file that is read below its size has a first cluster. -/
theorem run_ne_none_iff (calls : List (Env × SysCall)) : ∀ σ : Sys,
    run runStep (some σ) calls ≠ none ↔ Meets runStep CallFits (some σ) calls := by
  induction calls with
  | nil =>
    intro σ
    exact iff_of_true (Option.some_ne_none σ) trivial
  | cons c calls ih =>
    intro σ
    rw [run_cons]
    have hstep : runStep (some σ) c = sysStep c.1 σ c.2 := rfl
    by_cases hfit : CallFits (some σ) c
    · obtain ⟨σ', hσ'⟩ := Option.ne_none_iff_exists'.1 fun h => (sysStep_none_iff c.1 σ c.2).1 h hfit
      rw [Meets, hstep, hσ', ih σ', and_iff_right hfit]
    · have hnone := (sysStep_none_iff c.1 σ c.2).2 hfit
      have hstop : ∀ calls, run runStep none calls = none := by
        intro calls
        induction calls with
        | nil => rfl
        | cons c calls ih => exact ih
      rw [hstep, hnone, hstop]
      exact iff_of_false (not_not.2 rfl) fun h => hfit h.1

end

/-! ## A file without a cluster -/

/-- 512-byte clusters, one FAT of 100 blocks, clusters 2 to 9900 -/
def smallSb : FatSb := .at1 9 0 100 1 101 9901 (by decide)

theorem smallSb_mounts : smallSb.Mounts ((smallBoot 10000).sbInfo 64 false ⟨0, 0, 0, 0⟩) where
  blocksize := by decide
  secPerClus := by decide
  fatStart := by decide
  fatLength := by decide
  fats := by decide
  dataStart := by decide
  maxCluster := by decide
  rootCluster := by decide
  entBlocknr _ := rfl
  clusToBlknr _ := rfl

/-- that volume, accepted -/
def smallVolume : AcceptedVolume :=
  ⟨goodMount, smallBoot 10000, ⟨0, 0, 0, 0⟩, _, smallBoot_accepted 10000 (by decide), smallSb, smallSb_mounts⟩

/-- the root directory of that volume, cluster 2, has the file "A" of 5 bytes without a cluster -/
def brokenVol : Vol := fun b =>
  if b = 101 then fun i => if i = 26 then 0 else plainEntry i
  else if b = 1 then fun i => if i = 8 ∨ i = 9 ∨ i = 10 ∨ i = 11 then 0xff else 0
  else fun _ => 0

/-- the volume is mounted, "a" is looked up in its root directory, and the first byte of the file is read -/
def brokenCalls : List (Env × SysCall) := [
  (goodEnv, .mount smallVolume dotsOptions maskOptions ⟨fun _ => 1, fun _ => 0⟩ false),
  (goodEnv, .vol (.lookup none [ch 'a'] true)),
  (goodEnv, .vol (.read 1616 0 1 0))]

/-- **A file that stops the kernel** when it is read. -/
theorem read_stops : ¬ ∀ (s : St) (calls : List (Env × SysCall)), run runStep (some ⟨s, none⟩) calls ≠ none := by
  intro h
  refine h (St.idle brokenVol) brokenCalls (Option.isNone_iff_eq_none.1 ?_)
  decide +kernel

/-- before the read the kernel is up -/
example : (run runStep (some ⟨St.idle brokenVol, none⟩) (brokenCalls.take 2)).isSome = true := by decide +kernel

end AtsLdd.Fat
