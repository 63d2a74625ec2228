/-
Making inodes and files: `fat_iget`, `fat_build_inode` and `fat_read_root` (fat_inode.c), `msdos_add_entry` (msdos_misc.h),
`msdos_lookup` (msdos_inode.c) and `msdos_create` (ATS/ats_msdos_inode.dats).

An inode in memory is found by the number of its entry. Whether `new_inode` finds memory is an argument of a call. `none`
stands for an assertion that fails further down.

- `fatFillInode_some`, `fatBuildInode_some`, `fatReadRoot_some`, `msdosLookup_some`: no assertion fails when an inode is made;
- `fatAddEntries_one`, `msdosCreate_some`: nor when one entry is added.
-/
import AtsLdd.Fat.AddEntries
import AtsLdd.Fat.Dentry
import AtsLdd.Fat.InodeEntry
import AtsLdd.Fat.Mount

namespace AtsLdd.Fat

open AtsLdd.Machine AtsLdd.ByteMap

/-! ## Inodes -/

/-- the inodes in memory, by the number of their entry -/
abbrev InodeTable := ℕ → Option VfsInode

/-- what `fat_build_inode` leaves: 0 or a negative error, and the inode -/
structure BuildInode where
  err : ℤ
  inode : Option VfsInode
  table : InodeTable
  s : St

/-- `fat_build_inode` of the entry `de` with number `iPos`; `mem` says whether `new_inode` finds memory -/
def fatBuildInode (env : Env) (sb : FatSb) (opts : InodeOptions) (table : InodeTable) (s : St) (de : Buf) (iPos : ℕ) (mem : Bool) :
    Option BuildInode :=
  match table iPos with
  | some ino => some ⟨0, some ino, table, s⟩
  | none =>
    if mem = false then some ⟨- ENOMEM, none, table, s⟩
    else
      match fatFillInode env sb opts s { newInode with iNlink := 1 } de with
      | none => none
      | some (err, ino, s) =>
        if err ≠ 0 then some ⟨err, none, table, s⟩
        else
          let ino := { ino with iPos := iPos }
          some ⟨0, some ino, Function.update table iPos (some ino), s⟩

/-- a directory, as the mapping of its blocks sees it; a negative size is a bound that no block reaches -/
def VfsInode.mapped (ino : VfsInode) : Inode := ⟨ino.iStart, ulong ino.iSize⟩

/-- the inode of a root directory of `size` bytes, before its subdirectories are counted -/
def rootInode (sb : FatSb) (opts : InodeOptions) (size : ℤ) : VfsInode :=
  let ino : VfsInode := { newInode with
    isRoot := true, iMode := fatMakeMode opts ATTR_DIR S_IRWXUGO, iStart := int32 sb.rootCluster, iSize := size }
  let end_ := size + (sb.clusterSize - 1)
  let ino := { ino with iBlocks := ulong ((end_ - end_ % sb.clusterSize) / 2 ^ 9), iLogstart := 0, mmuPrivate := size }
  { fatSaveAttrs opts ino ATTR_DIR with iMtime := ⟨0, 0⟩, iAtime := ⟨0, 0⟩, iCtime := ⟨0, 0⟩ }

/-- `fat_read_root`: 0 or -EIO, and the inode of the root directory -/
def fatReadRoot (env : Env) (sb : FatSb) (opts : InodeOptions) (s : St) : Option (ℤ × VfsInode × St) :=
  (fatCalcDirSize env sb s ⟨int32 sb.rootCluster, 0⟩).map fun c =>
    let ino := rootInode sb opts c.iSize
    if c.ret < 0 then (c.ret, ino, c.s)
    else
      let r := fatSubdirs env sb c.s ino.mapped
      ((0 : ℤ), { ino with iNlink := r.1 + 2 }, r.2)

/-- `inode_init_time` -/
def VfsInode.initTime (ino : VfsInode) (ts : Timespec) : VfsInode := { ino with iMtime := ts, iAtime := ts, iCtime := ts }

/-! ## `msdos_lookup` -/

/-- what a lookup leaves: 0 or a negative error, and the inode found -/
structure Lookup where
  err : ℤ
  inode : Option VfsInode
  table : InodeTable
  s : St

/-- `msdos_lookup`; that there is no entry is no error -/
def msdosLookup (env : Env) (sb : FatSb) (mopts : MountOptions) (opts : InodeOptions) (table : InodeTable) (s : St) (dir : Inode)
    (name : List UInt8) (mem : Bool) : Option Lookup :=
  match msdosFind env sb mopts s dir name with
  | (_, some sinfo, s) =>
    match fatBuildInode env sb opts table s (sinfo.ent s) sinfo.iPos mem with
    | none => none
    | some b => some ⟨b.err, b.inode, b.table, sinfo.brelse b.s⟩
  | (err, none, s) => some ⟨if err = - ENOENT then 0 else err, none, table, s⟩

/-! ## `msdos_create` -/

/-- the 32 bytes of the entry that `msdos_add_entry` makes -/
def newEntry (tz : TimeZone) (name : List UInt8) (isDir isHid : Bool) (cluster : ℤ) (ts : Timespec) : List UInt8 :=
  let t := fatTimeUnix2fat tz ts
  -- behind `attr`: `lcase`, `ctime_cs`, `ctime`, `cdate` and `adate`
  name ++ [createAttr isDir isHid] ++ [0, 0, 0, 0, 0, 0, 0, 0] ++ le16Bytes (cluster / 2 ^ 16) ++ le16Bytes t.time ++
    le16Bytes t.date ++ le16Bytes cluster ++ [0, 0, 0, 0]

/-- `msdos_add_entry` -/
def msdosAddEntry (env : Env) (sb : FatSb) (tz : TimeZone) (s : St) (dir : DirInode) (name : List UInt8) (isDir isHid : Bool)
    (cluster : ℤ) (ts : Timespec) : Option AddEntries :=
  match fatAddEntries env sb s dir (newEntry tz name isDir isHid cluster ts) 1 with
  | none => none
  | some r =>
    if r.err ≠ 0 then some r
    else
      let dir := { r.dir with mtime := (fatTimeUnix2fat tz ts).toFatTime }
      some { r with dir := dir, s := (fatSyncInode env sb r.s dir).2 }

/-- the state around a call of `msdos_create` -/
structure Create where
  dir : DirInode
  table : InodeTable
  /-- the inode of the dentry -/
  dentry : Option VfsInode
  /-- the super block is locked -/
  locked : Bool
  /-- the time that `i_mtime` and `i_ctime` of the directory were set to -/
  dirTime : Option Timespec
  s : St

def Create.lockSuper (c : Create) : Create := { c with locked := true }

def Create.unlockSuper (c : Create) : Create := { c with locked := false }

/-- `msdos_create`: 0 or a negative error -/
def msdosCreate (env : Env) (sb : FatSb) (mopts : MountOptions) (opts : InodeOptions) (c : Create) (name : List UInt8)
    (ts : Timespec) (mem : Bool) : Option (ℤ × Create) :=
  let c := c.lockSuper
  match msdosFormatName mopts name with
  | none => some (- EINVAL, c.unlockSuper)
  | some res =>
    match fatScan env sb c.s c.dir.toInode res with
    | (err, sinfo, s) =>
      if err = 0 then some (- EINVAL, { c with s := sinfo.brelse s }.unlockSuper)
      else
        match msdosAddEntry env sb opts.tz s c.dir res false (isHid name res) FAT_ENT_FREE ts with
        | none => none
        | some r =>
          -- on an error `sinfo` is that of the scan
          if r.err ≠ 0 then some (r.err, { c with dir := r.dir, s := sinfo.brelse r.s }.unlockSuper)
          else
            let sinfo := r.sinfo.getD sinfo
            match fatBuildInode env sb opts c.table r.s (sinfo.ent r.s) sinfo.iPos mem with
            | none => none
            | some b =>
              let c := { c with dir := r.dir, dirTime := some ts, table := b.table, s := sinfo.brelse b.s }
              match b.inode with
              | none => some (b.err, c.unlockSuper)
              | some ino =>
                let ino := ino.initTime ts
                some (0, { c with dentry := some ino, table := Function.update c.table sinfo.iPos (some ino) }.unlockSuper)

/-! ## Assertions -/

section
variable {env : Env} {sb : FatSb} {opts : InodeOptions} {mopts : MountOptions} {s : St}

/-- `fat_calc_dir_size` asks for the last cluster of a directory only when it has a first one -/
theorem fatCalcDirSize_some (env : Env) (sb : FatSb) (s : St) (ino : Inode) : (fatCalcDirSize env sb s ino).isSome := by
  unfold fatCalcDirSize fatGetCluster
  by_cases h0 : ino.iStart = 0
  · rw [if_pos h0]
    rfl
  · simp only [if_neg h0]
    split_ifs <;> rfl

theorem fatFillInode_some (env : Env) (sb : FatSb) (opts : InodeOptions) (s : St) (ino : VfsInode) (de : Buf) :
    (fatFillInode env sb opts s ino de).isSome := by
  unfold fatFillInode
  simp only
  by_cases hdir : entAttr de &&& ATTR_DIR ≠ 0 ∧ ¬ IsFree de
  · rw [if_pos hdir]
    obtain ⟨c, hc⟩ := Option.isSome_iff_exists.1 (fatCalcDirSize_some env sb s ⟨entStart de, 0⟩)
    rw [hc]
    simp only
    split_ifs <;> rfl
  · rw [if_neg hdir]
    rfl

theorem fatReadRoot_some (env : Env) (sb : FatSb) (opts : InodeOptions) (s : St) : (fatReadRoot env sb opts s).isSome := by
  unfold fatReadRoot
  rw [Option.isSome_map]
  exact fatCalcDirSize_some env sb s _

theorem fatBuildInode_some (env : Env) (sb : FatSb) (opts : InodeOptions) (table : InodeTable) (s : St) (de : Buf) (iPos : ℕ)
    (mem : Bool) : (fatBuildInode env sb opts table s de iPos mem).isSome := by
  unfold fatBuildInode
  cases table iPos with
  | some ino => rfl
  | none =>
    simp only
    by_cases hmem : mem = false
    · rw [if_pos hmem]
      rfl
    · rw [if_neg hmem]
      obtain ⟨⟨err, ino, s'⟩, hfill⟩ := Option.isSome_iff_exists.1 (fatFillInode_some env sb opts s { newInode with iNlink := 1 } de)
      rw [hfill]
      simp only
      split_ifs <;> rfl

theorem msdosLookup_some (env : Env) (sb : FatSb) (mopts : MountOptions) (opts : InodeOptions) (table : InodeTable) (s : St)
    (dir : Inode) (name : List UInt8) (mem : Bool) : (msdosLookup env sb mopts opts table s dir name mem).isSome := by
  unfold msdosLookup
  rcases msdosFind env sb mopts s dir name with ⟨err, _ | sinfo, s'⟩
  · rfl
  · obtain ⟨b, hb⟩ := Option.isSome_iff_exists.1 (fatBuildInode_some env sb opts table s' (sinfo.ent s') sinfo.iPos mem)
    simp only [hb]
    rfl

/-- one entry needs at most one cluster -/
theorem nrCluster_one (sb : FatSb) {n : ℕ} (hn : n ≤ 1) : nrCluster sb n ≤ 1 := by
  have hmin : DENT_SIZE ≤ sb.clusterSize :=
    le_trans (le_trans (by decide) sb.blocksize_min) (Nat.le_mul_of_pos_right _ sb.secPerClus_pos)
  have hpos := sb.clusterSize_pos
  unfold nrCluster
  rw [← sb.clusterSize_eq]
  refine Nat.lt_succ_iff.1 ((Nat.div_lt_iff_lt_mul hpos).2 ?_)
  have hle : n * DENT_SIZE ≤ 1 * DENT_SIZE := Nat.mul_le_mul_right _ hn
  omega

/-- the assertions of `fat_add_new_entries` and `fat_alloc_clusters` hold for a cluster or two -/
theorem fatAddNewEntries_some (env : Env) (s : St) (dirsync : Bool) (slots : List UInt8) {n : ℕ} (hn : nrCluster sb n ≤ 2) :
    (fatAddNewEntries env sb s dirsync slots n).isSome := by
  unfold fatAddNewEntries
  simp only
  rw [if_neg (not_lt.2 hn)]
  have halloc : (fatAllocClusters env sb s dirsync (nrCluster sb n)).isSome := by
    unfold fatAllocClusters MAX_BUF_PER_PAGE
    rw [if_neg (by omega)]
    split_ifs <;> rfl
  obtain ⟨r, hr⟩ := Option.isSome_iff_exists.1 halloc
  rw [hr]
  simp only
  by_cases herr : r.err ≠ 0
  · rw [if_pos herr]
    rfl
  rw [if_neg herr]
  rcases newClusters env sb r.cluster ⟨[], 0, n * DENT_SIZE, slots, r.s⟩ with ⟨ok, f⟩
  cases ok with
  | false => rfl
  | true =>
    simp only
    split_ifs <;> rfl

/-- **Adding one entry** keeps to the assertions. -/
theorem fatAddEntries_one (env : Env) (sb : FatSb) (s : St) (dir : DirInode) (slots : List UInt8) :
    (fatAddEntries env sb s dir slots 1).isSome := by
  have happend : ∀ pos free left slots' s', left ≤ 1 → (appendSlots env sb dir pos free left slots' s').isSome := by
    intro pos free left slots' s' hleft
    unfold appendSlots
    obtain ⟨n, hn⟩ := Option.isSome_iff_exists.1
      (fatAddNewEntries_some env s' dir.dirsync slots' ((nrCluster_one sb hleft).trans (Nat.le_succ 1)))
    rw [hn]
    simp only
    split_ifs <;> rfl
  have hfound : ∀ f, (addFound env sb dir slots 1 f).isSome := by
    intro f
    unfold addFound
    simp only
    split_ifs
    all_goals first | rfl | exact happend _ _ _ _ _ (Nat.sub_le _ _)
  unfold fatAddEntries
  rcases searchFree env sb s dir.toInode 1 with ⟨e, f⟩
  cases e with
  | full => rfl
  | found => exact hfound f
  | ended =>
    simp only
    split_ifs
    · rfl
    · exact hfound f

/-- **Creating a file** keeps to the assertions. -/
theorem msdosCreate_some (env : Env) (sb : FatSb) (mopts : MountOptions) (opts : InodeOptions) (c : Create) (name : List UInt8)
    (ts : Timespec) (mem : Bool) : (msdosCreate env sb mopts opts c name ts mem).isSome := by
  unfold msdosCreate
  simp only
  cases msdosFormatName mopts name with
  | none => rfl
  | some res =>
    simp only
    rcases fatScan env sb c.lockSuper.s c.lockSuper.dir.toInode res with ⟨err, sinfo, s1⟩
    simp only
    by_cases hfound : err = 0
    · rw [if_pos hfound]
      rfl
    rw [if_neg hfound]
    have hadd : (msdosAddEntry env sb opts.tz s1 c.lockSuper.dir res false (isHid name res) FAT_ENT_FREE ts).isSome := by
      unfold msdosAddEntry
      obtain ⟨r, hr⟩ := Option.isSome_iff_exists.1 (fatAddEntries_one env sb s1 c.lockSuper.dir
        (newEntry opts.tz res false (isHid name res) FAT_ENT_FREE ts))
      rw [hr]
      simp only
      split_ifs <;> rfl
    obtain ⟨r, hr⟩ := Option.isSome_iff_exists.1 hadd
    rw [hr]
    simp only
    by_cases herr : r.err ≠ 0
    · rw [if_pos herr]
      rfl
    rw [if_neg herr]
    obtain ⟨b, hb⟩ := Option.isSome_iff_exists.1 (fatBuildInode_some env sb opts c.lockSuper.table r.s
      ((r.sinfo.getD sinfo).ent r.s) (r.sinfo.getD sinfo).iPos mem)
    rw [hb]
    rcases b with ⟨e, _ | ino, table, s2⟩
    · rfl
    · rfl

end

end AtsLdd.Fat
