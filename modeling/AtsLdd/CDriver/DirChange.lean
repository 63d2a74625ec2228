/-
Adding entries to a directory of the C driver and removing them: `__fat_remove_entries`, `fat_remove_entries` and
`fat_add_entries` (src/C/myfat/dir.c). New clusters are filled as in the driver without a cluster cache
(`AtsLdd.Fat.AddEntries`), and hung behind the chain by `fat_chain_add` of this one.

- `fatRemoveEntries_agrees`, `addFound_agrees`: both drivers change the directory in the same way;
- `fatAddEntries_cached`: a call of `fat_add_entries` fails for want of space and leaves every entry as it was, or writes the
  entries; either way the cache stays true.
-/
import AtsLdd.CDriver.DirScan
import AtsLdd.CDriver.Growth
import AtsLdd.Fat.AddOutcome

namespace AtsLdd.Fat.CDriver

open AtsLdd.Machine AtsLdd.Chain AtsLdd.LinkTable

/-! ## Model -/

/-- `inode_needs_sync` of a directory is `IS_DIRSYNC` -/
def dirFlags (dirsync : Bool) : SyncFlags := ⟨dirsync, dirsync⟩

/-- `__fat_remove_entries`; the fuel is a bound on the slots -/
def fatRemoveSlots (env : Env) (sb : FatSb) (mem dirsync : Bool) : ℕ → St → CachedInode → ℕ → ℕ → Option (ℤ × CachedInode × St)
  | 0, s, ino, _, _ => some (0, ino, s)
  | fuel + 1, s, ino, pos, nrSlots =>
    if nrSlots = 0 then some (0, ino, s)
    else
      match fatGetEntry env sb mem s ino ⟨pos, none, none⟩ with
      | none => none
      | some g =>
        if g.ok = false then some (- EIO, g.ino, g.s)
        else
          let b := g.cur.bh.getD 0
          let off := g.cur.de.getD 0
          let n := min nrSlots ((sb.blocksize - off) / DENT_SIZE)
          let s := { g.s with vol := Function.update g.s.vol b (markDeleted (g.s.vol b) off n) }
          let (ok, s) := if dirsync then syncDirtyBuffer env s b else (true, s)
          let s := brelse s b
          if ok then fatRemoveSlots env sb mem dirsync fuel s g.ino (g.cur.pos + n * DENT_SIZE - DENT_SIZE) (nrSlots - n)
          else some (- EIO, g.ino, s)

/-- what `fat_add_entries` leaves -/
structure AddEntries where
  err : ℤ
  sinfo : Option SlotInfo
  ino : CachedInode
  s : St

/-- `n` clusters are added to the sizes of the inode; an odd size is rounded up first -/
def CachedInode.addSize (ino : CachedInode) (sb : FatSb) (n : ℕ) : CachedInode :=
  let size := if ino.iSize % sb.clusterSize ≠ 0 then
      (ino.iSize + sb.clusterSize - 1) / sb.clusterSize * sb.clusterSize
    else ino.iSize
  { ino with iSize := size + n * 2 ^ sb.clusterBits, mmuPrivate := ino.mmuPrivate + n * 2 ^ sb.clusterBits }

/-- the label `error_remove`: the slots that were filled are given back -/
def errorRemove (env : Env) (sb : FatSb) (mem dirsync : Bool) (ino : CachedInode) (bh : Option ℕ) (pos freeSlots : ℕ) (err : ℤ)
    (s : St) : Option AddEntries :=
  let s := match bh with
    | none => s
    | some b => brelse s b
  if freeSlots ≠ 0 then
    (fatRemoveSlots env sb mem dirsync freeSlots s ino pos freeSlots).map fun r => ⟨err, none, r.2.1, r.2.2⟩
  else some ⟨err, none, ino, s⟩

/-- the third stage of `fat_add_entries`: new clusters for the `nrSlots` entries that are left -/
def appendSlots (env : Env) (sb : FatSb) (opts : InodeOptions) (mem dirsync : Bool) (ino : CachedInode) (pos freeSlots nrSlots : ℕ)
    (slots : List UInt8) (s : St) : Option AddEntries :=
  match fatAddNewEntries env sb s dirsync slots nrSlots with
  | none => none
  | some n =>
    if n.ret < 0 then errorRemove env sb mem dirsync ino n.bh pos freeSlots n.ret n.s
    else
      match fatChainAdd env sb opts mem (dirFlags dirsync) n.s ino n.ret n.nrCluster with
      | none => none
      | some r =>
        if r.ret ≠ 0 then errorRemove env sb mem dirsync r.ino n.bh pos freeSlots r.ret (fatFreeClusters env sb r.s n.ret).2
        else
          let iPos := fatMakeIPos sb (n.bh.getD 0) (n.de.getD 0)
          some ⟨0, some ⟨iPos, pos, freeSlots + nrSlots, n.de, n.bh⟩, r.ino.addSize sb n.nrCluster, r.s⟩

/-- the label `found`: the second stage, and the third one when more slots are needed -/
def addFound (env : Env) (sb : FatSb) (opts : InodeOptions) (mem dirsync : Bool) (ino : CachedInode) (slots : List UInt8)
    (nrSlots : ℕ) (f : FreeSearch) : Option AddEntries :=
  let pos := f.cur.pos - f.freeSlots * DENT_SIZE
  let left := nrSlots - f.freeSlots
  let fill : FillSlots := ⟨pos % sb.blocksize, f.freeSlots * DENT_SIZE, slots, f.s⟩
  let (err, fill) := if f.freeSlots ≠ 0 then fillFree env sb dirsync f.bhs left fill else (0, fill)
  if err ≠ 0 then errorRemove env sb mem dirsync ino f.cur.bh pos f.freeSlots err fill.s
  else if left ≠ 0 then appendSlots env sb opts mem dirsync ino pos f.freeSlots left fill.slots fill.s
  else
    let iPos := fatMakeIPos sb (f.cur.bh.getD 0) (f.cur.de.getD 0)
    some ⟨0, some ⟨iPos, pos, nrSlots, f.cur.de, f.cur.bh⟩, ino, fill.s⟩

/-- the label `error` -/
def addError (ino : CachedInode) (err : ℤ) (f : FreeSearch) : AddEntries :=
  let s := match f.cur.bh with
    | none => f.s
    | some b => brelse f.s b
  ⟨err, none, ino, f.bhs.foldl brelse s⟩

/-- `fat_add_entries` on a FAT32 volume; `none` is a `BUG_ON`. The slot information is left as it is on an error. -/
def fatAddEntries (env : Env) (sb : FatSb) (opts : InodeOptions) (mem dirsync : Bool) (s : St) (ino : CachedInode)
    (slots : List UInt8) (nrSlots : ℕ) : Option AddEntries :=
  match searchFree env sb mem s ino nrSlots with
  | none => none
  | some (.full, f, ino) => some (addError ino (- ENOSPC) f)
  | some (.found, f, ino) => addFound env sb opts mem dirsync ino slots nrSlots f
  | some (.ended, f, ino) =>
    if ino.isRoot = false ∧ ino.iStart = 0 then some (addError ino (- EIO) f) -- a corrupted directory
    else addFound env sb opts mem dirsync ino slots nrSlots f

/-- what `fat_remove_entries` leaves -/
structure RemoveEntries where
  err : ℤ
  sinfo : SlotInfo
  ino : CachedInode
  s : St

/-- `fat_remove_entries`, at the time `now`. An error of the second stage is only reported, and one of `fat_sync_inode` is
dropped. -/
def fatRemoveEntries (env : Env) (sb : FatSb) (opts : InodeOptions) (mem dirsync : Bool) (s : St) (ino : CachedInode)
    (sinfo : SlotInfo) (now : Timespec) : Option RemoveEntries :=
  let b := sinfo.bh.getD 0
  let off := sinfo.de.getD 0
  -- the slots from the last one down to the start of the buffer
  let n := min sinfo.nrSlots (off / DENT_SIZE + 1)
  let s := { s with vol := Function.update s.vol b (markDeleted (s.vol b) (off - DENT_SIZE * (n - 1)) n) }
  let (ok, s) := if dirsync then syncDirtyBuffer env s b else (true, s)
  let s := brelse s b
  let left := sinfo.nrSlots - n
  let sinfo := { sinfo with de := none, bh := none }
  if ok = false then some ⟨- EIO, sinfo, ino, s⟩
  else
    (if left ≠ 0 then fatRemoveSlots env sb mem dirsync left s ino sinfo.slotOff left else some (0, ino, s)).map fun r =>
      let ino := { r.2.1 with iMtime := now, iAtime := now }
      ⟨0, sinfo, ino, if dirsync then (fatWriteInode env sb opts r.2.2 ino.toVfsInode true).2 else r.2.2⟩

/-! ## The directory without its cache -/

/-- the inode of a directory of the driver without a cache; the attributes and the time, which only `fat_sync_inode` stores, do
not matter -/
def plainDir (dirsync : Bool) (ino : VfsInode) : DirInode where
  iStart := ino.iStart
  iSize := ino.iSize.toNat
  iLogstart := ino.iLogstart
  iPos := ino.iPos
  iBlocks := ino.iBlocks
  mmuPrivate := ino.mmuPrivate.toNat
  isRoot := ino.isRoot
  dirsync := dirsync
  attrs := ino.iAttrs
  mtime := ⟨0, 0⟩

/-- the same result for the directory without its cache -/
def AddEntries.plain (r : AddEntries) (dirsync : Bool) : Fat.AddEntries :=
  ⟨r.err, r.sinfo, plainDir dirsync r.ino.toVfsInode, r.s⟩

/-- a directory with the clusters `l` and a true cache, on a volume whose clusters have numbers below the bad mark; its inode is
not written back at once -/
structure CachedReady (sb : FatSb) (s : St) (dirsync : Bool) (ino : CachedInode) (l : List ℤ) : Prop where
  dir : CachedDir sb s.vol l ino
  prevFree : PrevFreeOk sb s
  start : ino.iStart ≠ 0
  few : (sb.maxCluster : ℤ) ≤ BAD_FAT32
  lazy : dirsync = false ∨ ino.isRoot = true

section
variable {env : Env} {sb : FatSb} {s s' : St} {dirsync : Bool} {ino ino' : CachedInode} {l ls : List ℤ} {i n nr : ℕ}
  {opts : InodeOptions} {slots : List UInt8}

theorem not_readFails_of_noFault (henv : env.NoFault) : ¬ ReadFails env := by
  rintro ⟨t, b, hfail⟩
  exact absurd (henv.bread t b) (ne_true_of_eq_false hfail)

theorem CachedDir.plain {vol : Vol} (h : CachedDir sb vol l ino) (dirsync : Bool) :
    DirOn sb vol (plainDir dirsync ino.toVfsInode).toInode l := by
  refine h.dirOn rfl ?_
  have hsize := h.sizes.size_eq
  change ((ino.iSize.toNat : ℕ) : ℤ) = ino.iSize
  omega

theorem CachedReady.plain (h : CachedReady sb s dirsync ino l) : DirReady sb s (plainDir dirsync ino.toVfsInode) l :=
  ⟨h.dir.plain dirsync, h.prevFree, h.start, h.few, h.lazy⟩

theorem CachedReady.of_plain (hdir : CachedDir sb s.vol l ino) (h : DirReady sb s (plainDir dirsync ino.toVfsInode) l) :
    CachedReady sb s dirsync ino l := ⟨hdir, h.prevFree, h.start, h.few, h.lazy⟩

/-- a change outside the FAT does not matter -/
theorem CachedDir.of_eqFat {vol vol' : Vol} (h : CachedDir sb vol l ino) (heq : EqFat sb vol vol') : CachedDir sb vol' l ino :=
  ⟨h.chain.frame fun x _ => by rw [EqFat.table heq], h.sizes⟩

theorem CachedReady.of_sameFat (h : CachedReady sb s dirsync ino l) (hsame : SameFat sb s s') : CachedReady sb s' dirsync ino l where
  dir := h.dir.of_eqFat hsame.vol
  prevFree := by
    unfold PrevFreeOk
    rw [hsame.prevFree]
    exact h.prevFree
  start := h.start
  few := h.few
  lazy := h.lazy

theorem CachedReady.of_looked (h : CachedReady sb s dirsync ino l) (hlook : DirLooked sb l s ino ino' s') :
    CachedReady sb s' dirsync ino' l := by
  have hs := h.of_sameFat (hlook.looked.sameFat sb)
  refine ⟨hlook.dir, hs.prevFree, ?_, h.few, ?_⟩
  · rw [congrArg VfsInode.iStart hlook.inode]
    exact h.start
  · rw [congrArg VfsInode.isRoot hlook.inode]
    exact h.lazy

/-- its times do not matter -/
theorem CachedReady.touched (h : CachedReady sb s dirsync ino l) (atime mtime ctime : Timespec) :
    CachedReady sb s dirsync { ino with iAtime := atime, iMtime := mtime, iCtime := ctime } l where
  dir := ⟨⟨h.dir.chain.chain, h.dir.chain.coherent.of_eq rfl rfl rfl, h.dir.chain.blocks, h.dir.chain.outside⟩,
    ⟨h.dir.sizes.size_eq, h.dir.sizes.written_eq, h.dir.sizes.le, h.dir.sizes.max, h.dir.sizes.covers⟩⟩
  prevFree := h.prevFree
  start := h.start
  few := h.few
  lazy := h.lazy

/-- its inode is not written -/
theorem CachedReady.fatWriteInode {vfs : VfsInode} (h : CachedReady sb s dirsync ino l) (hroot : vfs.isRoot = ino.isRoot) :
    (if dirsync then (fatWriteInode env sb opts s' vfs true).2 else s') = s' := by
  rcases h.lazy with hsync | hisroot
  · rw [hsync]
    rfl
  · unfold Fat.fatWriteInode
    rw [if_pos (hroot.trans hisroot)]
    exact ite_self s'

/-! ## Marking slots -/

theorem looked_symm (h : Looked s s') : Looked s' s := by
  unfold Looked at *
  rw [h]

/-- the same buffer is changed -/
theorem looked_store (h : Looked s s') (b : ℕ) (change : Buf → Buf) :
    Looked { s with vol := Function.update s.vol b (change (s.vol b)) }
      { s' with vol := Function.update s'.vol b (change (s'.vol b)) } := by
  unfold Looked at *
  rw [h]

/-- the same buffer is written, without a failure -/
theorem looked_sync (henv : env.NoFault) (h : Looked s s') (dirsync : Bool) (b : ℕ) :
    ∃ t t', (if dirsync then syncDirtyBuffer env s b else (true, s)) = (true, t) ∧
      (if dirsync then syncDirtyBuffer env s' b else (true, s')) = (true, t') ∧ Looked t t' := by
  cases dirsync with
  | false => exact ⟨s, s', rfl, rfl, h⟩
  | true =>
    unfold syncDirtyBuffer
    simp only [henv.sync, if_true]
    refine ⟨_, _, rfl, rfl, ?_⟩
    unfold Looked at *
    rw [h]

/-- the same buffer outside the FAT is changed, written when it must be, and given back -/
theorem changeBuffer_agrees (henv : env.NoFault) (h : Looked s s') (dirsync : Bool) {b : ℕ} (hnot : ¬ InFat sb b)
    (change : Buf → Buf) : ∃ u u',
    (if dirsync then syncDirtyBuffer env { s with vol := Function.update s.vol b (change (s.vol b)) } b
      else (true, { s with vol := Function.update s.vol b (change (s.vol b)) })) = (true, u) ∧
    (if dirsync then syncDirtyBuffer env { s' with vol := Function.update s'.vol b (change (s'.vol b)) } b
      else (true, { s' with vol := Function.update s'.vol b (change (s'.vol b)) })) = (true, u') ∧
    Looked (brelse u b) (brelse u' b) ∧ SameFat sb s (brelse u b) := by
  obtain ⟨u, u', hsync, hsync', hlook⟩ := looked_sync henv (looked_store h b change) dirsync b
  have hstored := store_sameFat hnot s (change (s.vol b)) s.refs s.t
  have hsynced : SameFat sb { s with vol := Function.update s.vol b (change (s.vol b)) } u := by
    have hu := congrArg Prod.snd hsync
    simp only at hu
    rw [← hu]
    split_ifs
    · exact syncDirtyBuffer_sameFat env hnot _
    · exact SameFat.refl sb _
  exact ⟨u, u', hsync, hsync', ((looked_symm (brelse_looked u b)).trans hlook).trans (brelse_looked u' b),
    (hstored.trans hsynced).trans (brelse_sameFat sb u b)⟩

/-- **Slots are marked as deleted** in the same way. -/
theorem fatRemoveSlots_agrees (henv : env.NoFault) {dir : DirInode} (fuel : ℕ) : ∀ {s s' : St} {ino : CachedInode} {i n : ℕ},
    DirOn sb s.vol dir.toInode l → CachedDir sb s'.vol l ino → Looked s s' → i + n ≤ nrSlots sb l → n ≤ fuel →
    ∃ t t' ino', Fat.fatRemoveSlots env sb dir fuel s (DENT_SIZE * i) n = (0, t) ∧
      fatRemoveSlots env sb true dir.dirsync fuel s' ino (DENT_SIZE * i) n = some (0, ino', t') ∧ Looked t t' ∧
      CachedDir sb t'.vol l ino' ∧ ino'.toVfsInode = ino.toVfsInode := by
  have hread := readable_of_not_readFails (not_readFails_of_noFault henv) sb l
  induction fuel with
  | zero =>
    intro s s' ino i n hdir h hlook _ hn
    exact ⟨s, s', ino, rfl, rfl, hlook, h, rfl⟩
  | succ fuel ih =>
    intro s s' ino i n hdir h hlook hle hn
    rw [Fat.fatRemoveSlots, fatRemoveSlots]
    by_cases hzero : n = 0
    · rw [if_pos hzero, if_pos hzero]
      exact ⟨s, s', ino, rfl, rfl, hlook, h, rfl⟩
    rw [if_neg hzero, if_neg hzero]
    have hi : i < nrSlots sb l := by omega
    obtain ⟨t, hplain, hlookt⟩ := Fat.fatGetEntry_slot hdir hread (cursorAt_start sb l i none) hi
    obtain ⟨ino1, t', hget, hlookt'⟩ := fatGetEntry_slot h (not_readFails_of_noFault henv) (cursorAt_start sb l i none) hi
    have hmod := Nat.mod_lt i (dirPerBlock_pos sb)
    have hroom : (sb.blocksize - slotOff sb i) / DENT_SIZE = sb.dirPerBlock - i % sb.dirPerBlock := by
      unfold slotOff
      rw [blocksize_eq, ← Nat.mul_sub, Nat.mul_div_cancel_left _ (show 0 < DENT_SIZE by decide)]
    rw [hplain, hget]
    simp only [slotCursor, Option.getD_some, Bool.true_eq_false, if_false, hroom]
    obtain ⟨k, hk⟩ : ∃ k, k = min n (sb.dirPerBlock - i % sb.dirPerBlock) := ⟨_, rfl⟩
    rw [← hk]
    have hpos : DENT_SIZE * (i + 1) + k * DENT_SIZE - DENT_SIZE = DENT_SIZE * (i + k) := by
      rw [Nat.mul_add, Nat.mul_add, Nat.mul_one, Nat.mul_comm k]
      omega
    have hnot : ¬ InFat sb (slotBlock sb l i) := not_inFat_of_le (dataStart_le_dirBlock hdir.chain.inRange (slot_block hi))
    obtain ⟨u, u', hsync, hsync', hlooku, hsame⟩ := changeBuffer_agrees henv
      (((looked_symm hlookt).trans hlook).trans hlookt'.looked) dir.dirsync hnot fun buf => markDeleted buf (slotOff sb i) k
    rw [hsync, hsync']
    simp only [if_true]
    rw [hpos]
    have heq : EqFat sb s.vol (brelse u (slotBlock sb l i)).vol := ((hlookt.sameFat sb).trans hsame).vol
    have hdir' : DirOn sb (brelse u (slotBlock sb l i)).vol dir.toInode l :=
      ⟨EqFat.dirChain heq hdir.chain, hdir.size, hdir.limit⟩
    have hcached : CachedDir sb (brelse u' (slotBlock sb l i)).vol l ino1 := by
      have hvol : EqFat sb t'.vol (brelse u' (slotBlock sb l i)).vol := by
        rw [hlooku.vol, hlookt'.looked.vol, hlook.vol]
        exact heq
      exact hlookt'.dir.of_eqFat hvol
    obtain ⟨v, v', ino2, h1, h2, h3, h4, h5⟩ := ih hdir' hcached hlooku (show i + k + (n - k) ≤ nrSlots sb l by omega)
      (show n - k ≤ fuel by omega)
    exact ⟨v, v', ino2, h1, h2, h3, h4, h5.trans hlookt'.inode⟩

theorem looked_sameResult (h : Looked s s') (err : ℤ) (sinfo : Option SlotInfo) (hvfs : ino'.toVfsInode = ino.toVfsInode) :
    SameResult sb ⟨err, sinfo, plainDir dirsync ino.toVfsInode, s⟩ ((⟨err, sinfo, ino', s'⟩ : AddEntries).plain dirsync) where
  err := rfl
  sinfo := rfl
  dir := congrArg (plainDir dirsync) hvfs
  fat := (h.sameFat sb).vol
  data := SameData.of_vol h.vol
  prevFree := (h.sameFat sb).prevFree

/-- **The slots that were filled** are given back in the same way. -/
theorem errorRemove_agrees (henv : env.NoFault) (dirsync : Bool) (h : CachedDir sb s.vol l ino) (hle : i + n ≤ nrSlots sb l)
    (bh : Option ℕ) (err : ℤ) : ∃ r, errorRemove env sb true dirsync ino bh (DENT_SIZE * i) n err s = some r ∧
      SameResult sb (Fat.errorRemove env sb (plainDir dirsync ino.toVfsInode) bh (DENT_SIZE * i) n err s) (r.plain dirsync) ∧
      CachedDir sb r.s.vol l r.ino ∧ r.ino.toVfsInode = ino.toVfsInode := by
  have hmark : ∀ {t : St}, Looked s t →
      ∃ r : AddEntries, (if n ≠ 0 then
          (fatRemoveSlots env sb true dirsync n t ino (DENT_SIZE * i) n).map fun r => (⟨err, none, r.2.1, r.2.2⟩ : AddEntries)
        else some ⟨err, none, ino, t⟩) = some r ∧
        SameResult sb ⟨err, none, plainDir dirsync ino.toVfsInode, if n ≠ 0 then
          (Fat.fatRemoveSlots env sb (plainDir dirsync ino.toVfsInode) n t (DENT_SIZE * i) n).2 else t⟩ (r.plain dirsync) ∧
        CachedDir sb r.s.vol l r.ino ∧ r.ino.toVfsInode = ino.toVfsInode := by
    intro t hlook
    have ht : CachedDir sb t.vol l ino := by rwa [hlook.vol]
    by_cases hn : n ≠ 0
    · obtain ⟨u, u', ino', hplain, hcached, hlooku, hdir, hvfs⟩ := fatRemoveSlots_agrees henv n
        (ht.plain dirsync) ht (Looked.refl t) hle le_rfl
      simp only [if_pos hn, hplain]
      rw [show (plainDir dirsync ino.toVfsInode).dirsync = dirsync from rfl] at hcached
      rw [hcached]
      exact ⟨_, rfl, looked_sameResult hlooku err none hvfs, hdir, hvfs⟩
    · simp only [if_neg hn]
      exact ⟨_, rfl, looked_sameResult (Looked.refl t) err none rfl, ht, rfl⟩
  unfold errorRemove Fat.errorRemove
  cases bh with
  | none => exact hmark (Looked.refl s)
  | some b => exact hmark (brelse_looked s b)

/-! ## Growing -/

/-- the sizes of a directory with `n` clusters -/
theorem fileSizes_clusters (hn : n ≤ clusterLimit sb + 1) (hsize : ino.iSize = (n * sb.clusterSize : ℕ))
    (hwritten : ino.mmuPrivate = (n * sb.clusterSize : ℕ)) : FileSizes sb n (n * sb.clusterSize) (n * sb.clusterSize) ino where
  size_eq := hsize
  written_eq := hwritten
  le := le_rfl
  max := by
    obtain ⟨q, hq⟩ := clusterSize_dvd_max sb
    have hlimit : clusterLimit sb + 1 = q := by
      unfold clusterLimit
      rw [← sb.clusterSize_eq, ← Nat.add_div_right _ sb.clusterSize_pos]
      have hsum : S_MAXBYTES + sb.clusterSize = q * sb.clusterSize + (sb.clusterSize - 1) := by
        have := sb.clusterSize_pos
        rw [Nat.mul_comm q, ← hq]
        omega
      rw [hsum, Nat.mul_comm q, Nat.mul_add_div sb.clusterSize_pos, Nat.div_eq_of_lt (Nat.sub_one_lt sb.clusterSize_pos.ne'), Nat.add_zero]
    rw [hq, Nat.mul_comm n]
    exact Nat.mul_le_mul_left _ (hlimit ▸ hn)
  covers := by
    unfold clustersOf
    rw [Nat.mul_comm n, Nat.mul_add_div sb.clusterSize_pos, Nat.div_eq_of_lt (Nat.sub_one_lt sb.clusterSize_pos.ne'), Nat.add_zero]

/-- the sizes of a directory count its clusters, so that they are not rounded -/
theorem CachedInode.addSize_eq {k : ℕ} (hsize : ino.iSize = (k * sb.clusterSize : ℕ)) (n : ℕ) :
    ino.addSize sb n = { ino with
      iSize := ((k + n) * sb.clusterSize : ℕ)
      mmuPrivate := ino.mmuPrivate + n * sb.clusterSize } := by
  have heven : ino.iSize % sb.clusterSize = 0 := by
    rw [hsize, Nat.cast_mul]
    exact Int.mul_emod_left _ _
  unfold CachedInode.addSize
  simp only [heven, ne_eq, not_true_eq_false, if_false]
  have hpow : ((2 : ℤ) ^ sb.clusterBits) = sb.clusterSize := by
    rw [sb.clusterSize_eq]
    push_cast
    rfl
  rw [hsize, hpow, Nat.add_mul]
  push_cast
  rfl

/-- a directory that has grown, without its cache -/
theorem plain_grown {vol : Vol} (h : CachedDir sb vol l ino)
    (hvfs : ino'.toVfsInode = { ino.toVfsInode with iBlocks := (l.length + n) * 2 ^ (sb.clusterBits - 9) }) (dirsync : Bool) :
    plainDir dirsync (ino'.addSize sb n).toVfsInode = ((plainDir dirsync ino.toVfsInode).addBlocks sb n).addSize sb n := by
  have hsize := h.sizes.size_eq
  have hwritten := h.sizes.written_eq
  have hblocks := h.chain.blocks
  have hsize' : ino'.iSize = (l.length * sb.clusterSize : ℕ) := (congrArg VfsInode.iSize hvfs).trans hsize
  have heven : ¬ l.length * sb.clusterSize % sb.clusterSize ≠ 0 := not_not.2 (Nat.mul_mod_left _ _)
  rw [CachedInode.addSize_eq hsize']
  unfold plainDir DirInode.addSize DirInode.addBlocks
  have hmmu : (((l.length * sb.clusterSize : ℕ) : ℤ) + n * sb.clusterSize).toNat = l.length * sb.clusterSize + n * sb.clusterSize := by
    rw [← Nat.cast_mul, ← Nat.cast_add, Int.toNat_natCast]
  simp only [hvfs, hsize, hwritten, hblocks, Int.toNat_natCast, if_neg heven, hmmu, ← sb.clusterSize_eq, Nat.add_mul]

/-- **A directory that has grown** keeps its cache. -/
theorem CachedDir.grown {vol vol' : Vol} (h : CachedDir sb vol l ino) (h0 : ino.iStart ≠ 0)
    (hvfs : ino'.toVfsInode = { ino.toVfsInode with iBlocks := (l.length + n) * 2 ^ (sb.clusterBits - 9) })
    (hcoh : Coherent (table sb vol') (clusterLimit sb + 1) ino')
    (hls : DirOn sb vol' (((plainDir dirsync ino.toVfsInode).addBlocks sb n).addSize sb n).toInode ls) :
    CachedDir sb vol' ls (ino'.addSize sb n) := by
  have hsize : ino'.iSize = (l.length * sb.clusterSize : ℕ) := (congrArg VfsInode.iSize hvfs).trans h.sizes.size_eq
  have hlen : ls.length = l.length + n := by
    have hgrown := addSize_iSize (h.plain dirsync).size n
    exact Nat.eq_of_mul_eq_mul_right sb.clusterSize_pos (hls.size.symm.trans hgrown)
  have p : Path (table sb vol') ino.iStart ls := hls.chain.resolve_left fun hz => h0 hz.1
  rw [CachedInode.addSize_eq hsize]
  refine ⟨⟨Or.inl ?_, hcoh.of_eq rfl rfl rfl, ?_, ?_⟩, fileSizes_clusters hls.limit ?_ ?_⟩
  · rwa [congrArg VfsInode.iStart hvfs]
  · rw [hlen]
    exact congrArg VfsInode.iBlocks hvfs
  · rw [congrArg VfsInode.iPos hvfs]
    exact h.chain.outside
  · rw [hlen]
  · rw [hlen, congrArg VfsInode.mmuPrivate hvfs]
    simp only [h.sizes.written_eq]
    push_cast
    ring

theorem DirChain.unique {vol : Vol} {start : ℤ} (h : DirChain sb vol start l) (h0 : start ≠ 0) (h' : DirChain sb vol start ls) :
    l = ls := (h.resolve_left fun hz => h0 hz.1).unique (h'.resolve_left fun hz => h0 hz.1)

/-- **Growing by new clusters** does the same. -/
theorem appendSlots_agrees (henv : env.NoFault) (opts : InodeOptions) (h : CachedReady sb s dirsync ino l) (hle : i + n ≤ nrSlots sb l)
    (hnr : 0 < nr) {a : Fat.AddEntries}
    (ha : Fat.appendSlots env sb (plainDir dirsync ino.toVfsInode) (DENT_SIZE * i) n nr slots s = some a) :
    ∃ r, appendSlots env sb opts true dirsync ino (DENT_SIZE * i) n nr slots s = some r ∧ SameResult sb a (r.plain dirsync) ∧
      ∀ ls, DirOn sb a.s.vol a.dir.toInode ls → CachedDir sb r.s.vol ls r.ino := by
  have hready := h.plain
  have p : Path (table sb s.vol) ino.iStart l := hready.dirOn.chain.resolve_left fun hz => h.start hz.1
  unfold Fat.appendSlots at ha
  unfold appendSlots
  rw [show (plainDir dirsync ino.toVfsInode).dirsync = dirsync from rfl] at ha
  cases hn : fatAddNewEntries env sb s dirsync slots nr with
  | none =>
    rw [hn] at ha
    exact absurd ha (by simp)
  | some w =>
    rw [hn] at ha
    simp only at ha ⊢
    -- the chain is as it was
    have hl : ∀ x ∈ l, InRange sb x ∧ ¬ WasFree sb s.vol x :=
      fun x hx => ⟨path_inRange p x hx, fun hw => hready.dirOn.chain.used x hx (fatLink_eq_free.1 hw.2)⟩
    obtain ⟨hk, -⟩ := fatAddNewEntries_kept hl (fun x hx => (hl x hx).2) h.prevFree
      (StKept.start fun hw => absurd hw (henv.not_writeFails sb l)) hnr hn
    have pn : Path (table sb w.s.vol) ino.iStart l := hk.path p
    have hfile : FileChain sb w.s.vol l ino := h.dir.chain.frame (p.table_eq pn)
    by_cases hret : w.ret < 0
    · rw [if_pos hret, Option.some.injEq] at ha
      rw [if_pos hret]
      obtain ⟨r, hr, hsame, hdir, hvfs⟩ := errorRemove_agrees henv dirsync ⟨hfile, h.dir.sizes⟩ hle w.bh w.ret
      rw [ha] at hsame
      refine ⟨r, hr, hsame, fun ls hls => ?_⟩
      have hchain : DirChain sb r.s.vol a.dir.iStart ls := EqFat.dirChain hsame.fat hls.chain
      have hstart : a.dir.iStart = ino.iStart := by rw [← hsame.dir]; exact congrArg VfsInode.iStart hvfs
      have hone : DirChain sb r.s.vol a.dir.iStart l := by
        rw [hstart, ← congrArg VfsInode.iStart hvfs]
        exact (hdir.plain dirsync).chain
      rwa [DirChain.unique hchain (by rw [hstart]; exact h.start) hone]
    · obtain ⟨cs, -, hlen, hch, -, hhead, -⟩ := fatAddNewEntries_ret h.prevFree hnr hn hret
      have hin : InRange sb w.ret := by
        obtain ⟨c, rest, rfl⟩ := List.exists_cons_of_ne_nil (List.ne_nil_of_length_pos (hlen ▸ nrCluster_pos sb hnr))
        rw [hhead]
        exact hch.inRange c List.mem_cons_self
      have hroot : (plainDir dirsync ino.toVfsInode).iStart = 0 → (plainDir dirsync ino.toVfsInode).isRoot = true :=
        fun hz => absurd hz h.start
      have pdir : LinkTable.Path (table sb w.s.vol) (plainDir dirsync ino.toVfsInode).iStart l := pn
      obtain ⟨hok, hdir, hfat, hpf⟩ := fatChainAdd_ok henv pdir hready.dirOn.limit w.ret w.nrCluster
      have hdata := fatChainAdd_sameData env hroot (Or.inr pn) hok
      obtain ⟨r, hr, hhung⟩ := fatChainAdd_hung henv opts (dirFlags dirsync) hfile pn hready.dirOn.limit hin w.nrCluster
      rw [if_neg hret, if_neg (not_not.2 hok), Option.some.injEq] at ha
      rw [if_neg hret, hr]
      simp only [hhung.ret, ne_eq, not_true_eq_false, if_false]
      rw [← ha, hdir]
      refine ⟨_, rfl, ?_, ?_⟩
      · refine ⟨rfl, rfl, ?_, fun b hb => (hhung.fat.vol b hb).trans (hfat b hb).symm,
          fun b hb => (hhung.data b hb).trans (hdata b hb).symm, hhung.fat.prevFree.trans hpf.symm⟩
        exact plain_grown h.dir hhung.inode dirsync
      · intro ls hls
        have hfatr : EqFat sb _ r.s.vol := fun b hb => (hhung.fat.vol b hb).trans (hfat b hb).symm
        exact h.dir.grown h.start hhung.inode hhung.coherent ⟨EqFat.dirChain hfatr hls.chain, hls.size, hls.limit⟩

/-- **The other stages** of `fat_add_entries` do the same, from the same slots in hand. -/
theorem addFound_agrees (henv : env.NoFault) (opts : InodeOptions) {f : FreeSearch} (h : CachedReady sb f.s dirsync ino l)
    (hbhs : ∀ b ∈ f.bhs, sb.dataStart ≤ b) (hpos : f.cur.pos = DENT_SIZE * (i + f.freeSlots))
    (hle : i + f.freeSlots ≤ nrSlots sb l) {a : Fat.AddEntries}
    (ha : Fat.addFound env sb (plainDir dirsync ino.toVfsInode) slots nr f = some a) :
    ∃ r, addFound env sb opts true dirsync ino slots nr f = some r ∧ SameResult sb a (r.plain dirsync) ∧
      ∀ ls, DirOn sb a.s.vol a.dir.toInode ls → CachedDir sb r.s.vol ls r.ino := by
  have hfpos : f.cur.pos - f.freeSlots * DENT_SIZE = DENT_SIZE * i := by
    rw [hpos, Nat.mul_add, Nat.mul_comm f.freeSlots, Nat.add_sub_cancel]
  have hfill := fillStage_noFault henv sb dirsync f.bhs (nr - f.freeSlots) f.freeSlots
    ⟨DENT_SIZE * i % sb.blocksize, f.freeSlots * DENT_SIZE, slots, f.s⟩
  have hsame := fillStage_sameFat env dirsync hbhs (nr - f.freeSlots) f.freeSlots
    ⟨DENT_SIZE * i % sb.blocksize, f.freeSlots * DENT_SIZE, slots, f.s⟩
  unfold Fat.addFound at ha
  unfold addFound
  simp only [hfpos] at ha ⊢
  rw [show (plainDir dirsync ino.toVfsInode).dirsync = dirsync from rfl] at ha
  generalize (if f.freeSlots ≠ 0 then fillFree env sb dirsync f.bhs (nr - f.freeSlots)
    ⟨DENT_SIZE * i % sb.blocksize, f.freeSlots * DENT_SIZE, slots, f.s⟩ else (0, _)) = w at hfill hsame ha ⊢
  have hw := h.of_sameFat hsame
  rw [if_neg (not_not.2 hfill)] at ha ⊢
  by_cases hleft : nr - f.freeSlots ≠ 0
  · rw [if_pos hleft] at ha ⊢
    exact appendSlots_agrees henv opts hw hle (Nat.pos_of_ne_zero hleft) ha
  · rw [if_neg hleft, Option.some.injEq] at ha
    rw [if_neg hleft, ← ha]
    refine ⟨_, rfl, looked_sameResult (Looked.refl w.2.s) 0 _ rfl, fun ls hls => ?_⟩
    rw [DirChain.unique hls.chain h.start (hw.dir.plain dirsync).chain]
    exact hw.dir

/-! ## A call -/

/-- **A call of `fat_add_entries`** fails for want of space and leaves every entry as it was, or writes the entries, and leaves the
rest of the directory as it was; its cache stays true. -/
theorem fatAddEntries_cached (henv : env.NoFault) (opts : InodeOptions) (h : CachedReady sb s dirsync ino l) (hnr : 1 ≤ nr)
    (h21 : nr ≤ 21) (hlen : slots.length = DENT_SIZE * nr) :
    ∃ r, fatAddEntries env sb opts true dirsync s ino slots nr = some r ∧
      (AddFailed sb s (plainDir dirsync ino.toVfsInode) l (r.plain dirsync) ∧ CachedDir sb r.s.vol l r.ino ∨
        ∃ cs i, AddDone sb s l slots nr (r.plain dirsync) cs i ∧ CachedDir sb r.s.vol (l ++ cs) r.ino) := by
  have hplain := h.plain
  have hdone := searchFree_done hplain (henv.readable sb l) hnr
  obtain ⟨fin, g, t, ino', hsearch, hcached, hlook⟩ := searchFree_agrees h.dir hplain.dirOn (not_readFails_of_noFault henv) nr
  rw [hsearch] at hdone
  have hg := hdone.at hlook.looked
  have hready := h.of_looked hlook
  have hvfs : plainDir dirsync ino'.toVfsInode = plainDir dirsync ino.toVfsInode := congrArg (plainDir dirsync) hlook.inode
  unfold fatAddEntries
  rw [hcached]
  -- the stages behind the search
  have hstages : fin ≠ .full → ∃ r, addFound env sb opts true dirsync ino' slots nr { g with s := t } = some r ∧
      (AddFailed sb s (plainDir dirsync ino.toVfsInode) l (r.plain dirsync) ∧ CachedDir sb r.s.vol l r.ino ∨
        ∃ cs i, AddDone sb s l slots nr (r.plain dirsync) cs i ∧ CachedDir sb r.s.vol (l ++ cs) r.ino) := by
    intro hfin
    obtain ⟨a, ha, hout⟩ := hg.outcome henv hplain hfin hnr h21 hlen
    obtain ⟨-, i, hpos, hle⟩ := hg.place hnr hfin
    rw [← hvfs] at ha
    obtain ⟨r, hr, hsame, hdir⟩ := addFound_agrees henv opts hready hg.ok.bhs hpos hle ha
    refine ⟨r, hr, ?_⟩
    rcases hout with hfail | ⟨cs, j, hadd⟩
    · have hon := hfail.ready.dirOn
      rw [← hfail.same] at hon
      exact Or.inl ⟨hfail.congr hsame, hdir l hon⟩
    · exact Or.inr ⟨cs, j, hadd.congr hsame, hdir (l ++ cs) hadd.ready.dirOn⟩
  cases fin with
  | full =>
    refine ⟨_, rfl, Or.inl ⟨?_, ?_⟩⟩
    · have hrefused := hg.refused hplain
      rw [← hvfs] at hrefused ⊢
      exact hrefused
    · have hlook' : Looked t (addError ino' (- ENOSPC) { g with s := t }).s := by
        unfold addError
        refine (?_ : Looked t _).trans (foldl_brelse_looked g.bhs _)
        cases g.cur.bh with
        | none => exact Looked.refl t
        | some b => exact brelse_looked t b
      rw [hlook'.vol]
      exact hlook.dir
  | found => exact hstages (by simp)
  | ended =>
    simp only [if_neg fun hcorrupt : ino'.isRoot = false ∧ ino'.iStart = 0 => hready.start hcorrupt.2]
    exact hstages (by simp)

/-- **Entries are removed** in the same way. -/
theorem fatRemoveEntries_agrees (henv : env.NoFault) (opts : InodeOptions) (h : CachedReady sb s dirsync ino l) (hnr : 0 < nr)
    (hle : i + nr ≤ nrSlots sb l) (now : Timespec) (words : FatTime) :
    ∃ ino' t, fatRemoveEntries env sb opts true dirsync s ino (rowInfo sb l i nr) now =
        some ⟨0, { rowInfo sb l i nr with de := none, bh := none }, ino', t⟩ ∧ CachedReady sb t dirsync ino' l ∧
      Looked (Fat.fatRemoveEntries env sb s (plainDir dirsync ino.toVfsInode) (rowInfo sb l i nr) words).s t := by
  have hlast : (i + nr - 1) / sb.dirPerBlock < nrBlocks sb l := slot_block (by omega)
  have hnot : ¬ InFat sb (slotBlock sb l (i + nr - 1)) := not_inFat_of_le (dataStart_le_dirBlock h.dir.inRange hlast)
  unfold fatRemoveEntries Fat.fatRemoveEntries rowInfo
  simp only [Option.getD_some]
  rw [show (plainDir dirsync ino.toVfsInode).dirsync = dirsync from rfl]
  generalize min nr (slotOff sb (i + nr - 1) / DENT_SIZE + 1) = n
  obtain ⟨u, -, hsync, -, -, hsame⟩ := changeBuffer_agrees henv (Looked.refl s) dirsync hnot fun buf =>
    markDeleted buf (slotOff sb (i + nr - 1) - DENT_SIZE * (n - 1)) n
  have hready := h.of_sameFat hsame
  rw [hsync]
  simp only [Bool.true_eq_false, if_false]
  generalize brelse u (slotBlock sb l (i + nr - 1)) = v at hready ⊢
  -- the slots before that buffer
  obtain ⟨w, w', ino1, hplain, hcached, hlook, hready1⟩ : ∃ w w' ino1,
      (if nr - n ≠ 0 then (Fat.fatRemoveSlots env sb (plainDir dirsync ino.toVfsInode) (nr - n) v (DENT_SIZE * i) (nr - n)).2
        else v) = w ∧
      (if nr - n ≠ 0 then fatRemoveSlots env sb true dirsync (nr - n) v ino (DENT_SIZE * i) (nr - n) else some (0, ino, v)) =
        some (0, ino1, w') ∧ Looked w w' ∧ CachedReady sb w' dirsync ino1 l := by
    by_cases hleft : nr - n ≠ 0
    · obtain ⟨w, w', ino1, hplain, hcached, hlook, hdir, hvfs⟩ := fatRemoveSlots_agrees henv (nr - n) (hready.dir.plain dirsync)
        hready.dir (Looked.refl v) (show i + (nr - n) ≤ nrSlots sb l by omega) le_rfl
      have hfat := fatRemoveSlots_sameFat env sb (plainDir dirsync ino.toVfsInode) (nr - n) (nr - n)
        (hready.dir.plain dirsync).chain (Dvd.intro i rfl)
      rw [hplain] at hfat
      have hw' := hready.of_sameFat (hfat.trans (hlook.sameFat sb))
      rw [if_pos hleft, if_pos hleft, hplain]
      refine ⟨w, w', ino1, rfl, hcached, hlook, hdir, hw'.prevFree, ?_, h.few, ?_⟩
      · rw [congrArg VfsInode.iStart hvfs]
        exact h.start
      · rw [congrArg VfsInode.isRoot hvfs]
        exact h.lazy
    · rw [if_neg hleft, if_neg hleft]
      exact ⟨v, v, ino, rfl, rfl, Looked.refl v, hready⟩
  rw [hcached]
  -- a directory written through is the root, whose inode is not stored
  have hnow := hready1.touched now now ino1.iCtime
  have hcstored : ∀ vfs : VfsInode, vfs.isRoot = ino1.isRoot →
      (if dirsync then (fatWriteInode env sb opts w' vfs true).2 else w') = w' := fun vfs hroot => hready1.fatWriteInode hroot
  have hstored : ∀ dir : DirInode, dir.isRoot = ino.isRoot → (if dirsync then (fatSyncInode env sb w dir).2 else w) = w := by
    intro dir hroot
    rcases h.lazy with hlazy | hlazy
    · rw [hlazy]
      rfl
    · unfold fatSyncInode
      rw [if_pos (hroot.trans hlazy), ite_self]
  refine ⟨_, w', congrArg some ((RemoveEntries.mk.injEq ..).mpr ⟨rfl, rfl, rfl, ?_⟩), hnow, ?_⟩
  · exact hcstored _ rfl
  rw [hplain, hstored]
  · exact hlook
  · rfl

end

end AtsLdd.Fat.CDriver
