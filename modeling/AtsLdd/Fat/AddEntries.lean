/-
Adding entries to a directory: `fat_zeroed_cluster`, `fat_add_new_entries`, `__fat_remove_entries` and `fat_add_entries`
(fat_dir.c).

A search goes over the entries of the directory until `nr_slots` free ones follow each other. The free slots it ends with are
filled; what does not fit goes into new clusters, which are filled, zeroed behind the new entries, and hung behind the chain.
On an error the slots that were filled are marked as deleted again. The bytes of the new entries are `slots`.
-/
import AtsLdd.Fat.AllocClusters
import AtsLdd.Fat.ChainAdd
import AtsLdd.Fat.Scan

namespace AtsLdd.Fat

open AtsLdd.Machine AtsLdd.ByteMap

/-- `FAT_MAX_DIR_ENTRIES` entries -/
def FAT_MAX_DIR_SIZE : ℕ := 65536 * DENT_SIZE

/-! ## Searching free entries -/

/-- the variables of the first stage of `fat_add_entries` -/
structure FreeSearch where
  cur : DirCursor
  prev : Option ℕ
  /-- the buffers of the free slots in hand -/
  bhs : List ℕ
  freeSlots : ℕ
  s : St

/-- how a search ends: with enough free slots, at the maximum size of a directory, or behind the last entry -/
inductive SearchEnd where
  | found
  | full
  | ended
  deriving DecidableEq

/-- another free entry, at the cursor -/
def FreeSearch.free (f : FreeSearch) : FreeSearch :=
  match f.cur.bh with
  | none => { f with freeSlots := f.freeSlots + 1 }
  | some b =>
    if f.prev = some b then { f with freeSlots := f.freeSlots + 1 }
    else { f with
      prev := some b
      bhs := f.bhs ++ [b]
      freeSlots := f.freeSlots + 1
      s := { f.s with refs := Function.update f.s.refs b (f.s.refs b + 1) } }

/-- an entry in use, at the cursor -/
def FreeSearch.used (f : FreeSearch) : FreeSearch := { f with prev := none, bhs := [], freeSlots := 0, s := f.bhs.foldl brelse f.s }

/-- the loop of the first stage; the fuel is a bound on the entries -/
def searchLoop (env : Env) (sb : FatSb) (dir : Inode) (nrSlots : ℕ) : ℕ → FreeSearch → SearchEnd × FreeSearch
  | 0, f => (.ended, f)
  | fuel + 1, f =>
    match fatGetEntry env sb f.s dir f.cur with
    | (false, cur, s) => (.ended, { f with cur := cur, s := s })
    | (true, cur, s) =>
      let f := { f with cur := cur, s := s }
      if FAT_MAX_DIR_SIZE ≤ cur.pos then (.full, f)
      else if IsFree (cur.ent s) then
        if f.freeSlots + 1 = nrSlots then (.found, f.free) else searchLoop env sb dir nrSlots fuel f.free
      else searchLoop env sb dir nrSlots fuel f.used

/-- the first stage -/
def searchFree (env : Env) (sb : FatSb) (s : St) (dir : Inode) (nrSlots : ℕ) : SearchEnd × FreeSearch :=
  searchLoop env sb dir nrSlots (dirEntries sb dir) ⟨dirCursorInit, none, [], 0, s⟩

/-! ## Filling them -/

/-- the variables of the second stage: where in the buffer, how many bytes are left, and these bytes -/
structure FillSlots where
  offset : ℕ
  size : ℕ
  slots : List UInt8
  s : St

/-- bytes of the slots are copied into buffer `b` -/
def FillSlots.copy (f : FillSlots) (sb : FatSb) (b : ℕ) : FillSlots :=
  let copy := min (sb.blocksize - f.offset) f.size
  ⟨0, f.size - copy, f.slots.drop copy,
    { f.s with vol := Function.update f.s.vol b (splice (f.s.vol b) f.offset (f.slots.take copy)) }⟩

/-- the second stage: the long name slots, and the short name slot in the last buffer when no more slots are needed -/
def fillFree (env : Env) (sb : FatSb) (dirsync : Bool) (bhs : List ℕ) (nrSlots : ℕ) (f : FillSlots) : ℤ × FillSlots :=
  let longBhs := bhs.length - if nrSlots = 0 then 1 else 0
  let f := (bhs.take longBhs).foldl (fun f b => f.copy sb b) f
  let (err, s) := if longBhs ≠ 0 ∧ dirsync then fatSyncBhs env f.s (bhs.take longBhs) else (0, f.s)
  let f := { f with s := s }
  let (err, f) :=
    match bhs.drop longBhs with
    | [] => (err, f)
    | b :: _ =>
      if err = 0 then
        let f := f.copy sb b
        if dirsync then
          let (ok, s) := syncDirtyBuffer env f.s b
          (if ok then 0 else - EIO, { f with s := s })
        else (0, f)
      else (err, f)
  (err, { f with s := bhs.foldl brelse f.s })

/-! ## New clusters -/

/-- the variables of `fat_zeroed_cluster` -/
structure Zeroing where
  /-- the buffers held -/
  bhs : List ℕ
  s : St

/-- the loop of `fat_zeroed_cluster`, with `left` blocks to go from block `blknr` on -/
def zeroLoop (env : Env) (sb : FatSb) (dirsync : Bool) (nrBhs : ℕ) : ℕ → ℕ → Zeroing → ℤ × Zeroing
  | 0, _, z => (0, z)
  | left + 1, blknr, z =>
    if env.getblk z.s.t = false then (- ENOMEM, { z with s := { z.s with t := z.s.t + 1 } })
    else
      let zero := splice (z.s.vol blknr) 0 (List.replicate sb.blocksize 0)
      let z : Zeroing := ⟨z.bhs ++ [blknr], { z.s with
        t := z.s.t + 1
        refs := Function.update z.s.refs blknr (z.s.refs blknr + 1)
        vol := Function.update z.s.vol blknr zero }⟩
      if z.bhs.length = nrBhs then
        let (err, s) := if dirsync then fatSyncBhs env z.s z.bhs else (0, z.s)
        if err ≠ 0 then (err, { z with s := s })
        else zeroLoop env sb dirsync nrBhs left (blknr + 1) ⟨[], z.bhs.foldl brelse s⟩
      else zeroLoop env sb dirsync nrBhs left (blknr + 1) z

/-- `fat_zeroed_cluster`: the blocks of the cluster from number `bhs.length` on are zeroed, and all of them written.
`bforget` gives the buffer back like `brelse`. -/
def fatZeroedCluster (env : Env) (sb : FatSb) (dirsync : Bool) (s : St) (blknr : ℕ) (bhs : List ℕ) (nrBhs : ℕ) : ℤ × St :=
  let nrUsed := bhs.length
  let (err, z) := zeroLoop env sb dirsync nrBhs (sb.secPerClus - nrUsed) (blknr + nrUsed) ⟨bhs, s⟩
  let (err, s) := if err = 0 ∧ dirsync then fatSyncBhs env z.s z.bhs else (err, z.s)
  (err, z.bhs.foldl brelse s)

/-- the variables of the first stage of `fat_add_new_entries` -/
structure NewSlots where
  bhs : List ℕ
  copy : ℕ
  size : ℕ
  slots : List UInt8
  s : St

/-- its inner loop, with `left` blocks of a cluster to go from block `blknr` on -/
def newBlocks (env : Env) (sb : FatSb) : ℕ → ℕ → NewSlots → Bool × NewSlots
  | 0, _, f => (true, f)
  | left + 1, blknr, f =>
    if env.getblk f.s.t = false then (false, { f with s := { f.s with t := f.s.t + 1 } })
    else
      let copy := min f.size sb.blocksize
      let f : NewSlots := ⟨f.bhs ++ [blknr], copy, f.size - copy, f.slots.drop copy, { f.s with
        t := f.s.t + 1
        refs := Function.update f.s.refs blknr (f.s.refs blknr + 1)
        vol := Function.update f.s.vol blknr (splice (f.s.vol blknr) 0 (f.slots.take copy)) }⟩
      if f.size = 0 then (true, f) else newBlocks env sb left (blknr + 1) f

/-- its outer loop -/
def newClusters (env : Env) (sb : FatSb) : List ℤ → NewSlots → Bool × NewSlots
  | [], f => (true, f)
  | c :: cs, f =>
    match newBlocks env sb sb.secPerClus (fatClusToBlknr sb c) f with
    | (false, f) => (false, f)
    | (true, f) => newClusters env sb cs f

/-- what `fat_add_new_entries` leaves: the first new cluster or a negative error, and the last new entry -/
structure NewEntries where
  ret : ℤ
  nrCluster : ℕ
  de : Option ℕ
  bh : Option ℕ
  s : St

/-- the clusters that `nrSlots` entries need -/
def nrCluster (sb : FatSb) (nrSlots : ℕ) : ℕ := (nrSlots * DENT_SIZE + (sb.clusterSize - 1)) / 2 ^ sb.clusterBits

/-- `fat_add_new_entries`; `none` is its `BUG_ON` -/
def fatAddNewEntries (env : Env) (sb : FatSb) (s : St) (dirsync : Bool) (slots : List UInt8) (nrSlots : ℕ) :
    Option NewEntries :=
  let nr := nrCluster sb nrSlots
  if 2 < nr then none
  else
    match fatAllocClusters env sb s dirsync nr with
    | none => none
    | some r =>
      if r.err ≠ 0 then some ⟨r.err, nr, none, none, r.s⟩
      else
        match newClusters env sb r.cluster ⟨[], 0, nrSlots * DENT_SIZE, slots, r.s⟩ with
        | (false, f) =>
          some ⟨- ENOMEM, nr, none, none, (fatFreeClusters env sb (f.bhs.foldl brelse f.s) (r.cluster.headD 0)).2⟩
        | (true, f) =>
          let b := f.bhs.getLastD 0
          let s := { f.s with
            vol := Function.update f.s.vol b (splice (f.s.vol b) f.copy (List.replicate (sb.blocksize - f.copy) 0))
            refs := Function.update f.s.refs b (f.s.refs b + 1) }
          let start := fatClusToBlknr sb (r.cluster.getLastD 0)
          match fatZeroedCluster env sb dirsync s start f.bhs MAX_BUF_PER_PAGE with
          | (err, s) =>
            if err ≠ 0 then some ⟨err, nr, none, none, (fatFreeClusters env sb (brelse s b) (r.cluster.headD 0)).2⟩
            else some ⟨r.cluster.headD 0, nr, some (f.copy - DENT_SIZE), some b, s⟩

/-! ## Removing entries -/

/-- `DELETED_FLAG` in the first byte of `n` entries of a buffer from offset `off` on -/
def markDeleted (buf : Buf) (off n : ℕ) : Buf :=
  fun i => if (∃ k < n, i = off + DENT_SIZE * k) then DELETED_FLAG else buf i

/-- `__fat_remove_entries`; the fuel is a bound on the slots -/
def fatRemoveSlots (env : Env) (sb : FatSb) (dir : DirInode) : ℕ → St → ℕ → ℕ → ℤ × St
  | 0, s, _, _ => (0, s)
  | fuel + 1, s, pos, nrSlots =>
    if nrSlots = 0 then (0, s)
    else
      match fatGetEntry env sb s dir.toInode ⟨pos, none, none⟩ with
      | (false, _, s) => (- EIO, s)
      | (true, cur, s) =>
        let b := cur.bh.getD 0
        let off := cur.de.getD 0
        let n := min nrSlots ((sb.blocksize - off) / DENT_SIZE)
        let s := { s with vol := Function.update s.vol b (markDeleted (s.vol b) off n) }
        let (ok, s) := if dir.dirsync then syncDirtyBuffer env s b else (true, s)
        let s := brelse s b
        if ok then fatRemoveSlots env sb dir fuel s (cur.pos + n * DENT_SIZE - DENT_SIZE) (nrSlots - n) else (- EIO, s)

/-! ## `fat_add_entries` -/

/-- what `fat_add_entries` leaves -/
structure AddEntries where
  err : ℤ
  sinfo : Option SlotInfo
  dir : DirInode
  s : St

/-- `n` clusters are added to the sizes of the inode; an odd size is rounded up first -/
def DirInode.addSize (dir : DirInode) (sb : FatSb) (n : ℕ) : DirInode :=
  let size := if dir.iSize % sb.clusterSize ≠ 0 then
      (dir.iSize + sb.clusterSize - 1) / sb.clusterSize * sb.clusterSize
    else dir.iSize
  { dir with iSize := size + n * 2 ^ sb.clusterBits, mmuPrivate := dir.mmuPrivate + n * 2 ^ sb.clusterBits }

/-- the label `error_remove`: the slots that were filled are given back -/
def errorRemove (env : Env) (sb : FatSb) (dir : DirInode) (bh : Option ℕ) (pos freeSlots : ℕ) (err : ℤ) (s : St) : AddEntries :=
  let s := match bh with
    | none => s
    | some b => brelse s b
  ⟨err, none, dir, if freeSlots ≠ 0 then (fatRemoveSlots env sb dir freeSlots s pos freeSlots).2 else s⟩

/-- the third stage of `fat_add_entries`: new clusters for the `nrSlots` entries that are left -/
def appendSlots (env : Env) (sb : FatSb) (dir : DirInode) (pos freeSlots nrSlots : ℕ) (slots : List UInt8) (s : St) :
    Option AddEntries :=
  match fatAddNewEntries env sb s dir.dirsync slots nrSlots with
  | none => none
  | some n =>
    if n.ret < 0 then some (errorRemove env sb dir n.bh pos freeSlots n.ret n.s)
    else
      let r := fatChainAdd env sb n.s dir n.ret n.nrCluster
      if r.ret ≠ 0 then some (errorRemove env sb r.dir n.bh pos freeSlots r.ret (fatFreeClusters env sb r.s n.ret).2)
      else
        let iPos := fatMakeIPos sb (n.bh.getD 0) (n.de.getD 0)
        some ⟨0, some ⟨iPos, pos, freeSlots + nrSlots, n.de, n.bh⟩, r.dir.addSize sb n.nrCluster, r.s⟩

/-- the label `found`: the second stage, and the third one when more slots are needed -/
def addFound (env : Env) (sb : FatSb) (dir : DirInode) (slots : List UInt8) (nrSlots : ℕ) (f : FreeSearch) : Option AddEntries :=
  let pos := f.cur.pos - f.freeSlots * DENT_SIZE
  let left := nrSlots - f.freeSlots
  let fill : FillSlots := ⟨pos % sb.blocksize, f.freeSlots * DENT_SIZE, slots, f.s⟩
  let (err, fill) := if f.freeSlots ≠ 0 then fillFree env sb dir.dirsync f.bhs left fill else (0, fill)
  if err ≠ 0 then some (errorRemove env sb dir f.cur.bh pos f.freeSlots err fill.s)
  else if left ≠ 0 then appendSlots env sb dir pos f.freeSlots left fill.slots fill.s
  else
    let iPos := fatMakeIPos sb (f.cur.bh.getD 0) (f.cur.de.getD 0)
    some ⟨0, some ⟨iPos, pos, nrSlots, f.cur.de, f.cur.bh⟩, dir, fill.s⟩

/-- the label `error` -/
def addError (dir : DirInode) (err : ℤ) (f : FreeSearch) : AddEntries :=
  let s := match f.cur.bh with
    | none => f.s
    | some b => brelse f.s b
  ⟨err, none, dir, f.bhs.foldl brelse s⟩

/-- `fat_add_entries` on a FAT32 volume; `none` is a `BUG_ON`. The slot information is left as it is on an error. -/
def fatAddEntries (env : Env) (sb : FatSb) (s : St) (dir : DirInode) (slots : List UInt8) (nrSlots : ℕ) : Option AddEntries :=
  match searchFree env sb s dir.toInode nrSlots with
  | (.full, f) => some (addError dir (- ENOSPC) f)
  | (.found, f) => addFound env sb dir slots nrSlots f
  | (.ended, f) =>
    if dir.isRoot = false ∧ dir.iStart = 0 then some (addError dir (- EIO) f) -- a corrupted directory
    else addFound env sb dir slots nrSlots f

end AtsLdd.Fat
