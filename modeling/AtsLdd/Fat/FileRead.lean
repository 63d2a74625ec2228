/-
The ATS read path (ATS/ats_fat_file.dats, ats_fat_cache.cats): `fat_sync_read` and the loops below it.

`fat_sync_read` asks for the cluster of the position (`get_nth_cluster`) and copies cluster by cluster, each cluster block
by block. A loop carries the bytes copied so far (`accu`) and the last error (`err`, positive). Recursions run with the
remaining length as fuel, which each step uses up by at least one.

The block access `atsfs_sbread` does not only read: it changes byte 1 of the buffer and writes it back.
-/
import AtsLdd.Fat.Cluster

namespace AtsLdd.Fat

open AtsLdd.Machine AtsLdd.ByteMap

/-! ## Blocks -/

/-- the letter after `ch`, as `atsfs_sbread` counts -/
def nextChar (ch : UInt8) : UInt8 := if ch = 122 then 97 else ch + 1

/-- the buffer that `atsfs_sbread` makes of a block -/
def bumped (buf : Buf) : Buf := Function.update buf 1 (nextChar (buf 1))

/-- `atsfs_sbread`: the buffer handed out for a block, when it can be read -/
def atsfsSbread (env : Env) (s : St) (nblk : ℕ) : Option Buf × St :=
  match sbBread env s nblk with
  | (false, s) => (none, { s with log := s.log ++ [.block nblk none] })
  | (true, s) =>
    let rawData := bumped (s.vol nblk)
    let s := { s with vol := Function.update s.vol nblk rawData }
    let s := (syncDirtyBuffer env s nblk).2
    (some rawData, { s with log := s.log ++ [.block nblk (some rawData)] })

/-- what a copy loop leaves: the bytes copied and the last error -/
structure Copied where
  accu : ℕ
  err : ℕ
  s : St

/-- `copy_phyblock_impl` -/
def copyPhyblockImpl (env : Env) (s : St) (p ofs len nblk err : ℕ) : Copied :=
  match atsfsSbread env s nblk with
  | (none, s) => ⟨0, EIO, s⟩
  | (some buf, s) =>
    match copyToUser env s p (slice buf ofs len) with
    | (nleft, s) => ⟨len - nleft, if nleft ≠ 0 then EIO else err, brelse s nblk⟩

/-- `copy_phyblocks_impl` -/
def copyPhyblocksImpl (env : Env) (blksz : ℕ) : ℕ → St → ℕ → ℕ → ℕ → ℕ → ℕ → ℕ → Copied
  | 0, s, _, _, _, _, accu, err => ⟨accu, err, s⟩
  | fuel + 1, s, p, ofs, len, pnblk, accu, err =>
    if err ≠ 0 then ⟨accu, err, s⟩
    else
      let len1 := min len (blksz - ofs)
      let r := copyPhyblockImpl env s p ofs len1 pnblk err
      let accu := accu + r.accu
      if len > len1 then
        copyPhyblocksImpl env blksz fuel r.s (p + len1) 0 (len - len1) (sectorAdd pnblk 1) accu r.err
      else ⟨accu, r.err, r.s⟩

/-! ## Clusters -/

/-- `copy_cluster_impl` -/
def copyClusterImpl (env : Env) (sb : FatSb) (s : St) (p ofs len : ℕ) (ncls : ℤ) (err : ℕ) : Copied :=
  if err ≠ 0 then ⟨0, err, s⟩
  else
    let s := { s with log := s.log ++ [.cluster ncls] }
    let blkOfs := ofs % sb.blocksize
    let blkNum := ofs / sb.blocksize
    copyPhyblocksImpl env sb.blocksize len s p blkOfs len (sectorAdd (ncluster2block sb ncls) blkNum) 0 err

/-- `copy_clusters_impl`: after a cluster the next one is looked up, also when nothing is left to copy -/
def copyClustersImpl (env : Env) (sb : FatSb) : ℕ → St → ℕ → ℕ → ℕ → ℤ → ℕ → ℕ → Copied
  | 0, s, _, _, _, _, accu, err => ⟨accu, err, s⟩
  | fuel + 1, s, p, ofs, len, ncls, accu, err =>
    if err ≠ 0 then ⟨accu, err, s⟩
    else
      let len1 := min len (sb.clusterSize - ofs)
      let r := copyClusterImpl env sb s p ofs len1 ncls err
      let accu := accu + r.accu
      if r.err ≠ 0 then ⟨accu, r.err, r.s⟩
      else
        match fatentNextSb env sb r.s ncls with
        | (none, s) => ⟨accu, r.err, s⟩
        | (some nxt, s) =>
          if nxt = FAT_ENT_FREE ∨ nxt = FAT_ENT_EOF then ⟨accu, EIO, s⟩
          else if len - len1 > 0 then
            copyClustersImpl env sb fuel s (p + len1) 0 (len - len1) nxt accu r.err
          else ⟨accu, r.err, s⟩

/-- what `get_nth_cluster` leaves: the cluster it answers and the steps it made -/
structure NthCluster where
  cls : ℤ
  n1 : ℕ
  s : St

/-- `loop` of `get_nth_cluster`: `n` steps to go, `n1` made. It goes on with the cluster it was given, not with the link that
it found. -/
def getNthClusterLoop (env : Env) (sb : FatSb) : ℕ → St → ℤ → ℕ → NthCluster
  | 0, s, cls, n1 => ⟨cls, n1, s⟩
  | n + 1, s, cls, n1 =>
    match fatentNextSb env sb s cls with
    | (none, s) => ⟨cls, n1, s⟩
    | (some nxt, s) =>
      if nxt = FAT_ENT_FREE ∨ nxt = FAT_ENT_EOF then ⟨cls, n1, s⟩ else getNthClusterLoop env sb n s cls (n1 + 1)

/-- `get_nth_cluster`; an index past `INT_MAX` would be cut -/
def getNthCluster (env : Env) (sb : FatSb) (s : St) (cls : ℤ) (n : ℕ) : NthCluster :=
  getNthClusterLoop env sb (int32 n).toNat s cls 0

/-- what `fat_sync_read` leaves: its answer, or `none` when the `BUG_ON` of `get_first_cluster` stops it, and the file
position -/
structure SyncRead where
  ret : Option ℤ
  pos : ℕ
  s : St

/-- `fat_sync_read`: `n` bytes of the file from `pos` on, to user address `p` -/
def fatSyncRead (env : Env) (sb : FatSb) (ino : FatInode) (s : St) (p n pos : ℕ) : SyncRead :=
  if pos ≥ ino.iSize then ⟨some 0, pos, s⟩
  else
    let len := min (ino.iSize - pos) n
    let clsOfs := pos % sb.clusterSize
    let clsNum := pos / sb.clusterSize
    if ino.iStart = 0 then ⟨none, pos, s⟩
    else
      let nth := getNthCluster env sb s ino.iStart clsNum
      if nth.n1 < clsNum then ⟨some (- EIO), pos, nth.s⟩
      else
        let r := copyClustersImpl env sb len nth.s p clsOfs len nth.cls 0 0
        ⟨some (if r.accu > 0 then (r.accu : ℤ) else -r.err), pos + r.accu, r.s⟩

end AtsLdd.Fat
