/-
Growing the chain of a directory: `fat_chain_add` (fat_misc.c), with the inode of a directory and `fat_sync_inode`
(fat_inode.c), which writes it back to its own directory entry.

- `fatSyncInode_eqFat`: writing an inode back does not change the FAT, as long as its entry is not in it;
- `fatChainAdd_empty`, `fatChainAdd_ok`, `fatChainAdd_long`: the new cluster becomes the first cluster, or is hung behind
  the last one; a chain that is too long is left alone.
-/
import AtsLdd.Fat.Table
import AtsLdd.Fat.Time

namespace AtsLdd.Fat

open AtsLdd.Machine AtsLdd.ByteMap AtsLdd.LinkTable

/-! ## The inode of a directory -/

/-- the fields of the inode of a directory that growing it and writing it back use -/
structure DirInode extends Inode where
  iLogstart : ℤ
  /-- the number of its entry on the volume, 0 when it has none -/
  iPos : ℕ
  iBlocks : ℕ
  mmuPrivate : ℕ
  /-- `i_ino` is `MSDOS_ROOT_INO` -/
  isRoot : Bool
  /-- `IS_DIRSYNC` -/
  dirsync : Bool
  /-- the attribute byte that `fat_make_attrs` makes -/
  attrs : UInt8
  mtime : FatTime

/-- `dir_per_block_bits` -/
def FatSb.dirPerBlockBits (sb : FatSb) : ℕ := sb.blocksizeBits - 5

/-- the block of directory entry number `iPos` -/
def iPosBlock (sb : FatSb) (iPos : ℕ) : ℕ := iPos / 2 ^ sb.dirPerBlockBits

/-- its offset in the block -/
def iPosOffset (sb : FatSb) (iPos : ℕ) : ℕ := 32 * (iPos % 2 ^ sb.dirPerBlockBits)

/-- the bytes of a little-endian 16-bit word -/
def le16Bytes (x : ℤ) : List UInt8 := [UInt8.ofNat (x % 2 ^ 8).toNat, UInt8.ofNat (x / 2 ^ 8 % 2 ^ 8).toNat]

/-- the directory entry at `off` with the fields that `fat_write_inode` stores: `attr`, and `starthi`, `time`, `date`,
`start` and `size` in a row -/
def rawEntry (dir : DirInode) (buf : Buf) (off : ℕ) : Buf :=
  splice (splice buf (off + 11) [dir.attrs]) (off + 20)
    (le16Bytes (dir.iLogstart / 2 ^ 16) ++ le16Bytes dir.mtime.time ++ le16Bytes dir.mtime.date ++
      le16Bytes dir.iLogstart ++ [0, 0, 0, 0])

/-- `fat_sync_inode` of a directory -/
def fatSyncInode (env : Env) (sb : FatSb) (s : St) (dir : DirInode) : ℤ × St :=
  if dir.isRoot then (0, s)
  else if dir.iPos = 0 then (0, s)
  else
    let b := iPosBlock sb dir.iPos
    match sbBread env s b with
    | (false, s) => (- EIO, s)
    | (true, s) =>
      let s := { s with vol := Function.update s.vol b (rawEntry dir (s.vol b) (iPosOffset sb dir.iPos)) }
      let (ok, s) := syncDirtyBuffer env s b
      (if ok then 0 else - EIO, brelse s b)

/-! ## `fat_chain_add` -/

/-- what `fat_chain_add` leaves -/
structure ChainAdd where
  ret : ℤ
  dir : DirInode
  s : St

/-- the last cluster of the chain of `dir`, 0 when it has none: 0 or -EIO, and the cluster -/
def lastCluster (env : Env) (sb : FatSb) (s : St) (dir : DirInode) : ℤ × ℤ × St :=
  if dir.iStart ≠ 0 then
    let r := fatGetClusterLoop env sb FAT_ENT_EOF (clusterLimit sb + 2) s 0 dir.iStart
    (r.ret, r.dclus, r.s)
  else (0, 0, s)

/-- the blocks of `nrCluster` clusters, in units of 512 bytes, are added -/
def DirInode.addBlocks (dir : DirInode) (sb : FatSb) (nrCluster : ℕ) : DirInode :=
  { dir with iBlocks := dir.iBlocks + nrCluster * 2 ^ (sb.clusterBits - 9) }

/-- `fat_chain_add`. That `i_blocks` does not fit the length of the chain is only reported. -/
def fatChainAdd (env : Env) (sb : FatSb) (s : St) (dir : DirInode) (newDclus : ℤ) (nrCluster : ℕ) : ChainAdd :=
  let (ret, last, s) := lastCluster env sb s dir
  if ret < 0 then ⟨ret, dir, s⟩
  else if last ≠ 0 then
    let (ret, fatent, s) := fatEntRead env sb s fatentInit last
    if ret < 0 then ⟨ret, dir, s⟩
    else
      let (ret, s) := fatEntWrite env sb s fatent newDclus true
      let s := (fatent.brelse s).2
      if ret < 0 then ⟨ret, dir, s⟩ else ⟨0, dir.addBlocks sb nrCluster, s⟩
  else
    let dir := { dir with iStart := newDclus, iLogstart := newDclus }
    let (ret, s) := if dir.dirsync then fatSyncInode env sb s dir else (0, s)
    if ret ≠ 0 then ⟨ret, dir, s⟩ else ⟨0, dir.addBlocks sb nrCluster, s⟩

/-! ## What it does -/

/-- the directory entry of the inode is not in the FAT -/
def EntryOutside (sb : FatSb) (dir : DirInode) : Prop := ¬ InFat sb (iPosBlock sb dir.iPos)

section
variable {env : Env} {sb : FatSb} {s : St} {dir : DirInode} {l : List ℤ}

/-- writing an inode back does not change the FAT -/
theorem fatSyncInode_eqFat (henv : env.NoFault) (hout : EntryOutside sb dir) :
    (fatSyncInode env sb s dir).1 = 0 ∧ EqFat sb s.vol (fatSyncInode env sb s dir).2.vol ∧
      (fatSyncInode env sb s dir).2.prevFree = s.prevFree := by
  unfold fatSyncInode
  split_ifs
  · exact ⟨rfl, EqFat.refl sb s.vol, rfl⟩
  · exact ⟨rfl, EqFat.refl sb s.vol, rfl⟩
  · simp only [sbBread_ok (henv.bread _ _), syncDirtyBuffer, henv.sync, if_true]
    refine ⟨trivial, fun b hb => Function.update_of_ne ?_ _ _, rfl⟩
    rintro rfl
    exact hout hb

/-- a directory has far fewer clusters than the number that `fat_chain_add` asks for -/
theorem clusterLimit_lt_eof (sb : FatSb) : ((clusterLimit sb + 1 : ℕ) : ℤ) < FAT_ENT_EOF := by
  have hle : S_MAXBYTES / 2 ^ sb.clusterBits ≤ S_MAXBYTES / 2 ^ 9 := by
    refine Nat.div_le_div_left (Nat.pow_le_pow_right Nat.two_pos ?_) (by norm_num)
    exact sb.bits_min.trans (Nat.le_add_right _ _)
  have hlim : clusterLimit sb ≤ 2 ^ 23 := hle.trans (by decide)
  unfold FAT_ENT_EOF
  omega

/-- a walk to the end is only ended by the limit -/
theorem stepsLeft_eof (sb : FatSb) : stepsLeft sb FAT_ENT_EOF 0 = clusterLimit sb + 1 := by
  have hlim := clusterLimit_lt_eof sb
  unfold stepsLeft
  omega

/-- **The last cluster** of a chain is found when the chain is not too long. -/
theorem lastCluster_spec (henv : env.NoFault) (p : Path (table sb s.vol) dir.iStart l) (h0 : dir.iStart ≠ 0) :
    ∃ s', Quiet s s' ∧ lastCluster env sb s dir =
      if l.length ≤ clusterLimit sb + 1 then (0, l.getLast p.ne_nil, s')
      else ((- EIO : ℤ), (fatGetClusterLoop env sb FAT_ENT_EOF (clusterLimit sb + 2) s 0 dir.iStart).dclus, s') := by
  obtain ⟨es, m, w, hfc, hquiet, -, hok, hret, hstop, -⟩ := fatGetClusterLoop_walk env sb FAT_ENT_EOF
    (clusterLimit sb + 2) s 0 dir.iStart _ (Nat.zero_le _) (Nat.le_refl _) rfl
  have hno := hok.2 (.of_all henv.bread)
  have hlim := clusterLimit_lt_eof sb
  have hsteps := stepsLeft_eof sb
  rw [hsteps] at w hret hstop
  unfold lastCluster
  simp only [if_pos h0]
  generalize fatGetClusterLoop env sb FAT_ENT_EOF (clusterLimit sb + 2) s 0 dir.iStart = r at w hfc hquiet hret hstop ⊢
  refine ⟨r.s, hquiet, ?_⟩
  have hreach := w.reached
  rw [nth_path p] at hreach
  obtain ⟨hm, hdm⟩ := List.getElem?_eq_some_iff.1 hreach
  rcases Nat.lt_or_ge m (clusterLimit sb + 1) with hlt | hge
  · -- the walk stopped at the last cluster
    have hend : ¬ IsLink (fatLink sb s.vol r.dclus) := by
      rcases w.stopped hlt with hbad | ⟨-, -, hlast⟩
      · exact absurd hno hbad
      · exact hlast
    obtain ⟨hlast, heof⟩ := path_end p (List.mem_of_getElem? hreach) hend
    have hlen : l.length = m + 1 := by
      rw [List.getLast_eq_getElem] at hlast
      have hidx := (p.nodup.getElem_inj_iff).1 (hdm.trans hlast)
      have hpos := List.length_pos_of_ne_nil p.ne_nil
      omega
    rw [if_pos (by omega), hstop hlt hno, if_pos heof, hlast]
  · have hmeq : m = clusterLimit sb + 1 := le_antisymm w.le hge
    rw [if_neg (by omega), hret hmeq, hfc, hmeq, Nat.zero_add, if_neg (by omega)]

/-- a directory without a cluster gets its first one -/
theorem fatChainAdd_empty (henv : env.NoFault) (hout : EntryOutside sb dir) (h0 : dir.iStart = 0) (new : ℤ) (nr : ℕ) :
    (fatChainAdd env sb s dir new nr).ret = 0 ∧
      (fatChainAdd env sb s dir new nr).dir = ({ dir with iStart := new, iLogstart := new } : DirInode).addBlocks sb nr ∧
      EqFat sb s.vol (fatChainAdd env sb s dir new nr).s.vol ∧
      (fatChainAdd env sb s dir new nr).s.prevFree = s.prevFree := by
  unfold fatChainAdd lastCluster
  simp only [h0, ne_eq, not_true_eq_false, if_false, lt_irrefl]
  set dir' : DirInode := { dir with iStart := new, iLogstart := new } with hdir'
  have hout' : EntryOutside sb dir' := hout
  obtain ⟨hret, heq, hpf⟩ := fatSyncInode_eqFat (s := s) henv hout'
  cases hsync : dir.dirsync with
  | false =>
    simp only [Bool.false_eq_true, if_false, not_true_eq_false]
    exact ⟨trivial, trivial, EqFat.refl sb s.vol, trivial⟩
  | true =>
    simp only [if_true, hret, not_true_eq_false, if_false]
    exact ⟨trivial, trivial, heq, hpf⟩

/-- **A chain grows** at its end. -/
theorem fatChainAdd_ok (henv : env.NoFault) (p : Path (table sb s.vol) dir.iStart l)
    (hlen : l.length ≤ clusterLimit sb + 1) (new : ℤ) (nr : ℕ) :
    (fatChainAdd env sb s dir new nr).ret = 0 ∧ (fatChainAdd env sb s dir new nr).dir = dir.addBlocks sb nr ∧
      EqFat sb (fatPut sb s.vol (l.getLast p.ne_nil) new) (fatChainAdd env sb s dir new nr).s.vol ∧
      (fatChainAdd env sb s dir new nr).s.prevFree = s.prevFree := by
  have h0 : dir.iStart ≠ 0 := (path_inRange p _ p.head_mem).pos.ne'
  have hin := path_inRange p _ (List.getLast_mem p.ne_nil)
  obtain ⟨s1, hquiet, hlast⟩ := lastCluster_spec henv p h0
  rw [if_pos hlen] at hlast
  obtain ⟨e, s2, hread, hat, hsame2⟩ := fatEntRead_ok henv s1 fatentInit hin
  obtain ⟨s3, hwrite, hsame3⟩ := fatEntWrite_ok henv s2 hin hat new true
  have hneg : ¬ fatLink sb s1.vol (l.getLast p.ne_nil) < 0 := not_lt.2 (fat32EntGet_bounds _ _).1
  have hsame4 := hsame3.trans (FatEntry.brelse_spec sb e s3).2
  have hres : fatChainAdd env sb s dir new nr = ⟨0, dir.addBlocks sb nr, (e.brelse s3).2⟩ := by
    unfold fatChainAdd
    rw [hlast]
    simp only [lt_irrefl, if_false, ne_eq, hin.pos.ne', not_false_iff, if_true, hread, if_neg hneg, hwrite]
  rw [hres]
  have hvol : s1.vol = s.vol := hquiet.vol
  have hpf : s1.prevFree = s.prevFree := by rw [hquiet]
  have h2 : EqFat sb s.vol s2.vol := by
    intro b hb
    rw [hsame2.vol b hb, hvol]
  refine ⟨rfl, rfl, (EqFat.fatPut h2 hin new).trans hsame4.vol, ?_⟩
  · rw [hsame4.prevFree, ← hpf]
    exact hsame2.prevFree

/-- **A chain that is too long** is left alone. -/
theorem fatChainAdd_long (henv : env.NoFault) (p : Path (table sb s.vol) dir.iStart l)
    (hlen : clusterLimit sb + 1 < l.length) (new : ℤ) (nr : ℕ) :
    (fatChainAdd env sb s dir new nr).ret = (- EIO : ℤ) ∧ (fatChainAdd env sb s dir new nr).dir = dir ∧
      (fatChainAdd env sb s dir new nr).s.vol = s.vol ∧
      (fatChainAdd env sb s dir new nr).s.prevFree = s.prevFree := by
  have h0 : dir.iStart ≠ 0 := (path_inRange p _ p.head_mem).pos.ne'
  obtain ⟨s1, hquiet, hlast⟩ := lastCluster_spec henv p h0
  rw [if_neg (not_le.2 hlen)] at hlast
  have hres : fatChainAdd env sb s dir new nr = ⟨- EIO, dir, s1⟩ := by
    unfold fatChainAdd
    rw [hlast]
    simp only [if_pos (show (- EIO : ℤ) < 0 by decide)]
  rw [hres]
  exact ⟨rfl, rfl, hquiet.vol, by rw [hquiet]⟩

end

end AtsLdd.Fat
