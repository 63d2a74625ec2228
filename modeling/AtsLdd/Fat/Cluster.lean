/-
Walking cluster chains: `fatent_next_sb` (fat_entry.c), and the mapping of the sectors of a file to blocks of the volume,
`fat_get_cluster` and `fat_bmap` (fat_cache.c).

A walk ends at an unreadable FAT block, at a free entry or at the end of the chain. `fat_get_cluster` gives up after
`limit` steps, so its loop is run with a fuel of `limit + 2`, which it never uses up.
-/
import AtsLdd.Fat.Volume

namespace AtsLdd.Fat

open AtsLdd.Machine

/-- `fatent_next_sb`: the link of entry `curent`, or -EIO -/
def fatentNextSb (env : Env) (sb : FatSb) (s : St) (curent : ℤ) : Option ℤ × St :=
  let blocknr := (fatEntBlocknr sb curent).2
  match sbBread env s blocknr with
  | (false, s) => (none, { s with log := s.log ++ [.entry curent none] })
  | (true, s) =>
    (some (fatLink sb s.vol curent), brelse { s with log := s.log ++ [.entry curent (some (s.vol blocknr))] } blocknr)

/-- the fields of an inode that mappings use -/
structure Inode where
  /-- `i_start`, an `int` made of two 16-bit words from the disk -/
  iStart : ℤ
  iSize : ℕ

/-- the inode of a file; a file of a FAT32 volume is shorter than 2^32 bytes -/
structure FatInode extends Inode where
  start_min : -2 ^ 31 ≤ iStart
  start_max : iStart < 2 ^ 31
  size_max : iSize ≤ S_MAXBYTES

/-- a file of 3000 bytes -/
def tinyInode (start : ℕ) (h : start < 2 ^ 31) : FatInode :=
  ⟨⟨start, 3000⟩, by simp only; omega, by simp only; omega, by norm_num [S_MAXBYTES]⟩

/-- the most steps of a walk in `fat_get_cluster` -/
def clusterLimit (sb : FatSb) : ℕ := S_MAXBYTES / 2 ^ sb.clusterBits

/-- what `fat_get_cluster` leaves: 0 or -EIO, the index reached and the cluster there -/
structure GetCluster where
  ret : ℤ
  fclus : ℕ
  dclus : ℤ
  s : St

/-- the loop of `fat_get_cluster` at index `fclus` -/
def fatGetClusterLoop (env : Env) (sb : FatSb) (cluster : ℤ) : ℕ → St → ℕ → ℤ → GetCluster
  | 0, s, fclus, dclus => ⟨0, fclus, dclus, s⟩
  | fuel + 1, s, fclus, dclus =>
    if cluster ≤ fclus then ⟨0, fclus, dclus, s⟩
    else if clusterLimit sb < fclus then ⟨- EIO, fclus, dclus, s⟩ -- a loop in the chain
    else
      match fatentNextSb env sb s dclus with
      | (none, s) => ⟨- EIO, fclus, dclus, s⟩
      | (some nclus, s) =>
        if nclus = FAT_ENT_FREE then ⟨- EIO, fclus, dclus, s⟩
        else if nclus = FAT_ENT_EOF then ⟨0, fclus, dclus, s⟩
        else fatGetClusterLoop env sb cluster fuel s (fclus + 1) nclus

/-- `fat_get_cluster`; `none` is its `BUG_ON` for a first cluster 0 -/
def fatGetCluster (env : Env) (sb : FatSb) (s : St) (ino : Inode) (cluster : ℤ) : Option GetCluster :=
  if ino.iStart = 0 then none
  else some (fatGetClusterLoop env sb cluster (clusterLimit sb + 2) s 0 ino.iStart)

/-- `fat_bmap_cluster`: a cluster number, 0, or a negative error -/
def fatBmapCluster (env : Env) (sb : FatSb) (s : St) (ino : Inode) (cluster : ℤ) : ℤ × St :=
  if ino.iStart = 0 then (0, s)
  else
    let r := fatGetClusterLoop env sb cluster (clusterLimit sb + 2) s 0 ino.iStart
    if r.ret < 0 then (r.ret, r.s)
    else if r.ret = FAT_ENT_EOF then (- EIO, r.s)
    else (r.dclus, r.s)

/-- what `fat_bmap` leaves: 0 or a negative error, the block and the number of blocks mapped from there -/
structure Bmap where
  ret : ℤ
  phys : ℕ
  mappedBlocks : ℕ
  s : St

/-- `fat_bmap` -/
def fatBmap (env : Env) (sb : FatSb) (s : St) (ino : Inode) (sector : ℕ) : Bmap :=
  let lastBlock := (ino.iSize + (sb.blocksize - 1)) / 2 ^ sb.blocksizeBits
  if sector ≥ lastBlock then ⟨0, 0, 0, s⟩
  else
    let cluster := int32 (sector / 2 ^ (sb.clusterBits - sb.blocksizeBits) : ℕ)
    let offset := sector % sb.secPerClus
    match fatBmapCluster env sb s ino cluster with
    | (cluster, s) =>
      if cluster < 0 then ⟨cluster, 0, 0, s⟩
      else if cluster ≠ 0 then
        ⟨0, sectorAdd (fatClusToBlknr sb cluster) offset, min (sb.secPerClus - offset) (lastBlock - sector), s⟩
      else ⟨0, 0, 0, s⟩

/-! ## One lookup -/

/-- nothing changed but the log, the lowest counts and the clock -/
def Quiet (s s' : St) : Prop := s' = { s with low := s'.low, t := s'.t, log := s'.log }

theorem Quiet.refl (s : St) : Quiet s s := rfl

theorem Quiet.trans {a b c : St} (h1 : Quiet a b) (h2 : Quiet b c) : Quiet a c := by
  unfold Quiet at *
  rw [h2, h1]

theorem Quiet.vol {s s' : St} (h : Quiet s s') : s'.vol = s.vol := by rw [h]

theorem Quiet.disk {s s' : St} (h : Quiet s s') : s'.disk = s.disk := by rw [h]

theorem Quiet.ubuf {s s' : St} (h : Quiet s s') : s'.ubuf = s.ubuf := by rw [h]

/-- **One lookup.** It answers the link of the entry when its block can be read, logs it, and changes nothing. -/
theorem fatentNextSb_spec (env : Env) (sb : FatSb) (s : St) (c : ℤ) :
    ∃ s', Quiet s s' ∧ s'.t = s.t + 1 ∧
      (fatentNextSb env sb s c = (some (fatLink sb s.vol c), s') ∧
          env.bread s.t (fatEntBlocknr sb c).2 = true ∧
          s'.log = s.log ++ [.entry c (some (s.vol (fatEntBlocknr sb c).2))] ∨
        fatentNextSb env sb s c = (none, s') ∧ env.bread s.t (fatEntBlocknr sb c).2 = false ∧
          s'.log = s.log ++ [.entry c none]) := by
  cases hb : env.bread s.t (fatEntBlocknr sb c).2 with
  | true =>
    simp only [fatentNextSb, sbBread_ok hb, brelse, update_add_sub]
    refine ⟨_, ?_, ?_, Or.inl ⟨rfl, trivial, rfl⟩⟩ <;> rfl
  | false =>
    simp only [fatentNextSb, sbBread_fail hb]
    refine ⟨_, ?_, ?_, Or.inr ⟨rfl, trivial, rfl⟩⟩ <;> rfl

end AtsLdd.Fat
