/-
The super block of a mounted FAT32 volume and the addresses computed from it.

`FatSb` holds the fields of `struct super_block` and `struct fat_sb_info` that stay fixed after the mount, with what
`fat_fill_super` guarantees about them on a kernel with 64-bit `unsigned long`. Blocks are sectors.

An `int` cluster number is an integer; nothing limits it to the volume, since numbers come from the disk.
-/
import AtsLdd.Core.Machine

namespace AtsLdd.Fat

open AtsLdd.Machine

/-! ## Constants -/

def FAT_START_ENT : ℤ := 2
def FAT_ENT_FREE : ℤ := 0
def BAD_FAT32 : ℤ := 0x0FFFFFF7
def FAT_ENT_EOF : ℤ := 0x0FFFFFFF
def EOF_FAT32 : ℤ := 0x0FFFFFFF
def MAX_FAT32 : ℕ := 0x0FFFFFF6

def EIO : ℕ := 5

/-- `s_maxbytes` of a FAT32 super block -/
def S_MAXBYTES : ℕ := 0xffffffff

/-! ## Geometry -/

structure FatSb where
  /-- `s_blocksize_bits` -/
  blocksizeBits : ℕ
  /-- log2 of `sec_per_clus` -/
  secPerClusBits : ℕ
  fatStart : ℕ
  /-- sectors of one FAT -/
  fatLength : ℕ
  /-- number of FATs -/
  fats : ℕ
  dataStart : ℕ
  maxCluster : ℕ
  rootCluster : ℕ
  /-- `MS_SYNCHRONOUS` -/
  synchronous : Bool
  bits_min : 9 ≤ blocksizeBits
  bits_max : blocksizeBits ≤ 12
  spc_max : secPerClusBits ≤ 7
  fatStart_pos : 0 < fatStart
  fatStart_max : fatStart < 2 ^ 16
  fats_pos : 0 < fats
  fats_max : fats < 2 ^ 8
  fatLength_max : fatLength < 2 ^ 32
  /-- the data region is behind the FATs -/
  fats_le : fatStart + fats * fatLength ≤ dataStart
  dataStart_max : dataStart < 2 ^ 42
  /-- the FAT holds an entry for every cluster -/
  entries_le : 4 * maxCluster ≤ fatLength * 2 ^ blocksizeBits
  maxCluster_min : 2 ≤ maxCluster
  maxCluster_max : maxCluster ≤ MAX_FAT32 + 2

/-- the numbers of a volume whose first FAT is at block 1 -/
def MountsAt1 (blocksizeBits secPerClusBits fatLength fats dataStart maxCluster : ℕ) : Prop :=
  9 ≤ blocksizeBits ∧ blocksizeBits ≤ 12 ∧ secPerClusBits ≤ 7 ∧ 0 < fats ∧ fats < 2 ^ 8 ∧ fatLength < 2 ^ 32 ∧
    1 + fats * fatLength ≤ dataStart ∧ dataStart < 2 ^ 42 ∧ 4 * maxCluster ≤ fatLength * 2 ^ blocksizeBits ∧
    2 ≤ maxCluster ∧ maxCluster ≤ MAX_FAT32 + 2

instance (blocksizeBits secPerClusBits fatLength fats dataStart maxCluster : ℕ) :
    Decidable (MountsAt1 blocksizeBits secPerClusBits fatLength fats dataStart maxCluster) :=
  inferInstanceAs (Decidable (_ ∧ _))

/-- the volume with these numbers, whose root directory starts at cluster 2 -/
def FatSb.at1 (blocksizeBits secPerClusBits fatLength fats dataStart maxCluster : ℕ)
    (h : MountsAt1 blocksizeBits secPerClusBits fatLength fats dataStart maxCluster) : FatSb where
  blocksizeBits := blocksizeBits
  secPerClusBits := secPerClusBits
  fatStart := 1
  fatLength := fatLength
  fats := fats
  dataStart := dataStart
  maxCluster := maxCluster
  rootCluster := 2
  synchronous := false
  bits_min := h.1
  bits_max := h.2.1
  spc_max := h.2.2.1
  fatStart_pos := Nat.one_pos
  fatStart_max := Nat.one_lt_two_pow (Nat.succ_ne_zero 15)
  fats_pos := h.2.2.2.1
  fats_max := h.2.2.2.2.1
  fatLength_max := h.2.2.2.2.2.1
  fats_le := h.2.2.2.2.2.2.1
  dataStart_max := h.2.2.2.2.2.2.2.1
  entries_le := h.2.2.2.2.2.2.2.2.1
  maxCluster_min := h.2.2.2.2.2.2.2.2.2.1
  maxCluster_max := h.2.2.2.2.2.2.2.2.2.2

namespace FatSb

/-- `s_blocksize` -/
def blocksize (sb : FatSb) : ℕ := 2 ^ sb.blocksizeBits

/-- `sec_per_clus` -/
def secPerClus (sb : FatSb) : ℕ := 2 ^ sb.secPerClusBits

/-- `cluster_bits` -/
def clusterBits (sb : FatSb) : ℕ := sb.blocksizeBits + sb.secPerClusBits

/-- `cluster_size` -/
def clusterSize (sb : FatSb) : ℕ := sb.blocksize * sb.secPerClus

theorem blocksize_pos (sb : FatSb) : 0 < sb.blocksize := Nat.two_pow_pos _

theorem secPerClus_pos (sb : FatSb) : 0 < sb.secPerClus := Nat.two_pow_pos _

theorem clusterSize_pos (sb : FatSb) : 0 < sb.clusterSize := Nat.mul_pos sb.blocksize_pos sb.secPerClus_pos

theorem clusterSize_eq (sb : FatSb) : sb.clusterSize = 2 ^ sb.clusterBits := (pow_add 2 _ _).symm

theorem four_dvd_blocksize (sb : FatSb) : 4 ∣ sb.blocksize := by
  have h := sb.bits_min
  exact pow_dvd_pow 2 (show 2 ≤ sb.blocksizeBits by omega)

theorem blocksize_min (sb : FatSb) : 2 ^ 9 ≤ sb.blocksize :=
  Nat.pow_le_pow_right Nat.two_pos sb.bits_min

theorem blocksize_max (sb : FatSb) : sb.blocksize ≤ 2 ^ 12 :=
  Nat.pow_le_pow_right Nat.two_pos sb.bits_max

end FatSb

/-- a cluster number of the volume -/
def InRange (sb : FatSb) (c : ℤ) : Prop := FAT_START_ENT ≤ c ∧ c < sb.maxCluster

instance (sb : FatSb) (c : ℤ) : Decidable (InRange sb c) := inferInstanceAs (Decidable (_ ∧ _))

/-! ## Addresses -/

/-- `fat_ent_blocknr`: the offset in its block and the block of a FAT entry -/
def fatEntBlocknr (sb : FatSb) (entry : ℤ) : ℕ × ℕ :=
  let bytes := int32 (entry * 4)
  ((bytes % sb.blocksize).toNat, ulong (sb.fatStart + bytes / sb.blocksize))

/-- `fat_clus_to_blknr` -/
def fatClusToBlknr (sb : FatSb) (clus : ℤ) : ℕ := ulong ((clus - FAT_START_ENT) * sb.secPerClus + sb.dataStart)

/-- `ncluster2block`: the subtraction is made in `int` -/
def ncluster2block (sb : FatSb) (n : ℤ) : ℕ := ulong (int32 (n - FAT_START_ENT) * sb.secPerClus + sb.dataStart)

/-- `sector_t` addition -/
def sectorAdd (s off : ℕ) : ℕ := ulong ((s + off : ℕ) : ℤ)

theorem sectorAdd_add (a b c : ℕ) : sectorAdd (sectorAdd a b) c = sectorAdd a (b + c) := by
  unfold sectorAdd ulong
  omega

theorem inRange_natCast {sb : FatSb} {c : ℤ} (h : InRange sb c) : ∃ k : ℕ, c = k ∧ 2 ≤ k ∧ k < sb.maxCluster := by
  obtain ⟨h1, h2⟩ := h
  unfold FAT_START_ENT at h1
  obtain ⟨k, rfl⟩ := Int.eq_ofNat_of_zero_le (show 0 ≤ c by omega)
  exact ⟨k, rfl, by omega, by omega⟩

/-- the entry of a cluster of the volume: inside the FAT, and aligned -/
theorem fatEntBlocknr_spec (sb : FatSb) {k : ℕ} (h : k < sb.maxCluster) :
    fatEntBlocknr sb k = (4 * k % sb.blocksize, sb.fatStart + 4 * k / sb.blocksize) ∧
      4 * k / sb.blocksize < sb.fatLength := by
  have hmax := sb.maxCluster_max
  have hle := sb.entries_le
  have hfs := sb.fatStart_max
  have hfl := sb.fatLength_max
  have hlt : 4 * k / sb.blocksize < sb.fatLength := by
    rw [Nat.div_lt_iff_lt_mul sb.blocksize_pos]
    unfold FatSb.blocksize
    omega
  refine ⟨?_, hlt⟩
  have hint : int32 ((k : ℤ) * 4) = ((4 * k : ℕ) : ℤ) := by
    unfold MAX_FAT32 at hmax
    rw [int32_of_bounds (by omega) (by omega)]
    push_cast
    ring
  unfold fatEntBlocknr
  rw [hint]
  refine Prod.ext ?_ ?_
  · change (((4 * k : ℕ) : ℤ) % (sb.blocksize : ℤ)).toNat = _
    rw [← Int.natCast_emod, Int.toNat_natCast]
  · change ulong ((sb.fatStart : ℤ) + ((4 * k : ℕ) : ℤ) / (sb.blocksize : ℤ)) = _
    rw [← Int.natCast_ediv, ← Int.natCast_add]
    exact ulong_natCast (by omega)

/-- the blocks of a cluster of the volume: behind the FATs, and in order -/
theorem ncluster2block_spec (sb : FatSb) {k : ℕ} (h2 : 2 ≤ k) (h : k < sb.maxCluster) {i : ℕ} (hi : i < sb.secPerClus) :
    sectorAdd (ncluster2block sb k) i = sb.dataStart + (k - 2) * sb.secPerClus + i := by
  have hmax := sb.maxCluster_max
  have hds := sb.dataStart_max
  unfold MAX_FAT32 at hmax
  have hspc : sb.secPerClus ≤ 2 ^ 7 := Nat.pow_le_pow_right Nat.two_pos sb.spc_max
  have hmul : (k - 2) * sb.secPerClus ≤ 2 ^ 28 * 2 ^ 7 := Nat.mul_le_mul (by omega) hspc
  have hint : int32 ((k : ℤ) - FAT_START_ENT) = ((k - 2 : ℕ) : ℤ) := by
    unfold FAT_START_ENT
    rw [int32_of_bounds (by omega) (by omega)]
    omega
  have hblk : ncluster2block sb k = (k - 2) * sb.secPerClus + sb.dataStart := by
    unfold ncluster2block
    rw [hint, ← Int.natCast_mul, ← Int.natCast_add]
    exact ulong_natCast (by omega)
  unfold sectorAdd
  rw [hblk, ulong_natCast (by omega)]
  omega

/-- no FAT entry of a cluster of the volume lies in a data block of one -/
theorem fat_block_ne_data {sb : FatSb} {c d : ℤ} (hc : InRange sb c) (hd : InRange sb d) {i : ℕ} (hi : i < sb.secPerClus) :
    (fatEntBlocknr sb c).2 ≠ sectorAdd (ncluster2block sb d) i := by
  obtain ⟨k, rfl, hk2, hk⟩ := inRange_natCast hc
  obtain ⟨j, rfl, hj2, hj⟩ := inRange_natCast hd
  obtain ⟨heq, hlt⟩ := fatEntBlocknr_spec sb hk
  have hfats : sb.fatLength ≤ sb.fats * sb.fatLength := Nat.le_mul_of_pos_left _ sb.fats_pos
  have hle := sb.fats_le
  rw [heq, ncluster2block_spec sb hj2 hj hi]
  simp only
  omega

end AtsLdd.Fat
