/-
Mounting: the checks of `fat_fill_super` (sb_mgr.c) and the fields that it computes, for an `unsigned long` of `w` bits.

The fields of the boot sector are 8, 16 and 32 bits wide. Sums and products are made in `unsigned long`, the counts of
clusters are cut to 32 bits before they are compared.

- `fatFillSuper_ok`: what the checks guarantee about an accepted boot sector;
- `mounted_valid_iff`: for an accepted one, when every cluster has its FAT word inside the FAT and its blocks inside the
  data region;
- `fatFillSuper_fatSb`: with 64 bits, every accepted boot sector gives a `FatSb`;
- `mount_not_valid`: a volume whose data region starts behind its end is accepted.
-/
import AtsLdd.Fat.SuperBlock

namespace AtsLdd.Fat

open AtsLdd.Machine

/-! ## On disk -/

/-- the fields of `struct fat_boot_sector` that a mount reads -/
structure BootSector where
  sectorSize : UInt16
  secPerClus : UInt8
  reserved : UInt16
  fats : UInt8
  dirEntries : UInt16
  sectors : UInt16
  media : UInt8
  fatLength : UInt16
  totalSect : UInt32
  fat32Length : UInt32
  rootCluster : UInt32
  infoSector : UInt16

/-- `struct fat_boot_fsinfo` -/
structure FsInfo where
  signature1 : UInt32
  signature2 : UInt32
  freeClusters : UInt32
  nextCluster : UInt32

/-- what a mount meets: the block size of the device, whether its sectors can be read and the block size be set, the
mount options, and the error of the set-up behind the checks (code page, inodes, root directory), 0 when there is none -/
structure MountEnv where
  blocksize : ℕ
  breadBoot : Bool
  setBlocksize : Bool
  breadBootAgain : Bool
  breadFsinfo : Bool
  usefree : Bool
  setup : ℤ

/-! ## Kernel helpers -/

def EINVAL : ℕ := 22

/-- `is_power_of_2` -/
def isPowerOf2 (n : ℕ) : Prop := n ≠ 0 ∧ n &&& (n - 1) = 0

instance (n : ℕ) : Decidable (isPowerOf2 n) := inferInstanceAs (Decidable (_ ∧ _))

/-- `fat_valid_media` -/
def fatValidMedia (media : UInt8) : Prop := 0xf8 ≤ media ∨ media = 0xf0

instance (media : UInt8) : Decidable (fatValidMedia media) := inferInstanceAs (Decidable (_ ∨ _))

/-- `IS_FSINFO` -/
def isFsinfo (f : FsInfo) : Prop := f.signature1 = 0x41615252 ∧ f.signature2 = 0x61417272

instance (f : FsInfo) : Decidable (isFsinfo f) := inferInstanceAs (Decidable (_ ∧ _))

/-- `ffs`: the place of the lowest bit set, counted from 1, among the low 32 -/
def ffs (n : ℕ) : ℕ := ((List.range 32).find? fun i => n.testBit i).elim 0 (· + 1)

theorem isPowerOf2_iff {n : ℕ} : isPowerOf2 n ↔ ∃ k, n = 2 ^ k := Nat.ne_zero_and_sub_one_eq_zero_iff_isPowerOfTwo

theorem ffs_two_pow {k : ℕ} (h : k < 32) : ffs (2 ^ k) = k + 1 := by
  interval_cases k <;> decide

/-! ## Computed fields -/

/-- what a mount leaves in `struct super_block` and `struct fat_sb_info` -/
structure SbInfo where
  blocksize : ℕ
  secPerClus : ℕ
  clusterSize : ℕ
  clusterBits : ℕ
  fats : ℕ
  fatStart : ℕ
  fatLength : ℕ
  rootCluster : ℕ
  fsinfoSector : ℕ
  freeClusters : ℕ
  freeClusValid : Bool
  prevFree : ℕ
  dirPerBlock : ℕ
  dirPerBlockBits : ℕ
  dirStart : ℕ
  dirEntries : ℕ
  dataStart : ℕ
  maxCluster : ℕ

namespace BootSector

/-- `dir_start` -/
def dirStart (w : ℕ) (b : BootSector) : ℕ := (b.reserved.toNat + b.fats.toNat * b.fat32Length.toNat) % 2 ^ w

/-- `data_start`, behind the sectors of a root directory of fixed size -/
def dataStart (w : ℕ) (b : BootSector) : ℕ := (b.dirStart w + b.dirEntries.toNat * 32 / b.sectorSize.toNat) % 2 ^ w

/-- `total_sectors` -/
def totalSectors (b : BootSector) : ℕ := if b.sectors.toNat = 0 then b.totalSect.toNat else b.sectors.toNat

/-- the clusters between `data_start` and the end of the volume: the difference is an `unsigned long`, the quotient is
cut to 32 bits -/
def dataClusters (w : ℕ) (b : BootSector) : ℕ :=
  (b.totalSectors + 2 ^ w - b.dataStart w) % 2 ^ w / b.secPerClus.toNat % 2 ^ 32

/-- `fat_clusters`: the entries that the FAT holds -/
def fatClusters (w : ℕ) (b : BootSector) : ℕ := b.fat32Length.toNat * b.sectorSize.toNat * 8 % 2 ^ w / 32 % 2 ^ 32

/-- `total_clusters`, with `fat_clusters - FAT_START_ENT` in 32 bits -/
def totalClusters (w : ℕ) (b : BootSector) : ℕ := min (b.dataClusters w) ((b.fatClusters w + 2 ^ 32 - 2) % 2 ^ 32)

/-- the sector of the FSINFO block -/
def fsinfoSector (b : BootSector) : ℕ := if b.infoSector.toNat = 0 then 1 else b.infoSector.toNat

/-- the fields of a mounted volume -/
def sbInfo (w : ℕ) (usefree : Bool) (b : BootSector) (f : FsInfo) : SbInfo :=
  let freeClusters := if isFsinfo f then f.freeClusters.toNat else 2 ^ 32 - 1
  let prevFree := (if isFsinfo f then f.nextCluster.toNat else 2) % (b.totalClusters w + 2)
  { blocksize := b.sectorSize.toNat
    secPerClus := b.secPerClus.toNat
    clusterSize := b.sectorSize.toNat * b.secPerClus.toNat % 2 ^ 32
    clusterBits := ffs (b.sectorSize.toNat * b.secPerClus.toNat % 2 ^ 32) - 1
    fats := b.fats.toNat
    fatStart := b.reserved.toNat
    fatLength := b.fat32Length.toNat
    rootCluster := b.rootCluster.toNat
    fsinfoSector := b.fsinfoSector
    freeClusters := if freeClusters ≠ 2 ^ 32 - 1 ∧ freeClusters > b.totalClusters w then 2 ^ 32 - 1 else freeClusters
    freeClusValid := isFsinfo f && usefree
    prevFree := if prevFree < 2 then 2 else prevFree
    dirPerBlock := b.sectorSize.toNat / 32
    dirPerBlockBits := ffs (b.sectorSize.toNat / 32) - 1
    dirStart := b.dirStart w
    dirEntries := b.dirEntries.toNat
    dataStart := b.dataStart w
    maxCluster := b.totalClusters w + 2 }

/-- neither a FAT12 nor a FAT16 volume -/
def IsFat32 (b : BootSector) : Prop := b.fatLength = 0 ∧ b.fat32Length ≠ 0

instance (b : BootSector) : Decidable b.IsFat32 := inferInstanceAs (Decidable (_ ∧ _))

end BootSector

/-! ## The mount -/

/-- `fat_fill_super`: the fields, or an error -/
def fatFillSuper (w : ℕ) (env : MountEnv) (b : BootSector) (f : FsInfo) : Except ℤ SbInfo :=
  if env.breadBoot = false then .error (- EIO)
  else if b.reserved = 0 then .error (- EINVAL)
  else if b.fats = 0 then .error (- EINVAL)
  else if ¬ fatValidMedia b.media then .error (- EINVAL)
  else if ¬ isPowerOf2 b.sectorSize.toNat ∨ b.sectorSize.toNat < 512 ∨ 4096 < b.sectorSize.toNat then .error (- EINVAL)
  else if ¬ isPowerOf2 b.secPerClus.toNat then .error (- EINVAL)
  else if b.sectorSize.toNat < env.blocksize then .error (- EIO)
  else if env.blocksize < b.sectorSize.toNat ∧ env.setBlocksize = false then .error (- EIO)
  else if env.blocksize < b.sectorSize.toNat ∧ env.breadBootAgain = false then .error (- EIO)
  -- from here on a block is a sector
  else if b.IsFat32 ∧ env.breadFsinfo = false then .error (- EIO)
  else if b.dirEntries.toNat &&& (b.sectorSize.toNat / 32 - 1) ≠ 0 then .error (- EINVAL)
  else if ¬ b.IsFat32 then .error (- EINVAL)
  else if MAX_FAT32 < b.totalClusters w then .error (- EINVAL)
  else if env.setup ≠ 0 then .error env.setup
  else .ok (b.sbInfo w env.usefree f)

/-- what the checks guarantee -/
structure Accepted (w : ℕ) (b : BootSector) : Prop where
  reserved : b.reserved.toNat ≠ 0
  fats : b.fats.toNat ≠ 0
  sectorSize : ∃ k, 9 ≤ k ∧ k ≤ 12 ∧ b.sectorSize.toNat = 2 ^ k
  secPerClus : ∃ j, j ≤ 7 ∧ b.secPerClus.toNat = 2 ^ j
  fat32Length : b.fat32Length.toNat ≠ 0
  totalClusters : b.totalClusters w ≤ MAX_FAT32

/-- a check that was passed -/
theorem check_ok {α : Type} {c : Prop} [Decidable c] {e : ℤ} {x : Except ℤ α} {y : α}
    (h : (if c then Except.error e else x) = .ok y) : ¬ c ∧ x = .ok y := by
  by_cases hc : c
  · rw [if_pos hc] at h
    cases h
  · rw [if_neg hc] at h
    exact ⟨hc, h⟩

theorem check_pass {α : Type} {c : Prop} [Decidable c] {e : ℤ} {x y : Except ℤ α} (hc : ¬ c) (h : x = y) :
    (if c then Except.error e else x) = y := (if_neg hc).trans h

/-- **An accepted boot sector.** -/
theorem fatFillSuper_ok {w : ℕ} {env : MountEnv} {b : BootSector} {f : FsInfo} {sbi : SbInfo}
    (h : fatFillSuper w env b f = .ok sbi) : Accepted w b ∧ sbi = b.sbInfo w env.usefree f := by
  unfold fatFillSuper at h
  obtain ⟨-, h⟩ := check_ok h
  obtain ⟨hreserved, h⟩ := check_ok h
  obtain ⟨hfats, h⟩ := check_ok h
  obtain ⟨-, h⟩ := check_ok h
  obtain ⟨hsector, h⟩ := check_ok h
  obtain ⟨hspc, h⟩ := check_ok h
  obtain ⟨-, h⟩ := check_ok h
  obtain ⟨-, h⟩ := check_ok h
  obtain ⟨-, h⟩ := check_ok h
  obtain ⟨-, h⟩ := check_ok h
  obtain ⟨-, h⟩ := check_ok h
  obtain ⟨hfat32, h⟩ := check_ok h
  obtain ⟨htotal, h⟩ := check_ok h
  obtain ⟨-, h⟩ := check_ok h
  rw [not_or, not_or, not_not, not_lt, not_lt] at hsector
  obtain ⟨hpow, hmin, hmax⟩ := hsector
  obtain ⟨k, hk⟩ := isPowerOf2_iff.1 hpow
  obtain ⟨j, hj⟩ := isPowerOf2_iff.1 (not_not.1 hspc)
  have hspcLt : b.secPerClus.toNat < 2 ^ 8 := b.secPerClus.toNat_lt
  refine ⟨⟨?_, ?_, ⟨k, ?_, ?_, hk⟩, ⟨j, ?_, hj⟩, ?_, not_lt.1 htotal⟩, (Except.ok.inj h).symm⟩
  · intro h0
    exact hreserved (UInt16.toNat_inj.1 h0)
  · intro h0
    exact hfats (UInt8.toNat_inj.1 h0)
  · rw [hk] at hmin
    exact (Nat.pow_le_pow_iff_right (Nat.lt_succ_self 1)).1 (show 2 ^ 9 ≤ 2 ^ k from hmin)
  · rw [hk] at hmax
    exact (Nat.pow_le_pow_iff_right (Nat.lt_succ_self 1)).1 (show 2 ^ k ≤ 2 ^ 12 from hmax)
  · rw [hj] at hspcLt
    exact Nat.le_of_lt_succ ((Nat.pow_lt_pow_iff_right (Nat.lt_succ_self 1)).1 hspcLt)
  · intro h0
    exact (not_not.1 hfat32).2 (UInt32.toNat_inj.1 h0)

/-! ## Addresses of a mounted volume -/

/-- `fat_ent_blocknr` with a `sector_t` of `ws` bits -/
def SbInfo.entBlocknr (ws : ℕ) (sbi : SbInfo) (entry : ℤ) : ℕ × ℕ :=
  let bytes := int32 (entry * 4)
  ((bytes % sbi.blocksize).toNat, ((sbi.fatStart + bytes / sbi.blocksize) % 2 ^ ws).toNat)

/-- `fat_clus_to_blknr` with a `sector_t` of `ws` bits -/
def SbInfo.clusToBlknr (ws : ℕ) (sbi : SbInfo) (clus : ℤ) : ℕ :=
  (((clus - FAT_START_ENT) * sbi.secPerClus + sbi.dataStart) % 2 ^ ws).toNat

/-- every cluster has its FAT word in the FAT and its blocks in the data region of the volume -/
structure MountValid (ws : ℕ) (b : BootSector) (sbi : SbInfo) : Prop where
  blocksize : ∃ k, 9 ≤ k ∧ k ≤ 12 ∧ sbi.blocksize = 2 ^ k
  clusterSize : sbi.clusterSize = sbi.blocksize * sbi.secPerClus ∧ sbi.clusterSize = 2 ^ sbi.clusterBits
  prevFree : 2 ≤ sbi.prevFree
  fatWord : ∀ c : ℕ, 2 ≤ c → c < sbi.maxCluster → (sbi.entBlocknr ws c).1 + 4 ≤ sbi.blocksize ∧
    sbi.fatStart ≤ (sbi.entBlocknr ws c).2 ∧ (sbi.entBlocknr ws c).2 < sbi.fatStart + sbi.fatLength
  dataBlocks : ∀ c : ℕ, 2 ≤ c → c < sbi.maxCluster → ∀ i < sbi.secPerClus,
    sbi.dataStart ≤ (sbi.clusToBlknr ws c + i) % 2 ^ ws ∧ (sbi.clusToBlknr ws c + i) % 2 ^ ws < b.totalSectors

/-! ## What the checks leave open -/

section
variable {w : ℕ} {b : BootSector}

/-- the entries that the FAT is taken to hold: a multiple of 128; 0 only when their bits are a multiple of `2 ^ w`, or the
FAT holds 2^32 entries or more -/
theorem fatClusters_bounds (hw : w = 32 ∨ w = 64) (h : Accepted w b) :
    (b.fatClusters w = 0 ∨ 128 ≤ b.fatClusters w ∧ b.fatClusters w ≤ b.fat32Length.toNat * b.sectorSize.toNat / 4) ∧
      (b.fatClusters w = 0 → b.fat32Length.toNat * b.sectorSize.toNat * 8 % 2 ^ w = 0 ∨
        2 ^ 32 ≤ b.fat32Length.toNat * b.sectorSize.toNat / 4) ∧
      (b.fat32Length.toNat * b.sectorSize.toNat * 8 % 2 ^ w = 0 → b.fatClusters w = 0) := by
  obtain ⟨k, hk9, hk12, hk⟩ := h.sectorSize
  have hfl := b.fat32Length.toNat_lt
  unfold BootSector.fatClusters
  rw [hk]
  generalize b.fat32Length.toNat = fl at hfl ⊢
  rcases hw with rfl | rfl <;> interval_cases k <;> omega

/-- every cluster number has an entry in the FAT -/
theorem entries_iff (hw : w = 32 ∨ w = 64) (h : Accepted w b) :
    b.totalClusters w + 2 ≤ b.fat32Length.toNat * b.sectorSize.toNat / 4 ↔
      b.fat32Length.toNat * b.sectorSize.toNat * 8 % 2 ^ w ≠ 0 ∨
        b.dataClusters w + 2 ≤ b.fat32Length.toNat * b.sectorSize.toNat / 4 := by
  obtain ⟨hbounds, hzero, hwrap⟩ := fatClusters_bounds hw h
  have htotal := h.totalClusters
  have hdata : b.dataClusters w < 2 ^ 32 := Nat.mod_lt _ (by norm_num)
  unfold BootSector.totalClusters MAX_FAT32 at *
  generalize b.fat32Length.toNat * b.sectorSize.toNat * 8 % 2 ^ w = bits at *
  generalize b.fat32Length.toNat * b.sectorSize.toNat / 4 = entries at *
  generalize b.fatClusters w = F at *
  generalize b.dataClusters w = T at *
  omega

/-- there is a cluster when the data region is not empty -/
theorem totalClusters_eq_zero (hw : w = 32 ∨ w = 64) (h : Accepted w b) : b.totalClusters w = 0 ↔ b.dataClusters w = 0 := by
  obtain ⟨hbounds, -, -⟩ := fatClusters_bounds hw h
  have hF : b.fatClusters w < 2 ^ 32 := Nat.mod_lt _ (by norm_num)
  unfold BootSector.totalClusters
  generalize b.fatClusters w = F at *
  omega

theorem totalClusters_le (w : ℕ) (b : BootSector) : b.totalClusters w ≤ b.dataClusters w := Nat.min_le_left _ _

theorem totalSectors_lt (b : BootSector) : b.totalSectors < 2 ^ 32 := by
  have h1 := b.totalSect.toNat_lt
  have h2 := b.sectors.toNat_lt
  unfold BootSector.totalSectors
  split_ifs <;> omega

/-- the clusters between the start of the data region and the end of the volume -/
theorem dataClusters_mul_le (hw : w = 32 ∨ w = 64) (hin : b.dataStart w ≤ b.totalSectors) :
    b.dataClusters w * b.secPerClus.toNat ≤ b.totalSectors - b.dataStart w := by
  have htotal := totalSectors_lt b
  have hpow : 2 ^ 32 ≤ 2 ^ w := Nat.pow_le_pow_right Nat.two_pos (by omega)
  have hdiff : (b.totalSectors + 2 ^ w - b.dataStart w) % 2 ^ w = b.totalSectors - b.dataStart w := by
    have hsplit : b.totalSectors + 2 ^ w - b.dataStart w = (b.totalSectors - b.dataStart w) + 2 ^ w := by omega
    rw [hsplit, Nat.add_mod_right, Nat.mod_eq_of_lt (by omega)]
  unfold BootSector.dataClusters
  rw [hdiff]
  calc (b.totalSectors - b.dataStart w) / b.secPerClus.toNat % 2 ^ 32 * b.secPerClus.toNat
      ≤ (b.totalSectors - b.dataStart w) / b.secPerClus.toNat * b.secPerClus.toNat :=
        Nat.mul_le_mul_right _ (Nat.mod_le _ _)
    _ ≤ b.totalSectors - b.dataStart w := Nat.div_mul_le_self _ _

theorem blocksize_dvd (h : Accepted w b) : 4 ∣ b.sectorSize.toNat ∧ 512 ≤ b.sectorSize.toNat := by
  obtain ⟨k, hk9, hk12, hk⟩ := h.sectorSize
  rw [hk]
  exact ⟨pow_dvd_pow 2 (show 2 ≤ k by omega), Nat.pow_le_pow_right Nat.two_pos hk9⟩

end

section
variable {w ws : ℕ} {b : BootSector} {usefree : Bool} {f : FsInfo}

/-- the FAT word of a cluster, without wrapping -/
theorem entBlocknr_spec (hs : 32 ≤ ws) (h : Accepted w b) {c : ℕ} (hc : c < b.totalClusters w + 2) :
    (b.sbInfo w usefree f).entBlocknr ws c = (4 * c % b.sectorSize.toNat, b.reserved.toNat + 4 * c / b.sectorSize.toNat) := by
  have htotal := h.totalClusters
  have hres := b.reserved.toNat_lt
  have hpow : 2 ^ 32 ≤ 2 ^ ws := Nat.pow_le_pow_right Nat.two_pos hs
  have hdiv : 4 * c / b.sectorSize.toNat ≤ 4 * c := Nat.div_le_self _ _
  unfold MAX_FAT32 at htotal
  have hint : int32 ((c : ℤ) * 4) = ((4 * c : ℕ) : ℤ) := by
    rw [int32_of_bounds (by omega) (by omega)]
    push_cast
    ring
  unfold SbInfo.entBlocknr
  rw [hint]
  refine Prod.ext ?_ ?_
  · change (((4 * c : ℕ) : ℤ) % (b.sectorSize.toNat : ℤ)).toNat = _
    rw [← Int.natCast_emod, Int.toNat_natCast]
  · change (((b.reserved.toNat : ℤ) + ((4 * c : ℕ) : ℤ) / (b.sectorSize.toNat : ℤ)) % 2 ^ ws).toNat = _
    have hcast : ((2 : ℤ) ^ ws) = ((2 ^ ws : ℕ) : ℤ) := by push_cast; rfl
    rw [hcast, ← Int.natCast_ediv, ← Int.natCast_add, ← Int.natCast_emod, Int.toNat_natCast, Nat.mod_eq_of_lt (by omega)]

/-- a block of a cluster, before the cut to a `sector_t` -/
theorem clusToBlknr_spec {c : ℕ} (h2 : 2 ≤ c) (i : ℕ) : ((b.sbInfo w usefree f).clusToBlknr ws c + i) % 2 ^ ws =
    ((c - 2) * b.secPerClus.toNat + b.dataStart w + i) % 2 ^ ws := by
  have hcast : ((2 : ℤ) ^ ws) = ((2 ^ ws : ℕ) : ℤ) := by push_cast; rfl
  have hsub : (c : ℤ) - FAT_START_ENT = ((c - 2 : ℕ) : ℤ) := by
    unfold FAT_START_ENT
    omega
  have hblk : (b.sbInfo w usefree f).clusToBlknr ws c = ((c - 2) * b.secPerClus.toNat + b.dataStart w) % 2 ^ ws := by
    change ((((c : ℤ) - FAT_START_ENT) * (b.secPerClus.toNat : ℤ) + (b.dataStart w : ℤ)) % 2 ^ ws).toNat = _
    rw [hsub, hcast, ← Int.natCast_mul, ← Int.natCast_add, ← Int.natCast_emod, Int.toNat_natCast]
  rw [hblk, Nat.mod_add_mod]

/-- the FAT words are in the FAT exactly when it holds an entry for every cluster -/
theorem fatWords_iff (hs : 32 ≤ ws) (h : Accepted w b) (usefree : Bool) (f : FsInfo) :
    (∀ c : ℕ, 2 ≤ c → c < b.totalClusters w + 2 →
      ((b.sbInfo w usefree f).entBlocknr ws c).1 + 4 ≤ b.sectorSize.toNat ∧
      b.reserved.toNat ≤ ((b.sbInfo w usefree f).entBlocknr ws c).2 ∧
      ((b.sbInfo w usefree f).entBlocknr ws c).2 < b.reserved.toNat + b.fat32Length.toNat) ↔
    b.totalClusters w + 2 ≤ b.fat32Length.toNat * b.sectorSize.toNat / 4 := by
  obtain ⟨⟨q, hq⟩, h512⟩ := blocksize_dvd h
  have hfl := h.fat32Length
  have hentries : b.fat32Length.toNat * b.sectorSize.toNat / 4 = b.fat32Length.toNat * q := by
    rw [hq, Nat.mul_left_comm, Nat.mul_div_cancel_left _ (by norm_num)]
  have hin : ∀ c, 4 * c / b.sectorSize.toNat < b.fat32Length.toNat ↔ c < b.fat32Length.toNat * q := by
    intro c
    rw [Nat.div_lt_iff_lt_mul (by omega), hq, Nat.mul_left_comm]
    omega
  rw [hentries]
  constructor
  · intro hall
    by_cases hz : b.totalClusters w = 0
    · have hle : q ≤ b.fat32Length.toNat * q := Nat.le_mul_of_pos_left q (Nat.pos_of_ne_zero hfl)
      omega
    · have hlast := (hall (b.totalClusters w + 1) (by omega) (by omega)).2.2
      rw [entBlocknr_spec hs h (by omega)] at hlast
      have := (hin (b.totalClusters w + 1)).1 (by simp only at hlast; omega)
      omega
  · intro hle c h2 hc
    rw [entBlocknr_spec hs h hc]
    have hblk := (hin c).2 (by omega)
    refine ⟨?_, Nat.le_add_right _ _, by simp only; omega⟩
    have hmod : 4 * c % b.sectorSize.toNat = 4 * (c % q) := by rw [hq, Nat.mul_mod_mul_left]
    have hlt := Nat.mod_lt c (show 0 < q by omega)
    rw [hmod]
    simp only
    omega

/-- the data blocks are in the volume exactly when the data region starts in it, or is empty -/
theorem dataBlocks_iff (hw : w = 32 ∨ w = 64) (hs : ws = w ∨ ws = 64) (h : Accepted w b) (usefree : Bool) (f : FsInfo) :
    (∀ c : ℕ, 2 ≤ c → c < b.totalClusters w + 2 → ∀ i < b.secPerClus.toNat,
      b.dataStart w ≤ ((b.sbInfo w usefree f).clusToBlknr ws c + i) % 2 ^ ws ∧
      ((b.sbInfo w usefree f).clusToBlknr ws c + i) % 2 ^ ws < b.totalSectors) ↔
    b.dataStart w ≤ b.totalSectors ∨ b.dataClusters w = 0 := by
  have hpow : 2 ^ w ≤ 2 ^ ws := Nat.pow_le_pow_right Nat.two_pos (by omega)
  have hpow32 : 2 ^ 32 ≤ 2 ^ w := Nat.pow_le_pow_right Nat.two_pos (by omega)
  have hds : b.dataStart w < 2 ^ w := Nat.mod_lt _ (Nat.two_pow_pos w)
  have htotal := totalSectors_lt b
  constructor
  · intro hall
    by_cases hz : b.dataClusters w = 0
    · exact Or.inr hz
    · left
      have hz' := (totalClusters_eq_zero hw h).not.2 hz
      obtain ⟨j, -, hj⟩ := h.secPerClus
      have hfirst := (hall 2 le_rfl (by omega) 0 (by rw [hj]; exact Nat.two_pow_pos j)).2
      rw [clusToBlknr_spec le_rfl, Nat.sub_self, Nat.zero_mul, Nat.zero_add, Nat.add_zero,
        Nat.mod_eq_of_lt (by omega)] at hfirst
      exact hfirst.le
  · intro hcase c h2 hc i hi
    have hle := totalClusters_le w b
    have hin : b.dataStart w ≤ b.totalSectors := by
      rcases hcase with hin | hz
      · exact hin
      · omega
    have hmul := dataClusters_mul_le hw hin
    have hblk : (c - 2) * b.secPerClus.toNat + i < b.dataClusters w * b.secPerClus.toNat := by
      have hsucc : (c - 2 + 1) * b.secPerClus.toNat ≤ b.dataClusters w * b.secPerClus.toNat :=
        Nat.mul_le_mul_right _ (by omega)
      rw [Nat.add_mul, Nat.one_mul] at hsucc
      omega
    rw [clusToBlknr_spec h2, Nat.mod_eq_of_lt (by omega)]
    omega

end

/-! ## Results -/

/-- **Mount-time validation.** An accepted boot sector gives a valid volume exactly when its data region starts inside the
volume, or is so far behind its end that the count of clusters is cut to 0, and when the bits of its FAT are not a multiple
of `2 ^ w`, or the FAT holds an entry for every cluster of the volume all the same. -/
theorem mounted_valid_iff {w ws : ℕ} (hw : w = 32 ∨ w = 64) (hs : ws = w ∨ ws = 64) {env : MountEnv} {b : BootSector}
    {f : FsInfo} {sbi : SbInfo} (hok : fatFillSuper w env b f = .ok sbi) :
    MountValid ws b sbi ↔ (b.dataStart w ≤ b.totalSectors ∨ b.dataClusters w = 0) ∧
      (b.fat32Length.toNat * b.sectorSize.toNat * 8 % 2 ^ w ≠ 0 ∨
        b.dataClusters w + 2 ≤ b.fat32Length.toNat * b.sectorSize.toNat / 4) := by
  obtain ⟨h, rfl⟩ := fatFillSuper_ok hok
  obtain ⟨k, hk9, hk12, hk⟩ := h.sectorSize
  obtain ⟨j, hj7, hj⟩ := h.secPerClus
  rw [← dataBlocks_iff hw hs h env.usefree f, ← entries_iff hw h,
    ← fatWords_iff (show 32 ≤ ws by omega) h env.usefree f]
  constructor
  · intro hv
    exact ⟨hv.dataBlocks, hv.fatWord⟩
  · rintro ⟨hdata, hword⟩
    have hsize : b.sectorSize.toNat * b.secPerClus.toNat = 2 ^ (k + j) := by rw [hk, hj, pow_add]
    have hlt : b.sectorSize.toNat * b.secPerClus.toNat < 2 ^ 32 := by
      rw [hsize]
      exact Nat.pow_lt_pow_right (by norm_num) (by omega)
    refine ⟨⟨k, hk9, hk12, hk⟩, ⟨Nat.mod_eq_of_lt hlt, ?_⟩, ?_, hword, hdata⟩
    · change b.sectorSize.toNat * b.secPerClus.toNat % 2 ^ 32 = 2 ^ (ffs (b.sectorSize.toNat * b.secPerClus.toNat % 2 ^ 32) - 1)
      rw [Nat.mod_eq_of_lt hlt, hsize, ffs_two_pow (by omega), Nat.add_sub_cancel]
    · simp only [BootSector.sbInfo]
      split_ifs <;> omega

/-- a volume of `total` sectors of 512 bytes, with one FAT of 100 sectors behind its boot sector -/
def smallBoot (total : UInt32) : BootSector where
  sectorSize := 512
  secPerClus := 1
  reserved := 1
  fats := 1
  dirEntries := 0
  sectors := 0
  media := 0xf8
  fatLength := 0
  totalSect := total
  fat32Length := 100
  rootCluster := 2
  infoSector := 1

/-- a device with blocks of 512 bytes on which nothing fails -/
def goodMount : MountEnv := ⟨512, true, true, true, true, false, 0⟩

theorem smallBoot_accepted (total : UInt32) (h : ¬ MAX_FAT32 < (smallBoot total).totalClusters 64) :
    fatFillSuper 64 goodMount (smallBoot total) ⟨0, 0, 0, 0⟩ = .ok ((smallBoot total).sbInfo 64 false ⟨0, 0, 0, 0⟩) := by
  unfold fatFillSuper
  apply check_pass (show ¬ true = false by decide)
  apply check_pass (show ¬ (1 : UInt16) = 0 by decide)
  apply check_pass (show ¬ (1 : UInt8) = 0 by decide)
  apply check_pass (show ¬ ¬ fatValidMedia 0xf8 by decide)
  apply check_pass (show ¬ (¬ isPowerOf2 512 ∨ 512 < 512 ∨ 4096 < 512) by decide)
  apply check_pass (show ¬ ¬ isPowerOf2 1 by decide)
  apply check_pass (show ¬ 512 < 512 by decide)
  apply check_pass (show ¬ (512 < 512 ∧ true = false) by decide)
  apply check_pass (show ¬ (512 < 512 ∧ true = false) by decide)
  apply check_pass (fun h => Bool.noConfusion h.2)
  apply check_pass (show ¬ 0 &&& (512 / 32 - 1) ≠ 0 by decide)
  apply check_pass (show ¬ ¬ ((0 : UInt16) = 0 ∧ (100 : UInt32) ≠ 0) by decide)
  exact check_pass h (check_pass (show ¬ (0 : ℤ) ≠ 0 by decide) rfl)

theorem mounted_valid_small : MountValid 64 (smallBoot 10000) ((smallBoot 10000).sbInfo 64 false ⟨0, 0, 0, 0⟩) :=
  (mounted_valid_iff (w := 64) (Or.inr rfl) (Or.inr rfl) (smallBoot_accepted _ (by decide))).2
    ⟨Or.inl (by decide), Or.inl (by decide)⟩

/-- a volume of one sector with a FAT of 100: `total_sectors - data_start` wraps, the volume is accepted with 12798
clusters, and the first of them is in sector 101 -/
theorem mount_not_valid : ¬ ∀ (w ws : ℕ) (env : MountEnv) (b : BootSector) (f : FsInfo) (sbi : SbInfo), w = 32 ∨ w = 64 →
    ws = w ∨ ws = 64 → fatFillSuper w env b f = .ok sbi → MountValid ws b sbi := by
  intro h
  have hok := smallBoot_accepted 1 (by decide)
  have hvalid := h 64 64 goodMount (smallBoot 1) _ _ (Or.inr rfl) (Or.inr rfl) hok
  rcases ((mounted_valid_iff (Or.inr rfl) (Or.inr rfl) hok).1 hvalid).1 with h1 | h2
  · exact absurd h1 (by decide)
  · exact absurd h2 (by decide)

/-! ## The super block of the other modules -/

/-- `sb` has the fields that the mount computed, and the same addresses -/
structure FatSb.Mounts (sb : FatSb) (sbi : SbInfo) : Prop where
  blocksize : sb.blocksize = sbi.blocksize
  secPerClus : sb.secPerClus = sbi.secPerClus
  fatStart : sb.fatStart = sbi.fatStart
  fatLength : sb.fatLength = sbi.fatLength
  fats : sb.fats = sbi.fats
  dataStart : sb.dataStart = sbi.dataStart
  maxCluster : sb.maxCluster = sbi.maxCluster
  rootCluster : sb.rootCluster = sbi.rootCluster
  entBlocknr : ∀ c, fatEntBlocknr sb c = sbi.entBlocknr 64 c
  clusToBlknr : ∀ c, fatClusToBlknr sb c = sbi.clusToBlknr 64 c

/-- **Every volume that a 64-bit kernel mounts has a `FatSb`.** -/
theorem fatFillSuper_fatSb {env : MountEnv} {b : BootSector} {f : FsInfo} {sbi : SbInfo}
    (hok : fatFillSuper 64 env b f = .ok sbi) (synchronous : Bool) :
    ∃ sb : FatSb, sb.Mounts sbi ∧ sb.synchronous = synchronous := by
  obtain ⟨h, rfl⟩ := fatFillSuper_ok hok
  obtain ⟨k, hk9, hk12, hk⟩ := h.sectorSize
  obtain ⟨j, hj7, hj⟩ := h.secPerClus
  have hres := b.reserved.toNat_lt
  have hfats := b.fats.toNat_lt
  have hfl := b.fat32Length.toNat_lt
  have hroot := b.dirEntries.toNat_lt
  have hmul : b.fats.toNat * b.fat32Length.toNat ≤ 2 ^ 8 * 2 ^ 32 := Nat.mul_le_mul hfats.le hfl.le
  have hdiv : b.dirEntries.toNat * 32 / b.sectorSize.toNat ≤ b.dirEntries.toNat * 32 := Nat.div_le_self _ _
  have hdata : b.dataStart 64 = b.reserved.toNat + b.fats.toNat * b.fat32Length.toNat +
      b.dirEntries.toNat * 32 / b.sectorSize.toNat := by
    unfold BootSector.dataStart BootSector.dirStart
    rw [Nat.mod_eq_of_lt (show b.reserved.toNat + b.fats.toNat * b.fat32Length.toNat < 2 ^ 64 by omega),
      Nat.mod_eq_of_lt (by omega)]
  have hentries : b.totalClusters 64 + 2 ≤ b.fat32Length.toNat * b.sectorSize.toNat / 4 := by
    refine (entries_iff (Or.inr rfl) h).2 (Or.inl ?_)
    have hfl0 := h.fat32Length
    rw [hk]
    interval_cases k <;> omega
  refine ⟨⟨k, j, b.reserved.toNat, b.fat32Length.toNat, b.fats.toNat, b.dataStart 64, b.totalClusters 64 + 2,
    b.rootCluster.toNat, synchronous, hk9, hk12, hj7, Nat.pos_of_ne_zero h.reserved, hres, Nat.pos_of_ne_zero h.fats, hfats,
    hfl, by rw [hdata]; exact Nat.le_add_right _ _, by omega, by rw [← hk]; omega, by omega, Nat.add_le_add_right h.totalClusters 2⟩,
    ⟨hk.symm, hj.symm, rfl, rfl, rfl, rfl, rfl, rfl, fun c => ?_, fun c => ?_⟩, rfl⟩
  · unfold fatEntBlocknr SbInfo.entBlocknr FatSb.blocksize ulong
    simp only [BootSector.sbInfo, hk]
  · unfold fatClusToBlknr SbInfo.clusToBlknr FatSb.secPerClus ulong
    simp only [BootSector.sbInfo, hj]

end AtsLdd.Fat
