/-
Walking a chain to an index or to its end: `fat_get_cluster` (fat_cache.c) on every FAT, and `fat_calc_dir_size`
(fat_inode.c), which makes the size of a directory of the index of its last cluster.

- `fatGetCluster_walks`: a walk is over after `limit + 2` steps; it comes to the end of a chain that is not too long, and
  answers -EIO at a free entry before the index, and on a cycle;
- `dirSize_right_iff`: the size of a directory is that of its clusters exactly when it fits an `int`;
- `dirSize_overflows`: a directory of 4096 clusters of 512 KiB.
-/
import AtsLdd.Fat.ChainAdd

namespace AtsLdd.Fat

open AtsLdd.Machine AtsLdd.Chain AtsLdd.LinkTable

/-! ## `fat_get_cluster` -/

/-- what a call of `fat_get_cluster` for index `cluster` comes to, `limit` being `clusterLimit` -/
structure WalksRight (env : Env) (sb : FatSb) (s : St) (start cluster : ℤ) (r : GetCluster) : Prop where
  /-- the loop ends by itself within `limit + 2` steps -/
  steps : ∀ fuel, clusterLimit sb + 2 ≤ fuel → fatGetClusterLoop env sb cluster fuel s 0 start = r
  lookups : (lookups (accesses s r.s)).length ≤ clusterLimit sb + 1
  /-- a chain of `k + 1` clusters, walked to its end -/
  last : ∀ k d, nth (fatSucc sb s.vol) start k = some d → fatLink sb s.vol d = FAT_ENT_EOF → k ≤ clusterLimit sb →
    cluster = FAT_ENT_EOF → r.ret = 0 ∧ r.fclus = k ∧ r.dclus = d
  free : ∀ k d, nth (fatSucc sb s.vol) start k = some d → fatLink sb s.vol d = FAT_ENT_FREE → k < cluster → r.ret = - EIO
  cyclic : Cyclic (fatSucc sb s.vol) start → clusterLimit sb + 1 < cluster → r.ret = - EIO

section
variable {env : Env} {sb : FatSb} {s : St} {start cluster : ℤ}

/-- the loop does not depend on its fuel, when that is enough -/
theorem fatGetClusterLoop_fuel (env : Env) (sb : FatSb) (cluster : ℤ) (fuel : ℕ) : ∀ (fuel' fclus : ℕ) (s : St) (dclus : ℤ),
    fclus ≤ clusterLimit sb + 1 → clusterLimit sb + 2 ≤ fuel + fclus → clusterLimit sb + 2 ≤ fuel' + fclus →
    fatGetClusterLoop env sb cluster fuel' s fclus dclus = fatGetClusterLoop env sb cluster fuel s fclus dclus := by
  induction fuel with
  | zero =>
    intro fuel' fclus s dclus hf hfuel
    omega
  | succ fuel ih =>
    intro fuel' fclus s dclus hf hfuel hfuel'
    obtain ⟨fuel', rfl⟩ := Nat.exists_eq_add_of_lt (show 0 < fuel' by omega)
    rw [Nat.zero_add, fatGetClusterLoop, fatGetClusterLoop]
    by_cases hdone : cluster ≤ fclus
    · rw [if_pos hdone, if_pos hdone]
    rw [if_neg hdone, if_neg hdone]
    by_cases hlimit : clusterLimit sb < fclus
    · rw [if_pos hlimit, if_pos hlimit]
    rw [if_neg hlimit, if_neg hlimit]
    rcases fatentNextSb env sb s dclus with ⟨_ | nclus, s1⟩
    · rfl
    · simp only
      rw [ih fuel' (fclus + 1) s1 nclus (by omega) (by omega) (by omega)]

/-- where a walk to an index behind a cluster without a link gets, if it gets there at all -/
theorem Walk.stops_at {n m k : ℕ} {es : List Access} {d c : ℤ} (w : Walk sb s.vol start n es d m) (hno : NoFailure es)
    (hc : nth (fatSucc sb s.vol) start k = some c) (hend : ¬ IsLink (fatLink sb s.vol c)) (hk : k < n) : m = k ∧ d = c := by
  have hnext : nth (fatSucc sb s.vol) start (k + 1) = none := by
    rw [nth_succ, hc]
    exact fatSucc_end hend
  have hreach := w.reached
  have hle : m ≤ k := by
    by_contra hlt
    exact nth_mono (show k + 1 ≤ m from not_le.1 hlt) (by rw [hreach]; simp) hnext
  have hge : k ≤ m := by
    by_contra hlt
    rcases w.stopped (show m < n by omega) with hbad | ⟨-, -, hlast⟩
    · exact hbad hno
    · apply nth_mono (show m + 1 ≤ k from not_le.1 hlt) (by rw [hc]; simp)
      rw [nth_succ, hreach]
      exact fatSucc_end hlast
  have hm := le_antisymm hle hge
  rw [hm, hc] at hreach
  exact ⟨hm, (Option.some.inj hreach).symm⟩

/-- a walk to the end of a chain, unless a read fails -/
theorem fatGetClusterLoop_last (env : Env) {k : ℕ} {d : ℤ} (hk : nth (fatSucc sb s.vol) start k = some d)
    (heof : fatLink sb s.vol d = FAT_ENT_EOF) (hlen : k ≤ clusterLimit sb) {r : GetCluster}
    (hr : fatGetClusterLoop env sb FAT_ENT_EOF (clusterLimit sb + 2) s 0 start = r) :
    ((∀ t b, env.bread t b = true) → r.ret = 0) ∧ (r.ret = 0 ∧ r.fclus = k ∧ r.dclus = d ∨ r.ret = - EIO) := by
  obtain ⟨es, m, w, hfc, -, -, hok, -, hstop, hbad⟩ := fatGetClusterLoop_walk env sb FAT_ENT_EOF (clusterLimit sb + 2) s 0 start
    r (Nat.zero_le _) (Nat.le_refl _) hr
  have hsteps := stepsLeft_eof sb
  have hlt : k < stepsLeft sb FAT_ENT_EOF 0 := by
    rw [hsteps]
    exact Nat.lt_succ_of_le hlen
  by_cases hno : NoFailure es
  · obtain ⟨hm, hd⟩ := w.stops_at hno hk (fun h => h.2 heof) hlt
    have hret := hstop (by rw [hm]; exact hlt) hno
    rw [hd, if_pos heof] at hret
    exact ⟨fun _ => hret, Or.inl ⟨hret, by rw [hfc, hm, Nat.zero_add], hd⟩⟩
  · exact ⟨fun h => absurd (hok.2 (.of_all h)) hno, Or.inr (hbad hno)⟩

/-- **Walking a chain** of any FAT, when its blocks can be read. -/
theorem fatGetCluster_walks (env : Env) (hread : ∀ t b, env.bread t b = true) (sb : FatSb) (s : St) (ino : Inode)
    (hstart : ino.iStart ≠ 0) (cluster : ℤ) :
    ∃ r, fatGetCluster env sb s ino cluster = some r ∧ WalksRight env sb s ino.iStart cluster r := by
  refine ⟨_, if_neg hstart, ?_⟩
  obtain ⟨es, m, w, hfc, -, hlog, hok, hret, hstop, -⟩ := fatGetClusterLoop_walk env sb cluster (clusterLimit sb + 2) s 0
    ino.iStart _ (Nat.zero_le _) (Nat.le_refl _) rfl
  have hno := hok.2 (.of_all hread)
  have hleft : stepsLeft sb cluster 0 = min cluster.toNat (clusterLimit sb + 1) := by
    unfold stepsLeft
    simp
  rw [hleft] at w hret hstop
  refine ⟨fun fuel hfuel => ?_, ?_, ?_, ?_, ?_⟩
  · exact fatGetClusterLoop_fuel env sb cluster (clusterLimit sb + 2) fuel 0 s ino.iStart (Nat.zero_le _) le_rfl hfuel
  · rw [accesses_eq hlog]
    exact w.lookups_le.trans (Nat.min_le_right _ _)
  · rintro k d hk heof hlen rfl
    obtain ⟨hzero, hcase⟩ := fatGetClusterLoop_last env hk heof hlen rfl
    apply hcase.resolve_right
    intro herr
    rw [hzero hread] at herr
    exact absurd herr (by decide)
  · intro k d hk hfree hlt
    by_cases hlim : k < clusterLimit sb + 1
    · have hkn : k < min cluster.toNat (clusterLimit sb + 1) := lt_min (by omega) hlim
      obtain ⟨hm, hd⟩ := w.stops_at hno hk (fun h => h.1 hfree) hkn
      rw [hstop (by rw [hm]; exact hkn) hno, hd, if_neg]
      rw [hfree]
      decide
    · -- the limit comes before the free entry
      have hmin : min cluster.toNat (clusterLimit sb + 1) = clusterLimit sb + 1 := Nat.min_eq_right (by omega)
      rw [hmin] at w hret
      have hm := w.complete hno (nth_mono (not_lt.1 hlim) (by rw [hk]; simp))
      rw [hret hm, hfc, hm, if_neg (by omega)]
  · intro hcyc hlt
    have hmin : min cluster.toNat (clusterLimit sb + 1) = clusterLimit sb + 1 := Nat.min_eq_right (by omega)
    rw [hmin] at w hret
    have hm := w.complete hno (hcyc.nth_ne_none _)
    rw [hret hm, hfc, hm, if_neg (by omega)]

end

/-- a walk along the chain 3, 4, 5 -/
theorem fatGetCluster_walks_tiny : ∃ r, fatGetCluster goodEnv tinySb (St.idle (tinyVol (· + 1))) ⟨3, 0⟩ 2 = some r ∧
    WalksRight goodEnv tinySb (St.idle (tinyVol (· + 1))) 3 2 r :=
  fatGetCluster_walks goodEnv (fun _ _ => rfl) tinySb (St.idle (tinyVol (· + 1))) ⟨3, 0⟩ (by decide) 2

/-! ## The size of a directory -/

/-- what `fat_calc_dir_size` leaves: 0 or -EIO, and `i_size`, a signed number -/
structure CalcDirSize where
  ret : ℤ
  iSize : ℤ
  s : St

/-- `fat_calc_dir_size`; `none` is the `BUG_ON` of `fat_get_cluster`. The index is shifted as an `int`. -/
def fatCalcDirSize (env : Env) (sb : FatSb) (s : St) (ino : Inode) : Option CalcDirSize :=
  if ino.iStart = 0 then some ⟨0, 0, s⟩
  else
    match fatGetCluster env sb s ino FAT_ENT_EOF with
    | none => none
    | some r =>
      if r.ret < 0 then some ⟨r.ret, 0, r.s⟩ else some ⟨0, int32 ((r.fclus + 1 : ℕ) * 2 ^ sb.clusterBits), r.s⟩

/-- `last_block` of `fat_bmap`: the number of blocks below `i_size`, to which an `unsigned long` of 64 bits is added -/
def lastBlock (sb : FatSb) (iSize : ℤ) : ℕ := ulong (iSize + (sb.blocksize - 1)) / 2 ^ sb.blocksizeBits

/-- the size is that of `n` clusters, and the blocks below it are theirs -/
structure DirSizeRight (sb : FatSb) (n : ℕ) (iSize : ℤ) : Prop where
  size : iSize = n * sb.clusterSize
  pos : 0 < iSize
  blocks : ∀ sector, sector < lastBlock sb iSize ↔ sector < n * sb.secPerClus

section
variable {env : Env} {sb : FatSb} {s : St} {ino : Inode}

/-- it is the bound that `fat_bmap` computes -/
theorem lastBlock_natCast (sb : FatSb) {size : ℕ} (h : size < 2 ^ 63) :
    lastBlock sb size = (size + (sb.blocksize - 1)) / 2 ^ sb.blocksizeBits := by
  have hpos := sb.blocksize_pos
  have hmax := sb.blocksize_max
  have hcast : (size : ℤ) + (sb.blocksize - 1) = ((size + (sb.blocksize - 1) : ℕ) : ℤ) := by
    rw [Nat.cast_add, Nat.cast_sub hpos, Nat.cast_one]
  unfold lastBlock
  rw [hcast, ulong_natCast (by omega)]

theorem dirSizeRight_of_eq {n : ℕ} (hn : 0 < n) (h : n * sb.clusterSize < 2 ^ 31) : DirSizeRight sb n (n * sb.clusterSize) := by
  have hcast : (n : ℤ) * sb.clusterSize = ((n * sb.clusterSize : ℕ) : ℤ) := (Nat.cast_mul _ _).symm
  refine ⟨rfl, ?_, fun sector => ?_⟩
  · rw [hcast]
    exact Int.natCast_pos.2 (Nat.mul_pos hn sb.clusterSize_pos)
  · have hmul : n * sb.clusterSize = sb.blocksize * (n * sb.secPerClus) := by
      unfold FatSb.clusterSize
      ring
    have hpos := sb.blocksize_pos
    rw [hcast, lastBlock_natCast sb (by omega), hmul]
    change sector < (sb.blocksize * (n * sb.secPerClus) + (sb.blocksize - 1)) / sb.blocksize ↔ _
    rw [Nat.mul_add_div hpos, Nat.div_eq_of_lt (by omega), Nat.add_zero]

/-- a walk to the end that is accepted has counted the whole chain -/
theorem fatGetCluster_accepts {k : ℕ} {d : ℤ} (hk : nth (fatSucc sb s.vol) ino.iStart k = some d)
    (heof : fatLink sb s.vol d = FAT_ENT_EOF) {r : GetCluster} (hr : fatGetCluster env sb s ino FAT_ENT_EOF = some r)
    (hacc : r.ret = 0) : r.fclus = k := by
  have hstart : ino.iStart ≠ 0 := by
    intro h0
    rw [fatGetCluster, if_pos h0] at hr
    cases hr
  rw [fatGetCluster, if_neg hstart, Option.some.injEq] at hr
  obtain ⟨es, m, w, hfc, -, -, -, hret, hstop, hbad⟩ := fatGetClusterLoop_walk env sb FAT_ENT_EOF (clusterLimit sb + 2) s 0
    ino.iStart r (Nat.zero_le _) (Nat.le_refl _) hr
  have hlim := clusterLimit_lt_eof sb
  have hsteps := stepsLeft_eof sb
  have herr : ¬ (r.ret = - EIO) := by
    rw [hacc]
    decide
  have hno : NoFailure es := by
    by_contra hno
    exact herr (hbad hno)
  rw [hsteps] at w hret hstop
  have hlt : m < clusterLimit sb + 1 := by
    refine lt_of_le_of_ne w.le fun hm => herr ?_
    rw [hret hm, hfc, hm, if_neg (by omega)]
  have hend : fatLink sb s.vol r.dclus = FAT_ENT_EOF := by
    by_contra hne
    apply herr
    rw [hstop hlt hno, if_neg hne]
  have hnext : nth (fatSucc sb s.vol) ino.iStart (m + 1) = none := by
    rw [nth_succ, w.reached]
    exact fatSucc_end fun h => h.2 hend
  have hkm : k ≤ m := by
    by_contra hgt
    exact nth_mono (show m + 1 ≤ k from not_le.1 hgt) (by rw [hk]; simp) hnext
  obtain ⟨hm, -⟩ := w.stops_at hno hk (fun h => h.2 heof) (by omega)
  rw [hfc, hm, Nat.zero_add]

/-- the index of the last cluster is shifted -/
theorem fatCalcDirSize_accepts {k : ℕ} {d : ℤ} (hstart : ino.iStart ≠ 0)
    (hk : nth (fatSucc sb s.vol) ino.iStart k = some d) (heof : fatLink sb s.vol d = FAT_ENT_EOF) {r : GetCluster}
    (hr : fatGetCluster env sb s ino FAT_ENT_EOF = some r) (hacc : r.ret = 0) :
    fatCalcDirSize env sb s ino = some ⟨0, int32 ((k + 1 : ℕ) * 2 ^ sb.clusterBits), r.s⟩ := by
  have hfc := fatGetCluster_accepts hk heof hr hacc
  unfold fatCalcDirSize
  rw [if_neg hstart, hr]
  simp only [hacc, lt_irrefl, if_false, hfc]

/-- **The size of a directory**, whose chain of `k + 1` clusters `fat_get_cluster` accepts, is right exactly when it fits an
`int`. -/
theorem dirSize_right_iff {k : ℕ} {d : ℤ} (hstart : ino.iStart ≠ 0) (hk : nth (fatSucc sb s.vol) ino.iStart k = some d)
    (heof : fatLink sb s.vol d = FAT_ENT_EOF) {r : GetCluster} (hr : fatGetCluster env sb s ino FAT_ENT_EOF = some r)
    (hacc : r.ret = 0) :
    ∃ c, fatCalcDirSize env sb s ino = some c ∧ (DirSizeRight sb (k + 1) c.iSize ↔ (k + 1) * sb.clusterSize < 2 ^ 31) := by
  refine ⟨_, fatCalcDirSize_accepts hstart hk heof hr hacc, ?_⟩
  have hcast : ((k + 1 : ℕ) : ℤ) * 2 ^ sb.clusterBits = (((k + 1) * sb.clusterSize : ℕ) : ℤ) := by
    rw [sb.clusterSize_eq]
    push_cast
    rfl
  simp only [hcast]
  constructor
  · intro h
    have hsize := h.size
    have hbound := (int32_bounds (((k + 1) * sb.clusterSize : ℕ) : ℤ)).2
    rw [hsize, ← Nat.cast_mul] at hbound
    omega
  · intro hlt
    have hpos := Nat.succ_pos k
    have hfits : int32 (((k + 1) * sb.clusterSize : ℕ) : ℤ) = ((k + 1 : ℕ) : ℤ) * sb.clusterSize := by
      rw [int32_of_bounds (by omega) (by omega)]
      exact Nat.cast_mul _ _
    rw [hfits]
    exact dirSizeRight_of_eq hpos hlt

end

/-! ## Volumes with given FAT words -/

/-- a volume whose FAT holds the words `words`, and whose other blocks are as they come -/
def wordsVol (sb : FatSb) (words : ℕ → ℕ) : Vol :=
  fun b i => UInt8.ofNat (words (((b - sb.fatStart) * sb.blocksize + i) / 4) / 2 ^ (8 * (i % 4)))

/-- one chain, of the clusters `a` to `z` in a row; the others are free -/
def rowWords (a z k : ℕ) : ℕ := if a ≤ k ∧ k < z then k + 1 else if k = z then EOF_FAT32.toNat else 0

section
variable {sb : FatSb} {words : ℕ → ℕ} {a z k : ℕ}

theorem fatVal_wordsVol (hk : k < sb.maxCluster) (hword : words k < 2 ^ 28) : fatVal sb (wordsVol sb words) k = words k := by
  obtain ⟨heq, -⟩ := fatEntBlocknr_spec sb hk
  obtain ⟨q, hq⟩ := sb.four_dvd_blocksize
  have hbyte : ∀ j < 4, wordsVol sb words (sb.fatStart + 4 * k / sb.blocksize) (4 * k % sb.blocksize + j) =
      UInt8.ofNat (words k / 2 ^ (8 * j)) := by
    intro j hj
    have hdm := Nat.div_add_mod (4 * k) sb.blocksize
    have hidx : ((sb.fatStart + 4 * k / sb.blocksize - sb.fatStart) * sb.blocksize + (4 * k % sb.blocksize + j)) / 4 = k := by
      rw [Nat.add_sub_cancel_left, Nat.mul_comm, ← Nat.add_assoc, hdm]
      omega
    have hmod : (4 * k % sb.blocksize + j) % 4 = j := by
      rw [hq, Nat.mul_mod_mul_left]
      omega
    unfold wordsVol
    rw [hidx, hmod]
  have h0 := hbyte 0 (by norm_num)
  rw [Nat.add_zero] at h0
  unfold fatVal fatWord
  rw [heq]
  simp only [le32]
  rw [h0, hbyte 1 (by norm_num), hbyte 2 (by norm_num), hbyte 3 (by norm_num)]
  simp only [UInt8.toNat_ofNat']
  generalize words k = w at hword
  norm_cast
  omega

theorem rowWords_lt (hz : z < 2 ^ 28 - 1) (hk : k < 2 ^ 28) : rowWords a z k < 2 ^ 28 := by
  unfold rowWords
  split_ifs
  · omega
  · decide
  · norm_num

/-- the link of the last one -/
theorem row_last (a : ℕ) (hz : z < sb.maxCluster) :
    fatLink sb (wordsVol sb (rowWords a z)) z = FAT_ENT_EOF := by
  have hword : rowWords a z z = EOF_FAT32.toNat := by
    unfold rowWords
    rw [if_neg (fun h => absurd h.2 (lt_irrefl z)), if_pos rfl]
  rw [fatLink_eq, fatVal_wordsVol hz (by rw [hword]; decide), hword]
  decide

/-- the link of one of the others -/
theorem row_next (hak : a ≤ k) (hkz : k < z) (hz : z < sb.maxCluster) (hbad : (z : ℤ) < BAD_FAT32) :
    fatLink sb (wordsVol sb (rowWords a z)) k = (k + 1 : ℕ) := by
  have hmax := sb.maxCluster_max
  unfold MAX_FAT32 at hmax
  unfold BAD_FAT32 at hbad
  have hword : rowWords a z k = k + 1 := if_pos ⟨hak, hkz⟩
  have hval : fatVal sb (wordsVol sb (rowWords a z)) k = (k + 1 : ℕ) := by
    rw [fatVal_wordsVol (by omega) (rowWords_lt (by omega) (by omega)), hword]
  rw [fatLink_eq, hval]
  apply readBack_of_lt
  unfold BAD_FAT32
  omega

/-- **Clusters in a row** are a chain, when none of the links has the number of the bad mark. -/
theorem row_path (ha : 2 ≤ a) (hz : z < sb.maxCluster) (hbad : (z : ℤ) < BAD_FAT32) (n : ℕ) : ∀ k : ℕ, a ≤ k → k + n = z →
    Path (table sb (wordsVol sb (rowWords a z))) k ((List.range' k (n + 1)).map fun i : ℕ => (i : ℤ)) := by
  have hin : ∀ k : ℕ, a ≤ k → k ≤ z → InRange sb k := by
    intro k hak hkz
    unfold InRange FAT_START_ENT
    omega
  induction n with
  | zero =>
    intro k hak hk
    obtain rfl : k = z := hk
    exact .last ((table_eq_last (hin k hak le_rfl)).2 (row_last a hz))
  | succ n ih =>
    intro k hak hk
    have hnext : table sb (wordsVol sb (rowWords a z)) k = .next ((k + 1 : ℕ) : ℤ) := by
      have hlink := row_next hak (show k < z by omega) hz hbad
      rw [table_of_inRange (hin k hak (by omega)), hlink, toLink, if_neg, if_neg]
      · unfold FAT_ENT_EOF
        unfold BAD_FAT32 at hbad
        omega
      · unfold FAT_ENT_FREE
        omega
    exact .next hnext (ih (k + 1) (by omega) (by omega))

end

/-! ## Results on fixed volumes -/

/-- 4096-byte blocks, 128 a cluster, one FAT of 5 blocks, clusters 2 to 4999 -/
def wideSb : FatSb := .at1 12 7 5 1 6 5000 (by decide)

/-- the clusters 2 to `k + 2` are one chain -/
def wideRow (k : ℕ) : St := St.idle (wordsVol wideSb (rowWords 2 (k + 2)))

/-- the end of that chain, and the walk to it -/
theorem wideRow_end {k : ℕ} (hk : k < 4998) : nth (fatSucc wideSb (wideRow k).vol) 2 k = some ((k + 2 : ℕ) : ℤ) ∧
    fatLink wideSb (wideRow k).vol (k + 2 : ℕ) = FAT_ENT_EOF ∧
    (fatGetClusterLoop goodEnv wideSb FAT_ENT_EOF (clusterLimit wideSb + 2) (wideRow k) 0 2).ret = 0 := by
  have hz : k + 2 < wideSb.maxCluster := Nat.add_lt_add_right hk 2
  have hbad : ((k + 2 : ℕ) : ℤ) < BAD_FAT32 := by
    unfold BAD_FAT32
    omega
  have p : Path (table wideSb (wideRow k).vol) 2 ((List.range' 2 (k + 1)).map fun i : ℕ => (i : ℤ)) :=
    row_path le_rfl hz hbad k 2 le_rfl (Nat.add_comm 2 k)
  have hnth : nth (fatSucc wideSb (wideRow k).vol) 2 k = some ((k + 2 : ℕ) : ℤ) := by
    rw [nth_path p, List.getElem?_map, List.getElem?_range' (Nat.lt_succ_self k), Option.map_some, Nat.one_mul, Nat.add_comm]
  have heof : fatLink wideSb (wideRow k).vol (k + 2 : ℕ) = FAT_ENT_EOF := row_last 2 hz
  have hlen : k ≤ clusterLimit wideSb := le_trans hk.le (by decide)
  exact ⟨hnth, heof, (fatGetClusterLoop_last goodEnv hnth heof hlen rfl).1 fun _ _ => rfl⟩

theorem wideRow_size {k : ℕ} (hk : k < 4998) : fatCalcDirSize goodEnv wideSb (wideRow k) ⟨2, 0⟩ =
    some ⟨0, int32 ((k + 1 : ℕ) * 2 ^ wideSb.clusterBits),
      (fatGetClusterLoop goodEnv wideSb FAT_ENT_EOF (clusterLimit wideSb + 2) (wideRow k) 0 2).s⟩ := by
  obtain ⟨hnth, heof, hret⟩ := wideRow_end hk
  exact fatCalcDirSize_accepts (by decide) hnth heof rfl hret

/-- a directory of two clusters of 512 KiB -/
theorem dirSize_right_two : ∃ c, fatCalcDirSize goodEnv wideSb (wideRow 1) ⟨2, 0⟩ = some c ∧
    (DirSizeRight wideSb 2 c.iSize ↔ 2 * wideSb.clusterSize < 2 ^ 31) :=
  dirSize_right_iff (show (2 : ℤ) ≠ 0 by decide) (wideRow_end (by decide)).1
    (wideRow_end (by decide)).2.1 rfl (wideRow_end (by decide)).2.2

/-- a directory of 4096 clusters of 512 KiB: `4096 << 19` is negative as an `int` -/
theorem dirSize_overflows : ¬ ∀ (env : Env) (sb : FatSb) (s : St) (ino : Inode) (k : ℕ) (d : ℤ) (r : GetCluster),
    ino.iStart ≠ 0 → nth (fatSucc sb s.vol) ino.iStart k = some d → fatLink sb s.vol d = FAT_ENT_EOF →
    fatGetCluster env sb s ino FAT_ENT_EOF = some r → r.ret = 0 →
    ∃ c, fatCalcDirSize env sb s ino = some c ∧ DirSizeRight sb (k + 1) c.iSize := by
  intro hall
  obtain ⟨hk, heof, hret⟩ := wideRow_end (show 4095 < 4998 by norm_num)
  obtain ⟨c, hcalc, hright⟩ := hall goodEnv wideSb (wideRow 4095) ⟨2, 0⟩ 4095 _ _ (by decide) hk heof rfl hret
  rw [wideRow_size (show 4095 < 4998 by norm_num), Option.some.injEq] at hcalc
  have hpos := hright.pos
  rw [← hcalc] at hpos
  exact absurd hpos (by decide)

end AtsLdd.Fat
