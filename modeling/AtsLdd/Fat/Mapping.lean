/-
The two mappings from a byte of a file to a block of the volume: the one of the read path, and `fat_bmap`.

The read path stays in the first cluster, whatever the position; `fat_bmap` walks the chain. At an EOF mark before the
cluster asked for, `fat_get_cluster` answers 0, and `fat_bmap_cluster`, which tests its answer for FAT_ENT_EOF, takes the
last cluster for the one asked for; the read path answers -EIO behind a first cluster that is marked EOF.

- `ncluster2block_eq`: the two translations of a cluster to a block are the same;
- `agree_first`, `agree_end`, `agree_link`: one pair of calls, by where the position is and what stands in the FAT;
- `mappings_agree`: when the two paths agree, whatever fails;
- `mappings_differ`: byte 1024 of a file of three clusters.
-/
import AtsLdd.Fat.ReadCorrect

namespace AtsLdd.Fat

open AtsLdd.Machine AtsLdd.Chain

/-- the read path selected a block and `fat_bmap` maps to it, or both answer an error -/
def Agree (s : St) (r : SyncRead) (b : Bmap) : Prop :=
  match firstBlock (accesses s r.s) with
  | some blk => b.ret = 0 ∧ b.mappedBlocks ≠ 0 ∧ b.phys = blk
  | none => r.ret = some (- EIO : ℤ) ∧ b.ret < 0

theorem ncluster2block_eq (sb : FatSb) {c : ℤ} (h0 : 0 < c) (h1 : c < 2 ^ 31) : ncluster2block sb c = fatClusToBlknr sb c := by
  unfold ncluster2block fatClusToBlknr
  rw [int32_of_bounds]
  · unfold FAT_START_ENT
    omega
  · unfold FAT_START_ENT
    omega

/-- the cluster index and the block in the cluster of a position, from its sector -/
theorem sector_of_pos (sb : FatSb) (pos : ℕ) : pos / sb.blocksize / sb.secPerClus = pos / sb.clusterSize ∧
    pos / sb.blocksize % sb.secPerClus = pos % sb.clusterSize / sb.blocksize :=
  ⟨Nat.div_div_eq_div_mul _ _ _, (Nat.mod_mul_right_div_self _ _ _).symm⟩

/-- a cluster reached is below `2 ^ 31` -/
theorem reached_lt {sb : FatSb} {vol : Vol} {ino : FatInode} {k : ℕ} {c : ℤ}
    (h : nth (fatSucc sb vol) ino.iStart k = some c) : c < 2 ^ 31 := by
  cases k with
  | zero =>
    rw [← Option.some.inj h]
    exact ino.start_max
  | succ k => exact (nth_fatSucc_bounds h).2.trans (by decide)

/-- what the read path selects: nothing when it stops in `get_nth_cluster`, and else a block of the first cluster -/
theorem fatSyncRead_selects (env : Env) (sb : FatSb) (ino : FatInode) (s : St) (p : ℕ) {n pos : ℕ} (hn : 0 < n)
    (hstart : ino.iStart ≠ 0) (hpos : pos < ino.iSize) :
    ∃ q es m, Stays env sb s ino.iStart (pos / sb.clusterSize) 0 q es m ∧
      (m < pos / sb.clusterSize ∧ firstBlock (accesses s (fatSyncRead env sb ino s p n pos).s) = none ∧
          (fatSyncRead env sb ino s p n pos).ret = some (- EIO : ℤ) ∨
        m = pos / sb.clusterSize ∧ firstBlock (accesses s (fatSyncRead env sb ino s p n pos).s) =
          some (sectorAdd (ncluster2block sb ino.iStart) (pos % sb.clusterSize / sb.blocksize))) := by
  obtain ⟨q, es, m, hq, ⟨hlt, hcall⟩ | ⟨hm, r, es2, k, j, -, hcopy, hcall⟩⟩ :=
    fatSyncRead_cases env sb ino s p hn hstart hpos
  · refine ⟨q, es, m, hq, Or.inl ⟨hlt, ?_⟩⟩
    rw [hcall, accesses_eq hq.log]
    exact ⟨hq.firstBlock_none, rfl⟩
  · refine ⟨q, es, m, hq, Or.inr ⟨hm, ?_⟩⟩
    rw [hcall, accesses_eq (show r.s.log = s.log ++ (es ++ es2) by rw [hcopy.progress.log, hq.log, List.append_assoc]),
      firstBlock_append_none hq.firstBlock_none]
    exact hcopy.first

section
variable {sb : FatSb} {ino : FatInode} {s : St} {n pos : ℕ}

/-- the clusters of the chain before index `k` have their entries in the FAT block of the first -/
def OneFatBlock (sb : FatSb) (vol : Vol) (start : ℤ) (k : ℕ) : Prop :=
  ∀ i < k, ∀ c, nth (fatSucc sb vol) start i = some c → (fatEntBlocknr sb c).2 = (fatEntBlocknr sb start).2

/-- in the first cluster both paths select the same block, unless the cluster is negative -/
theorem agree_first (env : Env) (p : ℕ) (hn : 0 < n) (hstart : ino.iStart ≠ 0) (hpos : pos < ino.iSize)
    (hfirst : pos < sb.clusterSize) :
    Agree s (fatSyncRead env sb ino s p n pos) (fatBmap env sb s ino.toInode (pos / sb.blocksize)) ↔ 0 < ino.iStart := by
  obtain ⟨hidx, hoff⟩ := sector_of_pos sb pos
  have hzero : pos / sb.clusterSize = 0 := Nat.div_eq_of_lt hfirst
  have hin : pos / sb.blocksize * sb.blocksize < ino.iSize := lt_of_le_of_lt (Nat.div_mul_le_self _ _) hpos
  obtain ⟨es, m, d, w, -, -, hcase⟩ := fatBmap_walk env sb s ino hin hstart
  rw [hidx, hzero] at w hcase
  rw [hoff] at hcase
  have hm := Nat.le_zero.1 w.le
  have hd : d = ino.iStart := by
    have hreach := w.reached
    rw [hm] at hreach
    exact (Option.some.inj hreach).symm
  subst hd
  obtain ⟨q, es', m', hq, ⟨hlt, -⟩ | ⟨-, hsel⟩⟩ := fatSyncRead_selects env sb ino s p hn hstart hpos
  · rw [hzero] at hlt
    exact absurd hlt (Nat.not_lt_zero _)
  unfold Agree
  rw [hsel]
  constructor
  · rintro ⟨-, hne, -⟩
    rcases hcase with ⟨hdpos, -⟩ | ⟨-, h0, -⟩
    · exact hdpos
    · exact absurd h0 hne
  · intro hdpos
    rcases hcase with ⟨-, -, -, h0, hne, hphys⟩ | ⟨-, -, ⟨hneg, -⟩ | hbad | ⟨hlt, -⟩⟩
    · exact ⟨h0, hne, by rw [hphys, ncluster2block_eq sb hdpos ino.start_max]⟩
    · omega
    · exact absurd (w.followed_eq hm).2 hbad
    · exact absurd hlt (Nat.not_lt_zero m)

/-- behind the first cluster, and without a second one, the read path answers -EIO, and `fat_bmap` does unless the first
cluster is marked EOF -/
theorem agree_end (p : ℕ) (hn : 0 < n) (hstart : ino.iStart ≠ 0) (hpos : pos < ino.iSize) (hbehind : sb.clusterSize ≤ pos)
    (hend : ¬ IsLink (fatLink sb s.vol ino.iStart)) :
    (∀ env, Agree s (fatSyncRead env sb ino s p n pos) (fatBmap env sb s ino.toInode (pos / sb.blocksize))) ↔
      (fatLink sb s.vol ino.iStart = FAT_ENT_EOF → ino.iStart < 0) := by
  obtain ⟨hidx, -⟩ := sector_of_pos sb pos
  have hpositive : 0 < pos / sb.clusterSize := Nat.div_pos hbehind sb.clusterSize_pos
  have hin : pos / sb.blocksize * sb.blocksize < ino.iSize := lt_of_le_of_lt (Nat.div_mul_le_self _ _) hpos
  have hread : ∀ env, firstBlock (accesses s (fatSyncRead env sb ino s p n pos).s) = none ∧
      (fatSyncRead env sb ino s p n pos).ret = some (- EIO : ℤ) := by
    intro env
    obtain ⟨q, es, m, hq, ⟨-, hsel⟩ | ⟨hm, -⟩⟩ := fatSyncRead_selects env sb ino s p hn hstart hpos
    · exact hsel
    · exact absurd hm (hq.lt_of_end hpositive hend).ne
  have hagree : ∀ env, Agree s (fatSyncRead env sb ino s p n pos) (fatBmap env sb s ino.toInode (pos / sb.blocksize)) ↔
      (fatBmap env sb s ino.toInode (pos / sb.blocksize)).ret < 0 := by
    intro env
    unfold Agree
    rw [(hread env).1]
    exact and_iff_right (hread env).2
  -- the walk of `fat_bmap` stops at the first cluster
  have hwalk : ∀ env : Env, ∃ es, ((∀ t b, env.bread t b = true) → NoFailure es) ∧
      (0 < ino.iStart ∧ fatLink sb s.vol ino.iStart = FAT_ENT_EOF ∧
          (fatBmap env sb s ino.toInode (pos / sb.blocksize)).ret = 0 ∨
        (fatBmap env sb s ino.toInode (pos / sb.blocksize)).ret < 0 ∧
          (ino.iStart < 0 ∨ ¬ NoFailure es ∨ fatLink sb s.vol ino.iStart ≠ FAT_ENT_EOF)) := by
    intro env
    obtain ⟨es, m, d, w, -, hok, hcase⟩ := fatBmap_walk env sb s ino hin hstart
    rw [hidx] at w hcase
    have hreach := w.reached
    have hm : m = 0 := by
      cases m with
      | zero => rfl
      | succ m =>
        rw [nth_head, fatSucc_end hend] at hreach
        exact absurd hreach (by simp)
    rw [hm] at hreach hcase
    obtain rfl := Option.some.inj hreach
    refine ⟨es, fun hall => hok.2 (.of_all hall), ?_⟩
    rcases hcase with ⟨hdpos, -, hat, h0, -⟩ | ⟨hret, -, ⟨hneg, -⟩ | hbad | ⟨-, hne⟩⟩
    · exact Or.inl ⟨hdpos, hat.resolve_left hpositive.ne, h0⟩
    · exact Or.inr ⟨hret, Or.inl hneg⟩
    · exact Or.inr ⟨hret, Or.inr (Or.inl hbad)⟩
    · exact Or.inr ⟨hret, Or.inr (Or.inr hne)⟩
  constructor
  · intro h heof
    have hret := (hagree goodEnv).1 (h goodEnv)
    obtain ⟨es, hok, ⟨-, -, h0⟩ | ⟨-, hneg | hbad | hne⟩⟩ := hwalk goodEnv
    · omega
    · exact hneg
    · exact absurd (hok fun _ _ => rfl) hbad
    · exact absurd heof hne
  · intro h env
    rw [hagree]
    obtain ⟨es, -, ⟨hdpos, heof, -⟩ | ⟨hret, -⟩⟩ := hwalk env
    · exact absurd (h heof) (not_lt.2 hdpos.le)
    · exact hret

/-- the block of a cluster that both paths select -/
theorem phys_inj {c : ℤ} (hpos : 0 < c) (hc : c < 2 ^ 31) {i : ℕ}
    (h : sectorAdd (fatClusToBlknr sb c) i = sectorAdd (ncluster2block sb ino.iStart) i) : c = ino.iStart := by
  rw [← ncluster2block_eq sb hpos hc] at h
  exact ncluster2block_inj sb (by omega) hc ino.start_min ino.start_max h

/-- reads fail at tick `t0` for block `b0` only -/
def failingEnv (t0 b0 : ℕ) : Env := ⟨fun t b => decide (¬ (t = t0 ∧ b = b0)), fun _ => true, fun _ _ => true, fun _ => 2 ^ 12⟩

/-- behind the first cluster, and with a second one, both paths select the same block when the chain is back at its first
cluster, and fail alike when the entries on the way lie in one block -/
theorem agree_link (p : ℕ) (hn : 0 < n) (hstart : ino.iStart ≠ 0) (hpos : pos < ino.iSize) (hbehind : sb.clusterSize ≤ pos)
    (hlink : IsLink (fatLink sb s.vol ino.iStart)) :
    (∀ env, Agree s (fatSyncRead env sb ino s p n pos) (fatBmap env sb s ino.toInode (pos / sb.blocksize))) ↔
      nth (fatSucc sb s.vol) ino.iStart (pos / sb.clusterSize) = some ino.iStart ∧
        OneFatBlock sb s.vol ino.iStart (pos / sb.clusterSize) := by
  obtain ⟨hidx, hoff⟩ := sector_of_pos sb pos
  have hpositive : 0 < pos / sb.clusterSize := Nat.div_pos hbehind sb.clusterSize_pos
  have hin : pos / sb.blocksize * sb.blocksize < ino.iSize := lt_of_le_of_lt (Nat.div_mul_le_self _ _) hpos
  have hwalk := fun env => fatBmap_walk env sb s ino hin hstart
  rw [hidx, hoff] at hwalk
  -- where the entry of the first cluster can be read all the time, the read path gets to a block
  have hselects : ∀ env : Env, (∀ i < pos / sb.clusterSize, env.bread (s.t + i) (fatEntBlocknr sb ino.iStart).2 = true) →
      Agree s (fatSyncRead env sb ino s p n pos) (fatBmap env sb s ino.toInode (pos / sb.blocksize)) →
      (fatBmap env sb s ino.toInode (pos / sb.blocksize)).ret = 0 ∧
        (fatBmap env sb s ino.toInode (pos / sb.blocksize)).phys =
          sectorAdd (ncluster2block sb ino.iStart) (pos % sb.clusterSize / sb.blocksize) := by
    intro env hread hagree
    obtain ⟨q, es, m, hq, ⟨hlt, -⟩ | ⟨-, hsel⟩⟩ := fatSyncRead_selects env sb ino s p hn hstart hpos
    · exact absurd (hq.complete hread (Or.inr hlink)) hlt.ne
    · rw [Agree, hsel] at hagree
      exact ⟨hagree.1, hagree.2.2⟩
  constructor
  · intro h
    have hback : nth (fatSucc sb s.vol) ino.iStart (pos / sb.clusterSize) = some ino.iStart := by
      obtain ⟨hret, hphys⟩ := hselects goodEnv (fun _ _ => rfl) (h goodEnv)
      obtain ⟨es, m, d, w, -, -, ⟨hdpos, -, hat, -, -, hblk⟩ | ⟨hneg, -⟩⟩ := hwalk goodEnv
      · rw [hblk] at hphys
        obtain rfl := phys_inj hdpos (reached_lt w.reached) hphys
        rcases hat with rfl | heof
        · exact w.reached
        · exact absurd heof hlink.2
      · omega
    refine ⟨hback, fun i hi c hc => by_contra fun hne => ?_⟩
    obtain ⟨hret, -⟩ := hselects (failingEnv (s.t + i) (fatEntBlocknr sb c).2)
      (fun j _ => decide_eq_true fun hboth => hne hboth.2.symm) (h _)
    obtain ⟨es, m, d, w, -, hok, ⟨-, hno, -⟩ | ⟨hneg, -⟩⟩ := hwalk (failingEnv (s.t + i) (fatEntBlocknr sb c).2)
    · exact absurd ⟨rfl, rfl⟩ (of_decide_eq_true (hok.1 hno i hi c hc))
    · omega
  · rintro ⟨hback, hone⟩ env
    obtain ⟨es, m, d, w, -, hok, hcase⟩ := hwalk env
    obtain ⟨q, es', m', hq, ⟨hlt, hsel, hret⟩ | ⟨hm, hsel⟩⟩ := fatSyncRead_selects env sb ino s p hn hstart hpos
    · -- the entry of the first cluster cannot be read at some tick, and that of the chain neither
      have hbad : ¬ NoFailure es := by
        rw [hok]
        intro hall
        obtain ⟨-, ⟨⟨i, hi, hfail⟩, -⟩ | hend⟩ := hq.stopped hlt
        · have hsome : nth (fatSucc sb s.vol) ino.iStart i ≠ none := nth_mono hi.le (by rw [hback]; simp)
          obtain ⟨c, hc⟩ := Option.ne_none_iff_exists'.1 hsome
          have hread := hall i hi c hc
          rw [hone i hi c hc, hfail] at hread
          exact absurd hread (by simp)
        · exact hend hlink
      rw [Agree, hsel]
      rcases hcase with ⟨-, hno, -⟩ | ⟨hneg, -⟩
      · exact absurd hno hbad
      · exact ⟨hret, hneg⟩
    · have hreads := (hq.all hm).2.2
      have hno : NoFailure es := hok.2 fun i hi c hc => by
        rw [hone i hi c hc]
        exact hreads i hi
      have hmeq := w.complete hno (by rw [hback]; simp)
      have hd : d = ino.iStart := by
        have hreach := w.reached
        rw [hmeq, hback] at hreach
        exact (Option.some.inj hreach).symm
      have hdpos : 0 < ino.iStart := by
        obtain ⟨k, hk⟩ := Nat.exists_eq_add_of_lt hpositive
        rw [Nat.zero_add] at hk
        rw [hk] at hback
        exact (nth_fatSucc_bounds hback).1
      rw [Agree, hsel]
      rcases hcase with ⟨-, -, -, h0, hne, hphys⟩ | ⟨-, -, ⟨hneg, -⟩ | hbad | ⟨hlt, -⟩⟩
      · exact ⟨h0, hne, by rw [hphys, hd, ncluster2block_eq sb hdpos ino.start_max]⟩
      · omega
      · exact absurd hno hbad
      · exact absurd hmeq hlt.ne

end

/-- where the two mappings agree: in a first cluster that is not negative; behind it, when there is no second cluster and
`fat_bmap` does not take the first one for it; or when the chain is back at its first cluster there, and has its entries up
to there in one FAT block -/
def AgreeAt (sb : FatSb) (ino : FatInode) (vol : Vol) (pos : ℕ) : Prop :=
  pos < sb.clusterSize ∧ 0 < ino.iStart ∨
    sb.clusterSize ≤ pos ∧ (¬ IsLink (fatLink sb vol ino.iStart) ∧
          (fatLink sb vol ino.iStart = FAT_ENT_EOF → ino.iStart < 0) ∨
        nth (fatSucc sb vol) ino.iStart (pos / sb.clusterSize) = some ino.iStart ∧
          OneFatBlock sb vol ino.iStart (pos / sb.clusterSize))

/-- **When the two mappings agree**, whatever can be read. -/
theorem mappings_agree (sb : FatSb) (ino : FatInode) (s : St) (p n pos : ℕ) (hn : 0 < n) (hstart : ino.iStart ≠ 0)
    (hpos : pos < ino.iSize) :
    (∀ env, Agree s (fatSyncRead env sb ino s p n pos) (fatBmap env sb s ino.toInode (pos / sb.blocksize))) ↔
      AgreeAt sb ino s.vol pos := by
  unfold AgreeAt
  rcases Nat.lt_or_ge pos sb.clusterSize with hfirst | hbehind
  · rw [or_iff_left fun h => absurd h.1 (not_le.2 hfirst), and_iff_right hfirst]
    exact ⟨fun h => (agree_first goodEnv p hn hstart hpos hfirst).1 (h goodEnv),
      fun h env => (agree_first env p hn hstart hpos hfirst).2 h⟩
  rw [or_iff_right fun h => absurd h.1 (not_lt.2 hbehind), and_iff_right hbehind]
  by_cases hlink : IsLink (fatLink sb s.vol ino.iStart)
  · rw [agree_link p hn hstart hpos hbehind hlink, or_iff_right fun h => absurd hlink h.1]
  · rw [agree_end p hn hstart hpos hbehind hlink, or_iff_left, and_iff_right hlink]
    rintro ⟨hback, -⟩
    obtain ⟨k, hk⟩ := Nat.exists_eq_add_of_lt (Nat.div_pos hbehind sb.clusterSize_pos)
    rw [hk, nth_head, fatSucc_end hlink] at hback
    exact absurd hback (by simp)

/-- byte 600 of a file of the clusters 3, 4 and 5 -/
theorem mappings_agree_tiny : Agree (St.idle (tinyVol (· + 1)))
    (fatSyncRead goodEnv tinySb (tinyInode 3 (by decide)) (St.idle (tinyVol (· + 1))) 0 1 600)
    (fatBmap goodEnv tinySb (St.idle (tinyVol (· + 1))) (tinyInode 3 (by decide)).toInode (600 / tinySb.blocksize)) := by
  have hfirst : AgreeAt tinySb (tinyInode 3 (by decide)) (St.idle (tinyVol (· + 1))).vol 600 :=
    Or.inl ⟨by decide, by decide⟩
  have hiff := mappings_agree tinySb (tinyInode 3 (by decide)) (St.idle (tinyVol (· + 1))) 0 1 600 (by decide) (by decide)
    (by decide)
  exact hiff.2 hfirst goodEnv

/-- byte 1024 of a file of the clusters 3, 4 and 5: the read path selects block 4, of cluster 3, `fat_bmap` block 6 -/
theorem mappings_differ : ¬ ∀ (env : Env) (sb : FatSb) (ino : FatInode) (s : St) (p n pos : ℕ), 0 < n → ino.iStart ≠ 0 →
    pos < ino.iSize → Agree s (fatSyncRead env sb ino s p n pos) (fatBmap env sb s ino.toInode (pos / sb.blocksize)) := by
  intro h
  have hagree := h goodEnv tinySb (tinyInode 3 (by decide)) (St.idle (tinyVol (· + 1))) 0 1 1024 (by decide) (by decide)
    (by decide)
  have hread : firstBlock (accesses (St.idle (tinyVol (· + 1))) (fatSyncRead goodEnv tinySb (tinyInode 3 (by decide))
      (St.idle (tinyVol (· + 1))) 0 1 1024).s) = some 4 := by decide +kernel
  rw [Agree, hread] at hagree
  exact absurd hagree.2.2 (by decide +kernel)

end AtsLdd.Fat
