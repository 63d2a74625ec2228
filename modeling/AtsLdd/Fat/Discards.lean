/-
The block ranges that `fat_free_clusters` (fat_entry.c) discards, against the clusters that it frees.

A range is passed with the number of its blocks, which is computed as an `int`.
- `mem_discardRange`: the blocks of a range are those of the clusters of its run, when their number fits an `int`;
- `discardRange_wild`, `discardRange_short`: they are not, when it does not;
- `fatFreeClusters_discards`: exactly when every run of the walk fits, the ranges are disjoint, in clusters freed, and the
  whole chain on success, whatever fails.
-/
import AtsLdd.Fat.ChainEnd
import AtsLdd.Fat.Release
import Mathlib

namespace AtsLdd.Fat

open AtsLdd.Machine AtsLdd.LinkTable AtsLdd.Runs

/-! ## Blocks of clusters -/

/-- the data blocks of cluster `c` -/
def clusterBlocks (sb : FatSb) (c : ℤ) : Set ℕ := Set.Ico (fatClusToBlknr sb c) (fatClusToBlknr sb c + sb.secPerClus)

/-- the blocks of a range: its first block and their number -/
def rangeBlocks (r : ℕ × ℕ) : Set ℕ := Set.Ico r.1 (r.1 + r.2)

/-- the cluster that block `b` of the data region is in -/
def clusterOf (sb : FatSb) (b : ℕ) : ℤ := ((b : ℤ) - sb.dataStart) / sb.secPerClus + FAT_START_ENT

/-- the number of blocks of a run of clusters -/
def runBlocks (sb : FatSb) (r : ℤ × ℤ) : ℤ := (r.2 - r.1 + 1) * sb.secPerClus

section
variable {sb : FatSb} {c first last : ℤ} {b : ℕ}

theorem fatClusToBlknr_cast (hc : InRange sb c) :
    (fatClusToBlknr sb c : ℤ) = (c - FAT_START_ENT) * sb.secPerClus + sb.dataStart := by
  have hmax := sb.maxCluster_max
  have hdata := sb.dataStart_max
  have hspc : sb.secPerClus ≤ 2 ^ 7 := Nat.pow_le_pow_right Nat.two_pos sb.spc_max
  obtain ⟨h1, h2⟩ := hc
  unfold MAX_FAT32 at hmax
  have hmul : (c - FAT_START_ENT) * sb.secPerClus ≤ 2 ^ 28 * 2 ^ 7 :=
    Int.mul_le_mul (by unfold FAT_START_ENT; omega) (by exact_mod_cast hspc) (by omega) (by norm_num)
  have hpos : 0 ≤ (c - FAT_START_ENT) * sb.secPerClus := Int.mul_nonneg (by omega) (by omega)
  exact ulong_of_bounds (by omega) (by omega)

/-- blocks from that of cluster `c` on, as clusters -/
theorem le_clusterOf (hc : InRange sb c) : fatClusToBlknr sb c ≤ b ↔ c ≤ clusterOf sb b := by
  have hspc : (0 : ℤ) < sb.secPerClus := by exact_mod_cast sb.secPerClus_pos
  have hcast := fatClusToBlknr_cast hc
  have hdiv := Int.le_ediv_iff_mul_le (a := c - FAT_START_ENT) (b := (b : ℤ) - sb.dataStart) hspc
  unfold clusterOf
  omega

/-- blocks before the end of cluster `c`, as clusters -/
theorem clusterOf_le (hc : InRange sb c) : b < fatClusToBlknr sb c + sb.secPerClus ↔ clusterOf sb b ≤ c := by
  have hspc : (0 : ℤ) < sb.secPerClus := by exact_mod_cast sb.secPerClus_pos
  have hcast := fatClusToBlknr_cast hc
  have hdiv := Int.ediv_lt_iff_lt_mul (a := (b : ℤ) - sb.dataStart) (b := c - FAT_START_ENT + 1) hspc
  rw [Int.add_mul, Int.one_mul] at hdiv
  unfold clusterOf
  omega

/-- **The clusters tile the data region.** -/
theorem mem_clusterBlocks (hc : InRange sb c) : b ∈ clusterBlocks sb c ↔ clusterOf sb b = c := by
  rw [clusterBlocks, Set.mem_Ico, le_clusterOf hc, clusterOf_le hc]
  exact ⟨fun h => le_antisymm h.2 h.1, fun h => ⟨h.ge, h.le⟩⟩

/-- the end of a run of clusters -/
theorem run_end (hfirst : InRange sb first) (hlast : InRange sb last) :
    (fatClusToBlknr sb first : ℤ) + runBlocks sb (first, last) = fatClusToBlknr sb last + sb.secPerClus := by
  rw [fatClusToBlknr_cast hfirst, fatClusToBlknr_cast hlast, runBlocks]
  ring

theorem runBlocks_bounds (hfirst : InRange sb first) (hlast : InRange sb last) (hle : first ≤ last) :
    sb.secPerClus ≤ runBlocks sb (first, last) ∧ runBlocks sb (first, last) < 2 ^ 36 := by
  have hmax := sb.maxCluster_max
  have hspc : sb.secPerClus ≤ 2 ^ 7 := Nat.pow_le_pow_right Nat.two_pos sb.spc_max
  have hpos := sb.secPerClus_pos
  obtain ⟨h1, -⟩ := hfirst
  obtain ⟨-, h2⟩ := hlast
  unfold MAX_FAT32 at hmax
  unfold FAT_START_ENT at h1
  have hmul : (last - first + 1) * sb.secPerClus ≤ 2 ^ 28 * 2 ^ 7 :=
    Int.mul_le_mul (by omega) (by exact_mod_cast hspc) (by omega) (by norm_num)
  have hone : 1 * (sb.secPerClus : ℤ) ≤ (last - first + 1) * sb.secPerClus :=
    Int.mul_le_mul_of_nonneg_right (by omega) (by omega)
  have hrun : runBlocks sb (first, last) = (last - first + 1) * sb.secPerClus := rfl
  omega

theorem mem_rangeBlocks : b ∈ rangeBlocks (discardRange sb first last) ↔
    fatClusToBlknr sb first ≤ b ∧ b < fatClusToBlknr sb first + (discardRange sb first last).2 := Iff.rfl

theorem discardRange_length (sb : FatSb) (first last : ℤ) :
    (discardRange sb first last).2 = ulong (int32 (runBlocks sb (first, last))) := rfl

/-- the length of a range, when it is not negative as an `int` -/
theorem discardRange_fits (hfits : runBlocks sb (first, last) % 2 ^ 32 < 2 ^ 31) :
    ((discardRange sb first last).2 : ℤ) = runBlocks sb (first, last) % 2 ^ 32 := by
  have hmod := Int.emod_nonneg (runBlocks sb (first, last)) (show (2 ^ 32 : ℤ) ≠ 0 by norm_num)
  rw [discardRange_length, int32_of_mod_lt hfits]
  exact ulong_of_bounds hmod (hfits.trans (by norm_num))

/-- a range is in the clusters of its run, when the number of their blocks is not negative as an `int` -/
theorem discardRange_subset (hfirst : InRange sb first) (hlast : InRange sb last) (hle : first ≤ last)
    (hfits : runBlocks sb (first, last) % 2 ^ 32 < 2 ^ 31) (hb : b ∈ rangeBlocks (discardRange sb first last)) :
    clusterOf sb b ∈ run (first, last) := by
  have hend := run_end hfirst hlast
  have hlen := discardRange_fits hfits
  obtain ⟨hpos, -⟩ := runBlocks_bounds hfirst hlast hle
  obtain ⟨h1, h2⟩ := mem_rangeBlocks.1 hb
  refine mem_run.2 ⟨(le_clusterOf hfirst).1 h1, (clusterOf_le hlast).1 ?_⟩
  omega

/-- **A range is the clusters of its run**, when the number of their blocks is an `int`. -/
theorem mem_discardRange (hfirst : InRange sb first) (hlast : InRange sb last) (hle : first ≤ last)
    (hfits : runBlocks sb (first, last) < 2 ^ 31) :
    b ∈ rangeBlocks (discardRange sb first last) ↔ clusterOf sb b ∈ run (first, last) := by
  obtain ⟨hpos, -⟩ := runBlocks_bounds hfirst hlast hle
  have hend := run_end hfirst hlast
  have hmod : runBlocks sb (first, last) % 2 ^ 32 = runBlocks sb (first, last) := Int.emod_eq_of_lt (by omega) (by omega)
  have hlen : ((discardRange sb first last).2 : ℤ) = _ := discardRange_fits (by omega)
  rw [mem_run, ← le_clusterOf hfirst, ← clusterOf_le hlast, mem_rangeBlocks]
  omega

/-- the first block behind the last cluster -/
theorem clusterOf_end (sb : FatSb) :
    clusterOf sb ((sb.maxCluster - 2) * sb.secPerClus + sb.dataStart) = sb.maxCluster := by
  have hmin := sb.maxCluster_min
  have hspc : (sb.secPerClus : ℤ) ≠ 0 := by
    have hpos := sb.secPerClus_pos
    omega
  unfold clusterOf FAT_START_ENT
  rw [Nat.cast_add, add_sub_cancel_right, Nat.cast_mul, Int.mul_ediv_cancel _ hspc]
  omega

/-- **A range that runs wild**: it goes beyond the last cluster, when the number of its blocks is negative as an `int`. -/
theorem discardRange_wild (hfirst : InRange sb first) (hwild : 2 ^ 31 ≤ runBlocks sb (first, last) % 2 ^ 32) :
    ∃ b ∈ rangeBlocks (discardRange sb first last), clusterOf sb b = sb.maxCluster := by
  have hcluster := clusterOf_end sb
  refine ⟨_, ⟨(le_clusterOf hfirst).2 (hcluster ▸ hfirst.2.le), ?_⟩, hcluster⟩
  have hmax := sb.maxCluster_max
  have hdata := sb.dataStart_max
  have hspc : sb.secPerClus ≤ 2 ^ 7 := Nat.pow_le_pow_right Nat.two_pos sb.spc_max
  unfold MAX_FAT32 at hmax
  have hmul : (sb.maxCluster - 2) * sb.secPerClus ≤ 2 ^ 28 * 2 ^ 7 := Nat.mul_le_mul (by omega) hspc
  have hint := int32_of_mod_ge hwild
  have hlt := Int.emod_lt_of_pos (runBlocks sb (first, last)) (show (0 : ℤ) < 2 ^ 32 by norm_num)
  have hlen : 2 ^ 64 - 2 ^ 31 ≤ (discardRange sb first last).2 := by
    rw [discardRange_length, hint, ulong]
    omega
  have hlt := Nat.lt_of_le_of_lt (Nat.add_le_add hmul hdata.le) (show 2 ^ 28 * 2 ^ 7 + 2 ^ 42 < 2 ^ 64 - 2 ^ 31 by norm_num)
  exact hlt.trans_le (hlen.trans (Nat.le_add_left _ _))

/-- a range that is cut short: it leaves blocks of the last cluster out -/
theorem discardRange_short (hfirst : InRange sb first) (hlast : InRange sb last)
    (hfits : runBlocks sb (first, last) % 2 ^ 32 < 2 ^ 31) (hlong : 2 ^ 31 ≤ runBlocks sb (first, last)) :
    ∃ b, clusterOf sb b = last ∧ b ∉ rangeBlocks (discardRange sb first last) := by
  have hend := run_end hfirst hlast
  have hpos := sb.secPerClus_pos
  have hlen := discardRange_fits hfits
  refine ⟨fatClusToBlknr sb last + sb.secPerClus - 1, (mem_clusterBlocks hlast).1 ?_, fun h => ?_⟩
  · rw [clusterBlocks, Set.mem_Ico]
    omega
  · have h2 := (mem_rangeBlocks.1 h).2
    omega

end

/-! ## The runs of a release -/

section
variable {env : Env} {sb : FatSb} {s : St} {vol : Vol} {a c : ℤ} {l pre : List ℤ} {ended : Bool}

/-- erasing meets the links of the table -/
theorem erase_meets {T : ℤ → Link ℤ} {link : ℤ → ℤ} (p : Erase T a l ended) :
    (∀ x y, Follows T x y → link x = y) → Meets link a l := by
  induction p with
  | stop h =>
    intro _
    exact trivial
  | last h =>
    intro _
    exact ⟨rfl, trivial⟩
  | next h p ih =>
    intro hlink
    refine ⟨rfl, ?_⟩
    rw [hlink _ _ h]
    exact ih fun x y hxy => hlink x y hxy.of_update

theorem follows_link {x y : ℤ} (h : Follows (table sb vol) x y) : fatLink sb vol x = y := by
  have hin : InRange sb x := by
    by_contra hout
    rw [Follows, table, if_neg hout] at h
    cases h
  exact (fatSucc_isLink ((table_eq_next hin).1 h)).2

/-- a run of the walk is in the volume, and has clusters of the walk -/
theorem runs_inRange (p : Erase (table sb vol) a l ended) {r : ℤ × ℤ} (hr : r ∈ (runs (fatLink sb vol) a l).1) :
    InRange sb r.1 ∧ InRange sb r.2 ∧ r.1 ≤ r.2 ∧ ∀ c ∈ run r, c ∈ l := by
  have hmeets := erase_meets p fun _ _ => follows_link
  have hle := runs_le hmeets r hr
  have hmem : ∀ c ∈ run r, c ∈ l := fun c hc => runs_mem hmeets hr hc
  exact ⟨erase_inRange p _ (hmem _ (mem_run.2 ⟨le_rfl, hle⟩)), erase_inRange p _ (hmem _ (mem_run.2 ⟨hle, le_rfl⟩)), hle, hmem⟩

/-- the runs of a walk to an EOF mark are the walk -/
theorem runs_all (p : Erase (table sb vol) a l true) : (runs (fatLink sb vol) a l).1.flatMap run = l := by
  have hpath := p.path rfl
  have hin := path_inRange hpath _ (List.getLast_mem hpath.ne_nil)
  have hmeets := erase_meets p fun _ _ => follows_link
  have heof := (table_eq_last hin).1 hpath.getLast
  rw [← List.dropLast_append_getLast hpath.ne_nil] at hmeets ⊢
  apply runs_complete hmeets
  rw [heof]
  have hmax := sb.maxCluster_max
  have hlt := hin.2
  unfold MAX_FAT32 at hmax
  unfold FAT_ENT_EOF
  omega

/-- the numbers of blocks of the runs of the walk from `a`: none is negative as an `int`, and each is one when the walk ends at
an EOF mark -/
def RunsFit (sb : FatSb) (vol : Vol) (a : ℤ) : Prop :=
  ∀ l ended, Erase (table sb vol) a l ended → ∀ r ∈ (runs (fatLink sb vol) a l).1,
    runBlocks sb r % 2 ^ 32 < 2 ^ 31 ∧ (ended = true → runBlocks sb r < 2 ^ 31)

/-- the call stores FREE in entry `c`, which was reached and not free; it stays free unless its block cannot be written -/
def FreesEntry (env : Env) (sb : FatSb) (s : St) (a c : ℤ) : Prop :=
  InRange sb c ∧ Reach (table sb s.vol) a c ∧ fatVal sb s.vol c ≠ FAT_ENT_FREE ∧
    (fatVal sb (fatFreeClusters env sb s a).2.vol c = FAT_ENT_FREE ∨
      WriteFailed env s (fatFreeClusters env sb s a).2 (fatEntBlocknr sb c).2)

/-- the ranges `ds` that a release discards are disjoint, in clusters that it frees, and the whole chain when it succeeds -/
structure DiscardsChain (env : Env) (sb : FatSb) (s : St) (a : ℤ) (ds : List (ℕ × ℕ)) : Prop where
  discards : (fatFreeClusters env sb s a).2.discards = s.discards ++ ds
  disjoint : ds.Pairwise fun r r' => Disjoint (rangeBlocks r) (rangeBlocks r')
  freed : ∀ r ∈ ds, ∀ b ∈ rangeBlocks r, ∃ c, b ∈ clusterBlocks sb c ∧ FreesEntry env sb s a c
  all : (fatFreeClusters env sb s a).1 = 0 → ∃ l, Path (table sb s.vol) a l ∧
    ∀ b, (∃ r ∈ ds, b ∈ rangeBlocks r) ↔ ∃ c ∈ l, b ∈ clusterBlocks sb c

/-- what was freed first is freed by the call -/
theorem freesEntry_of_prefix (p : Erase (table sb s.vol) a l ended) (hpre : pre <+: l) (hc : c ∈ pre)
    (hvol : (fatFreeClusters env sb s a).2.vol (fatEntBlocknr sb c).2 = freePuts sb s.vol pre (fatEntBlocknr sb c).2 ∨
      WriteFailed env s (fatFreeClusters env sb s a).2 (fatEntBlocknr sb c).2) : FreesEntry env sb s a c := by
  have hin := erase_inRange p c (hpre.subset hc)
  refine ⟨hin, p.reach c (hpre.subset hc), fun h => ?_, ?_⟩
  · exact p.not_free c (hpre.subset hc) ((table_eq_free hin).2 (fatLink_eq_free.2 h))
  · rcases hvol with h | hf
    · exact Or.inl (freedEntry_of_block p hpre hc h).after
    · exact Or.inr hf

/-- the ranges of the entries freed first are disjoint and in their clusters -/
theorem discarded_subset (p : Erase (table sb vol) a l ended) (hpre : pre <+: l)
    (hfit : ∀ r ∈ (runs (fatLink sb vol) a l).1, runBlocks sb r % 2 ^ 32 < 2 ^ 31) :
    (discarded sb vol a pre).Pairwise (fun r r' => Disjoint (rangeBlocks r) (rangeBlocks r')) ∧
      ∀ r ∈ discarded sb vol a pre, ∀ b ∈ rangeBlocks r, ∃ c ∈ pre, b ∈ clusterBlocks sb c := by
  have hmeets := (erase_meets p fun _ _ => follows_link).front hpre
  have hsub : ∀ r ∈ (runs (fatLink sb vol) a pre).1, r ∈ (runs (fatLink sb vol) a l).1 :=
    fun r hr => (runs_front (fatLink sb vol) a hpre).subset hr
  have hblocks : ∀ r ∈ (runs (fatLink sb vol) a pre).1, ∀ b ∈ rangeBlocks (discardRange sb r.1 r.2), clusterOf sb b ∈ run r := by
    intro r hr b hb
    obtain ⟨h1, h2, hle, -⟩ := runs_inRange p (hsub r hr)
    exact discardRange_subset h1 h2 hle (hfit r (hsub r hr)) hb
  constructor
  · refine List.pairwise_map.2 (((runs_disjoint hmeets (p.nodup.sublist hpre.sublist)).imp_of_mem ?_))
    intro r r' hr hr' hdis
    exact Set.disjoint_left.2 fun b hb hb' => hdis _ (hblocks r hr b hb) (hblocks r' hr' b hb')
  · intro r hr b hb
    obtain ⟨q, hq, rfl⟩ := List.mem_map.1 hr
    have hmem := runs_mem hmeets hq (hblocks q hq b hb)
    exact ⟨_, hmem, (mem_clusterBlocks (erase_inRange p _ (hpre.subset hmem))).2 rfl⟩

/-- the ranges of a walk to an EOF mark are its clusters -/
theorem discarded_all (p : Erase (table sb vol) a l true)
    (hfit : ∀ r ∈ (runs (fatLink sb vol) a l).1, runBlocks sb r < 2 ^ 31) (b : ℕ) :
    (∃ r ∈ discarded sb vol a l, b ∈ rangeBlocks r) ↔ ∃ c ∈ l, b ∈ clusterBlocks sb c := by
  have hblocks : ∀ r ∈ (runs (fatLink sb vol) a l).1, b ∈ rangeBlocks (discardRange sb r.1 r.2) ↔ clusterOf sb b ∈ run r := by
    intro r hr
    obtain ⟨h1, h2, hle, -⟩ := runs_inRange p hr
    exact mem_discardRange h1 h2 hle (hfit r hr)
  constructor
  · rintro ⟨r, hr, hb⟩
    obtain ⟨q, hq, rfl⟩ := List.mem_map.1 hr
    obtain ⟨-, -, -, hmem⟩ := runs_inRange p hq
    have hc := hmem _ ((hblocks q hq).1 hb)
    exact ⟨_, hc, (mem_clusterBlocks (erase_inRange p _ hc)).2 rfl⟩
  · rintro ⟨c, hc, hb⟩
    have hof := (mem_clusterBlocks (erase_inRange p c hc)).1 hb
    rw [← runs_all p, List.mem_flatMap] at hc
    obtain ⟨q, hq, hcq⟩ := hc
    exact ⟨_, List.mem_map.2 ⟨q, hq, rfl⟩, (hblocks q hq).2 (hof ▸ hcq)⟩

/-- **Runs that fit** are discarded right, whatever fails. -/
theorem discardsChain_of_runsFit (hfit : RunsFit sb s.vol a) (env : Env) : ∃ ds, DiscardsChain env sb s a ds := by
  obtain ⟨l, ended, p, -⟩ := erase_table sb s.vol a
  have hmod : ∀ r ∈ (runs (fatLink sb s.vol) a l).1, runBlocks sb r % 2 ^ 32 < 2 ^ 31 := fun r hr => (hfit l ended p r hr).1
  obtain ⟨-, ⟨herr, pre, hpre, hrel⟩ | ⟨-, hended, first, hall⟩⟩ := fatFreeClusters_any env p
  · obtain ⟨hdis, hsub⟩ := discarded_subset p hpre hmod
    refine ⟨discarded sb s.vol a pre, hrel.discards, hdis, fun r hr b hb => ?_, fun h => absurd h herr⟩
    obtain ⟨c, hc, hbc⟩ := hsub r hr b hb
    refine ⟨c, hbc, freesEntry_of_prefix p hpre hc ?_⟩
    exact (hrel.vol _ (fatEntBlocknr_inFat (erase_inRange p c (hpre.subset hc)))).imp_right And.left
  · subst hended
    obtain ⟨hdis, hsub⟩ := discarded_subset p List.prefix_rfl hmod
    refine ⟨discarded sb s.vol a l, hall.discards, hdis, fun r hr b hb => ?_, fun _ => ⟨l, p.path rfl, ?_⟩⟩
    · obtain ⟨c, hc, hbc⟩ := hsub r hr b hb
      exact ⟨c, hbc, freesEntry_of_prefix p List.prefix_rfl hc
        (Or.inl (hall.vol _ (fatEntBlocknr_inFat (erase_inRange p c hc))))⟩
    · exact discarded_all p fun r hr => (hfit l true p r hr).2 rfl

/-- when nothing fails the whole walk is freed -/
theorem fatFreeClusters_discarded (henv : env.NoFault) (p : Erase (table sb s.vol) a l ended) :
    (fatFreeClusters env sb s a).2.discards = s.discards ++ discarded sb s.vol a l ∧
      (ended = true → (fatFreeClusters env sb s a).1 = 0) := by
  have hno : ∀ b, ¬ WriteFailed env s (fatFreeClusters env sb s a).2 b := by
    rintro b ⟨t, -, -, hf⟩
    rw [henv.sync t b] at hf
    cases hf
  obtain ⟨f, hloop, ⟨hq, hb⟩, heq⟩ := fatFreeLoop_erase henv p (f := freeStart s a) rfl (erase_length_lt p) (batched_start sb s a)
  have hin : BhsInFat sb f.bhs := by
    rw [hq]
    intro b hmem
    exact hb.inFat b (hb.bhs b hmem)
  obtain ⟨s1, hwrite, hsame⟩ := fatWriteBhs_ok henv f.s hin sb.synchronous
  have hcall : (fatFreeClusters env sb s a).1 = (if ended then 0 else (- EIO : ℤ)) ∧
      EqFat sb (freePuts sb s.vol l) (fatFreeClusters env sb s a).2.vol := by
    unfold fatFreeClusters
    rw [← freeStart, hloop]
    cases ended with
    | true =>
      simp only [if_true, ne_eq, not_true_eq_false, if_false, hwrite]
      refine ⟨trivial, fun b hbin => ?_⟩
      rw [foldl_brelse_vol, FatEntry.brelse_vol]
      exact (hsame.vol b hbin).trans (heq b hbin)
    | false =>
      simp only [Bool.false_eq_true, if_false, if_pos (show (- EIO : ℤ) ≠ 0 by decide)]
      refine ⟨trivial, fun b hbin => ?_⟩
      rw [foldl_brelse_vol, FatEntry.brelse_vol]
      exact heq b hbin
  refine ⟨?_, fun h => by rw [hcall.1, h, if_pos rfl]⟩
  obtain ⟨-, ⟨-, pre, hpre, hrel⟩ | ⟨-, -, first, hall⟩⟩ := fatFreeClusters_any env p
  · -- an entry of the walk that was not freed would not be free
    have hpin : ∀ x ∈ pre, InRange sb x := fun x hx => erase_inRange p x (hpre.subset hx)
    have hsub : l ⊆ pre := by
      intro c hc
      by_contra hnot
      have hcin := erase_inRange p c hc
      have hpreval : fatVal sb (fatFreeClusters env sb s a).2.vol c = fatVal sb s.vol c := by
        have h := (hrel.vol _ (fatEntBlocknr_inFat hcin)).resolve_right fun h => hno _ h.1
        have hval : fatVal sb (freePuts sb s.vol pre) c = _ := fatVal_freePuts hpin hcin
        rw [if_neg hnot] at hval
        rw [← hval, fatVal, fatVal, fatWord, fatWord, h]
      have hallval := hcall.2.val hcin
      rw [fatVal_freePuts (erase_inRange p) hcin, if_pos hc, hpreval] at hallval
      exact p.not_free c hc ((table_eq_free hcin).2 (fatLink_eq_free.2 hallval))
    have hlen := (p.nodup.subperm hsub).length_le
    rw [← hpre.eq_of_length_le hlen]
    exact hrel.discards
  · exact hall.discards

/-- **Runs that do not fit** are discarded wrong already when nothing fails. -/
theorem runsFit_of_discardsChain (henv : env.NoFault) {ds : List (ℕ × ℕ)} (h : DiscardsChain env sb s a ds) :
    RunsFit sb s.vol a := by
  intro l ended p
  obtain ⟨hdiscards, hok⟩ := fatFreeClusters_discarded henv p
  obtain rfl : ds = discarded sb s.vol a l := List.append_cancel_left (h.discards.symm.trans hdiscards)
  have hfits : ∀ r ∈ (runs (fatLink sb s.vol) a l).1, runBlocks sb r % 2 ^ 32 < 2 ^ 31 := by
    intro r hr
    by_contra hwild
    obtain ⟨h1, -, -, -⟩ := runs_inRange p hr
    obtain ⟨b, hb, hof⟩ : ∃ b ∈ rangeBlocks (discardRange sb r.1 r.2), _ := discardRange_wild h1 (not_lt.1 hwild)
    obtain ⟨c, hbc, hc, -⟩ := h.freed _ (List.mem_map.2 ⟨r, hr, rfl⟩) b hb
    rw [mem_clusterBlocks hc, hof] at hbc
    exact absurd hc.2 (by rw [← hbc]; exact lt_irrefl _)
  refine fun r hr => ⟨hfits r hr, fun hended => ?_⟩
  by_contra hlong
  subst hended
  obtain ⟨h1, h2, hle, hmem⟩ := runs_inRange p hr
  obtain ⟨b, hof, hnot⟩ := discardRange_short h1 h2 (hfits r hr) (not_lt.1 hlong)
  obtain ⟨l', hpath, hall⟩ := h.all (hok rfl)
  obtain rfl := hpath.unique (p.path rfl)
  -- the block left out is in a range, and so in another run with the last cluster of this one
  have hlast : r.2 ∈ run r := mem_run.2 ⟨hle, le_rfl⟩
  obtain ⟨_, hrange, hb⟩ := (hall b).2 ⟨r.2, hmem _ hlast, (mem_clusterBlocks h2).2 hof⟩
  obtain ⟨q, hq, rfl⟩ := List.mem_map.1 hrange
  obtain ⟨hq1, hq2, hqle, -⟩ := runs_inRange p hq
  have hqlast : r.2 ∈ run q := hof ▸ discardRange_subset hq1 hq2 hqle (hfits q hq) hb
  obtain rfl := runs_unique (erase_meets p fun _ _ => follows_link) p.nodup hq hr hqlast hlast
  exact hnot hb

/-- **Discards are right exactly when the runs fit.** -/
theorem fatFreeClusters_discards (sb : FatSb) (s : St) (a : ℤ) :
    (∀ env, ∃ ds, DiscardsChain env sb s a ds) ↔ RunsFit sb s.vol a := by
  constructor
  · intro h
    obtain ⟨ds, hds⟩ := h goodEnv
    exact runsFit_of_discardsChain goodEnv_noFault hds
  · exact discardsChain_of_runsFit

end

/-! ## Runs too long -/

/-- a chain of the clusters 2 to `z` in a row is one run -/
theorem row_runs {sb : FatSb} {n : ℕ} (hz : 2 + n < sb.maxCluster) (hbad : ((2 + n : ℕ) : ℤ) < BAD_FAT32) :
    (runs (fatLink sb (wordsVol sb (rowWords 2 (2 + n)))) (2 : ℕ) ((List.range' 2 (n + 1)).map fun i : ℕ => (i : ℤ))).1 =
      [(((2 : ℕ) : ℤ), ((2 + n : ℕ) : ℤ))] := by
  refine runs_row (fun i h1 h2 => ?_) ?_
  · rw [row_next h1 h2 hz hbad]
    push_cast
    rfl
  · rw [row_last 2 hz]
    unfold BAD_FAT32 at hbad
    unfold FAT_ENT_EOF
    omega

/-- such a chain is discarded wrong when the number of its blocks is negative as an `int` -/
theorem row_wild {sb : FatSb} {n : ℕ} (hz : 2 + n < sb.maxCluster) (hbad : ((2 + n : ℕ) : ℤ) < BAD_FAT32)
    (hwild : 2 ^ 31 ≤ runBlocks sb (((2 : ℕ) : ℤ), ((2 + n : ℕ) : ℤ)) % 2 ^ 32) :
    ¬ ∃ ds, DiscardsChain goodEnv sb (St.idle (wordsVol sb (rowWords 2 (2 + n)))) (2 : ℕ) ds := by
  rintro ⟨ds, hds⟩
  have hfit : RunsFit sb (wordsVol sb (rowWords 2 (2 + n))) (2 : ℕ) :=
    runsFit_of_discardsChain (s := St.idle _) goodEnv_noFault hds
  have p := row_path le_rfl hz hbad n 2 le_rfl rfl
  have hmem := List.mem_singleton.2 (Eq.refl (((2 : ℕ) : ℤ), ((2 + n : ℕ) : ℤ)))
  rw [← row_runs hz hbad] at hmem
  exact absurd (hfit _ true p.erase _ hmem).1 (not_lt.2 hwild)

/-- 512-byte blocks, 128 a cluster, one FAT, `2 ^ 24` clusters -/
def hugeSb : FatSb := .at1 9 7 (2 ^ 17 + 1) 1 (2 ^ 17 + 2) (2 ^ 24 + 2) (by decide)

/-- `2 ^ 24` clusters in a row, of 128 blocks each -/
theorem discards_overflow : ¬ ∀ (env : Env) (sb : FatSb) (s : St) (a : ℤ), ∃ ds, DiscardsChain env sb s a ds := by
  intro hall
  have hz : 2 + 16777215 < hugeSb.maxCluster := by
    change 2 + 16777215 < 2 ^ 24 + 2
    norm_num
  have hbad : ((2 + 16777215 : ℕ) : ℤ) < BAD_FAT32 := by
    unfold BAD_FAT32
    norm_num
  refine row_wild hz hbad ?_ (hall _ _ _ _)
  have hspc : hugeSb.secPerClus = 128 := by decide
  rw [runBlocks, hspc]
  norm_num

end AtsLdd.Fat
