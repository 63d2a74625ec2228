/-
The bytes of a directory in a row, and what adding entries stores in them.

- `slot_dirBytes`: slot `i` is the 32 bytes from byte `32 * i` on;
- `fillFree_bytes`: free slots that are filled hold the bytes of the new entries, one behind the other, across all buffers;
- `fatAddNewEntries_bytes`: new clusters hold the bytes of the new entries, and zeros behind them.
-/
import AtsLdd.Core.Paged
import AtsLdd.Fat.DataBlocks
import AtsLdd.Fat.SlotSearch

namespace AtsLdd.Fat

open AtsLdd.Machine AtsLdd.ByteMap AtsLdd.LinkTable AtsLdd.Paged

/-- the bytes of a directory with the clusters `l`, through its blocks -/
def dirBytes (sb : FatSb) (l : List ℤ) (vol : Vol) : ℕ → UInt8 := view sb.blocksize (dirBlock sb l) vol

/-- the number of its bytes -/
def nrBytes (sb : FatSb) (l : List ℤ) : ℕ := nrBlocks sb l * sb.blocksize

/-- clusters of the volume, all different -/
structure Clusters (sb : FatSb) (l : List ℤ) : Prop where
  inRange : ∀ x ∈ l, InRange sb x
  nodup : l.Nodup

section
variable {env : Env} {sb : FatSb} {s : St} {l cs : List ℤ} {vol vol' : Vol} {q i p : ℕ}

theorem Clusters.distinct (h : Clusters sb l) : Distinct (dirBlock sb l) (nrBlocks sb l) :=
  fun _ _ => dirBlock_inj h.inRange h.nodup

theorem DirChain.clusters {start : ℤ} (h : DirChain sb vol start l) : Clusters sb l := ⟨h.inRange, h.nodup⟩

/-! ## Blocks and slots -/

theorem nrBlocks_append (sb : FatSb) (l cs : List ℤ) : nrBlocks sb (l ++ cs) = nrBlocks sb l + nrBlocks sb cs := by
  unfold nrBlocks
  rw [List.length_append, Nat.add_mul]

/-- the blocks of a longer chain -/
theorem dirBlock_append_left (hq : q < nrBlocks sb l) : dirBlock sb (l ++ cs) q = dirBlock sb l q := by
  have hk : q / sb.secPerClus < l.length := (Nat.div_lt_iff_lt_mul sb.secPerClus_pos).2 hq
  unfold dirBlock
  rw [List.getD_eq_getElem?_getD, List.getD_eq_getElem?_getD, List.getElem?_append_left hk]

/-- the blocks of a cluster follow each other -/
theorem dirBlock_add (h : Clusters sb l) {k : ℕ} {c : ℤ} (hc : l[k]? = some c) {j : ℕ} (hj : j < sb.secPerClus) :
    dirBlock sb l (k * sb.secPerClus + j) = fatClusToBlknr sb c + j := by
  obtain ⟨hdiv, hmod⟩ := page_cell (q := k) hj
  unfold dirBlock
  rw [hdiv, hmod, List.getD_eq_getElem?_getD, hc, Option.getD_some]
  exact (dataStart_le_block (h.inRange c (List.mem_of_getElem? hc)) hj).2

theorem nrBytes_eq (sb : FatSb) (l : List ℤ) : nrBytes sb l = DENT_SIZE * nrSlots sb l := by
  unfold nrBytes nrSlots
  rw [blocksize_eq]
  ring

theorem nrBytes_append (sb : FatSb) (l cs : List ℤ) : nrBytes sb (l ++ cs) = nrBytes sb l + nrBytes sb cs := by
  unfold nrBytes
  rw [nrBlocks_append, Nat.add_mul]

theorem nrBytes_clusters (sb : FatSb) (l : List ℤ) : nrBytes sb l = l.length * sb.clusterSize := by
  unfold nrBytes nrBlocks FatSb.clusterSize
  ring

/-- **The bytes of a slot.** -/
theorem slot_dirBytes (sb : FatSb) (l : List ℤ) (vol : Vol) (i : ℕ) {k : ℕ} (hk : k < DENT_SIZE) :
    slot sb l vol i k = dirBytes sb l vol (DENT_SIZE * i + k) := by
  obtain ⟨hdiv, hmod⟩ := slot_pos sb i
  have hlt : slotOff sb i + k < sb.blocksize := by
    have hi := Nat.mod_lt i (dirPerBlock_pos sb)
    unfold slotOff
    rw [blocksize_eq]
    have hle : DENT_SIZE * (i % sb.dirPerBlock + 1) ≤ DENT_SIZE * sb.dirPerBlock := Nat.mul_le_mul_left _ hi
    rw [Nat.mul_succ] at hle
    omega
  have hsplit : DENT_SIZE * i + k = i / sb.dirPerBlock * sb.blocksize + (slotOff sb i + k) := by
    have hdm := Nat.div_add_mod' (DENT_SIZE * i) sb.blocksize
    rw [hdiv, hmod] at hdm
    omega
  obtain ⟨hd, hm⟩ := page_cell (q := i / sb.dirPerBlock) hlt
  unfold dirBytes view
  rw [hsplit, hd, hm]
  rfl

/-- the data blocks show all the bytes -/
theorem dirBytes_sameData {s' : St} (h : Clusters sb l) (hsame : SameData sb s s') (hp : p < nrBytes sb l) :
    dirBytes sb l s'.vol p = dirBytes sb l s.vol p :=
  view_elsewhere (fun _ hq => hsame _ (dataStart_le_dirBlock h.inRange hq)) hp

/-! ## Filling free slots -/

theorem FillSlots.copy_bytes (h : Clusters sb l) (f : FillSlots) (hq : q < nrBlocks sb l) (hoff : f.offset ≤ sb.blocksize)
    (hp : p < nrBytes sb l) : dirBytes sb l (f.copy sb (dirBlock sb l q)).s.vol p =
      splice (dirBytes sb l f.s.vol) (q * sb.blocksize + f.offset) (f.slots.take (min (sb.blocksize - f.offset) f.size)) p := by
  apply view_splice h.distinct hq hp
  have hlen := List.length_take_le (min (sb.blocksize - f.offset) f.size) f.slots
  omega

/-- **Slots are copied** into blocks that follow each other. -/
theorem foldl_copy_bytes (h : Clusters sb l) (n : ℕ) : ∀ {q : ℕ} {f : FillSlots}, q + n ≤ nrBlocks sb l →
    f.offset ≤ sb.blocksize → f.offset + f.size ≤ n * sb.blocksize → f.size ≤ f.slots.length →
    (((List.range' q n).map (dirBlock sb l)).foldl (fun f b => f.copy sb b) f).slots = f.slots.drop f.size ∧
      ∀ p < nrBytes sb l, dirBytes sb l (((List.range' q n).map (dirBlock sb l)).foldl (fun f b => f.copy sb b) f).s.vol p =
        splice (dirBytes sb l f.s.vol) (q * sb.blocksize + f.offset) (f.slots.take f.size) p := by
  induction n with
  | zero =>
    intro q f _ _ hfit _
    have hzero : f.size = 0 := by omega
    rw [hzero, List.take_zero, List.drop_zero]
    exact ⟨rfl, fun p _ => (congrFun (splice_nil _ _) p).symm⟩
  | succ n ih =>
    intro q f hq hoff hfit hlen
    rw [List.range'_succ, List.map_cons, List.foldl_cons]
    have hcopy := fun p hp => FillSlots.copy_bytes h f (show q < nrBlocks sb l by omega) hoff (p := p) hp
    have hfields : (f.copy sb (dirBlock sb l q)).offset = 0 ∧
        (f.copy sb (dirBlock sb l q)).size = f.size - min (sb.blocksize - f.offset) f.size ∧
        (f.copy sb (dirBlock sb l q)).slots = f.slots.drop (min (sb.blocksize - f.offset) f.size) := ⟨rfl, rfl, rfl⟩
    generalize f.copy sb (dirBlock sb l q) = f1 at hcopy hfields ⊢
    obtain ⟨c, hc⟩ : ∃ c, c = min (sb.blocksize - f.offset) f.size := ⟨_, rfl⟩
    rw [← hc] at hfields hcopy
    obtain ⟨ho, hs, hsl⟩ := hfields
    rw [Nat.succ_mul] at hfit
    obtain ⟨hslots, hbytes⟩ := ih (q := q + 1) (f := f1) (by omega) (by omega) (by omega)
      (by rw [hs, hsl, List.length_drop]; omega)
    have hsum : f.size = c + f1.size := by omega
    refine ⟨?_, fun p hp => ?_⟩
    · rw [hslots, hsl, List.drop_drop, hsum]
    · rw [hbytes p hp, splice_congr (hcopy p hp), hsl, hsum, List.take_add]
      rcases Nat.le_total f.size (sb.blocksize - f.offset) with hle | hle
      · have hnone : f1.size = 0 := by omega
        rw [hnone, List.take_zero, splice_nil, List.append_nil]
      · have hpos : (q + 1) * sb.blocksize + f1.offset =
            q * sb.blocksize + f.offset + (f.slots.take c).length := by
          rw [ho, List.length_take, Nat.succ_mul]
          omega
        rw [hpos, splice_append]

/-- **The second stage** of `fat_add_entries`, when it succeeds, has copied slots into all its buffers. -/
theorem fillFree_zero (env : Env) (dirsync : Bool) {bhs : List ℕ} {left : ℕ} {f : FillSlots}
    (h0 : (fillFree env sb dirsync bhs left f).1 = 0) :
    (fillFree env sb dirsync bhs left f).2.s.vol = (bhs.foldl (fun f b => f.copy sb b) f).s.vol ∧
      (fillFree env sb dirsync bhs left f).2.slots = (bhs.foldl (fun f b => f.copy sb b) f).slots := by
  unfold fillFree at h0 ⊢
  simp only at h0 ⊢
  have hlast : (bhs.drop (bhs.length - if left = 0 then 1 else 0)).length ≤ 1 := by
    rw [List.length_drop]
    split_ifs <;> omega
  have hfold : bhs.foldl (fun f b => f.copy sb b) f = (bhs.drop (bhs.length - if left = 0 then 1 else 0)).foldl
      (fun f b => f.copy sb b) ((bhs.take (bhs.length - if left = 0 then 1 else 0)).foldl (fun f b => f.copy sb b) f) := by
    rw [← List.foldl_append, List.take_append_drop]
  rw [hfold]
  generalize bhs.length - (if left = 0 then 1 else 0) = long at h0 hlast ⊢
  generalize (bhs.take long).foldl (fun f b => f.copy sb b) f = f1 at h0 ⊢
  have hsync : (if long ≠ 0 ∧ dirsync = true then fatSyncBhs env f1.s (bhs.take long) else (0, f1.s)).1 = 0 →
      (if long ≠ 0 ∧ dirsync = true then fatSyncBhs env f1.s (bhs.take long) else (0, f1.s)).2.vol = f1.s.vol := by
    split_ifs
    · intro h
      exact (fatSyncBhs_zero env sb _ _ h).1
    · intro _
      exact rfl
  generalize (if long ≠ 0 ∧ dirsync = true then fatSyncBhs env f1.s (bhs.take long) else (0, f1.s)) = r at h0 hsync ⊢
  obtain ⟨err, s1⟩ := r
  simp only at h0 hsync ⊢
  cases hdrop : bhs.drop long with
  | nil =>
    rw [hdrop] at h0
    exact ⟨(foldl_brelse_vol bhs s1).trans (hsync h0), rfl⟩
  | cons b rest =>
    rw [hdrop, List.length_cons] at hlast
    obtain rfl : rest = [] := List.eq_nil_of_length_eq_zero (by omega)
    rw [hdrop] at h0
    simp only at h0 ⊢
    by_cases herr : err = 0
    · have hcopy : (({ f1 with s := s1 } : FillSlots).copy sb b).s.vol = (f1.copy sb b).s.vol := by
        unfold FillSlots.copy
        simp only [hsync herr]
      rw [if_pos herr] at h0 ⊢
      cases dirsync with
      | false => exact ⟨(foldl_brelse_vol bhs _).trans hcopy, rfl⟩
      | true =>
        simp only [if_true, syncDirtyBuffer] at h0 ⊢
        cases hw : env.sync s1.t b with
        | true =>
          have hw' : env.sync (({ f1 with s := s1 } : FillSlots).copy sb b).s.t b = true := hw
          simp only [hw', if_true]
          exact ⟨(foldl_brelse_vol bhs _).trans hcopy, rfl⟩
        | false =>
          have hw' : env.sync (({ f1 with s := s1 } : FillSlots).copy sb b).s.t b = false := hw
          simp only [hw', Bool.false_eq_true, if_false] at h0
          exact absurd h0 (by decide)
    · rw [if_neg herr] at h0
      exact absurd h0 herr

/-- **Free slots that are filled** hold the bytes of the new entries. -/
theorem fillFree_bytes (h : Clusters sb l) (env : Env) (dirsync : Bool) {m left : ℕ} {slots : List UInt8}
    (hm : 0 < m) (hle : i + m ≤ nrSlots sb l) (hlen : DENT_SIZE * m ≤ slots.length)
    (h0 : (fillFree env sb dirsync ((blockRun sb i m).map (dirBlock sb l)) left
      ⟨DENT_SIZE * i % sb.blocksize, m * DENT_SIZE, slots, s⟩).1 = 0) :
    (fillFree env sb dirsync ((blockRun sb i m).map (dirBlock sb l)) left
        ⟨DENT_SIZE * i % sb.blocksize, m * DENT_SIZE, slots, s⟩).2.slots = slots.drop (DENT_SIZE * m) ∧
      ∀ p < nrBytes sb l, dirBytes sb l (fillFree env sb dirsync ((blockRun sb i m).map (dirBlock sb l)) left
          ⟨DENT_SIZE * i % sb.blocksize, m * DENT_SIZE, slots, s⟩).2.s.vol p =
        splice (dirBytes sb l s.vol) (DENT_SIZE * i) (slots.take (DENT_SIZE * m)) p := by
  obtain ⟨hvol, hslots⟩ := fillFree_zero env dirsync h0
  obtain ⟨hdiv, -⟩ := slot_pos sb i
  have hpos := dirPerBlock_pos sb
  have hrun : blockRun sb i m = List.range' (i / sb.dirPerBlock) ((i + m - 1) / sb.dirPerBlock + 1 - i / sb.dirPerBlock) := by
    unfold blockRun
    rw [if_neg hm.ne']
  have hmono : i / sb.dirPerBlock ≤ (i + m - 1) / sb.dirPerBlock := Nat.div_le_div_right (by omega)
  have hin : (i + m - 1) / sb.dirPerBlock < nrBlocks sb l := slot_block (by omega)
  have hdm := Nat.div_add_mod' (DENT_SIZE * i) sb.blocksize
  rw [hdiv] at hdm
  have hfit : DENT_SIZE * i % sb.blocksize + m * DENT_SIZE ≤
      ((i + m - 1) / sb.dirPerBlock + 1 - i / sb.dirPerBlock) * sb.blocksize := by
    have hlast := Nat.lt_mul_div_succ (i + m - 1) hpos
    have hbytes : DENT_SIZE * (i + m) ≤ ((i + m - 1) / sb.dirPerBlock + 1) * sb.blocksize := by
      rw [blocksize_eq, Nat.mul_comm _ (DENT_SIZE * sb.dirPerBlock), Nat.mul_assoc]
      exact Nat.mul_le_mul_left _ (by omega)
    rw [Nat.sub_mul, Nat.mul_comm m]
    rw [Nat.mul_add] at hbytes
    omega
  have hoff : DENT_SIZE * i % sb.blocksize ≤ sb.blocksize := (Nat.mod_lt _ sb.blocksize_pos).le
  obtain ⟨h1, h2⟩ := foldl_copy_bytes h ((i + m - 1) / sb.dirPerBlock + 1 - i / sb.dirPerBlock)
    (q := i / sb.dirPerBlock) (f := ⟨DENT_SIZE * i % sb.blocksize, m * DENT_SIZE, slots, s⟩) (by omega) hoff hfit
    (Nat.mul_comm DENT_SIZE m ▸ hlen)
  rw [← hrun] at h1 h2
  simp only [hdm, Nat.mul_comm m DENT_SIZE] at h1 h2 hvol hslots ⊢
  refine ⟨hslots.trans h1, fun p hp => ?_⟩
  rw [hvol]
  exact h2 p hp

/-! ## New clusters -/

/-- the buffers of the blocks `q` to `q + n` of the directory are filled with the first `w` bytes that were left -/
structure Filled (sb : FatSb) (l : List ℤ) (q : ℕ) (f f' : NewSlots) (n w : ℕ) : Prop where
  lt : n * sb.blocksize < w
  le : w ≤ (n + 1) * sb.blocksize
  bhs : f'.bhs = f.bhs ++ (List.range' q (n + 1)).map (dirBlock sb l)
  copy : f'.copy + n * sb.blocksize = w
  size : f'.size = f.size - w
  slots : f'.slots = f.slots.drop w
  bytes : ∀ p < nrBytes sb l, dirBytes sb l f'.s.vol p = splice (dirBytes sb l f.s.vol) (q * sb.blocksize) (f.slots.take w) p

/-- blocks that are full, and those behind them -/
theorem Filled.trans {f f1 f2 : NewSlots} {n k w : ℕ} (h1 : Filled sb l q f f1 n ((n + 1) * sb.blocksize))
    (h2 : Filled sb l (q + (n + 1)) f1 f2 k w) (hlen : (n + 1) * sb.blocksize ≤ f.slots.length) :
    Filled sb l q f f2 (n + 1 + k) ((n + 1) * sb.blocksize + w) where
  lt := by
    rw [Nat.add_mul]
    exact Nat.add_lt_add_left h2.lt _
  le := by
    rw [Nat.add_assoc (n + 1), Nat.add_mul (n + 1)]
    exact Nat.add_le_add_left h2.le _
  bhs := by
    rw [h2.bhs, h1.bhs, List.append_assoc, ← List.map_append, List.range'_append_1, ← Nat.add_assoc]
  copy := by
    rw [Nat.add_mul, ← h2.copy]
    omega
  size := by rw [h2.size, h1.size, Nat.sub_sub]
  slots := by rw [h2.slots, h1.slots, List.drop_drop]
  bytes := by
    intro p hp
    have hpos : (q + (n + 1)) * sb.blocksize = q * sb.blocksize + (f.slots.take ((n + 1) * sb.blocksize)).length := by
      rw [List.length_take, min_eq_left hlen, Nat.add_mul]
    rw [h2.bytes p hp, splice_congr (h1.bytes p hp), h1.slots, hpos, splice_append, ← List.take_add]

/-- **The blocks of one new cluster** are filled, as far as there are bytes. -/
theorem newBlocks_bytes (h : Clusters sb l) (env : Env) (left : ℕ) : ∀ {q blknr : ℕ} {f : NewSlots}, 0 < left →
    q + left ≤ nrBlocks sb l → (∀ j < left, dirBlock sb l (q + j) = blknr + j) → 0 < f.size → f.size ≤ f.slots.length →
    (newBlocks env sb left blknr f).1 = true →
    ∃ n < left, Filled sb l q f (newBlocks env sb left blknr f).2 n (min f.size (left * sb.blocksize)) := by
  induction left with
  | zero => exact fun h => absurd h (Nat.lt_irrefl 0)
  | succ left ih =>
    intro q blknr f _ hq hblk hsize hlen hok
    have hbs := sb.blocksize_pos
    rw [newBlocks] at hok ⊢
    by_cases hget : env.getblk f.s.t = false
    · rw [if_pos hget] at hok
      exact absurd hok (by simp)
    rw [if_neg hget] at hok ⊢
    simp only at hok ⊢
    have hfirst : Filled sb l q f ⟨f.bhs ++ [blknr], min f.size sb.blocksize, f.size - min f.size sb.blocksize,
        f.slots.drop (min f.size sb.blocksize), { f.s with
          t := f.s.t + 1
          refs := Function.update f.s.refs blknr (f.s.refs blknr + 1)
          vol := Function.update f.s.vol blknr (splice (f.s.vol blknr) 0 (f.slots.take (min f.size sb.blocksize))) }⟩
        0 (min f.size sb.blocksize) := by
      have hb : blknr = dirBlock sb l q := (hblk 0 (Nat.succ_pos left)).symm
      refine ⟨?_, ?_, ?_, ?_, rfl, rfl, fun p hp => ?_⟩
      · rw [Nat.zero_mul]
        exact lt_min hsize hbs
      · rw [Nat.zero_add, Nat.one_mul]
        exact min_le_right _ _
      · rw [hb]
        rfl
      · rw [Nat.zero_mul, Nat.add_zero]
      · rw [hb]
        refine (view_splice h.distinct (show q < nrBlocks sb l by omega) hp ?_).trans (by rw [Nat.add_zero]; rfl)
        rw [Nat.zero_add]
        exact (List.length_take_le _ _).trans (min_le_right _ _)
    generalize (⟨f.bhs ++ [blknr], min f.size sb.blocksize, f.size - min f.size sb.blocksize,
      f.slots.drop (min f.size sb.blocksize), _⟩ : NewSlots) = f1 at hok hfirst ⊢
    have hs1 := hfirst.size
    rw [← hs1] at hok ⊢
    by_cases hdone : f1.size = 0
    · rw [if_pos hdone]
      have hle : f.size ≤ sb.blocksize := by omega
      have hall : min f.size ((left + 1) * sb.blocksize) = min f.size sb.blocksize := by
        rw [min_eq_left hle, min_eq_left (hle.trans (Nat.le_mul_of_pos_left _ (Nat.succ_pos left)))]
      exact ⟨0, Nat.succ_pos left, hall ▸ hfirst⟩
    · rw [if_neg hdone] at hok ⊢
      have hgt : sb.blocksize < f.size := by omega
      rw [min_eq_right hgt.le] at hfirst hs1
      rcases Nat.eq_zero_or_pos left with rfl | hleft
      · refine ⟨0, Nat.one_pos, ?_⟩
        rw [Nat.zero_add, Nat.one_mul, min_eq_right hgt.le]
        exact hfirst
      · have hlen1 : f1.size ≤ f1.slots.length := by
          rw [hfirst.slots, List.length_drop]
          omega
        have hblk1 : ∀ j < left, dirBlock sb l (q + 1 + j) = blknr + 1 + j := by
          intro j hj
          rw [Nat.add_assoc, Nat.add_assoc, Nat.add_comm 1 j]
          exact hblk (j + 1) (Nat.succ_lt_succ hj)
        obtain ⟨n, hn, hrest⟩ := ih (q := q + 1) (f := f1) hleft (by omega) hblk1 (by omega) hlen1 hok
        have hmin : sb.blocksize + min f1.size (left * sb.blocksize) = min f.size ((left + 1) * sb.blocksize) := by
          rw [Nat.succ_mul]
          omega
        have hboth := Filled.trans (n := 0) (f := f) (by rw [Nat.zero_add, Nat.one_mul]; exact hfirst) hrest
          (by rw [Nat.zero_add, Nat.one_mul]; omega)
        rw [Nat.zero_add, Nat.one_mul, hmin] at hboth
        exact ⟨1 + n, by omega, hboth⟩

/-- **The new clusters** `cs` are filled up to the last byte. -/
theorem newClusters_bytes (h : Clusters sb l) (env : Env) (cs : List ℤ) : ∀ {k : ℕ} {f : NewSlots}, cs ≠ [] →
    (∀ j, cs[j]? = l[k + j]? ) → f.size ≤ f.slots.length → (cs.length - 1) * sb.clusterSize < f.size →
    f.size ≤ cs.length * sb.clusterSize → (newClusters env sb cs f).1 = true →
    ∃ n, Filled sb l (k * sb.secPerClus) f (newClusters env sb cs f).2 n f.size := by
  induction cs with
  | nil => exact fun h => absurd rfl h
  | cons c cs ih =>
    intro k f _ hcs hlen hlt hle hok
    have hspc := sb.secPerClus_pos
    have hc : l[k]? = some c := (hcs 0).symm
    have hk : k < l.length := (List.getElem?_eq_some_iff.1 hc).1
    have hq : k * sb.secPerClus + sb.secPerClus ≤ nrBlocks sb l := by
      rw [← Nat.succ_mul]
      exact Nat.mul_le_mul_right _ hk
    rw [newClusters] at hok ⊢
    have hblk : ∀ j < sb.secPerClus, dirBlock sb l (k * sb.secPerClus + j) = fatClusToBlknr sb c + j :=
      fun j hj => dirBlock_add h hc hj
    have hblocks := newBlocks_bytes h env sb.secPerClus (f := f) hspc hq hblk (by omega) hlen
    generalize newBlocks env sb sb.secPerClus (fatClusToBlknr sb c) f = r at hok hblocks ⊢
    obtain ⟨ok, f1⟩ := r
    cases ok with
    | false => exact absurd hok (by simp)
    | true =>
      obtain ⟨n, hn, hfill⟩ := hblocks rfl
      have hsize : sb.secPerClus * sb.blocksize = sb.clusterSize := Nat.mul_comm _ _
      rw [hsize] at hfill
      simp only at hok ⊢
      cases cs with
      | nil =>
        rw [List.length_singleton, Nat.one_mul] at hle
        rw [min_eq_left hle] at hfill
        exact ⟨n, hfill⟩
      | cons d cs =>
        rw [List.length_cons, Nat.add_sub_cancel] at hlt
        -- the cluster is full
        have hgt : sb.clusterSize < f.size := lt_of_le_of_lt (Nat.le_mul_of_pos_left _ (Nat.succ_pos _)) hlt
        rw [min_eq_right hgt.le] at hfill
        have hnlast : n + 1 = sb.secPerClus := by
          refine le_antisymm hn (Nat.le_of_mul_le_mul_right ?_ sb.blocksize_pos)
          rw [hsize]
          exact hfill.le
        have hw : (n + 1) * sb.blocksize = sb.clusterSize := by rw [hnlast, hsize]
        rw [← hw] at hfill
        have hs1 : f1.size = f.size - sb.clusterSize := by rw [hfill.size, hw]
        have hlen1 : f1.size ≤ f1.slots.length := by
          rw [hs1, hfill.slots, List.length_drop, hw]
          omega
        rw [List.length_cons, Nat.succ_mul] at hlt
        rw [List.length_cons, List.length_cons, Nat.succ_mul] at hle
        obtain ⟨n', hrest⟩ := ih (k := k + 1) (f := f1) (List.cons_ne_nil d cs)
          (fun j => by rw [Nat.add_assoc, Nat.add_comm 1 j]; exact hcs (j + 1)) hlen1
          (by rw [hs1, List.length_cons, Nat.add_sub_cancel]; omega) (by rw [hs1, List.length_cons]; omega) hok
        have hpos : (k + 1) * sb.secPerClus = k * sb.secPerClus + (n + 1) := by rw [hnlast, Nat.succ_mul]
        rw [hpos] at hrest
        have hboth := hfill.trans hrest (by rw [hw]; omega)
        have hall : (n + 1) * sb.blocksize + f1.size = f.size := by
          rw [hw, hs1]
          omega
        rw [hall] at hboth
        exact ⟨n + 1 + n', hboth⟩

/-- the blocks behind the new entries are zeroed -/
theorem zeroLoop_bytes (h : Clusters sb l) (env : Env) (dirsync : Bool) (nrBhs left : ℕ) : ∀ {q blknr : ℕ} {z : Zeroing},
    q + left ≤ nrBlocks sb l → (∀ j < left, dirBlock sb l (q + j) = blknr + j) →
    (zeroLoop env sb dirsync nrBhs left blknr z).1 = 0 →
    ∀ p < nrBytes sb l, dirBytes sb l (zeroLoop env sb dirsync nrBhs left blknr z).2.s.vol p =
      splice (dirBytes sb l z.s.vol) (q * sb.blocksize) (List.replicate (left * sb.blocksize) 0) p := by
  induction left with
  | zero =>
    intro q blknr z _ _ _ p _
    rw [Nat.zero_mul, List.replicate_zero, splice_nil]
    rfl
  | succ left ih =>
    intro q blknr z hq hblk h0 p hp
    rw [zeroLoop] at h0 ⊢
    by_cases hget : env.getblk z.s.t = false
    · rw [if_pos hget] at h0
      exact absurd h0 (show ¬ (- ENOMEM : ℤ) = 0 by decide)
    rw [if_neg hget] at h0 ⊢
    simp only at h0 ⊢
    -- the block that is zeroed
    have hb : blknr = dirBlock sb l q := (hblk 0 (Nat.succ_pos left)).symm
    have hstore : dirBytes sb l (Function.update z.s.vol blknr
        (splice (z.s.vol blknr) 0 (List.replicate sb.blocksize 0))) p =
        splice (dirBytes sb l z.s.vol) (q * sb.blocksize) (List.replicate sb.blocksize 0) p := by
      rw [hb]
      refine (view_splice h.distinct (show q < nrBlocks sb l by omega) hp ?_).trans (by rw [Nat.add_zero]; rfl)
      rw [Nat.zero_add, List.length_replicate]
    generalize hs1 : ({ z.s with
      t := z.s.t + 1
      refs := Function.update z.s.refs blknr (z.s.refs blknr + 1)
      vol := Function.update z.s.vol blknr (splice (z.s.vol blknr) 0 (List.replicate sb.blocksize 0)) } : St) = s1 at h0 ⊢
    have hvol1 : s1.vol = Function.update z.s.vol blknr (splice (z.s.vol blknr) 0 (List.replicate sb.blocksize 0)) := by
      rw [← hs1]
    have hrest : ∀ z' : Zeroing, z'.s.vol = s1.vol → (zeroLoop env sb dirsync nrBhs left (blknr + 1) z').1 = 0 →
        dirBytes sb l (zeroLoop env sb dirsync nrBhs left (blknr + 1) z').2.s.vol p =
          splice (dirBytes sb l z.s.vol) (q * sb.blocksize) (List.replicate ((left + 1) * sb.blocksize) 0) p := by
      intro z' hz' hzero
      have hpos : (q + 1) * sb.blocksize = q * sb.blocksize + (List.replicate sb.blocksize (0 : UInt8)).length := by
        rw [List.length_replicate, Nat.succ_mul]
      rw [ih (q := q + 1) (by omega)
        (fun j hj => by rw [Nat.add_assoc, Nat.add_assoc, Nat.add_comm 1 j]; exact hblk (j + 1) (Nat.succ_lt_succ hj))
        hzero p hp, hz', hvol1, splice_congr hstore, hpos, splice_append, ← List.replicate_add, Nat.succ_mul,
        Nat.add_comm sb.blocksize]
    by_cases hfull : (z.bhs ++ [blknr]).length = nrBhs
    · rw [if_pos hfull] at h0 ⊢
      have hsync : (if dirsync = true then fatSyncBhs env s1 (z.bhs ++ [blknr]) else (0, s1)).1 = 0 →
          (if dirsync = true then fatSyncBhs env s1 (z.bhs ++ [blknr]) else (0, s1)).2.vol = s1.vol := by
        split_ifs
        · intro h
          exact (fatSyncBhs_zero env sb _ _ h).1
        · intro _
          exact rfl
      generalize (if dirsync = true then fatSyncBhs env s1 (z.bhs ++ [blknr]) else (0, s1)) = r at h0 hsync ⊢
      obtain ⟨err, s2⟩ := r
      simp only at h0 hsync ⊢
      by_cases herr : err ≠ 0
      · rw [if_pos herr] at h0
        exact absurd h0 herr
      · rw [if_neg herr] at h0 ⊢
        exact hrest _ ((foldl_brelse_vol _ s2).trans (hsync (not_not.1 herr))) h0
    · rw [if_neg hfull] at h0 ⊢
      exact hrest _ rfl h0

/-- `fat_zeroed_cluster`, when it succeeds -/
theorem fatZeroedCluster_bytes (h : Clusters sb l) (env : Env) (dirsync : Bool) (s : St) (blknr : ℕ) (bhs : List ℕ) (nrBhs : ℕ)
    (hq : q + (sb.secPerClus - bhs.length) ≤ nrBlocks sb l)
    (hblk : ∀ j < sb.secPerClus - bhs.length, dirBlock sb l (q + j) = blknr + bhs.length + j)
    (h0 : (fatZeroedCluster env sb dirsync s blknr bhs nrBhs).1 = 0) (hp : p < nrBytes sb l) :
    dirBytes sb l (fatZeroedCluster env sb dirsync s blknr bhs nrBhs).2.vol p = splice (dirBytes sb l s.vol) (q * sb.blocksize)
      (List.replicate ((sb.secPerClus - bhs.length) * sb.blocksize) 0) p := by
  have hloop := zeroLoop_bytes h env dirsync nrBhs (sb.secPerClus - bhs.length) (z := ⟨bhs, s⟩) hq hblk
  unfold fatZeroedCluster at h0 ⊢
  simp only at h0 ⊢
  generalize zeroLoop env sb dirsync nrBhs (sb.secPerClus - bhs.length) (blknr + bhs.length) ⟨bhs, s⟩ = r at h0 hloop ⊢
  obtain ⟨err, z⟩ := r
  simp only at h0 hloop ⊢
  have hsync : (if err = 0 ∧ dirsync = true then fatSyncBhs env z.s z.bhs else (err, z.s)).1 = 0 →
      err = 0 ∧ (if err = 0 ∧ dirsync = true then fatSyncBhs env z.s z.bhs else (err, z.s)).2.vol = z.s.vol := by
    split_ifs with hdo
    · intro hz
      exact ⟨hdo.1, (fatSyncBhs_zero env sb _ _ hz).1⟩
    · intro hz
      exact ⟨hz, rfl⟩
  obtain ⟨herr, hvol⟩ := hsync h0
  rw [foldl_brelse_vol, hvol]
  exact hloop herr p hp

/-- the clusters that new entries need are enough for them, and no cluster is superfluous -/
theorem nrCluster_spec (sb : FatSb) {nr : ℕ} (hnr : 0 < nr) :
    (nrCluster sb nr - 1) * sb.clusterSize < DENT_SIZE * nr ∧ DENT_SIZE * nr ≤ nrCluster sb nr * sb.clusterSize := by
  have hpos := sb.clusterSize_pos
  have hdiv := Nat.div_add_mod' (nr * DENT_SIZE + (sb.clusterSize - 1)) sb.clusterSize
  have hmod := Nat.mod_lt (nr * DENT_SIZE + (sb.clusterSize - 1)) hpos
  have hone := nrCluster_pos sb hnr
  have hk : nrCluster sb nr = (nr * DENT_SIZE + (sb.clusterSize - 1)) / sb.clusterSize := by
    unfold nrCluster
    rw [← sb.clusterSize_eq]
  rw [← hk] at hdiv
  rw [Nat.sub_mul, Nat.one_mul, Nat.mul_comm DENT_SIZE]
  have hle : sb.clusterSize ≤ nrCluster sb nr * sb.clusterSize := Nat.le_mul_of_pos_left _ hone
  omega

/-- the entries of one file need a second cluster only where a cluster is one block -/
theorem nrCluster_blocks (sb : FatSb) {nr n : ℕ} (hnr : 0 < nr) (h21 : nr ≤ 21) (h2 : nrCluster sb nr ≤ 2)
    (hlt : n * sb.blocksize < DENT_SIZE * nr) (hle : DENT_SIZE * nr ≤ (n + 1) * sb.blocksize) :
    n + 1 + (sb.secPerClus - (n + 1)) = nrCluster sb nr * sb.secPerClus ∧
      (nrCluster sb nr = 1 ∨ sb.secPerClus - (n + 1) = 0) := by
  obtain ⟨hlt', hle'⟩ := nrCluster_spec sb hnr
  have hbs := sb.blocksize_pos
  have hsize : sb.clusterSize = sb.secPerClus * sb.blocksize := Nat.mul_comm _ _
  have hone := nrCluster_pos sb hnr
  rw [hsize] at hlt' hle'
  rw [← Nat.mul_assoc] at hlt' hle'
  -- in blocks
  have hfew : n < nrCluster sb nr * sb.secPerClus := Nat.lt_of_mul_lt_mul_right (hlt.trans_le hle')
  have hmany : (nrCluster sb nr - 1) * sb.secPerClus < n + 1 := Nat.lt_of_mul_lt_mul_right (hlt'.trans_le hle)
  have hcases : nrCluster sb nr = 1 ∨ nrCluster sb nr = 2 := by omega
  rcases hcases with hk | hk
  · rw [hk, Nat.one_mul] at hfew
    rw [hk, Nat.one_mul]
    exact ⟨Nat.add_sub_cancel' hfew, Or.inl rfl⟩
  · rw [hk] at hlt' hfew hmany ⊢
    rw [show (2 : ℕ) - 1 = 1 from rfl, Nat.one_mul] at hlt' hmany
    have hmin := sb.blocksize_min
    have hspc : sb.secPerClus = 1 := by
      have hpos := sb.secPerClus_pos
      by_contra hne
      have htwo : 2 * 512 ≤ sb.secPerClus * sb.blocksize := Nat.mul_le_mul (by omega) hmin
      unfold DENT_SIZE at hlt'
      omega
    rw [hspc] at hfew hmany ⊢
    exact ⟨by omega, Or.inr (by omega)⟩

/-- the last of `nr` new slots behind the clusters `l` -/
theorem last_slot (sb : FatSb) (l : List ℤ) {nr n c : ℕ} (hnr : 0 < nr) (hlt : n * sb.blocksize < DENT_SIZE * nr)
    (hle : DENT_SIZE * nr ≤ (n + 1) * sb.blocksize) (hcopy : c + n * sb.blocksize = DENT_SIZE * nr) :
    (nrSlots sb l + nr - 1) / sb.dirPerBlock = nrBlocks sb l + n ∧ slotOff sb (nrSlots sb l + nr - 1) = c - DENT_SIZE := by
  have hd : 0 < DENT_SIZE := by decide
  have hbs : ∀ k : ℕ, k * sb.blocksize = DENT_SIZE * (k * sb.dirPerBlock) := by
    intro k
    rw [blocksize_eq]
    ring
  rw [hbs] at hlt hle hcopy
  have h1 := Nat.lt_of_mul_lt_mul_left hlt
  have h2 := Nat.le_of_mul_le_mul_left hle hd
  have hsplit : nrSlots sb l + nr - 1 = (nrBlocks sb l + n) * sb.dirPerBlock + (nr - 1 - n * sb.dirPerBlock) := by
    unfold nrSlots
    rw [Nat.add_mul]
    omega
  have hoff : nr - 1 - n * sb.dirPerBlock < sb.dirPerBlock := by
    rw [Nat.succ_mul] at h2
    omega
  obtain ⟨hdiv, hmod⟩ := page_cell (q := nrBlocks sb l + n) hoff
  unfold slotOff
  rw [hsplit, hdiv, hmod]
  refine ⟨rfl, ?_⟩
  rw [Nat.mul_sub, Nat.mul_sub, Nat.mul_one, ← hcopy]
  omega

/-- **New clusters** hold the bytes of the new entries behind the directory, and zeros behind them. -/
theorem fatAddNewEntries_bytes (h : Clusters sb l) (hused : ∀ x ∈ l, fatVal sb s.vol x ≠ FAT_ENT_FREE) (hpf : PrevFreeOk sb s)
    {nr : ℕ} (hnr : 0 < nr) (h21 : nr ≤ 21) {dirsync : Bool} {slots : List UInt8} (hlen : slots.length = DENT_SIZE * nr)
    {r : NewEntries} (hr : fatAddNewEntries env sb s dirsync slots nr = some r) (hret : ¬ r.ret < 0)
    (hcs : cs = (freeEntries sb s.vol s.prevFree).take (nrCluster sb nr)) :
    Clusters sb (l ++ cs) ∧ r.bh = some (slotBlock sb (l ++ cs) (nrSlots sb l + nr - 1)) ∧
      r.de = some (slotOff sb (nrSlots sb l + nr - 1)) ∧
      ∀ p < nrBytes sb (l ++ cs), dirBytes sb (l ++ cs) r.s.vol p = splice (dirBytes sb (l ++ cs) s.vol) (nrBytes sb l)
        (slots ++ List.replicate (nrCluster sb nr * sb.clusterSize - DENT_SIZE * nr) 0) p := by
  have hpos := nrCluster_pos sb hnr
  obtain ⟨hklt, hkle⟩ := nrCluster_spec sb hnr
  unfold fatAddNewEntries at hr
  simp only at hr
  by_cases hbug : 2 < nrCluster sb nr
  · rw [if_pos hbug] at hr
    exact absurd hr (by simp)
  rw [if_neg hbug] at hr
  cases halloc : fatAllocClusters env sb s dirsync (nrCluster sb nr) with
  | none =>
    rw [halloc] at hr
    exact absurd hr (by simp)
  | some a =>
    rw [halloc] at hr
    simp only at hr
    have hle := fatAllocClusters_nonpos halloc
    by_cases herr : a.err ≠ 0
    · rw [if_pos herr, Option.some.injEq] at hr
      rw [← hr] at hret
      exact absurd (lt_of_le_of_ne hle herr) hret
    rw [if_neg herr] at hr
    obtain ⟨hcl, hclen, hch, -⟩ := fatAllocClusters_zero hpf hpos halloc (not_not.1 herr)
    have hdata := fatAllocClusters_sameData hpf halloc (not_not.1 herr)
    rw [← hcs] at hcl
    rw [hcl] at hr hclen hch
    have hall : Clusters sb (l ++ cs) := by
      refine ⟨fun x hx => (List.mem_append.1 hx).elim (h.inRange x) (hch.inRange x),
        List.nodup_append.2 ⟨h.nodup, hch.nodup, fun x hx y hy hxy => ?_⟩⟩
      exact hused x hx (hxy ▸ hch.free y hy)
    refine ⟨hall, ?_⟩
    have hne : cs ≠ [] := List.ne_nil_of_length_pos (hclen ▸ hpos)
    have hnew := newClusters_bytes hall env cs (k := l.length) (f := ⟨[], 0, nr * DENT_SIZE, slots, a.s⟩) hne
      (fun j => by rw [List.getElem?_append_right (Nat.le_add_right _ _), Nat.add_sub_cancel_left])
      (by rw [hlen, Nat.mul_comm]) (by rw [hclen, Nat.mul_comm nr]; exact hklt) (by rw [hclen, Nat.mul_comm nr]; exact hkle)
    generalize newClusters env sb cs ⟨[], 0, nr * DENT_SIZE, slots, a.s⟩ = w at hr hnew
    obtain ⟨ok, f⟩ := w
    cases ok with
    | false =>
      rw [Option.some.injEq] at hr
      rw [← hr] at hret
      exact absurd (show (- ENOMEM : ℤ) < 0 by decide) hret
    | true =>
      obtain ⟨n, hfill⟩ := hnew rfl
      simp only at hr hfill
      have hbase : l.length * sb.secPerClus = nrBlocks sb l := rfl
      rw [hbase, Nat.mul_comm nr] at hfill
      obtain ⟨hblocks, hor⟩ := nrCluster_blocks sb hnr h21 (not_lt.1 hbug) hfill.lt hfill.le
      have hbhs : f.bhs = (List.range' (nrBlocks sb l) (n + 1)).map (dirBlock sb (l ++ cs)) := hfill.bhs
      have hlast : f.bhs.getLastD 0 = dirBlock sb (l ++ cs) (nrBlocks sb l + n) := by
        rw [hbhs, List.range'_concat, List.map_append, List.getLastD_eq_getLast?, List.map_singleton,
          List.getLast?_append, List.getLast?_singleton, Option.some_or, Option.getD_some, Nat.one_mul]
      have hbhslen : f.bhs.length = n + 1 := by rw [hbhs, List.length_map, List.length_range']
      have htotal : nrBlocks sb (l ++ cs) = nrBlocks sb l + nrCluster sb nr * sb.secPerClus := by
        rw [nrBlocks_append, ← hclen]
        rfl
      rw [hlast] at hr
      generalize hs1 : ({ f.s with
        vol := Function.update f.s.vol (dirBlock sb (l ++ cs) (nrBlocks sb l + n))
          (splice (f.s.vol (dirBlock sb (l ++ cs) (nrBlocks sb l + n))) f.copy (List.replicate (sb.blocksize - f.copy) 0))
        refs := Function.update f.s.refs (dirBlock sb (l ++ cs) (nrBlocks sb l + n))
          (f.s.refs (dirBlock sb (l ++ cs) (nrBlocks sb l + n)) + 1) } : St) = s1 at hr
      have hzero := fun p hp hz => fatZeroedCluster_bytes hall env dirsync s1 (fatClusToBlknr sb (cs.getLastD 0)) f.bhs
        MAX_BUF_PER_PAGE (q := nrBlocks sb l + (n + 1)) (by rw [hbhslen]; omega)
        (fun j hj => by
          rw [hbhslen] at hj ⊢
          have hk1 : nrCluster sb nr = 1 := hor.resolve_right (by omega)
          obtain ⟨c, rfl⟩ := List.length_eq_one_iff.1 (hclen.trans hk1)
          have hc : (l ++ [c])[l.length]? = some c := by
            rw [List.getElem?_append_right le_rfl, Nat.sub_self]
            rfl
          have hadd := dirBlock_add hall hc (show n + 1 + j < sb.secPerClus by omega)
          rw [← Nat.add_assoc] at hadd
          exact hadd.trans (Nat.add_assoc _ _ _).symm) hz (p := p) hp
      generalize hzeq : fatZeroedCluster env sb dirsync s1 (fatClusToBlknr sb (cs.getLastD 0)) f.bhs MAX_BUF_PER_PAGE = z
        at hr hzero
      obtain ⟨err, s2⟩ := z
      simp only at hr hzero
      by_cases hz : err ≠ 0
      · have hlastIn : InRange sb (cs.getLastD 0) := by
          rw [List.getLastD_eq_getLast?, List.getLast?_eq_some_getLast hne]
          exact hch.inRange _ (List.getLast_mem hne)
        have hdatabhs : ∀ b ∈ f.bhs, ¬ InFat sb b := by
          intro b hb
          rw [hbhs] at hb
          obtain ⟨q, hq, rfl⟩ := List.mem_map.1 hb
          obtain ⟨hq1, hq2⟩ := List.mem_range'_1.1 hq
          exact not_inFat_of_le (dataStart_le_dirBlock hall.inRange (by omega))
        have hnonpos := (fatZeroedCluster_sameFat env dirsync s1 (dataStart_le_clus hlastIn) hdatabhs MAX_BUF_PER_PAGE).2
        rw [hzeq] at hnonpos
        rw [if_pos hz, Option.some.injEq] at hr
        rw [← hr] at hret
        exact absurd (lt_of_le_of_ne hnonpos hz) hret
      rw [if_neg hz, Option.some.injEq] at hr
      rw [← hr]
      obtain ⟨hdiv, hoff⟩ := last_slot sb l hnr hfill.lt hfill.le hfill.copy
      refine ⟨?_, ?_, fun p hp => ?_⟩
      · unfold slotBlock
        rw [hdiv]
      · rw [hoff]
      · -- the bytes, the rest of the last block, and the blocks behind it
        have hcopy := hfill.copy
        have hcle : f.copy ≤ sb.blocksize := by
          have hle := hfill.le
          rw [Nat.succ_mul] at hle
          omega
        have hrest : dirBytes sb (l ++ cs) s1.vol p = splice (dirBytes sb (l ++ cs) f.s.vol)
            ((nrBlocks sb l + n) * sb.blocksize + f.copy) (List.replicate (sb.blocksize - f.copy) 0) p := by
          rw [← hs1]
          apply view_splice hall.distinct (show nrBlocks sb l + n < nrBlocks sb (l ++ cs) by omega) hp
          rw [List.length_replicate, Nat.add_sub_cancel' hcle]
        have hfirst : dirBytes sb (l ++ cs) f.s.vol p = splice (dirBytes sb (l ++ cs) s.vol) (nrBytes sb l) slots p := by
          rw [hfill.bytes p hp, splice_congr (dirBytes_sameData hall hdata hp), List.take_of_length_le hlen.le]
          rfl
        have hpos1 : (nrBlocks sb l + n) * sb.blocksize + f.copy = nrBytes sb l + slots.length := by
          unfold nrBytes
          rw [hlen, Nat.add_mul]
          omega
        have hpos2 : (nrBlocks sb l + (n + 1)) * sb.blocksize =
            nrBytes sb l + (slots ++ List.replicate (sb.blocksize - f.copy) 0).length := by
          unfold nrBytes
          rw [List.length_append, hlen, List.length_replicate, Nat.add_mul, Nat.succ_mul]
          omega
        have hzeros : sb.blocksize - f.copy + (sb.secPerClus - (n + 1)) * sb.blocksize =
            nrCluster sb nr * sb.clusterSize - DENT_SIZE * nr := by
          have hmul := congrArg (· * sb.blocksize) hblocks
          simp only [Nat.add_mul (n + 1)] at hmul
          have hsize : nrCluster sb nr * sb.secPerClus * sb.blocksize = nrCluster sb nr * sb.clusterSize := by
            unfold FatSb.clusterSize
            ring
          rw [hsize, Nat.succ_mul] at hmul
          omega
        simp only
        rw [hzero p hp (not_not.1 hz), hbhslen, splice_congr hrest, hpos1, hpos2]
        have htwo : splice (dirBytes sb (l ++ cs) f.s.vol) (nrBytes sb l + slots.length)
            (List.replicate (sb.blocksize - f.copy) 0) p = splice (dirBytes sb (l ++ cs) s.vol) (nrBytes sb l)
              (slots ++ List.replicate (sb.blocksize - f.copy) 0) p := by
          rw [splice_congr hfirst, splice_append]
        rw [splice_congr htwo, splice_append, List.append_assoc, ← List.replicate_add, hzeros]

end

end AtsLdd.Fat
