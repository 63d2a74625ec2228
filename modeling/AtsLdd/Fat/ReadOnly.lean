/-
Whether reading changes the volume. `atsfs_sbread` does: it changes byte 1 of every block that it hands out and writes the
block back, so a read leaves the volume alone exactly when it hands out no block.

- `fatSyncRead_unchanged`: a read that hands out no block changes neither the buffer cache nor the disk;
- `fatSyncRead_changes`: a read that gets to a block changes it, even when nothing is delivered;
- `reads_readOnly`: when a read changes nothing, whatever fails, and the same for runs of reads;
- `read_not_readOnly`: a plain read that changes a file.
-/
import AtsLdd.Core.Run
import AtsLdd.Fat.ReadCorrect

namespace AtsLdd.Fat

open AtsLdd.Machine AtsLdd.ByteMap AtsLdd.Chain AtsLdd.Run

/-- no block is handed out for the position: it is behind the end of the file, the file has no cluster, or it is behind the
first cluster and there is no second one -/
def NothingAt (sb : FatSb) (ino : FatInode) (vol : Vol) (pos : ℕ) : Prop :=
  ino.iSize ≤ pos ∨ ino.iStart = 0 ∨ sb.clusterSize ≤ pos ∧ ¬ IsLink (fatLink sb vol ino.iStart)

/-- the volume is the same, in memory and on disk -/
def Unchanged (s s' : St) : Prop := s'.vol = s.vol ∧ s'.disk = s.disk

/-! ## Reads that change nothing -/

/-- what a read answers that hands out no block -/
def nothingRead (ino : FatInode) (pos : ℕ) : Option ℤ :=
  if ino.iSize ≤ pos then some 0 else if ino.iStart = 0 then none else some (- EIO)

theorem fatSyncRead_unchanged (env : Env) {sb : FatSb} {ino : FatInode} {s : St} (p : ℕ) {n pos : ℕ} (hn : 0 < n)
    (h : NothingAt sb ino s.vol pos) : Unchanged s (fatSyncRead env sb ino s p n pos).s ∧
      (fatSyncRead env sb ino s p n pos).ret = nothingRead ino pos ∧
      (fatSyncRead env sb ino s p n pos).s.ubuf = s.ubuf := by
  unfold nothingRead
  by_cases hend : ino.iSize ≤ pos
  · rw [fatSyncRead, if_pos hend, if_pos hend]
    exact ⟨⟨rfl, rfl⟩, rfl, rfl⟩
  by_cases hstart : ino.iStart = 0
  · rw [fatSyncRead, if_neg hend, if_neg hend, if_pos hstart, if_pos hstart]
    exact ⟨⟨rfl, rfl⟩, rfl, rfl⟩
  obtain ⟨hbehind, hnolink⟩ := (h.resolve_left hend).resolve_left hstart
  have hidx : 0 < pos / sb.clusterSize := Nat.div_pos hbehind sb.clusterSize_pos
  obtain ⟨q, es, m, hq, ⟨-, hcall⟩ | ⟨hm, -⟩⟩ := fatSyncRead_cases env sb ino s p hn hstart (not_le.1 hend)
  · rw [if_neg hend, if_neg hstart, hcall]
    exact ⟨⟨hq.quiet.vol, hq.quiet.disk⟩, rfl, hq.quiet.ubuf⟩
  · exact absurd hm (hq.lt_of_end hidx hnolink).ne

/-! ## Reads that change a block -/

theorem nextChar_ne (ch : UInt8) : nextChar ch ≠ ch := by
  unfold nextChar
  split_ifs with h
  · rw [h]
    decide
  · intro he
    have hone : ch + 1 = ch + 0 := by rw [he, UInt8.add_zero]
    exact absurd (UInt8.add_right_inj ch |>.1 hone) (by decide)

theorem bumped_ne (buf : Buf) : bumped buf ≠ buf := by
  intro h
  have h1 := congrFun h 1
  rw [bumped, Function.update_self] at h1
  exact nextChar_ne _ h1

/-- every block can be read, and every user copy faults at once -/
def faultyUser : Env := ⟨fun _ _ => true, fun _ => true, fun _ _ => true, fun _ => 0⟩

/-- the first block is handed out and changed, and then the copy stops -/
theorem copyPhyblock_faulty (s : St) (p ofs : ℕ) {len : ℕ} (hlen : 0 < len) (nblk : ℕ) :
    ∃ s', copyPhyblockImpl faultyUser s p ofs len nblk 0 = ⟨0, EIO, s'⟩ ∧
      s'.vol = Function.update s.vol nblk (bumped (s.vol nblk)) := by
  have hread : ∃ disk refs, atsfsSbread faultyUser s nblk = (some (bumped (s.vol nblk)), { s with
      vol := Function.update s.vol nblk (bumped (s.vol nblk)), disk := disk, refs := refs, t := s.t + 1 + 1,
      log := s.log ++ [.block nblk (some (bumped (s.vol nblk)))] }) := ⟨_, _, rfl⟩
  obtain ⟨disk, refs, hread⟩ := hread
  have hcopied : ∀ t, faultyUser.copied t = 0 := fun _ => rfl
  rw [copyPhyblockImpl, hread]
  simp only [copyToUser, hcopied, length_slice, Nat.sub_zero, Nat.sub_self, if_pos (Nat.pos_iff_ne_zero.1 hlen)]
  exact ⟨_, rfl, rfl⟩

theorem copyPhyblocks_faulty (blksz fuel : ℕ) (s : St) (p ofs : ℕ) {len : ℕ} (hlen : 0 < len) (hofs : ofs < blksz)
    (hfuel : len ≤ fuel) (nblk : ℕ) : ∃ s', copyPhyblocksImpl faultyUser blksz fuel s p ofs len nblk 0 0 = ⟨0, EIO, s'⟩ ∧
      s'.vol = Function.update s.vol nblk (bumped (s.vol nblk)) := by
  obtain ⟨f, rfl⟩ : ∃ f, fuel = f + 1 := ⟨fuel - 1, by omega⟩
  obtain ⟨s', hres, hvol⟩ := copyPhyblock_faulty s p ofs (show 0 < min len (blksz - ofs) by omega) nblk
  refine ⟨s', ?_, hvol⟩
  rw [copyPhyblocksImpl, if_neg (by simp)]
  simp only [hres]
  split_ifs
  · exact copyPhyblocks_err _ _ _ _ _ _ _ _ _ (by decide)
  · rfl

theorem copyClusters_faulty (sb : FatSb) (s : St) (p : ℕ) {ofs len : ℕ} (hlen : 0 < len) (hofs : ofs < sb.clusterSize)
    (ncls : ℤ) : ∃ s' b, copyClustersImpl faultyUser sb len s p ofs len ncls 0 0 = ⟨0, EIO, s'⟩ ∧
      s'.vol = Function.update s.vol b (bumped (s.vol b)) := by
  obtain ⟨f, rfl⟩ : ∃ f, len = f + 1 := ⟨len - 1, by omega⟩
  obtain ⟨s', hres, hvol⟩ := copyPhyblocks_faulty sb.blocksize (min (f + 1) (sb.clusterSize - ofs))
    { s with log := s.log ++ [.cluster ncls] } p (ofs % sb.blocksize) (show 0 < min (f + 1) (sb.clusterSize - ofs) by omega)
    (Nat.mod_lt _ sb.blocksize_pos) le_rfl (sectorAdd (ncluster2block sb ncls) (ofs / sb.blocksize))
  refine ⟨s', _, ?_, hvol⟩
  rw [copyClustersImpl, if_neg (by simp)]
  simp only [copyClusterImpl, if_neg (show ¬ (0 : ℕ) ≠ 0 by simp), hres]
  rw [if_pos (by decide)]

theorem fatSyncRead_changes {sb : FatSb} {ino : FatInode} {s : St} (p : ℕ) {n pos : ℕ} (hn : 0 < n)
    (h : ¬ NothingAt sb ino s.vol pos) :
    ∃ b, (fatSyncRead faultyUser sb ino s p n pos).s.vol = Function.update s.vol b (bumped (s.vol b)) := by
  rw [NothingAt, not_or, not_or] at h
  obtain ⟨hend, hstart, hreach⟩ := h
  have hlink : pos / sb.clusterSize = 0 ∨ IsLink (fatLink sb s.vol ino.iStart) := by
    by_cases hbehind : sb.clusterSize ≤ pos
    · exact Or.inr (by_contra fun hl => hreach ⟨hbehind, hl⟩)
    · exact Or.inl (Nat.div_eq_of_lt (not_le.1 hbehind))
  obtain ⟨q, es, m, hq, hcase⟩ := fatSyncRead_cases faultyUser sb ino s p hn hstart (not_le.1 hend)
  have hm := hq.complete (fun _ _ => rfl) hlink
  rcases hcase with ⟨hlt, -⟩ | ⟨-, r, es2, k, j, hr, -, hcall⟩
  · exact absurd hm hlt.ne
  obtain ⟨s', b, hres, hvol⟩ := copyClusters_faulty sb q.s p (show 0 < min (ino.iSize - pos) n by omega)
    (Nat.mod_lt pos sb.clusterSize_pos) ino.iStart
  rw [hcall, ← hr, hres]
  exact ⟨b, by rw [hvol, hq.quiet.vol]⟩

/-! ## Runs of reads -/

/-- a call of `fat_sync_read`, by any process: what happens to it and what it asks for -/
structure ReadCall where
  env : Env
  ino : FatInode
  p : ℕ
  n : ℕ
  pos : ℕ
  n_pos : 0 < n

def readStep (sb : FatSb) (s : St) (c : ReadCall) : St := (fatSyncRead c.env sb c.ino s c.p c.n c.pos).s

/-- **When reading is read-only.** A read leaves the volume as it is, whatever the outcome, exactly when there is nothing
at its position. A run of such reads leaves the volume as it is, and reading a range again answers the same: no byte. -/
theorem reads_readOnly (sb : FatSb) :
    (∀ (ino : FatInode) (s : St) (p n pos : ℕ), 0 < n →
      ((∀ env, Unchanged s (fatSyncRead env sb ino s p n pos).s) ↔ NothingAt sb ino s.vol pos)) ∧
    ∀ (s : St) (before : List ReadCall) (c : ReadCall) (between : List ReadCall) (c' : ReadCall) (after : List ReadCall),
      Meets (readStep sb) (fun s c => NothingAt sb c.ino s.vol c.pos) s (before ++ c :: between ++ c' :: after) →
      Unchanged s (run (readStep sb) s (before ++ c :: between ++ c' :: after)) ∧
      (run (readStep sb) s (before ++ c :: between ++ c' :: after)).ubuf = s.ubuf ∧
      (c.ino = c'.ino → c.pos = c'.pos → c.n = c'.n →
        (fatSyncRead c.env sb c.ino (run (readStep sb) s before) c.p c.n c.pos).ret =
          (fatSyncRead c'.env sb c'.ino (run (readStep sb) s (before ++ c :: between)) c'.p c'.n c'.pos).ret) := by
  refine ⟨fun ino s p n pos hn => ⟨fun hall => ?_, fun h env => (fatSyncRead_unchanged env p hn h).1⟩,
    fun s before c between c' after h => ⟨?_, ?_, fun hino hpos _ => ?_⟩⟩
  · by_contra h
    obtain ⟨b, hb⟩ := fatSyncRead_changes p hn h
    rw [(hall faultyUser).1] at hb
    have hself := congrFun hb b
    rw [Function.update_self] at hself
    exact bumped_ne _ hself.symm
  · have hstep : ∀ (s' : St) (c : ReadCall), Unchanged s s' → NothingAt sb c.ino s'.vol c.pos →
        Unchanged s (readStep sb s' c) := by
      intro s' c hs hc
      have hread := (fatSyncRead_unchanged c.env c.p c.n_pos hc).1
      exact ⟨hread.1.trans hs.1, hread.2.trans hs.2⟩
    exact run_inv hstep ⟨rfl, rfl⟩ h
  · have hstep : ∀ (s' : St) (c : ReadCall), s'.ubuf = s.ubuf → NothingAt sb c.ino s'.vol c.pos →
        (readStep sb s' c).ubuf = s.ubuf :=
      fun s' c hs hc => (fatSyncRead_unchanged c.env c.p c.n_pos hc).2.2.trans hs
    exact run_inv hstep rfl h
  · have hc' := h.at
    rw [List.append_assoc] at h
    have hc := h.at
    rw [(fatSyncRead_unchanged c.env c.p c.n_pos hc).2.1, (fatSyncRead_unchanged c'.env c'.p c'.n_pos hc').2.1, hino, hpos]

/-- a file of 3000 bytes, read behind its end twice -/
theorem reads_readOnly_tiny :
    (∀ env, Unchanged (St.idle (tinyVol (· + 1)))
      (fatSyncRead env tinySb (tinyInode 3 (by decide)) (St.idle (tinyVol (· + 1))) 0 2 5000).s) ∧
    Unchanged (St.idle (tinyVol (· + 1))) (run (readStep tinySb) (St.idle (tinyVol (· + 1)))
      [⟨goodEnv, tinyInode 3 (by decide), 0, 2, 5000, by decide⟩, ⟨goodEnv, tinyInode 3 (by decide), 7, 2, 5000, by decide⟩]) :=
  ⟨((reads_readOnly tinySb).1 (tinyInode 3 (by decide)) (St.idle (tinyVol (· + 1))) 0 2 5000 (by decide)).2
      (Or.inl (by decide)),
    ((reads_readOnly tinySb).2 (St.idle (tinyVol (· + 1))) [] ⟨goodEnv, tinyInode 3 (by decide), 0, 2, 5000, by decide⟩ []
      ⟨goodEnv, tinyInode 3 (by decide), 7, 2, 5000, by decide⟩ []
      ⟨Or.inl (by decide), Or.inl (by decide), trivial⟩).1⟩

/-- a read of the first two bytes of a file whose blocks are zero: block 4 is changed, and the next read answers another
byte -/
theorem read_not_readOnly : ¬ ∀ (env : Env) (sb : FatSb) (ino : FatInode) (s : St) (p n pos : ℕ), 0 < n →
    Unchanged s (fatSyncRead env sb ino s p n pos).s := by
  intro h
  have hread := (h goodEnv tinySb (tinyInode 3 (by decide)) (St.idle (tinyVol (· + 1))) 0 2 0 (by decide)).1
  have hbyte := congrFun (congrFun hread 4) 1
  exact absurd hbyte (by decide +kernel)

end AtsLdd.Fat
