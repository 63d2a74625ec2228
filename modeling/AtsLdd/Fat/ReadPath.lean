/-
What the copy loops of `fat_sync_read` deliver.

A loop is described by its log: the FAT entries it looked up, the clusters it read, and the buffers it was handed out.
`Progress` says that a part of a call copied `k` bytes of the buffers handed out, laid one behind the other, and touched no
other block. Parts are put together with `Progress.append`; blocks make a cluster, clusters make the copy.

- `copyPhyblocks_spec`: inside a cluster, consecutive blocks are handed out and copied up to the first failure;
- `copyClusters_spec`: the blocks come from the clusters of the chain that the links looked up make (`Along`).
-/
import AtsLdd.Fat.Walk

namespace AtsLdd.Fat

open AtsLdd.Machine AtsLdd.ByteMap AtsLdd.Chain

/-! ## Parts of a copy -/

/-- the bytes of the buffers that a log hands out, one block behind the other -/
def handedOut (blksz : ℕ) (es : List Access) : ℕ → UInt8 := concat blksz 0 ((buffers es).map Prod.snd)

/-- `k` of `len` bytes were copied to user address `p`, from offset `ofs` of the first buffer handed out on -/
structure Progress (blksz : ℕ) (s : St) (p ofs len : ℕ) (s' : St) (k : ℕ) (es : List Access) : Prop where
  log : s'.log = s.log ++ es
  le : k ≤ len
  bytes : s'.ubuf = splice s.ubuf p (slice (handedOut blksz es) ofs k)
  cover : 0 < k → ofs + k ≤ (buffers es).length * blksz
  frame : ∀ b, b ∉ (buffers es).map Prod.fst → s'.vol b = s.vol b ∧ s'.disk b = s.disk b

/-- nothing fails: every block can be read, and a user copy manages a whole block -/
def AllOk (env : Env) (blksz : ℕ) : Prop := (∀ t b, env.bread t b = true) ∧ ∀ t, blksz ≤ env.copied t

/-- a part that is complete up to the end of its last block, and the part behind it -/
theorem Progress.append {blksz : ℕ} (hpos : 0 < blksz) {s s1 s2 : St} {p ofs len1 len2 k : ℕ} {es1 es2 : List Access}
    (h1 : Progress blksz s p ofs len1 s1 len1 es1) (hend : ofs + len1 = (buffers es1).length * blksz)
    (h2 : Progress blksz s1 (p + len1) 0 len2 s2 k es2) :
    Progress blksz s p ofs (len1 + len2) s2 (len1 + k) (es1 ++ es2) := by
  refine ⟨?_, ?_, ?_, fun hk => ?_, fun b hb => ?_⟩
  · rw [h2.log, h1.log, List.append_assoc]
  · have := h2.le
    omega
  · have hcat : slice (handedOut blksz (es1 ++ es2)) ofs (len1 + k) =
        slice (handedOut blksz es1) ofs len1 ++ slice (handedOut blksz es2) 0 k := by
      unfold handedOut
      rw [buffers_append, List.map_append]
      exact slice_concat_append hpos (by rw [List.length_map]; exact hend)
    have hsplice := splice_append s.ubuf p (slice (handedOut blksz es1) ofs len1) (slice (handedOut blksz es2) 0 k)
    rw [length_slice] at hsplice
    rw [h2.bytes, h1.bytes, hcat, hsplice]
  · have hcov := h2.cover
    rw [buffers_append, List.length_append, Nat.add_mul, ← hend]
    rcases Nat.eq_zero_or_pos k with h0 | h0
    · omega
    · have := hcov h0
      omega
  · rw [buffers_append, List.map_append, List.mem_append, not_or] at hb
    rw [(h2.frame b hb.2).1, (h2.frame b hb.2).2]
    exact h1.frame b hb.1

/-- a step that only looks something up in front of a part -/
theorem Progress.quiet_left {blksz : ℕ} {s s1 s2 : St} {p ofs len k : ℕ} {es1 es2 : List Access} (hq : Quiet s s1)
    (hlog : s1.log = s.log ++ es1) (hbuf : buffers es1 = []) (h : Progress blksz s1 p ofs len s2 k es2) :
    Progress blksz s p ofs len s2 k (es1 ++ es2) := by
  have hall : buffers (es1 ++ es2) = buffers es2 := by rw [buffers_append, hbuf, List.nil_append]
  refine ⟨?_, h.le, ?_, fun hk => ?_, fun b hb => ?_⟩
  · rw [h.log, hlog, List.append_assoc]
  · rw [h.bytes, hq.ubuf, handedOut, handedOut, hall]
  · rw [hall]
    exact h.cover hk
  · rw [hall] at hb
    rw [(h.frame b hb).1, (h.frame b hb).2, hq.vol, hq.disk]
    exact ⟨rfl, rfl⟩

/-- a step that only looks something up behind a part -/
theorem Progress.quiet_right {blksz : ℕ} {s s1 s2 : St} {p ofs len k : ℕ} {es1 es2 : List Access}
    (h : Progress blksz s p ofs len s1 k es1) (hq : Quiet s1 s2) (hlog : s2.log = s1.log ++ es2)
    (hbuf : buffers es2 = []) : Progress blksz s p ofs len s2 k (es1 ++ es2) := by
  have hall : buffers (es1 ++ es2) = buffers es1 := by rw [buffers_append, hbuf, List.append_nil]
  refine ⟨?_, h.le, ?_, fun hk => ?_, fun b hb => ?_⟩
  · rw [hlog, h.log, List.append_assoc]
  · rw [hq.ubuf, h.bytes, handedOut, handedOut, hall]
  · rw [hall]
    exact h.cover hk
  · rw [hall] at hb
    rw [hq.vol, hq.disk]
    exact h.frame b hb

/-! ## One block -/

theorem syncDirtyBuffer_frame (env : Env) (s : St) (b : ℕ) :
    ∃ vol disk, (syncDirtyBuffer env s b).2 = { s with t := s.t + 1, vol := vol, disk := disk } ∧
      ∀ c, c ≠ b → vol c = s.vol c ∧ disk c = s.disk c := by
  unfold syncDirtyBuffer
  split_ifs
  · exact ⟨_, _, rfl, fun c hc => ⟨rfl, Function.update_of_ne hc _ _⟩⟩
  · exact ⟨_, _, rfl, fun c hc => ⟨Function.update_of_ne hc _ _, rfl⟩⟩

/-- a block that can be read is handed out with its byte 1 changed -/
theorem atsfsSbread_ok {env : Env} {s : St} {b : ℕ} (h : env.bread s.t b = true) :
    ∃ vol disk refs, atsfsSbread env s b = (some (bumped (s.vol b)), { s with
        vol := vol, disk := disk, refs := refs, t := s.t + 1 + 1,
        log := s.log ++ [.block b (some (bumped (s.vol b)))] }) ∧ ∀ c, c ≠ b → vol c = s.vol c ∧ disk c = s.disk c := by
  obtain ⟨vol, disk, hsync, hframe⟩ := syncDirtyBuffer_frame env { s with
    vol := Function.update s.vol b (bumped (s.vol b)), t := s.t + 1,
    refs := Function.update s.refs b (s.refs b + 1) } b
  refine ⟨vol, disk, Function.update s.refs b (s.refs b + 1), ?_, fun c hc => ?_⟩
  · simp only [atsfsSbread, sbBread_ok h, hsync]
  · obtain ⟨hvol, hdisk⟩ := hframe c hc
    exact ⟨hvol.trans (Function.update_of_ne hc _ _), hdisk⟩

/-- a loop over blocks: the accesses `es`, the `k` bytes copied and the `m` blocks handed out, which are `blk 0`, `blk 1`
and so on; it stops at the first failure -/
structure BlocksCopied (env : Env) (blksz : ℕ) (s : St) (p ofs len : ℕ) (blk : ℕ → ℕ) (accu : ℕ) (r : Copied)
    (es : List Access) (k m : ℕ) : Prop where
  accu_eq : r.accu = accu + k
  progress : Progress blksz s p ofs len r.s k es
  lookups_nil : lookups es = []
  no_entry : ∀ c b, Access.entry c b ∉ es
  first : firstBlock es = some (blk 0)
  blocks : (buffers es).map Prod.fst = (List.range m).map blk
  outcome : r.err = 0 ∧ k = len ∧ NoFailure es ∧ m = (ofs + len - 1) / blksz + 1 ∨
    r.err = EIO ∧ ¬ NoFailure es ∧ m ≤ (ofs + len - 1) / blksz + 1
  no_failure : AllOk env blksz → NoFailure es

/-- one block: it is not read and nothing is copied, or it is handed out and copied as far as the user copy gets -/
theorem copyPhyblock_spec (env : Env) {blksz : ℕ} (s : St) (p : ℕ) {ofs len : ℕ} (hin : ofs + len ≤ blksz)
    (hlen : 0 < len) (nblk : ℕ) :
    ∃ es k m, BlocksCopied env blksz s p ofs len (fun _ => nblk) 0 (copyPhyblockImpl env s p ofs len nblk 0) es k m ∧
      clusters es = [] := by
  have hdiv : (ofs + len - 1) / blksz = 0 := Nat.div_eq_of_lt (by omega)
  cases hb : env.bread s.t nblk with
  | false =>
    simp only [copyPhyblockImpl, atsfsSbread, sbBread_fail hb]
    refine ⟨[.block nblk none], 0, 0, ⟨rfl, ⟨rfl, Nat.zero_le _, ?_, fun h => absurd h (lt_irrefl 0), fun _ _ => ⟨rfl, rfl⟩⟩,
      rfl, by simp, rfl, rfl, Or.inr ⟨rfl, ?_, ?_⟩, fun hall => ?_⟩, rfl⟩
    · simp
    · intro h
      exact h _ (List.mem_singleton.2 rfl) rfl
    · exact Nat.zero_le _
    · rw [hall.1] at hb
      exact absurd hb (by simp)
  | true =>
    obtain ⟨vol, disk, refs, hread, hframe⟩ := atsfsSbread_ok hb
    simp only [copyPhyblockImpl, hread, copyToUser, length_slice]
    set k := len - (len - env.copied (s.t + 1 + 1)) with hk
    have hok : len - env.copied (s.t + 1 + 1) = 0 →
        NoFailure [.block nblk (some (bumped (s.vol nblk))), .copy (len - env.copied (s.t + 1 + 1))] :=
      fun hfull => NoFailure.cons (by simp [Access.ok]) (NoFailure.cons hfull fun e he => absurd he List.not_mem_nil)
    refine ⟨[.block nblk (some (bumped (s.vol nblk))), .copy (len - env.copied (s.t + 1 + 1))], k, 1,
      ⟨(Nat.zero_add k).symm, ⟨?_, Nat.sub_le _ _, ?_, fun _ => ?_, fun b hne => ?_⟩, rfl, by simp, rfl, rfl,
        ?_, fun hall => ?_⟩, rfl⟩
    · simp only [brelse, List.append_assoc, List.cons_append, List.nil_append]
    · have hcat : slice (handedOut blksz [.block nblk (some (bumped (s.vol nblk))), .copy (len - env.copied (s.t + 1 + 1))])
          ofs k = slice (bumped (s.vol nblk)) ofs k := slice_concat_single (by omega)
      rw [hcat, take_slice]
      have hmin : min (env.copied (s.t + 1 + 1)) len = k := by omega
      rw [hmin]
      rfl
    · have hone : (buffers [Access.block nblk (some (bumped (s.vol nblk))),
          .copy (len - env.copied (s.t + 1 + 1))]).length = 1 := rfl
      rw [hone, Nat.one_mul]
      omega
    · have hne' : b ≠ nblk := fun he => hne (by rw [he]; exact List.mem_singleton.2 rfl)
      exact hframe b hne'
    · by_cases hfull : len - env.copied (s.t + 1 + 1) = 0
      · exact Or.inl ⟨by simp [hfull], by omega, hok hfull, by rw [hdiv]⟩
      · right
        refine ⟨by simp [hfull], fun h => hfull ?_, by omega⟩
        exact h (.copy _) (by simp)
    · have := hall.2 (s.t + 1 + 1)
      exact hok (by omega)

/-! ## The blocks of a cluster -/

/-- the number of blocks that `len` bytes from offset `ofs` on lie in, when they reach the end of the first one -/
theorem blocks_split {blksz ofs len : ℕ} (hofs : ofs < blksz) (hlen : blksz - ofs < len) :
    (ofs + len - 1) / blksz + 1 = 1 + ((len - (blksz - ofs) - 1) / blksz + 1) := by
  have hsplit : ofs + len - 1 = blksz + (len - (blksz - ofs) - 1) := by omega
  rw [hsplit, Nat.add_div_left _ (by omega)]
  omega

theorem copyPhyblocks_err (env : Env) (blksz fuel : ℕ) (s : St) (p ofs len nblk accu : ℕ) {err : ℕ} (h : err ≠ 0) :
    copyPhyblocksImpl env blksz fuel s p ofs len nblk accu err = ⟨accu, err, s⟩ := by
  cases fuel with
  | zero => rfl
  | succ fuel => exact if_pos h

/-- **Copying blocks.** The blocks from `base + j` on are handed out one after the other and copied, up to the first
failure. -/
theorem copyPhyblocks_spec (env : Env) {blksz : ℕ} (hpos : 0 < blksz) (base : ℕ) (fuel : ℕ) :
    ∀ (s : St) (p ofs len j accu : ℕ), ofs < blksz → 0 < len → len ≤ fuel →
      ∃ es k m, BlocksCopied env blksz s p ofs len (fun q => sectorAdd base (j + q)) accu
        (copyPhyblocksImpl env blksz fuel s p ofs len (sectorAdd base j) accu 0) es k m ∧ clusters es = [] := by
  induction fuel with
  | zero => intro s p ofs len j accu _ hlen hfuel; omega
  | succ fuel ih =>
    intro s p ofs len j accu hofs hlen hfuel
    have hlen1 : 0 < min len (blksz - ofs) := by omega
    obtain ⟨es1, k1, m1, h1, hcl1⟩ := copyPhyblock_spec env s p (show ofs + min len (blksz - ofs) ≤ blksz by omega)
      hlen1 (sectorAdd base j)
    have hdiv1 : (ofs + min len (blksz - ofs) - 1) / blksz = 0 := Nat.div_eq_of_lt (by omega)
    rw [copyPhyblocksImpl, if_neg (by simp)]
    simp only
    generalize copyPhyblockImpl env s p ofs (min len (blksz - ofs)) (sectorAdd base j) 0 = r1 at h1 ⊢
    have hblk1 : ∀ m ≤ 1, (List.range m).map (fun _ => sectorAdd base j) =
        (List.range m).map fun q => sectorAdd base (j + q) := by
      intro m hm
      apply List.map_congr_left
      intro q hq
      have hq0 : q = 0 := by
        have := List.mem_range.1 hq
        omega
      rw [hq0, Nat.add_zero]
    have hacc1 := h1.accu_eq
    rw [Nat.zero_add] at hacc1
    by_cases hmore : len > min len (blksz - ofs)
    · have hlen1eq : min len (blksz - ofs) = blksz - ofs := by omega
      rw [if_pos hmore]
      rw [hlen1eq] at h1 hdiv1 ⊢
      have hsplit := blocks_split hofs (show blksz - ofs < len by omega)
      rcases h1.outcome with ⟨herr, hk, hok, hm⟩ | ⟨herr, hbad, hm⟩
      · -- the first block is complete
        obtain ⟨es2, k2, m2, h2, hcl2⟩ := ih r1.s (p + (blksz - ofs)) 0 (len - (blksz - ofs)) (j + 1) (accu + r1.accu)
          hpos (by omega) (by omega)
        rw [herr, sectorAdd_add]
        generalize copyPhyblocksImpl env blksz fuel r1.s (p + (blksz - ofs)) 0 (len - (blksz - ofs))
          (sectorAdd base (j + 1)) (accu + r1.accu) 0 = r2 at h2 ⊢
        have hm1 : m1 = 1 := by omega
        have hcount : (buffers es1).length = 1 := by
          rw [← List.length_map (f := Prod.fst), h1.blocks, List.length_map, List.length_range, hm1]
        have hp1 := h1.progress
        rw [hk] at hp1
        have happ := hp1.append hpos (by rw [hcount]; omega) h2.progress
        have hlenadd : blksz - ofs + (len - (blksz - ofs)) = len := by omega
        rw [hlenadd] at happ
        refine ⟨es1 ++ es2, blksz - ofs + k2, 1 + m2,
          ⟨?_, happ, ?_, fun c b => ?_, firstBlock_append h1.first, ?_, ?_, fun hall => hok.append (h2.no_failure hall)⟩, ?_⟩
        · have := h2.accu_eq
          omega
        · rw [lookups_append, h1.lookups_nil, h2.lookups_nil, List.nil_append]
        · exact List.mem_append.not.2 (not_or.2 ⟨h1.no_entry c b, h2.no_entry c b⟩)
        · rw [buffers_append, List.map_append, h1.blocks, h2.blocks, hm1, hblk1 1 le_rfl, List.range_add, List.map_append,
            List.map_map]
          refine congrArg _ (List.map_congr_left fun q _ => ?_)
          simp only [Function.comp_apply, Nat.add_assoc]
        · have hz : 0 + (len - (blksz - ofs)) - 1 = len - (blksz - ofs) - 1 := by omega
          rcases h2.outcome with ⟨he, hk2, hok2, hm2⟩ | ⟨he, hbad2, hm2⟩
          · rw [hz] at hm2
            exact Or.inl ⟨he, by omega, hok.append hok2, by rw [hsplit, hm2]⟩
          · rw [hz] at hm2
            exact Or.inr ⟨he, fun h => hbad2 h.right, by rw [hsplit]; omega⟩
        · rw [clusters_append, hcl1, hcl2, List.nil_append]
      · -- it failed, and nothing follows
        rw [copyPhyblocks_err _ _ _ _ _ _ _ _ _ (by rw [herr]; decide)]
        rw [hdiv1] at hm
        refine ⟨es1, k1, m1, ⟨by rw [hacc1], ⟨h1.progress.log, ?_, h1.progress.bytes, h1.progress.cover,
          h1.progress.frame⟩, h1.lookups_nil, h1.no_entry, h1.first, ?_,
          Or.inr ⟨herr, hbad, by rw [hsplit]; exact hm.trans (Nat.le_add_right _ _)⟩, h1.no_failure⟩, hcl1⟩
        · have := h1.progress.le
          omega
        · rw [h1.blocks, hblk1 m1 (by omega)]
    · have hlen1eq : min len (blksz - ofs) = len := by omega
      rw [if_neg hmore]
      rw [hlen1eq] at h1 hdiv1
      refine ⟨es1, k1, m1, ⟨by rw [hacc1], h1.progress, h1.lookups_nil, h1.no_entry, h1.first, ?_, h1.outcome, h1.no_failure⟩, hcl1⟩
      rw [h1.blocks, hblk1 m1]
      rcases h1.outcome with ⟨_, _, _, hm⟩ | ⟨_, _, hm⟩ <;> omega

/-! ## The blocks of a file -/

/-- block `i` of a file with cluster chain `chain` -/
def fileBlock (sb : FatSb) (chain : List ℤ) (i : ℕ) : ℕ :=
  sectorAdd (ncluster2block sb (chain.getD (i / sb.secPerClus) 0)) (i % sb.secPerClus)

/-- the blocks of the first cluster of a chain -/
theorem fileBlock_head (sb : FatSb) (c : ℤ) (cs : List ℤ) {i : ℕ} (h : i < sb.secPerClus) :
    fileBlock sb (c :: cs) i = sectorAdd (ncluster2block sb c) i := by
  unfold fileBlock
  rw [Nat.div_eq_of_lt h, Nat.mod_eq_of_lt h]
  rfl

/-- the blocks of the clusters behind the first -/
theorem fileBlock_tail (sb : FatSb) (c : ℤ) (cs : List ℤ) (i : ℕ) :
    fileBlock sb (c :: cs) (sb.secPerClus + i) = fileBlock sb cs i := by
  unfold fileBlock
  rw [Nat.add_div_left _ sb.secPerClus_pos, Nat.add_mod_left]
  rfl

/-! ## One cluster -/

/-- a piece inside a cluster lies in its blocks -/
theorem blocks_in_cluster (sb : FatSb) {ofs len : ℕ} (hlen : 0 < len) (hin : ofs + len ≤ sb.clusterSize) :
    ofs / sb.blocksize + ((ofs % sb.blocksize + len - 1) / sb.blocksize + 1) ≤ sb.secPerClus := by
  have hpos := sb.blocksize_pos
  have hsplit : ofs + len - 1 = sb.blocksize * (ofs / sb.blocksize) + (ofs % sb.blocksize + len - 1) := by
    have := Nat.div_add_mod ofs sb.blocksize
    omega
  have hlt : (ofs + len - 1) / sb.blocksize < sb.secPerClus := by
    rw [Nat.div_lt_iff_lt_mul hpos, Nat.mul_comm]
    have : ofs + len - 1 < sb.clusterSize := by omega
    exact this
  rw [hsplit, Nat.mul_add_div hpos] at hlt
  omega

/-- a piece up to the end of a cluster lies in all blocks from its first on -/
theorem blocks_to_end (sb : FatSb) {ofs : ℕ} (hofs : ofs < sb.clusterSize) :
    ofs / sb.blocksize + ((ofs % sb.blocksize + (sb.clusterSize - ofs) - 1) / sb.blocksize + 1) = sb.secPerClus ∧
      ofs % sb.blocksize + (sb.clusterSize - ofs) =
        ((ofs % sb.blocksize + (sb.clusterSize - ofs) - 1) / sb.blocksize + 1) * sb.blocksize := by
  have hpos := sb.blocksize_pos
  have hdm := Nat.div_add_mod ofs sb.blocksize
  have hlt : ofs / sb.blocksize < sb.secPerClus := by
    rw [Nat.div_lt_iff_lt_mul hpos, Nat.mul_comm]
    exact hofs
  obtain ⟨d, hd⟩ := Nat.exists_eq_add_of_lt hlt
  have hcs : sb.clusterSize = sb.blocksize * (ofs / sb.blocksize) + sb.blocksize * d + sb.blocksize := by
    unfold FatSb.clusterSize
    rw [hd]
    ring
  have hsum : ofs % sb.blocksize + (sb.clusterSize - ofs) = sb.blocksize * d + sb.blocksize := by
    have := Nat.mod_lt ofs hpos
    omega
  have hdiv : (ofs % sb.blocksize + (sb.clusterSize - ofs) - 1) / sb.blocksize = d := by
    have hminus : ofs % sb.blocksize + (sb.clusterSize - ofs) - 1 = sb.blocksize * d + (sb.blocksize - 1) := by omega
    rw [hminus, Nat.mul_add_div hpos, Nat.div_eq_of_lt (by omega), Nat.add_zero]
  refine ⟨by rw [hdiv]; omega, ?_⟩
  rw [hdiv, hsum]
  ring

/-- **Copying a piece of a cluster.** -/
theorem copyCluster_spec (env : Env) (sb : FatSb) (s : St) (p : ℕ) {ofs len : ℕ} (hlen : 0 < len) (ncls : ℤ) :
    ∃ es k m, BlocksCopied env sb.blocksize s p (ofs % sb.blocksize) len
        (fun q => sectorAdd (ncluster2block sb ncls) (ofs / sb.blocksize + q)) 0
        (copyClusterImpl env sb s p ofs len ncls 0) es k m ∧ clusters es = [ncls] := by
  unfold copyClusterImpl
  rw [if_neg (by simp)]
  simp only
  obtain ⟨es, k, m, h, hcl⟩ := copyPhyblocks_spec env sb.blocksize_pos (ncluster2block sb ncls) len
    { s with log := s.log ++ [.cluster ncls] } p (ofs % sb.blocksize) len (ofs / sb.blocksize) 0
    (Nat.mod_lt _ sb.blocksize_pos) hlen le_rfl
  have hbuf : buffers (.cluster ncls :: es) = buffers es := rfl
  have hquiet : Quiet s { s with log := s.log ++ [.cluster ncls] } := rfl
  refine ⟨.cluster ncls :: es, k, m, ⟨h.accu_eq, h.progress.quiet_left hquiet rfl rfl, ?_, ?_, h.first, ?_, ?_,
    fun hall => (h.no_failure hall).cons trivial⟩, ?_⟩
  · exact h.lookups_nil
  · intro c b hmem
    exact h.no_entry c b ((List.mem_cons.1 hmem).resolve_left (by simp))
  · rw [hbuf]
    exact h.blocks
  · rcases h.outcome with ⟨herr, hk, hok, hm⟩ | ⟨herr, hbad, hm⟩
    · exact Or.inl ⟨herr, hk, hok.cons trivial, hm⟩
    · exact Or.inr ⟨herr, fun h => hbad fun e he => h e (List.mem_cons_of_mem _ he), hm⟩
  · change ncls :: clusters es = [ncls]
    rw [hcl]

/-! ## The chain of the volume -/

/-- the FAT blocks of the first `J` clusters of a chain are apart from their data blocks -/
def Apart (sb : FatSb) (vol : Vol) (start : ℤ) (J : ℕ) : Prop :=
  ∀ i < J, ∀ j < J, ∀ c d, nth (fatSucc sb vol) start i = some c → nth (fatSucc sb vol) start j = some d →
    ∀ q < sb.secPerClus, (fatEntBlocknr sb c).2 ≠ sectorAdd (ncluster2block sb d) q

/-- the chain followed in a log is the chain of the volume, as long as data does not overwrite the FAT -/
def OnChain (sb : FatSb) (vol : Vol) (start : ℤ) (es : List Access) : Prop :=
  ∀ J, Apart sb vol start J →
    (∀ j ≤ J, ∀ c, (followed sb start es)[j]? = some c → nth (fatSucc sb vol) start j = some c) ∧
      (Ended sb es → (followed sb start es).length ≤ J → nth (fatSucc sb vol) start (followed sb start es).length = none)

/-- clusters of the volume are apart from the FAT -/
theorem apart_of_inRange {sb : FatSb} {vol : Vol} {start : ℤ} {J : ℕ}
    (h : ∀ j < J, ∀ c, nth (fatSucc sb vol) start j = some c → InRange sb c) : Apart sb vol start J :=
  fun i hi j hj c d hc hd _ hq => fat_block_ne_data (h i hi c hc) (h j hj d hd) hq

/-- the chain behind its head does not change when only data blocks of the head are written -/
theorem Apart.tail {sb : FatSb} {vol vol' : Vol} {start nxt : ℤ} {J : ℕ} (h : Apart sb vol start (J + 1))
    (hs : fatSucc sb vol start = some nxt)
    (hframe : ∀ b, (∀ q < sb.secPerClus, b ≠ sectorAdd (ncluster2block sb start) q) → vol' b = vol b) :
    (∀ i ≤ J, nth (fatSucc sb vol') nxt i = nth (fatSucc sb vol) nxt i) ∧ Apart sb vol' nxt J := by
  have hcons : ∀ i, nth (fatSucc sb vol) start (i + 1) = nth (fatSucc sb vol) nxt i := by
    intro i
    rw [nth_head, hs]
    rfl
  have hsame : ∀ i ≤ J, nth (fatSucc sb vol') nxt i = nth (fatSucc sb vol) nxt i := by
    apply nth_congr
    intro i hi b hb
    have hblk := hframe (fatEntBlocknr sb b).2 fun q hq =>
      h (i + 1) (by omega) 0 (by omega) b start (by rw [hcons]; exact hb) rfl q hq
    unfold fatSucc fatLink
    rw [hblk]
  refine ⟨hsame, fun i hi j hj c d hc hd => ?_⟩
  rw [hsame i hi.le] at hc
  rw [hsame j hj.le] at hd
  exact h (i + 1) (by omega) (j + 1) (by omega) c d (by rw [hcons]; exact hc) (by rw [hcons]; exact hd)

/-- without a lookup nothing but the head is followed -/
theorem OnChain.head {sb : FatSb} {vol : Vol} {start : ℤ} {es : List Access} (h : lookups es = []) :
    OnChain sb vol start es := by
  intro J _
  refine ⟨fun j _ c hc => ?_, fun hend => ?_⟩
  · rw [followed, links_nil_of_lookups h] at hc
    cases j with
    | zero => exact hc
    | succ j => simp at hc
  · obtain ⟨e, he, -⟩ := hend
    rw [h] at he
    exact absurd he List.not_mem_nil

/-- one lookup, and then a log behind it: `vol1` is the volume at the lookup and `vol2` the one behind it -/
theorem OnChain.cons {sb : FatSb} {vol vol1 vol2 : Vol} {start : ℤ} {es1 es2 : List Access} (h1 : lookups es1 = [])
    (hframe1 : ∀ b, (∀ q < sb.secPerClus, b ≠ sectorAdd (ncluster2block sb start) q) → vol1 b = vol b)
    (hvol2 : vol2 = vol1) (hend : ¬ IsLink (fatLink sb vol1 start) → lookups es2 = [])
    (h2 : IsLink (fatLink sb vol1 start) → OnChain sb vol2 (fatLink sb vol1 start) es2) :
    OnChain sb vol start (es1 ++ [.entry start (some (vol1 (fatEntBlocknr sb start).2))] ++ es2) := by
  subst hvol2
  set buf := vol2 (fatEntBlocknr sb start).2 with hbuf
  have hlinks : links sb (es1 ++ [.entry start (some buf)] ++ es2) = links sb (.entry start (some buf) :: es2) := by
    rw [List.append_assoc, links_append, links_nil_of_lookups h1, List.nil_append]
    rfl
  intro J hapart
  have hlink : 0 < J → fatLink sb vol2 start = fatLink sb vol start := by
    intro hJ
    unfold fatLink
    rw [hframe1 _ (hapart 0 hJ 0 hJ start start rfl rfl)]
  by_cases hisl : IsLink (fatLink sb vol2 start)
  · rw [followed, hlinks, links_cons_link hisl]
    have hfol : linkIn sb buf start :: links sb es2 = followed sb (fatLink sb vol2 start) es2 := rfl
    rw [hfol]
    cases J with
    | zero =>
      refine ⟨fun j hj c hc => ?_, fun _ hlen => absurd hlen (by simp)⟩
      rw [Nat.le_zero.1 hj] at hc ⊢
      exact hc
    | succ J =>
      have hs : fatSucc sb vol start = some (fatLink sb vol2 start) := by
        rw [hlink (by omega)] at hisl ⊢
        exact fatSucc_link hisl
      obtain ⟨hsame, htail⟩ := hapart.tail hs hframe1
      obtain ⟨hon, hended⟩ := h2 hisl J htail
      refine ⟨fun j hj c hc => ?_, fun he hlen => ?_⟩
      · cases j with
        | zero => exact hc
        | succ j =>
          rw [nth_head, hs]
          exact (hsame j (by omega)).symm.trans (hon j (by omega) c hc)
      · have he2 : Ended sb es2 := by
          obtain ⟨e, he, hne⟩ := he
          rw [lookups_append, lookups_append, h1, List.nil_append] at he
          rcases List.mem_append.1 he with he | he
          · rw [List.mem_singleton.1 he] at hne
            exact absurd hisl hne
          · exact ⟨e, he, hne⟩
        rw [List.length_cons] at hlen ⊢
        rw [nth_head, hs]
        exact (hsame _ (by omega)).symm.trans (hended he2 (by omega))
  · rw [followed, hlinks, links_cons_end hisl, links_nil_of_lookups (hend hisl)]
    refine ⟨fun j hj c hc => ?_, fun _ hlen => ?_⟩
    · cases j with
      | zero => exact hc
      | succ j => simp at hc
    · have hJ : 0 < J := hlen
      rw [hlink hJ] at hisl
      exact fatSucc_end hisl

/-! ## Clusters along the chain -/

/-- lookups go along the chain that they find, from cluster `c` on, and stop where it ends -/
inductive Along (sb : FatSb) : ℤ → List (ℤ × Buf) → Prop where
  | nil (c : ℤ) : Along sb c []
  | stop {c : ℤ} {buf : Buf} (h : ¬ IsLink (linkIn sb buf c)) : Along sb c [(c, buf)]
  | step {c : ℤ} {buf : Buf} {ls : List (ℤ × Buf)} (h : IsLink (linkIn sb buf c)) (w : Along sb (linkIn sb buf c) ls) :
      Along sb c ((c, buf) :: ls)

section
variable {sb : FatSb} {c : ℤ} {ls : List (ℤ × Buf)}

/-- the link in a lookup -/
def link? (sb : FatSb) (e : ℤ × Buf) : Option ℤ := if IsLink (linkIn sb e.2 e.1) then some (linkIn sb e.2 e.1) else none

theorem followed_eq (sb : FatSb) (start : ℤ) (es : List Access) :
    followed sb start es = start :: (lookups es).filterMap (link? sb) := rfl

theorem filterMap_link {buf : Buf} (h : IsLink (linkIn sb buf c)) (ls : List (ℤ × Buf)) :
    ((c, buf) :: ls).filterMap (link? sb) = linkIn sb buf c :: ls.filterMap (link? sb) :=
  List.filterMap_cons_some (if_pos h)

theorem filterMap_end {buf : Buf} (h : ¬ IsLink (linkIn sb buf c)) (ls : List (ℤ × Buf)) :
    ((c, buf) :: ls).filterMap (link? sb) = ls.filterMap (link? sb) :=
  List.filterMap_cons_none (if_neg h)

theorem Along.prefix (h : Along sb c ls) : ls.map Prod.fst <+: c :: ls.filterMap (link? sb) := by
  induction h with
  | nil c => exact List.nil_prefix
  | stop h => rw [filterMap_end h]; exact List.prefix_rfl
  | step h w ih => rw [filterMap_link h]; exact List.cons_prefix_cons.2 ⟨rfl, ih⟩

/-- each cluster is the link that was found in the entry of the one before -/
theorem Along.chain (h : Along sb c ls) :
    (c :: ls.filterMap (link? sb)).IsChain fun a b => IsLink b ∧ ∃ buf, (a, buf) ∈ ls ∧ linkIn sb buf a = b := by
  induction h with
  | nil c => exact List.isChain_singleton _
  | stop h => rw [filterMap_end h]; exact List.isChain_singleton _
  | step h w ih =>
    rw [filterMap_link h]
    refine List.isChain_cons_cons.2 ⟨⟨h, _, List.mem_cons_self, rfl⟩, ih.imp fun a b hab => ?_⟩
    obtain ⟨hb, buf, hmem, heq⟩ := hab
    exact ⟨hb, buf, List.mem_cons_of_mem _ hmem, heq⟩

/-- where the chain ended, there is no link in the entry of the last cluster -/
theorem Along.last (h : Along sb c ls) (hend : ∃ e ∈ ls, ¬ IsLink (linkIn sb e.2 e.1)) :
    ∃ a buf, (c :: ls.filterMap (link? sb)).getLast? = some a ∧ (a, buf) ∈ ls ∧ ¬ IsLink (linkIn sb buf a) := by
  induction h with
  | nil c =>
    obtain ⟨e, he, -⟩ := hend
    exact absurd he List.not_mem_nil
  | @stop c buf h => exact ⟨c, buf, by rw [filterMap_end h]; rfl, List.mem_cons_self, h⟩
  | @step c buf ls h w ih =>
    obtain ⟨e, he, hne⟩ := hend
    rcases List.mem_cons.1 he with rfl | he
    · exact absurd h hne
    · obtain ⟨a, buf', hlast, hmem, hno⟩ := ih ⟨e, he, hne⟩
      refine ⟨a, buf', ?_, List.mem_cons_of_mem _ hmem, hno⟩
      rw [filterMap_link h, List.getLast?_cons_cons]
      exact hlast

end

/-- a loop over clusters from `ncls` on: the accesses `es`, the `k` bytes copied and the `m` blocks handed out -/
structure ClustersCopied (env : Env) (sb : FatSb) (s : St) (p ofs len : ℕ) (ncls : ℤ) (accu : ℕ) (r : Copied)
    (es : List Access) (k m : ℕ) : Prop where
  accu_eq : r.accu = accu + k
  progress : Progress sb.blocksize s p (ofs % sb.blocksize) len r.s k es
  along : Along sb ncls (lookups es)
  entry_on : ∀ c b, Access.entry c b ∈ es → c ∈ clusters es
  first : firstBlock es = some (sectorAdd (ncluster2block sb ncls) (ofs / sb.blocksize))
  clusters_prefix : clusters es <+: followed sb ncls es
  blocks : (buffers es).map Prod.fst =
    (List.range m).map fun q => fileBlock sb (followed sb ncls es) (ofs / sb.blocksize + q)
  count : ofs / sb.blocksize + m ≤ (clusters es).length * sb.secPerClus
  err_eq : r.err = 0 ∨ r.err = EIO
  err_of_zero : k = 0 → r.err = EIO
  outcome : k = len ∨ ¬ NoFailure es ∨ Ended sb es ∧ (links sb es).length < (ofs + len - 1) / sb.clusterSize
  no_failure : AllOk env sb.blocksize → NoFailure es
  visited : (lookups es).length ≤ (clusters es).length ∧ (clusters es).length ≤ (ofs + len - 1) / sb.clusterSize + 1
  onChain : OnChain sb s.vol ncls es
  looked : ∀ c buf, (c, buf) ∈ lookups es → (fatEntBlocknr sb c).2 ∉ (buffers es).map Prod.fst →
    buf = s.vol (fatEntBlocknr sb c).2

theorem ClustersCopied.entries_prefix {env : Env} {sb : FatSb} {s : St} {p ofs len accu k m : ℕ} {ncls : ℤ} {r : Copied}
    {es : List Access} (h : ClustersCopied env sb s p ofs len ncls accu r es k m) :
    (lookups es).map Prod.fst <+: followed sb ncls es := h.along.prefix

/-- the loop stops in its first cluster -/
theorem BlocksCopied.stop {env : Env} {sb : FatSb} {s : St} {p ofs len len1 accu : ℕ} {ncls : ℤ} {r : Copied} {es : List Access}
    {k m : ℕ} (h : BlocksCopied env sb.blocksize s p (ofs % sb.blocksize) len1
      (fun q => sectorAdd (ncluster2block sb ncls) (ofs / sb.blocksize + q)) 0 r es k m)
    (hcl : clusters es = [ncls]) (hlen1 : 0 < len1) (hle : len1 ≤ len) (hin : ofs + len1 ≤ sb.clusterSize)
    (herr : r.err ≠ 0) : ClustersCopied env sb s p ofs len ncls accu ⟨accu + r.accu, r.err, r.s⟩ es k m := by
  have hm := blocks_in_cluster sb hlen1 hin
  rcases h.outcome with ⟨h0, -⟩ | ⟨he, hbad, hmle⟩
  · exact absurd h0 herr
  · have hlinks : links sb _ = [] := links_nil_of_lookups h.lookups_nil
    refine ⟨?_, ⟨h.progress.log, h.progress.le.trans hle, h.progress.bytes, h.progress.cover, h.progress.frame⟩, ?_,
      fun c b hmem => absurd hmem (h.no_entry c b), h.first, ?_, ?_, ?_, Or.inr he, fun _ => he, Or.inr (Or.inl hbad), h.no_failure, ?_,
      OnChain.head h.lookups_nil,
      fun c buf hmem => absurd hmem (by rw [h.lookups_nil]; exact List.not_mem_nil)⟩
    · change accu + r.accu = accu + k
      rw [h.accu_eq, Nat.zero_add]
    · rw [h.lookups_nil]
      exact .nil ncls
    · rw [hcl, followed, hlinks]
    · rw [h.blocks]
      apply List.map_congr_left
      intro q hq
      have hq' := List.mem_range.1 hq
      rw [followed, fileBlock_head sb ncls _ (by omega)]
    · rw [hcl, List.length_singleton, Nat.one_mul]
      omega
    · rw [h.lookups_nil, hcl]
      exact ⟨Nat.zero_le _, Nat.succ_le_succ (Nat.zero_le _)⟩

/-- the data blocks of a piece are blocks of its cluster -/
theorem BlocksCopied.frame {env : Env} {sb : FatSb} {s : St} {p ofs len1 : ℕ} {ncls : ℤ} {r : Copied} {es : List Access}
    {k m : ℕ} (h : BlocksCopied env sb.blocksize s p (ofs % sb.blocksize) len1
      (fun q => sectorAdd (ncluster2block sb ncls) (ofs / sb.blocksize + q)) 0 r es k m)
    (hm : ofs / sb.blocksize + m ≤ sb.secPerClus) {b : ℕ}
    (hb : ∀ q < sb.secPerClus, b ≠ sectorAdd (ncluster2block sb ncls) q) : r.s.vol b = s.vol b := by
  refine (h.progress.frame b fun hmem => ?_).1
  rw [h.blocks] at hmem
  obtain ⟨q, hq, hbq⟩ := List.mem_map.1 hmem
  have hq' := List.mem_range.1 hq
  exact hb _ (by omega) hbq.symm

/-- the loop stops behind its first cluster, after the lookup of the next one -/
theorem BlocksCopied.stop_after {env : Env} {sb : FatSb} {s s2 : St} {p ofs len len1 accu err : ℕ} {ncls : ℤ} {r : Copied}
    {es : List Access} {ob : Option Buf} {k m : ℕ} (h : BlocksCopied env sb.blocksize s p (ofs % sb.blocksize) len1
      (fun q => sectorAdd (ncluster2block sb ncls) (ofs / sb.blocksize + q)) 0 r es k m)
    (hcl : clusters es = [ncls]) (hlen1 : 0 < len1) (hle : len1 ≤ len) (hin : ofs + len1 ≤ sb.clusterSize)
    (h0 : r.err = 0) (hq : Quiet r.s s2) (hlog : s2.log = r.s.log ++ [.entry ncls ob]) (herr : err = 0 ∨ err = EIO)
    (hread : (∀ t b, env.bread t b = true) → ob ≠ none)
    (hob : ∀ buf, ob = some buf → buf = r.s.vol (fatEntBlocknr sb ncls).2)
    (hout : len1 = len ∨ ob = none ∨
      (∃ buf, ob = some buf ∧ ¬ IsLink (linkIn sb buf ncls)) ∧ 0 < (ofs + len - 1) / sb.clusterSize) :
    ClustersCopied env sb s p ofs len ncls accu ⟨accu + r.accu, err, s2⟩ (es ++ [.entry ncls ob]) k m := by
  have hm := blocks_in_cluster sb hlen1 hin
  rcases h.outcome with ⟨-, hk, hok, hmeq⟩ | ⟨he, -, -⟩
  · have hlinks1 : links sb _ = [] := links_nil_of_lookups h.lookups_nil
    have hlook : (lookups (es ++ [.entry ncls ob])).map Prod.fst <+: [ncls] := by
      rw [lookups_append, h.lookups_nil, List.nil_append]
      cases ob with
      | none => exact List.nil_prefix
      | some buf => exact List.prefix_rfl
    have hhead : [ncls] <+: followed sb ncls (es ++ [.entry ncls ob]) := ⟨_, rfl⟩
    have hbuf : buffers (es ++ [.entry ncls ob]) = buffers es := by
      rw [buffers_append]
      exact List.append_nil _
    have hclus : clusters (es ++ [.entry ncls ob]) = [ncls] := by
      rw [clusters_append, hcl]
      rfl
    have hprog := h.progress.quiet_right hq hlog rfl
    refine ⟨?_, ⟨hprog.log, hprog.le.trans hle, hprog.bytes, hprog.cover, hprog.frame⟩, ?_,
      fun c b hmem => ?_, firstBlock_append h.first, ?_, ?_, ?_, herr,
      fun hk0 => by omega, ?_, fun hall => hok.append (NoFailure.cons (hread hall.1) fun e he => absurd he List.not_mem_nil),
      ?_, ?_, fun c buf hmem hne => ?_⟩
    · change accu + r.accu = accu + k
      rw [h.accu_eq, Nat.zero_add]
    · rw [lookups_append, h.lookups_nil, List.nil_append]
      cases ob with
      | none => exact .nil ncls
      | some buf =>
        by_cases hl : IsLink (linkIn sb buf ncls)
        · exact .step hl (.nil _)
        · exact .stop hl
    · rw [hclus]
      rcases List.mem_append.1 hmem with hmem | hmem
      · exact absurd hmem (h.no_entry c b)
      · exact List.mem_singleton.2 (Access.entry.inj (List.mem_singleton.1 hmem)).1
    · rw [hclus]
      exact hhead
    · rw [hbuf, h.blocks]
      apply List.map_congr_left
      intro q hq
      have hq' := List.mem_range.1 hq
      rw [followed, fileBlock_head sb ncls _ (by omega)]
    · rw [hclus, List.length_singleton, Nat.one_mul]
      omega
    · rcases hout with hall | hnone | ⟨⟨buf, hbufeq, hend⟩, hlt⟩
      · exact Or.inl (by omega)
      · refine Or.inr (Or.inl fun hno => ?_)
        exact hno (.entry ncls ob) (by simp) hnone
      · refine Or.inr (Or.inr ⟨?_, ?_⟩)
        · refine Ended.right ⟨(ncls, buf), ?_, hend⟩
          rw [hbufeq]
          exact List.mem_singleton.2 rfl
        · have hnil : links sb [.entry ncls ob] = [] := by
            rw [hbufeq]
            simp [links, lookups, Access.lookup?, hend]
          rw [links_append, hlinks1, hnil]
          exact hlt
    · rw [hclus]
      refine ⟨?_, Nat.succ_le_succ (Nat.zero_le _)⟩
      simpa using hlook.length_le
    · cases ob with
      | none => exact OnChain.head (by rw [lookups_append, h.lookups_nil]; rfl)
      | some buf =>
        have hon : OnChain sb s.vol ncls (es ++ [.entry ncls (some (r.s.vol (fatEntBlocknr sb ncls).2))] ++ []) :=
          OnChain.cons h.lookups_nil (fun b hb => h.frame (by omega) hb) rfl (fun _ => rfl) fun _ => OnChain.head rfl
        rw [hob buf rfl]
        rwa [List.append_nil] at hon
    · rw [lookups_append, h.lookups_nil, List.nil_append] at hmem
      rw [hbuf] at hne
      cases ob with
      | none => exact absurd hmem List.not_mem_nil
      | some b =>
        obtain ⟨rfl, rfl⟩ := Prod.mk.inj (List.mem_singleton.1 hmem)
        rw [hob buf rfl]
        exact (h.progress.frame _ hne).1
  · rw [h0] at he
    exact absurd he (by decide)

/-- the loop goes on behind its first cluster -/
theorem BlocksCopied.go_on {env : Env} {sb : FatSb} {s s2 : St} {p ofs len accu : ℕ} {ncls nxt : ℤ} {r r2 : Copied}
    {es es2 : List Access} {buf : Buf} {k m k2 m2 : ℕ} (hbuf : buf = r.s.vol (fatEntBlocknr sb ncls).2)
    (h : BlocksCopied env sb.blocksize s p (ofs % sb.blocksize) (sb.clusterSize - ofs)
      (fun q => sectorAdd (ncluster2block sb ncls) (ofs / sb.blocksize + q)) 0 r es k m)
    (hcl : clusters es = [ncls]) (hofs : ofs < sb.clusterSize) (hmore : sb.clusterSize - ofs < len)
    (h0 : r.err = 0) (hq : Quiet r.s s2) (hlog : s2.log = r.s.log ++ [.entry ncls (some buf)])
    (hnxt : linkIn sb buf ncls = nxt) (hlink : IsLink nxt)
    (h2 : ClustersCopied env sb s2 (p + (sb.clusterSize - ofs)) 0 (len - (sb.clusterSize - ofs)) nxt (accu + r.accu) r2 es2
      k2 m2) :
    ClustersCopied env sb s p ofs len ncls accu r2 (es ++ [.entry ncls (some buf)] ++ es2) (sb.clusterSize - ofs + k2)
      (m + m2) := by
  rcases h.outcome with ⟨-, hk, hok, hmeq⟩ | ⟨he, -, -⟩
  swap
  · rw [h0] at he
    exact absurd he (by decide)
  obtain ⟨hcount, hend⟩ := blocks_to_end sb hofs
  rw [← hmeq] at hcount hend
  have hbuf1 : buffers (es ++ [.entry ncls (some buf)]) = buffers es := by
    rw [buffers_append]
    exact List.append_nil _
  have hlen1 : (buffers es).length = m := by
    rw [← List.length_map (f := Prod.fst), h.blocks, List.length_map, List.length_range]
  have hlook1 : lookups (es ++ [.entry ncls (some buf)]) = [(ncls, buf)] := by
    rw [lookups_append, h.lookups_nil]
    rfl
  have hlinks1 : links sb (es ++ [.entry ncls (some buf)]) = [nxt] := by
    unfold links
    rw [hlook1]
    simp only [List.filterMap_cons, List.filterMap_nil, hnxt, if_pos hlink]
  have hclus1 : clusters (es ++ [.entry ncls (some buf)]) = [ncls] := by
    rw [clusters_append, hcl]
    rfl
  have hfol : followed sb ncls (es ++ [.entry ncls (some buf)] ++ es2) = ncls :: followed sb nxt es2 := by
    rw [followed, links_append, hlinks1]
    rfl
  have hprog1 := h.progress.quiet_right hq hlog rfl
  rw [hk] at hprog1
  have hprog2 := h2.progress
  rw [Nat.zero_mod] at hprog2
  have hprog := hprog1.append sb.blocksize_pos (by rw [hbuf1, hlen1, ← hend]) hprog2
  have hsum : sb.clusterSize - ofs + (len - (sb.clusterSize - ofs)) = len := by omega
  rw [hsum] at hprog
  refine ⟨?_, hprog, ?_, fun c b hmem => ?_, firstBlock_append (firstBlock_append h.first), ?_, ?_, ?_, h2.err_eq,
    fun hz => ?_, ?_, fun hall => ?_, ?_, ?_,
    fun c b hmem hne => ?_⟩
  · have h1 := h2.accu_eq
    have h3 := h.accu_eq
    omega
  · rw [lookups_append, hlook1]
    refine .step (hnxt ▸ hlink) ?_
    rw [hnxt]
    exact h2.along
  · rw [clusters_append, hclus1]
    rcases List.mem_append.1 hmem with hmem | hmem
    · rcases List.mem_append.1 hmem with hmem | hmem
      · exact absurd hmem (h.no_entry c b)
      · exact List.mem_append_left _ (List.mem_singleton.2 (Access.entry.inj (List.mem_singleton.1 hmem)).1)
    · exact List.mem_append_right _ (h2.entry_on c b hmem)
  · rw [hfol, clusters_append, hclus1]
    exact List.cons_prefix_cons.2 ⟨rfl, h2.clusters_prefix⟩
  · rw [hfol, buffers_append, hbuf1, List.map_append, h.blocks, h2.blocks, List.range_add, List.map_append, List.map_map]
    refine congrArg₂ _ (List.map_congr_left fun q hq => ?_) (List.map_congr_left fun q _ => ?_)
    · have hq' := List.mem_range.1 hq
      rw [fileBlock_head sb ncls _ (by omega)]
    · simp only [Function.comp_apply]
      rw [← Nat.add_assoc, hcount, fileBlock_tail, Nat.zero_div, Nat.zero_add]
  · have hcnt2 := h2.count
    rw [Nat.zero_div, Nat.zero_add] at hcnt2
    rw [clusters_append, hclus1, List.length_append, List.length_singleton, Nat.add_mul, Nat.one_mul]
    omega
  · exact h2.err_of_zero (by omega)
  · rcases h2.outcome with hall | hbad | ⟨hended, hlt⟩
    · exact Or.inl (by omega)
    · exact Or.inr (Or.inl fun hno => hbad hno.right)
    · refine Or.inr (Or.inr ⟨hended.right, ?_⟩)
      have hsplit := blocks_split hofs hmore
      rw [Nat.zero_add] at hlt
      rw [links_append, hlinks1, List.length_append, List.length_singleton]
      omega
  · exact (hok.append (NoFailure.cons (by simp [Access.ok]) fun e he => absurd he List.not_mem_nil)).append
      (h2.no_failure hall)
  · have hsplit := blocks_split hofs hmore
    obtain ⟨hv1, hv2⟩ := h2.visited
    rw [Nat.zero_add] at hv2
    rw [clusters_append, hclus1, lookups_append, hlook1, List.length_append, List.length_append, List.length_singleton,
      List.length_singleton]
    omega
  · have hnxt' : fatLink sb r.s.vol ncls = nxt := by rw [← hnxt, hbuf]; rfl
    rw [hbuf]
    refine OnChain.cons h.lookups_nil (fun b hb => h.frame (by omega) hb) hq.vol (fun hne => ?_) fun _ => ?_
    · rw [hnxt'] at hne
      exact absurd hlink hne
    · rw [hnxt']
      exact h2.onChain
  · rw [buffers_append, hbuf1, List.map_append, List.mem_append, not_or] at hne
    have hframe := (h.progress.frame _ hne.1).1
    rw [lookups_append, hlook1] at hmem
    rcases List.mem_cons.1 hmem with hmem | hmem
    · obtain ⟨rfl, rfl⟩ := Prod.mk.inj hmem
      rw [hbuf]
      exact hframe
    · rw [h2.looked c b hmem hne.2, hq.vol]
      exact hframe

/-- **Copying clusters.** -/
theorem copyClusters_spec (env : Env) (sb : FatSb) (fuel : ℕ) :
    ∀ (s : St) (p ofs len : ℕ) (ncls : ℤ) (accu : ℕ), ofs < sb.clusterSize → 0 < len → len ≤ fuel →
      ∃ es k m, ClustersCopied env sb s p ofs len ncls accu (copyClustersImpl env sb fuel s p ofs len ncls accu 0) es k m := by
  induction fuel with
  | zero => intro s p ofs len ncls accu _ hlen hfuel; omega
  | succ fuel ih =>
    intro s p ofs len ncls accu hofs hlen hfuel
    have hlen1 : 0 < min len (sb.clusterSize - ofs) := by omega
    have hle : min len (sb.clusterSize - ofs) ≤ len := Nat.min_le_left _ _
    have hin : ofs + min len (sb.clusterSize - ofs) ≤ sb.clusterSize := by omega
    obtain ⟨es, k, m, h, hcl⟩ := copyCluster_spec env sb s p hlen1 ncls
    rw [copyClustersImpl, if_neg (by simp)]
    simp only
    generalize copyClusterImpl env sb s p ofs (min len (sb.clusterSize - ofs)) ncls 0 = r at h ⊢
    by_cases herr : r.err = 0
    swap
    · rw [if_pos herr]
      exact ⟨es, k, m, h.stop hcl hlen1 hle hin herr⟩
    rw [if_neg (by simpa using herr)]
    obtain ⟨s2, hq, -, ⟨hres, -, hlog⟩ | ⟨hres, hread, hlog⟩⟩ := fatentNextSb_spec env sb r.s ncls
    swap
    · -- the FAT block cannot be read
      rw [hres]
      refine ⟨_, k, m, h.stop_after hcl hlen1 hle hin herr hq hlog (Or.inl herr) (fun hall => ?_)
        (fun buf hb => absurd hb (by simp)) (Or.inr (Or.inl rfl))⟩
      rw [hall] at hread
      exact absurd hread (by simp)
    rw [hres]
    simp only
    have hlink : fatLink sb r.s.vol ncls = linkIn sb (r.s.vol (fatEntBlocknr sb ncls).2) ncls := rfl
    by_cases hend : fatLink sb r.s.vol ncls = FAT_ENT_FREE ∨ fatLink sb r.s.vol ncls = FAT_ENT_EOF
    · -- the chain ends here
      rw [if_pos hend]
      refine ⟨_, k, m, h.stop_after hcl hlen1 hle hin herr hq hlog (Or.inr rfl) (fun _ => by simp)
        (fun buf hb => (Option.some.inj hb).symm) ?_⟩
      by_cases hall : min len (sb.clusterSize - ofs) = len
      · exact Or.inl hall
      · refine Or.inr (Or.inr ⟨⟨_, rfl, ?_⟩, Nat.div_pos (by omega) sb.clusterSize_pos⟩)
        rw [← hlink]
        rintro ⟨h1, h2⟩
        rcases hend with h | h
        · exact h1 h
        · exact h2 h
    · rw [if_neg hend]
      have hislink : IsLink (fatLink sb r.s.vol ncls) := not_or.1 hend
      by_cases hmore : len - min len (sb.clusterSize - ofs) > 0
      · have hlen1eq : min len (sb.clusterSize - ofs) = sb.clusterSize - ofs := by omega
        rw [if_pos hmore, herr, hlen1eq]
        rw [hlen1eq] at h
        obtain ⟨es2, k2, m2, h2⟩ := ih s2 (p + (sb.clusterSize - ofs)) 0 (len - (sb.clusterSize - ofs))
          (fatLink sb r.s.vol ncls) (accu + r.accu) sb.clusterSize_pos (by omega) (by omega)
        exact ⟨_, _, _, h.go_on rfl hcl hofs (by omega) herr hq hlog hlink.symm hislink h2⟩
      · rw [if_neg hmore]
        exact ⟨_, k, m, h.stop_after hcl hlen1 hle hin herr hq hlog (Or.inl herr) (fun _ => by simp)
          (fun buf hb => (Option.some.inj hb).symm) (Or.inl (by omega))⟩

end AtsLdd.Fat
