/-
What the operations on the FAT have done when they report success, whatever has failed on the way.

- `fatWriteBhs_zero`: buffers that were written are as they were;
- `fatAllocClusters_zero`: an allocation took the first free entries, and they are a chain;
- `fatChainAdd_zero`: a directory has grown at the end of its chain, or got its first cluster.
-/
import AtsLdd.Fat.AllocClusters
import AtsLdd.Fat.ChainAdd

namespace AtsLdd.Fat

open AtsLdd.Machine AtsLdd.LinkTable

section
variable {env : Env} {sb : FatSb} {s : St}

/-! ## Writing -/

theorem fatSyncBhs_zero (env : Env) (sb : FatSb) (bhs : List ℕ) : ∀ s : St, (fatSyncBhs env s bhs).1 = 0 →
    (fatSyncBhs env s bhs).2.vol = s.vol ∧ SameFat sb s (fatSyncBhs env s bhs).2 := by
  induction bhs with
  | nil =>
    intro s _
    exact ⟨rfl, SameFat.refl sb s⟩
  | cons b bhs ih =>
    intro s h
    simp only [fatSyncBhs, syncDirtyBuffer] at h ⊢
    cases hw : env.sync s.t b with
    | false =>
      simp only [hw, Bool.false_eq_true, if_false] at h
      exact absurd h (by decide)
    | true =>
      simp only [hw, if_true] at h ⊢
      obtain ⟨hvol, hsame⟩ := ih _ h
      exact ⟨hvol, hsame.vol, hsame.freeClusters, hsame.freeClusValid, hsame.prevFree, hsame.discards⟩

/-- **Buffers that were written** are as they were. -/
theorem fatWriteBhs_zero (env : Env) (s : St) {bhs : List ℕ} (hin : ∀ b ∈ bhs, InFat sb b) (sync : Bool)
    (h : (fatWriteBhs env sb s bhs sync).1 = 0) : SameFat sb s (fatWriteBhs env sb s bhs sync).2 := by
  unfold fatWriteBhs at h ⊢
  cases sync with
  | false => exact (fatMirrorBhs_spec env s hin).1
  | true =>
    simp only [if_true] at h ⊢
    by_cases hsync : (fatSyncBhs env s bhs).1 = 0
    · simp only [hsync, ne_eq, not_true_eq_false, if_false] at h ⊢
      exact (fatSyncBhs_zero env sb bhs s hsync).2.trans (fatMirrorBhs_spec env _ hin).1
    · simp only [if_pos hsync] at h
      exact absurd h hsync

theorem fatSyncBhs_nonpos (env : Env) (bhs : List ℕ) : ∀ s : St, (fatSyncBhs env s bhs).1 ≤ 0 := by
  induction bhs with
  | nil =>
    intro _
    exact le_rfl
  | cons b bhs ih =>
    intro s
    simp only [fatSyncBhs]
    split_ifs
    · exact ih _
    · decide

theorem fatMirrorCopy_nonpos (env : Env) (sb : FatSb) (backupFat : ℕ) (bhs : List ℕ) : ∀ s : St,
    (fatMirrorCopy env sb backupFat s bhs).1 ≤ 0 := by
  induction bhs with
  | nil =>
    intro _
    exact le_rfl
  | cons b bhs ih =>
    intro s
    rw [fatMirrorCopy]
    by_cases hget : env.getblk s.t = false
    · rw [if_pos hget]
      exact show (- ENOMEM : ℤ) ≤ 0 by decide
    · rw [if_neg hget]
      simp only
      generalize (if sb.synchronous then syncDirtyBuffer env _ (sectorAdd backupFat b) else (true, _)) = r
      cases r.1 with
      | true => exact ih _
      | false => exact show (- EIO : ℤ) ≤ 0 by decide

theorem fatMirrorLoop_nonpos (env : Env) (sb : FatSb) (bhs : List ℕ) (left : ℕ) : ∀ (copy : ℕ) (s : St),
    (fatMirrorLoop env sb bhs left copy s).1 ≤ 0 := by
  induction left with
  | zero =>
    intro _ _
    exact le_rfl
  | succ left ih =>
    intro copy s
    rw [fatMirrorLoop]
    have hcopy := fatMirrorCopy_nonpos env sb (sb.fatLength * copy) bhs s
    generalize fatMirrorCopy env sb (sb.fatLength * copy) s bhs = r at hcopy ⊢
    simp only
    split_ifs
    · exact hcopy
    · exact ih _ _

/-- an error is negative -/
theorem fatWriteBhs_nonpos (env : Env) (sb : FatSb) (s : St) (bhs : List ℕ) (sync : Bool) :
    (fatWriteBhs env sb s bhs sync).1 ≤ 0 := by
  unfold fatWriteBhs
  cases sync with
  | false =>
    simp only [Bool.false_eq_true, if_false, ne_eq, not_true_eq_false]
    exact fatMirrorLoop_nonpos env sb bhs _ _ _
  | true =>
    have hsync := fatSyncBhs_nonpos env bhs s
    simp only [if_true]
    split_ifs
    · exact hsync
    · exact fatMirrorLoop_nonpos env sb bhs _ _ _

/-! ## Allocations -/

/-- **An allocation that succeeds** took the first free entries, and they are a chain. -/
theorem fatAllocClusters_zero (hpf : PrevFreeOk sb s) {nr : ℕ} (hnr : 0 < nr) {needsSync : Bool} {r : AllocClusters}
    (hr : fatAllocClusters env sb s needsSync nr = some r) (h0 : r.err = 0) :
    r.cluster = (freeEntries sb s.vol s.prevFree).take nr ∧ r.cluster.length = nr ∧ Chained sb s.vol r.s.vol r.cluster ∧
      PrevFreeOk sb r.s := by
  unfold fatAllocClusters at hr
  split_ifs at hr with hbug href
  · rw [Option.some.injEq] at hr
    rw [← hr] at h0
    exact absurd h0 (show ¬ (- ENOSPC : ℤ) = 0 by decide)
  obtain ⟨err, a, hloop, hout, hch, hbhs, hp⟩ := fatAllocLoop_start_any env hpf hnr
  rw [hloop, Option.some.injEq] at hr
  have hrel := (FatEntry.brelse_spec sb a.fatent a.s).2
  by_cases herr : err = 0
  · obtain ⟨hle, hcl⟩ : nr ≤ (freeEntries sb s.vol s.prevFree).length ∧
        a.cluster = (freeEntries sb s.vol s.prevFree).take nr := by
      rcases hout with ⟨hr, -⟩ | ⟨hr, hcl⟩
      · rw [herr] at hr
        exact absurd hr (by decide)
      · refine ⟨?_, hcl⟩
        by_contra hfew
        rw [if_neg hfew, herr] at hr
        exact absurd hr (by decide)
    have hlen : a.cluster.length = nr := by rw [hcl, List.length_take, min_eq_left hle]
    unfold allocOut at hr
    simp only [herr, if_true] at hr
    obtain ⟨c, cs, hcs⟩ := List.exists_cons_of_ne_nil (List.ne_nil_of_length_pos (hlen ▸ hnr))
    have hwrite := fatWriteBhs_zero env (a.fatent.brelse a.s).2 hbhs needsSync
    generalize fatWriteBhs env sb (a.fatent.brelse a.s).2 a.bhs needsSync = w at hr hwrite
    simp only [hcs] at hr
    have hw : w.1 = 0 := by
      rw [← h0, ← hr]
    have hsame := (hrel.trans (hwrite hw)).trans (foldl_brelse_sameFat sb a.bhs w.2)
    rw [if_neg (fun h => h hw), hw] at hr
    have hrs : r.s = a.bhs.foldl brelse w.2 := by rw [← hr]
    have hrc : r.cluster = a.cluster := by rw [← hr, hcs]
    refine ⟨hrc.trans hcl, hrc ▸ hlen, ?_, ?_⟩
    · rw [hrs, hrc]
      exact hch.congr hsame.vol
    · unfold PrevFreeOk
      rw [hrs, hsame.prevFree]
      exact hp
  · have hre : r.err = err := by
      rw [← hr]
      unfold allocOut
      simp only [if_neg herr]
      cases a.cluster with
      | nil => rfl
      | cons c cs => rfl
    exact absurd (hre.symm.trans h0) herr

theorem fatAllocLoop_nonpos (env : Env) (sb : FatSb) (nr left : ℕ) : ∀ (more : Bool) (a : Alloc),
    (fatAllocLoop env sb nr left more a).1 ≤ 0 := by
  induction left with
  | zero =>
    intro _ _
    exact show (- ENOSPC : ℤ) ≤ 0 by decide
  | succ left ih =>
    intro more a
    rw [fatAllocLoop]
    generalize (if more then (true, a) else allocReadBlock env sb a) = r
    obtain ⟨ok, a1⟩ := r
    cases ok with
    | false => exact show (- EIO : ℤ) ≤ 0 by decide
    | true =>
      simp only
      split_ifs
      · exact le_rfl
      · exact ih _ _
      · exact ih _ _

/-- an error is negative -/
theorem fatAllocClusters_nonpos {nr : ℕ} {needsSync : Bool} {r : AllocClusters}
    (hr : fatAllocClusters env sb s needsSync nr = some r) : r.err ≤ 0 := by
  unfold fatAllocClusters at hr
  split_ifs at hr
  · rw [← Option.some.inj hr]
    exact show (- ENOSPC : ℤ) ≤ 0 by decide
  have hloop := fatAllocLoop_nonpos env sb nr (sb.maxCluster - 2) false (allocStart s)
  generalize fatAllocLoop env sb nr (sb.maxCluster - 2) false (allocStart s) = w at hr hloop
  obtain ⟨err, a⟩ := w
  have hle : (if err = 0 then fatWriteBhs env sb (a.fatent.brelse a.s).2 a.bhs needsSync
      else (err, (a.fatent.brelse a.s).2)).1 ≤ 0 := by
    split_ifs
    · exact fatWriteBhs_nonpos env sb _ _ _
    · exact hloop
  rw [← Option.some.inj hr]
  unfold allocOut
  simp only
  generalize (if err = 0 then fatWriteBhs env sb (a.fatent.brelse a.s).2 a.bhs needsSync
    else (err, (a.fatent.brelse a.s).2)) = w at hle ⊢
  cases a.cluster with
  | nil => exact hle
  | cons c cs => exact hle

/-! ## Directories -/

/-- **The last cluster**: a walk that succeeds has come to the end of the chain. -/
theorem lastCluster_zero (env : Env) {dir : DirInode} {l : List ℤ} (p : Path (table sb s.vol) dir.iStart l)
    (h : ¬ (lastCluster env sb s dir).1 < 0) :
    (lastCluster env sb s dir).2.1 = l.getLast p.ne_nil ∧ Quiet s (lastCluster env sb s dir).2.2 := by
  have h0 : dir.iStart ≠ 0 := (path_inRange p _ p.head_mem).pos.ne'
  obtain ⟨es, m, w, hfc, hquiet, -, -, hret, hstop, hfail⟩ := fatGetClusterLoop_walk env sb FAT_ENT_EOF
    (clusterLimit sb + 2) s 0 dir.iStart _ (Nat.zero_le _) (Nat.le_refl _) rfl
  have hlim := clusterLimit_lt_eof sb
  have hsteps := stepsLeft_eof sb
  rw [hsteps] at w hret hstop
  unfold lastCluster at h ⊢
  simp only [if_pos h0] at h ⊢
  generalize fatGetClusterLoop env sb FAT_ENT_EOF (clusterLimit sb + 2) s 0 dir.iStart = r at h w hfc hquiet hret hstop hfail ⊢
  refine ⟨?_, hquiet⟩
  have hneg : r.ret ≠ - EIO := by
    intro he
    rw [he] at h
    exact h (by decide)
  have hno : NoFailure es := by
    by_contra hbad
    exact hneg (hfail hbad)
  have hreach := w.reached
  rw [nth_path p] at hreach
  have hmem := List.mem_of_getElem? hreach
  have hlt : m < clusterLimit sb + 1 := by
    refine lt_of_le_of_ne w.le fun hm => hneg ?_
    rw [hret hm, hfc, hm, Nat.zero_add, if_neg (by omega)]
  have heof : fatLink sb s.vol r.dclus = FAT_ENT_EOF := by
    by_contra hne
    exact hneg ((hstop hlt hno).trans (if_neg hne))
  exact (path_end p hmem fun hl => hl.2 heof).1

/-- **A directory that has grown** at the end of its chain. -/
theorem fatChainAdd_zero {dir : DirInode} {l : List ℤ} (p : Path (table sb s.vol) dir.iStart l) {new : ℤ} {nr : ℕ}
    (h : (fatChainAdd env sb s dir new nr).ret = 0) :
    (fatChainAdd env sb s dir new nr).dir = dir.addBlocks sb nr ∧
      EqFat sb (fatPut sb s.vol (l.getLast p.ne_nil) new) (fatChainAdd env sb s dir new nr).s.vol ∧
      (fatChainAdd env sb s dir new nr).s.prevFree = s.prevFree := by
  have hin := path_inRange p _ (List.getLast_mem p.ne_nil)
  have hlast := lastCluster_zero env p
  unfold fatChainAdd at h ⊢
  generalize lastCluster env sb s dir = q at h hlast ⊢
  obtain ⟨ret, last, s1⟩ := q
  simp only at h hlast ⊢
  by_cases hret : ret < 0
  · rw [if_pos hret] at h
    simp only at h
    omega
  obtain ⟨hl, hquiet⟩ := hlast hret
  rw [hl] at h ⊢
  simp only [if_neg hret, if_pos hin.pos.ne'] at h ⊢
  obtain ⟨v, e, s2, hread, hsame2, hor⟩ := fatEntRead_any env sb s1 fatentInit (l.getLast p.ne_nil)
  rw [hread] at h ⊢
  simp only at h ⊢
  by_cases hv : v < 0
  · rw [if_pos hv] at h
    simp only at h
    omega
  rw [if_neg hv] at h ⊢
  have hat : e.At sb (l.getLast p.ne_nil) := by
    rcases hor with rfl | ⟨-, -, hat⟩
    · exact absurd (show (- EIO : ℤ) < 0 by decide) hv
    · exact hat
  have hle := fatWriteBhs_nonpos env sb (e.put s2 new) e.bh.toList true
  have hwrite := fatWriteBhs_zero env (e.put s2 new) (hat.bhs_inFat hin) true
  unfold fatEntWrite at h ⊢
  generalize fatWriteBhs env sb (e.put s2 new) e.bh.toList true = w at h hle hwrite ⊢
  obtain ⟨err, s3⟩ := w
  by_cases herr : err < 0
  · simp only [if_pos herr] at h
    omega
  have hzero : err = 0 := le_antisymm hle (not_lt.1 herr)
  simp only [hzero, lt_irrefl, if_false] at h ⊢
  have hsame := (hwrite hzero).trans (FatEntry.brelse_spec sb e s3).2
  rw [hat.put] at hsame
  have h2 : EqFat sb s.vol s2.vol := by
    intro b hb
    rw [hsame2.vol b hb, hquiet.vol]
  refine ⟨trivial, (EqFat.fatPut h2 hin new).trans hsame.vol, ?_⟩
  rw [hsame.prevFree]
  exact hsame2.prevFree.trans (by rw [hquiet])

end

end AtsLdd.Fat
