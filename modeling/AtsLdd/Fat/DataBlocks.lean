/-
What the operations on the FAT leave alone: the blocks of the data region, whatever fails on the way.

- `fatAllocClusters_sameData`: an allocation that succeeds writes blocks of the FATs only;
- `fatChainAdd_sameData`: so does hanging a cluster behind the last one of a chain.
-/
import AtsLdd.Fat.Backup
import AtsLdd.Fat.DirSize

namespace AtsLdd.Fat

open AtsLdd.Machine AtsLdd.LinkTable

/-- the blocks of the data region are as they were -/
def SameData (sb : FatSb) (s s' : St) : Prop := ∀ b, sb.dataStart ≤ b → s'.vol b = s.vol b

section
variable {env : Env} {sb : FatSb} {s s1 s' : St} {b : ℕ}

theorem SameData.of_vol (h : s'.vol = s.vol) : SameData sb s s' := fun b _ => congrFun h b

theorem SameData.refl (sb : FatSb) (s : St) : SameData sb s s := SameData.of_vol rfl

theorem SameData.trans (h : SameData sb s s1) (h' : SameData sb s1 s') : SameData sb s s' :=
  fun b hb => (h' b hb).trans (h b hb)

theorem InFat.lt_dataStart (h : InFat sb b) : b < sb.dataStart := not_le.1 fun hle => not_inFat_of_le hle h

theorem InFats.lt_dataStart (h : InFats sb b) : b < sb.dataStart := h.2.trans_le sb.fats_le

/-- a block before the data region is stored -/
theorem store_sameData (hb : b < sb.dataStart) (s : St) (buf : Buf) (refs : ℕ → ℤ) (t : ℕ) :
    SameData sb s { s with vol := Function.update s.vol b buf, refs := refs, t := t } :=
  fun x hx => Function.update_of_ne (fun h : x = b => absurd hb (not_lt.2 (h ▸ hx))) _ _

theorem syncDirtyBuffer_sameData (env : Env) (hb : b < sb.dataStart) (s : St) : SameData sb s (syncDirtyBuffer env s b).2 := by
  unfold syncDirtyBuffer
  split_ifs
  · exact SameData.of_vol rfl
  · exact store_sameData hb s _ _ _

theorem fatSyncBhs_sameData (env : Env) {bhs : List ℕ} (hbhs : BhsInFat sb bhs) : ∀ s : St,
    SameData sb s (fatSyncBhs env s bhs).2 := by
  induction bhs with
  | nil => exact SameData.refl sb
  | cons b bhs ih =>
    obtain ⟨hb, hrest⟩ := List.forall_mem_cons.1 hbhs
    intro s
    have hsync := syncDirtyBuffer_sameData env hb.lt_dataStart s
    rw [fatSyncBhs]
    generalize syncDirtyBuffer env s b = r at hsync ⊢
    obtain ⟨ok, s1⟩ := r
    exact hsync.trans (ih hrest s1)

/-- the copies that mirroring writes lie in the FATs -/
theorem fatMirrorCopy_sameData (env : Env) {copy : ℕ} (hcopy : copy < sb.fats) {bhs : List ℕ} (hbhs : BhsInFat sb bhs) :
    ∀ s : St, SameData sb s (fatMirrorCopy env sb (sb.fatLength * copy) s bhs).2 := by
  induction bhs with
  | nil => exact SameData.refl sb
  | cons b bhs ih =>
    obtain ⟨hb, hrest⟩ := List.forall_mem_cons.1 hbhs
    intro s
    have hlt : sectorAdd (sb.fatLength * copy) b < sb.dataStart := (fatCopy_inFats hcopy hb).lt_dataStart
    rw [fatMirrorCopy]
    by_cases hget : env.getblk s.t = false
    · rw [if_pos hget]
      exact SameData.of_vol rfl
    rw [if_neg hget]
    simp only
    have hstore := store_sameData hlt s (s.vol b) (Function.update s.refs (sectorAdd (sb.fatLength * copy) b)
      (s.refs (sectorAdd (sb.fatLength * copy) b) + 1)) (s.t + 1)
    generalize ({ s with
      t := s.t + 1
      refs := Function.update s.refs (sectorAdd (sb.fatLength * copy) b) (s.refs (sectorAdd (sb.fatLength * copy) b) + 1)
      vol := Function.update s.vol (sectorAdd (sb.fatLength * copy) b) (s.vol b) } : St) = s1 at hstore ⊢
    have hsync : SameData sb s1 (if sb.synchronous then syncDirtyBuffer env s1 (sectorAdd (sb.fatLength * copy) b)
        else (true, s1)).2 := by
      split_ifs
      · exact syncDirtyBuffer_sameData env hlt s1
      · exact SameData.refl sb s1
    generalize (if sb.synchronous then syncDirtyBuffer env s1 (sectorAdd (sb.fatLength * copy) b) else (true, s1)) = r
      at hsync ⊢
    obtain ⟨ok, s2⟩ := r
    have hrel : SameData sb s (brelse s2 (sectorAdd (sb.fatLength * copy) b)) := (hstore.trans hsync).trans (SameData.of_vol rfl)
    cases ok with
    | true => exact hrel.trans (ih hrest _)
    | false => exact hrel

theorem fatMirrorLoop_sameData (env : Env) {bhs : List ℕ} (hbhs : BhsInFat sb bhs) (left : ℕ) : ∀ (copy : ℕ) (s : St),
    copy + left ≤ sb.fats → SameData sb s (fatMirrorLoop env sb bhs left copy s).2 := by
  induction left with
  | zero =>
    intro _ s _
    exact SameData.refl sb s
  | succ left ih =>
    intro copy s hle
    have hcopy := fatMirrorCopy_sameData env (show copy < sb.fats by omega) hbhs s
    rw [fatMirrorLoop]
    generalize fatMirrorCopy env sb (sb.fatLength * copy) s bhs = r at hcopy ⊢
    simp only
    split_ifs
    · exact hcopy
    · exact hcopy.trans (ih (copy + 1) r.2 (by omega))

/-- **Writing buffers of the FAT** does not touch the data region. -/
theorem fatWriteBhs_sameData (env : Env) {bhs : List ℕ} (hbhs : BhsInFat sb bhs) (s : St) (sync : Bool) :
    SameData sb s (fatWriteBhs env sb s bhs sync).2 := by
  have hmirror : ∀ s : St, SameData sb s (fatMirrorBhs env sb s bhs).2 :=
    fun s => fatMirrorLoop_sameData env hbhs _ 1 s (Nat.add_sub_cancel' sb.fats_pos).le
  unfold fatWriteBhs
  cases sync with
  | false => exact hmirror s
  | true =>
    have hsync := fatSyncBhs_sameData env hbhs s
    simp only [if_true]
    split_ifs
    · exact hsync
    · exact hsync.trans (hmirror _)

/-! ## Allocations -/

/-- a store through a cursor that holds a buffer of the FAT -/
theorem FatEntry.put_sameData {e : FatEntry} (he : ∀ b, e.bh = some b → InFat sb b) (s : St) (new : ℤ) :
    SameData sb s (e.put s new) := by
  intro b hb
  apply e.put_other s new
  intro h
  exact absurd (he b h).lt_dataStart (not_lt.2 hb)

/-- one entry is written -/
theorem fatEntWrite_sameData (env : Env) {e : FatEntry} {c : ℤ} (hat : e.At sb c) (hin : InRange sb c) (s : St) (new : ℤ)
    (wait : Bool) : SameData sb s (fatEntWrite env sb s e new wait).2 := by
  have hent : ∀ b, e.bh = some b → InFat sb b := by
    intro b hb
    rw [hat.bh, Option.some.injEq] at hb
    exact hb ▸ fatEntBlocknr_inFat hin
  exact (FatEntry.put_sameData hent s new).trans (fatWriteBhs_sameData env (hat.bhs_inFat hin) _ wait)

theorem takeFree_sameData {a : Alloc} (hent : ∀ b, a.fatent.bh = some b → InFat sb b)
    (hprev : ∀ b, a.prevEnt.bh = some b → InFat sb b) : SameData sb a.s (takeFree a).s := by
  have hput := FatEntry.put_sameData hent a.s FAT_ENT_EOF
  unfold takeFree
  simp only
  refine (hput.trans ?_).trans (SameData.of_vol (fatCollectBhs_vol a.bhs _ a.fatent))
  split_ifs
  · exact FatEntry.put_sameData hprev _ _
  · exact SameData.refl sb _

/-- **The search for free clusters** does not touch the data region. -/
theorem fatAllocLoop_sameData (env : Env) (hmax : 2 < sb.maxCluster) (nr left : ℕ) : ∀ {e : ℤ} {more : Bool} {a : Alloc},
    InRange sb e → Cursor sb more a e → (∀ b, a.prevEnt.bh = some b → InFat sb b) → BhsInFat sb a.bhs →
    SameData sb a.s (fatAllocLoop env sb nr left more a).2.s ∧ BhsInFat sb (fatAllocLoop env sb nr left more a).2.bhs := by
  induction left with
  | zero => exact fun {_ _ a} _ _ _ hbhs => ⟨SameData.refl sb a.s, hbhs⟩
  | succ left ih =>
    intro e more a he hcur hprev hbhs
    obtain ⟨ok, e', s', hhead, hat, -⟩ := allocHead_any env hcur
    obtain ⟨ok', e'', s'', hhead', hvol⟩ := allocHead_vol env sb more a
    rw [hhead] at hhead'
    have hs' : SameData sb a.s s' := by
      have hsame : s' = s'' := congrArg (fun r => r.2.s) hhead'
      exact SameData.of_vol (hsame ▸ hvol)
    have hnextIn : InRange sb (wrapEntry sb (e + 1)) := wrapEntry_inRange hmax (by have := he.1; omega)
    simp only [fatAllocLoop, hhead]
    cases ok with
    | false => exact ⟨hs', hbhs⟩
    | true =>
      have hat := hat rfl
      have hent : ∀ b, e'.bh = some b → InFat sb b := by
        intro b hb
        rw [hat.bh, Option.some.injEq] at hb
        exact hb ▸ fatEntBlocknr_inFat he
      by_cases hfree : e'.get s' = FAT_ENT_FREE
      · simp only [if_pos hfree]
        have htake : SameData sb s' (takeFree { a with fatent := e', s := s' }).s := takeFree_sameData hent hprev
        have htbhs : BhsInFat sb (takeFree { a with fatent := e', s := s' }).bhs :=
          (fatCollectBhs_spec _ hat he hbhs).1
        have htf : (takeFree { a with fatent := e', s := s' }).fatent = e' := rfl
        generalize takeFree { a with fatent := e', s := s' } = b at htake htbhs htf ⊢
        by_cases hdone : b.cluster.length = nr
        · simp only [if_pos hdone]
          exact ⟨hs'.trans htake, htbhs⟩
        · simp only [if_neg hdone]
          have hcur' : Cursor sb (fatEntNext sb b.fatent).1
              { b with prevEnt := b.fatent, fatent := (fatEntNext sb b.fatent).2 } (wrapEntry sb (e + 1)) :=
            cursor_next he (htf ▸ hat) rfl
          obtain ⟨h1, h2⟩ := ih hnextIn hcur' (htf ▸ hent) htbhs
          exact ⟨(hs'.trans htake).trans h1, h2⟩
      · simp only [if_neg hfree]
        have hcur' : Cursor sb (fatEntNext sb e').1 { a with fatent := (fatEntNext sb e').2, s := s' }
            (wrapEntry sb (e + 1)) := cursor_next he hat rfl
        obtain ⟨h1, h2⟩ := ih hnextIn hcur' hprev hbhs
        exact ⟨hs'.trans h1, h2⟩

/-- **An allocation that succeeds** does not touch the data region. -/
theorem fatAllocClusters_sameData (hpf : PrevFreeOk sb s) {needsSync : Bool} {nr : ℕ} {r : AllocClusters}
    (hr : fatAllocClusters env sb s needsSync nr = some r) (h0 : r.err = 0) : SameData sb s r.s := by
  unfold fatAllocClusters at hr
  split_ifs at hr with hbug href
  · rw [Option.some.injEq] at hr
    rw [← hr] at h0
    exact absurd h0 (show ¬ (- ENOSPC : ℤ) = 0 by decide)
  have hloop : SameData sb s (fatAllocLoop env sb nr (sb.maxCluster - 2) false (allocStart s)).2.s ∧
      BhsInFat sb (fatAllocLoop env sb nr (sb.maxCluster - 2) false (allocStart s)).2.bhs := by
    rcases Nat.lt_or_ge 2 sb.maxCluster with hmax | hmax
    · refine fatAllocLoop_sameData env hmax nr _ (wrapEntry_inRange hmax ?_) (cursor_start hpf)
        (fun b hb => absurd hb (by simp [allocStart, fatentInit])) (BhsInFat.nil sb)
      have h2 := hpf.1
      unfold FAT_START_ENT
      omega
    · have hzero : sb.maxCluster - 2 = 0 := by omega
      rw [hzero]
      exact ⟨SameData.refl sb s, BhsInFat.nil sb⟩
  generalize fatAllocLoop env sb nr (sb.maxCluster - 2) false (allocStart s) = q at hr hloop
  obtain ⟨err, a⟩ := q
  obtain ⟨hsame, hbhs⟩ := hloop
  rw [Option.some.injEq] at hr
  rw [← hr] at h0 ⊢
  unfold allocOut at h0 ⊢
  simp only at h0 hsame hbhs ⊢
  have hrel : SameData sb s (a.fatent.brelse a.s).2 := hsame.trans (SameData.of_vol (a.fatent.brelse_vol a.s))
  have hout : SameData sb s (if err = 0 then fatWriteBhs env sb (a.fatent.brelse a.s).2 a.bhs needsSync
      else (err, (a.fatent.brelse a.s).2)).2 := by
    split_ifs
    · exact hrel.trans (fatWriteBhs_sameData env hbhs _ _)
    · exact hrel
  generalize (if err = 0 then fatWriteBhs env sb (a.fatent.brelse a.s).2 a.bhs needsSync
    else (err, (a.fatent.brelse a.s).2)) = w at h0 hout ⊢
  have hrelse := hout.trans (SameData.of_vol (foldl_brelse_vol a.bhs w.2))
  cases hcl : a.cluster with
  | nil => exact hrelse
  | cons c cs =>
    rw [hcl] at h0
    have hw : w.1 = 0 := h0
    simp only
    rw [if_neg (not_not.2 hw)]
    exact hrelse

/-- **Hanging a cluster behind a chain** does not touch the data region. -/
theorem fatChainAdd_sameData (env : Env) {dir : DirInode} (hroot : dir.iStart = 0 → dir.isRoot = true) {l : List ℤ}
    (hchain : DirChain sb s.vol dir.iStart l) {new : ℤ} {nr : ℕ} (h0 : (fatChainAdd env sb s dir new nr).ret = 0) :
    SameData sb s (fatChainAdd env sb s dir new nr).s := by
  rcases hchain with ⟨hzero, -⟩ | p
  · rw [fatChainAdd_root env sb s hzero (hroot hzero)]
    exact SameData.refl sb s
  have hin := path_inRange p _ (List.getLast_mem p.ne_nil)
  have hlast := lastCluster_zero env p
  unfold fatChainAdd at h0 ⊢
  generalize lastCluster env sb s dir = q at h0 hlast ⊢
  obtain ⟨ret, last, s1⟩ := q
  simp only at h0 hlast ⊢
  by_cases hret : ret < 0
  · rw [if_pos hret] at h0
    exact absurd h0 hret.ne
  obtain ⟨hl, hquiet⟩ := hlast hret
  rw [hl] at h0 ⊢
  simp only [if_neg hret, if_pos hin.pos.ne'] at h0 ⊢
  have hvol := fatEntRead_vol env sb s1 fatentInit (l.getLast p.ne_nil)
  obtain ⟨v, e, s2, hread, -, hor⟩ := fatEntRead_any env sb s1 fatentInit (l.getLast p.ne_nil)
  rw [hread] at h0 hvol ⊢
  simp only at h0 hvol ⊢
  have hs2 : SameData sb s s2 := SameData.of_vol (hvol.trans hquiet.vol)
  by_cases hv : v < 0
  · rw [if_pos hv]
    exact hs2
  rw [if_neg hv] at h0 ⊢
  have hat : e.At sb (l.getLast p.ne_nil) := by
    rcases hor with rfl | ⟨-, -, hat⟩
    · exact absurd (show (- EIO : ℤ) < 0 by decide) hv
    · exact hat
  have hdone : SameData sb s (e.brelse (fatEntWrite env sb s2 e new true).2).2 :=
    (hs2.trans (fatEntWrite_sameData env hat hin s2 new true)).trans (SameData.of_vol (e.brelse_vol _))
  split_ifs
  · exact hdone
  · exact hdone

end

end AtsLdd.Fat
