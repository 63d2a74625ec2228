/-
Every call on a directory or a FAT leaves the references as it found them.

- `msdosLookup_holds`, `msdosCreate_holds`: finding and creating a file;
- `references_balanced`: every call leaves the counts as they were, but for the one reference that a successful `fat_scan`
  or `fat_add_entries` hands out, and no count is below that on the way.
-/
import AtsLdd.Fat.AddBalance
import AtsLdd.Fat.Create
import AtsLdd.Fat.DirSize

namespace AtsLdd.Fat

open AtsLdd.Machine AtsLdd.Counted

section
variable {env : Env} {sb : FatSb} {base : ℕ → ℤ} {held : Multiset ℕ} {s : St}

/-! ## Finding and creating files -/

/-- `brelse(sinfo.bh)` -/
theorem SlotInfo.brelse_holds {sinfo : SlotInfo} (h : Holds base (inHand sinfo.bh + held) s) : Holds base held (sinfo.brelse s) := by
  have hgive := h.brelseHand
  unfold SlotInfo.brelse
  cases hbh : sinfo.bh with
  | none =>
    rw [hbh] at hgive
    exact hgive
  | some b =>
    rw [hbh] at hgive
    exact hgive

/-- `msdos_find` hands out the buffer of the entry when there is one -/
theorem msdosFind_holds (h : Holds base held s) (env : Env) (sb : FatSb) (mopts : MountOptions) (dir : Inode) (name : List UInt8) :
    let r := msdosFind env sb mopts s dir name
    Holds base (r.2.1.elim 0 (fun sinfo => inHand sinfo.bh) + held) r.2.2 := by
  have hnone : ∀ {s : St}, Holds base held s → Holds base (0 + held) s := by
    intro s hs
    rwa [zero_add]
  unfold msdosFind
  cases msdosFormatName mopts name with
  | none => exact hnone h
  | some res =>
    obtain ⟨hscan, -, hfail⟩ := fatScan_holds h env sb dir res
    simp only at hscan hfail ⊢
    generalize fatScan env sb s dir res = r at hscan hfail ⊢
    obtain ⟨err, sinfo, s'⟩ := r
    simp only at hscan hfail ⊢
    have hgive := hnone (SlotInfo.brelse_holds hscan)
    by_cases herr : err = 0
    · rw [if_pos herr]
      split_ifs
      · exact hscan
      · exact hgive
      · exact hgive
      · exact hscan
      · exact hscan
    · rw [if_neg herr]
      rw [hfail herr, inHand_none] at hscan
      exact hscan

theorem fatCalcDirSize_holds (h : Holds base held s) {ino : Inode} {c : CalcDirSize} (hc : fatCalcDirSize env sb s ino = some c) :
    Holds base held c.s := by
  unfold fatCalcDirSize fatGetCluster at hc
  by_cases hstart : ino.iStart = 0
  · rw [if_pos hstart, Option.some.injEq] at hc
    rw [← hc]
    exact h
  simp only [if_neg hstart] at hc
  have hloop := fatGetClusterLoop_holds env sb FAT_ENT_EOF (clusterLimit sb + 2) 0 ino.iStart h
  generalize fatGetClusterLoop env sb FAT_ENT_EOF (clusterLimit sb + 2) s 0 ino.iStart = r at hc hloop
  by_cases hret : r.ret < 0
  · rw [if_pos hret, Option.some.injEq] at hc
    rw [← hc]
    exact hloop
  · rw [if_neg hret, Option.some.injEq] at hc
    rw [← hc]
    exact hloop

theorem fatFillInode_holds (h : Holds base held s) {opts : InodeOptions} {ino : VfsInode} {de : Buf} {r : ℤ × VfsInode × St}
    (hr : fatFillInode env sb opts s ino de = some r) : Holds base held r.2.2 := by
  unfold fatFillInode at hr
  by_cases hdir : entAttr de &&& ATTR_DIR ≠ 0 ∧ ¬ IsFree de
  · simp only [if_pos hdir] at hr
    cases hcalc : fatCalcDirSize env sb s ⟨entStart de, 0⟩ with
    | none =>
      rw [hcalc] at hr
      cases hr
    | some c =>
      have hc := fatCalcDirSize_holds h hcalc
      rw [hcalc] at hr
      simp only at hr
      by_cases hret : c.ret < 0
      · rw [if_pos hret, Option.some.injEq] at hr
        rw [← hr]
        exact hc
      · rw [if_neg hret, Option.some.injEq] at hr
        rw [← hr]
        exact fatSubdirs_holds hc env sb _
  · simp only [if_neg hdir, Option.some.injEq] at hr
    rw [← hr]
    exact h

theorem fatBuildInode_holds (h : Holds base held s) {opts : InodeOptions} {table : InodeTable} {de : Buf} {iPos : ℕ} {mem : Bool}
    {b : BuildInode} (hb : fatBuildInode env sb opts table s de iPos mem = some b) : Holds base held b.s := by
  unfold fatBuildInode at hb
  cases htable : table iPos with
  | some ino =>
    rw [htable, Option.some.injEq] at hb
    rw [← hb]
    exact h
  | none =>
    rw [htable] at hb
    simp only at hb
    by_cases hmem : mem = false
    · rw [if_pos hmem, Option.some.injEq] at hb
      rw [← hb]
      exact h
    rw [if_neg hmem] at hb
    cases hfill : fatFillInode env sb opts s { newInode with iNlink := 1 } de with
    | none =>
      rw [hfill] at hb
      exact absurd hb (by simp)
    | some q =>
      have hq := fatFillInode_holds h hfill
      rw [hfill] at hb
      simp only at hb
      by_cases herr : q.1 ≠ 0
      · rw [if_pos herr, Option.some.injEq] at hb
        rw [← hb]
        exact hq
      · rw [if_neg herr, Option.some.injEq] at hb
        rw [← hb]
        exact hq

/-- **`msdos_lookup`** has in hand what it had before. -/
theorem msdosLookup_holds (h : Holds base held s) {mopts : MountOptions} {opts : InodeOptions} {table : InodeTable} {dir : Inode}
    {name : List UInt8} {mem : Bool} {r : Lookup} (hr : msdosLookup env sb mopts opts table s dir name mem = some r) :
    Holds base held r.s := by
  have hfind := msdosFind_holds h env sb mopts dir name
  unfold msdosLookup at hr
  simp only at hfind
  generalize msdosFind env sb mopts s dir name = w at hr hfind
  rcases w with ⟨err, _ | sinfo, s'⟩
  · change Holds base (0 + held) s' at hfind
    rw [zero_add] at hfind
    rw [Option.some.injEq] at hr
    rw [← hr]
    exact hfind
  · change Holds base (inHand sinfo.bh + held) s' at hfind
    cases hbuild : fatBuildInode env sb opts table s' (sinfo.ent s') sinfo.iPos mem with
    | none =>
      simp only [hbuild] at hr
      exact absurd hr (by simp)
    | some b =>
      simp only [hbuild, Option.some.injEq] at hr
      rw [← hr]
      exact SlotInfo.brelse_holds (fatBuildInode_holds hfind hbuild)

theorem msdosAddEntry_holds (h : Holds base held s) {dir : DirInode} {tz : TimeZone} {name : List UInt8} {isDir hid : Bool}
    {cluster : ℤ} {ts : Timespec} {r : AddEntries} (hr : msdosAddEntry env sb tz s dir name isDir hid cluster ts = some r) :
    AddedHolds base held r := by
  unfold msdosAddEntry at hr
  cases hadd : fatAddEntries env sb s dir (newEntry tz name isDir hid cluster ts) 1 with
  | none =>
    rw [hadd] at hr
    exact absurd hr (by simp)
  | some q =>
    have hq := fatAddEntries_holds h Nat.one_pos hadd
    rw [hadd] at hr
    simp only at hr
    by_cases herr : q.err ≠ 0
    · rw [if_pos herr, Option.some.injEq] at hr
      rw [← hr]
      exact hq
    · rw [if_neg herr, Option.some.injEq] at hr
      rw [← hr]
      refine ⟨fun h0 => ?_, fun hne => absurd hne herr⟩
      obtain ⟨sinfo, b, hsinfo, hb, hholds⟩ := hq.ok h0
      exact ⟨sinfo, b, hsinfo, hb, fatSyncInode_holds hholds env sb _⟩

/-- **`msdos_create`** has in hand what it had before. -/
theorem msdosCreate_holds {c c' : Create} (h : Holds base held c.s) {mopts : MountOptions} {opts : InodeOptions} {name : List UInt8}
    {ts : Timespec} {mem : Bool} {err : ℤ} (hr : msdosCreate env sb mopts opts c name ts mem = some (err, c')) :
    Holds base held c'.s := by
  unfold msdosCreate at hr
  simp only at hr
  cases hformat : msdosFormatName mopts name with
  | none =>
    rw [hformat, Option.some.injEq, Prod.mk.injEq] at hr
    rw [← hr.2]
    exact h
  | some res =>
    rw [hformat] at hr
    simp only at hr
    have hlocked : Holds base held c.lockSuper.s := h
    obtain ⟨hscan, -, hfail⟩ := fatScan_holds hlocked env sb c.lockSuper.dir.toInode res
    generalize fatScan env sb c.lockSuper.s c.lockSuper.dir.toInode res = w at hr hscan hfail
    obtain ⟨e, sinfo, s1⟩ := w
    simp only at hr hscan hfail
    by_cases hfound : e = 0
    · rw [if_pos hfound, Option.some.injEq, Prod.mk.injEq] at hr
      rw [← hr.2]
      exact SlotInfo.brelse_holds hscan
    rw [if_neg hfound] at hr
    have hbh := hfail hfound
    rw [hbh, inHand_none, zero_add] at hscan
    cases hadd : msdosAddEntry env sb opts.tz s1 c.lockSuper.dir res false (isHid name res) FAT_ENT_FREE ts with
    | none =>
      rw [hadd] at hr
      exact absurd hr (by simp)
    | some r =>
      have hr' := msdosAddEntry_holds hscan hadd
      rw [hadd] at hr
      simp only at hr
      by_cases herr : r.err ≠ 0
      · rw [if_pos herr, Option.some.injEq, Prod.mk.injEq] at hr
        rw [← hr.2]
        have hnull : Holds base (inHand sinfo.bh + held) r.s := by
          rw [hbh, inHand_none, zero_add]
          exact hr'.fails herr
        exact SlotInfo.brelse_holds hnull
      rw [if_neg herr] at hr
      obtain ⟨sinfo', b, hsinfo, hb, hholds⟩ := hr'.ok (not_not.1 herr)
      rw [hsinfo] at hr
      simp only [Option.getD_some] at hr
      cases hbuild : fatBuildInode env sb opts c.lockSuper.table r.s (sinfo'.ent r.s) sinfo'.iPos mem with
      | none =>
        rw [hbuild] at hr
        exact absurd hr (by simp)
      | some q =>
        have hq := fatBuildInode_holds hholds hbuild
        have hgive : Holds base held (sinfo'.brelse q.s) := by
          apply SlotInfo.brelse_holds
          rw [hb, inHand_some, Multiset.singleton_add]
          exact hq
        rw [hbuild] at hr
        simp only at hr
        cases hino : q.inode with
        | none =>
          rw [hino, Option.some.injEq, Prod.mk.injEq] at hr
          rw [← hr.2]
          exact hgive
        | some ino =>
          rw [hino, Option.some.injEq, Prod.mk.injEq] at hr
          rw [← hr.2]
          exact hgive

end

/-! ## The counts at the end of a call -/

/-- the state at the entry of a call: the lowest counts are those that it finds -/
def St.enter (s : St) : St := { s with low := s.refs }

/-- between the entry of a call and its end, the counts have grown by the references `more`, and none was below the entry -/
structure Balanced (more : Multiset ℕ) (s s' : St) : Prop where
  refs : ∀ b, s'.refs b = s.refs b + more.count b
  low : ∀ b, s.refs b ≤ s'.low b

theorem holds_enter (s : St) : Holds s.refs 0 s.enter := Held.of_low (c := s.enter.counts) rfl

theorem Holds.balanced {more : Multiset ℕ} {s s' : St} (h : Holds s.refs more s') : Balanced more s s' := ⟨h.refs, h.low⟩

/-- **The references are balanced.** Whatever fails on the way, each call leaves every count as it was and was never below it;
only a `fat_scan` and a `fat_add_entries` that succeed leave one reference more, to the buffer of `sinfo`. -/
theorem references_balanced (env : Env) (sb : FatSb) (mopts : MountOptions) (opts : InodeOptions) (s : St) :
    (∀ dir name err sinfo s', fatScan env sb s.enter dir name = (err, sinfo, s') →
      (err = 0 → ∃ b, sinfo.bh = some b ∧ Balanced {b} s s') ∧ (err ≠ 0 → Balanced 0 s s')) ∧
    (∀ dir slots nrSlots r, 0 < nrSlots → fatAddEntries env sb s.enter dir slots nrSlots = some r →
      (r.err = 0 → ∃ sinfo b, r.sinfo = some sinfo ∧ sinfo.bh = some b ∧ Balanced {b} s r.s) ∧ (r.err ≠ 0 → Balanced 0 s r.s)) ∧
    (∀ needsSync nr r, fatAllocClusters env sb s.enter needsSync nr = some r → Balanced 0 s r.s) ∧
    (∀ cluster, Balanced 0 s (fatFreeClusters env sb s.enter cluster).2) ∧
    (∀ dir newDclus nr, Balanced 0 s (fatChainAdd env sb s.enter dir newDclus nr).s) ∧
    (∀ dir, Balanced 0 s (fatSubdirs env sb s.enter dir).2) ∧
    (∀ table dir name mem r, msdosLookup env sb mopts opts table s.enter dir name mem = some r → Balanced 0 s r.s) ∧
    (∀ c name ts mem err c', c.s = s.enter → msdosCreate env sb mopts opts c name ts mem = some (err, c') →
      Balanced 0 s c'.s) := by
  have henter := holds_enter s
  refine ⟨?_, ?_, ?_, ?_, ?_, ?_, ?_, ?_⟩
  · intro dir name err sinfo s' hr
    obtain ⟨hscan, hfound, hfail⟩ := fatScan_holds henter env sb dir name
    simp only [hr] at hscan hfound hfail
    rw [add_zero] at hscan
    refine ⟨fun h0 => ?_, fun hne => ?_⟩
    · obtain ⟨b, hb⟩ := Option.isSome_iff_exists.1 (hfound h0)
      rw [hb, inHand_some] at hscan
      exact ⟨b, hb, hscan.balanced⟩
    · rw [hfail hne, inHand_none] at hscan
      exact hscan.balanced
  · intro dir slots nrSlots r hnr hr
    have hadd := fatAddEntries_holds henter hnr hr
    refine ⟨fun h0 => ?_, fun hne => (hadd.fails hne).balanced⟩
    obtain ⟨sinfo, b, hsinfo, hb, hholds⟩ := hadd.ok h0
    exact ⟨sinfo, b, hsinfo, hb, Holds.balanced hholds⟩
  · intro needsSync nr r hr
    exact (fatAllocClusters_holds henter hr).balanced
  · intro cluster
    exact (fatFreeClusters_holds henter env sb cluster).balanced
  · intro dir newDclus nr
    exact (fatChainAdd_holds henter env sb dir newDclus nr).balanced
  · intro dir
    exact (fatSubdirs_holds henter env sb dir).balanced
  · intro table dir name mem r hr
    exact (msdosLookup_holds henter hr).balanced
  · intro c name ts mem err c' hc hr
    have hstart : Holds s.refs 0 c.s := by
      rw [hc]
      exact henter
    exact (msdosCreate_holds hstart hr).balanced

/-- two entries that are added to an empty directory -/
theorem references_balanced_two : ∃ r, fatAddEntries goodEnv tinySb emptyDir.s.enter emptyDir.dir addTwo.slots 2 = some r ∧
    ∃ sinfo b, r.sinfo = some sinfo ∧ sinfo.bh = some b ∧ Balanced {b} emptyDir.s r.s := by
  have herr : (fatAddEntries goodEnv tinySb emptyDir.s.enter emptyDir.dir addTwo.slots 2).map AddEntries.err = some 0 := by
    decide +kernel
  obtain ⟨r, hadd, hr⟩ := Option.map_eq_some_iff.1 herr
  have hbalanced := references_balanced goodEnv tinySb ⟨ch 'n', false, false, 0⟩ plainOptions emptyDir.s
  exact ⟨r, hadd, (hbalanced.2.1 _ _ 2 r Nat.two_pos hadd).1 hr⟩

end AtsLdd.Fat
