/-
What `msdos_create` leaves when it answers an error.

Up to `msdos_add_entry` everything is undone: an entry that could not be written is marked as deleted again, and clusters that
could not be hung behind the directory are freed. Behind it nothing is: the entry stays when `fat_build_inode` fails.

Undoing reads the block of the entry again. `__fat_remove_entries` passes over a block that it cannot read and marks an entry of
the next one, and a failed write puts the block of the device in place of the buffer; so the statement is about devices that
have what the buffers have and that read a block back.

- `msdosCreate_error`: either nothing is left of the call, or the entry stays without an inode;
- `msdosCreate_not_undone`: the three ways in which something is left.
-/
import AtsLdd.Fat.Create
import AtsLdd.Fat.DirSize
import AtsLdd.Fat.Rollback

namespace AtsLdd.Fat

open AtsLdd.Machine AtsLdd.LinkTable AtsLdd.WriteBack

/-! ## What an error leaves -/

/-- the live entries of a directory are the same, slot by slot, and so is the result of every scan, whatever can be read -/
structure LiveKept (sb : FatSb) (dir : Inode) (l : List ℤ) (vol vol' : Vol) : Prop where
  slot : ∀ i < nrSlots sb l, SlotKept (slot sb l vol i) (slot sb l vol' i)
  scan : ∀ (env : Env) (s : St) (name : List UInt8), SameScan { s with vol := vol } { s with vol := vol' }
    (fatScan env sb { s with vol := vol } dir name) (fatScan env sb { s with vol := vol' } dir name)

/-- the super block is not locked, and no inode was made -/
structure NoInode (c c' : Create) : Prop where
  locked : c'.locked = false
  table : c'.table = c.table
  dentry : c'.dentry = c.dentry

/-- the directory is as it was -/
structure Undone (sb : FatSb) (l : List ℤ) (c c' : Create) : Prop where
  dir : c'.dir = c.dir
  live : LiveKept sb c.dir.toInode l c.s.vol c'.s.vol

/-- `msdos_add_entry` has added the entry, and `fat_build_inode` has failed with `err` -/
inductive EntryStays (env : Env) (sb : FatSb) (mopts : MountOptions) (opts : InodeOptions) (c : Create) (name : List UInt8)
    (ts : Timespec) (mem : Bool) (err : ℤ) (c' : Create) : Prop
  | intro {res : List UInt8} {s : St} {r : AddEntries} {sinfo : SlotInfo} {b : BuildInode}
      (format : msdosFormatName mopts name = some res) (looked : Looked c.s s)
      (add : msdosAddEntry env sb opts.tz s c.dir res false (isHid name res) FAT_ENT_FREE ts = some r) (added : r.err = 0)
      (found : r.sinfo = some sinfo)
      (build : fatBuildInode env sb opts c.table r.s (sinfo.ent r.s) sinfo.iPos mem = some b) (failed : b.inode = none)
      (err_eq : b.err = err) (dir : c'.dir = r.dir) (kept : Looked r.s c'.s)

section
variable {env : Env} {sb : FatSb} {mopts : MountOptions} {opts : InodeOptions} {l : List ℤ} {s s' : St} {vol : Vol}

theorem StKept.liveKept {dir : Inode} (h : StKept env sb l l.dropLast vol s) (hdir : DirOn sb vol dir l) :
    LiveKept sb dir l vol s.vol := by
  have hdir' : DirAt sb s.vol dir l := h.dirAt hdir.dirAt fun x hx => hx
  refine ⟨fun i hi => h.slot hi, fun env' s0 name => ?_⟩
  have halike : Alike sb dir l { s0 with vol := vol } { s0 with vol := s.vol } := ⟨rfl, hdir.dirAt, hdir', fun i hi => h.slot hi⟩
  exact fatScan_alike env' halike name

theorem LiveKept.refl {dir : Inode} (hdir : DirOn sb vol dir l) : LiveKept sb dir l vol vol := by
  refine ⟨fun i _ => SlotKept.refl _, fun env s name => ?_⟩
  have halike : Alike sb dir l { s with vol := vol } { s with vol := vol } :=
    ⟨rfl, hdir.dirAt, hdir.dirAt, fun i _ => SlotKept.refl _⟩
  exact fatScan_alike env halike name

theorem fatCalcDirSize_looked {ino : Inode} {c : CalcDirSize} (h : fatCalcDirSize env sb s ino = some c) : Looked s c.s := by
  unfold fatCalcDirSize fatGetCluster at h
  by_cases hstart : ino.iStart = 0
  · rw [if_pos hstart, Option.some.injEq] at h
    rw [← h]
    exact Looked.refl s
  simp only [if_neg hstart] at h
  obtain ⟨-, -, -, -, hquiet, -⟩ := fatGetClusterLoop_walk env sb FAT_ENT_EOF (clusterLimit sb + 2) s 0 ino.iStart _
    (Nat.zero_le _) (Nat.le_refl _) rfl
  generalize fatGetClusterLoop env sb FAT_ENT_EOF (clusterLimit sb + 2) s 0 ino.iStart = r at h hquiet
  by_cases hret : r.ret < 0
  · rw [if_pos hret, Option.some.injEq] at h
    rw [← h]
    exact hquiet.looked
  · rw [if_neg hret, Option.some.injEq] at h
    rw [← h]
    exact hquiet.looked

theorem fatFillInode_error {ino ino' : VfsInode} {de : Buf} {err : ℤ}
    (h : fatFillInode env sb opts s ino de = some (err, ino', s')) (herr : err ≠ 0) : Looked s s' := by
  unfold fatFillInode at h
  by_cases hdir : entAttr de &&& ATTR_DIR ≠ 0 ∧ ¬ IsFree de
  · simp only [if_pos hdir] at h
    cases hcalc : fatCalcDirSize env sb s ⟨entStart de, 0⟩ with
    | none =>
      rw [hcalc] at h
      cases h
    | some c =>
      rw [hcalc] at h
      simp only at h
      by_cases hret : c.ret < 0
      · rw [if_pos hret, Option.some.injEq, Prod.mk.injEq, Prod.mk.injEq] at h
        rw [← h.2.2]
        exact fatCalcDirSize_looked hcalc
      · rw [if_neg hret, Option.some.injEq, Prod.mk.injEq] at h
        exact absurd h.1.symm herr
  · simp only [if_neg hdir, Option.some.injEq, Prod.mk.injEq] at h
    exact absurd h.1.symm herr

/-- **An inode that cannot be made** leaves the inodes in memory and the volume as they are. -/
theorem fatBuildInode_none {table : InodeTable} {de : Buf} {iPos : ℕ} {mem : Bool} {b : BuildInode}
    (hb : fatBuildInode env sb opts table s de iPos mem = some b) (hnone : b.inode = none) :
    b.table = table ∧ Looked s b.s := by
  unfold fatBuildInode at hb
  cases htable : table iPos with
  | some ino =>
    rw [htable, Option.some.injEq] at hb
    rw [← hb] at hnone
    exact absurd hnone (by simp)
  | none =>
    rw [htable] at hb
    simp only at hb
    by_cases hmem : mem = false
    · rw [if_pos hmem, Option.some.injEq] at hb
      rw [← hb]
      exact ⟨rfl, Looked.refl s⟩
    rw [if_neg hmem] at hb
    cases hfill : fatFillInode env sb opts s { newInode with iNlink := 1 } de with
    | none =>
      rw [hfill] at hb
      exact absurd hb (by simp)
    | some q =>
      obtain ⟨err, ino, s1⟩ := q
      rw [hfill] at hb
      simp only at hb
      by_cases herr : err ≠ 0
      · rw [if_pos herr, Option.some.injEq] at hb
        rw [← hb]
        exact ⟨rfl, fatFillInode_error hfill herr⟩
      · rw [if_neg herr, Option.some.injEq] at hb
        rw [← hb] at hnone
        exact absurd hnone (by simp)

theorem appendSlots_sinfo {dir : DirInode} {pos freeSlots nr : ℕ} {slots : List UInt8} {r : AddEntries}
    (hr : appendSlots env sb dir pos freeSlots nr slots s = some r) (h0 : r.err = 0) : ∃ sinfo, r.sinfo = some sinfo := by
  unfold appendSlots at hr
  cases hn : fatAddNewEntries env sb s dir.dirsync slots nr with
  | none =>
    rw [hn] at hr
    exact absurd hr (by simp)
  | some n =>
    rw [hn] at hr
    simp only at hr
    by_cases hret : n.ret < 0
    · rw [if_pos hret, Option.some.injEq] at hr
      rw [← hr] at h0
      exact absurd h0 hret.ne
    rw [if_neg hret] at hr
    by_cases hadd : (fatChainAdd env sb n.s dir n.ret n.nrCluster).ret ≠ 0
    · rw [if_pos hadd, Option.some.injEq] at hr
      rw [← hr] at h0
      exact absurd h0 hadd
    · rw [if_neg hadd, Option.some.injEq] at hr
      rw [← hr]
      exact ⟨_, rfl⟩

theorem addFound_sinfo {dir : DirInode} {slots : List UInt8} {nr : ℕ} {f : FreeSearch} {r : AddEntries}
    (hr : addFound env sb dir slots nr f = some r) (h0 : r.err = 0) : ∃ sinfo, r.sinfo = some sinfo := by
  unfold addFound at hr
  simp only at hr
  generalize (if f.freeSlots ≠ 0 then fillFree env sb dir.dirsync f.bhs (nr - f.freeSlots)
    ⟨(f.cur.pos - f.freeSlots * DENT_SIZE) % sb.blocksize, f.freeSlots * DENT_SIZE, slots, f.s⟩ else (0, _)) = w at hr
  by_cases hfail : w.1 ≠ 0
  · rw [if_pos hfail, Option.some.injEq] at hr
    rw [← hr] at h0
    exact absurd h0 hfail
  rw [if_neg hfail] at hr
  by_cases hleft : nr - f.freeSlots ≠ 0
  · rw [if_pos hleft] at hr
    exact appendSlots_sinfo hr h0
  · rw [if_neg hleft, Option.some.injEq] at hr
    rw [← hr]
    exact ⟨_, rfl⟩

/-- an entry that is added has its slot information -/
theorem msdosAddEntry_sinfo {dir : DirInode} {tz : TimeZone} {name : List UInt8} {isDir hid : Bool} {cluster : ℤ} {ts : Timespec}
    {r : AddEntries} (hr : msdosAddEntry env sb tz s dir name isDir hid cluster ts = some r) (h0 : r.err = 0) :
    ∃ sinfo, r.sinfo = some sinfo := by
  have hrefused : ∀ {err : ℤ} {f : FreeSearch} {q : AddEntries}, err ≠ 0 → some (addError dir err f) = some q → q.err = 0 →
      ∃ sinfo, q.sinfo = some sinfo := by
    intro err f q herr hq hq0
    rw [← Option.some.inj hq] at hq0
    exact absurd hq0 herr
  have hslots : ∀ {q : AddEntries}, fatAddEntries env sb s dir (newEntry tz name isDir hid cluster ts) 1 = some q → q.err = 0 →
      ∃ sinfo, q.sinfo = some sinfo := by
    intro q hq hq0
    unfold fatAddEntries at hq
    generalize searchFree env sb s dir.toInode 1 = w at hq
    obtain ⟨fin, f⟩ := w
    cases fin with
    | full => exact hrefused (by decide) hq hq0
    | found => exact addFound_sinfo hq hq0
    | ended =>
      simp only at hq
      split_ifs at hq
      · exact hrefused (by decide) hq hq0
      · exact addFound_sinfo hq hq0
  unfold msdosAddEntry at hr
  cases hadd : fatAddEntries env sb s dir (newEntry tz name isDir hid cluster ts) 1 with
  | none =>
    rw [hadd] at hr
    exact absurd hr (by simp)
  | some q =>
    rw [hadd] at hr
    simp only at hr
    by_cases hq : q.err ≠ 0
    · rw [if_pos hq, Option.some.injEq] at hr
      rw [← hr] at h0
      exact absurd h0 hq
    · rw [if_neg hq, Option.some.injEq] at hr
      obtain ⟨sinfo, hsinfo⟩ := hslots hadd (not_not.1 hq)
      rw [← hr]
      exact ⟨sinfo, hsinfo⟩

/-- an entry that could not be added -/
theorem msdosAddEntry_kept {dir : DirInode} {tz : TimeZone} {name : List UInt8} {isDir hid : Bool} {cluster : ℤ} {ts : Timespec}
    (hdir : DirOn sb vol dir.toInode l) (hpf : PrevFreeOk sb s) (hback : dir.dirsync = true → ReadBack env sb l)
    (h : StKept env sb l l vol s) {r : AddEntries} (hr : msdosAddEntry env sb tz s dir name isDir hid cluster ts = some r)
    (herr : r.err ≠ 0) : StKept env sb l l.dropLast vol r.s ∧ r.dir = dir := by
  unfold msdosAddEntry at hr
  cases hadd : fatAddEntries env sb s dir (newEntry tz name isDir hid cluster ts) 1 with
  | none =>
    rw [hadd] at hr
    exact absurd hr (by simp)
  | some q =>
    rw [hadd] at hr
    simp only at hr
    by_cases hq : q.err ≠ 0
    · rw [if_pos hq, Option.some.injEq] at hr
      rw [← hr]
      exact fatAddEntries_kept hdir hpf hback h hadd hq
    · rw [if_neg hq, Option.some.injEq] at hr
      rw [← hr] at herr
      exact absurd herr hq

theorem SlotInfo.brelse_looked (sinfo : SlotInfo) (s : St) : Looked s (sinfo.brelse s) := by
  unfold SlotInfo.brelse
  cases sinfo.bh with
  | none => exact Looked.refl s
  | some b => exact Fat.brelse_looked s b

/-- **`msdos_create` fails.** Whatever fails on the way, the super block is unlocked and no inode is attached; the directory is
as it was, unless the entry was added and its inode could not be made. -/
theorem msdosCreate_error (env : Env) (sb : FatSb) (mopts : MountOptions) (opts : InodeOptions) {c c' : Create} {name : List UInt8}
    {ts : Timespec} {mem : Bool} {err : ℤ} (hdir : DirOn sb c.s.vol c.dir.toInode l) (hpf : PrevFreeOk sb c.s)
    (hdev : WriteFails env sb l → ∀ b, Watched sb l b → c.s.disk b = c.s.vol b) (hback : c.dir.dirsync = true → ReadBack env sb l)
    (hr : msdosCreate env sb mopts opts c name ts mem = some (err, c')) (herr : err ≠ 0) :
    NoInode c c' ∧ (Undone sb l c c' ∨ EntryStays env sb mopts opts c name ts mem err c') := by
  unfold msdosCreate at hr
  simp only at hr
  cases hformat : msdosFormatName mopts name with
  | none =>
    rw [hformat, Option.some.injEq, Prod.mk.injEq] at hr
    rw [← hr.2]
    exact ⟨⟨rfl, rfl, rfl⟩, Or.inl ⟨rfl, LiveKept.refl hdir⟩⟩
  | some res =>
    rw [hformat] at hr
    simp only at hr
    have hscan := (fatScan_alike env (Alike.refl hdir.dirAt) res).looked
    have hlock : c.lockSuper.s = c.s ∧ c.lockSuper.dir = c.dir ∧ c.lockSuper.table = c.table := ⟨rfl, rfl, rfl⟩
    rw [hlock.1, hlock.2.1, hlock.2.2] at hr
    generalize fatScan env sb c.s c.dir.toInode res = q at hr hscan
    obtain ⟨found, sinfo, s1⟩ := q
    simp only at hr hscan
    by_cases hfound : found = 0
    · rw [if_pos hfound, Option.some.injEq, Prod.mk.injEq] at hr
      have hlook := hscan.trans (sinfo.brelse_looked s1)
      rw [← hr.2]
      refine ⟨⟨rfl, rfl, rfl⟩, Or.inl ⟨rfl, ?_⟩⟩
      change LiveKept sb c.dir.toInode l c.s.vol (sinfo.brelse s1).vol
      rw [hlook.vol]
      exact LiveKept.refl hdir
    rw [if_neg hfound] at hr
    cases hadd : msdosAddEntry env sb opts.tz s1 c.dir res false (isHid name res) FAT_ENT_FREE ts with
    | none =>
      rw [hadd] at hr
      exact absurd hr (by simp)
    | some r =>
      rw [hadd] at hr
      simp only at hr
      by_cases hadderr : r.err ≠ 0
      · rw [if_pos hadderr, Option.some.injEq, Prod.mk.injEq] at hr
        have hpf1 : PrevFreeOk sb s1 := by
          rw [hscan]
          exact hpf
        have hkept := msdosAddEntry_kept hdir hpf1 hback ((StKept.start hdev).of_looked hscan) hadd hadderr
        rw [← hr.2]
        refine ⟨⟨rfl, rfl, rfl⟩, Or.inl ⟨hkept.2, ?_⟩⟩
        exact (hkept.1.of_looked (sinfo.brelse_looked r.s)).liveKept hdir
      · rw [if_neg hadderr] at hr
        obtain ⟨added, hadded⟩ := msdosAddEntry_sinfo hadd (not_not.1 hadderr)
        rw [hadded, Option.getD_some] at hr
        cases hbuild : fatBuildInode env sb opts c.table r.s (added.ent r.s) added.iPos mem with
        | none =>
          rw [hbuild] at hr
          exact absurd hr (by simp)
        | some b =>
          rw [hbuild] at hr
          simp only at hr
          cases hino : b.inode with
          | some ino =>
            rw [hino, Option.some.injEq, Prod.mk.injEq] at hr
            exact absurd hr.1.symm herr
          | none =>
            rw [hino, Option.some.injEq, Prod.mk.injEq] at hr
            obtain ⟨htable, hlook⟩ := fatBuildInode_none hbuild hino
            rw [← hr.2]
            refine ⟨⟨rfl, htable, rfl⟩, Or.inr ?_⟩
            exact .intro hformat hscan hadd (not_not.1 hadderr) hadded hbuild hino hr.1 rfl
              (hlook.trans (SlotInfo.brelse_looked _ b.s))

end

/-! ## What is left on a small volume -/

/-- the 11 bytes of a name of one letter -/
def letterName (c : Char) : List UInt8 := ch c :: List.replicate 10 (ch ' ')

/-- the directory of `emptyDir`, with the entry of a file `B` in block `b` of the volume -/
def volWithB (b : ℕ) : Vol := Function.update emptyDir.s.vol b fun k => (letterName 'B').getD k 0

/-- a directory on the volume `vol`, and what the device has -/
def createIn (vol disk : Vol) (dirsync : Bool) : Create :=
  ⟨{ emptyDir.dir with dirsync := dirsync }, fun _ => none, none, false, none, { emptyDir.s with vol := vol, disk := disk }⟩

/-- the options of a volume that is mounted without any -/
def plainMount : MountOptions := ⟨ch 'n', false, false, 0⟩

/-- a file `A` is created there -/
def createA (env : Env) (c : Create) (mem : Bool) : Option (ℤ × Create) :=
  msdosCreate env tinySb plainMount plainOptions c [ch 'A'] ⟨0, 0⟩ mem

/-- how a scan for the name of one letter ends -/
def scanFor (c : Create) (vol : Vol) (x : Char) : ℤ :=
  (fatScan goodEnv tinySb { c.s with vol := vol } c.dir.toInode (letterName x)).1

/-- the block of the first slots of the directory cannot be written -/
def envUnwritable : Env := { goodEnv with sync := fun _ b => b != 4 }

/-- nor read from tick 4 on -/
def envUnreadable : Env := { envUnwritable with bread := fun t b => b != 4 || t < 4 }

/-- the call fails on a directory that is in order, and its live entries are not as before -/
def LiveChanged (env : Env) (c : Create) (mem : Bool) : Prop :=
  DirOn tinySb c.s.vol c.dir.toInode [3] ∧ PrevFreeOk tinySb c.s ∧
    ∃ err c', createA env c mem = some (err, c') ∧ err ≠ 0 ∧ ¬ LiveKept tinySb c.dir.toInode [3] c.s.vol c'.s.vol

/-- a scan that ends otherwise than before tells -/
theorem liveChanged_of_scan {env : Env} {vol disk : Vol} {dirsync mem : Bool} (x : Char) (err e : ℤ)
    (hlast : Path (table tinySb vol) 3 [3])
    (hr : (createA env (createIn vol disk dirsync) mem).map (fun r => (r.1, scanFor (createIn vol disk dirsync) r.2.s.vol x)) =
      some (err, e)) (herr : err ≠ 0) (hscan : scanFor (createIn vol disk dirsync) vol x ≠ e) :
    LiveChanged env (createIn vol disk dirsync) mem := by
  refine ⟨⟨Or.inr hlast, rfl, by decide⟩, ⟨le_rfl, show (2 : ℕ) ≤ tinySb.maxCluster by decide⟩, ?_⟩
  obtain ⟨⟨err', c'⟩, hcreate, heq⟩ := Option.map_eq_some_iff.1 hr
  obtain ⟨rfl, rfl⟩ := Prod.mk.inj heq
  refine ⟨err', c', hcreate, herr, fun h => hscan ?_⟩
  exact (h.scan goodEnv (createIn vol disk dirsync).s (letterName x)).err.symm

/-- **What is left.** Out of memory for the inode, the new entry is found. A write that fails drops an entry of the same block
that was not on the device yet, and undoing it without the block marks an entry of the next block. -/
theorem msdosCreate_not_undone : LiveChanged goodEnv (createIn emptyDir.s.vol emptyDir.s.vol false) false ∧
    LiveChanged envUnwritable (createIn (volWithB 4) emptyDir.s.vol true) true ∧
    LiveChanged envUnreadable (createIn (volWithB 5) (volWithB 5) true) true := by
  refine ⟨?_, ?_, ?_⟩
  · exact liveChanged_of_scan 'A' (- ENOMEM) 0 (.last (by decide +kernel)) (by decide +kernel) (by decide) (by decide +kernel)
  · exact liveChanged_of_scan 'B' (- EIO) (- ENOENT) (.last (by decide +kernel)) (by decide +kernel) (by decide)
      (by decide +kernel)
  · exact liveChanged_of_scan 'B' (- EIO) (- ENOENT) (.last (by decide +kernel)) (by decide +kernel) (by decide)
      (by decide +kernel)

/-- the write of the new entry fails on a device that has what the buffers have -/
theorem msdosCreate_error_eio : ∃ c', createA envUnwritable (createIn (volWithB 5) (volWithB 5) true) true = some ((- EIO : ℤ), c') ∧
    NoInode (createIn (volWithB 5) (volWithB 5) true) c' ∧ (Undone tinySb [3] (createIn (volWithB 5) (volWithB 5) true) c' ∨
      EntryStays envUnwritable tinySb plainMount plainOptions (createIn (volWithB 5) (volWithB 5) true) [ch 'A'] ⟨0, 0⟩ true
        (- EIO) c') := by
  have herr : (createA envUnwritable (createIn (volWithB 5) (volWithB 5) true) true).map Prod.fst = some (- EIO : ℤ) := by
    decide +kernel
  obtain ⟨⟨err, c'⟩, hcreate, heq⟩ := Option.map_eq_some_iff.1 herr
  obtain rfl : err = (- EIO : ℤ) := heq
  have hdir : DirOn tinySb (volWithB 5) emptyDir.dir.toInode [3] := ⟨Or.inr (.last (by decide +kernel)), rfl, by decide⟩
  refine ⟨c', hcreate, ?_⟩
  exact msdosCreate_error envUnwritable tinySb _ _ hdir ⟨le_rfl, show (2 : ℕ) ≤ tinySb.maxCluster by decide⟩ (fun _ _ _ => rfl)
    (fun _ _ _ _ _ _ _ => rfl) hcreate (by decide)

end AtsLdd.Fat
