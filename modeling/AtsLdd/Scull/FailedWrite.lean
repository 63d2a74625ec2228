/-
Writes of the bare scull device that fail.

`scull_write` leaves the size and the position alone when `scull_write_main` answers an error. The list may have grown by
then, an array or a quantum may have been attached, and `copy_from_user` puts the bytes that arrive, and zeros for the
rest, straight into the quantum. `scull_p_write` copies behind the end of its data in the same way, but the next write to the pipe covers them.

A run keeps the windows that its successful writes have filled since the last trim (`Tracked`).

- `keepsBytes_iff`: a failed write changes a byte of the device, below the size or beyond it, exactly when its copy stops
  and the bytes that it stores differ from those that are there;
- `failed_writes_invisible`: in every run without such a write, no failed write has a visible effect;
- `failed_writes_visible`: the bytes of a failed write below the size, and beyond it behind a later write.
-/
import AtsLdd.Scull.Preconditions

namespace AtsLdd.Scull

open AtsLdd.Machine AtsLdd.ByteMap AtsLdd.Run

/-! ## One write of the device -/

section
variable {mem : ℕ → Bool} {m n : ℕ} {dev : ScullDev}

/-- the ways a write of the device fails, with the bytes that it stores -/
inductive FailedBy (mem : ℕ → Bool) (dev : ScullDev) (p : ℕ) (buf : List UInt8) (copied : ℕ) : List UInt8 → Prop
  | nomem : ¬ CopyStops dev p buf mem copied → FailedBy mem dev p buf copied []
  | fault : CopyStops dev p buf mem copied →
      FailedBy mem dev p buf copied (copyFromUser buf (dev.writeLen p buf) copied)

/-- **A write that fails** leaves the size, the position and the geometry, and has stored nothing or a window of zeros behind
the bytes that arrived. -/
theorem scullWrite_fails (mem : ℕ → Bool) (h : DevInv m n dev) {p : ℕ} (hp : ((p / n / m : ℕ) : ℤ) < INT_MAX)
    {buf : List UInt8} (hbuf : buf.length ≤ MAX_RW_COUNT) {copied : ℕ} {ret fpos' : ℤ} {dev' : ScullDev}
    (hw : scullWrite mem dev m n buf p copied = .ok (ret, dev', fpos')) (hneg : ret < 0) :
    DevInv m n dev' ∧ dev'.size = dev.size ∧ fpos' = p ∧
      ∃ bs, FailedBy mem dev p buf copied bs ∧ dev'.byte = splice dev.byte p bs := by
  obtain ⟨ret1, dev1, fpos1, bs, hw1, hwrote, hdev, hbytes, hsize, -⟩ := scullWrite_spec mem h hp hbuf copied
  obtain ⟨rfl, rfl, rfl⟩ : ret = ret1 ∧ dev' = dev1 ∧ fpos' = fpos1 := by
    simpa only [Except.ok.injEq, Prod.mk.injEq] using hw.symm.trans hw1
  have hnomem := scullWrite_nomem_iff h hp hbuf hw
  rw [if_neg (not_le.2 hneg)] at hsize
  rw [← h.byte_eq, ← hdev.byte_eq] at hbytes
  refine ⟨hdev, hsize, ?_⟩
  cases hwrote with
  | nomem _ =>
    refine ⟨rfl, [], .nomem fun hstops => ?_, hbytes⟩
    obtain ⟨t, ht, hf⟩ := hnomem.1 rfl
    rw [(h.copyStops_iff.1 hstops).1 t ht] at hf
    cases hf
  | fault hc =>
    rw [← h.writeLen_eq] at hbytes
    exact ⟨rfl, _, .fault (scullWrite_copyStops h hp hbuf hw hc), hbytes⟩
  | done _ => exact absurd hneg (not_lt.2 (Int.natCast_nonneg _))

/-- a copy that stops makes the write fail -/
theorem scullWrite_stops (h : DevInv m n dev) {p : ℕ} (hp : ((p / n / m : ℕ) : ℤ) < INT_MAX) {buf : List UInt8}
    (hbuf : buf.length ≤ MAX_RW_COUNT) {copied : ℕ} {ret fpos' : ℤ} {dev' : ScullDev}
    (hw : scullWrite mem dev m n buf p copied = .ok (ret, dev', fpos')) (hstops : CopyStops dev p buf mem copied) :
    ret < 0 := by
  obtain ⟨ret1, dev1, fpos1, c, hw1, hwrote, -⟩ := scullWrite_spec mem h hp hbuf copied
  obtain ⟨rfl, rfl, rfl⟩ : ret = ret1 ∧ dev' = dev1 ∧ fpos' = fpos1 := by
    simpa only [Except.ok.injEq, Prod.mk.injEq] using hw.symm.trans hw1
  cases hwrote with
  | nomem _ => decide
  | fault _ => decide
  | done hc => exact absurd hc (not_le.2 (h.copyStops_iff.1 hstops).2)

/-- **The bytes of a failed write.** A write keeps every byte of the device if it fails, below the size and beyond it, if
and only if a copy that stops stores what is there already. -/
theorem keepsBytes_iff (h : DevInv m n dev) {p : ℕ} (hp : ((p / n / m : ℕ) : ℤ) < INT_MAX) {buf : List UInt8}
    (hbuf : buf.length ≤ MAX_RW_COUNT) {copied : ℕ} {ret fpos' : ℤ} {dev' : ScullDev}
    (hw : scullWrite mem dev m n buf p copied = .ok (ret, dev', fpos')) :
    (ret < 0 → dev'.byte = dev.byte) ↔ StoresSame dev p buf mem copied := by
  constructor
  · intro hkeep hstops
    have hneg := scullWrite_stops h hp hbuf hw hstops
    obtain ⟨-, -, -, bs, hfailed, hbytes⟩ := scullWrite_fails mem h hp hbuf hw hneg
    rw [hkeep hneg] at hbytes
    cases hfailed with
    | nomem hnot => exact absurd hstops hnot
    | fault _ =>
      rw [h.writeLen_eq, h.byte_eq] at hbytes
      exact h.storesSame_iff.2 hbytes.symm
  · intro hsame hneg
    obtain ⟨-, -, -, bs, hfailed, hbytes⟩ := scullWrite_fails mem h hp hbuf hw hneg
    rw [hbytes]
    cases hfailed with
    | nomem _ => exact splice_nil _ _
    | fault hstops =>
      rw [h.writeLen_eq, h.byte_eq]
      exact h.storesSame_iff.1 (hsame hstops)

end

/-! ## Runs -/

/-- a system, and the windows that the successful writes since the last trim have filled -/
structure Tracked where
  sys : Sys
  covered : List (ℕ × ℕ)

def Tracked.covers (t : Tracked) (p : ℕ) : Bool := t.covered.any fun w => w.1 ≤ p ∧ p < w.1 + w.2

def Tracked.step (t : Tracked) (op : Op) : Tracked where
  sys := next Scull.step t.sys op
  covered :=
    match op, (Scull.step t.sys op).2 with
    | .opens _ true, _ => []
    | .writes f _ _ _, .ret v _ => if v < 0 then t.covered else ((t.sys.fpos f).toNat, v.toNat) :: t.covered
    | _, _ => t.covered

def Tracked.init (par : Params) : Tracked := ⟨initSys par, []⟩

/-- what a write stores before its copy stops is there already -/
def ArrivesSame (s : Sys) : Op → Prop
  | .writes f buf mem copied => StoresSame s.dev (s.fpos f).toNat buf mem copied
  | _ => True

/-- a write that answers an error leaves the size, every position and the length of the list in order, and every read
what it was -/
def FailKeeps (s : Sys) : Op → Prop
  | .writes f buf mem copied =>
    let t := next step s (.writes f buf mem copied)
    ∀ v out, (step s (.writes f buf mem copied)).2 = .ret v out → v < 0 →
      t.dev.size = s.dev.size ∧ t.fpos = s.fpos ∧ t.dev.lnQlst = t.dev.data.length ∧
      ∀ p < 2 ^ 63, ∀ count ≤ MAX_RW_COUNT, ∀ k, scullRead t.dev t.dev.mQset t.dev.nQuantum count (p : ℕ) k =
        scullRead s.dev s.dev.mQset s.dev.nQuantum count (p : ℕ) k
  | _ => True

/-- a byte below the size that no successful write covered reads as 0 -/
def UncoveredZero (t : Tracked) : Prop := ∀ p < t.sys.dev.size, t.covers p = false →
  scullRead t.sys.dev t.sys.dev.mQset t.sys.dev.nQuantum 1 p 1 = .ok (1, [0], (p : ℤ) + 1)

/-- no failed write of the run has an effect on an answer, then or later -/
def NoVisibleEffect (par : Params) (ops : List Op) : Prop :=
  Meets Tracked.step (fun t => FailKeeps t.sys) (Tracked.init par) ops ∧
    ∀ past later, ops = past ++ later → UncoveredZero (run Tracked.step (Tracked.init par) past)

/-- the geometry is valid, and a byte outside the windows is 0, also beyond the size -/
structure TrackInv (t : Tracked) : Prop where
  geom : GeomInv t.sys
  zero : ∀ p, t.covers p = false → t.sys.dev.byte p = 0

section
variable {t : Tracked}

/-- a byte below the size is read as it is -/
theorem DevInv.read_one {m n : ℕ} {dev : ScullDev} (h : DevInv m n dev) {p : ℕ} (hp : p < dev.size) :
    scullRead dev m n 1 p 1 = .ok (1, [dev.byte p], (p : ℤ) + 1) := by
  have hlen : readLen n dev.size p 1 = 1 := by
    have hmod := Nat.mod_lt p h.n_pos
    unfold readLen
    omega
  rw [scullRead_spec h (hp.trans (h.size_lt.trans (by norm_num))) (show 1 ≤ MAX_RW_COUNT by decide) 1, if_neg (not_le.2 hp),
    hlen, if_pos le_rfl, h.byte_eq]
  rfl

theorem TrackInv.uncoveredZero (h : TrackInv t) : UncoveredZero t := by
  intro p hp hfree
  obtain ⟨m, n, hdev⟩ := h.geom.dev
  rw [hdev.qset, hdev.quantum, hdev.read_one hp, h.zero p hfree]

/-- two devices with one geometry, size and bytes answer every read in the same way -/
theorem scullRead_congr {m n : ℕ} {dev dev' : ScullDev} (h : DevInv m n dev) (h' : DevInv m n dev')
    (hsize : dev'.size = dev.size) (hbyte : dev'.byte = dev.byte) {p : ℕ} (hp : p < 2 ^ 63) {count : ℕ}
    (hcount : count ≤ MAX_RW_COUNT) (k : ℕ) : scullRead dev' m n count p k = scullRead dev m n count p k := by
  rw [scullRead_spec h hp hcount, scullRead_spec h' hp hcount, hsize, ← h.byte_eq, ← h'.byte_eq, hbyte]

/-- bytes outside a window and the windows before it -/
theorem covers_cons {s : Sys} {w : ℕ × ℕ} {p : ℕ} (h : (Tracked.mk s (w :: t.covered)).covers p = false) :
    ¬ (w.1 ≤ p ∧ p < w.1 + w.2) ∧ t.covers p = false := by
  unfold Tracked.covers at h ⊢
  rw [List.any_cons, Bool.or_eq_false_iff] at h
  exact ⟨of_decide_eq_false h.1, h.2⟩

/-- **One write.** If what it stores before its copy stops is there already, a write that fails leaves everything
as it was, and one that succeeds changes only bytes in its window. -/
theorem track_writes (h : TrackInv t) (f : ℕ) {buf : List UInt8} (mem : ℕ → Bool) (copied : ℕ)
    (hfits : Fits t.sys (.writes f buf mem copied)) (hsame : ArrivesSame t.sys (.writes f buf mem copied)) :
    (∀ p, (t.step (.writes f buf mem copied)).covers p = false →
      (t.step (.writes f buf mem copied)).sys.dev.byte p = 0) ∧ FailKeeps t.sys (.writes f buf mem copied) := by
  obtain ⟨hbuf, hidx⟩ := hfits
  obtain ⟨m, n, hdev⟩ := h.geom.dev
  obtain ⟨p, hp, hpmax⟩ := h.geom.fpos f
  rw [hp, hdev.qset, hdev.quantum, tdiv_index] at hidx
  obtain ⟨ret, dev', fpos', bs, hw, hwrote, hdev', hbytes, -, -⟩ := scullWrite_spec mem hdev hidx hbuf copied
  have hstep : step t.sys (.writes f buf mem copied) =
      ({ t.sys with dev := dev', fpos := Function.update t.sys.fpos f fpos' }, .ret ret []) := by
    simp only [step, hdev.qset, hdev.quantum, hp, hw]
  have hkeep := (keepsBytes_iff hdev hidx hbuf hw).2
  change StoresSame t.sys.dev (t.sys.fpos f).toNat buf mem copied at hsame
  rw [hp, Int.toNat_natCast] at hsame
  constructor
  · intro q hq
    unfold Tracked.step at hq ⊢
    simp only [next, hstep, hp, Int.toNat_natCast] at hq ⊢
    by_cases hneg : ret < 0
    · rw [if_pos hneg] at hq
      rw [hkeep hsame hneg]
      exact h.zero q hq
    · rw [if_neg hneg] at hq
      obtain ⟨hout, hfree⟩ := covers_cons hq
      rw [hdev'.byte_eq, hbytes, splice_of_not_mem, ← hdev.byte_eq]
      · exact h.zero q hfree
      · cases hwrote with
        | nomem _ => exact absurd (show - ENOMEM < 0 by decide) hneg
        | fault _ => exact absurd (show - EFAULT < 0 by decide) hneg
        | done _ =>
          rw [Int.toNat_natCast] at hout
          rw [List.length_take]
          intro hin
          exact hout ⟨hin.1, by omega⟩
  · simp only [FailKeeps, next, hstep, Res.ret.injEq]
    rintro v out ⟨rfl, -⟩ hneg
    obtain ⟨-, hsize, hpos, -⟩ := scullWrite_fails mem hdev hidx hbuf hw hneg
    rw [hpos, ← hp]
    refine ⟨hsize, Function.update_eq_self f t.sys.fpos, hdev'.ln, fun q hq count hcount k => ?_⟩
    simp only [hdev.qset, hdev.quantum, hdev'.qset, hdev'.quantum]
    exact scullRead_congr hdev hdev' hsize (hkeep hsame hneg) hq hcount k

/-- a device without a list has only holes -/
theorem byte_of_nil {dev : ScullDev} (hdata : dev.data = []) (p : ℕ) : dev.byte p = 0 := by
  unfold ScullDev.byte byteAt
  rw [hdata, lstByte_nil]

/-- **One step** keeps the invariant, and no failed write is seen. -/
theorem track_step (h : TrackInv t) {op : Op} (hfits : Fits t.sys op) (hsame : ArrivesSame t.sys op) :
    TrackInv (t.step op) ∧ FailKeeps t.sys op := by
  have hgeom : GeomInv (t.step op).sys := (calls_step h.geom hfits).1
  cases op with
  | writes f buf mem copied =>
    obtain ⟨hzero, hkeeps⟩ := track_writes h f mem copied hfits hsame
    exact ⟨⟨hgeom, hzero⟩, hkeeps⟩
  | opens f wronly =>
    refine ⟨⟨hgeom, fun p hp => ?_⟩, trivial⟩
    cases wronly with
    | true => exact byte_of_nil rfl p
    | false => exact h.zero p hp
  | reads f count copied =>
    refine ⟨⟨hgeom, fun p hp => ?_⟩, trivial⟩
    have hdev : (t.step (.reads f count copied)).sys.dev = t.sys.dev := by
      simp only [Tracked.step, next, step]
      split <;> rfl
    rw [hdev]
    exact h.zero p hp
  | llseek f off whence =>
    refine ⟨⟨hgeom, fun p hp => ?_⟩, trivial⟩
    have hdev : (t.step (.llseek f off whence)).sys.dev = t.sys.dev := by
      simp only [Tracked.step, next, step]
      split <;> rfl
    rw [hdev]
    exact h.zero p hp
  | ioctl env cmd arg => exact ⟨⟨hgeom, h.zero⟩, trivial⟩

end

/-- **Failed writes.** In every run with valid geometries and writes at an index below `INT_MAX`, and in which
what a write stores before its copy stops is always there already, no failed write has a visible effect. -/
theorem failed_writes_invisible {par : Params} (hpar : Valid par) {ops : List Op}
    (h : Meets Tracked.step (fun t op => Fits t.sys op ∧ ArrivesSame t.sys op) (Tracked.init par) ops) :
    NoVisibleEffect par ops := by
  have hinit : TrackInv (Tracked.init par) := ⟨geomInv_init hpar, fun p _ => byte_of_nil rfl p⟩
  have hstep : ∀ t op, TrackInv t → (Fits t.sys op ∧ ArrivesSame t.sys op) → TrackInv (t.step op) :=
    fun t op ht hop => (track_step ht hop.1 hop.2).1
  refine ⟨meets_of_inv hstep (fun t op ht hop => (track_step ht hop.1 hop.2).2) hinit h, ?_⟩
  rintro past later rfl
  exact (run_inv hstep hinit (meets_append.1 h).1).uncoveredZero

/-- with three bytes stored, a copy that stops after a first byte that is there already and zeroes a second one that is 0, a
write that is out of memory, and one beyond the size -/
theorem failed_writes_invisible_three : NoVisibleEffect ⟨4, 1, 0⟩
    [.writes 0 [1, 0, 3] (fun _ => true) 3, .llseek 0 0 0, .writes 0 [1, 9] (fun _ => true) 1, .llseek 0 9 0,
      .writes 0 [9] (fun _ => false) 1, .writes 0 [7] (fun _ => true) 1] := by
  refine failed_writes_invisible (by decide) ⟨⟨⟨by decide, by decide⟩, fun h => absurd h.2 (by decide)⟩,
    ⟨⟨by norm_num, by norm_num⟩, trivial⟩, ⟨⟨by decide, by decide⟩, fun _ => by decide⟩,
    ⟨⟨by norm_num, by norm_num⟩, trivial⟩, ⟨⟨by decide, by decide⟩, fun h => absurd h.2 (by decide)⟩,
    ⟨⟨by decide, by decide⟩, fun h => absurd h.2 (by decide)⟩, trivial⟩

/-- **Failed writes that are seen**: one that changes a byte below the size, and one beyond the size, whose bytes come up
behind a later write. -/
theorem failed_writes_visible :
    ¬ NoVisibleEffect ⟨4, 1, 0⟩
        [.writes 0 [1, 2, 3] (fun _ => true) 3, .llseek 0 0 0, .writes 0 [9, 9] (fun _ => true) 1] ∧
      ¬ NoVisibleEffect ⟨4, 1, 0⟩
        [.writes 0 [9, 9] (fun _ => true) 1, .llseek 0 3 0, .writes 0 [7] (fun _ => true) 1] := by
  constructor
  · rintro ⟨⟨-, -, hkeeps, -⟩, -⟩
    obtain ⟨-, -, -, hread⟩ := hkeeps (- EFAULT) [] (by decide) (by decide)
    exact absurd (hread 0 (by norm_num) 1 (by decide) 1) (by decide)
  · rintro ⟨-, hzero⟩
    have h := hzero _ [] (List.append_nil _).symm
    exact absurd (h 0 (by decide) (by decide)) (by decide)

end AtsLdd.Scull
