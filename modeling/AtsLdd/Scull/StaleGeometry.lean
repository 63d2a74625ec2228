/-
Processes on one bare scull device, and the geometry that `scull_read` and `scull_write` use.

Both functions read `m_qset` and `n_quantum` into locals before they wait for the semaphore. A write-only open trims under
the semaphore, and thereby replaces both fields. A process is at one of the points `Pc` of its system call, and a
schedule lets any process go on to its next point, be interrupted while it waits, start a call, or issue an ioctl.

- `no_stale_geometry`: in every schedule in which a trim changes a field only while no process has read it and waits
  (`Undisturbed`), each body that runs uses the fields of the device, and stays inside the list, array and quantum when
  the geometries installed are valid;
- `stale_geometry`: a trim to a smaller quantum between the field reads and the semaphore makes a read go past the quantum.
-/
import AtsLdd.Scull.Preconditions

namespace AtsLdd.Scull

open AtsLdd.Machine AtsLdd.Run

/-! ## Processes -/

/-- a call of `scull_read` or `scull_write`, with the local position of the system call -/
inductive Req where
  | reads (pos : ℤ) (count copied : ℕ)
  | writes (pos : ℤ) (buf : List UInt8) (mem : ℕ → Bool) (copied : ℕ)

/-- the point that a process has reached -/
inductive Pc where
  | idle
  /-- `m` is read -/
  | gotM (r : Req) (m : ℤ)
  /-- `m` and `n` are read; in `down_interruptible` -/
  | wants (r : Req) (m n : ℤ)
  /-- the semaphore is held; before the body -/
  | holds (r : Req) (m n : ℤ)
  /-- a write-only open in `down_interruptible` -/
  | openWants
  /-- a write-only open that holds the semaphore -/
  | openHolds
  /-- `scull_qset` is read -/
  | trimGotQset (m : ℤ)
  /-- in `scull_trim_main`, before its stores -/
  | trimMain (m n : ℤ)
  /-- in `scull_trim_main`, after its store to `m_qset` -/
  | trimRest (n : ℤ)
  /-- stopped by a fault in the body; the semaphore stays taken -/
  | dead

structure Shared where
  par : Params
  dev : ScullDev
  /-- the process that holds `dev->sem` -/
  sem : Option ℕ
  pc : ℕ → Pc

def Shared.setPc (s : Shared) (p : ℕ) (c : Pc) : Shared := { s with pc := Function.update s.pc p c }

/-- process `p` takes the semaphore when it is free -/
def Shared.down (s : Shared) (p : ℕ) (c : Pc) : Shared :=
  if s.sem = none then { s.setPc p c with sem := some p } else s

/-- the body of a read or a write with the locals `m` and `n`, up to the release of the semaphore -/
def Shared.body (s : Shared) (p : ℕ) (m n : ℤ) : Req → Shared
  | .reads pos count copied =>
    match scullRead s.dev m n count pos copied with
    | .error _ => s.setPc p .dead
    | .ok _ => { s.setPc p .idle with sem := none }
  | .writes pos buf mem copied =>
    match scullWrite mem s.dev m n buf pos copied with
    | .error _ => s.setPc p .dead
    | .ok (_, dev, _) => { s.setPc p .idle with dev := dev, sem := none }

/-- process `p` goes on to its next point, if it can -/
def Shared.goOn (s : Shared) (p : ℕ) : Shared :=
  match s.pc p with
  | .idle => s
  | .gotM r m => s.setPc p (.wants r m s.dev.nQuantum)
  | .wants r m n => s.down p (.holds r m n)
  | .holds r m n => s.body p m n r
  | .openWants => s.down p .openHolds
  | .openHolds => s.setPc p (.trimGotQset s.par.scullQset)
  | .trimGotQset m => s.setPc p (.trimMain m s.par.scullQuantum)
  | .trimMain m n => { s.setPc p (.trimRest n) with dev := { s.dev with mQset := m } }
  | .trimRest n => { s.setPc p .idle with dev := scullTrimMain s.dev s.dev.mQset n, sem := none }
  | .dead => s

inductive Act where
  | ioctl (env : IoctlEnv) (cmd arg : ℕ)
  | call (p : ℕ) (r : Req)
  | openWronly (p : ℕ)
  | goOn (p : ℕ)
  | interrupt (p : ℕ)

/-- one step of a schedule; a process that cannot take it stays where it is -/
def Shared.step (s : Shared) : Act → Shared
  | .ioctl env cmd arg => { s with par := (scullIoctl s.par env cmd arg).par }
  | .call p r =>
    match s.pc p with
    | .idle => s.setPc p (.gotM r s.dev.mQset)
    | _ => s
  | .openWronly p =>
    match s.pc p with
    | .idle => s.setPc p .openWants
    | _ => s
  | .goOn p => s.goOn p
  | .interrupt p =>
    match s.pc p with
    | .wants _ _ _ => s.setPc p .idle
    | .openWants => s.setPc p .idle
    | _ => s

/-- a fresh device and no process in a call -/
def Shared.init (par : Params) : Shared := ⟨par, ⟨par.scullQset, par.scullQuantum, [], 0, 0⟩, none, fun _ => .idle⟩

/-! ## A step moves one process -/

/-- the process that an act is about -/
def Act.proc : Act → Option ℕ
  | .ioctl _ _ _ => none
  | .call p _ => some p
  | .openWronly p => some p
  | .goOn p => some p
  | .interrupt p => some p

theorem goOn_pc_ne (s : Shared) {p q : ℕ} (h : q ≠ p) : (s.goOn p).pc q = s.pc q := by
  have hset : ∀ c, Function.update s.pc p c q = s.pc q := fun c => Function.update_of_ne h c s.pc
  unfold Shared.goOn
  cases s.pc p with
  | idle => rfl
  | dead => rfl
  | wants r m n => simp only [Shared.down]; split_ifs <;> first | exact hset _ | rfl
  | openWants => simp only [Shared.down]; split_ifs <;> first | exact hset _ | rfl
  | holds r m n => cases r <;> simp only [Shared.body] <;> split <;> exact hset _
  | _ => exact hset _

/-- the other processes stay where they are -/
theorem step_pc_ne (s : Shared) {a : Act} {q : ℕ} (h : a.proc ≠ some q) : (s.step a).pc q = s.pc q := by
  cases a with
  | ioctl env cmd arg => rfl
  | goOn p => exact goOn_pc_ne s (fun he => h (congrArg some he.symm))
  | _ p =>
    have hset : ∀ c, Function.update s.pc _ c q = s.pc q :=
      fun c => Function.update_of_ne (fun he => h (congrArg some he.symm)) c s.pc
    simp only [Shared.step]
    split <;> first | exact hset _ | rfl

theorem run_pc_ne (s : Shared) {acts : List Act} {q : ℕ} (h : ∀ a ∈ acts, a.proc ≠ some q) :
    (run Shared.step s acts).pc q = s.pc q := by
  induction acts generalizing s with
  | nil => rfl
  | cons a acts ih =>
    rw [run_cons, ih _ (fun b hb => h b (List.mem_cons_of_mem _ hb)), step_pc_ne s (h a List.mem_cons_self)]

/-! ## Conditions and properties of a step -/

/-- whether the process has read `m_qset` for a body that is still to run -/
def Pc.readM : Pc → Prop
  | .gotM _ _ => True
  | .wants _ _ _ => True
  | .holds _ _ _ => True
  | _ => False

/-- whether the process has read `n_quantum` for a body that is still to run -/
def Pc.readN : Pc → Prop
  | .wants _ _ _ => True
  | .holds _ _ _ => True
  | _ => False

/-- a store of a trim changes a field only while no process has read it for a body that is still to run -/
def Undisturbed (s : Shared) : Act → Prop
  | .goOn p =>
    match s.pc p with
    | .trimMain m _ => m ≠ s.dev.mQset → ∀ q, ¬ (s.pc q).readM
    | .trimRest n => n ≠ s.dev.nQuantum → ∀ q, ¬ (s.pc q).readN
    | _ => True
  | _ => True

/-- the body that runs in this step, if one does, uses the geometry of the device -/
def Fresh (s : Shared) : Act → Prop
  | .goOn p =>
    match s.pc p with
    | .holds _ m n => m = s.dev.mQset ∧ n = s.dev.nQuantum
    | _ => True
  | _ => True

/-- a trim installs a valid geometry, and a body runs at a `loff_t` position, with a count of the VFS, and a write at an
index below `INT_MAX` -/
def InRange (s : Shared) : Act → Prop
  | .goOn p =>
    match s.pc p with
    | .trimRest n => 0 < s.dev.mQset ∧ 0 < n ∧ s.dev.mQset * n ≤ INT_MAX
    | .holds (.reads pos count _) _ _ => 0 ≤ pos ∧ pos < 2 ^ 63 ∧ count ≤ MAX_RW_COUNT
    | .holds (.writes pos buf _ _) m n =>
      0 ≤ pos ∧ pos < 2 ^ 63 ∧ buf.length ≤ MAX_RW_COUNT ∧ pos.tdiv (m * n) < INT_MAX
    | _ => True
  | _ => True

/-- the body that runs in this step, if one does, calls inside the list, and ends without a fault -/
def Inside (s : Shared) : Act → Prop
  | .goOn p =>
    match s.pc p with
    | .holds (.reads pos count copied) m n =>
      (∃ r, scullReadArgs s.dev m n count pos = .ok r ∧ ∀ a, r = some a → CallOk pos a ∧ a.ln < s.dev.lnQlst) ∧
        ∃ v, scullRead s.dev m n count pos copied = .ok v
    | .holds (.writes pos buf mem copied) m n =>
      (∃ a, scullWriteArgs m n buf.length pos = .ok a ∧ CallOk pos a) ∧
        ∃ v, scullWrite mem s.dev m n buf pos copied = .ok v
    | _ => True
  | _ => True

/-! ## Locals agree with the fields -/

/-- the points at which a process holds the semaphore -/
def Pc.owns : Pc → Prop
  | .holds _ _ _ => True
  | .openHolds => True
  | .trimGotQset _ => True
  | .trimMain _ _ => True
  | .trimRest _ => True
  | .dead => True
  | _ => False

/-- the locals of the process agree with the fields they were read from -/
def Pc.agrees (dev : ScullDev) : Pc → Prop
  | .gotM _ m => m = dev.mQset
  | .wants _ m n => m = dev.mQset ∧ n = dev.nQuantum
  | .holds _ m n => m = dev.mQset ∧ n = dev.nQuantum
  | _ => True

structure SemInv (s : Shared) : Prop where
  owner : ∀ p, (s.pc p).owns → s.sem = some p
  agrees : ∀ p, (s.pc p).agrees s.dev

@[simp] theorem setPc_pc_self (s : Shared) (p : ℕ) (c : Pc) : (s.setPc p c).pc p = c := by simp [Shared.setPc]

theorem setPc_pc_ne (s : Shared) {p q : ℕ} (h : q ≠ p) (c : Pc) : (s.setPc p c).pc q = s.pc q := by
  simp [Shared.setPc, Function.update_of_ne h]

/-- only one process owns the semaphore -/
theorem SemInv.owner_unique {s : Shared} (h : SemInv s) {p q : ℕ} (hp : (s.pc p).owns) (hq : (s.pc q).owns) : q = p := by
  have h1 := h.owner p hp
  have h2 := h.owner q hq
  rw [h1] at h2
  exact (Option.some.inj h2).symm

/-- process `p` moves, and the device and the semaphore change with it -/
theorem SemInv.move {s : Shared} (h : SemInv s) (p : ℕ) {c : Pc} {dev : ScullDev} {sem : Option ℕ}
    (howner : c.owns → sem = some p) (hothers : ∀ q, q ≠ p → (s.pc q).owns → sem = some q) (hc : c.agrees dev)
    (hdev : ∀ q, q ≠ p → (s.pc q).agrees s.dev → (s.pc q).agrees dev) :
    SemInv { s.setPc p c with dev := dev, sem := sem } := by
  refine ⟨fun q hq => ?_, fun q => ?_⟩
  · change ((s.setPc p c).pc q).owns at hq
    by_cases hqp : q = p
    · subst hqp
      rw [setPc_pc_self] at hq
      exact howner hq
    · rw [setPc_pc_ne s hqp] at hq
      exact hothers q hqp hq
  · change ((s.setPc p c).pc q).agrees dev
    by_cases hqp : q = p
    · subst hqp
      rw [setPc_pc_self]
      exact hc
    · rw [setPc_pc_ne s hqp]
      exact hdev q hqp (h.agrees q)

theorem SemInv.setPc {s : Shared} (h : SemInv s) (p : ℕ) {c : Pc} (howner : c.owns → s.sem = some p)
    (hc : c.agrees s.dev) : SemInv (s.setPc p c) :=
  h.move p howner (fun q _ hq => h.owner q hq) hc (fun _ _ hq => hq)

/-- the semaphore is taken only while nobody owns it -/
theorem SemInv.down {s : Shared} (h : SemInv s) (p : ℕ) {c : Pc} (hc : c.agrees s.dev) : SemInv (s.down p c) := by
  unfold Shared.down
  split_ifs with hfree
  · refine h.move p (fun _ => rfl) (fun q _ hq => ?_) hc (fun _ _ hq => hq)
    have := h.owner q hq
    rw [hfree] at this
    exact absurd this (by simp)
  · exact h

/-- the owner releases the semaphore -/
theorem SemInv.up {s : Shared} (h : SemInv s) {p : ℕ} (hp : (s.pc p).owns) {dev : ScullDev}
    (hdev : ∀ q, q ≠ p → (s.pc q).agrees s.dev → (s.pc q).agrees dev) :
    SemInv { s.setPc p .idle with dev := dev, sem := none } :=
  h.move p (fun hidle => hidle.elim) (fun _ hqp hq => absurd (h.owner_unique hp hq) hqp) trivial hdev

/-- a write leaves the geometry -/
theorem scullWrite_geometry {mem : ℕ → Bool} {dev dev' : ScullDev} {m n : ℤ} {buf : List UInt8} {fpos fpos' ret : ℤ}
    {copied : ℕ} (h : scullWrite mem dev m n buf fpos copied = .ok (ret, dev', fpos')) :
    dev'.mQset = dev.mQset ∧ dev'.nQuantum = dev.nQuantum := by
  unfold scullWrite at h
  simp only [bind, Except.bind] at h
  split at h
  · exact absurd h (by simp)
  · split at h
    · exact absurd h (by simp)
    · split_ifs at h with hsize
      all_goals
        simp only [Except.ok.injEq, Prod.mk.injEq] at h
        rw [← h.2.1]
        exact ⟨rfl, rfl⟩

theorem agrees_of_geometry {dev dev' : ScullDev} (hm : dev'.mQset = dev.mQset) (hn : dev'.nQuantum = dev.nQuantum)
    {c : Pc} (h : c.agrees dev) : c.agrees dev' := by
  cases c <;> simp only [Pc.agrees] at h ⊢ <;> rw [hm] <;> first | exact h | rw [hn]; exact h

theorem semInv_body {s : Shared} (h : SemInv s) {p : ℕ} (hp : (s.pc p).owns) (m n : ℤ) (r : Req) :
    SemInv (s.body p m n r) := by
  have hdead : SemInv (s.setPc p .dead) := h.setPc p (fun _ => h.owner p hp) trivial
  cases r with
  | reads pos count copied =>
    simp only [Shared.body]
    split
    · exact hdead
    · exact h.up hp (fun _ _ hq => hq)
  | writes pos buf mem copied =>
    simp only [Shared.body]
    split
    · exact hdead
    · rename_i ret dev' fpos' hw
      obtain ⟨hm, hn⟩ := scullWrite_geometry hw
      exact h.up hp (fun _ _ hq => agrees_of_geometry hm hn hq)

theorem semInv_goOn {s : Shared} (h : SemInv s) {p : ℕ} (hop : Undisturbed s (.goOn p)) : SemInv (s.goOn p) := by
  have howner := h.owner p
  have hagrees := h.agrees p
  simp only [Undisturbed] at hop
  unfold Shared.goOn
  cases hpc : s.pc p with
  | idle => exact h
  | gotM r m =>
    rw [hpc] at hagrees
    exact h.setPc p (fun hidle => hidle.elim) ⟨hagrees, rfl⟩
  | wants r m n =>
    rw [hpc] at hagrees
    exact h.down p hagrees
  | holds r m n => exact semInv_body h (by rw [hpc]; trivial) m n r
  | openWants => exact h.down p trivial
  | openHolds =>
    rw [hpc] at howner
    exact h.setPc p (fun _ => howner trivial) trivial
  | trimGotQset m =>
    rw [hpc] at howner
    exact h.setPc p (fun _ => howner trivial) trivial
  | trimMain m n =>
    rw [hpc] at howner hop
    refine h.move p (fun _ => howner trivial) (fun q _ hq => h.owner q hq) trivial (fun q _ hq => ?_)
    -- nobody that has read `m_qset` sees the store
    by_cases hm : m = s.dev.mQset
    · have hm' : ({ s.dev with mQset := m } : ScullDev).mQset = s.dev.mQset := hm
      exact agrees_of_geometry hm' rfl hq
    · have hno := hop hm q
      cases hq' : s.pc q <;> rw [hq'] at hno <;> first | exact absurd trivial hno | trivial
  | trimRest n =>
    rw [hpc] at hop
    refine h.up (by rw [hpc]; trivial) (fun q _ hq => ?_)
    by_cases hn : n = s.dev.nQuantum
    · have hn' : (scullTrimMain s.dev s.dev.mQset n).nQuantum = s.dev.nQuantum := hn
      have hm' : (scullTrimMain s.dev s.dev.mQset n).mQset = s.dev.mQset := rfl
      exact agrees_of_geometry hm' hn' hq
    · have hno := hop hn q
      cases hq' : s.pc q <;> rw [hq'] at hno hq <;> first | exact absurd trivial hno | exact hq
  | dead => exact h

theorem semInv_step {s : Shared} {a : Act} (h : SemInv s) (hop : Undisturbed s a) : SemInv (s.step a) := by
  cases a with
  | ioctl env cmd arg => exact ⟨h.owner, h.agrees⟩
  | call p r =>
    simp only [Shared.step]
    split
    · exact h.setPc p (fun hidle => hidle.elim) rfl
    · exact h
  | openWronly p =>
    simp only [Shared.step]
    split
    · exact h.setPc p (fun hidle => hidle.elim) trivial
    · exact h
  | goOn p => exact semInv_goOn h hop
  | interrupt p =>
    simp only [Shared.step]
    split
    · exact h.setPc p (fun hidle => hidle.elim) trivial
    · exact h.setPc p (fun hidle => hidle.elim) trivial
    · exact h

theorem fresh_of_semInv {s : Shared} {a : Act} (h : SemInv s) : Fresh s a := by
  cases a with
  | goOn p =>
    have hagrees := h.agrees p
    simp only [Fresh]
    cases hpc : s.pc p with
    | holds r m n => rw [hpc] at hagrees; exact hagrees
    | _ => trivial
  | _ => trivial

/-! ## The list is built with the fields -/

/-- outside the stores of a trim the list is built with the fields of the device -/
def ListInv (s : Shared) : Prop := (∃ p n, s.pc p = .trimRest n) ∨ ∃ m n, DevInv m n s.dev

theorem listInv_setPc {s : Shared} (h : ListInv s) {p : ℕ} {c : Pc} (hp : ∀ n, s.pc p ≠ .trimRest n) :
    ListInv (s.setPc p c) := by
  rcases h with ⟨q, n, hq⟩ | hdev
  · left
    have hqp : q ≠ p := by
      rintro rfl
      exact hp n hq
    exact ⟨q, n, by rw [setPc_pc_ne s hqp]; exact hq⟩
  · exact Or.inr hdev

/-- the owner leaves a point at which the list is built with the fields, and the list stays so -/
theorem listInv_release {s : Shared} {p m n : ℕ} {dev : ScullDev} {sem : Option ℕ} {c : Pc} (hdev : DevInv m n dev) :
    ListInv { s.setPc p c with dev := dev, sem := sem } :=
  Or.inr ⟨m, n, hdev⟩

/-- while a body or the start of a trim runs, the list is built with the fields -/
theorem devInv_of_owner {s : Shared} (hsem : SemInv s) (h : ListInv s) {p : ℕ} (hp : (s.pc p).owns)
    (hne : ∀ n, s.pc p ≠ .trimRest n) : ∃ m n, DevInv m n s.dev := by
  rcases h with ⟨q, n, hq⟩ | hdev
  · have hqp := hsem.owner_unique hp (show (s.pc q).owns by rw [hq]; trivial)
    subst hqp
    exact absurd hq (hne n)
  · exact hdev

theorem body_reads {s : Shared} {p : ℕ} {m n pos : ℤ} {count copied : ℕ} {v : ℤ × List UInt8 × ℤ}
    (h : scullRead s.dev m n count pos copied = .ok v) :
    s.body p m n (.reads pos count copied) = { s.setPc p .idle with sem := none } := by
  simp only [Shared.body, h]

theorem body_writes {s : Shared} {p : ℕ} {m n pos : ℤ} {buf : List UInt8} {mem : ℕ → Bool} {copied : ℕ} {ret fpos : ℤ}
    {dev : ScullDev} (h : scullWrite mem s.dev m n buf pos copied = .ok (ret, dev, fpos)) :
    s.body p m n (.writes pos buf mem copied) = { s.setPc p .idle with dev := dev, sem := none } := by
  simp only [Shared.body, h]

/-- a body that runs with the fields of the device keeps the list built, and stays inside it -/
theorem listInv_body {s : Shared} {p : ℕ} {m n : ℤ} {r : Req} (hpc : s.pc p = .holds r m n)
    (hdev : ∃ m n, DevInv m n s.dev) (hm : m = s.dev.mQset) (hn : n = s.dev.nQuantum) (hop : InRange s (.goOn p)) :
    ListInv (s.body p m n r) ∧ Inside s (.goOn p) := by
  obtain ⟨m', n', hdev⟩ := hdev
  rw [hdev.qset] at hm
  rw [hdev.quantum] at hn
  subst hm hn
  simp only [InRange, hpc] at hop
  simp only [Inside, hpc]
  cases r with
  | reads pos count copied =>
    obtain ⟨hpos, hmax, hcount⟩ := hop
    obtain ⟨q, rfl⟩ := Int.eq_ofNat_of_zero_le hpos
    have hq : q < 2 ^ 63 := by exact_mod_cast hmax
    have hargs := readArgs_ok hdev hq hcount
    have hread := scullRead_spec hdev hq hcount copied
    have hok : ∃ v, scullRead s.dev m' n' count q copied = .ok v := by
      rw [hread]
      split_ifs <;> exact ⟨_, rfl⟩
    obtain ⟨v, hv⟩ := hok
    rw [body_reads hv]
    exact ⟨listInv_release hdev, hargs, v, hv⟩
  | writes pos buf mem copied =>
    obtain ⟨hpos, hmax, hbuf, hidx⟩ := hop
    obtain ⟨q, rfl⟩ := Int.eq_ofNat_of_zero_le hpos
    rw [tdiv_index] at hidx
    have hargs := writeArgs_ok hdev hidx hbuf
    obtain ⟨ret, dev', fpos', c, hw, -, hdev', -, -, -⟩ := scullWrite_spec mem hdev hidx hbuf copied
    rw [body_writes hw]
    exact ⟨listInv_release hdev', hargs, _, hw⟩

theorem listInv_goOn {s : Shared} (hsem : SemInv s) (h : ListInv s) {p : ℕ} (hop : InRange s (.goOn p)) :
    ListInv (s.goOn p) ∧ Inside s (.goOn p) := by
  have hmove : ∀ c, (∀ n, s.pc p ≠ .trimRest n) → ListInv (s.setPc p c) := fun c hne => listInv_setPc h hne
  have hdown : ∀ c, (∀ n, s.pc p ≠ .trimRest n) → ListInv (s.down p c) := by
    intro c hne
    unfold Shared.down
    split_ifs with hfree
    · exact hmove c hne
    · exact h
  have hagrees := hsem.agrees p
  cases hpc : s.pc p with
  | holds r m n =>
    rw [hpc] at hagrees
    have hdev := devInv_of_owner hsem h (p := p) (by rw [hpc]; trivial) (by rw [hpc]; simp)
    have hbody := listInv_body hpc hdev hagrees.1 hagrees.2 hop
    refine ⟨?_, hbody.2⟩
    unfold Shared.goOn
    rw [hpc]
    exact hbody.1
  | trimMain m n =>
    refine ⟨Or.inl ⟨p, n, ?_⟩, by simp only [Inside, hpc]⟩
    unfold Shared.goOn
    rw [hpc]
    exact setPc_pc_self s p _
  | trimRest n =>
    refine ⟨?_, by simp only [Inside, hpc]⟩
    simp only [InRange, hpc] at hop
    have hvalid : Valid ⟨n, s.dev.mQset, 0⟩ := hop
    obtain ⟨m', n', hdev⟩ := geom_trim hvalid s.dev
    unfold Shared.goOn
    rw [hpc]
    exact listInv_release hdev
  | idle =>
    refine ⟨?_, by simp only [Inside, hpc]⟩
    unfold Shared.goOn
    rw [hpc]
    exact h
  | dead =>
    refine ⟨?_, by simp only [Inside, hpc]⟩
    unfold Shared.goOn
    rw [hpc]
    exact h
  | wants r m n =>
    refine ⟨?_, by simp only [Inside, hpc]⟩
    unfold Shared.goOn
    rw [hpc]
    exact hdown _ (by rw [hpc]; simp)
  | openWants =>
    refine ⟨?_, by simp only [Inside, hpc]⟩
    unfold Shared.goOn
    rw [hpc]
    exact hdown _ (by rw [hpc]; simp)
  | _ =>
    refine ⟨?_, by simp only [Inside, hpc]⟩
    unfold Shared.goOn
    rw [hpc]
    exact hmove _ (by rw [hpc]; simp)

theorem listInv_step {s : Shared} {a : Act} (hsem : SemInv s) (h : ListInv s) (hop : InRange s a) :
    ListInv (s.step a) ∧ Inside s a := by
  cases a with
  | ioctl env cmd arg => exact ⟨h, trivial⟩
  | call p r =>
    refine ⟨?_, trivial⟩
    cases hpc : s.pc p with
    | idle =>
      simp only [Shared.step, hpc]
      exact listInv_setPc h (by rw [hpc]; simp)
    | _ => simp only [Shared.step, hpc]; exact h
  | openWronly p =>
    refine ⟨?_, trivial⟩
    cases hpc : s.pc p with
    | idle =>
      simp only [Shared.step, hpc]
      exact listInv_setPc h (by rw [hpc]; simp)
    | _ => simp only [Shared.step, hpc]; exact h
  | goOn p => exact listInv_goOn hsem h hop
  | interrupt p =>
    refine ⟨?_, trivial⟩
    cases hpc : s.pc p with
    | wants r m n =>
      simp only [Shared.step, hpc]
      exact listInv_setPc h (by rw [hpc]; simp)
    | openWants =>
      simp only [Shared.step, hpc]
      exact listInv_setPc h (by rw [hpc]; simp)
    | _ => simp only [Shared.step, hpc]; exact h

/-! ## Every schedule -/

theorem semInv_init (par : Params) : SemInv (.init par) := ⟨fun _ h => h.elim, fun _ => trivial⟩

theorem listInv_init {par : Params} (h : Valid par) : ListInv (.init par) := Or.inr (geom_trim h ⟨0, 0, [], 0, 0⟩)

/-- **No stale geometry.** In a schedule in which a trim changes `m_qset` or `n_quantum` only while no process has read it
for a body that is still to run, each body runs with the fields of the device; and where the geometries installed are
valid, it stays inside the list, the array and the quantum. -/
theorem no_stale_geometry {par : Params} {acts : List Act} (h : Meets Shared.step Undisturbed (.init par) acts) :
    Meets Shared.step Fresh (.init par) acts ∧
      (Valid par → Meets Shared.step InRange (.init par) acts → Meets Shared.step Inside (.init par) acts) := by
  have hsem : ∀ s a, SemInv s → Undisturbed s a → SemInv (s.step a) := fun s a hs ha => semInv_step hs ha
  refine ⟨meets_of_inv hsem (fun s a hs _ => fresh_of_semInv hs) (semInv_init par) h, fun hpar hrange => ?_⟩
  have hboth : ∀ s a, SemInv s ∧ ListInv s → Undisturbed s a ∧ InRange s a → SemInv (s.step a) ∧ ListInv (s.step a) :=
    fun s a hs ha => ⟨semInv_step hs.1 ha.1, (listInv_step hs.1 hs.2 ha.2).1⟩
  exact meets_of_inv hboth (fun s a hs ha => (listInv_step hs.1 hs.2 ha.2).2) ⟨semInv_init par, listInv_init hpar⟩
    (h.and hrange)

/-- process 0 writes two bytes and is done when process 1 reaches its store of the quantum 8 -/
def beforeTrim : List Act :=
  [.call 0 (.writes 5 [1, 2] (fun _ => true) 2), .goOn 0, .goOn 0, .goOn 0,
    .ioctl ⟨true, true, none, true⟩ SCULL_IOCTQUANTUM 8, .openWronly 1, .goOn 1, .goOn 1, .goOn 1, .goOn 1]

theorem no_stale_geometry_two :
    Meets Shared.step Fresh (.init ⟨4, 2, 0⟩) (beforeTrim ++ [.goOn 1, .call 0 (.reads 0 2 2), .goOn 0, .goOn 0, .goOn 0]) := by
  suffices hboth : Meets Shared.step Undisturbed (.init ⟨4, 2, 0⟩)
      (beforeTrim ++ [.goOn 1, .call 0 (.reads 0 2 2), .goOn 0, .goOn 0, .goOn 0]) from
    (no_stale_geometry hboth).1
  refine meets_append.2 ⟨?_, ?_, trivial, trivial, trivial, trivial, trivial⟩
  · refine ⟨trivial, trivial, trivial, trivial, trivial, trivial, trivial, trivial, trivial, ?_, trivial⟩
    intro hne
    exact absurd rfl hne
  · -- nobody has read the quantum when process 1 stores it
    intro _ q hq
    by_cases h1 : q = 1
    · subst h1
      exact hq
    · by_cases h0 : q = 0
      · subst h0
        exact hq
      · rw [run_pc_ne] at hq
        · exact hq
        · intro a ha
          simp only [beforeTrim, List.mem_cons, List.not_mem_nil, or_false] at ha
          rcases ha with rfl | rfl | rfl | rfl | rfl | rfl | rfl | rfl | rfl | rfl <;>
            simp [Act.proc, Ne.symm h0, Ne.symm h1]

/-- process 0 has read the geometry 2, 4; process 1 trims to the quantum 1 and writes two bytes -/
def staleSchedule : List Act :=
  [.call 0 (.reads 1 1 1), .goOn 0, .ioctl ⟨true, true, none, true⟩ SCULL_IOCTQUANTUM 1, .openWronly 1, .goOn 1, .goOn 1,
    .goOn 1, .goOn 1, .goOn 1, .call 1 (.writes 0 [7] (fun _ => true) 1), .goOn 1, .goOn 1, .goOn 1,
    .call 1 (.writes 1 [7] (fun _ => true) 1), .goOn 1, .goOn 1, .goOn 1, .goOn 0]

/-- the body of process 0 then runs with the old geometry, on arrays of quanta of one byte, and past the end of one -/
theorem stale_geometry :
    let s := run Shared.step (.init ⟨4, 2, 0⟩) staleSchedule
    s.pc 0 = .holds (.reads 1 1 1) 2 4 ∧ s.sem = some 0 ∧ s.dev.mQset = 2 ∧ s.dev.nQuantum = 1 ∧
      scullRead s.dev 2 4 1 1 1 = .error .badAccess := by
  refine ⟨rfl, by decide, by decide, by decide, by decide⟩

end AtsLdd.Scull
