/-
The devices with access control (access.c): `sculluid`, `scullwuid`, and the private device of a terminal.

An open is admitted in a section of its own: under a spinlock with a count and an owner, or under the lock of the list of
private devices. A write-only open then calls `scull_trim`, which "must be called with the device semaphore held"; it is
not held here. Reads and writes are those of the bare device, under the semaphore. A schedule lets any process go on to
its next point, be interrupted while it waits, start a call it has a file for, or issue an ioctl.

- `owns_iff`: the semaphore is held by the process that runs a body, in every state that can be reached;
- `locked_iff`: in every schedule, the device is changed by the holder of the semaphore only if and only if every trim
  finds the device as a trim leaves it;
- `trim_not_locked`: a trim while another process holds the semaphore.
-/
import AtsLdd.Scull.StaleGeometry

namespace AtsLdd.Scull

open AtsLdd.Machine AtsLdd.Run

/-- the device: `scull_u_device`, `scull_w_device`, or the one in `scull_c_list` with a key -/
inductive AccDevice where
  | uid
  | wuid
  | priv (key : ℕ)
deriving DecidableEq

/-- what a process is admitted by -/
structure Cred where
  uid : ℕ
  euid : ℕ
  /-- CAP_DAC_OVERRIDE -/
  capable : Bool
  /-- the device number of its terminal -/
  tty : Option ℕ
deriving DecidableEq

/-- the point that a process has reached -/
inductive AccPc where
  | idle
  /-- before the locked section of its open -/
  | opening (mode : FMode) (nonblock : Bool)
  /-- behind it -/
  | admitted (mode : FMode)
  /-- `m` is read -/
  | gotM (r : Req) (m : ℤ)
  /-- `m` and `n` are read; in `down_interruptible` -/
  | wants (r : Req) (m n : ℤ)
  /-- the semaphore is held; before the body -/
  | holds (r : Req) (m n : ℤ)
  /-- stopped by a fault in the body; the semaphore stays taken -/
  | dead

structure AccSys where
  par : Params
  /-- `none` while the private device is not in the list -/
  dev : Option ScullDev
  /-- the process that holds `dev->sem` -/
  sem : Option ℕ
  /-- `scull_u_count` or `scull_w_count` -/
  count : ℤ
  /-- `scull_u_owner` or `scull_w_owner` -/
  owner : ℕ
  files : ℕ → List FMode
  pc : ℕ → AccPc

def AccSys.setPc (s : AccSys) (p : ℕ) (c : AccPc) : AccSys := { s with pc := Function.update s.pc p c }

/-- `scull_w_available`, and the condition of `scull_u_open` -/
def AccSys.available (s : AccSys) (cr : Cred) : Prop :=
  s.count = 0 ∨ s.owner = cr.uid ∨ s.owner = cr.euid ∨ cr.capable = true

instance (s : AccSys) (cr : Cred) : Decidable (s.available cr) := inferInstanceAs (Decidable (_ ∨ _))

/-- the file is counted, and the device grabbed if it was free -/
def AccSys.grab (s : AccSys) (cr : Cred) : AccSys :=
  { s with owner := if s.count = 0 then cr.uid else s.owner, count := s.count + 1 }

/-- `scull_c_lookfor_device`: the device of the list, or a new one; the memory of a new one is zeroed -/
def lookforDevice (par : Params) (kmalloc : Bool) : Option ScullDev → Option ScullDev
  | some dev => some dev
  | none => if kmalloc then some (scullTrim ⟨0, 0, [], 0, 0⟩ par) else none

/-- the locked section of an open -/
def AccSys.letIn (which : AccDevice) (cr : Cred) (kmalloc : Bool) (s : AccSys) (p : ℕ) (mode : FMode)
    (nonblock : Bool) : AccSys :=
  match which with
  | .uid => if s.available cr then (s.grab cr).setPc p (.admitted mode) else s.setPc p .idle -- -EBUSY
  | .wuid =>
    if s.available cr then (s.grab cr).setPc p (.admitted mode)
    else if nonblock then s.setPc p .idle -- -EAGAIN
    else s
  | .priv key =>
    if cr.tty = some key then
      match lookforDevice s.par kmalloc s.dev with
      | none => s.setPc p .idle -- -ENOMEM
      | some dev => { s.setPc p (.admitted mode) with dev := some dev }
    else s.setPc p .idle -- no terminal, or the device of another one

/-- the rest of an open: a write-only one trims -/
def AccSys.opened (s : AccSys) (p : ℕ) (mode : FMode) : AccSys :=
  { s.setPc p .idle with
    dev := if mode.wronly then s.dev.map fun dev => scullTrim dev s.par else s.dev
    files := Function.update s.files p (mode :: s.files p) }

/-- the body of a read or a write; `none` is a fault -/
def reqBody (dev : ScullDev) (m n : ℤ) : Req → Option ScullDev
  | .reads pos count copied =>
    match scullRead dev m n count pos copied with
    | .error _ => none
    | .ok _ => some dev
  | .writes pos buf mem copied =>
    match scullWrite mem dev m n buf pos copied with
    | .error _ => none
    | .ok (_, dev, _) => some dev

/-- process `p` goes on to its next point, if it can -/
def AccSys.goOn (which : AccDevice) (cred : ℕ → Cred) (kmalloc : Bool) (s : AccSys) (p : ℕ) : AccSys :=
  match s.pc p with
  | .idle => s
  | .opening mode nonblock => s.letIn which (cred p) kmalloc p mode nonblock
  | .admitted mode => s.opened p mode
  | .gotM r m =>
    match s.dev with
    | none => s
    | some dev => s.setPc p (.wants r m dev.nQuantum)
  | .wants r m n => if s.sem = none then { s.setPc p (.holds r m n) with sem := some p } else s
  | .holds r m n =>
    match s.dev with
    | none => s
    | some dev =>
      match reqBody dev m n r with
      | none => s.setPc p .dead
      | some dev => { s.setPc p .idle with dev := some dev, sem := none }
  | .dead => s

/-- a file that the request can be made through -/
def Req.through (r : Req) (mode : FMode) : Bool :=
  match r with
  | .reads _ _ _ => mode.read
  | .writes _ _ _ _ => mode.write

inductive AccAct where
  | ioctl (env : IoctlEnv) (cmd arg : ℕ)
  | openFile (p : ℕ) (mode : FMode) (nonblock : Bool)
  | call (p : ℕ) (r : Req)
  | release (p : ℕ) (mode : FMode)
  | goOn (p : ℕ) (kmalloc : Bool)
  | interrupt (p : ℕ)

/-- one step of a schedule; a process that cannot take it stays where it is -/
def AccSys.step (which : AccDevice) (cred : ℕ → Cred) (s : AccSys) : AccAct → AccSys
  | .ioctl env cmd arg => { s with par := (scullIoctl s.par env cmd arg).par }
  | .openFile p mode nonblock =>
    match s.pc p with
    | .idle => s.setPc p (.opening mode nonblock)
    | _ => s
  | .call p r =>
    match s.pc p, s.dev with
    | .idle, some dev => if (s.files p).any r.through then s.setPc p (.gotM r dev.mQset) else s
    | _, _ => s
  | .release p mode =>
    match s.pc p with
    | .idle =>
      if mode ∈ s.files p then
        { s with
          count := if which = .uid ∨ which = .wuid then s.count - 1 else s.count
          files := Function.update s.files p ((s.files p).erase mode) }
      else s
    | _ => s
  | .goOn p kmalloc => s.goOn which cred kmalloc p
  | .interrupt p =>
    match s.pc p with
    | .wants _ _ _ => s.setPc p .idle
    | .opening _ _ => if which = .wuid then s.setPc p .idle else s
    | _ => s

/-- a fresh device, or no private device yet, and no process in a call -/
def AccSys.init (which : AccDevice) (par : Params) : AccSys where
  par := par
  dev := match which with
    | .priv _ => none
    | _ => some ⟨par.scullQset, par.scullQuantum, [], 0, 0⟩
  sem := none
  count := 0
  owner := 0
  files := fun _ => []
  pc := fun _ => .idle

/-! ## Conditions and properties of a step -/

/-- the process that an act is about -/
def AccAct.proc : AccAct → Option ℕ
  | .ioctl _ _ _ => none
  | .openFile p _ _ => some p
  | .call p _ => some p
  | .release p _ => some p
  | .goOn p _ => some p
  | .interrupt p => some p

/-- the device is changed by the holder of its semaphore only -/
def Locked (which : AccDevice) (cred : ℕ → Cred) (s : AccSys) (a : AccAct) : Prop :=
  ∀ dev, s.dev = some dev → (s.step which cred a).dev ≠ some dev → ∃ p, a.proc = some p ∧ s.sem = some p

/-- the device is as a trim leaves it: without a list, and with the geometry of the module parameters -/
structure Trimmed (par : Params) (dev : ScullDev) : Prop where
  data : dev.data = []
  lnQlst : dev.lnQlst = 0
  size : dev.size = 0
  mQset : dev.mQset = par.scullQset
  nQuantum : dev.nQuantum = par.scullQuantum

/-- the trim of a write-only open, if this step makes one, finds nothing to do -/
def TrimsNothing (s : AccSys) : AccAct → Prop
  | .goOn p _ =>
    match s.pc p with
    | .admitted mode => mode.wronly = true → ∀ dev, s.dev = some dev → Trimmed s.par dev
    | _ => True
  | _ => True

theorem trimmed_iff {par : Params} {dev : ScullDev} : Trimmed par dev ↔ scullTrim dev par = dev := by
  constructor
  · rintro ⟨h1, h2, h3, h4, h5⟩
    rcases dev with ⟨m, n, data, ln, size⟩
    simp only at h1 h2 h3 h4 h5
    unfold scullTrim scullTrimMain
    simp only [h1, h2, h3, h4, h5]
  · intro h
    rw [← h]
    exact ⟨rfl, rfl, rfl, rfl, rfl⟩

/-! ## The semaphore -/

/-- the points at which a process holds the semaphore -/
def AccPc.owns : AccPc → Prop
  | .holds _ _ _ => True
  | .dead => True
  | _ => False

/-- the semaphore is held by the process at such a point -/
def SemOwned (sem : Option ℕ) (pc : ℕ → AccPc) : Prop := ∀ p, sem = some p ↔ (pc p).owns

section
variable {sem : Option ℕ} {pc : ℕ → AccPc} {p : ℕ} {c : AccPc}

/-- a process moves on, and keeps the semaphore if it has it -/
theorem SemOwned.move (h : SemOwned sem pc) (hc : c.owns ↔ (pc p).owns) : SemOwned sem (Function.update pc p c) := by
  intro q
  by_cases hqp : q = p
  · rw [hqp, Function.update_self, hc]
    exact h p
  · rw [Function.update_of_ne hqp]
    exact h q

/-- a process that does not have the semaphore moves between points without it -/
theorem SemOwned.moveFree (h : SemOwned sem pc) (hp : ¬ (pc p).owns) (hc : ¬ c.owns) :
    SemOwned sem (Function.update pc p c) := h.move (iff_of_false hc hp)

theorem SemOwned.down (h : SemOwned none pc) (hc : c.owns) : SemOwned (some p) (Function.update pc p c) := by
  intro q
  by_cases hqp : q = p
  · rw [hqp, Function.update_self]
    exact iff_of_true rfl hc
  · rw [Function.update_of_ne hqp, ← h q]
    exact iff_of_false (fun he => hqp (Option.some.inj he).symm) (by simp)

theorem SemOwned.up (h : SemOwned sem pc) (hp : (pc p).owns) (hc : ¬ c.owns) : SemOwned none (Function.update pc p c) := by
  intro q
  by_cases hqp : q = p
  · rw [hqp, Function.update_self]
    exact iff_of_false (by simp) hc
  · rw [Function.update_of_ne hqp, ← h q, (h p).2 hp]
    exact iff_of_false (by simp) fun he => hqp (Option.some.inj he).symm

end

section
variable {which : AccDevice} {cred : ℕ → Cred} {s : AccSys}

theorem semOwned_letIn (h : SemOwned s.sem s.pc) {p : ℕ} (hp : ¬ (s.pc p).owns) (cr : Cred) (kmalloc : Bool)
    (mode : FMode) (nonblock : Bool) : SemOwned (s.letIn which cr kmalloc p mode nonblock).sem
      (s.letIn which cr kmalloc p mode nonblock).pc := by
  have hidle : SemOwned s.sem (Function.update s.pc p .idle) := h.moveFree hp id
  have hadm : SemOwned s.sem (Function.update s.pc p (.admitted mode)) := h.moveFree hp id
  cases which with
  | uid =>
    simp only [AccSys.letIn]
    split_ifs
    · exact hadm
    · exact hidle
  | wuid =>
    simp only [AccSys.letIn]
    split_ifs
    · exact hadm
    · exact hidle
    · exact h
  | priv key =>
    simp only [AccSys.letIn]
    split_ifs
    · cases lookforDevice s.par kmalloc s.dev with
      | none => exact hidle
      | some dev => exact hadm
    · exact hidle

/-- **The semaphore has an owner** at every step: the process that is about to run a body. -/
theorem owns_iff (which : AccDevice) (cred : ℕ → Cred) (s : AccSys) (a : AccAct) (h : SemOwned s.sem s.pc) :
    SemOwned (s.step which cred a).sem (s.step which cred a).pc := by
  cases a with
  | ioctl env cmd arg => exact h
  | openFile p mode nonblock =>
    simp only [AccSys.step]
    split
    · rename_i hpc
      exact h.moveFree (by rw [hpc]; exact id) id
    · exact h
  | call p r =>
    simp only [AccSys.step]
    split
    · rename_i hpc _
      split_ifs
      · exact h.moveFree (by rw [hpc]; exact id) id
      · exact h
    · exact h
  | release p mode =>
    simp only [AccSys.step]
    split
    · split_ifs <;> exact h
    · exact h
  | interrupt p =>
    simp only [AccSys.step]
    split
    · rename_i hpc
      exact h.moveFree (by rw [hpc]; exact id) id
    · rename_i hpc
      split_ifs
      · exact h.moveFree (by rw [hpc]; exact id) id
      · exact h
    · exact h
  | goOn p kmalloc =>
    simp only [AccSys.step, AccSys.goOn]
    cases hpc : s.pc p with
    | idle => exact h
    | dead => exact h
    | opening mode nonblock => exact semOwned_letIn h (by rw [hpc]; exact id) _ _ _ _
    | admitted mode => exact h.moveFree (by rw [hpc]; exact id) id
    | gotM r m =>
      cases s.dev with
      | none => exact h
      | some dev => exact h.moveFree (by rw [hpc]; exact id) id
    | wants r m n =>
      by_cases hfree : s.sem = none
      · rw [hfree] at h
        simp only [if_pos hfree]
        exact h.down trivial
      · simp only [if_neg hfree]
        exact h
    | holds r m n =>
      have howns : (s.pc p).owns := by
        rw [hpc]
        trivial
      cases s.dev with
      | none => exact h
      | some dev =>
        cases hbody : reqBody dev m n r with
        | none =>
          simp only [hbody]
          exact h.move (iff_of_true trivial howns)
        | some dev' =>
          simp only [hbody]
          exact h.up howns id

/-- an admission leaves a device that is there -/
theorem letIn_dev (cr : Cred) (kmalloc : Bool) (p : ℕ) (mode : FMode) (nonblock : Bool) {dev : ScullDev}
    (hdev : s.dev = some dev) : (s.letIn which cr kmalloc p mode nonblock).dev = some dev := by
  cases which with
  | uid =>
    simp only [AccSys.letIn]
    split_ifs <;> exact hdev
  | wuid =>
    simp only [AccSys.letIn]
    split_ifs <;> exact hdev
  | priv key =>
    simp only [AccSys.letIn, hdev, lookforDevice]
    split_ifs
    · rfl
    · exact hdev

/-- **One step**: the device is changed by the holder of the semaphore only, if and only if a trim finds nothing to do. -/
theorem locked_step_iff (which : AccDevice) (cred : ℕ → Cred) {s : AccSys} (h : SemOwned s.sem s.pc) (a : AccAct) :
    Locked which cred s a ↔ TrimsNothing s a := by
  have hkeep : ∀ dev, s.dev = some dev → (s.step which cred a).dev = s.dev → ¬ (s.step which cred a).dev ≠ some dev :=
    fun dev hd hs hne => hne (hs.trans hd)
  cases a with
  | ioctl env cmd arg => exact iff_of_true (fun dev hd hne => absurd hne (hkeep dev hd rfl)) trivial
  | openFile p mode nonblock =>
    refine iff_of_true (fun dev hd hne => absurd hne (hkeep dev hd ?_)) trivial
    simp only [AccSys.step]
    split <;> rfl
  | call p r =>
    refine iff_of_true (fun dev hd hne => absurd hne (hkeep dev hd ?_)) trivial
    simp only [AccSys.step]
    split
    · split_ifs <;> rfl
    · rfl
  | release p mode =>
    refine iff_of_true (fun dev hd hne => absurd hne (hkeep dev hd ?_)) trivial
    simp only [AccSys.step]
    split
    · split_ifs <;> rfl
    · rfl
  | interrupt p =>
    refine iff_of_true (fun dev hd hne => absurd hne (hkeep dev hd ?_)) trivial
    simp only [AccSys.step]
    split
    · rfl
    · split_ifs <;> rfl
    · rfl
  | goOn p kmalloc =>
    simp only [Locked, TrimsNothing, AccSys.step, AccSys.goOn, AccAct.proc, Option.some.injEq]
    cases hpc : s.pc p with
    | idle => exact iff_of_true (fun dev hd hne => absurd hd hne) trivial
    | dead => exact iff_of_true (fun dev hd hne => absurd hd hne) trivial
    | opening mode nonblock =>
      exact iff_of_true (fun dev hd hne => absurd (letIn_dev (cred p) kmalloc p mode nonblock hd) hne) trivial
    | admitted mode =>
      have hno : ¬ s.sem = some p := by
        rw [h p, hpc]
        exact id
      simp only [AccSys.opened]
      cases hw : mode.wronly with
      | false =>
        simp only [Bool.false_eq_true, if_false, false_imp_iff, iff_true]
        intro dev hd hne
        exact absurd hd hne
      | true =>
        simp only [if_true, true_imp_iff]
        constructor
        · intro hl dev hd
          rw [trimmed_iff]
          by_contra hne
          obtain ⟨q, rfl, hq⟩ := hl dev hd (by
            rw [hd, Option.map_some]
            intro he
            exact hne (Option.some.inj he))
          exact hno hq
        · intro ht dev hd hne
          refine absurd ?_ hne
          rw [hd, Option.map_some, trimmed_iff.1 (ht dev hd)]
    | gotM r m =>
      refine iff_of_true (fun dev hd hne => ?_) trivial
      rw [hd] at hne
      exact absurd hd hne
    | wants r m n =>
      refine iff_of_true (fun dev hd hne => ?_) trivial
      split_ifs at hne
      · exact absurd hd hne
      · exact absurd hd hne
    | holds r m n =>
      -- the body runs under the semaphore
      have howns : s.sem = some p := by
        rw [h p, hpc]
        trivial
      exact iff_of_true (fun dev hd hne => ⟨p, rfl, howns⟩) trivial

end

/-! ## Schedules -/

/-- **Trims and the semaphore.** In every schedule, the device is changed by the holder of its semaphore only if and only
if every trim of a write-only open finds the device as a trim leaves it. -/
theorem locked_iff (which : AccDevice) (cred : ℕ → Cred) (par : Params) (acts : List AccAct) :
    Meets (AccSys.step which cred) (Locked which cred) (AccSys.init which par) acts ↔
      Meets (AccSys.step which cred) TrimsNothing (AccSys.init which par) acts :=
  meets_iff (owns_iff which cred) (fun _ a h => locked_step_iff which cred h a)
    (show SemOwned none fun _ => .idle from fun _ => iff_of_false (by simp) id)

/-- every process is run by the same user -/
def sameUser : ℕ → Cred := fun _ => ⟨1000, 1000, false, none⟩

/-- process 0 has written a byte to `sculluid`, and holds the semaphore to read it; process 1 opens the device write-only -/
def trimInRead : List AccAct :=
  [.openFile 0 ⟨true, true⟩ false, .goOn 0 true, .goOn 0 true,
    .call 0 (.writes 0 [7] (fun _ => true) 1), .goOn 0 true, .goOn 0 true, .goOn 0 true,
    .call 0 (.reads 0 1 1), .goOn 0 true, .goOn 0 true,
    .openFile 1 ⟨false, true⟩ false, .goOn 1 true]

/-- **A trim while another process holds the semaphore** frees the list that is about to be read. -/
theorem trim_not_locked : ¬ ∀ (which : AccDevice) (cred : ℕ → Cred) (par : Params) (acts : List AccAct),
    Meets (AccSys.step which cred) (Locked which cred) (AccSys.init which par) acts := by
  intro hall
  have h : Locked .uid sameUser (run (AccSys.step .uid sameUser) (AccSys.init .uid ⟨4, 1, 4000⟩) trimInRead) (.goOn 1 true) :=
    (show Meets _ _ _ (trimInRead ++ .goOn 1 true :: []) from hall .uid sameUser ⟨4, 1, 4000⟩ _).at
  have hdev : (run (AccSys.step .uid sameUser) (AccSys.init .uid ⟨4, 1, 4000⟩) trimInRead).dev =
      some ⟨1, 4, [⟨some [some [7, 0, 0, 0]]⟩], 1, 1⟩ := by decide
  obtain ⟨p, hp, hsem⟩ := h _ hdev (by decide)
  rw [← Option.some.inj hp] at hsem
  revert hsem
  decide

end AtsLdd.Scull
