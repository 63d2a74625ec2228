/-
What a failed `scull_ioctl` leaves of the module parameters.

`scullIoctl` of `AtsLdd.Scull.FileOps` is the switch of the source. Here its commands are decoded to an operation on one
of the three parameters, and `scullIoctl_eq` says that the switch runs the decoded operation. `__get_user` writes straight
into the parameter, 0 if it faults; an exchange stores the old value only when the new one is installed already.

- `ioctlExec_safe_iff`: for one operation, an error leaves the parameters and success swaps the values if and only if
  the operation keeps what it may not change;
- `scullIoctl_safe_iff`: the same for every command, argument, privilege and outcome of the user accesses;
- `scullIoctl_fault_clears`: a set command whose user access faults clears the quantum.
-/
import AtsLdd.Scull.FileOps

namespace AtsLdd.Scull

open AtsLdd.Machine

/-! ## The commands -/

/-- `scull_quantum`, `scull_qset` or `scull_p_buffer` -/
inductive Param where
  | quantum
  | qset
  | pBuffer
deriving DecidableEq

def Params.get (par : Params) : Param → ℤ
  | .quantum => par.scullQuantum
  | .qset => par.scullQset
  | .pBuffer => par.scullPBuffer

def Params.set (par : Params) (v : ℤ) : Param → Params
  | .quantum => { par with scullQuantum := v }
  | .qset => { par with scullQset := v }
  | .pBuffer => { par with scullPBuffer := v }

@[simp] theorem Params.get_set (par : Params) (v : ℤ) (f : Param) : (par.set v f).get f = v := by cases f <;> rfl

theorem Params.set_eq_iff (par : Params) (v : ℤ) (f : Param) : par.set v f = par ↔ v = par.get f := by
  constructor
  · intro h
    rw [← Params.get_set par v f, h]
  · rintro rfl
    cases f <;> rfl

/-- what the letters of the command names stand for in scull.h: S, T, G, Q, X and H -/
inductive IoctlOp where
  | reset
  | set (f : Param)
  | tell (f : Param)
  | get (f : Param)
  | query (f : Param)
  | exchange (f : Param)
  | shift (f : Param)
deriving DecidableEq

/-- the cases of the switch -/
def ioctlOp (cmd : ℕ) : Option IoctlOp :=
  if cmd = SCULL_IOCRESET then some .reset
  else if cmd = SCULL_IOCSQUANTUM then some (.set .quantum)
  else if cmd = SCULL_IOCTQUANTUM then some (.tell .quantum)
  else if cmd = SCULL_IOCGQUANTUM then some (.get .quantum)
  else if cmd = SCULL_IOCQQUANTUM then some (.query .quantum)
  else if cmd = SCULL_IOCXQUANTUM then some (.exchange .quantum)
  else if cmd = SCULL_IOCHQUANTUM then some (.shift .quantum)
  else if cmd = SCULL_IOCSQSET then some (.set .qset)
  else if cmd = SCULL_IOCTQSET then some (.tell .qset)
  else if cmd = SCULL_IOCGQSET then some (.get .qset)
  else if cmd = SCULL_IOCQQSET then some (.query .qset)
  else if cmd = SCULL_IOCXQSET then some (.exchange .qset)
  else if cmd = SCULL_IOCHQSET then some (.shift .qset)
  else if cmd = SCULL_P_IOCTSIZE then some (.tell .pBuffer)
  else if cmd = SCULL_P_IOCQSIZE then some (.query .pBuffer)
  else none

/-- the operations that CAP_SYS_ADMIN is asked for; the buffer size of the pipe is not among them -/
def IoctlOp.admin : IoctlOp → Bool
  | .set _ => true
  | .tell f => decide (f ≠ .pBuffer)
  | .exchange _ => true
  | .shift _ => true
  | _ => false

/-- an operation behind the check of the privilege -/
def ioctlExec (par : Params) (env : IoctlEnv) (arg : ℕ) : IoctlOp → IoctlRes
  | .reset => ⟨0, { par with scullQuantum := SCULL_QUANTUM, scullQset := SCULL_QSET }, none⟩
  | .set f => ⟨(getUser env).2, par.set (getUser env).1 f, none⟩
  | .tell f => ⟨0, par.set (int32 arg) f, none⟩
  | .get f => ⟨(putUser env (par.get f)).2, par, (putUser env (par.get f)).1⟩
  | .query f => ⟨par.get f, par, none⟩
  | .exchange f =>
    if (getUser env).2 = 0 then
      ⟨(putUser env (par.get f)).2, par.set (getUser env).1 f, (putUser env (par.get f)).1⟩
    else ⟨(getUser env).2, par.set (getUser env).1 f, none⟩
  | .shift f => ⟨par.get f, par.set (int32 arg) f, none⟩

/-- an operation, if the command has one, with the check of the privilege -/
def ioctlRun (par : Params) (env : IoctlEnv) (arg : ℕ) : Option IoctlOp → IoctlRes
  | none => ⟨-ENOTTY, par, none⟩
  | some op =>
    match op.admin with
    | true => if ¬ env.capable then ⟨-EPERM, par, none⟩ else ioctlExec par env arg op
    | false => ioctlExec par env arg op

/-- the checks before the switch -/
def ioctlChecks (env : IoctlEnv) (cmd : ℕ) : Prop :=
  iocType cmd = SCULL_IOC_MAGIC ∧ iocNr cmd ≤ SCULL_IOC_MAXNR ∧ (iocDir cmd ≠ 0 → env.accessOk = true)

/-- an operation that is run -/
def IoctlRuns (env : IoctlEnv) (cmd : ℕ) (op : IoctlOp) : Prop :=
  ioctlChecks env cmd ∧ ioctlOp cmd = some op ∧ (op.admin = true → env.capable = true)

/-- **The switch** runs the operation of the command. -/
theorem scullIoctl_eq (par : Params) (env : IoctlEnv) {cmd : ℕ} (arg : ℕ) (h : ioctlChecks env cmd) :
    scullIoctl par env cmd arg = ioctlRun par env arg (ioctlOp cmd) := by
  obtain ⟨htype, hnr, hdir⟩ := h
  have haccess : ¬ (iocDir cmd ≠ 0 ∧ ¬ env.accessOk = true) := fun ⟨h1, h2⟩ => h2 (hdir h1)
  unfold scullIoctl ioctlOp
  rw [if_neg (not_not.2 htype), if_neg (not_lt.2 hnr), if_neg haccess]
  simp only [apply_ite (ioctlRun par env arg)]
  rfl

/-! ## Errors and success -/

/-- the answers that are error codes, the last `MAX_ERRNO` values of a `long` -/
def IsErr (ret : ℤ) : Prop := -4095 ≤ ret ∧ ret ≤ -1

instance (ret : ℤ) : Decidable (IsErr ret) := inferInstanceAs (Decidable (_ ∧ _))

/-- an error changes no parameter; a successful exchange or shift gives the old value and installs the new one -/
structure IoctlSafe (par : Params) (env : IoctlEnv) (arg : ℕ) (op : Option IoctlOp) (r : IoctlRes) : Prop where
  failed : IsErr r.ret → r.par = par
  exchanged : ∀ f, op = some (.exchange f) → ¬ IsErr r.ret →
    r.put = some (par.get f) ∧ ∃ v, env.getUser = some v ∧ r.par = par.set (int32 v) f
  shifted : ∀ f, op = some (.shift f) → ¬ IsErr r.ret → r.ret = par.get f ∧ r.par = par.set (int32 arg) f

/-- the operation reports no error after a change: an access that faults finds 0 in the parameter, a store that faults
finds the value that arrived, and a shift of a value that looks like an error installs the same value -/
def IoctlOp.Keeps (par : Params) (env : IoctlEnv) (arg : ℕ) : IoctlOp → Prop
  | .set f => env.getUser = none → par.get f = 0
  | .exchange f =>
    (env.getUser = none → par.get f = 0) ∧ ∀ v, env.getUser = some v → env.putUser = false → int32 v = par.get f
  | .shift f => IsErr (par.get f) → int32 arg = par.get f
  | _ => True

section
variable {par : Params} {env : IoctlEnv} {arg : ℕ}

theorem isErr_efault : IsErr (- EFAULT) := by decide

theorem isErr_eperm : IsErr (- EPERM) := by decide

theorem isErr_enotty : IsErr (- ENOTTY) := by decide

theorem not_isErr_zero : ¬ IsErr 0 := by decide

theorem getUser_none (h : env.getUser = none) : getUser env = (0, - EFAULT) := by simp only [getUser, h]

theorem getUser_some {v : ℤ} (h : env.getUser = some v) : getUser env = (int32 v, 0) := by simp only [getUser, h]

/-- an answer that leaves the parameters, of an operation that does not swap -/
theorem ioctlSafe_of_same {op : Option IoctlOp} {r : IoctlRes} (hpar : r.par = par)
    (hx : ∀ f, op ≠ some (.exchange f)) (hh : ∀ f, op ≠ some (.shift f)) : IoctlSafe par env arg op r :=
  ⟨fun _ => hpar, fun f h => absurd h (hx f), fun f h => absurd h (hh f)⟩

/-- an error that leaves the parameters -/
theorem ioctlSafe_of_err {op : Option IoctlOp} {r : IoctlRes} (hpar : r.par = par) (herr : IsErr r.ret) :
    IoctlSafe par env arg op r :=
  ⟨fun _ => hpar, fun _ _ h => absurd herr h, fun _ _ h => absurd herr h⟩

theorem set_safe_iff (f : Param) :
    IoctlSafe par env arg (some (.set f)) (ioctlExec par env arg (.set f)) ↔ (IoctlOp.set f).Keeps par env arg := by
  simp only [ioctlExec, IoctlOp.Keeps]
  cases hget : env.getUser with
  | none =>
    rw [getUser_none hget]
    constructor
    · intro h _
      exact ((par.set_eq_iff 0 f).1 (h.failed isErr_efault)).symm
    · intro h
      exact ioctlSafe_of_err ((par.set_eq_iff 0 f).2 (h rfl).symm) isErr_efault
  | some v =>
    rw [getUser_some hget]
    refine iff_of_true ⟨fun h => absurd h not_isErr_zero, fun g h => ?_, fun g h => ?_⟩ fun h => ?_
    · cases h
    · cases h
    · cases h

theorem exchange_safe_iff (f : Param) :
    IoctlSafe par env arg (some (.exchange f)) (ioctlExec par env arg (.exchange f)) ↔
      (IoctlOp.exchange f).Keeps par env arg := by
  simp only [ioctlExec, IoctlOp.Keeps]
  cases hget : env.getUser with
  | none =>
    rw [getUser_none hget, if_neg (by decide)]
    constructor
    · intro h
      exact ⟨fun _ => ((par.set_eq_iff 0 f).1 (h.failed isErr_efault)).symm, fun v hv => (nomatch hv)⟩
    · intro h
      exact ioctlSafe_of_err ((par.set_eq_iff 0 f).2 (h.1 rfl).symm) isErr_efault
  | some v =>
    rw [getUser_some hget, if_pos rfl]
    cases hput : env.putUser with
    | true =>
      have hp : putUser env (par.get f) = (some (par.get f), 0) := if_pos hput
      rw [hp]
      refine iff_of_true ⟨fun h => absurd h not_isErr_zero, fun g hg _ => ?_, fun g hg => ?_⟩ ⟨fun h => ?_, fun _ _ h => ?_⟩
      · cases hg
        exact ⟨rfl, v, hget, rfl⟩
      · cases hg
      · cases h
      · cases h
    | false =>
      have hp : putUser env (par.get f) = (none, - EFAULT) := if_neg (by rw [hput]; exact Bool.false_ne_true)
      rw [hp]
      constructor
      · intro h
        refine ⟨fun hn => (nomatch hn), fun w hw _ => ?_⟩
        cases hw
        exact (par.set_eq_iff _ f).1 (h.failed isErr_efault)
      · intro h
        exact ioctlSafe_of_err ((par.set_eq_iff _ f).2 (h.2 v rfl rfl)) isErr_efault

theorem shift_safe_iff (f : Param) :
    IoctlSafe par env arg (some (.shift f)) (ioctlExec par env arg (.shift f)) ↔ (IoctlOp.shift f).Keeps par env arg := by
  constructor
  · intro h herr
    exact (par.set_eq_iff _ f).1 (h.failed herr)
  · intro h
    refine ⟨fun herr => (par.set_eq_iff _ f).2 (h herr), fun g hg => ?_, fun g hg _ => ?_⟩
    · cases hg
    · cases hg
      exact ⟨rfl, rfl⟩

/-- **One operation.** -/
theorem ioctlExec_safe_iff (op : IoctlOp) :
    IoctlSafe par env arg (some op) (ioctlExec par env arg op) ↔ op.Keeps par env arg := by
  cases op with
  | set f => exact set_safe_iff f
  | exchange f => exact exchange_safe_iff f
  | shift f => exact shift_safe_iff f
  | reset =>
    refine iff_of_true ⟨fun h => absurd h not_isErr_zero, fun g hg => ?_, fun g hg => ?_⟩ trivial
    · cases hg
    · cases hg
  | tell f =>
    refine iff_of_true ⟨fun h => absurd h not_isErr_zero, fun g hg => ?_, fun g hg => ?_⟩ trivial
    · cases hg
    · cases hg
  | get f => exact iff_of_true (ioctlSafe_of_same rfl (fun g hg => by cases hg) fun g hg => by cases hg) trivial
  | query f => exact iff_of_true (ioctlSafe_of_same rfl (fun g hg => by cases hg) fun g hg => by cases hg) trivial

/-- without the privilege that the operation asks for, it is not run -/
theorem ioctlRun_of_runs {cmd : ℕ} {op : IoctlOp} (h : IoctlRuns env cmd op) :
    ioctlRun par env arg (ioctlOp cmd) = ioctlExec par env arg op := by
  obtain ⟨-, hop, hcap⟩ := h
  simp only [ioctlRun, hop]
  cases hadmin : op.admin with
  | true => exact if_neg (not_not.2 (hcap hadmin))
  | false => rfl

/-- a command that is not run answers with an error and leaves the parameters -/
theorem scullIoctl_of_not_runs {cmd : ℕ} (h : ¬ ∃ op, IoctlRuns env cmd op) :
    IsErr (scullIoctl par env cmd arg).ret ∧ (scullIoctl par env cmd arg).par = par := by
  by_cases hc : ioctlChecks env cmd
  · rw [scullIoctl_eq par env arg hc]
    cases hop : ioctlOp cmd with
    | none => exact ⟨isErr_enotty, rfl⟩
    | some op =>
      have hdenied : ¬ (op.admin = true → env.capable = true) := fun hcap => h ⟨op, hc, hop, hcap⟩
      push Not at hdenied
      simp only [ioctlRun, hdenied.1]
      rw [if_pos hdenied.2]
      exact ⟨isErr_eperm, rfl⟩
  · unfold scullIoctl
    by_cases htype : iocType cmd ≠ SCULL_IOC_MAGIC
    · rw [if_pos htype]
      exact ⟨isErr_enotty, rfl⟩
    rw [if_neg htype]
    by_cases hnr : iocNr cmd > SCULL_IOC_MAXNR
    · rw [if_pos hnr]
      exact ⟨isErr_enotty, rfl⟩
    have haccess : iocDir cmd ≠ 0 ∧ ¬ env.accessOk = true := by
      by_contra hno
      refine hc ⟨not_not.1 htype, not_lt.1 hnr, fun hdir => ?_⟩
      by_contra hbad
      exact hno ⟨hdir, hbad⟩
    rw [if_neg hnr, if_pos haccess]
    exact ⟨isErr_efault, rfl⟩

/-- **Failed ioctls.** For every command, argument, privilege and outcome of the user accesses, an error leaves the
parameters and a successful exchange or shift swaps the values, if and only if the operation that is run keeps what it may
not change. -/
theorem scullIoctl_safe_iff (par : Params) (env : IoctlEnv) (cmd arg : ℕ) :
    IoctlSafe par env arg (ioctlOp cmd) (scullIoctl par env cmd arg) ↔
      ∀ op, IoctlRuns env cmd op → op.Keeps par env arg := by
  by_cases h : ∃ op, IoctlRuns env cmd op
  · obtain ⟨op, hop⟩ := h
    have honly : (∀ o, IoctlRuns env cmd o → o.Keeps par env arg) ↔ op.Keeps par env arg := by
      constructor
      · intro hall
        exact hall op hop
      · intro hk o ho
        obtain rfl : op = o := Option.some.inj (hop.2.1.symm.trans ho.2.1)
        exact hk
    rw [honly, scullIoctl_eq par env arg hop.1, ioctlRun_of_runs hop, hop.2.1]
    exact ioctlExec_safe_iff op
  · obtain ⟨herr, hpar⟩ := @scullIoctl_of_not_runs par env arg cmd h
    exact iff_of_true (ioctlSafe_of_err hpar herr) fun op hop => absurd ⟨op, hop⟩ h

/-- a quantum of 4000, and a set command of a privileged caller with a pointer that faults: the answer is -EFAULT and
the quantum is 0 -/
theorem scullIoctl_fault_clears :
    ¬ IoctlSafe ⟨4000, 1000, 4000⟩ ⟨true, true, none, true⟩ 4096 (ioctlOp SCULL_IOCSQUANTUM)
      (scullIoctl ⟨4000, 1000, 4000⟩ ⟨true, true, none, true⟩ SCULL_IOCSQUANTUM 4096) := by
  intro h
  exact absurd (h.failed (by decide)) (by decide)

end

end AtsLdd.Scull
