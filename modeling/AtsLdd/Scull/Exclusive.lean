/-
Who holds the devices with access control on open (access.c): `scullsingle`, `sculluid` and `scullwuid`.

A schedule is any list of acts of any number of processes. An act is one atomic step of a call: an atomic operation on the
counter of `scullsingle`, a section under the spinlock of the others, a test outside the lock, the trim behind them. The
calls that have not returned are in lists, by the point that they have reached, and a process may have several. A process
holds a device from the step that admits its open until the release of the file.

The counters are integers here. The kernel has no more than 2^22 tasks and an `int` of open files, and
`available_int32` says that the counter of `scullsingle` stays an `int` for up to 2^31 calls at once.

- `single_exclusive`: in every schedule `scullsingle` has at most one holder, and its counter is one less the holders
  less the failed calls that have not compensated;
- `users_apart`: in every schedule the count of `sculluid` and `scullwuid` is the number of holders, the owner is the
  real or effective uid of every holder without CAP_DAC_OVERRIDE, and it changes only when there are no holders;
- `access_simulated`: the counts and owners of the schedules of `AtsLdd.Scull.Access`, where the calls read and write as
  well, are those of schedules here, so that the owner rule holds of them, too.
-/
import AtsLdd.Core.Run
import AtsLdd.Scull.Access

namespace AtsLdd.Scull

open AtsLdd.Machine AtsLdd.Run

variable {P : Type*}

/-! ## The single-open device -/

structure SingleSys (P : Type*) where
  par : Params
  /-- `scull_s_device` -/
  dev : ScullDev
  /-- `scull_s_available` -/
  available : ℤ
  /-- calls of `scull_s_open` between the test that fails and `atomic_inc` -/
  failed : List P
  /-- calls of `scull_s_open` behind the test that succeeds -/
  admitted : List (P × FMode)
  files : List P

/-- `atomic_dec_and_test`: the new value, and whether it is 0 -/
def atomicDecAndTest (v : ℤ) : ℤ × Bool := (v - 1, decide (v - 1 = 0))

def atomicInc (v : ℤ) : ℤ := v + 1

inductive SingleAct (P : Type*) where
  /-- the decrement and test of `scull_s_open` -/
  | decAndTest (p : P) (mode : FMode)
  /-- the increment before -EBUSY -/
  | compensate (p : P)
  /-- the trim of a write-only open, and the return -/
  | trim (p : P) (mode : FMode)
  /-- `scull_s_release` -/
  | release (p : P)

/-- one step of a schedule; a process that cannot take it stays where it is -/
def SingleSys.step [DecidableEq P] (s : SingleSys P) : SingleAct P → SingleSys P
  | .decAndTest p mode =>
    match atomicDecAndTest s.available with
    | (v, true) => { s with available := v, admitted := (p, mode) :: s.admitted }
    | (v, false) => { s with available := v, failed := p :: s.failed }
  | .compensate p =>
    if p ∈ s.failed then { s with available := atomicInc s.available, failed := s.failed.erase p } else s
  | .trim p mode =>
    if (p, mode) ∈ s.admitted then
      { s with
        dev := if mode.wronly then scullTrim s.dev s.par else s.dev
        admitted := s.admitted.erase (p, mode)
        files := p :: s.files }
    else s
  | .release p =>
    if p ∈ s.files then { s with available := atomicInc s.available, files := s.files.erase p } else s

/-- the module is loaded -/
def SingleSys.init (par : Params) : SingleSys P where
  par := par
  dev := ⟨par.scullQset, par.scullQuantum, [], 0, 0⟩
  available := 1
  failed := []
  admitted := []
  files := []

/-- the processes between their successful open and their release -/
def SingleSys.holders (s : SingleSys P) : List P := s.admitted.map Prod.fst ++ s.files

/-- the counting invariant -/
structure SingleInv (s : SingleSys P) : Prop where
  available : s.available = 1 - (s.admitted.length + s.files.length) - s.failed.length
  one : s.admitted.length + s.files.length ≤ 1

theorem holders_length (s : SingleSys P) : s.holders.length = s.admitted.length + s.files.length := by
  rw [SingleSys.holders, List.length_append, List.length_map]

theorem singleInv_init (par : Params) : SingleInv (SingleSys.init par : SingleSys P) := ⟨rfl, Nat.zero_le 1⟩

section
variable [DecidableEq P] {s : SingleSys P}

/-- a decrement finds 0 only when no one holds the device and no failed call is pending -/
theorem singleInv_decAndTest (h : SingleInv s) (p : P) (mode : FMode) : SingleInv (s.step (.decAndTest p mode)) := by
  have havail := h.available
  have hone := h.one
  by_cases hzero : s.available - 1 = 0
  · have hstep : s.step (.decAndTest p mode) =
        { s with available := s.available - 1, admitted := (p, mode) :: s.admitted } := by
      simp only [SingleSys.step, atomicDecAndTest, hzero, decide_true]
    rw [hstep]
    constructor
    · simp only [List.length_cons]; push_cast; omega
    · simp only [List.length_cons]; omega
  · have hstep : s.step (.decAndTest p mode) = { s with available := s.available - 1, failed := p :: s.failed } := by
      simp only [SingleSys.step, atomicDecAndTest, hzero, decide_false]
    rw [hstep]
    constructor
    · simp only [List.length_cons]; push_cast; omega
    · exact hone

/-- **One step** keeps the counting invariant. -/
theorem singleInv_step (h : SingleInv s) (a : SingleAct P) : SingleInv (s.step a) := by
  have havail := h.available
  have hone := h.one
  cases a with
  | decAndTest p mode => exact singleInv_decAndTest h p mode
  | compensate p =>
    simp only [SingleSys.step]
    split_ifs with hp
    · have hlen := List.length_erase_add_one hp
      constructor
      · simp only [atomicInc]; omega
      · exact hone
    · exact h
  | trim p mode =>
    simp only [SingleSys.step]
    by_cases hp : (p, mode) ∈ s.admitted
    · have hlen := List.length_erase_add_one hp
      rw [if_pos hp]
      constructor
      · simp only [List.length_cons]; push_cast; omega
      · simp only [List.length_cons]; omega
    · rw [if_neg hp]
      exact h
  | release p =>
    simp only [SingleSys.step]
    split_ifs with hp
    · have hlen := List.length_erase_add_one hp
      constructor
      · simp only [atomicInc]; omega
      · simp only; omega
    · exact h

/-- **Single-open exclusion.** In every schedule at most one process is between its successful open and its release, and
the counter is one less the holders less the failed calls that have not compensated. -/
theorem single_exclusive (par : Params) (acts : List (SingleAct P)) :
    let s := run SingleSys.step (SingleSys.init par : SingleSys P) acts
    s.holders.length ≤ 1 ∧ s.available = 1 - s.holders.length - s.failed.length := by
  intro s
  have hstep : ∀ (t : SingleSys P) (a : SingleAct P), SingleInv t → SingleInv (t.step a) := fun _ a h => singleInv_step h a
  have h : SingleInv s := run_keeps hstep (singleInv_init par) acts
  rw [holders_length]
  exact ⟨h.one, h.available⟩

omit [DecidableEq P] in
/-- the counter is an `int` while fewer than 2^31 failed calls are in flight -/
theorem available_int32 (h : SingleInv s) (hfew : s.failed.length < 2 ^ 31) : int32 s.available = s.available := by
  have havail := h.available
  have hone := h.one
  exact int32_of_bounds (by omega) (by omega)

end

/-! ## The devices of one user -/

/-- `sculluid`, or `scullwuid`, which waits instead of failing -/
inductive UserDevice where
  | uid
  | wuid
deriving DecidableEq

/-- the point that an open has reached before it is admitted -/
inductive WaitPc where
  /-- about to take the lock, for the first time or again -/
  | locking
  /-- in `wait_event_interruptible`, before the test of the count -/
  | waiting
  /-- there, the count was not 0; before the test of the owner -/
  | counted
deriving DecidableEq

/-- a call of `scull_u_open` or `scull_w_open` that is not admitted yet -/
structure UserCall (P : Type*) where
  proc : P
  pc : WaitPc
  /-- O_NONBLOCK -/
  nonblock : Bool
  mode : FMode
deriving DecidableEq

/-- a process that holds the device, with the credentials that it was admitted with -/
structure Holder (P : Type*) where
  proc : P
  cred : Cred
deriving DecidableEq

structure UserSys (P : Type*) where
  par : Params
  /-- `scull_u_device` or `scull_w_device` -/
  dev : ScullDev
  /-- `scull_u_count` or `scull_w_count` -/
  count : ℤ
  /-- `scull_u_owner` or `scull_w_owner` -/
  owner : ℕ
  calls : List (UserCall P)
  /-- calls behind the locked section -/
  admitted : List (Holder P × FMode)
  files : List (Holder P)

/-- the owner is the user, or the one it did su to, or the process may override -/
def ownerAllows (owner : ℕ) (cr : Cred) : Prop := owner = cr.uid ∨ owner = cr.euid ∨ cr.capable = true

instance (owner : ℕ) (cr : Cred) : Decidable (ownerAllows owner cr) := inferInstanceAs (Decidable (_ ∨ _))

/-- `scull_w_available`, and the condition of `scull_u_open` -/
def UserSys.available (s : UserSys P) (cr : Cred) : Prop := s.count = 0 ∨ ownerAllows s.owner cr

instance (s : UserSys P) (cr : Cred) : Decidable (s.available cr) := inferInstanceAs (Decidable (_ ∨ _))

/-- the file is counted, and the device grabbed if it was free -/
def UserSys.grab (s : UserSys P) (p : P) (cr : Cred) (mode : FMode) : UserSys P :=
  { s with
    owner := if s.count = 0 then cr.uid else s.owner
    count := s.count + 1
    admitted := (⟨p, cr⟩, mode) :: s.admitted }

/-- the call goes on at `pc` -/
def UserSys.goTo (s : UserSys P) (c : UserCall P) (pc : WaitPc) : UserSys P :=
  { s with calls := { c with pc := pc } :: s.calls }

/-- the next step of call `c`, taken out of the list, under the credentials that its process has by then -/
def UserSys.goOn (which : UserDevice) (s : UserSys P) (c : UserCall P) (cr : Cred) (signal : Bool) : UserSys P :=
  match c.pc with
  | .locking =>
    if s.available cr then s.grab c.proc cr c.mode
    else
      match which with
      | .uid => s -- -EBUSY
      | .wuid => if c.nonblock then s else s.goTo c .waiting -- -EAGAIN
  | .waiting => s.goTo c (if s.count = 0 then .locking else .counted)
  | .counted =>
    if ownerAllows s.owner cr then s.goTo c .locking
    else if signal then s -- -ERESTARTSYS
    else s.goTo c .waiting

inductive UserAct (P : Type*) where
  | openFile (p : P) (mode : FMode) (nonblock : Bool)
  | goOn (c : UserCall P) (cr : Cred) (signal : Bool)
  /-- the trim of a write-only open, and the return -/
  | trim (h : Holder P) (mode : FMode)
  /-- `scull_u_release` or `scull_w_release`; who waits may test at any time, also after `wake_up` -/
  | release (h : Holder P)

/-- one step of a schedule; a process that cannot take it stays where it is -/
def UserSys.step [DecidableEq P] (which : UserDevice) (s : UserSys P) : UserAct P → UserSys P
  | .openFile p mode nonblock => { s with calls := ⟨p, .locking, nonblock, mode⟩ :: s.calls }
  | .goOn c cr signal => if c ∈ s.calls then { s with calls := s.calls.erase c }.goOn which c cr signal else s
  | .trim h mode =>
    if (h, mode) ∈ s.admitted then
      { s with
        dev := if mode.wronly then scullTrim s.dev s.par else s.dev
        admitted := s.admitted.erase (h, mode)
        files := h :: s.files }
    else s
  | .release h => if h ∈ s.files then { s with count := s.count - 1, files := s.files.erase h } else s

/-- the module is loaded -/
def UserSys.init (par : Params) : UserSys P where
  par := par
  dev := ⟨par.scullQset, par.scullQuantum, [], 0, 0⟩
  count := 0
  owner := 0
  calls := []
  admitted := []
  files := []

/-- the processes between their admission and their release -/
def UserSys.holders (s : UserSys P) : List (Holder P) := s.admitted.map Prod.fst ++ s.files

/-- the count is the number of holders, and the owner is a uid of each of them -/
structure OneUser (s : UserSys P) : Prop where
  count : s.count = s.holders.length
  owner : ∀ h ∈ s.holders, h.cred.capable = false → s.owner = h.cred.uid ∨ s.owner = h.cred.euid

theorem oneUser_init (par : Params) : OneUser (UserSys.init par : UserSys P) := ⟨rfl, fun _ h => by cases h⟩

section
variable [DecidableEq P] {which : UserDevice} {s : UserSys P}

omit [DecidableEq P] in
/-- only the count, the owner and the holders matter -/
theorem OneUser.of_eq {t : UserSys P} (h : OneUser s) (hc : t.count = s.count) (ho : t.owner = s.owner)
    (hh : t.holders = s.holders) : OneUser t := by
  constructor
  · rw [hc, hh]; exact h.count
  · rw [ho, hh]; exact h.owner

omit [DecidableEq P] in
/-- **Admission.** The first holder becomes the owner; a later one without CAP_DAC_OVERRIDE has the owner as a uid. -/
theorem oneUser_grab (h : OneUser s) {p : P} {cr : Cred} (ha : s.available cr) (mode : FMode) :
    OneUser (s.grab p cr mode) := by
  have hholders : (s.grab p cr mode).holders = ⟨p, cr⟩ :: s.holders := rfl
  constructor
  · rw [hholders, List.length_cons]
    simp only [UserSys.grab, h.count]
    push_cast; ring
  · intro k hk hcap
    rw [hholders] at hk
    simp only [UserSys.grab]
    by_cases hfree : s.count = 0
    · have hnone : s.holders = [] := List.length_eq_zero_iff.1 (by have := h.count; omega)
      rw [hnone, List.mem_singleton] at hk
      rw [if_pos hfree, hk]
      exact Or.inl rfl
    · rw [if_neg hfree]
      rcases List.mem_cons.1 hk with rfl | hold
      · rcases ha.resolve_left hfree with huid | heuid | hcapable
        · exact Or.inl huid
        · exact Or.inr heuid
        · rw [hcap] at hcapable; cases hcapable
      · exact h.owner k hold hcap

omit [DecidableEq P] in
/-- one step of a call admits it, or changes no more than its point -/
theorem goOn_cases (which : UserDevice) (s : UserSys P) (c : UserCall P) (cr : Cred) (signal : Bool) :
    s.available cr ∧ s.goOn which c cr signal = s.grab c.proc cr c.mode ∨
      ∃ calls, s.goOn which c cr signal = { s with calls := calls } := by
  unfold UserSys.goOn
  cases c.pc with
  | locking =>
    by_cases ha : s.available cr
    · exact Or.inl ⟨ha, if_pos ha⟩
    · apply Or.inr
      simp only [if_neg ha]
      cases which with
      | uid => exact ⟨_, rfl⟩
      | wuid =>
        simp only
        split_ifs
        · exact ⟨_, rfl⟩
        · exact ⟨_, rfl⟩
  | waiting => exact Or.inr ⟨_, rfl⟩
  | counted =>
    apply Or.inr
    simp only
    split_ifs
    · exact ⟨_, rfl⟩
    · exact ⟨_, rfl⟩
    · exact ⟨_, rfl⟩

/-- **One step** keeps the count and the owner right. -/
theorem oneUser_step (h : OneUser s) (a : UserAct P) : OneUser (s.step which a) := by
  cases a with
  | openFile p mode nonblock => exact h.of_eq rfl rfl rfl
  | goOn c cr signal =>
    simp only [UserSys.step]
    split_ifs
    · have hrest : OneUser { s with calls := s.calls.erase c } := h.of_eq rfl rfl rfl
      rcases goOn_cases which { s with calls := s.calls.erase c } c cr signal with ⟨ha, hg⟩ | ⟨calls, hg⟩
      · rw [hg]; exact oneUser_grab hrest ha c.mode
      · rw [hg]; exact hrest.of_eq rfl rfl rfl
    · exact h
  | trim k mode =>
    simp only [UserSys.step]
    by_cases hk : (k, mode) ∈ s.admitted
    · rw [if_pos hk]
      have hperm : (k :: s.files ++ (s.admitted.erase (k, mode)).map Prod.fst).Perm s.holders := by
        have hadm : ((k, mode) :: s.admitted.erase (k, mode)).Perm s.admitted := (List.perm_cons_erase hk).symm
        have hfst := hadm.map Prod.fst
        rw [List.map_cons] at hfst
        exact (List.perm_append_comm.cons k).trans (hfst.append_right s.files)
      have hholders := (List.perm_append_comm).trans hperm
      constructor
      · exact h.count.trans (congrArg Nat.cast hholders.length_eq).symm
      · intro j hj
        exact h.owner j (hholders.subset hj)
    · rw [if_neg hk]
      exact h
  | release k =>
    simp only [UserSys.step]
    split_ifs with hk
    · have hlen := List.length_erase_add_one hk
      constructor
      · have hcount := h.count
        simp only [UserSys.holders, List.length_append] at hcount ⊢
        push_cast at hcount ⊢
        omega
      · intro j hj
        apply h.owner j
        rcases List.mem_append.1 hj with hadm | hfile
        · exact List.mem_append_left _ hadm
        · exact List.mem_append_right _ (List.mem_of_mem_erase hfile)
    · exact h

/-- the owner is recorded by the first holder only -/
theorem owner_changes (h : OneUser s) (a : UserAct P) (hne : (s.step which a).owner ≠ s.owner) : s.holders = [] := by
  cases a with
  | openFile p mode nonblock => exact absurd rfl hne
  | goOn c cr signal =>
    simp only [UserSys.step] at hne
    split_ifs at hne
    · rcases goOn_cases which { s with calls := s.calls.erase c } c cr signal with ⟨-, hg⟩ | ⟨calls, hg⟩
      · rw [hg] at hne
        by_contra hsome
        have hpos : 0 < s.holders.length := List.length_pos_of_ne_nil hsome
        have hcount := h.count
        exact hne (if_neg (by simp only; omega))
      · rw [hg] at hne
        exact absurd rfl hne
    · exact absurd rfl hne
  | trim k mode =>
    simp only [UserSys.step] at hne
    split_ifs at hne <;> exact absurd rfl hne
  | release k =>
    simp only [UserSys.step] at hne
    split_ifs at hne <;> exact absurd rfl hne

/-- **Users are not mixed.** In every schedule the count is the number of holders, the owner is the real or effective uid
of every holder that was admitted without CAP_DAC_OVERRIDE, and a step changes the owner only when there are none. -/
theorem users_apart (which : UserDevice) (par : Params) (acts : List (UserAct P)) :
    let s := run (UserSys.step which) (UserSys.init par : UserSys P) acts
    s.count = s.holders.length ∧
      (∀ h ∈ s.holders, h.cred.capable = false → s.owner = h.cred.uid ∨ s.owner = h.cred.euid) ∧
      ∀ a, (s.step which a).owner ≠ s.owner → s.holders = [] := by
  intro s
  have hstep : ∀ (t : UserSys P) (a : UserAct P), OneUser t → OneUser (t.step which a) := fun _ a h => oneUser_step h a
  have h : OneUser s := run_keeps hstep (oneUser_init par) acts
  exact ⟨h.count, h.owner, fun a hne => owner_changes h a hne⟩

end

/-! ## The schedules with reads and writes -/

def UserDevice.device : UserDevice → AccDevice
  | .uid => .uid
  | .wuid => .wuid

/-- the opens, the files, the count and the owner of `s` are found in `u`; `u` may have calls more, that went away in `s` -/
structure Simulates (cred : ℕ → Cred) (s : AccSys) (u : UserSys ℕ) : Prop where
  count : u.count = s.count
  owner : u.owner = s.owner
  calls : ∀ p mode nonblock, s.pc p = .opening mode nonblock → ⟨p, .locking, nonblock, mode⟩ ∈ u.calls
  admitted : ∀ p mode, s.pc p = .admitted mode → (⟨p, cred p⟩, mode) ∈ u.admitted
  files : ∀ p, (s.files p).length ≤ u.files.count ⟨p, cred p⟩

section
variable {cred : ℕ → Cred} {s : AccSys} {u : UserSys ℕ} {p : ℕ}

theorem AccSys.pc_setPc {c d : AccPc} {q : ℕ} (h : (s.setPc p c).pc q = d) : q = p ∧ c = d ∨ q ≠ p ∧ s.pc q = d := by
  unfold AccSys.setPc at h
  by_cases hqp : q = p
  · rw [hqp] at h
    exact Or.inl ⟨hqp, (Function.update_self p c s.pc).symm.trans h⟩
  · exact Or.inr ⟨hqp, (Function.update_of_ne hqp c s.pc).symm.trans h⟩

/-- only the count, the owner, the files and the points matter -/
theorem Simulates.of_eq {t : AccSys} (h : Simulates cred s u) (hc : t.count = s.count) (ho : t.owner = s.owner)
    (hf : t.files = s.files) (hpc : t.pc = s.pc) : Simulates cred t u := by
  constructor
  · rw [hc]; exact h.count
  · rw [ho]; exact h.owner
  · rw [hpc]; exact h.calls
  · rw [hpc]; exact h.admitted
  · rw [hf]; exact h.files

/-- a process goes to a point that is in no open -/
theorem Simulates.setPc (h : Simulates cred s u) {c : AccPc} (hopening : ∀ mode nonblock, c ≠ .opening mode nonblock)
    (hadmitted : ∀ mode, c ≠ .admitted mode) : Simulates cred (s.setPc p c) u where
  count := h.count
  owner := h.owner
  calls q mode nonblock hq := by
    rcases AccSys.pc_setPc hq with ⟨-, hc⟩ | ⟨-, hold⟩
    · exact absurd hc (hopening _ _)
    · exact h.calls q mode nonblock hold
  admitted q mode hq := by
    rcases AccSys.pc_setPc hq with ⟨-, hc⟩ | ⟨-, hold⟩
    · exact absurd hc (hadmitted _)
    · exact h.admitted q mode hold
  files := h.files

/-- an open begins -/
theorem Simulates.openFile (h : Simulates cred s u) (which : UserDevice) (p : ℕ) (mode : FMode) (nonblock : Bool) :
    Simulates cred (s.setPc p (.opening mode nonblock)) (u.step which (.openFile p mode nonblock)) where
  count := h.count
  owner := h.owner
  calls q mode' nonblock' hq := by
    rcases AccSys.pc_setPc hq with ⟨rfl, hc⟩ | ⟨-, hold⟩
    · cases hc
      exact List.mem_cons_self
    · exact List.mem_cons_of_mem _ (h.calls q mode' nonblock' hold)
  admitted q mode' hq := by
    rcases AccSys.pc_setPc hq with ⟨-, hc⟩ | ⟨-, hold⟩
    · cases hc
    · exact h.admitted q mode' hold
  files := h.files

/-- an open is admitted on both sides, under the same condition -/
theorem Simulates.grab (h : Simulates cred s u) (which : UserDevice) {mode : FMode} {nonblock : Bool}
    (hp : s.pc p = .opening mode nonblock) (ha : s.available (cred p)) (signal : Bool) :
    Simulates cred ((s.grab (cred p)).setPc p (.admitted mode))
      (u.step which (.goOn ⟨p, .locking, nonblock, mode⟩ (cred p) signal)) := by
  have hcall := h.calls p mode nonblock hp
  have hau : { u with calls := u.calls.erase ⟨p, .locking, nonblock, mode⟩ }.available (cred p) := by
    unfold UserSys.available ownerAllows
    rw [h.count, h.owner]
    exact ha
  have hstep : u.step which (.goOn ⟨p, .locking, nonblock, mode⟩ (cred p) signal) =
      { u with calls := u.calls.erase ⟨p, .locking, nonblock, mode⟩ }.grab p (cred p) mode := by
    simp only [UserSys.step, if_pos hcall, UserSys.goOn, if_pos hau]
  rw [hstep]
  constructor
  · exact congrArg (· + 1) h.count
  · simp only [UserSys.grab, AccSys.grab, AccSys.setPc, h.count, h.owner]
  · intro q mode' nonblock' hq
    rcases AccSys.pc_setPc hq with ⟨-, hc⟩ | ⟨hne, hold⟩
    · cases hc
    · -- the call of another process stays
      refine (List.mem_erase_of_ne fun he => hne ?_).2 (h.calls q mode' nonblock' hold)
      exact congrArg UserCall.proc he
  · intro q mode' hq
    rcases AccSys.pc_setPc hq with ⟨rfl, hc⟩ | ⟨-, hold⟩
    · cases hc
      exact List.mem_cons_self
    · exact List.mem_cons_of_mem _ (h.admitted q mode' hold)
  · exact h.files

/-- an open is through -/
theorem Simulates.opened (h : Simulates cred s u) (which : UserDevice) {mode : FMode} (hp : s.pc p = .admitted mode) :
    Simulates cred (s.opened p mode) (u.step which (.trim ⟨p, cred p⟩ mode)) := by
  have hadm := h.admitted p mode hp
  have hstep : u.step which (.trim ⟨p, cred p⟩ mode) =
      { u with
        dev := if mode.wronly then scullTrim u.dev u.par else u.dev
        admitted := u.admitted.erase (⟨p, cred p⟩, mode)
        files := ⟨p, cred p⟩ :: u.files } := if_pos hadm
  rw [hstep]
  constructor
  · exact h.count
  · exact h.owner
  · intro q mode' nonblock' hq
    rcases AccSys.pc_setPc hq with ⟨-, hc⟩ | ⟨-, hold⟩
    · cases hc
    · exact h.calls q mode' nonblock' hold
  · intro q mode' hq
    rcases AccSys.pc_setPc hq with ⟨-, hc⟩ | ⟨hne, hold⟩
    · cases hc
    · refine (List.mem_erase_of_ne fun he => hne ?_).2 (h.admitted q mode' hold)
      exact congrArg (fun e => Holder.proc (Prod.fst e)) he
  · intro q
    have hfiles := h.files q
    simp only [AccSys.opened]
    by_cases hqp : q = p
    · subst hqp
      rw [Function.update_self, List.length_cons, List.count_cons_self]
      omega
    · rw [Function.update_of_ne hqp, List.count_cons_of_ne fun he => hqp (congrArg Holder.proc he).symm]
      exact hfiles

/-- a file is released -/
theorem Simulates.release (h : Simulates cred s u) (which : UserDevice) {mode : FMode} (hmode : mode ∈ s.files p) :
    Simulates cred { s with count := s.count - 1, files := Function.update s.files p ((s.files p).erase mode) }
      (u.step which (.release ⟨p, cred p⟩)) := by
  have hpos := List.length_pos_of_mem hmode
  have hmem : ⟨p, cred p⟩ ∈ u.files := List.count_pos_iff.1 (hpos.trans_le (h.files p))
  have hstep : u.step which (.release ⟨p, cred p⟩) =
      { u with count := u.count - 1, files := u.files.erase ⟨p, cred p⟩ } := if_pos hmem
  rw [hstep]
  constructor
  · exact congrArg (· - 1) h.count
  · exact h.owner
  · exact h.calls
  · exact h.admitted
  · intro q
    have hfiles := h.files q
    by_cases hqp : q = p
    · subst hqp
      simp only [Function.update_self, List.count_erase_self, List.length_erase_of_mem hmode]
      omega
    · simp only [Function.update_of_ne hqp]
      rw [List.count_erase_of_ne fun he => hqp (congrArg Holder.proc he)]
      exact hfiles

/-- **One step** with reads and writes is at most one step here. -/
theorem simulates_step (which : UserDevice) (h : Simulates cred s u) (a : AccAct) :
    ∃ acts, Simulates cred (s.step which.device cred a) (run (UserSys.step which) u acts) := by
  -- what is no step of an open or a release
  have stay : ∀ t, Simulates cred t u → ∃ acts, Simulates cred t (run (UserSys.step which) u acts) :=
    fun t ht => ⟨[], ht⟩
  have idle : ∀ q, Simulates cred (s.setPc q .idle) u := fun q => h.setPc (by simp) (by simp)
  cases a with
  | ioctl env cmd arg => exact stay _ (h.of_eq rfl rfl rfl rfl)
  | openFile q mode nonblock =>
    simp only [AccSys.step]
    split
    · exact ⟨[.openFile q mode nonblock], h.openFile which q mode nonblock⟩
    · exact stay _ h
  | call q r =>
    simp only [AccSys.step]
    split
    · split_ifs
      · exact stay _ (h.setPc (by simp) (by simp))
      · exact stay _ h
    · exact stay _ h
  | release q mode =>
    have hcounts : which.device = .uid ∨ which.device = .wuid := by
      cases which with
      | uid => exact Or.inl rfl
      | wuid => exact Or.inr rfl
    simp only [AccSys.step, if_pos hcounts]
    split
    · split_ifs with hmode
      · exact ⟨[.release ⟨q, cred q⟩], h.release which hmode⟩
      · exact stay _ h
    · exact stay _ h
  | goOn q kmalloc =>
    simp only [AccSys.step, AccSys.goOn]
    split
    · exact stay _ h
    · rename_i mode nonblock hq
      by_cases ha : s.available (cred q)
      · refine ⟨[.goOn ⟨q, .locking, nonblock, mode⟩ (cred q) false], ?_⟩
        have hlet : s.letIn which.device (cred q) kmalloc q mode nonblock =
            (s.grab (cred q)).setPc q (.admitted mode) := by
          cases which with
          | uid => exact if_pos ha
          | wuid => exact if_pos ha
        rw [hlet]
        exact h.grab which hq ha false
      · apply stay
        cases which with
        | uid =>
          simp only [UserDevice.device, AccSys.letIn, if_neg ha]
          exact idle q
        | wuid =>
          simp only [UserDevice.device, AccSys.letIn, if_neg ha]
          split_ifs
          · exact idle q
          · exact h
    · rename_i mode hq
      exact ⟨[.trim ⟨q, cred q⟩ mode], h.opened which hq⟩
    · split
      · exact stay _ h
      · exact stay _ (h.setPc (by simp) (by simp))
    · split_ifs
      · exact stay _ ((h.setPc (by simp) (by simp)).of_eq rfl rfl rfl rfl)
      · exact stay _ h
    · split
      · exact stay _ h
      · split
        · exact stay _ (h.setPc (by simp) (by simp))
        · exact stay _ ((idle q).of_eq rfl rfl rfl rfl)
    · exact stay _ h
  | interrupt q =>
    simp only [AccSys.step]
    split
    · exact stay _ (idle q)
    · split_ifs
      · exact stay _ (idle q)
      · exact stay _ h
    · exact stay _ h

end

/-- **The schedules with reads and writes** are, for the count and the owner, schedules of the opens and releases: a
process that is admitted or has a file is a holder there, and so has the owner as a uid or may override. -/
theorem access_simulated (which : UserDevice) (cred : ℕ → Cred) (par : Params) (acts : List AccAct) :
    let s := run (AccSys.step which.device cred) (AccSys.init which.device par) acts
    (∃ acts', Simulates cred s (run (UserSys.step which) (UserSys.init par) acts')) ∧
      ∀ p, (s.files p ≠ [] ∨ ∃ mode, s.pc p = .admitted mode) → ownerAllows s.owner (cred p) := by
  intro s
  have hinit : Simulates cred (AccSys.init which.device par) (UserSys.init par) :=
    ⟨rfl, rfl, fun _ _ _ h => (by cases h), fun _ _ h => (by cases h), fun _ => Nat.zero_le _⟩
  have hstep : ∀ (t : AccSys) (a : AccAct),
      (∃ acts', Simulates cred t (run (UserSys.step which) (UserSys.init par) acts')) →
        ∃ acts', Simulates cred (t.step which.device cred a) (run (UserSys.step which) (UserSys.init par) acts') := by
    rintro t a ⟨past, ht⟩
    obtain ⟨more, hmore⟩ := simulates_step which ht a
    rw [← run_append] at hmore
    exact ⟨past ++ more, hmore⟩
  have hsim : ∃ acts', Simulates cred s (run (UserSys.step which) (UserSys.init par) acts') :=
    run_keeps hstep ⟨[], hinit⟩ acts
  refine ⟨hsim, fun p hp => ?_⟩
  obtain ⟨acts', h⟩ := hsim
  have hkeeps : ∀ (t : UserSys ℕ) (a : UserAct ℕ), OneUser t → OneUser (t.step which a) := fun _ a ht => oneUser_step ht a
  have hone : OneUser (run (UserSys.step which) (UserSys.init par : UserSys ℕ) acts') :=
    run_keeps hkeeps (oneUser_init par) acts'
  -- the process is a holder
  have hholder : ⟨p, cred p⟩ ∈ (run (UserSys.step which) (UserSys.init par : UserSys ℕ) acts').holders := by
    rcases hp with hfile | ⟨mode, hadm⟩
    · exact List.mem_append_right _ (List.count_pos_iff.1 ((List.length_pos_of_ne_nil hfile).trans_le (h.files p)))
    · exact List.mem_append_left _ (List.mem_map_of_mem (h.admitted p mode hadm))
  rw [← h.owner]
  by_cases hcap : (cred p).capable = true
  · exact Or.inr (Or.inr hcap)
  · rcases hone.owner _ hholder (eq_false_of_ne_true hcap) with huid | heuid
    · exact Or.inl huid
    · exact Or.inr (Or.inl heuid)

end AtsLdd.Scull
