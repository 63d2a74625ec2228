/-
The private device (access.c): one bare device for each terminal, made at the first open from it and never freed.

A run is any list of calls of any processes; a process keeps its terminal, if it has one. The items of `scull_c_list`
are told apart by their addresses, and `private_data` of a file is the address that its open found. A process that a fault
stops inside a call never gives the semaphore of its device back, and a call that would wait for it returns when a signal
comes. The two module parameters are unchanged during a run.

- `TermSys`: what one terminal has for itself, a device and the files of its processes;
- `separates`: seen from one terminal, every call of its processes is one on its own machine, and no others are seen;
- `private_isolated`: in every run the list has at most one item for a key, the opens from one terminal reach one item,
  and the answers to its processes are those of the run without the calls of all others.
-/
import AtsLdd.Core.Separation
import AtsLdd.Scull.Access

namespace AtsLdd.Scull

open AtsLdd.Machine AtsLdd.Run AtsLdd.Separation

def EBADF : ℤ := 9
def ERESTARTSYS : ℤ := 512

/-! ## A call through an open file -/

/-- a call of `scull_read`, `scull_write` or `scull_llseek` -/
inductive FileCall where
  | reads (count copied : ℕ)
  | writes (buf : List UInt8) (mem : ℕ → Bool) (copied : ℕ)
  | llseek (off whence : ℤ)

/-- a device, and whether a process that a fault stopped has its semaphore -/
structure SemDev where
  dev : ScullDev
  stuck : Bool
deriving DecidableEq

/-- what a call leaves: the device, the file position and the answer -/
structure CallEnd where
  device : SemDev
  fpos : ℤ
  res : Res

/-- the call under the semaphore of a device; the VFS checks the mode of the file first -/
def FileCall.exec (d : SemDev) (mode : FMode) (fpos : ℤ) : FileCall → CallEnd
  | .reads count copied =>
    if mode.read = false then ⟨d, fpos, .ret (- EBADF) []⟩
    else if d.stuck then ⟨d, fpos, .ret (- ERESTARTSYS) []⟩
    else
      match scullRead d.dev d.dev.mQset d.dev.nQuantum count fpos copied with
      | .error e => ⟨⟨d.dev, true⟩, fpos, .oops e⟩
      | .ok (ret, out, fpos) => ⟨d, fpos, .ret ret out⟩
  | .writes buf mem copied =>
    if mode.write = false then ⟨d, fpos, .ret (- EBADF) []⟩
    else if d.stuck then ⟨d, fpos, .ret (- ERESTARTSYS) []⟩
    else
      match scullWrite mem d.dev d.dev.mQset d.dev.nQuantum buf fpos copied with
      | .error e => ⟨⟨d.dev, true⟩, fpos, .oops e⟩
      | .ok (ret, dev, fpos) => ⟨⟨dev, d.stuck⟩, fpos, .ret ret []⟩
  | .llseek off whence =>
    let ret := scullLlseek d.dev fpos off whence
    ⟨d, if ret < 0 then fpos else ret, .ret ret []⟩

/-- whether the process is stopped -/
def Res.stops : Res → Bool
  | .ret _ _ => false
  | .oops _ => true

/-! ## The list of devices -/

/-- `struct scull_listitem` -/
structure ListItem where
  device : SemDev
  key : ℕ

structure PrivFile where
  /-- `private_data`: the address of an item -/
  item : ℕ
  mode : FMode
  fpos : ℤ

structure PrivSys where
  par : Params
  /-- `scull_c_list`: the addresses of the items, the newest first -/
  list : List ℕ
  heap : ℕ → ListItem
  /-- of a process and a descriptor -/
  files : ℕ → ℕ → Option PrivFile
  /-- the processes that a fault stopped -/
  dead : ℕ → Bool

/-- `list_for_each_entry` of `scull_c_lookfor_device` -/
def PrivSys.lookfor (s : PrivSys) (key : ℕ) : Option ℕ := s.list.find? fun a => (s.heap a).key = key

/-- a new item, at an address that no other has, with its zeroed device trimmed -/
def PrivSys.listAdd (s : PrivSys) (key : ℕ) : PrivSys :=
  { s with
    list := s.list.length :: s.list
    heap := Function.update s.heap s.list.length ⟨⟨scullTrim ⟨0, 0, [], 0, 0⟩ s.par, false⟩, key⟩ }

/-- `scull_c_lookfor_device` -/
def PrivSys.lookforDevice (s : PrivSys) (kmalloc : Bool) (key : ℕ) : Option ℕ × PrivSys :=
  match s.lookfor key with
  | some a => (some a, s)
  | none => if kmalloc then (some s.list.length, s.listAdd key) else (none, s)

/-- the item at `a` with another device -/
def PrivSys.setDevice (s : PrivSys) (a : ℕ) (d : SemDev) : PrivSys :=
  { s with heap := Function.update s.heap a ⟨d, (s.heap a).key⟩ }

/-- the descriptor `fd` of process `p` -/
def setFile {α : Type*} (files : ℕ → ℕ → Option α) (p fd : ℕ) (f : Option α) : ℕ → ℕ → Option α :=
  Function.update files p (Function.update (files p) fd f)

def PrivSys.putFile (s : PrivSys) (p fd : ℕ) (f : Option PrivFile) : PrivSys :=
  { s with files := setFile s.files p fd f }

/-- process `p` is stopped if its call was -/
def PrivSys.stopIf (s : PrivSys) (p : ℕ) (stops : Bool) : PrivSys := { s with dead := Function.update s.dead p stops }

/-- the end of `scull_c_open`: a write-only open trims, and `private_data` is set -/
def PrivSys.opened (s : PrivSys) (p fd : ℕ) (mode : FMode) (a : ℕ) : PrivSys :=
  let d := (s.heap a).device
  (s.setDevice a ⟨scullOpen d.dev s.par mode.wronly, d.stuck⟩).putFile p fd (some ⟨a, mode, 0⟩)

/-- a call of a process; an open gets a descriptor, which is closed first if it is in use -/
inductive PrivOp where
  | opens (p fd : ℕ) (mode : FMode) (kmalloc : Bool)
  | call (p fd : ℕ) (c : FileCall)
  | release (p fd : ℕ)

def PrivOp.proc : PrivOp → ℕ
  | .opens p _ _ _ => p
  | .call p _ _ => p
  | .release p _ => p

/-- `scull_c_open` -/
def PrivSys.cOpen (tty : ℕ → Option ℕ) (s : PrivSys) (p fd : ℕ) (mode : FMode) (kmalloc : Bool) : PrivSys × Res :=
  match tty p with
  | none => (s, .ret (- EINVAL) [])
  | some key =>
    match s.lookforDevice kmalloc key with
    | (none, s) => (s, .ret (- ENOMEM) [])
    | (some a, s) => (s.opened p fd mode a, .ret 0 [])

/-- a call through a descriptor -/
def PrivSys.call (s : PrivSys) (p fd : ℕ) (c : FileCall) : PrivSys × Res :=
  match s.files p fd with
  | none => (s, .ret (- EBADF) [])
  | some f =>
    let e := c.exec (s.heap f.item).device f.mode f.fpos
    (((s.setDevice f.item e.device).putFile p fd (some { f with fpos := e.fpos })).stopIf p e.res.stops, e.res)

/-- `scull_c_release` does nothing -/
def PrivSys.release (s : PrivSys) (p fd : ℕ) : PrivSys × Res :=
  match s.files p fd with
  | none => (s, .ret (- EBADF) [])
  | some _ => (s.putFile p fd none, .ret 0 [])

/-- one call of a run, with its answer; a process that was stopped makes none -/
def PrivSys.step (tty : ℕ → Option ℕ) (s : PrivSys) (o : PrivOp) : PrivSys × Option Res :=
  if s.dead o.proc then (s, none)
  else
    match o with
    | .opens p fd mode kmalloc => Prod.map id some (s.cOpen tty p fd mode kmalloc)
    | .call p fd c => Prod.map id some (s.call p fd c)
    | .release p fd => Prod.map id some (s.release p fd)

/-- the module is loaded -/
def PrivSys.init (par : Params) : PrivSys :=
  ⟨par, [], fun _ => ⟨⟨⟨0, 0, [], 0, 0⟩, false⟩, 0⟩, fun _ _ => none, fun _ => false⟩

/-- the calls of the processes on a terminal -/
def onTerminal (tty : ℕ → Option ℕ) (key : ℕ) (o : PrivOp) : Bool := tty o.proc = some key

/-! ## One terminal -/

/-- what a terminal has: its device, once there is one, and the files of its processes -/
structure TermSys where
  par : Params
  device : Option SemDev
  files : ℕ → ℕ → Option (FMode × ℤ)
  dead : ℕ → Bool

/-- an open from the terminal -/
def TermSys.cOpen (t : TermSys) (p fd : ℕ) (mode : FMode) (kmalloc : Bool) : TermSys × Res :=
  let stuck := t.device.any SemDev.stuck
  match lookforDevice t.par kmalloc (t.device.map SemDev.dev) with
  | none => (t, .ret (- ENOMEM) [])
  | some dev =>
    ({ t with
      device := some ⟨scullOpen dev t.par mode.wronly, stuck⟩
      files := setFile t.files p fd (some (mode, 0)) }, .ret 0 [])

/-- a call through a descriptor -/
def TermSys.call (t : TermSys) (p fd : ℕ) (c : FileCall) : TermSys × Res :=
  match t.device, t.files p fd with
  | some d, some (mode, fpos) =>
    let e := c.exec d mode fpos
    ({ t with
      device := some e.device
      files := setFile t.files p fd (some (mode, e.fpos))
      dead := Function.update t.dead p e.res.stops }, e.res)
  | _, _ => (t, .ret (- EBADF) [])

def TermSys.release (t : TermSys) (p fd : ℕ) : TermSys × Res :=
  match t.files p fd with
  | none => (t, .ret (- EBADF) [])
  | some _ => ({ t with files := setFile t.files p fd none }, .ret 0 [])

/-- one call of a process on the terminal -/
def TermSys.step (t : TermSys) (o : PrivOp) : TermSys × Option Res :=
  if t.dead o.proc then (t, none)
  else
    match o with
    | .opens p fd mode kmalloc => Prod.map id some (t.cOpen p fd mode kmalloc)
    | .call p fd c => Prod.map id some (t.call p fd c)
    | .release p fd => Prod.map id some (t.release p fd)

/-- what a terminal has of the whole -/
def PrivSys.ofTerminal (tty : ℕ → Option ℕ) (key : ℕ) (s : PrivSys) : TermSys where
  par := s.par
  device := (s.lookfor key).map fun a => (s.heap a).device
  files := fun p fd => if tty p = some key then (s.files p fd).map fun f => (f.mode, f.fpos) else none
  dead := fun p => if tty p = some key then s.dead p else false

/-! ## The list -/

/-- the list has one item for a key, and a file has the item of the terminal it was opened from -/
structure PrivInv (tty : ℕ → Option ℕ) (s : PrivSys) : Prop where
  keys : (s.list.map fun a => (s.heap a).key).Nodup
  below : ∀ a ∈ s.list, a < s.list.length
  reach : ∀ p fd f, s.files p fd = some f → ∃ key, tty p = some key ∧ s.lookfor key = some f.item

/-- the ways `scull_c_lookfor_device` ends -/
inductive LookedFor (s : PrivSys) (kmalloc : Bool) (key : ℕ) : Option ℕ × PrivSys → Prop
  | found {a : ℕ} : s.lookfor key = some a → LookedFor s kmalloc key (some a, s)
  | made : s.lookfor key = none → kmalloc = true → LookedFor s kmalloc key (some s.list.length, s.listAdd key)
  | nomem : s.lookfor key = none → kmalloc = false → LookedFor s kmalloc key (none, s)

section
variable {tty : ℕ → Option ℕ} {s : PrivSys} {key a : ℕ}

theorem lookforDevice_spec (s : PrivSys) (kmalloc : Bool) (key : ℕ) :
    LookedFor s kmalloc key (s.lookforDevice kmalloc key) := by
  unfold PrivSys.lookforDevice
  cases h : s.lookfor key with
  | some a => exact .found h
  | none =>
    cases kmalloc with
    | true => exact .made h rfl
    | false => exact .nomem h rfl

theorem lookfor_spec (h : s.lookfor key = some a) : a ∈ s.list ∧ (s.heap a).key = key :=
  ⟨List.mem_of_find?_eq_some h, by simpa using List.find?_some h⟩

/-- two keys do not have one item -/
theorem lookfor_inj {key' : ℕ} (h : s.lookfor key = some a) (h' : s.lookfor key' = some a) : key = key' :=
  (lookfor_spec h).2.symm.trans (lookfor_spec h').2

/-- the search depends on the addresses and the keys of the list only -/
theorem lookfor_congr {t : PrivSys} (hlist : t.list = s.list) (hkeys : ∀ a ∈ s.list, (t.heap a).key = (s.heap a).key) :
    t.lookfor key = s.lookfor key := by
  unfold PrivSys.lookfor
  rw [hlist]
  refine List.find?_congr fun a ha => ?_
  rw [hkeys a ha]

@[simp] theorem heap_setDevice (s : PrivSys) (a : ℕ) (d : SemDev) :
    (s.setDevice a d).heap a = ⟨d, (s.heap a).key⟩ := Function.update_self ..

theorem heap_setDevice_ne (s : PrivSys) (d : SemDev) {b : ℕ} (hb : b ≠ a) : (s.setDevice a d).heap b = s.heap b :=
  Function.update_of_ne hb ..

@[simp] theorem heap_listAdd (s : PrivSys) (key : ℕ) :
    (s.listAdd key).heap s.list.length = ⟨⟨scullTrim ⟨0, 0, [], 0, 0⟩ s.par, false⟩, key⟩ := Function.update_self ..

theorem heap_listAdd_of_mem (h : PrivInv tty s) (key : ℕ) {b : ℕ} (hb : b ∈ s.list) :
    (s.listAdd key).heap b = s.heap b := Function.update_of_ne (h.below b hb).ne ..

theorem setDevice_key (s : PrivSys) (a : ℕ) (d : SemDev) (b : ℕ) : ((s.setDevice a d).heap b).key = (s.heap b).key := by
  by_cases hb : b = a
  · rw [hb, heap_setDevice]
  · rw [heap_setDevice_ne s d hb]

@[simp] theorem lookfor_setDevice (s : PrivSys) (a : ℕ) (d : SemDev) : (s.setDevice a d).lookfor key = s.lookfor key :=
  lookfor_congr rfl fun b _ => setDevice_key s a d b

/-- a new item is found under its key, and hides no other one -/
theorem lookfor_listAdd (h : PrivInv tty s) (key key' : ℕ) :
    (s.listAdd key).lookfor key' = if key' = key then some s.list.length else s.lookfor key' := by
  change (s.list.length :: s.list).find? _ = _
  by_cases hk : key' = key
  · rw [if_pos hk, List.find?_cons_of_pos]
    rw [heap_listAdd, hk, decide_eq_true_eq]
  · rw [if_neg hk, List.find?_cons_of_neg]
    · refine List.find?_congr fun b hb => ?_
      rw [heap_listAdd_of_mem h key hb]
    · rw [heap_listAdd, decide_eq_true_eq]
      intro he
      exact hk he.symm

theorem PrivInv.setDevice (h : PrivInv tty s) (a : ℕ) (d : SemDev) : PrivInv tty (s.setDevice a d) where
  keys := by
    simp only [setDevice_key]
    exact h.keys
  below := h.below
  reach p fd f hf := by
    obtain ⟨key, hkey, hitem⟩ := h.reach p fd f hf
    exact ⟨key, hkey, (lookfor_setDevice s a d).trans hitem⟩

theorem PrivInv.listAdd (h : PrivInv tty s) (hnew : s.lookfor key = none) : PrivInv tty (s.listAdd key) where
  keys := by
    have hold : s.list.map (fun b => ((s.listAdd key).heap b).key) = s.list.map fun b => (s.heap b).key := by
      apply List.map_congr_left
      intro b hb
      rw [heap_listAdd_of_mem h key hb]
    change ((s.list.length :: s.list).map fun b => ((s.listAdd key).heap b).key).Nodup
    rw [List.map_cons, hold, heap_listAdd, List.nodup_cons]
    refine ⟨fun hmem => ?_, h.keys⟩
    obtain ⟨b, hb, hkey⟩ := List.mem_map.1 hmem
    exact absurd hkey (by simpa using List.find?_eq_none.1 hnew b hb)
  below b hb := by
    rcases List.mem_cons.1 hb with rfl | hb
    · exact Nat.lt_succ_self _
    · exact (h.below b hb).trans (Nat.lt_succ_self _)
  reach p fd f hf := by
    obtain ⟨key', hkey, hitem⟩ := h.reach p fd f hf
    refine ⟨key', hkey, ?_⟩
    rw [lookfor_listAdd h, if_neg]
    · exact hitem
    · rintro rfl
      rw [hnew] at hitem
      exact absurd hitem (by simp)

theorem setFile_apply {α : Type*} (files : ℕ → ℕ → Option α) (p fd : ℕ) (f : Option α) (q fd' : ℕ) :
    setFile files p fd f q fd' = if q = p ∧ fd' = fd then f else files q fd' := by
  unfold setFile
  by_cases hq : q = p
  · subst hq
    by_cases hfd : fd' = fd
    · rw [hfd, if_pos ⟨rfl, rfl⟩, Function.update_self, Function.update_self]
    · rw [if_neg fun h => hfd h.2, Function.update_self, Function.update_of_ne hfd]
  · rw [if_neg fun h => hq h.1, Function.update_of_ne hq]

/-- a file is closed, or has the item of its terminal -/
theorem PrivInv.putFile (h : PrivInv tty s) (p fd : ℕ) {f : Option PrivFile}
    (hf : ∀ g, f = some g → ∃ key, tty p = some key ∧ s.lookfor key = some g.item) :
    PrivInv tty (s.putFile p fd f) where
  keys := h.keys
  below := h.below
  reach q fd' g hg := by
    change setFile s.files p fd f q fd' = some g at hg
    rw [setFile_apply] at hg
    split_ifs at hg with hat
    · rw [hat.1]
      exact hf g hg
    · exact h.reach q fd' g hg

theorem PrivInv.stopIf (h : PrivInv tty s) (p : ℕ) (stops : Bool) : PrivInv tty (s.stopIf p stops) :=
  ⟨h.keys, h.below, h.reach⟩

theorem PrivInv.opened (h : PrivInv tty s) {p : ℕ} (hp : tty p = some key) (ha : s.lookfor key = some a) (fd : ℕ)
    (mode : FMode) : PrivInv tty (s.opened p fd mode a) := by
  refine (h.setDevice a _).putFile p fd fun g hg => ⟨key, hp, ?_⟩
  obtain rfl := Option.some.inj hg
  exact (lookfor_setDevice s a _).trans ha

end

/-! ## What one terminal sees of a change -/

section
variable {tty : ℕ → Option ℕ} {s : PrivSys} {key a p : ℕ}

/-- the device of the terminal is replaced -/
theorem ofTerminal_setDevice (ha : s.lookfor key = some a) (d : SemDev) :
    (s.setDevice a d).ofTerminal tty key = { s.ofTerminal tty key with device := some d } := by
  unfold PrivSys.ofTerminal
  rw [lookfor_setDevice, ha, Option.map_some, heap_setDevice]
  rfl

/-- the device of another terminal is replaced -/
theorem ofTerminal_setDevice_other {key' : ℕ} (ha : s.lookfor key' = some a) (hne : key' ≠ key) (d : SemDev) :
    (s.setDevice a d).ofTerminal tty key = s.ofTerminal tty key := by
  unfold PrivSys.ofTerminal
  rw [lookfor_setDevice]
  cases hb : s.lookfor key with
  | none => rfl
  | some b =>
    have hab : b ≠ a := by
      rintro rfl
      exact hne (lookfor_inj ha hb)
    rw [Option.map_some, Option.map_some, heap_setDevice_ne s d hab]
    rfl

/-- a new item is the device of its own terminal -/
theorem ofTerminal_listAdd (h : PrivInv tty s) : (s.listAdd key).ofTerminal tty key =
    { s.ofTerminal tty key with device := some ⟨scullTrim ⟨0, 0, [], 0, 0⟩ s.par, false⟩ } := by
  unfold PrivSys.ofTerminal
  rw [lookfor_listAdd h, if_pos rfl, Option.map_some, heap_listAdd]
  rfl

theorem ofTerminal_listAdd_other (h : PrivInv tty s) {key' : ℕ} (hne : key' ≠ key) :
    (s.listAdd key').ofTerminal tty key = s.ofTerminal tty key := by
  unfold PrivSys.ofTerminal
  rw [lookfor_listAdd h, if_neg hne.symm]
  cases hb : s.lookfor key with
  | none => rfl
  | some b =>
    rw [Option.map_some, Option.map_some, heap_listAdd_of_mem h key' (lookfor_spec hb).1]
    rfl

theorem ofTerminal_putFile (hp : tty p = some key) (fd : ℕ) (f : Option PrivFile) :
    (s.putFile p fd f).ofTerminal tty key = { s.ofTerminal tty key with
      files := setFile (s.ofTerminal tty key).files p fd (f.map fun f => (f.mode, f.fpos)) } := by
  unfold PrivSys.ofTerminal PrivSys.putFile
  congr 1
  funext q fd'
  simp only [setFile_apply]
  by_cases hat : q = p ∧ fd' = fd
  · rw [if_pos hat, if_pos hat, hat.1, if_pos hp]
  · rw [if_neg hat, if_neg hat]

theorem ofTerminal_putFile_other (hp : tty p ≠ some key) (fd : ℕ) (f : Option PrivFile) :
    (s.putFile p fd f).ofTerminal tty key = s.ofTerminal tty key := by
  unfold PrivSys.ofTerminal PrivSys.putFile
  congr 1
  funext q fd'
  dsimp only
  by_cases hq : tty q = some key
  · have hqp : ¬ (q = p ∧ fd' = fd) := fun h => hp (h.1 ▸ hq)
    rw [if_pos hq, if_pos hq, setFile_apply, if_neg hqp]
  · rw [if_neg hq, if_neg hq]

theorem ofTerminal_stopIf (hp : tty p = some key) (stops : Bool) : (s.stopIf p stops).ofTerminal tty key =
    { s.ofTerminal tty key with dead := Function.update (s.ofTerminal tty key).dead p stops } := by
  unfold PrivSys.ofTerminal PrivSys.stopIf
  congr 1
  funext q
  dsimp only
  by_cases hq : q = p
  · rw [hq, if_pos hp, Function.update_self, Function.update_self]
  · rw [Function.update_of_ne hq, Function.update_of_ne hq]

theorem ofTerminal_stopIf_other (hp : tty p ≠ some key) (stops : Bool) :
    (s.stopIf p stops).ofTerminal tty key = s.ofTerminal tty key := by
  unfold PrivSys.ofTerminal PrivSys.stopIf
  congr 1
  funext q
  dsimp only
  by_cases hq : tty q = some key
  · have hqp : q ≠ p := fun h => hp (h ▸ hq)
    rw [if_pos hq, if_pos hq, Function.update_of_ne hqp]
  · rw [if_neg hq, if_neg hq]

end

/-! ## One call -/

/-- the ways `scull_c_open` ends -/
inductive Opened (tty : ℕ → Option ℕ) (s : PrivSys) (p fd : ℕ) (mode : FMode) (kmalloc : Bool) : PrivSys × Res → Prop
  | noTty : tty p = none → Opened tty s p fd mode kmalloc (s, .ret (- EINVAL) [])
  | nomem {key : ℕ} : tty p = some key → s.lookfor key = none → kmalloc = false →
      Opened tty s p fd mode kmalloc (s, .ret (- ENOMEM) [])
  | found {key a : ℕ} : tty p = some key → s.lookfor key = some a →
      Opened tty s p fd mode kmalloc (s.opened p fd mode a, .ret 0 [])
  | made {key : ℕ} : tty p = some key → s.lookfor key = none → kmalloc = true →
      Opened tty s p fd mode kmalloc ((s.listAdd key).opened p fd mode s.list.length, .ret 0 [])

section
variable {tty : ℕ → Option ℕ} {s : PrivSys} {key : ℕ}

theorem cOpen_spec (tty : ℕ → Option ℕ) (s : PrivSys) (p fd : ℕ) (mode : FMode) (kmalloc : Bool) :
    Opened tty s p fd mode kmalloc (s.cOpen tty p fd mode kmalloc) := by
  unfold PrivSys.cOpen
  cases hp : tty p with
  | none => exact .noTty hp
  | some key =>
    simp only
    have hspec := lookforDevice_spec s kmalloc key
    revert hspec
    generalize s.lookforDevice kmalloc key = r
    intro hspec
    cases hspec with
    | found ha => exact .found hp ha
    | made hnone hk => exact .made hp hnone hk
    | nomem hnone hk => exact .nomem hp hnone hk

/-- a new item is found under its key -/
theorem lookfor_listAdd_self (h : PrivInv tty s) : (s.listAdd key).lookfor key = some s.list.length := by
  rw [lookfor_listAdd h, if_pos rfl]

/-- what is found in the list stays where it is -/
def Kept (s t : PrivSys) : Prop := ∀ key a, s.lookfor key = some a → t.lookfor key = some a

theorem kept_opened (s : PrivSys) (p fd : ℕ) (mode : FMode) (a : ℕ) : Kept s (s.opened p fd mode a) := by
  intro key b hb
  exact (lookfor_setDevice s a _).trans hb

theorem kept_listAdd (h : PrivInv tty s) (hnew : s.lookfor key = none) : Kept s (s.listAdd key) := by
  intro key' b hb
  rw [lookfor_listAdd h, if_neg]
  · exact hb
  · rintro rfl
    rw [hnew] at hb
    exact absurd hb (by simp)

theorem inv_cOpen (h : PrivInv tty s) (p fd : ℕ) (mode : FMode) (kmalloc : Bool) :
    PrivInv tty (s.cOpen tty p fd mode kmalloc).1 ∧ Kept s (s.cOpen tty p fd mode kmalloc).1 := by
  have hspec := cOpen_spec tty s p fd mode kmalloc
  generalize s.cOpen tty p fd mode kmalloc = r at hspec ⊢
  cases hspec with
  | noTty _ => exact ⟨h, fun _ _ hb => hb⟩
  | nomem _ _ _ => exact ⟨h, fun _ _ hb => hb⟩
  | found hp ha => exact ⟨h.opened hp ha fd mode, kept_opened s p fd mode _⟩
  | made hp hnone _ =>
    refine ⟨(h.listAdd hnone).opened hp (lookfor_listAdd_self h) fd mode, fun key' b hb => ?_⟩
    exact kept_opened _ p fd mode _ key' b (kept_listAdd h hnone key' b hb)

theorem inv_call (h : PrivInv tty s) (p fd : ℕ) (c : FileCall) :
    PrivInv tty (s.call p fd c).1 ∧ Kept s (s.call p fd c).1 := by
  unfold PrivSys.call
  cases hf : s.files p fd with
  | none => exact ⟨h, fun _ _ hb => hb⟩
  | some f =>
    obtain ⟨key, hkey, hitem⟩ := h.reach p fd f hf
    refine ⟨((h.setDevice f.item _).putFile p fd fun g hg => ⟨key, hkey, ?_⟩).stopIf p _, fun key' b hb => ?_⟩
    · obtain rfl := Option.some.inj hg
      exact (lookfor_setDevice s f.item _).trans hitem
    · exact (lookfor_setDevice s f.item _).trans hb

theorem inv_release (h : PrivInv tty s) (p fd : ℕ) :
    PrivInv tty (s.release p fd).1 ∧ Kept s (s.release p fd).1 := by
  unfold PrivSys.release
  cases s.files p fd with
  | none => exact ⟨h, fun _ _ hb => hb⟩
  | some f => exact ⟨h.putFile p fd fun g hg => absurd hg (by simp), fun _ _ hb => hb⟩

/-- **One call** keeps the list and the files in order, and moves no item. -/
theorem inv_step (h : PrivInv tty s) (o : PrivOp) :
    PrivInv tty (next (PrivSys.step tty) s o) ∧ Kept s (next (PrivSys.step tty) s o) := by
  unfold next PrivSys.step
  by_cases hdead : s.dead o.proc = true
  · rw [if_pos hdead]
    exact ⟨h, fun _ _ hb => hb⟩
  · rw [if_neg hdead]
    cases o with
    | opens p fd mode kmalloc => exact inv_cOpen h p fd mode kmalloc
    | call p fd c => exact inv_call h p fd c
    | release p fd => exact inv_release h p fd

/-! ## One call, seen from a terminal -/

/-- the device of a terminal that has an item -/
theorem ofTerminal_device {a : ℕ} (ha : s.lookfor key = some a) :
    (s.ofTerminal tty key).device = some (s.heap a).device := by
  change (s.lookfor key).map _ = _
  rw [ha]
  rfl

theorem ofTerminal_opened {p a : ℕ} (hp : tty p = some key) (ha : s.lookfor key = some a) (fd : ℕ) (mode : FMode) :
    (s.opened p fd mode a).ofTerminal tty key = { s.ofTerminal tty key with
      device := some ⟨scullOpen (s.heap a).device.dev s.par mode.wronly, (s.heap a).device.stuck⟩
      files := setFile (s.ofTerminal tty key).files p fd (some (mode, 0)) } := by
  unfold PrivSys.opened
  rw [ofTerminal_putFile hp, ofTerminal_setDevice ha]
  rfl

theorem own_cOpen (h : PrivInv tty s) {p : ℕ} (hp : tty p = some key) (fd : ℕ) (mode : FMode) (kmalloc : Bool) :
    (s.ofTerminal tty key).cOpen p fd mode kmalloc =
      ((s.cOpen tty p fd mode kmalloc).1.ofTerminal tty key, (s.cOpen tty p fd mode kmalloc).2) := by
  have hkey : ∀ {key'}, tty p = some key' → key' = key := fun h => Option.some.inj (h.symm.trans hp)
  unfold TermSys.cOpen
  have hspec := cOpen_spec tty s p fd mode kmalloc
  generalize s.cOpen tty p fd mode kmalloc = r at hspec ⊢
  cases hspec with
  | noTty hnone => exact absurd (hnone.symm.trans hp) (by simp)
  | nomem hp' hnone hk =>
    rw [hkey hp'] at hnone
    have hdev : (s.ofTerminal tty key).device = none := by
      change (s.lookfor key).map _ = none
      rw [hnone]
      rfl
    rw [hdev, hk]
    rfl
  | found hp' ha =>
    obtain rfl := hkey hp'
    rw [ofTerminal_opened hp ha, ofTerminal_device ha]
    rfl
  | made hp' hnone hk =>
    rw [hkey hp'] at hnone ⊢
    have hdev : (s.ofTerminal tty key).device = none := by
      change (s.lookfor key).map _ = none
      rw [hnone]
      rfl
    rw [ofTerminal_opened hp (lookfor_listAdd_self h), ofTerminal_listAdd h, heap_listAdd, hdev, hk]
    rfl

theorem own_call (h : PrivInv tty s) {p : ℕ} (hp : tty p = some key) (fd : ℕ) (c : FileCall) :
    (s.ofTerminal tty key).call p fd c = ((s.call p fd c).1.ofTerminal tty key, (s.call p fd c).2) := by
  have hfile : (s.ofTerminal tty key).files p fd = (s.files p fd).map fun f => (f.mode, f.fpos) := if_pos hp
  unfold TermSys.call PrivSys.call
  rw [hfile]
  cases hf : s.files p fd with
  | none =>
    cases (s.ofTerminal tty key).device with
    | none => rfl
    | some d => rfl
  | some f =>
    obtain ⟨key', hkey, hitem⟩ := h.reach p fd f hf
    obtain rfl : key' = key := Option.some.inj (hkey.symm.trans hp)
    rw [ofTerminal_device hitem]
    simp only [Option.map_some]
    rw [ofTerminal_stopIf hp, ofTerminal_putFile hp, ofTerminal_setDevice hitem]
    rfl

theorem own_release {p : ℕ} (hp : tty p = some key) (fd : ℕ) :
    (s.ofTerminal tty key).release p fd = ((s.release p fd).1.ofTerminal tty key, (s.release p fd).2) := by
  have hfile : (s.ofTerminal tty key).files p fd = (s.files p fd).map fun f => (f.mode, f.fpos) := if_pos hp
  unfold TermSys.release PrivSys.release
  rw [hfile]
  cases s.files p fd with
  | none => rfl
  | some f =>
    simp only [Option.map_some]
    rw [ofTerminal_putFile hp]
    rfl

/-- **A call from the terminal** is one on the machine that the terminal has for itself. -/
theorem own_step (h : PrivInv tty s) {o : PrivOp} (ho : tty o.proc = some key) :
    (s.ofTerminal tty key).step o = ((s.step tty o).1.ofTerminal tty key, (s.step tty o).2) := by
  have hdeq : (s.ofTerminal tty key).dead o.proc = s.dead o.proc := if_pos ho
  unfold TermSys.step PrivSys.step
  rw [hdeq]
  by_cases hdead : s.dead o.proc = true
  · rw [if_pos hdead, if_pos hdead]
  · rw [if_neg hdead, if_neg hdead]
    cases o with
    | opens p fd mode kmalloc => exact congrArg (Prod.map id some) (own_cOpen h ho fd mode kmalloc)
    | call p fd c => exact congrArg (Prod.map id some) (own_call h ho fd c)
    | release p fd => exact congrArg (Prod.map id some) (own_release ho fd)

/-- **A call from elsewhere** is not seen. -/
theorem other_step (h : PrivInv tty s) {o : PrivOp} (ho : tty o.proc ≠ some key) :
    (s.step tty o).1.ofTerminal tty key = s.ofTerminal tty key := by
  have hne : ∀ {key'}, tty o.proc = some key' → key' ≠ key := by
    rintro key' hk rfl
    exact ho hk
  unfold PrivSys.step
  by_cases hdead : s.dead o.proc = true
  · rw [if_pos hdead]
  · rw [if_neg hdead]
    cases o with
    | opens p fd mode kmalloc =>
      change (s.cOpen tty p fd mode kmalloc).1.ofTerminal tty key = _
      have hspec := cOpen_spec tty s p fd mode kmalloc
      generalize s.cOpen tty p fd mode kmalloc = r at hspec ⊢
      cases hspec with
      | noTty _ => rfl
      | nomem _ _ _ => rfl
      | found hp ha => exact (ofTerminal_putFile_other ho fd _).trans (ofTerminal_setDevice_other ha (hne hp) _)
      | made hp hnone _ =>
        calc ((s.listAdd _).opened p fd mode s.list.length).ofTerminal tty key
            = (PrivSys.setDevice (s.listAdd _) s.list.length _).ofTerminal tty key := ofTerminal_putFile_other ho fd _
          _ = (s.listAdd _).ofTerminal tty key := ofTerminal_setDevice_other (lookfor_listAdd_self h) (hne hp) _
          _ = s.ofTerminal tty key := ofTerminal_listAdd_other h (hne hp)
    | call p fd c =>
      change (s.call p fd c).1.ofTerminal tty key = _
      unfold PrivSys.call
      cases hf : s.files p fd with
      | none => rfl
      | some f =>
        obtain ⟨key', hkey, hitem⟩ := h.reach p fd f hf
        calc (PrivSys.stopIf _ p _).ofTerminal tty key
            = (PrivSys.putFile _ p fd _).ofTerminal tty key := ofTerminal_stopIf_other ho _
          _ = (s.setDevice f.item _).ofTerminal tty key := ofTerminal_putFile_other ho fd _
          _ = s.ofTerminal tty key := ofTerminal_setDevice_other hitem (hne hkey) _
    | release p fd =>
      change (s.release p fd).1.ofTerminal tty key = _
      unfold PrivSys.release
      cases s.files p fd with
      | none => rfl
      | some f => exact ofTerminal_putFile_other ho fd none

/-- **The terminals are separated.** -/
theorem separates (tty : ℕ → Option ℕ) (key : ℕ) :
    Separates (PrivSys.step tty) TermSys.step (onTerminal tty key) (PrivSys.ofTerminal tty key) (PrivInv tty) where
  inv _ o h := (inv_step h o).1
  answer _ _ h ho := (congrArg Prod.snd (own_step h (of_decide_eq_true ho))).symm
  seen _ _ h ho := (congrArg Prod.fst (own_step h (of_decide_eq_true ho))).symm
  unseen _ _ h ho := other_step h (of_decide_eq_false ho)

end

/-! ## Every run -/

theorem privInv_init (tty : ℕ → Option ℕ) (par : Params) : PrivInv tty (PrivSys.init par) :=
  ⟨List.nodup_nil, fun _ ha => absurd ha List.not_mem_nil, fun _ _ _ hf => absurd hf (by simp [PrivSys.init])⟩

/-- what is found in the list is found at the end of the run -/
theorem kept_run {tty : ℕ → Option ℕ} {s : PrivSys} (h : PrivInv tty s) (ops : List PrivOp) :
    Kept s (run (next (PrivSys.step tty)) s ops) := by
  have hstep : ∀ t o, PrivInv tty t ∧ Kept s t → PrivInv tty (next (PrivSys.step tty) t o) ∧
      Kept s (next (PrivSys.step tty) t o) := by
    rintro t o ⟨ht, hkept⟩
    exact ⟨(inv_step ht o).1, fun key a ha => (inv_step ht o).2 key a (hkept key a ha)⟩
  have hs : PrivInv tty s ∧ Kept s s := ⟨h, fun _ _ ha => ha⟩
  exact (run_keeps hstep hs ops).2

/-- an open that succeeds fills its descriptor -/
theorem cOpen_file {tty : ℕ → Option ℕ} {s : PrivSys} {p fd : ℕ} {mode : FMode} {kmalloc : Bool}
    (hret : (s.cOpen tty p fd mode kmalloc).2 = .ret 0 []) : ∃ f, (s.cOpen tty p fd mode kmalloc).1.files p fd = some f := by
  have hspec := cOpen_spec tty s p fd mode kmalloc
  generalize s.cOpen tty p fd mode kmalloc = r at hspec hret ⊢
  cases hspec with
  | noTty _ => exact absurd hret (show ¬ Res.ret (- EINVAL) [] = .ret 0 [] by decide)
  | nomem _ _ _ => exact absurd hret (show ¬ Res.ret (- ENOMEM) [] = .ret 0 [] by decide)
  | found _ _ => exact ⟨_, (setFile_apply ..).trans (if_pos ⟨rfl, rfl⟩)⟩
  | made _ _ _ => exact ⟨_, (setFile_apply ..).trans (if_pos ⟨rfl, rfl⟩)⟩

/-- an open that succeeds reaches the item of the terminal -/
theorem open_reaches {tty : ℕ → Option ℕ} {s : PrivSys} (h : PrivInv tty s) {p fd : ℕ} {mode : FMode} {kmalloc : Bool}
    (hret : (s.step tty (.opens p fd mode kmalloc)).2 = some (.ret 0 [])) :
    ∃ key f, tty p = some key ∧ (s.step tty (.opens p fd mode kmalloc)).1.files p fd = some f ∧
      (s.step tty (.opens p fd mode kmalloc)).1.lookfor key = some f.item := by
  have hinv := (inv_step h (.opens p fd mode kmalloc)).1
  have hfile : ∃ f, (s.step tty (.opens p fd mode kmalloc)).1.files p fd = some f := by
    unfold PrivSys.step at hret ⊢
    by_cases hdead : s.dead (PrivOp.opens p fd mode kmalloc).proc = true
    · rw [if_pos hdead] at hret
      exact absurd hret (by simp)
    · rw [if_neg hdead] at hret ⊢
      exact cOpen_file (Option.some.inj hret)
  obtain ⟨f, hf⟩ := hfile
  obtain ⟨key, hkey, hitem⟩ := hinv.reach p fd f hf
  exact ⟨key, f, hkey, hf, hitem⟩

/-- **The private devices are isolated.** In every run the list has at most one item for a key; every open that succeeds
reaches the item that the list has for the key of its terminal from then on; and the answers to the calls from a terminal
are those of the run in which no others are made. -/
theorem private_isolated (tty : ℕ → Option ℕ) (par : Params) (ops : List PrivOp) :
    let s := run (next (PrivSys.step tty)) (PrivSys.init par) ops
    (s.list.map fun a => (s.heap a).key).Nodup ∧
    (∀ past p fd mode kmalloc later, ops = past ++ .opens p fd mode kmalloc :: later →
      let t := run (next (PrivSys.step tty)) (PrivSys.init par) past
      (t.step tty (.opens p fd mode kmalloc)).2 = some (.ret 0 []) →
      ∃ key f, tty p = some key ∧ (t.step tty (.opens p fd mode kmalloc)).1.files p fd = some f ∧
        s.lookfor key = some f.item) ∧
    ∀ key, (trace (PrivSys.step tty) (PrivSys.init par) ops).filter (fun e => onTerminal tty key e.1) =
      trace (PrivSys.step tty) (PrivSys.init par) (ops.filter (onTerminal tty key)) := by
  intro s
  have hinit := privInv_init tty par
  have hstep : ∀ t o, PrivInv tty t → PrivInv tty (next (PrivSys.step tty) t o) := fun t o ht => (inv_step ht o).1
  have hinv : ∀ ops, PrivInv tty (run (next (PrivSys.step tty)) (PrivSys.init par) ops) := run_keeps hstep hinit
  refine ⟨(hinv ops).keys, ?_, fun key => (separates tty key).noninterference ops hinit⟩
  rintro past p fd mode kmalloc later rfl t hret
  obtain ⟨key, f, hkey, hf, hitem⟩ := open_reaches (hinv past) hret
  refine ⟨key, f, hkey, hf, ?_⟩
  simp only [s, run_append, run_cons]
  exact kept_run (inv_step (hinv past) _).1 later key f.item hitem

end AtsLdd.Scull
