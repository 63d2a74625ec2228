/-
The C side of the bare scull device (ATS/scull/main.c): the file operations, the ioctl, and the device in use.

`scull_read` and `scull_write` turn a file position into a list index, an array index and an offset in the quantum with
`int` arithmetic (`locate`), and call the ATS functions. They read `m` and `n` from the device before they take the
semaphore, so both are parameters here; `step` runs one operation at a time and passes the fields of the device.

`step` is one operation on one device: open (which trims when the file is write-only), read, write, llseek and ioctl.
A fault ends the process inside the call and is answered as `oops`.
-/
import AtsLdd.Core.Run
import AtsLdd.Scull.Device

namespace AtsLdd.Scull

open AtsLdd.Machine

def EPERM : ℤ := 1
def EINVAL : ℤ := 22
def ENOTTY : ℤ := 25
def SCULL_QUANTUM : ℤ := 4000
def SCULL_QSET : ℤ := 1000

/-- the largest count the VFS passes to a read or a write: `INT_MAX` rounded down to a page -/
def MAX_RW_COUNT : ℕ := 2 ^ 31 - 2 ^ 12

/-! ## Parameters and ioctl -/

/-- the module parameters that ioctls change -/
structure Params where
  scullQuantum : ℤ
  scullQset : ℤ
  scullPBuffer : ℤ
deriving DecidableEq, Repr

/-- `_IOC (dir, type, nr, size)`; direction 1 is write, 2 is read -/
def ioc (dir type nr size : ℕ) : ℕ := dir * 2 ^ 30 + size * 2 ^ 16 + type * 2 ^ 8 + nr

def iocDir (cmd : ℕ) : ℕ := cmd / 2 ^ 30 % 4
def iocType (cmd : ℕ) : ℕ := cmd / 2 ^ 8 % 2 ^ 8
def iocNr (cmd : ℕ) : ℕ := cmd % 2 ^ 8

/-- `'k'` -/
def SCULL_IOC_MAGIC : ℕ := 107
def SCULL_IOC_MAXNR : ℕ := 14
def SCULL_IOCRESET : ℕ := ioc 0 SCULL_IOC_MAGIC 0 0
def SCULL_IOCSQUANTUM : ℕ := ioc 1 SCULL_IOC_MAGIC 1 4
def SCULL_IOCSQSET : ℕ := ioc 1 SCULL_IOC_MAGIC 2 4
def SCULL_IOCTQUANTUM : ℕ := ioc 0 SCULL_IOC_MAGIC 3 0
def SCULL_IOCTQSET : ℕ := ioc 0 SCULL_IOC_MAGIC 4 0
def SCULL_IOCGQUANTUM : ℕ := ioc 2 SCULL_IOC_MAGIC 5 4
def SCULL_IOCGQSET : ℕ := ioc 2 SCULL_IOC_MAGIC 6 4
def SCULL_IOCQQUANTUM : ℕ := ioc 0 SCULL_IOC_MAGIC 7 0
def SCULL_IOCQQSET : ℕ := ioc 0 SCULL_IOC_MAGIC 8 0
def SCULL_IOCXQUANTUM : ℕ := ioc 3 SCULL_IOC_MAGIC 9 4
def SCULL_IOCXQSET : ℕ := ioc 3 SCULL_IOC_MAGIC 10 4
def SCULL_IOCHQUANTUM : ℕ := ioc 0 SCULL_IOC_MAGIC 11 0
def SCULL_IOCHQSET : ℕ := ioc 0 SCULL_IOC_MAGIC 12 0
def SCULL_P_IOCTSIZE : ℕ := ioc 0 SCULL_IOC_MAGIC 13 0
def SCULL_P_IOCQSIZE : ℕ := ioc 0 SCULL_IOC_MAGIC 14 0

/-- the caller of an ioctl: its privilege, and what each access to user memory at `arg` gives -/
structure IoctlEnv where
  /-- `capable (CAP_SYS_ADMIN)` -/
  capable : Bool
  accessOk : Bool
  /-- the `int` at `arg`, or a fault -/
  getUser : Option ℤ
  /-- whether a store to `arg` succeeds -/
  putUser : Bool
deriving DecidableEq, Repr

/-- an ioctl's answer, the parameters after it and the value stored at `arg` -/
structure IoctlRes where
  ret : ℤ
  par : Params
  put : Option ℤ
deriving DecidableEq, Repr

/-- `__get_user`: on a fault the destination becomes 0 -/
def getUser (env : IoctlEnv) : ℤ × ℤ :=
  match env.getUser with
  | some v => (int32 v, 0)
  | none => (0, - EFAULT)

/-- `__put_user` -/
def putUser (env : IoctlEnv) (v : ℤ) : Option ℤ × ℤ := if env.putUser then (some v, 0) else (none, - EFAULT)

def scullIoctl (par : Params) (env : IoctlEnv) (cmd arg : ℕ) : IoctlRes :=
  if iocType cmd ≠ SCULL_IOC_MAGIC then ⟨-ENOTTY, par, none⟩
  else if iocNr cmd > SCULL_IOC_MAXNR then ⟨-ENOTTY, par, none⟩
  else if iocDir cmd ≠ 0 ∧ ¬ env.accessOk then ⟨- EFAULT, par, none⟩
  else if cmd = SCULL_IOCRESET then ⟨0, { par with scullQuantum := SCULL_QUANTUM, scullQset := SCULL_QSET }, none⟩
  else if cmd = SCULL_IOCSQUANTUM then
    if ¬ env.capable then ⟨-EPERM, par, none⟩
    else ⟨(getUser env).2, { par with scullQuantum := (getUser env).1 }, none⟩
  else if cmd = SCULL_IOCTQUANTUM then
    if ¬ env.capable then ⟨-EPERM, par, none⟩ else ⟨0, { par with scullQuantum := int32 arg }, none⟩
  else if cmd = SCULL_IOCGQUANTUM then ⟨(putUser env par.scullQuantum).2, par, (putUser env par.scullQuantum).1⟩
  else if cmd = SCULL_IOCQQUANTUM then ⟨par.scullQuantum, par, none⟩
  else if cmd = SCULL_IOCXQUANTUM then
    if ¬ env.capable then ⟨-EPERM, par, none⟩
    else
      let par' := { par with scullQuantum := (getUser env).1 }
      if (getUser env).2 = 0 then ⟨(putUser env par.scullQuantum).2, par', (putUser env par.scullQuantum).1⟩
      else ⟨(getUser env).2, par', none⟩
  else if cmd = SCULL_IOCHQUANTUM then
    if ¬ env.capable then ⟨-EPERM, par, none⟩ else ⟨par.scullQuantum, { par with scullQuantum := int32 arg }, none⟩
  else if cmd = SCULL_IOCSQSET then
    if ¬ env.capable then ⟨-EPERM, par, none⟩
    else ⟨(getUser env).2, { par with scullQset := (getUser env).1 }, none⟩
  else if cmd = SCULL_IOCTQSET then
    if ¬ env.capable then ⟨-EPERM, par, none⟩ else ⟨0, { par with scullQset := int32 arg }, none⟩
  else if cmd = SCULL_IOCGQSET then ⟨(putUser env par.scullQset).2, par, (putUser env par.scullQset).1⟩
  else if cmd = SCULL_IOCQQSET then ⟨par.scullQset, par, none⟩
  else if cmd = SCULL_IOCXQSET then
    if ¬ env.capable then ⟨-EPERM, par, none⟩
    else
      let par' := { par with scullQset := (getUser env).1 }
      if (getUser env).2 = 0 then ⟨(putUser env par.scullQset).2, par', (putUser env par.scullQset).1⟩
      else ⟨(getUser env).2, par', none⟩
  else if cmd = SCULL_IOCHQSET then
    if ¬ env.capable then ⟨-EPERM, par, none⟩ else ⟨par.scullQset, { par with scullQset := int32 arg }, none⟩
  else if cmd = SCULL_P_IOCTSIZE then ⟨0, { par with scullPBuffer := int32 arg }, none⟩
  else if cmd = SCULL_P_IOCQSIZE then ⟨par.scullPBuffer, par, none⟩
  else ⟨-ENOTTY, par, none⟩

/-! ## Read, write and seek -/

/-- the arguments of a call of `scull_read_main` or `scull_write_main` -/
structure MainArgs where
  m : ℤ
  n : ℤ
  ln : ℤ
  i : ℤ
  j : ℤ
  cnt : ℤ
deriving DecidableEq, Repr

/-- the list index, array index and quantum offset of a file position -/
def locate (m n fpos : ℤ) : Except Fault (ℤ × ℤ × ℤ) :=
  let nm := int32 (n * m)
  if nm = 0 then .error .divide
  else
    let ln := int32 (fpos.tdiv nm)
    let rest := int32 (fpos.tmod nm)
    if n = 0 then .error .divide else .ok (ln, rest.tdiv n, rest.tmod n)

/-- the call that `scull_read` makes, if any -/
def scullReadArgs (dev : ScullDev) (m n : ℤ) (count : ℕ) (fpos : ℤ) : Except Fault (Option MainArgs) :=
  if ulong fpos ≥ dev.size then .ok none
  else do
    let count := if ulong (fpos + count) > dev.size then ulong (dev.size - fpos) else count
    let (ln, sPos, qPos) ← locate m n fpos
    .ok (some ⟨m, n, ln, sPos, qPos, int32 count⟩)

/-- `scull_read` under the semaphore: the answer, the bytes read and the file position -/
def scullRead (dev : ScullDev) (m n : ℤ) (count : ℕ) (fpos : ℤ) (copied : ℕ) :
    Except Fault (ℤ × List UInt8 × ℤ) := do
  match ← scullReadArgs dev m n count fpos with
  | none => .ok (0, [], fpos)
  | some a => scullReadMain a.m a.n dev.data a.ln a.i a.j a.cnt fpos copied

/-- the call that `scull_write` makes -/
def scullWriteArgs (m n : ℤ) (count : ℕ) (fpos : ℤ) : Except Fault MainArgs := do
  let (ln, sPos, qPos) ← locate m n fpos
  .ok ⟨m, n, ln, sPos, qPos, int32 count⟩

/-- `scull_write` under the semaphore: the answer, the device and the file position -/
def scullWrite (mem : ℕ → Bool) (dev : ScullDev) (m n : ℤ) (buf : List UInt8) (fpos : ℤ) (copied : ℕ) :
    Except Fault (ℤ × ScullDev × ℤ) := do
  let a ← scullWriteArgs m n buf.length fpos
  let (ret, xs, ln0, fpos) ← scullWriteMain mem a.m a.n dev.data dev.lnQlst a.ln a.i a.j buf a.cnt fpos copied
  let dev := { dev with data := xs, lnQlst := ln0 }
  if ret ≥ 0 ∧ dev.size < ulong fpos then .ok (ret, { dev with size := ulong fpos }, fpos) else .ok (ret, dev, fpos)

/-- `scull_llseek`: the answer, which is the new position unless it is an error -/
def scullLlseek (dev : ScullDev) (fpos off whence : ℤ) : ℤ :=
  let newpos := if whence = 0 then some off
    else if whence = 1 then some (int64 (fpos + off))
    else if whence = 2 then some (int64 (dev.size + off))
    else none
  match newpos with
  | none => - EINVAL
  | some newpos => if newpos < 0 then - EINVAL else newpos

/-! ## Opening -/

/-- `f_mode` of an open file -/
structure FMode where
  read : Bool
  write : Bool
deriving DecidableEq, Repr

/-- whether the access mode is O_WRONLY -/
def FMode.wronly (mode : FMode) : Bool := !mode.read && mode.write

/-- `scull_trim`: to the geometry of the module parameters -/
def scullTrim (dev : ScullDev) (par : Params) : ScullDev := scullTrimMain dev par.scullQset par.scullQuantum

/-- `scull_open` under the semaphore -/
def scullOpen (dev : ScullDev) (par : Params) (wronly : Bool) : ScullDev := if wronly then scullTrim dev par else dev

/-! ## The device in use -/

/-- a device with the module parameters and the position of every open file -/
structure Sys where
  par : Params
  dev : ScullDev
  fpos : ℕ → ℤ

/-- a device as `scull_init_module` leaves it -/
def initSys (par : Params) : Sys := ⟨par, ⟨par.scullQset, par.scullQuantum, [], 0, 0⟩, fun _ => 0⟩

inductive Op where
  | opens (f : ℕ) (wronly : Bool)
  | reads (f count copied : ℕ)
  | writes (f : ℕ) (buf : List UInt8) (mem : ℕ → Bool) (copied : ℕ)
  | llseek (f : ℕ) (off whence : ℤ)
  | ioctl (env : IoctlEnv) (cmd arg : ℕ)

inductive Res where
  | ret (v : ℤ) (out : List UInt8)
  | oops (f : Fault)
deriving DecidableEq, Repr

/-- one operation; a new file starts at position 0 -/
def step (s : Sys) : Op → Sys × Res
  | .opens f wronly =>
    ({ s with dev := scullOpen s.dev s.par wronly, fpos := Function.update s.fpos f 0 }, .ret 0 [])
  | .reads f count copied =>
    match scullRead s.dev s.dev.mQset s.dev.nQuantum count (s.fpos f) copied with
    | .error e => (s, .oops e)
    | .ok (ret, out, fpos) => ({ s with fpos := Function.update s.fpos f fpos }, .ret ret out)
  | .writes f buf mem copied =>
    match scullWrite mem s.dev s.dev.mQset s.dev.nQuantum buf (s.fpos f) copied with
    | .error e => (s, .oops e)
    | .ok (ret, dev, fpos) => ({ s with dev := dev, fpos := Function.update s.fpos f fpos }, .ret ret [])
  | .llseek f off whence =>
    let ret := scullLlseek s.dev (s.fpos f) off whence
    if ret < 0 then (s, .ret ret []) else ({ s with fpos := Function.update s.fpos f ret }, .ret ret [])
  | .ioctl env cmd arg =>
    let r := scullIoctl s.par env cmd arg
    ({ s with par := r.par }, .ret r.ret [])

end AtsLdd.Scull
