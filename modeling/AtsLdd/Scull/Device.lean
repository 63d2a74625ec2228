/-
The bare scull device: its quantum list and the four ATS functions on it (ATS/scull/ATS/scull.dats, scull_data.dats).

A device holds a list of quantum sets. A quantum set is NULL or an array of `m` pointers; a pointer is NULL or a quantum
of `n` bytes. `ln_qlst` is kept beside the list, as an `int` of its own. The C functions that call these four are in
`AtsLdd.Scull.FileOps`.

Environment:
- `mem k` tells whether the k-th allocation of a call succeeds; every function that allocates counts the allocations
  tried so far;
- `copied` is the number of bytes the user copy of a call manages before it stops.

A step outside the ATS preconditions (an index past the list, the array or the quantum) is a `Fault`.

- `qsetlstMake_spec`: `qsetlst_make` returns the empty quantum sets of the allocations that succeed, and their number;
- `scullFollowMain_spec`: the list is extended at its end, and a node is returned when the index is inside the result.
-/
import AtsLdd.Core.Machine

namespace AtsLdd.Scull

open AtsLdd.Machine

/-! ## Data -/

/-- what the kernel stops at: a division by zero, or an access outside the list, the array or the quantum -/
inductive Fault where
  | divide
  | badAccess
deriving DecidableEq, Repr

def ENOMEM : ℤ := 12
def EFAULT : ℤ := 14

/-- `qtmptr`: a quantum or NULL -/
abbrev Qtmptr := Option (List UInt8)

/-- `qdatptr`: an array of quanta or NULL -/
abbrev Qdatptr := Option (List Qtmptr)

/-- `struct scull_qset`; `next` is the position in the list -/
structure Qset where
  data : Qdatptr
deriving DecidableEq, Repr

structure ScullDev where
  /-- the current array size -/
  mQset : ℤ
  /-- the current quantum size -/
  nQuantum : ℤ
  data : List Qset
  lnQlst : ℤ
  /-- amount of data stored -/
  size : ℕ
deriving DecidableEq, Repr

/-! ## Allocation -/

/-- `kmalloc`: a negative size is a huge `size_t`, which is refused -/
def kmalloc (mem : ℕ → Bool) (k : ℕ) (n : ℤ) : Bool := decide (0 ≤ n) && mem k

/-- `scull_qtmptr_make`: a zeroed quantum -/
def qtmptrMake (mem : ℕ → Bool) (k : ℕ) (n : ℤ) : Qtmptr :=
  if kmalloc mem k n then some (List.replicate n.toNat 0) else none

/-- `scull_qdatptr_make`: an array of NULLs -/
def qdatptrMake (mem : ℕ → Bool) (k : ℕ) (m : ℤ) : Qdatptr :=
  if kmalloc mem k m then some (List.replicate m.toNat none) else none

/-- `loop` of `qsetlst_make`: `i0` nodes to go, `res` and `lnRes` made so far -/
def qsetlstMakeLoop (mem : ℕ → Bool) : ℕ → List Qset → ℤ → ℕ → List Qset × ℤ × ℕ
  | 0, res, lnRes, k => (res, lnRes, k)
  | i0 + 1, res, lnRes, k =>
    if mem k then qsetlstMakeLoop mem i0 (⟨none⟩ :: res) (int32 (lnRes + 1)) (k + 1) else (res, lnRes, k + 1)

/-- `qsetlst_make`: at most `ln0` empty quantum sets, their number, and the allocations tried -/
def qsetlstMake (mem : ℕ → Bool) (ln0 : ℤ) (k : ℕ) : List Qset × ℤ × ℕ :=
  qsetlstMakeLoop mem ln0.toNat [] 0 k

/-! ## Trim and follow -/

/-- `scull_trim_main`: frees the list and installs the geometry -/
def scullTrimMain (dev : ScullDev) (m n : ℤ) : ScullDev :=
  { dev with mQset := m, nQuantum := n, data := [], lnQlst := 0, size := 0 }

/-- `scull_follow_lessthan`: the position of node `ln`; past the list it follows NULL -/
def scullFollowLessthan (xs : List Qset) (ln : ℤ) : Except Fault ℕ :=
  if ulong ln < xs.length then .ok (ulong ln) else .error .badAccess

/-- what `scull_follow_main` leaves: the list, `ln0`, the node or NULL, and the allocations tried -/
structure Followed where
  xs : List Qset
  ln0 : ℤ
  pm : Option ℕ
  k : ℕ
deriving DecidableEq, Repr

/-- `scull_follow_main`: node `ln`, extending the list when it is too short -/
def scullFollowMain (mem : ℕ → Bool) (xs : List Qset) (ln0 ln : ℤ) (k : ℕ) : Except Fault Followed :=
  if ln < ln0 then do
    let pm ← scullFollowLessthan xs ln
    .ok ⟨xs, ln0, some pm, k⟩
  else
    let df := int32 (ln - ln0)
    let (xsAdd, ln0Add, k) := qsetlstMake mem (int32 (df + 1)) k
    let ln0 := int32 (ln0 + ln0Add)
    if ln0Add > df then do
      let pm ← scullFollowLessthan xsAdd df
      .ok ⟨xs ++ xsAdd, ln0, some (xs.length + pm), k⟩
    else .ok ⟨xs ++ xsAdd, ln0, none, k⟩ -- out of memory

/-! ## Read and write -/

/-- `qdatptr_vtakeout_bytes_read`: the quantum at index `i`, NULL when the array is -/
def qdatptrVtakeoutBytesRead (p : Qdatptr) (i : ℤ) : Except Fault Qtmptr :=
  match p with
  | none => .ok none
  | some arr => if h : 0 ≤ i ∧ i.toNat < arr.length then .ok arr[i.toNat] else .error .badAccess

/-- the bytes `j .. j + cnt` of a quantum -/
def window (q : List UInt8) (j cnt : ℤ) : Except Fault (List UInt8) :=
  if 0 ≤ j ∧ 0 ≤ cnt ∧ (j + cnt).toNat ≤ q.length then .ok ((q.drop j.toNat).take cnt.toNat) else .error .badAccess

/-- what `scull_read_main` copies out: a window of the quantum (`copy_to_user`), or zeros where there is none
(`clear_user`) -/
def readSource (pqtm : Qtmptr) (j cnt : ℤ) : Except Fault (List UInt8) :=
  match pqtm with
  | some q => window q j cnt
  | none => .ok (List.replicate cnt.toNat 0)

/-- `scull_read_main`: the answer, the bytes put in the user buffer and the file position -/
def scullReadMain (_m n : ℤ) (xs : List Qset) (ln i j cnt : ℤ) (fpos : ℤ) (copied : ℕ) :
    Except Fault (ℤ × List UInt8 × ℤ) := do
  let pm ← scullFollowLessthan xs ln
  let pqtm ← qdatptrVtakeoutBytesRead (xs.getD pm ⟨none⟩).data i
  let cnt := min cnt (n - j)
  let src ← readSource pqtm j cnt
  let nleft := cnt.toNat - copied
  if nleft = 0 then .ok (cnt, src, int64 (fpos + cnt)) else .ok (- EFAULT, src.take copied, fpos)

/-- the first try of `qdatptr_vtakeout_bytes_write` makes the array when it is NULL -/
def qdatptrOrMake (mem : ℕ → Bool) (r : Qdatptr) (m : ℤ) (k : ℕ) : Qdatptr × ℕ :=
  match r with
  | some arr => (some arr, k)
  | none => (qdatptrMake mem k m, k + 1)

/-- `qtmptr_vtakeout_bytes_write`: a NULL quantum is made first, and the second try returns what is there then -/
def qtmptrVtakeoutBytesWrite (mem : ℕ → Bool) (r : Qtmptr) (n : ℤ) (k : ℕ) : Qtmptr × ℕ :=
  match r with
  | some q => (some q, k)
  | none => (qtmptrMake mem k n, k + 1)

/-- `qdatptr_vtakeout_bytes_write`: the array left behind, and the quantum at `i` or NULL -/
def qdatptrVtakeoutBytesWrite (mem : ℕ → Bool) (r : Qdatptr) (m n i : ℤ) (k : ℕ) :
    Except Fault (Qdatptr × Qtmptr × ℕ) :=
  match qdatptrOrMake mem r m k with
  | (none, k) => .ok (none, none, k)
  | (some arr, k) =>
    if h : 0 ≤ i ∧ i.toNat < arr.length then
      let (pqtm, k) := qtmptrVtakeoutBytesWrite mem arr[i.toNat] n k
      .ok (some (arr.set i.toNat pqtm), pqtm, k)
    else .error .badAccess

/-- `copy_from_user` of `cnt` bytes: what it puts at its destination, with zeros for the bytes that do not arrive -/
def copyFromUser (buf : List UInt8) (cnt copied : ℕ) : List UInt8 :=
  buf.take (min cnt copied) ++ List.replicate (cnt - copied) 0

/-- the quantum after a copy of `cnt` bytes to offset `j` -/
def copyToWindow (q : List UInt8) (j cnt : ℤ) (buf : List UInt8) (copied : ℕ) : Except Fault (List UInt8) :=
  if 0 ≤ j ∧ 0 ≤ cnt ∧ (j + cnt).toNat ≤ q.length then
    let new := copyFromUser buf cnt.toNat copied
    .ok (q.take j.toNat ++ new ++ q.drop (j.toNat + new.length))
  else .error .badAccess

/-- store the quantum `q` at index `i` of node `pm` -/
def putQuantum (xs : List Qset) (pm : ℕ) (arr : Qdatptr) (i : ℤ) (q : Qtmptr) : List Qset :=
  xs.set pm ⟨arr.map fun a => a.set i.toNat q⟩

/-- `scull_write_main`: the answer, the list, `ln_qlst` and the file position -/
def scullWriteMain (mem : ℕ → Bool) (m n : ℤ) (xs : List Qset) (ln0 ln i j : ℤ) (buf : List UInt8) (cnt : ℤ)
    (fpos : ℤ) (copied : ℕ) : Except Fault (ℤ × List Qset × ℤ × ℤ) := do
  let f ← scullFollowMain mem xs ln0 ln 0
  match f.pm with
  | none => .ok (- ENOMEM, f.xs, f.ln0, fpos)
  | some pm =>
    let (arr, pqtm, _) ← qdatptrVtakeoutBytesWrite mem (f.xs.getD pm ⟨none⟩).data m n i f.k
    match pqtm with
    | none => .ok (- ENOMEM, f.xs.set pm ⟨arr⟩, f.ln0, fpos)
    | some q =>
      let cnt := min cnt (n - j)
      let q' ← copyToWindow q j cnt buf copied
      let xs' := putQuantum f.xs pm arr i (some q')
      if cnt.toNat - copied = 0 then .ok (cnt, xs', f.ln0, int64 (fpos + cnt))
      else .ok (- EFAULT, xs', f.ln0, fpos)

end AtsLdd.Scull
