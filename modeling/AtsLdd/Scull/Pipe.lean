/-
The pipe device (pipe.c): a ring buffer between the processes that read and the processes that write.

Each call runs under the semaphore of the device, from where it has it for the last time; while it sleeps it changes
nothing. A run is a sequence of such calls, in any order, and of ioctls that change the size of the buffers to come.
Pointers into the buffer are offsets from its start.

- `pipe_in_bounds`: in every run in which an open finds no buffer of another size, the sizes are right, the pointers are
  inside the buffer, and so are all copies;
- `pipe_out_of_bounds`: an open after the size has been changed, and a write that goes past the buffer.
-/
import AtsLdd.Core.Ring
import AtsLdd.Core.Run
import AtsLdd.Scull.FileOps

namespace AtsLdd.Scull

open AtsLdd.Machine AtsLdd.ByteMap AtsLdd.Run

def EAGAIN : ℤ := 11

/-! ## The code -/

/-- `struct scull_pipe` -/
structure ScullPipe where
  /-- the length with which the buffer was allocated; `none` when the pointer is NULL -/
  buffer : Option ℕ
  /-- the bytes from the start of the buffer on, also behind its end -/
  mem : ℕ → UInt8
  buffersize : ℤ
  /-- the pointer `end` -/
  bufEnd : ℤ
  rp : ℕ
  wp : ℕ
  nreaders : ℤ
  nwriters : ℤ

/-- the buffer of `scull_p_open`: the one there is, or a new one. A negative size is a huge `size_t`, which is never
allocated; else `kmalloc` gives the bytes of fresh memory, or fails. -/
def pipeBuffer (scullPBuffer : ℤ) (dev : ScullPipe) (kmalloc : Option (ℕ → UInt8)) : Option ScullPipe :=
  match dev.buffer with
  | some _ => some dev
  | none =>
    match kmalloc with
    | none => none
    | some mem => if 0 ≤ scullPBuffer then some { dev with buffer := some scullPBuffer.toNat, mem := mem } else none

/-- `scull_p_open` -/
def scullPOpen (scullPBuffer : ℤ) (dev : ScullPipe) (mode : FMode) (kmalloc : Option (ℕ → UInt8)) : ℤ × ScullPipe :=
  match pipeBuffer scullPBuffer dev kmalloc with
  | none => (- ENOMEM, dev)
  | some dev => (0, { dev with
      buffersize := scullPBuffer
      bufEnd := scullPBuffer
      rp := 0
      wp := 0
      nreaders := if mode.read then dev.nreaders + 1 else dev.nreaders
      nwriters := if mode.write then dev.nwriters + 1 else dev.nwriters })

/-- `scull_p_release` -/
def scullPRelease (dev : ScullPipe) (mode : FMode) : ScullPipe :=
  let dev := { dev with
    nreaders := if mode.read then dev.nreaders - 1 else dev.nreaders
    nwriters := if mode.write then dev.nwriters - 1 else dev.nwriters }
  if dev.nreaders + dev.nwriters = 0 then { dev with buffer := none } else dev

/-- the bytes that `scull_p_read` copies at `rp` -/
def pipeReadCount (dev : ScullPipe) (count : ℕ) : ℕ :=
  if dev.rp < dev.wp then min count (ulong (dev.wp - dev.rp)) else min count (ulong (dev.bufEnd - dev.rp))

/-- what a read or a write answers, and the bytes that it has moved -/
structure Moved where
  ret : ℤ
  bytes : List UInt8
  dev : ScullPipe

/-- `scull_p_read`; -EAGAIN stands for the sleep of a blocking read, too. A user copy manages `copied` bytes. -/
def scullPRead (dev : ScullPipe) (count copied : ℕ) : Moved :=
  if dev.rp = dev.wp then ⟨-EAGAIN, [], dev⟩
  else
    let count := pipeReadCount dev count
    if copied < count then ⟨- EFAULT, [], dev⟩
    else
      let rp := dev.rp + count
      ⟨count, slice dev.mem dev.rp count, { dev with rp := if (rp : ℤ) = dev.bufEnd then 0 else rp }⟩

/-- `spacefree`; `none` is a division by zero -/
def spacefree (dev : ScullPipe) : Option ℤ :=
  if dev.rp = dev.wp then some (int32 (dev.buffersize - 1))
  else if dev.buffersize = 0 then none
  else some (int32 ((dev.rp + dev.buffersize - dev.wp).tmod dev.buffersize - 1))

/-- the bytes that `scull_p_write` copies to `wp` -/
def pipeWriteCount (dev : ScullPipe) (space : ℤ) (count : ℕ) : ℕ :=
  let count := min count (ulong space)
  if dev.rp ≤ dev.wp then min count (ulong (dev.bufEnd - dev.wp)) else min count (ulong (dev.rp - dev.wp - 1))

/-- `scull_p_write`; -EAGAIN stands for the sleep of a blocking write, too. A user copy manages `copied` bytes;
`none` is a division by zero. -/
def scullPWrite (dev : ScullPipe) (buf : List UInt8) (copied : ℕ) : Option Moved :=
  match spacefree dev with
  | none => none
  | some space =>
    if space = 0 then some ⟨-EAGAIN, [], dev⟩
    else
      let count := pipeWriteCount dev space buf.length
      if copied < count then
        some ⟨- EFAULT, [], { dev with mem := splice dev.mem dev.wp (copyFromUser buf count copied) }⟩
      else
        let wp := dev.wp + count
        some ⟨count, buf.take count, { dev with
          mem := splice dev.mem dev.wp (buf.take count), wp := if (wp : ℤ) = dev.bufEnd then 0 else wp }⟩

/-! ## Runs -/

/-- a pipe device, the size for the buffers to come, and the files that are open on the device -/
structure PipeSys where
  scullPBuffer : ℤ
  dev : ScullPipe
  files : List FMode

inductive PipeOp where
  | opens (mode : FMode) (kmalloc : Option (ℕ → UInt8))
  | release (mode : FMode)
  | reads (count copied : ℕ)
  | writes (buf : List UInt8) (copied : ℕ)
  /-- SCULL_P_IOCTSIZE, on any device -/
  | setSize (arg : ℤ)

/-- one call, and the bytes that it has moved -/
def pipeStep (s : PipeSys) : PipeOp → PipeSys × List UInt8
  | .opens mode kmalloc =>
    match scullPOpen s.scullPBuffer s.dev mode kmalloc with
    | (ret, dev) => ({ s with dev := dev, files := if ret = 0 then mode :: s.files else s.files }, [])
  | .release mode => ({ s with dev := scullPRelease s.dev mode, files := s.files.erase mode }, [])
  | .reads count copied =>
    let r := scullPRead s.dev count copied
    ({ s with dev := r.dev }, r.bytes)
  | .writes buf copied =>
    match scullPWrite s.dev buf copied with
    | none => (s, [])
    | some r => ({ s with dev := r.dev }, r.bytes)
  | .setSize arg => ({ s with scullPBuffer := int32 arg }, [])

/-- a device that was never opened, with a parameter `size` -/
def PipeSys.init (size : ℤ) : PipeSys := ⟨int32 size, ⟨none, fun _ => 0, 0, 0, 0, 0, 0, 0⟩, []⟩

/-- only open files are released, and reads and writes are made through files that are open for them -/
def PipeOp.Allowed (s : PipeSys) : PipeOp → Prop
  | .opens _ _ => True
  | .release mode => mode ∈ s.files
  | .reads _ _ => ∃ m ∈ s.files, m.read = true
  | .writes _ _ => ∃ m ∈ s.files, m.write = true
  | .setSize _ => True

/-- an open that finds a buffer finds one of the size that it sets -/
def PipeOp.KeepsSize (s : PipeSys) : PipeOp → Prop
  | .opens _ _ => ∀ n, s.dev.buffer = some n → s.scullPBuffer = n
  | _ => True

/-- the sizes are those of the buffer, the pointers are inside it, and there is no division by zero -/
def InBuffer (dev : ScullPipe) : Prop :=
  ∀ n, dev.buffer = some n → dev.buffersize = n ∧ dev.bufEnd = n ∧ (dev.rp < n ∨ dev.rp = 0) ∧ (dev.wp < n ∨ dev.wp = 0) ∧
    spacefree dev ≠ none

/-- what the call copies lies in the buffer -/
def CopiesInside (dev : ScullPipe) : PipeOp → Prop
  | .reads count _ => dev.rp ≠ dev.wp → ∃ n, dev.buffer = some n ∧ dev.rp + pipeReadCount dev count ≤ n
  | .writes buf _ => ∃ space, spacefree dev = some space ∧
      (space ≠ 0 → ∃ n, dev.buffer = some n ∧ dev.wp + pipeWriteCount dev space buf.length ≤ n)
  | _ => True

/-! ## Sizes and pointers -/

/-- the device has a buffer of `n` bytes, with the right sizes and both pointers inside it -/
structure Buffered (dev : ScullPipe) (n : ℕ) : Prop where
  buffer : dev.buffer = some n
  size_max : n < 2 ^ 31
  buffersize : dev.buffersize = n
  bufEnd : dev.bufEnd = n
  rp : dev.rp < n ∨ dev.rp = 0
  wp : dev.wp < n ∨ dev.wp = 0

section
variable {dev : ScullPipe} {n : ℕ}

theorem ulong_sub {a b : ℕ} (h : b ≤ a) (ha : a < 2 ^ 31) : ulong ((a : ℤ) - b) = a - b := by
  unfold ulong
  omega

/-- **A read copies inside the buffer.** -/
theorem Buffered.read (h : Buffered dev n) (count : ℕ) :
    pipeReadCount dev count ≤ Ring.readable n dev.rp dev.wp ∨ dev.rp = dev.wp := by
  have hn := h.size_max
  rcases Nat.lt_trichotomy dev.rp dev.wp with hlt | heq | hgt
  · have hw : dev.wp < n := by rcases h.wp with h | h <;> omega
    left
    unfold pipeReadCount Ring.readable
    rw [if_pos hlt, if_pos hlt.le, ulong_sub hlt.le (by omega)]
    exact min_le_right _ _
  · exact Or.inr heq
  · have hr : dev.rp < n := by rcases h.rp with h | h <;> omega
    left
    unfold pipeReadCount Ring.readable
    rw [if_neg (by omega), if_neg (by omega), h.bufEnd, ulong_sub hr.le hn]
    exact min_le_right _ _

theorem Buffered.read_end (h : Buffered dev n) (hne : dev.rp ≠ dev.wp) (count : ℕ) :
    dev.rp + pipeReadCount dev count ≤ n := by
  have hle := (h.read count).resolve_right hne
  unfold Ring.readable at hle
  have hw := h.wp
  have hr := h.rp
  split_ifs at hle <;> omega

/-- how much is free, in terms of what the buffer holds -/
theorem Buffered.spacefree (h : Buffered dev n) :
    Scull.spacefree dev = some ((n : ℤ) - 1 - (Ring.content dev.mem n dev.rp dev.wp).length) := by
  have hn := h.size_max
  rw [Ring.content_length]
  unfold Scull.spacefree
  by_cases heq : dev.rp = dev.wp
  · rw [if_pos heq, if_pos heq.le, h.buffersize, int32_of_bounds (by omega) (by omega)]
    congr 1
    omega
  · have hpos : 0 < n := by
      rcases h.rp with hr | hr
      · omega
      · rcases h.wp with hw | hw <;> omega
    have hr : dev.rp < n := by rcases h.rp with h | h <;> omega
    have hw : dev.wp < n := by rcases h.wp with h | h <;> omega
    have hb0 : dev.buffersize ≠ 0 := by
      rw [h.buffersize]
      omega
    rw [if_neg heq, if_neg hb0, h.buffersize, Int.tmod_eq_emod_of_nonneg (by omega)]
    congr 1
    by_cases hle : dev.rp ≤ dev.wp
    · have hmod : ((dev.rp : ℤ) + n - dev.wp) % n = (dev.rp : ℤ) + n - dev.wp := Int.emod_eq_of_lt (by omega) (by omega)
      rw [hmod, if_pos hle, int32_of_bounds (by omega) (by omega)]
      omega
    · have hmod : ((dev.rp : ℤ) + n - dev.wp) % n = (dev.rp : ℤ) - dev.wp := by
        rw [show (dev.rp : ℤ) + n - dev.wp = (dev.rp - dev.wp) + n by ring, Int.add_emod_right]
        exact Int.emod_eq_of_lt (by omega) (by omega)
      rw [hmod, if_neg hle, int32_of_bounds (by omega) (by omega)]
      omega

/-- **A write copies inside the buffer**, in a row. -/
theorem Buffered.write (h : Buffered dev n) (space : ℤ) (count : ℕ) :
    dev.wp + pipeWriteCount dev space count ≤ n ∧ (if dev.rp ≤ dev.wp then dev.wp + pipeWriteCount dev space count ≤ n
      else dev.wp + pipeWriteCount dev space count < dev.rp) := by
  have hn := h.size_max
  by_cases hle : dev.rp ≤ dev.wp
  · have hw : dev.wp ≤ n := by rcases h.wp with h | h <;> omega
    have hcount : pipeWriteCount dev space count ≤ n - dev.wp := by
      unfold pipeWriteCount
      rw [if_pos hle, h.bufEnd, ulong_sub hw hn]
      exact min_le_right _ _
    rw [if_pos hle]
    omega
  · have hr : dev.rp < n := by rcases h.rp with h | h <;> omega
    have hcount : pipeWriteCount dev space count ≤ dev.rp - dev.wp - 1 := by
      have hu : ulong ((dev.rp : ℤ) - dev.wp - 1) = dev.rp - dev.wp - 1 := by
        unfold ulong
        omega
      unfold pipeWriteCount
      rw [if_neg hle, hu]
      exact min_le_right _ _
    rw [if_neg hle]
    omega

/-- a pointer that is advanced up to the end of the buffer -/
theorem advance_inside {p k : ℕ} {e : ℤ} (he : e = n) (h : p + k ≤ n) :
    (if ((p + k : ℕ) : ℤ) = e then 0 else p + k) = Ring.wrap n (p + k) ∧
      (Ring.wrap n (p + k) < n ∨ Ring.wrap n (p + k) = 0) := by
  unfold Ring.wrap
  rw [he]
  by_cases heq : p + k = n
  · rw [if_pos (by omega), if_pos heq]
    exact ⟨rfl, Or.inr rfl⟩
  · rw [if_neg (by omega), if_neg heq]
    exact ⟨rfl, Or.inl (by omega)⟩

/-- **What a read does**: it takes bytes from the front, or nothing. -/
theorem scullPRead_spec (h : Buffered dev n) (count copied : ℕ) :
    ∃ ret k, (scullPRead dev count copied =
        ⟨ret, slice dev.mem dev.rp k, { dev with rp := Ring.wrap n (dev.rp + k) }⟩ ∧
        k ≤ Ring.readable n dev.rp dev.wp ∧ (Ring.wrap n (dev.rp + k) < n ∨ Ring.wrap n (dev.rp + k) = 0)) ∨
      scullPRead dev count copied = ⟨ret, [], dev⟩ := by
  unfold scullPRead
  by_cases heq : dev.rp = dev.wp
  · rw [if_pos heq]
    exact ⟨-EAGAIN, 0, Or.inr rfl⟩
  · rw [if_neg heq]
    simp only
    by_cases hc : copied < pipeReadCount dev count
    · rw [if_pos hc]
      exact ⟨- EFAULT, 0, Or.inr rfl⟩
    · obtain ⟨hadv, hin⟩ := advance_inside h.bufEnd (h.read_end heq count)
      rw [if_neg hc, hadv]
      exact ⟨_, _, Or.inl ⟨rfl, (h.read count).resolve_right heq, hin⟩⟩

/-- **What a write does** to the pointers: only `wp` moves, and stays inside. -/
theorem scullPWrite_spec (h : Buffered dev n) (buf : List UInt8) (copied : ℕ) :
    ∃ r mem wp, scullPWrite dev buf copied = some r ∧ r.dev = { dev with mem := mem, wp := wp } ∧ (wp < n ∨ wp = 0) := by
  unfold scullPWrite
  rw [h.spacefree]
  generalize (n : ℤ) - 1 - (Ring.content dev.mem n dev.rp dev.wp).length = space
  simp only
  by_cases hfull : space = 0
  · rw [if_pos hfull]
    exact ⟨_, _, _, rfl, rfl, h.wp⟩
  rw [if_neg hfull]
  by_cases hc : copied < pipeWriteCount dev space buf.length
  · rw [if_pos hc]
    exact ⟨_, _, _, rfl, rfl, h.wp⟩
  · obtain ⟨hadv, hin⟩ := advance_inside h.bufEnd (h.write space buf.length).1
    rw [if_neg hc, hadv]
    exact ⟨_, _, _, rfl, rfl, hin⟩

/-- **What a write does** when the user copy succeeds: it puts bytes at the back, and one byte of the buffer stays free. -/
theorem scullPWrite_push (h : Buffered dev n) (hn : 0 < n) (buf : List UInt8) {copied : ℕ} (hc : buf.length ≤ copied) :
    ∃ r k, scullPWrite dev buf copied = some r ∧ r.bytes = buf.take k ∧ r.dev = { dev with
        mem := splice dev.mem dev.wp r.bytes, wp := Ring.wrap n (dev.wp + r.bytes.length) } ∧
      (if dev.rp ≤ dev.wp then dev.wp + r.bytes.length ≤ n else dev.wp + r.bytes.length < dev.rp) ∧
      (Ring.content dev.mem n dev.rp dev.wp).length + r.bytes.length < n := by
  have hr : dev.rp < n := by rcases h.rp with h | h <;> omega
  have hw : dev.wp < n := by rcases h.wp with h | h <;> omega
  have hlen : (Ring.content dev.mem n dev.rp dev.wp).length < n := by
    rw [Ring.content_length]
    split_ifs <;> omega
  unfold scullPWrite
  rw [h.spacefree]
  generalize hspace : (n : ℤ) - 1 - (Ring.content dev.mem n dev.rp dev.wp).length = space
  simp only
  by_cases hfull : space = 0
  · rw [if_pos hfull]
    have hwrap : Ring.wrap n dev.wp = dev.wp := if_neg hw.ne
    refine ⟨_, 0, rfl, rfl, ?_, ?_, ?_⟩
    · simp [hwrap]
    · simp only [List.length_nil, Nat.add_zero]
      split_ifs <;> omega
    · exact hlen
  · rw [if_neg hfull]
    have hn31 := h.size_max
    obtain ⟨hend, hrow⟩ := h.write space buf.length
    have hcount : pipeWriteCount dev space buf.length ≤ buf.length ∧
        pipeWriteCount dev space buf.length ≤ ulong space := by
      unfold pipeWriteCount
      simp only
      split_ifs <;> omega
    have hul : (ulong space : ℤ) = space := ulong_of_bounds (by omega) (by omega)
    have hbytes : (buf.take (pipeWriteCount dev space buf.length)).length = pipeWriteCount dev space buf.length := by
      rw [List.length_take]
      omega
    rw [if_neg (by omega), (advance_inside h.bufEnd hend).1]
    refine ⟨_, pipeWriteCount dev space buf.length, rfl, rfl, ?_, ?_, ?_⟩
    · simp only [hbytes]
    · simp only [hbytes]
      exact hrow
    · simp only [hbytes]
      omega

theorem Buffered.setRp (h : Buffered dev n) {rp : ℕ} (hrp : rp < n ∨ rp = 0) : Buffered { dev with rp := rp } n :=
  ⟨h.buffer, h.size_max, h.buffersize, h.bufEnd, hrp, h.wp⟩

theorem Buffered.setWp (h : Buffered dev n) {mem : ℕ → UInt8} {wp : ℕ} (hwp : wp < n ∨ wp = 0) :
    Buffered { dev with mem := mem, wp := wp } n := ⟨h.buffer, h.size_max, h.buffersize, h.bufEnd, h.rp, hwp⟩

end

/-- **What an open does**: it sets the sizes and the pointers, of the buffer that it finds or of a new one. -/
theorem scullPOpen_spec (size : ℤ) (dev : ScullPipe) (mode : FMode) (kmalloc : Option (ℕ → UInt8)) :
    scullPOpen size dev mode kmalloc = (- ENOMEM, dev) ∨
      ∃ (n : ℕ) (mem : ℕ → UInt8), (dev.buffer = some n ∨ dev.buffer = none ∧ size = n) ∧
        scullPOpen size dev mode kmalloc = (0, ⟨some n, mem, size, size, 0, 0,
          (if mode.read then dev.nreaders + 1 else dev.nreaders),
          (if mode.write then dev.nwriters + 1 else dev.nwriters)⟩) := by
  rcases dev with ⟨_ | n, mem, bs, e, rp, wp, nr, nw⟩
  · cases kmalloc with
    | none => exact Or.inl rfl
    | some mem' =>
      by_cases h0 : 0 ≤ size
      · refine Or.inr ⟨size.toNat, mem', Or.inr ⟨rfl, (Int.toNat_of_nonneg h0).symm⟩, ?_⟩
        simp only [scullPOpen, pipeBuffer, if_pos h0]
      · left
        simp only [scullPOpen, pipeBuffer, if_neg h0]
  · exact Or.inr ⟨n, mem, Or.inl rfl, rfl⟩

/-! ## Every run -/

/-- what holds in every state that a run in which sizes are kept can reach -/
structure PipeInv (s : PipeSys) : Prop where
  size_min : -2 ^ 31 ≤ s.scullPBuffer
  size_max : s.scullPBuffer < 2 ^ 31
  buffered : ∀ n, s.dev.buffer = some n → Buffered s.dev n
  /-- while there is no buffer, no file is open for reading or writing -/
  files : s.dev.buffer = none → ∀ m ∈ s.files, m.read = false ∧ m.write = false
  readers : s.dev.nreaders = s.files.countP (·.read)
  writers : s.dev.nwriters = s.files.countP (·.write)

section
variable {s : PipeSys} {op : PipeOp}

theorem pipeInv_init (size : ℤ) : PipeInv (PipeSys.init size) where
  size_min := (int32_bounds size).1
  size_max := (int32_bounds size).2
  buffered := fun _ h => absurd h (by simp [PipeSys.init])
  files := fun _ m hm => absurd hm List.not_mem_nil
  readers := rfl
  writers := rfl

/-- the device changes between the start and the end of a buffer, and keeps its counts -/
theorem PipeInv.setDev (h : PipeInv s) {dev : ScullPipe} (hbuf : dev.buffer = s.dev.buffer)
    (hb : ∀ n, s.dev.buffer = some n → Buffered dev n) (hr : dev.nreaders = s.dev.nreaders)
    (hw : dev.nwriters = s.dev.nwriters) : PipeInv { s with dev := dev } :=
  ⟨h.size_min, h.size_max, fun n hn => hb n (hbuf ▸ hn), fun hnone => h.files (hbuf ▸ hnone), hr.trans h.readers,
    hw.trans h.writers⟩

/-- there is a buffer for every reader and every writer -/
theorem PipeInv.exists_buffer (h : PipeInv s) {m : FMode} (hm : m ∈ s.files) (hrw : m.read = true ∨ m.write = true) :
    ∃ n, Buffered s.dev n := by
  cases hb : s.dev.buffer with
  | some n => exact ⟨n, h.buffered n hb⟩
  | none =>
    obtain ⟨h1, h2⟩ := h.files hb m hm
    rw [h1, h2] at hrw
    exact absurd hrw (by simp)

theorem PipeInv.reads (h : PipeInv s) (count copied : ℕ) (hop : (PipeOp.reads count copied).Allowed s) :
    PipeInv (pipeStep s (.reads count copied)).1 := by
  obtain ⟨m, hm, hread⟩ := hop
  obtain ⟨n, hb⟩ := h.exists_buffer hm (Or.inl hread)
  obtain ⟨ret, k, ⟨hres, -, hin⟩ | hres⟩ := scullPRead_spec hb count copied
  · simp only [pipeStep, hres]
    exact h.setDev rfl (fun n' hn' => (h.buffered n' hn').setRp (by
      rw [hb.buffer, Option.some.injEq] at hn'
      exact hn' ▸ hin)) rfl rfl
  · simp only [pipeStep, hres]
    exact h

theorem PipeInv.writes (h : PipeInv s) (buf : List UInt8) (copied : ℕ) (hop : (PipeOp.writes buf copied).Allowed s) :
    PipeInv (pipeStep s (.writes buf copied)).1 := by
  obtain ⟨m, hm, hwrite⟩ := hop
  obtain ⟨n, hb⟩ := h.exists_buffer hm (Or.inr hwrite)
  obtain ⟨r, mem, wp, hres, hdev, hin⟩ := scullPWrite_spec hb buf copied
  simp only [pipeStep, hres, hdev]
  exact h.setDev rfl (fun n' hn' => (h.buffered n' hn').setWp (by
    rw [hb.buffer, Option.some.injEq] at hn'
    exact hn' ▸ hin)) rfl rfl

/-- an open counts the file -/
theorem countP_cons_int (m : FMode) (l : List FMode) (p : FMode → Bool) :
    ((m :: l).countP p : ℤ) = if p m then (l.countP p : ℤ) + 1 else l.countP p := by
  rw [List.countP_cons]
  cases p m with
  | false => simp
  | true => simp

theorem PipeInv.opens (h : PipeInv s) (mode : FMode) (kmalloc : Option (ℕ → UInt8))
    (hop : (PipeOp.opens mode kmalloc).KeepsSize s) : PipeInv (pipeStep s (.opens mode kmalloc)).1 := by
  rcases scullPOpen_spec s.scullPBuffer s.dev mode kmalloc with hres | ⟨n, mem, hor, hres⟩
  · have hnomem : (- ENOMEM : ℤ) ≠ 0 := by decide
    simp only [pipeStep, hres, if_neg hnomem]
    exact h
  · have hsize : s.scullPBuffer = n := by
      rcases hor with hb | ⟨-, hsize⟩
      · exact hop n hb
      · exact hsize
    have hmax := h.size_max
    simp only [pipeStep, hres, if_true]
    refine ⟨h.size_min, h.size_max, fun n' hn' => ?_, fun hnone => absurd hnone (by simp), ?_, ?_⟩
    · have hnn : n = n' := Option.some.inj hn'
      rw [← hnn]
      exact ⟨rfl, by omega, hsize, hsize, Or.inr rfl, Or.inr rfl⟩
    · simp only [h.readers, countP_cons_int]
    · simp only [h.writers, countP_cons_int]

theorem countP_erase_int {m : FMode} {l : List FMode} (hm : m ∈ l) (p : FMode → Bool) :
    ((l.erase m).countP p : ℤ) = if p m then (l.countP p : ℤ) - 1 else l.countP p := by
  have h := List.countP_erase p l m
  by_cases hp : p m = true
  · have hpos : 0 < l.countP p := List.countP_pos_iff.2 ⟨m, hm, hp⟩
    rw [if_pos ⟨hm, hp⟩] at h
    rw [if_pos hp, h]
    omega
  · rw [if_neg fun hor => hp hor.2] at h
    rw [if_neg hp, h, Nat.sub_zero]

theorem PipeInv.release (h : PipeInv s) (mode : FMode) (hop : (PipeOp.release mode).Allowed s) :
    PipeInv (pipeStep s (.release mode)).1 := by
  have hr : (if mode.read then s.dev.nreaders - 1 else s.dev.nreaders) = ((s.files.erase mode).countP (·.read) : ℤ) := by
    rw [countP_erase_int hop, h.readers]
  have hw : (if mode.write then s.dev.nwriters - 1 else s.dev.nwriters) = ((s.files.erase mode).countP (·.write) : ℤ) := by
    rw [countP_erase_int hop, h.writers]
  simp only [pipeStep, scullPRelease, hr, hw]
  by_cases hzero : ((s.files.erase mode).countP (·.read) : ℤ) + (s.files.erase mode).countP (·.write) = 0
  · rw [if_pos hzero]
    refine ⟨h.size_min, h.size_max, fun n hn => absurd hn (by simp), fun _ m hm => ?_, rfl, rfl⟩
    have h1 : (s.files.erase mode).countP (·.read) = 0 := by omega
    have h2 : (s.files.erase mode).countP (·.write) = 0 := by omega
    rw [List.countP_eq_zero] at h1 h2
    exact ⟨(Bool.not_eq_true _).mp (h1 m hm), (Bool.not_eq_true _).mp (h2 m hm)⟩
  · rw [if_neg hzero]
    refine ⟨h.size_min, h.size_max, fun n hn => ?_, fun hnone m hm => h.files hnone m (List.mem_of_mem_erase hm), rfl, rfl⟩
    have hb := h.buffered n hn
    exact ⟨hb.buffer, hb.size_max, hb.buffersize, hb.bufEnd, hb.rp, hb.wp⟩

/-- **One call keeps the invariant.** -/
theorem pipeInv_step (h : PipeInv s) (hop : op.Allowed s) (hsize : op.KeepsSize s) : PipeInv (pipeStep s op).1 := by
  cases op with
  | opens mode kmalloc => exact h.opens mode kmalloc hsize
  | release mode => exact h.release mode hop
  | reads count copied => exact h.reads count copied hop
  | writes buf copied => exact h.writes buf copied hop
  | setSize arg =>
    exact ⟨(int32_bounds arg).1, (int32_bounds arg).2, h.buffered, h.files, h.readers, h.writers⟩

theorem PipeInv.inBuffer (h : PipeInv s) : InBuffer s.dev := by
  intro n hn
  have hb := h.buffered n hn
  exact ⟨hb.buffersize, hb.bufEnd, hb.rp, hb.wp, by rw [hb.spacefree]; simp⟩

theorem PipeInv.copiesInside (h : PipeInv s) (hop : op.Allowed s) : CopiesInside s.dev op := by
  cases op with
  | reads count copied =>
    intro hne
    obtain ⟨m, hm, hread⟩ := hop
    obtain ⟨n, hb⟩ := h.exists_buffer hm (Or.inl hread)
    exact ⟨n, hb.buffer, hb.read_end hne count⟩
  | writes buf copied =>
    obtain ⟨m, hm, hwrite⟩ := hop
    obtain ⟨n, hb⟩ := h.exists_buffer hm (Or.inr hwrite)
    exact ⟨_, hb.spacefree, fun _ => ⟨n, hb.buffer, (hb.write _ buf.length).1⟩⟩
  | _ => trivial

/-- **The pipe stays in its buffer** in every run in which an open finds no buffer of another size than it sets. -/
theorem pipe_in_bounds (size : ℤ) {ops : List PipeOp}
    (hops : Meets (next pipeStep) (fun s op => op.Allowed s ∧ op.KeepsSize s) (PipeSys.init size) ops) :
    InBuffer (run (next pipeStep) (PipeSys.init size) ops).dev ∧
      Meets (next pipeStep) (fun s op => InBuffer s.dev ∧ CopiesInside s.dev op) (PipeSys.init size) ops := by
  have hstep : ∀ (s : PipeSys) (op : PipeOp), PipeInv s → op.Allowed s ∧ op.KeepsSize s → PipeInv (next pipeStep s op) :=
    fun _ _ h hop => pipeInv_step h hop.1 hop.2
  have hgood : ∀ (s : PipeSys) (op : PipeOp), PipeInv s → op.Allowed s ∧ op.KeepsSize s →
      InBuffer s.dev ∧ CopiesInside s.dev op := fun _ _ h hop => ⟨h.inBuffer, h.copiesInside hop.1⟩
  exact ⟨(run_inv hstep (pipeInv_init size) hops).inBuffer, meets_of_inv hstep hgood (pipeInv_init size) hops⟩

end

/-! ## A buffer of another size -/

/-- a file that is open for reading and writing -/
def readWrite : FMode := ⟨true, true⟩

/-- a process opens a pipe of 4 bytes, writes and reads, and changes the size for the buffers to come -/
theorem pipe_in_bounds_small : InBuffer (run (next pipeStep) (PipeSys.init 4)
    [.opens readWrite (some fun _ => 0), .writes [1, 2, 3, 4, 5] 5, .setSize 8, .reads 2 2]).dev := by
  have hops : Meets (next pipeStep) (fun s op => op.Allowed s ∧ op.KeepsSize s) (PipeSys.init 4)
      [.opens readWrite (some fun _ => 0), .writes [1, 2, 3, 4, 5] 5, .setSize 8, .reads 2 2] :=
    ⟨⟨trivial, fun n hn => absurd hn (by simp [PipeSys.init])⟩, ⟨⟨readWrite, by decide, rfl⟩, trivial⟩,
      ⟨trivial, trivial⟩, ⟨⟨readWrite, by decide, rfl⟩, trivial⟩, trivial⟩
  exact (pipe_in_bounds 4 hops).1

/-- **A pipe that leaves its buffer**: 7 bytes are written to a buffer of 4. -/
theorem pipe_out_of_bounds : ¬ ∀ (size : ℤ) (ops : List PipeOp),
    Meets (next pipeStep) (fun s op => op.Allowed s) (PipeSys.init size) ops →
    InBuffer (run (next pipeStep) (PipeSys.init size) ops).dev ∧
      Meets (next pipeStep) (fun s op => CopiesInside s.dev op) (PipeSys.init size) ops := by
  intro hall
  have hopen : ∀ s : PipeSys, readWrite ∈ (next pipeStep s (.opens readWrite (some fun _ => 0))).files →
      (PipeOp.writes [1, 2, 3, 4, 5, 6, 7] 7).Allowed (next pipeStep s (.opens readWrite (some fun _ => 0))) :=
    fun s hm => ⟨readWrite, hm, rfl⟩
  have h := (hall 4 [.opens readWrite (some fun _ => 0), .setSize 8, .opens readWrite (some fun _ => 0),
    .writes [1, 2, 3, 4, 5, 6, 7] 7] ⟨trivial, trivial, trivial, hopen _ (by decide), trivial⟩).2.2.2.2.1
  obtain ⟨space, hspace, hcopy⟩ := h
  have h7 : space = 7 := by
    have hcalc : spacefree (next pipeStep (next pipeStep (next pipeStep (PipeSys.init 4)
      (.opens readWrite (some fun _ => 0))) (.setSize 8)) (.opens readWrite (some fun _ => 0))).dev = some 7 := by decide
    exact Option.some.inj (hspace.symm.trans hcalc)
  subst h7
  obtain ⟨n, hn, hle⟩ := hcopy (by decide)
  have hn4 : n = 4 := Option.some.inj (hn.symm.trans (by decide))
  subst hn4
  exact absurd hle (by decide)

end AtsLdd.Scull
