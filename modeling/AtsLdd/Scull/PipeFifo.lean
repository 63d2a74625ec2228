/-
What the pipe device is for: a queue of bytes.

`fifo` is the queue: a write puts some first part of its bytes at the back, a read takes its bytes from the front, and
nothing else changes the queue.

- `fifo_law`: along a run of the queue, the bytes put into it are the bytes taken from it and then those still in it;
- `pipe_fifo`: the pipe is such a queue in every run in which no open, and no release by the last reader or writer, finds
  bytes in the buffer;
- `pipe_not_fifo`: an open by a second process throws away the bytes that are in the buffer.
-/
import AtsLdd.Scull.Pipe

namespace AtsLdd.Scull

open AtsLdd.Machine AtsLdd.ByteMap AtsLdd.Run

/-! ## The queue -/

/-- a step of the queue: `bytes` are the bytes that the call has moved -/
def fifo (q : List UInt8) (op : PipeOp) (bytes q' : List UInt8) : Prop :=
  match op with
  | .writes buf _ => (∃ k, bytes = buf.take k) ∧ q' = q ++ bytes
  | .reads _ _ => q = bytes ++ q'
  | _ => q' = q

/-- the bytes that the writes of a run accepted -/
def accepted (t : List (PipeOp × List UInt8)) : List UInt8 :=
  t.flatMap fun e => match e.1 with
    | .writes _ _ => e.2
    | _ => []

/-- the bytes that the reads of a run returned -/
def returned (t : List (PipeOp × List UInt8)) : List UInt8 :=
  t.flatMap fun e => match e.1 with
    | .reads _ _ => e.2
    | _ => []

/-- **The law of the queue**: what is put in comes out in the same order, or is still there. -/
theorem fifo_law {q q' : List UInt8} {t : List (PipeOp × List UInt8)} (h : Accepts fifo q t q') :
    q ++ accepted t = returned t ++ q' := by
  induction t generalizing q with
  | nil =>
    obtain rfl : q = q' := h
    simp [accepted, returned]
  | cons e t ih =>
    obtain ⟨r, hstep, hrest⟩ := h
    have h1 := ih hrest
    have hacc : accepted (e :: t) = (match e.1 with | .writes _ _ => e.2 | _ => []) ++ accepted t := rfl
    have hret : returned (e :: t) = (match e.1 with | .reads _ _ => e.2 | _ => []) ++ returned t := rfl
    rw [hacc, hret]
    rcases e with ⟨op, bytes⟩
    cases op with
    | writes buf copied =>
      rw [List.nil_append, ← List.append_assoc, ← h1, hstep.2]
    | reads count copied =>
      have hq : q = bytes ++ r := hstep
      rw [List.nil_append, List.append_assoc, ← h1, hq, List.append_assoc]
    | opens mode kmalloc =>
      obtain rfl : r = q := hstep
      simpa using h1
    | release mode =>
      obtain rfl : r = q := hstep
      simpa using h1
    | setSize arg =>
      obtain rfl : r = q := hstep
      simpa using h1

/-! ## The pipe as a queue -/

/-- the bytes held between `rp` and `wp` -/
def held (dev : ScullPipe) : List UInt8 :=
  match dev.buffer with
  | none => []
  | some n => Ring.content dev.mem n dev.rp dev.wp

/-- the size is not changed, and user copies succeed -/
def PipeOp.Quiet : PipeOp → Prop
  | .reads count copied => count ≤ copied
  | .writes buf copied => buf.length ≤ copied
  | .setSize _ => False
  | _ => True

/-- an open finds no bytes in the buffer, and neither does a release that frees it -/
def PipeOp.KeepsBytes (s : PipeSys) : PipeOp → Prop
  | .opens _ _ => s.dev.rp = s.dev.wp
  | .release mode => (scullPRelease s.dev mode).buffer = none → s.dev.rp = s.dev.wp
  | _ => True

/-- what holds in every state of a run with one size, of at least 2 bytes -/
structure FifoInv (s : PipeSys) : Prop where
  inv : PipeInv s
  size : 2 ≤ s.scullPBuffer
  same : ∀ n, s.dev.buffer = some n → s.scullPBuffer = n

section
variable {s : PipeSys} {op : PipeOp} {n : ℕ}

theorem held_of_buffer {dev : ScullPipe} (h : dev.buffer = some n) : held dev = Ring.content dev.mem n dev.rp dev.wp := by
  unfold held
  rw [h]

theorem held_of_eq {dev : ScullPipe} (h : dev.rp = dev.wp) : held dev = [] := by
  unfold held
  rw [h]
  cases dev.buffer with
  | none => rfl
  | some n => exact Ring.content_self _ _ _

/-- a release keeps the bytes and the pointers, and the buffer unless it frees it -/
theorem scullPRelease_spec (dev : ScullPipe) (mode : FMode) : ∃ nr nw,
    scullPRelease dev mode = { dev with nreaders := nr, nwriters := nw } ∨
      scullPRelease dev mode = { dev with nreaders := nr, nwriters := nw, buffer := none } := by
  unfold scullPRelease
  generalize (if mode.read then dev.nreaders - 1 else dev.nreaders) = nr
  generalize (if mode.write then dev.nwriters - 1 else dev.nwriters) = nw
  refine ⟨nr, nw, ?_⟩
  simp only
  by_cases hzero : nr + nw = 0
  · rw [if_pos hzero]
    exact Or.inr rfl
  · rw [if_neg hzero]
    exact Or.inl rfl

theorem FifoInv.keepsSize (h : FifoInv s) : op.KeepsSize s := by
  cases op with
  | opens mode kmalloc => exact h.same
  | _ => trivial

theorem FifoInv.step (h : FifoInv s) (hop : op.Allowed s) (hq : op.Quiet) : FifoInv (next pipeStep s op) := by
  have hinv := pipeInv_step h.inv hop h.keepsSize
  cases op with
  | setSize arg => exact hq.elim
  | opens mode kmalloc =>
    refine ⟨hinv, h.size, ?_⟩
    intro n hn
    have hb := hinv.buffered n hn
    rcases scullPOpen_spec s.scullPBuffer s.dev mode kmalloc with hres | ⟨k, mem, hor, hres⟩
    · simp only [next, pipeStep, hres] at hn
      exact h.same n hn
    · simp only [next, pipeStep, hres] at hn hb
      exact hb.buffersize
  | release mode =>
    refine ⟨hinv, h.size, fun n hn => h.same n ?_⟩
    obtain ⟨nr, nw, hres | hres⟩ := scullPRelease_spec s.dev mode
    · simpa only [next, pipeStep, hres] using hn
    · simp only [next, pipeStep, hres, reduceCtorEq] at hn
  | reads count copied =>
    refine ⟨hinv, h.size, fun n hn => h.same n ?_⟩
    obtain ⟨m, hm, hread⟩ := hop
    obtain ⟨k, hb⟩ := h.inv.exists_buffer hm (Or.inl hread)
    obtain ⟨ret, j, ⟨hres, -⟩ | hres⟩ := scullPRead_spec hb count copied
    · simpa only [next, pipeStep, hres] using hn
    · simpa only [next, pipeStep, hres] using hn
  | writes buf copied =>
    obtain ⟨m, hm, hwrite⟩ := hop
    obtain ⟨k, hb⟩ := h.inv.exists_buffer hm (Or.inr hwrite)
    obtain ⟨r, mem, wp, hres, hdev, -⟩ := scullPWrite_spec hb buf copied
    have hnext : next pipeStep s (.writes buf copied) = { s with dev := { s.dev with mem := mem, wp := wp } } := by
      simp only [next, pipeStep, hres, hdev]
    rw [hnext]
    exact ⟨hnext ▸ hinv, h.size, h.same⟩

/-- **One call of the pipe is a step of the queue.** -/
theorem FifoInv.sim (h : FifoInv s) (hop : op.Allowed s) (hq : op.Quiet) (hk : op.KeepsBytes s) :
    fifo (held s.dev) op (pipeStep s op).2 (held (next pipeStep s op).dev) := by
  cases op with
  | setSize arg => exact hq.elim
  | opens mode kmalloc =>
    have hempty := held_of_eq hk
    rcases scullPOpen_spec s.scullPBuffer s.dev mode kmalloc with hres | ⟨k, mem, -, hres⟩
    · simp only [fifo, next, pipeStep, hres]
    · simp only [fifo, next, pipeStep, hres, hempty]
      exact held_of_eq rfl
  | release mode =>
    have hsame : held (scullPRelease s.dev mode) = held s.dev := by
      cases hb : (scullPRelease s.dev mode).buffer with
      | none =>
        rw [held_of_eq (hk hb)]
        unfold held
        rw [hb]
      | some n =>
        obtain ⟨nr, nw, hres | hres⟩ := scullPRelease_spec s.dev mode
        · rw [hres]
          rfl
        · rw [hres] at hb
          exact absurd hb (by simp)
    exact hsame
  | reads count copied =>
    obtain ⟨m, hm, hread⟩ := hop
    obtain ⟨n, hb⟩ := h.inv.exists_buffer hm (Or.inl hread)
    have hn : 2 ≤ n := by
      have h1 := h.size
      have h2 := h.same n hb.buffer
      omega
    obtain ⟨ret, k, ⟨hres, hk, -⟩ | hres⟩ := scullPRead_spec hb count copied
    · have hw : s.dev.wp < n := by rcases hb.wp with h | h <;> omega
      have hr : s.dev.rp < n := by rcases hb.rp with h | h <;> omega
      simp only [fifo, next, pipeStep, hres]
      rw [held_of_buffer hb.buffer, held_of_buffer (hb.setRp (Or.inl (Ring.wrap_lt (by
        unfold Ring.readable at hk
        split_ifs at hk <;> omega) (by omega)))).buffer]
      exact Ring.content_pop s.dev.mem hw hk hr
    · simp only [fifo, next, pipeStep, hres, List.nil_append]
  | writes buf copied =>
    obtain ⟨m, hm, hwrite⟩ := hop
    obtain ⟨n, hb⟩ := h.inv.exists_buffer hm (Or.inr hwrite)
    have hn : 2 ≤ n := by
      have h1 := h.size
      have h2 := h.same n hb.buffer
      omega
    have hr : s.dev.rp < n := by rcases hb.rp with h | h <;> omega
    obtain ⟨r, k, hres, hbytes, hdev, hrow, hfree⟩ := scullPWrite_push hb (by omega) buf hq
    simp only [fifo, next, pipeStep, hres]
    refine ⟨⟨k, hbytes⟩, ?_⟩
    have hbuf : r.dev.buffer = some n := by
      rw [hdev]
      exact hb.buffer
    rw [held_of_buffer hbuf, held_of_buffer hb.buffer, ← Ring.content_push s.dev.mem hr hrow hfree, hdev]

/-- **The pipe is a queue** in every run with one size, in which no open finds bytes in the buffer, and no release by the
last reader or writer does. -/
theorem pipe_fifo {size : ℤ} (hsize : 2 ≤ (PipeSys.init size).scullPBuffer) {ops : List PipeOp}
    (hops : Meets (next pipeStep) (fun s op => (op.Allowed s ∧ op.Quiet) ∧ op.KeepsBytes s) (PipeSys.init size) ops) :
    Accepts fifo [] (trace pipeStep (PipeSys.init size) ops) (held (run (next pipeStep) (PipeSys.init size) ops).dev) ∧
      accepted (trace pipeStep (PipeSys.init size) ops) = returned (trace pipeStep (PipeSys.init size) ops) ++
        held (run (next pipeStep) (PipeSys.init size) ops).dev := by
  have hstep : ∀ (s : PipeSys) (op : PipeOp), FifoInv s → (op.Allowed s ∧ op.Quiet) ∧ op.KeepsBytes s →
      FifoInv (next pipeStep s op) := fun _ _ h hop => h.step hop.1.1 hop.1.2
  have hsim : ∀ (s : PipeSys) (op : PipeOp), FifoInv s → (op.Allowed s ∧ op.Quiet) ∧ op.KeepsBytes s →
      fifo (held s.dev) op (pipeStep s op).2 (held (next pipeStep s op).dev) := fun _ _ h hop => h.sim hop.1.1 hop.1.2 hop.2
  have hinit : FifoInv (PipeSys.init size) :=
    ⟨pipeInv_init size, hsize, fun n hn => absurd hn (by simp [PipeSys.init])⟩
  have hacc : Accepts fifo (held (PipeSys.init size).dev) (trace pipeStep (PipeSys.init size) ops)
      (held (run (next pipeStep) (PipeSys.init size) ops).dev) :=
    @trace_accepted _ _ _ _ _ _ _ (fun s : PipeSys => held s.dev) fifo hstep hsim _ _ hinit hops
  exact ⟨hacc, fifo_law hacc⟩

end

/-- two processes open a pipe of 4 bytes before one of them writes, and the other one reads twice -/
theorem pipe_fifo_small : accepted (trace pipeStep (PipeSys.init 4) [.opens readWrite (some fun _ => 0),
      .opens readWrite none, .writes [1, 2, 3, 4] 4, .reads 2 2, .writes [5] 1, .reads 9 9]) = [1, 2, 3, 5] := by
  have hops : Meets (next pipeStep) (fun s op => (op.Allowed s ∧ op.Quiet) ∧ op.KeepsBytes s) (PipeSys.init 4)
      [.opens readWrite (some fun _ => 0), .opens readWrite none, .writes [1, 2, 3, 4] 4, .reads 2 2, .writes [5] 1,
        .reads 9 9] :=
    ⟨⟨⟨trivial, trivial⟩, rfl⟩, ⟨⟨trivial, trivial⟩, rfl⟩, ⟨⟨⟨readWrite, by decide, rfl⟩, le_rfl⟩, trivial⟩,
      ⟨⟨⟨readWrite, by decide, rfl⟩, le_rfl⟩, trivial⟩, ⟨⟨⟨readWrite, by decide, rfl⟩, le_rfl⟩, trivial⟩,
      ⟨⟨⟨readWrite, by decide, rfl⟩, le_rfl⟩, trivial⟩, trivial⟩
  rw [(pipe_fifo (show 2 ≤ (PipeSys.init 4).scullPBuffer by decide) hops).2]
  decide

/-- **A pipe that loses bytes**: a process writes 2 bytes, and another one opens the device. -/
theorem pipe_not_fifo : ¬ ∀ (size : ℤ) (ops : List PipeOp), 2 ≤ (PipeSys.init size).scullPBuffer →
    Meets (next pipeStep) (fun s op => op.Allowed s ∧ op.Quiet) (PipeSys.init size) ops →
    accepted (trace pipeStep (PipeSys.init size) ops) = returned (trace pipeStep (PipeSys.init size) ops) ++
      held (run (next pipeStep) (PipeSys.init size) ops).dev := by
  intro hall
  have h := hall 4 [.opens readWrite (some fun _ => 0), .writes [1, 2] 2, .opens readWrite none] (by decide)
    ⟨⟨trivial, trivial⟩, ⟨⟨readWrite, by decide, rfl⟩, le_rfl⟩, ⟨trivial, trivial⟩, trivial⟩
  revert h
  decide

end AtsLdd.Scull
