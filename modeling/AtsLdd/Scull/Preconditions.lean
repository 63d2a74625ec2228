/-
What the C callers of the scull device establish for the ATS functions.

`scull_read_main` and `scull_write_main` require a positive geometry, an array index and a quantum offset inside it, the
position to be exactly `(ln * m + i) * n + j`, and for a read a node inside the list (`CallOk`). The parameters
`scull_quantum` and `scull_qset` are set by module parameters and ioctls without any check, and a trim installs them.

- `calls_ok`: in every run in which each geometry that is installed is positive with a product inside `int` (`Valid`) and
  each write is at an index below `INT_MAX`, every call meets the preconditions and no step faults;
- `preconditions_fail`: an ioctl sets the quantum to 0, a write-only open installs it, and the next write divides by 0.
-/
import AtsLdd.Scull.Sparse

namespace AtsLdd.Scull

open AtsLdd.Machine AtsLdd.ByteMap AtsLdd.Run

/-! ## Preconditions -/

/-- what `scull.sats` asks of the arguments of both calls at position `pos` -/
structure CallOk (pos : ℤ) (a : MainArgs) : Prop where
  m_pos : 0 < a.m
  n_pos : 0 < a.n
  i_range : 0 ≤ a.i ∧ a.i < a.m
  j_range : 0 ≤ a.j ∧ a.j < a.n
  pos_eq : pos = (a.ln * a.m + a.i) * a.n + a.j
  ln_nonneg : 0 ≤ a.ln

/-- the calls of an operation meet the preconditions, and the operation ends with an answer -/
def CallsOk (s : Sys) (op : Op) : Prop :=
  (∃ v out, (step s op).2 = .ret v out) ∧
  match op with
  | .reads f count _ => ∃ r, scullReadArgs s.dev s.dev.mQset s.dev.nQuantum count (s.fpos f) = .ok r ∧
      ∀ a, r = some a → CallOk (s.fpos f) a ∧ a.ln < s.dev.lnQlst
  | .writes f buf _ _ => ∃ a, scullWriteArgs s.dev.mQset s.dev.nQuantum buf.length (s.fpos f) = .ok a ∧
      CallOk (s.fpos f) a
  | _ => True

/-- a geometry that the arithmetic of `scull_read` and `scull_write` can use -/
def Valid (par : Params) : Prop := 0 < par.scullQset ∧ 0 < par.scullQuantum ∧
  par.scullQset * par.scullQuantum ≤ INT_MAX

instance (par : Params) : Decidable (Valid par) := inferInstanceAs (Decidable (_ ∧ _ ∧ _))

/-- the steps of a run: a trim installs a valid geometry, a write is at an index below `INT_MAX`, counts are those the
VFS passes and offsets are of type `loff_t`; ioctls are arbitrary -/
def Fits (s : Sys) : Op → Prop
  | .opens _ wronly => wronly = true → Valid s.par
  | .reads _ count _ => count ≤ MAX_RW_COUNT
  | .writes f buf _ _ => buf.length ≤ MAX_RW_COUNT ∧ (s.fpos f).tdiv (s.dev.mQset * s.dev.nQuantum) < INT_MAX
  | .llseek _ off _ => -2 ^ 63 ≤ off ∧ off < 2 ^ 63
  | .ioctl _ _ _ => True

/-! ## The invariant -/

/-- the device has some valid geometry, and every position is a non-negative `loff_t` -/
structure GeomInv (s : Sys) : Prop where
  dev : ∃ m n, DevInv m n s.dev
  fpos : ∀ f, ∃ p : ℕ, s.fpos f = p ∧ p < 2 ^ 63

theorem callOk_natCast {m n p : ℕ} (hm : 0 < m) (hn : 0 < n) (cnt : ℤ) :
    CallOk p ⟨m, n, (p / n / m : ℕ), (p / n % m : ℕ), (p % n : ℕ), cnt⟩ := by
  have h1 := Nat.div_add_mod p n
  have h2 := Nat.div_add_mod (p / n) m
  refine ⟨by simpa using hm, by simpa using hn, ⟨Int.natCast_nonneg _, Int.ofNat_lt.2 (Nat.mod_lt _ hm)⟩,
    ⟨Int.natCast_nonneg _, Int.ofNat_lt.2 (Nat.mod_lt _ hn)⟩, ?_, Int.natCast_nonneg _⟩
  have hp : p = (p / n / m * m + p / n % m) * n + p % n := by
    calc p = n * (p / n) + p % n := h1.symm
      _ = n * (m * (p / n / m) + p / n % m) + p % n := by rw [h2]
      _ = (p / n / m * m + p / n % m) * n + p % n := by ring
  change (p : ℤ) = (((p / n / m : ℕ) : ℤ) * m + (p / n % m : ℕ)) * n + (p % n : ℕ)
  exact_mod_cast hp

/-- the call of a read on a device with a valid geometry, at any position and any count of the VFS -/
theorem readArgs_ok {m n : ℕ} {dev : ScullDev} (h : DevInv m n dev) {p : ℕ} (hp : p < 2 ^ 63) {count : ℕ}
    (hcount : count ≤ MAX_RW_COUNT) :
    ∃ r, scullReadArgs dev m n count p = .ok r ∧ ∀ a, r = some a → CallOk p a ∧ a.ln < dev.lnQlst := by
  have hidx : p < dev.size → ((p / n / m : ℕ) : ℤ) ≤ INT_MAX := fun hlt =>
    le_trans (Int.ofNat_le.2 (le_of_lt (h.index_lt hlt))) h.len
  rw [scullReadArgs_spec h.m_pos h.n_pos h.mn h.size_lt hp hidx hcount]
  by_cases hge : dev.size ≤ p
  · rw [if_pos hge]
    exact ⟨_, rfl, fun a ha => absurd ha (by simp)⟩
  · rw [if_neg hge]
    refine ⟨_, rfl, fun a ha => ?_⟩
    obtain rfl := Option.some.inj ha
    refine ⟨callOk_natCast h.m_pos h.n_pos _, ?_⟩
    rw [h.ln]
    exact Int.ofNat_lt.2 (h.index_lt (not_le.1 hge))

/-- the call of a write at an index below `INT_MAX` -/
theorem writeArgs_ok {m n : ℕ} {dev : ScullDev} (h : DevInv m n dev) {p : ℕ} (hp : ((p / n / m : ℕ) : ℤ) < INT_MAX)
    {count : ℕ} (hcount : count ≤ MAX_RW_COUNT) :
    ∃ a, scullWriteArgs m n count p = .ok a ∧ CallOk p a :=
  ⟨_, scullWriteArgs_spec h.m_pos h.n_pos h.mn (le_of_lt hp) hcount, callOk_natCast h.m_pos h.n_pos _⟩

theorem GeomInv.update {s : Sys} (h : GeomInv s) {dev : ScullDev} (hdev : ∃ m n, DevInv m n dev) (f : ℕ) {p : ℕ}
    (hp : p < 2 ^ 63) : GeomInv { s with dev := dev, fpos := Function.update s.fpos f (p : ℤ) } := by
  refine ⟨hdev, fun g => ?_⟩
  by_cases hg : g = f
  · subst hg; exact ⟨p, by simp, hp⟩
  · simpa [Function.update_of_ne hg] using h.fpos g

/-- a trim to a valid geometry -/
theorem geom_trim {par : Params} (h : Valid par) (dev : ScullDev) : ∃ m n, DevInv m n (scullTrim dev par) := by
  obtain ⟨hm, hn, hmn⟩ := h
  obtain ⟨m, hmeq⟩ := Int.eq_ofNat_of_zero_le (le_of_lt hm)
  obtain ⟨n, hneq⟩ := Int.eq_ofNat_of_zero_le (le_of_lt hn)
  refine ⟨m, n, ?_⟩
  unfold scullTrim
  rw [hmeq, hneq] at hmn ⊢
  exact devInv_trim (by omega) (by omega) (by exact_mod_cast hmn) dev

theorem geomInv_init {par : Params} (h : Valid par) : GeomInv (initSys par) :=
  ⟨geom_trim h ⟨0, 0, [], 0, 0⟩, fun _ => ⟨0, rfl, by norm_num⟩⟩

/-! ## One step -/

theorem calls_opens {s : Sys} (h : GeomInv s) (f : ℕ) (wronly : Bool) (hop : wronly = true → Valid s.par) :
    GeomInv (next step s (.opens f wronly)) ∧ CallsOk s (.opens f wronly) := by
  refine ⟨h.update ?_ f (p := 0) (by norm_num), ⟨0, [], rfl⟩, trivial⟩
  cases wronly with
  | true => exact geom_trim (hop rfl) s.dev
  | false => exact h.dev

theorem calls_reads {s : Sys} (h : GeomInv s) (f : ℕ) {count : ℕ} (hcount : count ≤ MAX_RW_COUNT) (copied : ℕ) :
    GeomInv (next step s (.reads f count copied)) ∧ CallsOk s (.reads f count copied) := by
  obtain ⟨m, n, hdev⟩ := h.dev
  obtain ⟨p, hp, hpmax⟩ := h.fpos f
  have hargs := readArgs_ok hdev hpmax hcount
  have hread := scullRead_spec hdev hpmax hcount copied
  rw [← hdev.qset, ← hdev.quantum, ← hp] at hargs
  simp only [CallsOk, next, step, hdev.qset, hdev.quantum, hp, hread] at hargs ⊢
  split_ifs with hge hc
  · exact ⟨h.update h.dev f hpmax, ⟨_, _, rfl⟩, hargs⟩
  · have hend := readLen_le_size n (not_le.1 hge) count
    exact ⟨h.update h.dev f (lt_of_le_of_lt hend (hdev.size_lt.trans (by norm_num))), ⟨_, _, rfl⟩, hargs⟩
  · exact ⟨h.update h.dev f hpmax, ⟨_, _, rfl⟩, hargs⟩

theorem calls_writes {s : Sys} (h : GeomInv s) (f : ℕ) {buf : List UInt8} (mem : ℕ → Bool) (copied : ℕ)
    (hbuf : buf.length ≤ MAX_RW_COUNT) (hidx : (s.fpos f).tdiv (s.dev.mQset * s.dev.nQuantum) < INT_MAX) :
    GeomInv (next step s (.writes f buf mem copied)) ∧ CallsOk s (.writes f buf mem copied) := by
  obtain ⟨m, n, hdev⟩ := h.dev
  obtain ⟨p, hp, hpmax⟩ := h.fpos f
  rw [hp, hdev.qset, hdev.quantum, tdiv_index] at hidx
  have hargs := writeArgs_ok hdev hidx hbuf
  obtain ⟨ret, dev', fpos', c, hw, hwrote, hdev', -, -, hend⟩ := scullWrite_spec mem hdev hidx hbuf copied
  simp only [CallsOk, next, step, hdev.qset, hdev.quantum, hp, hw]
  refine ⟨?_, ⟨_, _, rfl⟩, hargs⟩
  cases hwrote with
  | nomem => exact h.update ⟨m, n, hdev'⟩ f hpmax
  | fault => exact h.update ⟨m, n, hdev'⟩ f hpmax
  | done =>
    obtain ⟨hfpos, hmax⟩ := hend (Int.natCast_nonneg _)
    rw [hfpos]
    exact h.update ⟨m, n, hdev'⟩ f hmax

theorem calls_llseek {s : Sys} (h : GeomInv s) (f : ℕ) {off : ℤ} (whence : ℤ) (h1 : -2 ^ 63 ≤ off) (h2 : off < 2 ^ 63) :
    GeomInv (next step s (.llseek f off whence)) ∧ CallsOk s (.llseek f off whence) := by
  obtain ⟨m, n, hdev⟩ := h.dev
  obtain ⟨p, hp, hpmax⟩ := h.fpos f
  have habs : (s.abs m n).pos f = p := by simp [Sys.abs, hp]
  have hret := scullLlseek_spec hdev.size_lt (s.abs m n) rfl (habs ▸ hpmax) whence h1 h2
  rw [habs] at hret
  simp only [CallsOk, next, step, hp]
  rcases hret with ⟨t, ht, hret, -⟩ | ⟨hret, -⟩
  · rw [hret, if_neg (by omega)]
    exact ⟨h.update h.dev f ht, ⟨_, _, rfl⟩, trivial⟩
  · rw [hret, if_pos (by decide)]
    exact ⟨h, ⟨_, _, rfl⟩, trivial⟩

theorem calls_step {s : Sys} (h : GeomInv s) {op : Op} (hop : Fits s op) :
    GeomInv (next step s op) ∧ CallsOk s op := by
  cases op with
  | opens f wronly => exact calls_opens h f wronly hop
  | reads f count copied => exact calls_reads h f hop copied
  | writes f buf mem copied => exact calls_writes h f mem copied hop.1 hop.2
  | llseek f off whence => exact calls_llseek h f whence hop.1 hop.2
  | ioctl env cmd arg => exact ⟨⟨h.dev, h.fpos⟩, ⟨_, _, rfl⟩, trivial⟩

/-- **The callers establish the preconditions.** Where every geometry that is installed is valid and every write is at an
index below `INT_MAX`, each call of each step of the run meets them. -/
theorem calls_ok {par : Params} (hpar : Valid par) {ops : List Op} (h : Meets (next step) Fits (initSys par) ops) :
    Meets (next step) CallsOk (initSys par) ops := by
  have hstep : ∀ s op, GeomInv s → Fits s op → GeomInv (next step s op) ∧ CallsOk s op :=
    fun _ _ hs hop => calls_step hs hop
  exact meets_of_inv (fun s op hs hop => (hstep s op hs hop).1) (fun s op hs hop => (hstep s op hs hop).2)
    (geomInv_init hpar) h

/-- the default parameters, changed by an ioctl to the quantum 8 that the next trim installs -/
theorem calls_ok_after_ioctl :
    Meets (next step) CallsOk (initSys ⟨4000, 1000, 0⟩)
      [.ioctl ⟨true, true, none, true⟩ SCULL_IOCTQUANTUM 8, .opens 0 true, .llseek 0 20 0,
        .writes 0 [1, 2] (fun _ => true) 2, .llseek 0 20 0, .reads 0 2 1] :=
  calls_ok (by decide) ⟨trivial, fun _ => by decide, ⟨by norm_num, by norm_num⟩, ⟨by decide, by decide⟩,
    ⟨by norm_num, by norm_num⟩, show 2 ≤ MAX_RW_COUNT by decide, trivial⟩

/-- the quantum 0 is accepted by the ioctl and installed by the trim; the next write divides by it -/
theorem preconditions_fail :
    (trace step (initSys ⟨4000, 1000, 0⟩)
        [.ioctl ⟨true, true, none, true⟩ SCULL_IOCTQUANTUM 0, .opens 0 true, .writes 0 [7] (fun _ => true) 1]).map
        Prod.snd = [.ret 0 [], .ret 0 [], .oops .divide] := by
  decide

end AtsLdd.Scull
