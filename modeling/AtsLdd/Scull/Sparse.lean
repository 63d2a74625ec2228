/-
The bare scull device is a sparse store.

Abstract machine (`SpecStep n`): a store of bytes with default 0 and a position for every open file. A write stores at
most up to the end of its quantum and grows the store; a read stops at the size and at the end of its quantum; a
write-only open gives the empty store.

Faithful machine: `step` of `AtsLdd.Scull.FileOps`, on the list of lazily allocated arrays of lazily allocated quanta.
Every run is without ioctls, at counts the VFS passes, with complete copies of reads, with every write at a position whose
list index is below `INT_MAX`, and with the copy of a write stopping only where what it stores is there already (`Legal`);
allocations fail in any pattern.

- `step_inv`, `step_sim`: one step keeps the invariant `SysInv` and is a step of the abstract machine;
- `scull_refines_store`: every run is a run of the abstract machine with the same answers, never faults, and reading a
  file from 0 by non-empty reads gives exactly the contents and then 0;
- `copies_fail_and_length_overflows`: a read whose user copy fails answers -EFAULT, so does a write, but it stores zeros,
  and at list index `INT_MAX` the length `ln_qlst` overflows, after which a write at position 0 walks off the list.
-/
import AtsLdd.Scull.FileOps
import AtsLdd.Scull.WriteMemory

namespace AtsLdd.Scull

open AtsLdd.Machine AtsLdd.ByteMap AtsLdd.Run

/-! ## The invariant -/

/-- a device built with array size `m` and quantum size `n` -/
structure DevInv (m n : ℕ) (dev : ScullDev) : Prop where
  m_pos : 0 < m
  n_pos : 0 < n
  mn : ((m * n : ℕ) : ℤ) ≤ INT_MAX
  qset : dev.mQset = m
  quantum : dev.nQuantum = n
  built : Built m n dev.data
  ln : dev.lnQlst = dev.data.length
  len : (dev.data.length : ℤ) ≤ INT_MAX
  size : dev.size ≤ dev.data.length * (m * n)

/-- byte `p` of a list with array size `m` and quantum size `n` -/
def byteAt (m n : ℕ) (xs : List Qset) (p : ℕ) : UInt8 := lstByte xs (p / n / m) (p / n % m) (p % n)

theorem DevInv.size_lt {m n : ℕ} {dev : ScullDev} (h : DevInv m n dev) : dev.size < 2 ^ 62 := by
  have h1 := h.len
  have h2 := h.mn
  have h3 := h.size
  unfold INT_MAX at h1 h2
  have : dev.data.length * (m * n) ≤ (2 ^ 31 - 1) * (2 ^ 31 - 1) := Nat.mul_le_mul (by omega) (by omega)
  omega

/-- a freshly trimmed device -/
theorem devInv_trim {m n : ℕ} (hm : 0 < m) (hn : 0 < n) (hmn : ((m * n : ℕ) : ℤ) ≤ INT_MAX) (dev : ScullDev) :
    DevInv m n (scullTrimMain dev m n) :=
  ⟨hm, hn, hmn, rfl, rfl, built_nil m n, rfl, by unfold INT_MAX; simp [scullTrimMain], by simp [scullTrimMain]⟩

/-! ## From positions to indices -/

/-- the `int` arithmetic of `scull_read` and `scull_write` is exact for a valid geometry and an index inside `int` -/
theorem locate_spec {m n : ℕ} (hm : 0 < m) (hn : 0 < n) (hmn : ((m * n : ℕ) : ℤ) ≤ INT_MAX) {p : ℕ}
    (hp : ((p / n / m : ℕ) : ℤ) ≤ INT_MAX) :
    locate m n p = .ok (((p / n / m : ℕ) : ℤ), ((p / n % m : ℕ) : ℤ), ((p % n : ℕ) : ℤ)) := by
  have hle : ((n * m : ℕ) : ℤ) ≤ 2 ^ 31 - 1 := by
    rw [Nat.mul_comm n m]; exact hmn
  have hnm : int32 ((n : ℤ) * m) = ((n * m : ℕ) : ℤ) := by
    rw [← Int.natCast_mul]
    exact int32_of_bounds (by omega) (by omega)
  have hpos : 0 < n * m := Nat.mul_pos hn hm
  have hdiv : ((p : ℤ).tdiv ((n * m : ℕ) : ℤ)) = ((p / n / m : ℕ) : ℤ) := by
    rw [← Int.ofNat_tdiv, Nat.div_div_eq_div_mul]
  have hmod : ((p : ℤ).tmod ((n * m : ℕ) : ℤ)) = ((p % (n * m) : ℕ) : ℤ) := by
    rw [← Int.ofNat_tmod]
  have hrest : int32 ((p % (n * m) : ℕ) : ℤ) = ((p % (n * m) : ℕ) : ℤ) := by
    have := Nat.mod_lt p hpos
    exact int32_of_bounds (by omega) (by omega)
  have hln : int32 ((p / n / m : ℕ) : ℤ) = ((p / n / m : ℕ) : ℤ) := by
    have h0 : 0 ≤ ((p / n / m : ℕ) : ℤ) := Int.natCast_nonneg _
    exact int32_of_bounds (h0.trans' (by norm_num)) (lt_of_le_of_lt hp (by norm_num [INT_MAX]))
  unfold locate
  simp only [hnm, hdiv, hmod, hrest, hln]
  rw [if_neg (by omega), if_neg (by omega), ← Int.ofNat_tdiv, ← Int.ofNat_tmod, Nat.mod_mul_right_div_self,
    Nat.mod_mul_right_mod]

/-- the list index of a position, in the arithmetic of the C code -/
theorem tdiv_index (p m n : ℕ) : (p : ℤ).tdiv (m * n) = ((p / n / m : ℕ) : ℤ) := by
  rw [← Int.natCast_mul, ← Int.ofNat_tdiv, Nat.mul_comm, ← Nat.div_div_eq_div_mul]

/-- the bytes of one quantum are consecutive -/
theorem slice_byteAt {m n : ℕ} (xs : List Qset) {p cnt : ℕ} (h : p % n + cnt ≤ n) :
    slice (byteAt m n xs) p cnt = slice (lstByte xs (p / n / m) (p / n % m)) (p % n) cnt := by
  apply List.ext_getElem
  · simp
  · intro k h1 h2
    have hk : k < cnt := by simpa using h1
    have hn : 0 < n := by omega
    have hmod : (p + k) % n = p % n + k := by
      rw [Nat.add_mod, Nat.mod_eq_of_lt (show k < n by omega), Nat.mod_eq_of_lt (by omega)]
    have hdiv : (p + k) / n = p / n := by
      have h1 := Nat.div_add_mod p n
      have h2 := Nat.div_add_mod (p + k) n
      rw [hmod] at h2
      have : n * ((p + k) / n) = n * (p / n) := by omega
      exact Nat.eq_of_mul_eq_mul_left hn this
    simp only [getElem_slice, byteAt, hmod, hdiv]

/-- storing inside one quantum stores at consecutive positions -/
theorem byteAt_splice {m n : ℕ} {xs xs' : List Qset} {p : ℕ} {bs : List UInt8}
    (hbs : p % n + bs.length ≤ n) (hn : 0 < n)
    (h : ∀ l i j, lstByte xs' l i j = if l = p / n / m ∧ i = p / n % m then
      splice (lstByte xs (p / n / m) (p / n % m)) (p % n) bs j else lstByte xs l i j) :
    byteAt m n xs' = splice (byteAt m n xs) p bs := by
  funext p'
  have hp := Nat.div_add_mod p n
  have hp' := Nat.div_add_mod p' n
  have hlt := Nat.mod_lt p hn
  have hlt' := Nat.mod_lt p' hn
  unfold byteAt
  rw [h]
  by_cases hq : p' / n = p / n
  · rw [if_pos ⟨by rw [hq], by rw [hq]⟩]
    rw [hq] at hp'
    by_cases hin : p ≤ p' ∧ p' < p + bs.length
    · rw [splice_of_mem (by omega) (by omega), splice_of_mem hin.1 (by omega)]
      congr 1; omega
    · rw [splice_of_not_mem (by omega), splice_of_not_mem hin, hq]
  · rw [if_neg]
    · rw [splice_of_not_mem]
      rintro ⟨h1, h2⟩
      apply hq
      have hle : p / n ≤ p' / n := Nat.div_le_div_right h1
      have hge : p' / n < p / n + 1 := by
        rw [Nat.div_lt_iff_lt_mul hn]
        have : (p / n + 1) * n = n * (p / n) + n := by ring
        omega
      omega
    · rintro ⟨h1, h2⟩
      apply hq
      have e1 := Nat.div_add_mod (p' / n) m
      have e2 := Nat.div_add_mod (p / n) m
      rw [h1, h2] at e1
      omega

/-! ## One read, one write -/

/-- the bytes that one read delivers -/
def readLen (n size p count : ℕ) : ℕ := min (min count (size - p)) (n - p % n)

theorem readLen_in_quantum {n : ℕ} (hn : 0 < n) (size p count : ℕ) : p % n + readLen n size p count ≤ n := by
  have := Nat.mod_lt p hn
  unfold readLen; omega

theorem readLen_le (n size p count : ℕ) : readLen n size p count ≤ count := by
  unfold readLen; omega

theorem readLen_le_size (n : ℕ) {size p : ℕ} (hp : p < size) (count : ℕ) : p + readLen n size p count ≤ size := by
  unfold readLen; omega

theorem DevInv.index_lt {m n : ℕ} {dev : ScullDev} (h : DevInv m n dev) {p : ℕ} (hp : p < dev.size) :
    p / n / m < dev.data.length := by
  rw [Nat.div_div_eq_div_mul, Nat.div_lt_iff_lt_mul (Nat.mul_pos h.n_pos h.m_pos), Nat.mul_comm n m]
  exact lt_of_lt_of_le hp h.size

/-- the end of a quantum in node `p / n / m` is inside the list -/
theorem quantum_end_le {m n : ℕ} (hm : 0 < m) (hn : 0 < n) {p l : ℕ} (hl : p / n / m < l) :
    p + (n - p % n) ≤ l * (m * n) := by
  have hidx : p / n < l * m := (Nat.div_lt_iff_lt_mul hm).1 hl
  have hdm := Nat.div_add_mod p n
  have hlt := Nat.mod_lt p hn
  calc p + (n - p % n) = n * (p / n) + n := by omega
    _ = (p / n + 1) * n := by ring
    _ ≤ l * m * n := Nat.mul_le_mul_right n hidx
    _ = l * (m * n) := Nat.mul_assoc _ _ _

/-- a list inside `int` covers positions far below the end of `loff_t` -/
theorem list_end_lt {m n l : ℕ} (hmn : ((m * n : ℕ) : ℤ) ≤ INT_MAX) (hl : (l : ℤ) ≤ INT_MAX) :
    l * (m * n) < 2 ^ 62 := by
  unfold INT_MAX at hmn hl
  have : l * (m * n) ≤ (2 ^ 31 - 1) * (2 ^ 31 - 1) := Nat.mul_le_mul (by omega) (by omega)
  omega

/-! ## The calls that a valid geometry makes -/

/-- the call of `scull_write` at an index inside `int` -/
theorem scullWriteArgs_spec {m n : ℕ} (hm : 0 < m) (hn : 0 < n) (hmn : ((m * n : ℕ) : ℤ) ≤ INT_MAX) {p : ℕ}
    (hp : ((p / n / m : ℕ) : ℤ) ≤ INT_MAX) {count : ℕ} (hcount : count ≤ MAX_RW_COUNT) :
    scullWriteArgs m n count p =
      .ok ⟨m, n, (p / n / m : ℕ), (p / n % m : ℕ), (p % n : ℕ), count⟩ := by
  have hint : int32 (count : ℤ) = count := by
    have : count < 2 ^ 31 := lt_of_le_of_lt hcount (by norm_num [MAX_RW_COUNT])
    exact int32_of_bounds (by omega) (by omega)
  unfold scullWriteArgs
  rw [locate_spec hm hn hmn hp]
  change Except.ok (MainArgs.mk _ _ _ _ _ (int32 count)) = _
  rw [hint]

/-- the call of `scull_read`: none at or past the size, and the count is cut at the size -/
theorem scullReadArgs_spec {m n : ℕ} (hm : 0 < m) (hn : 0 < n) (hmn : ((m * n : ℕ) : ℤ) ≤ INT_MAX) {dev : ScullDev}
    (hsize : dev.size < 2 ^ 62) {p : ℕ} (hp : p < 2 ^ 63) (hidx : p < dev.size → ((p / n / m : ℕ) : ℤ) ≤ INT_MAX)
    {count : ℕ} (hcount : count ≤ MAX_RW_COUNT) :
    scullReadArgs dev m n count p =
      if dev.size ≤ p then .ok none
      else .ok (some ⟨m, n, (p / n / m : ℕ), (p / n % m : ℕ), (p % n : ℕ), (min count (dev.size - p) : ℕ)⟩) := by
  have hup : ulong (p : ℤ) = p := ulong_natCast (by omega)
  unfold scullReadArgs
  rw [hup]
  by_cases hge : dev.size ≤ p
  · rw [if_pos hge, if_pos hge]
  · have hlt : p < dev.size := by omega
    have hcount' : count < 2 ^ 31 := lt_of_le_of_lt hcount (by norm_num [MAX_RW_COUNT])
    have hsum : ulong ((p : ℤ) + count) = p + count := by
      rw [← Int.natCast_add]; exact ulong_natCast (by omega)
    have hleft : ulong ((dev.size : ℤ) - p) = dev.size - p := by
      rw [← Int.natCast_sub (le_of_lt hlt)]; exact ulong_natCast (by omega)
    have hcnt : (if ulong ((p : ℤ) + count) > dev.size then ulong ((dev.size : ℤ) - p) else count) =
        min count (dev.size - p) := by
      rw [hsum, hleft]; split_ifs <;> omega
    have hint : int32 ((min count (dev.size - p) : ℕ) : ℤ) = ((min count (dev.size - p) : ℕ) : ℤ) :=
      int32_of_bounds (by omega) (by omega)
    rw [if_neg hge, if_neg hge, hcnt, locate_spec hm hn hmn (hidx hlt)]
    change Except.ok (some (MainArgs.mk _ _ _ _ _ (int32 _))) = _
    rw [hint]

/-- **Reading the device.** Below the size a read delivers the bytes of the map up to the end of the quantum, or -EFAULT
when the user copy stops early; at or past the size it answers 0. -/
theorem scullRead_spec {m n : ℕ} {dev : ScullDev} (h : DevInv m n dev) {p : ℕ} (hp : p < 2 ^ 63) {count : ℕ}
    (hcount : count ≤ MAX_RW_COUNT) (copied : ℕ) :
    scullRead dev m n count p copied =
      if dev.size ≤ p then .ok (0, [], p)
      else if readLen n dev.size p count ≤ copied then
        .ok ((readLen n dev.size p count : ℕ), slice (byteAt m n dev.data) p (readLen n dev.size p count),
          ((p + readLen n dev.size p count : ℕ) : ℤ))
      else .ok (- EFAULT, (slice (byteAt m n dev.data) p (readLen n dev.size p count)).take copied, p) := by
  have hsize := h.size_lt
  have hidx : p < dev.size → ((p / n / m : ℕ) : ℤ) ≤ INT_MAX := fun hlt =>
    le_trans (Int.ofNat_le.2 (le_of_lt (h.index_lt hlt))) h.len
  unfold scullRead
  rw [scullReadArgs_spec h.m_pos h.n_pos h.mn hsize hp hidx hcount]
  by_cases hge : dev.size ≤ p
  · rw [if_pos hge, if_pos hge]; rfl
  · have hlt : p < dev.size := by omega
    have hpos : int64 ((p : ℤ) + (readLen n dev.size p count : ℕ)) = ((p + readLen n dev.size p count : ℕ) : ℤ) := by
      have := readLen_le_size n hlt count
      rw [← Int.natCast_add]
      exact int64_of_bounds (by omega) (by omega)
    rw [if_neg hge, if_neg hge]
    change scullReadMain m _ _ _ _ _ _ _ _ = _
    rw [scullReadMain_spec h.built (h.index_lt hlt) (hidx hlt) (Nat.mod_lt _ h.m_pos) (Nat.mod_lt _ h.n_pos), ← readLen,
      slice_byteAt dev.data (readLen_in_quantum h.n_pos _ _ _), hpos]

/-- **Writing the device.** At an index below `INT_MAX` a write keeps the invariant, and changes exactly the bytes that its
copy stores; a write that is done grows the device. -/
theorem scullWrite_spec (mem : ℕ → Bool) {m n : ℕ} {dev : ScullDev} (h : DevInv m n dev) {p : ℕ}
    (hp : ((p / n / m : ℕ) : ℤ) < INT_MAX) {buf : List UInt8} (hbuf : buf.length ≤ MAX_RW_COUNT) (copied : ℕ) :
    ∃ ret dev' fpos' bs, scullWrite mem dev m n buf p copied = .ok (ret, dev', fpos') ∧
      Wrote mem n (p % n) buf.length copied buf p ret fpos' bs ∧ DevInv m n dev' ∧
      byteAt m n dev'.data = splice (byteAt m n dev.data) p bs ∧
      dev'.size = (if 0 ≤ ret then max dev.size (p + bs.length) else dev.size) ∧
      (0 ≤ ret → fpos' = ((p + bs.length : ℕ) : ℤ) ∧ p + bs.length < 2 ^ 63) := by
  obtain ⟨ret, xs', fpos', bs, hw, hwrote, hb', hlen', hgrow, hin, hbytes⟩ :=
    scullWriteMain_spec mem h.built h.len hp (Nat.mod_lt (p / n) h.m_pos) (Nat.mod_lt p h.n_pos) buf le_rfl p copied
  have hbyte : byteAt m n xs' = splice (byteAt m n dev.data) p bs := by
    have hmodn := Nat.mod_lt p h.n_pos
    have hle := hwrote.length_le le_rfl
    exact byteAt_splice (by omega) h.n_pos hbytes
  unfold scullWrite
  rw [scullWriteArgs_spec h.m_pos h.n_pos h.mn (le_of_lt hp) hbuf]
  simp only [bind, Except.bind, h.ln, hw]
  cases hwrote with
  | nomem hfail =>
    exact ⟨- ENOMEM, _, _, [], rfl, .nomem hfail,
      ⟨h.m_pos, h.n_pos, h.mn, h.qset, h.quantum, hb', rfl, hlen', h.size.trans (Nat.mul_le_mul_right _ hgrow)⟩,
      hbyte, rfl, fun hneg => absurd hneg (by decide)⟩
  | fault hc =>
    exact ⟨- EFAULT, _, _, _, rfl, .fault hc,
      ⟨h.m_pos, h.n_pos, h.mn, h.qset, h.quantum, hb', rfl, hlen', h.size.trans (Nat.mul_le_mul_right _ hgrow)⟩,
      hbyte, rfl, fun hneg => absurd hneg (by decide)⟩
  | done hc =>
    -- the end of the bytes stored is inside the list, and far inside `loff_t`
    have hend := quantum_end_le h.m_pos h.n_pos (hin (by omega))
    have hfar := list_end_lt h.mn hlen'
    have hle : p + min buf.length (n - p % n) ≤ xs'.length * (m * n) := by omega
    have hlt : p + min buf.length (n - p % n) < 2 ^ 63 := by omega
    have hfpos : int64 ((p : ℤ) + (min buf.length (n - p % n) : ℕ)) = ((p + min buf.length (n - p % n) : ℕ) : ℤ) := by
      rw [← Int.natCast_add]; exact int64_of_bounds (by omega) (Int.ofNat_lt.2 hlt)
    have hul : ulong ((p + min buf.length (n - p % n) : ℕ) : ℤ) = p + min buf.length (n - p % n) :=
      ulong_natCast (hlt.trans (by norm_num))
    have hret : (0 : ℤ) ≤ (min buf.length (n - p % n) : ℕ) := Int.natCast_nonneg _
    have hsize := h.size.trans (Nat.mul_le_mul_right (m * n) hgrow)
    have hlen : (buf.take (min buf.length (n - p % n))).length = min buf.length (n - p % n) :=
      List.length_take_of_le (Nat.min_le_left _ _)
    rw [hfpos, hul]
    by_cases hs : dev.size < p + min buf.length (n - p % n)
    · rw [if_pos ⟨hret, hs⟩]
      refine ⟨_, _, _, _, rfl, hfpos ▸ .done hc, ⟨h.m_pos, h.n_pos, h.mn, h.qset, h.quantum, hb', rfl, hlen', hle⟩, hbyte, ?_,
        fun _ => ⟨by rw [hlen], by rw [hlen]; exact hlt⟩⟩
      rw [if_pos hret, hlen, max_eq_right (le_of_lt hs)]
    · rw [if_neg (fun h => hs h.2)]
      refine ⟨_, _, _, _, rfl, hfpos ▸ .done hc, ⟨h.m_pos, h.n_pos, h.mn, h.qset, h.quantum, hb', rfl, hlen', hsize⟩, hbyte, ?_,
        fun _ => ⟨by rw [hlen], by rw [hlen]; exact hlt⟩⟩
      rw [if_pos hret, hlen, max_eq_left (not_lt.1 hs)]

/-! ## A copy that stops -/

/-- byte `p` of the device, 0 in a hole -/
def ScullDev.byte (dev : ScullDev) (p : ℕ) : UInt8 := byteAt dev.mQset.toNat dev.nQuantum.toNat dev.data p

/-- the bytes that a write at `p` copies: up to the end of the quantum -/
def ScullDev.writeLen (dev : ScullDev) (p : ℕ) (buf : List UInt8) : ℕ :=
  min buf.length (dev.nQuantum.toNat - p % dev.nQuantum.toNat)

/-- a write at `p` has the memory it needs, and its copy stops before the end -/
def CopyStops (dev : ScullDev) (p : ℕ) (buf : List UInt8) (mem : ℕ → Bool) (copied : ℕ) : Prop :=
  let m := dev.mQset.toNat
  let n := dev.nQuantum.toNat
  (∀ t < writeAllocs dev.data (p / n / m) (p / n % m), mem t = true) ∧ copied < dev.writeLen p buf

/-- when the copy of a write stops, the bytes that it stores, zeros for those that do not arrive, are there already -/
def StoresSame (dev : ScullDev) (p : ℕ) (buf : List UInt8) (mem : ℕ → Bool) (copied : ℕ) : Prop :=
  CopyStops dev p buf mem copied →
    copyFromUser buf (dev.writeLen p buf) copied = slice dev.byte p (dev.writeLen p buf)

section
variable {mem : ℕ → Bool} {m n : ℕ} {dev : ScullDev}

theorem DevInv.byte_eq (h : DevInv m n dev) : dev.byte = byteAt m n dev.data := by
  funext p
  unfold ScullDev.byte
  rw [h.qset, h.quantum, Int.toNat_natCast, Int.toNat_natCast]

theorem DevInv.writeLen_eq (h : DevInv m n dev) (p : ℕ) (buf : List UInt8) :
    dev.writeLen p buf = min buf.length (n - p % n) := by
  unfold ScullDev.writeLen
  rw [h.quantum, Int.toNat_natCast]

theorem DevInv.copyStops_iff (h : DevInv m n dev) {p : ℕ} {buf : List UInt8} {copied : ℕ} :
    CopyStops dev p buf mem copied ↔ (∀ t < writeAllocs dev.data (p / n / m) (p / n % m), mem t = true) ∧
      copied < min buf.length (n - p % n) := by
  unfold CopyStops
  rw [h.writeLen_eq, h.qset, h.quantum, Int.toNat_natCast, Int.toNat_natCast]

theorem scullWrite_nomem_iff (h : DevInv m n dev) {p : ℕ} (hp : ((p / n / m : ℕ) : ℤ) < INT_MAX) {buf : List UInt8}
    (hbuf : buf.length ≤ MAX_RW_COUNT) {copied : ℕ} {ret fpos' : ℤ} {dev' : ScullDev}
    (hw : scullWrite mem dev m n buf p copied = .ok (ret, dev', fpos')) :
    ret = - ENOMEM ↔ ∃ t < writeAllocs dev.data (p / n / m) (p / n % m), mem t = false := by
  have hi := Nat.mod_lt (p / n) h.m_pos
  have hj := Nat.mod_lt p h.n_pos
  obtain ⟨ret', xs', fpos1, bs, hmain, -⟩ := scullWriteMain_spec mem h.built h.len hp hi hj buf le_rfl p copied
  have hiff := scullWriteMain_nomem_iff h.built h.len hp hi hj le_rfl hmain
  unfold scullWrite at hw
  rw [scullWriteArgs_spec h.m_pos h.n_pos h.mn hp.le hbuf] at hw
  simp only [bind, Except.bind, h.ln, hmain] at hw
  have hret : ret' = ret := by
    split_ifs at hw
    · exact congrArg Prod.fst (Except.ok.inj hw)
    · exact congrArg Prod.fst (Except.ok.inj hw)
  rw [← hret]
  exact hiff

/-- a write that answers -EFAULT had the memory it needed, and its copy stopped -/
theorem scullWrite_copyStops (h : DevInv m n dev) {p : ℕ} (hp : ((p / n / m : ℕ) : ℤ) < INT_MAX) {buf : List UInt8}
    (hbuf : buf.length ≤ MAX_RW_COUNT) {copied : ℕ} {fpos' : ℤ} {dev' : ScullDev}
    (hw : scullWrite mem dev m n buf p copied = .ok (- EFAULT, dev', fpos')) (hc : copied < min buf.length (n - p % n)) :
    CopyStops dev p buf mem copied := by
  refine h.copyStops_iff.2 ⟨fun t ht => ?_, hc⟩
  by_contra hf
  exact absurd ((scullWrite_nomem_iff h hp hbuf hw).2 ⟨t, ht, eq_false_of_ne_true hf⟩) (by decide)

/-- storing what is there already leaves the bytes as they are -/
theorem DevInv.storesSame_iff (h : DevInv m n dev) {p : ℕ} {buf : List UInt8} {copied : ℕ} :
    copyFromUser buf (dev.writeLen p buf) copied = slice dev.byte p (dev.writeLen p buf) ↔
      splice (byteAt m n dev.data) p (copyFromUser buf (min buf.length (n - p % n)) copied) = byteAt m n dev.data := by
  have hlen := length_copyFromUser (Nat.min_le_left buf.length (n - p % n)) copied
  rw [splice_eq_self_iff, hlen, h.writeLen_eq, h.byte_eq]

end

/-! ## The abstract store -/

/-- the contents of the device, and the position of every open file -/
structure Abs where
  store : Store UInt8
  pos : ℕ → ℕ

/-- where a seek goes, as an exact integer -/
def seekTarget (σ : Abs) (f : ℕ) (off whence : ℤ) : Option ℤ :=
  if whence = 0 then some off
  else if whence = 1 then some (σ.pos f + off)
  else if whence = 2 then some (σ.store.size + off)
  else none

/-- the abstract device with quantum size `n` -/
inductive SpecStep (n : ℕ) : Abs → Op → Res → Abs → Prop where
  | trim {σ : Abs} {f : ℕ} : SpecStep n σ (.opens f true) (.ret 0 []) ⟨.empty 0, Function.update σ.pos f 0⟩
  | opened {σ : Abs} {f : ℕ} : SpecStep n σ (.opens f false) (.ret 0 []) ⟨σ.store, Function.update σ.pos f 0⟩
  | written {σ : Abs} {f cnt copied : ℕ} {buf : List UInt8} {mem : ℕ → Bool}
      (hcnt : cnt = min buf.length (n - σ.pos f % n)) (hcopy : cnt ≤ copied) :
      SpecStep n σ (.writes f buf mem copied) (.ret cnt [])
        ⟨σ.store.write (σ.pos f) (buf.take cnt), Function.update σ.pos f (σ.pos f + cnt)⟩
  | noMemory {σ : Abs} {f copied : ℕ} {buf : List UInt8} {mem : ℕ → Bool} (hmem : ∃ k, mem k = false) :
      SpecStep n σ (.writes f buf mem copied) (.ret (- ENOMEM) []) σ
  | writeFault {σ : Abs} {f copied : ℕ} {buf : List UInt8} {mem : ℕ → Bool}
      (hcopy : copied < min buf.length (n - σ.pos f % n)) :
      SpecStep n σ (.writes f buf mem copied) (.ret (- EFAULT) []) σ
  | pastEnd {σ : Abs} {f count copied : ℕ} (hpos : σ.store.size ≤ σ.pos f) :
      SpecStep n σ (.reads f count copied) (.ret 0 []) σ
  | read {σ : Abs} {f count copied cnt : ℕ} (hpos : σ.pos f < σ.store.size)
      (hcnt : cnt = min (min count (σ.store.size - σ.pos f)) (n - σ.pos f % n)) :
      SpecStep n σ (.reads f count copied) (.ret cnt (σ.store.read (σ.pos f) cnt))
        ⟨σ.store, Function.update σ.pos f (σ.pos f + cnt)⟩
  | seek {σ : Abs} {f t : ℕ} {off whence : ℤ} (ht : seekTarget σ f off whence = some (t : ℤ)) :
      SpecStep n σ (.llseek f off whence) (.ret t []) ⟨σ.store, Function.update σ.pos f t⟩
  | seekInvalid {σ : Abs} {f : ℕ} {off whence : ℤ}
      (ht : ∀ t : ℕ, t < 2 ^ 63 → seekTarget σ f off whence ≠ some (t : ℤ)) :
      SpecStep n σ (.llseek f off whence) (.ret (- EINVAL) []) σ

/-- the device and the positions, as the abstract machine sees them -/
def Sys.abs (m n : ℕ) (s : Sys) : Abs := ⟨⟨s.dev.size, byteAt m n s.dev.data⟩, fun f => (s.fpos f).toNat⟩

/-- a system whose parameters and device have the geometry `m`, `n` -/
structure SysInv (m n : ℕ) (s : Sys) : Prop where
  qset : s.par.scullQset = m
  quantum : s.par.scullQuantum = n
  dev : DevInv m n s.dev
  fpos : ∀ f, ∃ p : ℕ, s.fpos f = p ∧ p < 2 ^ 63

/-- the steps of a run: counts the VFS passes, reads that are copied out completely, writes at an index below `INT_MAX` whose
user copy is complete or stores what is there already, offsets of type `loff_t`, and no ioctl -/
def Legal (m n : ℕ) (s : Sys) : Op → Prop
  | .opens _ _ => True
  | .reads f count copied => count ≤ MAX_RW_COUNT ∧ readLen n s.dev.size (s.fpos f).toNat count ≤ copied
  | .writes f buf mem copied => buf.length ≤ MAX_RW_COUNT ∧ (s.fpos f).tdiv (m * n) < INT_MAX ∧
      StoresSame s.dev (s.fpos f).toNat buf mem copied
  | .llseek _ off _ => -2 ^ 63 ≤ off ∧ off < 2 ^ 63
  | .ioctl _ _ _ => False

theorem abs_update_fpos (m n : ℕ) (s : Sys) (f p : ℕ) (dev : ScullDev) :
    Sys.abs m n { s with dev := dev, fpos := Function.update s.fpos f (p : ℤ) } =
      ⟨⟨dev.size, byteAt m n dev.data⟩, Function.update (Sys.abs m n s).pos f p⟩ := by
  unfold Sys.abs
  refine congrArg (Abs.mk _) (funext fun g => ?_)
  by_cases hg : g = f
  · subst hg; simp
  · simp [Function.update_of_ne hg]

theorem abs_self_fpos {m n : ℕ} {s : Sys} {f p : ℕ} (hp : s.fpos f = p) (dev : ScullDev) :
    Sys.abs m n { s with dev := dev, fpos := Function.update s.fpos f (p : ℤ) } =
      ⟨⟨dev.size, byteAt m n dev.data⟩, (Sys.abs m n s).pos⟩ := by
  unfold Sys.abs
  refine congrArg (Abs.mk _) (funext fun g => ?_)
  rw [← hp, Function.update_eq_self]

theorem SysInv.update {m n : ℕ} {s : Sys} (h : SysInv m n s) {dev : ScullDev} (hdev : DevInv m n dev) (f : ℕ) {p : ℕ}
    (hp : p < 2 ^ 63) : SysInv m n { s with dev := dev, fpos := Function.update s.fpos f (p : ℤ) } := by
  refine ⟨h.qset, h.quantum, hdev, fun g => ?_⟩
  by_cases hg : g = f
  · subst hg; exact ⟨p, by simp, hp⟩
  · simpa [Function.update_of_ne hg] using h.fpos g

/-! ## One step -/

/-- the check that `scull_llseek` makes on the new position -/
theorem seek_cases {t : ℤ} (h1 : -2 ^ 63 ≤ t) (h2 : t < 2 ^ 64) :
    (∃ u : ℕ, u < 2 ^ 63 ∧ int64 t = u ∧ t = u) ∨ (int64 t < 0 ∧ ∀ u : ℕ, u < 2 ^ 63 → t ≠ u) := by
  by_cases hneg : t < 0
  · right
    rw [int64_of_bounds h1 (by omega)]
    exact ⟨hneg, fun u _ => by omega⟩
  · by_cases hbig : t < 2 ^ 63
    · left
      have hu : t = t.toNat := (Int.toNat_of_nonneg (not_lt.1 hneg)).symm
      refine ⟨t.toNat, by omega, ?_, hu⟩
      rw [int64_of_bounds h1 hbig]; exact hu
    · right
      rw [int64_overflow (not_lt.1 hbig) h2]
      exact ⟨by omega, fun u _ => by omega⟩

/-- `scull_llseek` goes to the target when it is a position, and answers -EINVAL otherwise -/
theorem scullLlseek_spec {dev : ScullDev} (hsize : dev.size < 2 ^ 62) (σ : Abs) (hσ : σ.store.size = dev.size) {f : ℕ}
    (hpmax : σ.pos f < 2 ^ 63) {off : ℤ} (whence : ℤ) (h1 : -2 ^ 63 ≤ off) (h2 : off < 2 ^ 63) :
    (∃ t : ℕ, t < 2 ^ 63 ∧ scullLlseek dev (σ.pos f) off whence = t ∧ seekTarget σ f off whence = some (t : ℤ)) ∨
    (scullLlseek dev (σ.pos f) off whence = - EINVAL ∧ ∀ t : ℕ, t < 2 ^ 63 → seekTarget σ f off whence ≠ some (t : ℤ)) := by
  -- all three cases end in the same check, on a sum that does not wrap below 0
  have key : ∀ t : ℤ, -2 ^ 63 ≤ t → t < 2 ^ 64 →
      (∃ u : ℕ, u < 2 ^ 63 ∧ (if int64 t < 0 then - EINVAL else int64 t) = u ∧ some t = some (u : ℤ)) ∨
      ((if int64 t < 0 then - EINVAL else int64 t) = - EINVAL ∧ ∀ u : ℕ, u < 2 ^ 63 → some t ≠ some (u : ℤ)) := by
    intro t ht1 ht2
    rcases seek_cases ht1 ht2 with ⟨u, hu, hint, heq⟩ | ⟨hint, hne⟩
    · left
      exact ⟨u, hu, by rw [hint, if_neg (by omega)], by rw [heq]⟩
    · right
      exact ⟨by rw [if_pos hint], fun u hu heq => hne u hu (Option.some.inj heq)⟩
  have hoff : int64 off = off := int64_of_bounds h1 h2
  unfold scullLlseek seekTarget
  rw [hσ]
  split_ifs with h0 hw hw
  · have := key off h1 (by omega)
    rwa [hoff] at this
  · exact key (σ.pos f + off) (by omega) (by omega)
  · exact key (dev.size + off) (by omega) (by omega)
  · right
    exact ⟨rfl, fun t _ h => absurd h (by simp)⟩

theorem step_reads {m n : ℕ} {s : Sys} (h : SysInv m n s) (f : ℕ) {count copied : ℕ} (hcount : count ≤ MAX_RW_COUNT)
    (hcopied : readLen n s.dev.size (s.fpos f).toNat count ≤ copied) :
    SysInv m n (step s (.reads f count copied)).1 ∧
      SpecStep n (s.abs m n) (.reads f count copied) (step s (.reads f count copied)).2
        ((step s (.reads f count copied)).1.abs m n) := by
  obtain ⟨p, hp, hpmax⟩ := h.fpos f
  have habs : (s.abs m n).pos f = p := by simp [Sys.abs, hp]
  have hread := scullRead_spec h.dev hpmax hcount copied
  rw [hp, Int.toNat_natCast] at hcopied
  simp only [step, h.dev.qset, h.dev.quantum, hp, hread]
  by_cases hge : s.dev.size ≤ p
  · rw [if_pos hge]
    refine ⟨h.update h.dev f hpmax, ?_⟩
    rw [abs_self_fpos hp]
    exact .pastEnd (by rw [habs]; exact hge)
  · have hlt : p < s.dev.size := not_le.1 hge
    have hend := readLen_le_size n hlt count
    rw [if_neg hge, if_pos hcopied]
    refine ⟨h.update h.dev f (lt_of_le_of_lt hend (h.dev.size_lt.trans (by norm_num))), ?_⟩
    rw [abs_update_fpos]
    have hstep : SpecStep n (s.abs m n) (.reads f count copied) _ _ :=
      .read (by rw [habs]; exact hlt) (show readLen n s.dev.size p count = _ by rw [habs]; rfl)
    rwa [habs] at hstep

theorem step_writes {m n : ℕ} {s : Sys} (h : SysInv m n s) (f : ℕ) (buf : List UInt8) (mem : ℕ → Bool) {copied : ℕ}
    (hbuf : buf.length ≤ MAX_RW_COUNT) (hidx : (s.fpos f).tdiv (m * n) < INT_MAX)
    (hsame : StoresSame s.dev (s.fpos f).toNat buf mem copied) :
    SysInv m n (step s (.writes f buf mem copied)).1 ∧
      SpecStep n (s.abs m n) (.writes f buf mem copied) (step s (.writes f buf mem copied)).2
        ((step s (.writes f buf mem copied)).1.abs m n) := by
  obtain ⟨p, hp, hpmax⟩ := h.fpos f
  have habs : (s.abs m n).pos f = p := by simp [Sys.abs, hp]
  rw [hp, tdiv_index] at hidx
  rw [hp, Int.toNat_natCast] at hsame
  obtain ⟨ret, dev', fpos', bs, hw, hwrote, hdev', hbytes, hsize, hend⟩ := scullWrite_spec mem h.dev hidx hbuf copied
  simp only [step, h.dev.qset, h.dev.quantum, hp, hw]
  cases hwrote with
  | nomem hfail =>
    refine ⟨h.update hdev' f hpmax, ?_⟩
    rw [abs_self_fpos hp, hbytes, hsize]
    simp only [splice_nil]
    exact .noMemory hfail
  | fault hc =>
    have hstops := scullWrite_copyStops h.dev hidx hbuf hw hc
    refine ⟨h.update hdev' f hpmax, ?_⟩
    rw [abs_self_fpos hp, hbytes, hsize, h.dev.storesSame_iff.1 (hsame hstops)]
    exact .writeFault (by rw [habs]; exact hc)
  | done hc =>
    have hret : (0 : ℤ) ≤ (min buf.length (n - p % n) : ℕ) := Int.natCast_nonneg _
    obtain ⟨hfpos, hmax⟩ := hend hret
    rw [hfpos]
    refine ⟨h.update hdev' f hmax, ?_⟩
    rw [abs_update_fpos, hbytes, hsize, if_pos hret]
    have hstep : SpecStep n (s.abs m n) (.writes f buf mem copied) _ _ :=
      .written (show min buf.length (n - p % n) = _ by rw [habs]) hc
    have htake : (buf.take (min buf.length (n - p % n))).length = min buf.length (n - p % n) := by
      rw [List.length_take]; omega
    rw [habs] at hstep
    rw [htake]
    unfold Store.write at hstep
    rwa [htake] at hstep

/-- **One step.** A legal step keeps the invariant and is a step of the abstract store. -/
theorem step_refines {m n : ℕ} {s : Sys} (h : SysInv m n s) {op : Op} (hop : Legal m n s op) :
    SysInv m n (step s op).1 ∧ SpecStep n (s.abs m n) op (step s op).2 ((step s op).1.abs m n) := by
  cases op with
  | opens f wronly =>
    have habs := abs_update_fpos m n s f 0 (scullOpen s.dev s.par wronly)
    rw [Nat.cast_zero] at habs
    simp only [step]
    rw [habs]
    cases wronly with
    | true =>
      have htrim : scullOpen s.dev s.par true = scullTrimMain s.dev m n := by
        simp only [scullOpen, scullTrim, h.qset, h.quantum, if_true]
      have hdev := devInv_trim h.dev.m_pos h.dev.n_pos h.dev.mn s.dev
      refine ⟨?_, ?_⟩
      · rw [htrim]
        exact h.update hdev f (p := 0) (by norm_num)
      · have hempty : byteAt m n (scullTrimMain s.dev m n).data = fun _ => 0 := by
          funext p; exact lstByte_nil _ _ _
        rw [htrim, hempty]
        exact .trim
    | false => exact ⟨h.update h.dev f (p := 0) (by norm_num), .opened⟩
  | reads f count copied => exact step_reads h f hop.1 hop.2
  | writes f buf mem copied => exact step_writes h f buf mem hop.1 hop.2.1 hop.2.2
  | llseek f off whence =>
    obtain ⟨p, hp, hpmax⟩ := h.fpos f
    have habs : (s.abs m n).pos f = p := by simp [Sys.abs, hp]
    simp only [step, hp, ← habs]
    rcases scullLlseek_spec h.dev.size_lt (s.abs m n) rfl (habs ▸ hpmax) whence hop.1 hop.2 with
      ⟨t, ht, hret, hspec⟩ | ⟨hret, hspec⟩
    · rw [hret, if_neg (by omega)]
      refine ⟨h.update h.dev f ht, ?_⟩
      rw [abs_update_fpos]
      exact .seek hspec
    · rw [hret, if_pos (by decide)]
      exact ⟨h, .seekInvalid hspec⟩
  | ioctl env cmd arg => exact hop.elim

/-! ## Reading a file through -/

/-- the bytes that an answer delivers -/
def Res.out : Res → List UInt8
  | .ret _ out => out
  | .oops _ => []

/-- the bytes that a run delivers -/
def outs (τ : List (Op × Res)) : List UInt8 := τ.flatMap fun e => e.2.out

/-- reads of file `f`, each copied out completely -/
def readOps (f : ℕ) (counts : List ℕ) : List Op := counts.map fun c => .reads f c c

/-- a non-empty read makes progress, unless it is at the end of the file -/
theorem SpecStep.reads {n : ℕ} (hn : 0 < n) {σ τ : Abs} {f c : ℕ} {r : Res} (hc : 0 < c)
    (h : SpecStep n σ (.reads f c c) r τ) :
    (σ.store.size ≤ σ.pos f ∧ r = .ret 0 [] ∧ τ = σ) ∨
    ∃ k : ℕ, 0 < k ∧ σ.pos f + k ≤ σ.store.size ∧ r = .ret k (σ.store.read (σ.pos f) k) ∧ τ.store = σ.store ∧
      τ.pos f = σ.pos f + k := by
  have hmod := Nat.mod_lt (σ.pos f) hn
  cases h with
  | pastEnd hpos => exact Or.inl ⟨hpos, rfl, rfl⟩
  | read hpos hcnt => exact Or.inr ⟨_, by omega, by omega, rfl, rfl, by simp⟩

/-- **Reading on.** Non-empty reads of one file deliver consecutive bytes, at least one each until the end. -/
theorem accepts_reads {n : ℕ} (hn : 0 < n) {f : ℕ} {counts : List ℕ} (hc : ∀ c ∈ counts, 0 < c) {σ τ : Abs}
    {es : List (Op × Res)} (hes : es.map Prod.fst = readOps f counts) (h : Accepts (SpecStep n) σ es τ)
    (hle : σ.pos f ≤ σ.store.size) :
    τ.store = σ.store ∧ τ.pos f ≤ σ.store.size ∧ min σ.store.size (σ.pos f + counts.length) ≤ τ.pos f ∧
      ∃ k, τ.pos f = σ.pos f + k ∧ outs es = σ.store.read (σ.pos f) k := by
  induction counts generalizing σ es with
  | nil =>
    have hnil : es = [] := List.map_eq_nil_iff.1 hes
    subst hnil
    cases h
    exact ⟨rfl, hle, by simp, 0, rfl, rfl⟩
  | cons c counts ih =>
    cases es with
    | nil => exact absurd hes (by simp [readOps])
    | cons e es =>
      obtain ⟨op, r⟩ := e
      simp only [readOps, List.map_cons, List.cons.injEq] at hes
      obtain ⟨rfl, hes⟩ := hes
      obtain ⟨ρ, hstep, hrest⟩ := h
      have hc' : ∀ c ∈ counts, 0 < c := fun c hmem => hc c (List.mem_cons_of_mem _ hmem)
      rcases hstep.reads hn (hc c List.mem_cons_self) with ⟨hend, hr, rfl⟩ | ⟨k, hk, hin, hr, hstore, hpos⟩
      · -- at the end nothing moves
        obtain ⟨h1, h2, h3, k, h4, h5⟩ := ih hc' hes hrest hle
        refine ⟨h1, h2, by rw [List.length_cons]; omega, k, h4, ?_⟩
        simp only [outs, List.flatMap_cons]
        simp only at hr
        rw [hr]
        exact h5
      · obtain ⟨h1, h2, h3, k', h4, h5⟩ := ih hc' hes hrest (by rw [hstore, hpos]; exact hin)
        rw [hstore] at h1 h2 h3 h5
        rw [hpos] at h3 h4 h5
        refine ⟨h1, h2, by rw [List.length_cons]; omega, k + k', by omega, ?_⟩
        simp only [outs, List.flatMap_cons]
        simp only at hr
        rw [hr, Store.read_add]
        exact congrArg _ h5

/-! ## Every run -/

theorem sysInv_init {m n : ℕ} (hm : 0 < m) (hn : 0 < n) (hmn : ((m * n : ℕ) : ℤ) ≤ INT_MAX) {par : Params}
    (hqset : par.scullQset = m) (hquantum : par.scullQuantum = n) : SysInv m n (initSys par) :=
  ⟨hqset, hquantum, ⟨hm, hn, hmn, hqset, hquantum, built_nil m n, rfl, by simp [initSys, INT_MAX], by simp [initSys]⟩,
    fun _ => ⟨0, rfl, by norm_num⟩⟩

theorem abs_init (m n : ℕ) (par : Params) : (initSys par).abs m n = ⟨.empty 0, fun _ => 0⟩ := by
  have hempty : byteAt m n [] = fun _ => 0 := by
    funext p; exact lstByte_nil _ _ _
  simp only [Sys.abs, initSys, hempty]
  rfl

/-- **The device is a sparse store.** Every run of legal steps of a fresh device is a run of the abstract store with the
same answers. After it, reading a file from position 0 delivers the contents in order, at least one byte per read until
the end, and 0 at the end. -/
theorem scull_refines_store {m n : ℕ} (hm : 0 < m) (hn : 0 < n) (hmn : ((m * n : ℕ) : ℤ) ≤ INT_MAX) {par : Params}
    (hqset : par.scullQset = m) (hquantum : par.scullQuantum = n) {ops : List Op}
    (h : Meets (next step) (Legal m n) (initSys par) ops) :
    let s := run (next step) (initSys par) ops
    Accepts (SpecStep n) ⟨.empty 0, fun _ => 0⟩ (trace step (initSys par) ops) (s.abs m n) ∧
      ∀ (f : ℕ) (counts : List ℕ), (∀ c ∈ counts, 0 < c ∧ c ≤ MAX_RW_COUNT) →
        let reads := Op.llseek f 0 0 :: readOps f counts
        let σ := (s.abs m n).store
        ∃ k, min σ.size counts.length ≤ k ∧ k ≤ σ.size ∧ outs (trace step s reads) = σ.read 0 k ∧
          (σ.size ≤ counts.length → outs (trace step s reads) = σ.contents) ∧
          ∀ c, 0 < c → c ≤ MAX_RW_COUNT →
            ((step (run (next step) s reads) (.reads f c c)).2 = .ret 0 [] ↔ k = σ.size) := by
  intro s
  have hinit := sysInv_init hm hn hmn hqset hquantum
  have hstep : ∀ s o, SysInv m n s → Legal m n s o → SysInv m n (next step s o) := fun s o h ho => (step_refines h ho).1
  have hsim : ∀ s o, SysInv m n s → Legal m n s o →
      SpecStep n (s.abs m n) o (step s o).2 ((next step s o).abs m n) := fun s o h ho => (step_refines h ho).2
  have hs : SysInv m n s := run_inv hstep hinit h
  refine ⟨?_, fun f counts hc => ?_⟩
  · have := trace_accepted hstep hsim hinit h
    rwa [abs_init] at this
  · intro reads σ
    -- the seek and the reads are legal steps as well
    have hseek : Legal m n s (.llseek f 0 0) := ⟨by norm_num, by norm_num⟩
    set s0 := next step s (.llseek f 0 0) with hs0
    have hs0inv : SysInv m n s0 := hstep s _ hs hseek
    have hstore0 : (s0.abs m n).store = σ := rfl
    have hpos0 : (s0.abs m n).pos f = 0 := by
      simp [hs0, next, step, scullLlseek, Sys.abs]
    have hreads : ∀ s, Meets (next step) (Legal m n) s (readOps f counts) := by
      intro s
      induction counts generalizing s with
      | nil => trivial
      | cons c counts ih =>
        exact ⟨⟨(hc c List.mem_cons_self).2, readLen_le _ _ _ _⟩, ih (fun c hmem => hc c (List.mem_cons_of_mem _ hmem)) _⟩
    have hacc := trace_accepted hstep hsim hs0inv (hreads s0)
    have hinvr := run_inv hstep hs0inv (hreads s0)
    obtain ⟨hstore, hle, hmin, k, hk, houts⟩ := accepts_reads hn (fun c hmem => (hc c hmem).1)
      (trace_fst step s0 (readOps f counts)) hacc (by rw [hpos0]; exact Nat.zero_le _)
    rw [hstore0] at hstore hle hmin houts
    rw [hpos0] at hmin hk houts
    rw [Nat.zero_add] at hmin hk
    have houts' : outs (trace step s reads) = σ.read 0 k := by
      have hskip : outs (trace step s reads) = outs (trace step s0 (readOps f counts)) := rfl
      rw [hskip, houts]
    refine ⟨k, hk ▸ hmin, hk ▸ hle, houts', fun hlong => ?_, fun c hc0 hcmax => ?_⟩
    · have hall : k = σ.size := by omega
      rw [houts', hall, Store.contents]
    · have hlast := hsim _ (.reads f c c) hinvr ⟨hcmax, readLen_le _ _ _ _⟩
      have hrun : run (next step) s reads = run (next step) s0 (readOps f counts) := rfl
      rw [hrun]
      rcases hlast.reads hn hc0 with ⟨hend, hr, -⟩ | ⟨j, hj, hin, hr, -, -⟩
      · rw [hstore, hk] at hend
        exact ⟨fun _ => by omega, fun _ => hr⟩
      · rw [hstore, hk] at hin
        rw [hr]
        refine ⟨fun hzero => ?_, fun hfull => by omega⟩
        have : (j : ℤ) = 0 := by injection hzero
        omega

/-- a write up to the end of a quantum, one behind it whose copy stores zeros in a hole, and a read -/
theorem scull_refines_store_two_three :
    Accepts (SpecStep 3) ⟨.empty 0, fun _ => 0⟩
      (trace step (initSys ⟨3, 2, 0⟩) [.writes 0 [1, 2, 3, 4] (fun _ => true) 3, .writes 0 [9] (fun _ => true) 0,
        .llseek 0 0 0, .reads 0 2 2])
      ((run (next step) (initSys ⟨3, 2, 0⟩) [.writes 0 [1, 2, 3, 4] (fun _ => true) 3, .writes 0 [9] (fun _ => true) 0,
        .llseek 0 0 0, .reads 0 2 2]).abs 2 3) := by
  have h : Meets (next step) (Legal 2 3) (initSys ⟨3, 2, 0⟩) [.writes 0 [1, 2, 3, 4] (fun _ => true) 3,
      .writes 0 [9] (fun _ => true) 0, .llseek 0 0 0, .reads 0 2 2] :=
    ⟨⟨by decide, by decide, fun h => absurd h.2 (by decide)⟩, ⟨by decide, by decide, fun _ => by decide⟩,
      ⟨by norm_num, by norm_num⟩, ⟨by decide, by decide⟩, trivial⟩
  exact (scull_refines_store (by decide) (by decide) (by decide) rfl rfl h).1

/-! ## At index `INT_MAX` -/

theorem qsetlstMake_all (N : ℕ) (k : ℕ) (hN : (N : ℤ) ≤ INT_MAX) :
    ∃ k', qsetlstMake (fun _ => true) N k = (List.replicate N ⟨none⟩, (N : ℤ), k') := by
  obtain ⟨r, hr, k', h, hfail⟩ := qsetlstMake_spec (fun _ => true) N k hN
  rw [Int.toNat_natCast] at hr hfail
  have hall : r = N := by
    by_contra hne
    obtain ⟨_, hk⟩ := hfail (by omega)
    simp at hk
  subst hall
  exact ⟨k', h⟩

/-- with one node in the list, following index `INT_MAX` makes `ln_qlst` negative -/
theorem scullFollowMain_overflow (x : Qset) {N : ℕ} (hN : (N : ℤ) = INT_MAX) :
    ∃ k, scullFollowMain (fun _ => true) [x] 1 N 0 = .ok ⟨x :: List.replicate N ⟨none⟩, -2 ^ 31, some N, k⟩ := by
  obtain ⟨k, hmake⟩ := qsetlstMake_all N 0 (le_of_eq hN)
  unfold INT_MAX at hN
  have hdf : int32 ((N : ℤ) - 1) = ((N - 1 : ℕ) : ℤ) := by
    rw [int32_of_bounds (by omega) (by omega)]; omega
  have hdf1 : int32 (((N - 1 : ℕ) : ℤ) + 1) = N := by
    rw [int32_of_bounds (by omega) (by omega)]; omega
  have hsum : int32 (1 + (N : ℤ)) = -2 ^ 31 := by rw [hN]; rfl
  have hin : N - 1 < (List.replicate N (⟨none⟩ : Qset)).length := by simp; omega
  refine ⟨k, ?_⟩
  unfold scullFollowMain
  rw [if_neg (by omega)]
  simp only [hdf, hdf1, hmake, hsum]
  rw [if_pos (by omega), scullFollowLessthan_ok hin (by unfold INT_MAX; omega)]
  have hpos : [x].length + (N - 1) = N := by simp; omega
  simp only [bind, Except.bind, hpos, List.singleton_append]

theorem scullWriteMain_overflow (x : Qset) {N : ℕ} (hN : (N : ℤ) = INT_MAX) (b : UInt8) :
    ∃ xs, scullWriteMain (fun _ => true) 1 1 [x] 1 N 0 0 [b] 1 N 1 = .ok (1, xs, -2 ^ 31, (N : ℤ) + 1) := by
  obtain ⟨k, hf⟩ := scullFollowMain_overflow x hN
  unfold INT_MAX at hN
  have hnode : (x :: List.replicate N (⟨none⟩ : Qset)).getD N ⟨none⟩ = ⟨none⟩ := by
    obtain ⟨N', rfl⟩ : ∃ N', N = N' + 1 := ⟨N - 1, by omega⟩
    rw [List.getD_cons_succ, List.getD_eq_getElem?_getD, List.getElem?_replicate]
    split_ifs <;> rfl
  have hpos : int64 ((N : ℤ) + 1) = (N : ℤ) + 1 := int64_of_bounds (by omega) (by omega)
  unfold scullWriteMain
  simp only [hf, bind, Except.bind, hnode]
  have hw : qdatptrVtakeoutBytesWrite (fun _ => true) none 1 1 0 k = .ok (some [some [0]], some [0], k + 2) := rfl
  have hmin : min (1 : ℤ) (1 - 0) = 1 := rfl
  have hc : copyToWindow [0] 0 1 [b] 1 = .ok [b] := rfl
  have hleft : (1 : ℤ).toNat - 1 = 0 := rfl
  simp only [hw, hmin, hc, hleft, hpos, if_true]
  exact ⟨_, rfl⟩

/-- with a negative `ln_qlst`, following index 0 walks off the nodes that were made -/
theorem scullWrite_after_overflow (dev : ScullDev) (hln : dev.lnQlst = -2 ^ 31) (b : UInt8) :
    scullWrite (fun _ => true) dev 1 1 [b] 0 1 = .error .badAccess := by
  have hargs : scullWriteArgs 1 1 [b].length 0 = .ok ⟨1, 1, 0, 0, 0, 1⟩ :=
    @scullWriteArgs_spec 1 1 (by decide) (by decide) (by decide) 0 (by decide) [b].length (by simp [MAX_RW_COUNT])
  have hdf : int32 (0 - -2 ^ 31) = -2 ^ 31 := by decide
  have hmake : qsetlstMake (fun _ => true) (int32 (-2 ^ 31 + 1)) 0 = ([], 0, 0) := by decide
  have hf : scullFollowMain (fun _ => true) dev.data (-2 ^ 31) 0 0 = .error .badAccess := by
    unfold scullFollowMain
    rw [if_neg (by norm_num)]
    simp only [hdf, hmake]
    rw [if_pos (by norm_num)]
    rfl
  unfold scullWrite scullWriteMain
  simp only [hargs, bind, Except.bind, hln, hf]

/-- with one byte stored at index 0, a write at index `INT_MAX` succeeds and makes `ln_qlst` negative -/
theorem scullWrite_overflow (dev : ScullDev) {x : Qset} (hdata : dev.data = [x]) (hln : dev.lnQlst = 1) (b : UInt8) :
    ∃ dev', scullWrite (fun _ => true) dev 1 1 [b] INT_MAX 1 = .ok (1, dev', INT_MAX + 1) ∧ dev'.lnQlst = -2 ^ 31 ∧
      dev'.mQset = dev.mQset ∧ dev'.nQuantum = dev.nQuantum := by
  obtain ⟨N, hN⟩ : ∃ N : ℕ, (N : ℤ) = INT_MAX := ⟨2147483647, rfl⟩
  obtain ⟨xs, hw⟩ := scullWriteMain_overflow x hN b
  rw [hN] at hw
  have hargs : scullWriteArgs 1 1 [b].length INT_MAX = .ok ⟨1, 1, INT_MAX, 0, 0, 1⟩ := by
    have h := @scullWriteArgs_spec 1 1 (by decide) (by decide) (by decide) N (by rw [Nat.div_one, Nat.div_one, hN])
      [b].length (by simp [MAX_RW_COUNT])
    simpa [hN, Nat.mod_one] using h
  unfold scullWrite
  simp only [hargs, bind, Except.bind, hdata, hln, hw]
  split_ifs <;> exact ⟨_, rfl, rfl, rfl, rfl⟩

/-- one byte per quantum and one quantum per node; after a first byte at index 0, a write at index `INT_MAX` and another
one at index 0 -/
theorem overflow_run {s : Sys} {x : Qset} (hdev : s.dev = ⟨1, 1, [x], 1, 1⟩) :
    (trace step s [.llseek 0 INT_MAX 0, .writes 0 [7] (fun _ => true) 1, .llseek 0 0 0,
        .writes 0 [7] (fun _ => true) 1]).map Prod.snd =
      [.ret INT_MAX [], .ret 1 [], .ret 0 [], .oops .badAccess] := by
  obtain ⟨dev', hw, hln, hm, hn⟩ := scullWrite_overflow s.dev (by rw [hdev]) (by rw [hdev]) 7
  have h1 : step s (.llseek 0 INT_MAX 0) = ({ s with fpos := Function.update s.fpos 0 INT_MAX }, .ret INT_MAX []) := by
    have hneg : ¬ INT_MAX < 0 := by decide
    simp only [step, scullLlseek, if_true, hneg, if_false]
  have h2 : step { s with fpos := Function.update s.fpos 0 INT_MAX } (.writes 0 [7] (fun _ => true) 1) =
      ({ s with dev := dev', fpos := Function.update (Function.update s.fpos 0 INT_MAX) 0 (INT_MAX + 1) },
        .ret 1 []) := by
    have hm1 : s.dev.mQset = 1 := by rw [hdev]
    have hn1 : s.dev.nQuantum = 1 := by rw [hdev]
    simp only [step, Function.update_self, hm1, hn1, hw]
  have h3 : ∀ t : Sys, step t (.llseek 0 0 0) = ({ t with fpos := Function.update t.fpos 0 0 }, .ret 0 []) := by
    intro t
    simp only [step, scullLlseek, if_true, lt_irrefl, if_false]
  have h4 : ∀ t : Sys, t.dev = dev' → t.fpos 0 = 0 → (step t (.writes 0 [7] (fun _ => true) 1)).2 = .oops .badAccess := by
    intro t ht hpos
    have hm1 : t.dev.mQset = 1 := by rw [ht, hm, hdev]
    have hn1 : t.dev.nQuantum = 1 := by rw [ht, hn, hdev]
    have hoops := scullWrite_after_overflow t.dev (by rw [ht, hln]) 7
    simp only [step, hpos, hm1, hn1, hoops]
  simp only [trace, h1, h2, h3, List.map_cons, List.map_nil]
  rw [h4 _ rfl (by simp only [Function.update_self])]

/-- **Where it is no store**: a read whose copy fails, a write whose copy brings nothing and zeroes bytes 0 and 1, and a
write at index `INT_MAX`. -/
theorem copies_fail_and_length_overflows :
    (trace step (initSys ⟨1, 1, 0⟩)
        [.writes 0 [7] (fun _ => true) 1, .llseek 0 0 0, .reads 0 1 0]).map Prod.snd =
      [.ret 1 [], .ret 0 [], .ret (-14) []] ∧
    (trace step (initSys ⟨4, 1, 0⟩)
        [.writes 0 [1, 2, 3] (fun _ => true) 3, .llseek 0 0 0, .writes 0 [9, 9] (fun _ => true) 0,
          .reads 0 3 3]).map Prod.snd =
      [.ret 3 [], .ret 0 [], .ret (-14) [], .ret 3 [0, 0, 3]] ∧
    (trace step (initSys ⟨1, 1, 0⟩)
        [.writes 0 [7] (fun _ => true) 1, .llseek 0 INT_MAX 0, .writes 0 [7] (fun _ => true) 1, .llseek 0 0 0,
          .writes 0 [7] (fun _ => true) 1]).map Prod.snd =
      [.ret 1 [], .ret INT_MAX [], .ret 1 [], .ret 0 [], .oops .badAccess] := by
  refine ⟨by decide, by decide, ?_⟩
  have hdev : (next step (initSys ⟨1, 1, 0⟩) (.writes 0 [7] (fun _ => true) 1)).dev =
      ⟨1, 1, [⟨some [some [7]]⟩], 1, 1⟩ := by decide
  exact congrArg (List.cons (Res.ret 1 [])) (overflow_run hdev)

end AtsLdd.Scull
