/-
Writing a long name: the part of `vfat_build_slots` (namei_vfat.c) that makes the slots of a name.

- `longSlots_row`: where the slots of a name and an entry with their checksum are stored, there is a row of slots, as
  `fat_parse_long` accepts them, and its characters are those of the name;
- `fatParseLong_longSlots`: `fat_parse_long` reads the name back.
-/
import AtsLdd.Vfat.ParseLong

namespace AtsLdd.Vfat

open AtsLdd.Fat

/-! ## The code -/

/-- `fatwchar_to16` -/
def fatwcharTo16 : List UInt16 → List UInt8
  | [] => []
  | w :: src => w.toUInt8 :: (w >>> 8).toUInt8 :: fatwcharTo16 src

/-- `struct msdos_dir_slot`, with the characters of `uname` from `offset` on -/
def dirSlot (id cksum : UInt8) (uname : List UInt16) (offset : ℕ) : List UInt8 :=
  id :: fatwcharTo16 ((uname.drop offset).take 5) ++ [ATTR_EXT, 0, cksum] ++ fatwcharTo16 ((uname.drop (offset + 5)).take 6) ++
    [0, 0] ++ fatwcharTo16 ((uname.drop (offset + 11)).take 2)

/-- the loop of `vfat_build_slots`, from slot number `i` down -/
def slotLoop (uname : List UInt16) (cksum : UInt8) : ℕ → List UInt8
  | 0 => []
  | i + 1 => dirSlot (UInt8.ofNat (i + 1)) cksum uname (i * 13) ++ slotLoop uname cksum i

/-- the slots of a long name; the first one is marked -/
def longSlots (uname : List UInt16) (cksum : UInt8) (nrSlots : ℕ) : List UInt8 :=
  match slotLoop uname cksum nrSlots with
  | [] => []
  | id :: slots => (id ||| 0x40) :: slots

/-! ## One slot -/

theorem toUInt16_bytes (w : UInt16) : w.toUInt8.toUInt16 ||| (w >>> 8).toUInt8.toUInt16 <<< 8 = w := by
  apply UInt16.eq_of_toBitVec_eq
  simp only [UInt16.toBitVec_or, UInt16.toBitVec_shiftLeft, UInt8.toBitVec_toUInt16, UInt16.toBitVec_toUInt8,
    UInt16.toBitVec_shiftRight]
  ext i hi
  simp only [BitVec.getElem_or]
  interval_cases i <;> simp

/-- the bytes of an entry are `bytes` -/
def Holds32 (de : Buf) (bytes : List UInt8) : Prop := ∀ k < DENT_SIZE, bytes[k]? = some (de k)

section
variable {uname : List UInt16} {cksum id : UInt8} {de : Buf} {es : ℕ → Buf} {i m n : ℕ} {short : List UInt8}

theorem fatwcharTo16_length (l : List UInt16) : (fatwcharTo16 l).length = 2 * l.length := by
  induction l with
  | nil => rfl
  | cons w l ih =>
    rw [fatwcharTo16, List.length_cons, List.length_cons, ih, List.length_cons]
    ring

/-- the two bytes of a character -/
theorem fatwcharTo16_get (l : List UInt16) : ∀ {j : ℕ} {w : UInt16}, l[j]? = some w →
    (fatwcharTo16 l)[2 * j]? = some w.toUInt8 ∧ (fatwcharTo16 l)[2 * j + 1]? = some (w >>> 8).toUInt8 := by
  induction l with
  | nil =>
    intro j w h
    simp at h
  | cons c l ih =>
    intro j w h
    cases j with
    | zero =>
      obtain rfl : c = w := by simpa using h
      exact ⟨rfl, rfl⟩
    | succ j => exact ih (by simpa using h)

theorem dirSlot_length {offset : ℕ} (h : offset + 13 ≤ uname.length) : (dirSlot id cksum uname offset).length = DENT_SIZE := by
  unfold dirSlot
  simp only [List.length_append, List.length_cons, List.length_nil, fatwcharTo16_length, List.length_take, List.length_drop]
  rw [min_eq_left (by omega), min_eq_left (by omega), min_eq_left (by omega)]
  rfl

/-- where the parts of a slot are -/
theorem dirSlot_parts {offset : ℕ} (h : offset + 13 ≤ uname.length) : (dirSlot id cksum uname offset)[0]? = some id ∧
    (dirSlot id cksum uname offset)[11]? = some ATTR_EXT ∧ (dirSlot id cksum uname offset)[13]? = some cksum ∧
    (∀ y < 10, (dirSlot id cksum uname offset)[1 + y]? = (fatwcharTo16 ((uname.drop offset).take 5))[y]?) ∧
    (∀ y < 12, (dirSlot id cksum uname offset)[14 + y]? = (fatwcharTo16 ((uname.drop (offset + 5)).take 6))[y]?) ∧
    ∀ y < 4, (dirSlot id cksum uname offset)[28 + y]? = (fatwcharTo16 ((uname.drop (offset + 11)).take 2))[y]? := by
  have h1 : (fatwcharTo16 ((uname.drop offset).take 5)).length = 10 := by
    rw [fatwcharTo16_length, List.length_take, List.length_drop]
    omega
  have h2 : (fatwcharTo16 ((uname.drop (offset + 5)).take 6)).length = 12 := by
    rw [fatwcharTo16_length, List.length_take, List.length_drop]
    omega
  unfold dirSlot
  generalize fatwcharTo16 ((uname.drop offset).take 5) = c1 at h1 ⊢
  generalize fatwcharTo16 ((uname.drop (offset + 5)).take 6) = c2 at h2 ⊢
  simp only [List.getElem?_append, List.length_append, List.length_cons, List.length_nil, h1, h2]
  refine ⟨rfl, by simp, by simp, fun y hy => ?_, fun y hy => ?_, fun y hy => ?_⟩
  · rw [if_pos (by omega), if_pos (by omega), if_pos (by omega), if_pos (by omega), Nat.add_comm, List.getElem?_cons_succ]
  · rw [if_pos (by omega), if_pos (by omega), if_neg (by omega), Nat.add_sub_cancel_left]
  · rw [if_neg (by omega), Nat.add_sub_cancel_left]

/-- **The fields of a slot**, and its characters. -/
theorem dirSlot_fields {offset : ℕ} (h : offset + 13 ≤ uname.length) (hde : Holds32 de (dirSlot id cksum uname offset)) :
    de 0 = id ∧ entAttr de = ATTR_EXT ∧ de 13 = cksum ∧ ∀ x < 13, uname[offset + x]? = some (slotChar de x) := by
  obtain ⟨hid, hattr, hsum, h1, h2, h3⟩ := @dirSlot_parts uname cksum id offset h
  have hbyte : ∀ {k : ℕ} {c : UInt8}, k < DENT_SIZE → (dirSlot id cksum uname offset)[k]? = some c → de k = c := by
    intro k c hk hc
    rw [hde k hk] at hc
    exact Option.some.inj hc
  refine ⟨hbyte (by decide) hid, hbyte (by decide) hattr, hbyte (by decide) hsum, fun x hx => ?_⟩
  have hget : uname[offset + x]? = some (uname[offset + x]) := List.getElem?_eq_getElem (by omega)
  rw [hget]
  generalize uname[offset + x] = w at hget
  -- the two bytes of the character
  obtain ⟨hlo, hhi⟩ : de (charOff x) = w.toUInt8 ∧ de (charOff x + 1) = (w >>> 8).toUInt8 := by
    have hent : DENT_SIZE = 32 := rfl
    unfold charOff
    by_cases h5 : x < 5
    · obtain ⟨hlo, hhi⟩ := fatwcharTo16_get ((uname.drop offset).take 5) (j := x) (w := w) (by
        rw [List.getElem?_take, if_pos h5, List.getElem?_drop, hget])
      rw [if_pos h5]
      exact ⟨hbyte (by omega) ((h1 _ (by omega)).trans hlo), hbyte (by omega) ((h1 _ (by omega)).trans hhi)⟩
    by_cases h11 : x < 11
    · obtain ⟨hlo, hhi⟩ := fatwcharTo16_get ((uname.drop (offset + 5)).take 6) (j := x - 5) (w := w) (by
        rw [List.getElem?_take, if_pos (by omega), List.getElem?_drop, show offset + 5 + (x - 5) = offset + x by omega, hget])
      rw [if_neg h5, if_pos h11]
      exact ⟨hbyte (by omega) ((h2 _ (by omega)).trans hlo), hbyte (by omega) ((h2 _ (by omega)).trans hhi)⟩
    · obtain ⟨hlo, hhi⟩ := fatwcharTo16_get ((uname.drop (offset + 11)).take 2) (j := x - 11) (w := w) (by
        rw [List.getElem?_take, if_pos (by omega), List.getElem?_drop, show offset + 11 + (x - 11) = offset + x by omega, hget])
      rw [if_neg h5, if_neg h11]
      exact ⟨hbyte (by omega) ((h3 _ (by omega)).trans hlo), hbyte (by omega) ((h3 _ (by omega)).trans hhi)⟩
  unfold slotChar
  rw [hlo, hhi, toUInt16_bytes]

/-! ## The slots of a name -/

theorem slotLoop_length (cksum : UInt8) (m : ℕ) (h : 13 * m ≤ uname.length) :
    (slotLoop uname cksum m).length = DENT_SIZE * m := by
  induction m with
  | zero => rfl
  | succ m ih => rw [slotLoop, List.length_append, dirSlot_length (by omega), ih (by omega), Nat.mul_succ, Nat.add_comm]

/-- the bytes of slot `t` -/
theorem slotLoop_get (cksum : UInt8) (m : ℕ) (h : 13 * m ≤ uname.length) : ∀ {t : ℕ}, t < m → ∀ k < DENT_SIZE,
    (slotLoop uname cksum m)[DENT_SIZE * t + k]? = (dirSlot (UInt8.ofNat (m - t)) cksum uname ((m - 1 - t) * 13))[k]? := by
  induction m with
  | zero => exact fun ht => absurd ht (Nat.not_lt_zero _)
  | succ m ih =>
    intro t ht k hk
    have hlen : (dirSlot (UInt8.ofNat (m + 1)) cksum uname (m * 13)).length = DENT_SIZE := dirSlot_length (by omega)
    rw [slotLoop]
    cases t with
    | zero =>
      rw [List.getElem?_append_left (by rw [hlen]; omega), Nat.mul_zero, Nat.zero_add]
      rfl
    | succ t =>
      rw [List.getElem?_append_right (by rw [hlen, Nat.mul_succ]; omega), hlen,
        show DENT_SIZE * (t + 1) + k - DENT_SIZE = DENT_SIZE * t + k by rw [Nat.mul_succ]; omega,
        ih (by omega) (by omega) k hk, show m + 1 - (t + 1) = m - t by omega, show m + 1 - 1 - (t + 1) = m - 1 - t by omega]

theorem longSlots_succ (uname : List UInt16) (cksum : UInt8) (m : ℕ) : longSlots uname cksum (m + 1) =
    dirSlot (UInt8.ofNat (m + 1) ||| 0x40) cksum uname (m * 13) ++ slotLoop uname cksum m := rfl

theorem longSlots_length (cksum : UInt8) (h : 13 * m ≤ uname.length) : (longSlots uname cksum m).length = DENT_SIZE * m := by
  cases m with
  | zero => rfl
  | succ m =>
    rw [longSlots_succ, List.length_append, dirSlot_length (by omega), slotLoop_length cksum m (by omega), Nat.mul_succ,
      Nat.add_comm]

/-- the bytes of slot `t`, of which the first one is marked -/
theorem longSlots_get (cksum : UInt8) (h : 13 * m ≤ uname.length) {t : ℕ} (ht : t < m) {k : ℕ} (hk : k < DENT_SIZE) :
    (longSlots uname cksum m)[DENT_SIZE * t + k]? =
      (dirSlot (if t = 0 then UInt8.ofNat m ||| 0x40 else UInt8.ofNat (m - t)) cksum uname ((m - 1 - t) * 13))[k]? := by
  obtain ⟨m, rfl⟩ : ∃ n, m = n + 1 := ⟨m - 1, by omega⟩
  have hlen : (dirSlot (UInt8.ofNat (m + 1) ||| 0x40) cksum uname (m * 13)).length = DENT_SIZE := dirSlot_length (by omega)
  rw [longSlots_succ]
  cases t with
  | zero =>
    rw [List.getElem?_append_left (by rw [hlen]; omega), Nat.mul_zero, Nat.zero_add]
    rfl
  | succ t =>
    rw [List.getElem?_append_right (by rw [hlen, Nat.mul_succ]; omega), hlen,
      show DENT_SIZE * (t + 1) + k - DENT_SIZE = DENT_SIZE * t + k by rw [Nat.mul_succ]; omega,
      slotLoop_get cksum m (by omega) (by omega) k hk, if_neg (Nat.succ_ne_zero t), show m + 1 - (t + 1) = m - t by omega,
      show m + 1 - 1 - (t + 1) = m - 1 - t by omega]

/-- the number of a slot, with the mark and without -/
theorem slot_id {m : ℕ} (h20 : m ≤ 20) : ((UInt8.ofNat m ||| 0x40) &&& ~~~ 0x40).toNat = m ∧
    (UInt8.ofNat m ||| 0x40) &&& 0x40 ≠ 0 ∧ (UInt8.ofNat m &&& ~~~ 0x40).toNat = m ∧ UInt8.ofNat m &&& 0x40 = 0 := by
  have hall : ∀ n < 21, ((UInt8.ofNat n ||| 0x40) &&& ~~~ 0x40).toNat = n ∧ (UInt8.ofNat n ||| 0x40) &&& 0x40 ≠ 0 ∧
      (UInt8.ofNat n &&& ~~~ 0x40).toNat = n ∧ UInt8.ofNat n &&& 0x40 = 0 := by decide
  exact hall m (by omega)

/-- **The slots of a name are a row**, with the characters of the name. -/
theorem longSlots_row (hlen : uname.length = 13 * m) (hm : 0 < m) (h20 : m ≤ 20)
    (hsum : fatChecksum (entName (es (i + m))) = cksum)
    (hes : ∀ t < m, ∀ k < DENT_SIZE, (longSlots uname cksum m)[DENT_SIZE * t + k]? = some (es (i + t) k)) :
    LongRow es i m ∧ ∀ p < 13 * m, uname[p]? = some (rowChar es i m p) := by
  have hfields : ∀ t < m, es (i + t) 0 = (if t = 0 then UInt8.ofNat m ||| 0x40 else UInt8.ofNat (m - t)) ∧
      entAttr (es (i + t)) = ATTR_EXT ∧ es (i + t) 13 = cksum ∧
        ∀ x < 13, uname[(m - 1 - t) * 13 + x]? = some (slotChar (es (i + t)) x) := by
    intro t ht
    apply dirSlot_fields (by omega)
    intro k hk
    rw [← longSlots_get cksum hlen.ge ht hk]
    exact hes t ht k hk
  have hid : ∀ t < m, (es (i + t) 0 &&& ~~~ 0x40).toNat = m - t := by
    intro t ht
    rw [(hfields t ht).1]
    by_cases h0 : t = 0
    · rw [if_pos h0, h0]
      exact (slot_id h20).1
    · rw [if_neg h0]
      exact (slot_id (by omega)).2.2.1
  have hfirst := (hfields 0 hm).1
  rw [if_pos rfl, Nat.add_zero] at hfirst
  refine ⟨⟨hm, h20, ⟨by rw [hfirst]; exact (slot_id h20).2.1, hid, fun t ht => (hfields t ht).2.1, fun t ht => ?_⟩⟩, fun p hp => ?_⟩
  · rw [hsum]
    exact (hfields t ht).2.2.1
  · have hq : p / 13 < m := Nat.div_lt_of_lt_mul hp
    have hmark : ¬ (p % 13 = 0 ∧ p / 13 ≠ 0 ∧ es (i + (m - p / 13)) 0 &&& 0x40 ≠ 0) := by
      rintro ⟨-, hq0, hmark⟩
      rw [(hfields (m - p / 13) (by omega)).1, if_neg (by omega)] at hmark
      exact hmark (slot_id (by omega)).2.2.2
    have hchar := (hfields (m - 1 - p / 13) (by omega)).2.2.2 (p % 13) (Nat.mod_lt _ (by decide))
    rw [show m - 1 - (m - 1 - p / 13) = p / 13 by omega, Nat.div_add_mod'] at hchar
    rw [rowChar, if_neg (by omega), if_neg hmark, hchar]

end

/-- **A long name that is written is read back**, wherever its slots are in a directory. -/
theorem fatParseLong_longSlots {σ : Type*} {rd : EntryReader σ} {At : ℕ → σ → Prop} {Over : σ → Prop} {es : ℕ → Buf} {n i m : ℕ}
    {z : σ} (hrd : rd.Reads At Over es n) {uname : List UInt16} (hlen : uname.length = 13 * m) (hm : 0 < m) (h20 : m ≤ 20)
    (hes : ∀ t < m, ∀ k < DENT_SIZE, (longSlots uname (fatChecksum (entName (es (i + m)))) m)[DENT_SIZE * t + k]? = some (es (i + t) k))
    (hlive : Live (es (i + m))) (hlt : i + m < n) (hat : At (i + 1) z) (fresh : ℕ → UInt16) (unicode : Option (ℕ → UInt16))
    (nr : ℕ) : ∃ z' u, fatParseLong rd n (some fresh) z unicode nr = ⟨.ok, z', some u, m⟩ ∧ At (i + m + 1) z' ∧
      (∀ p < 13 * m, uname[p]? = some (u p)) ∧ u (13 * m) = 0 := by
  obtain ⟨hrow, hchars⟩ := longSlots_row hlen hm h20 rfl hes
  obtain ⟨z', u, hparse, hat', hu⟩ := fatParseLong_row hrd hrow hlt hlive hat fresh unicode nr
  refine ⟨z', u, hparse, hat', fun p hp => ?_, ?_⟩
  · rw [hu p hp.le]
    exact hchars p hp
  · rw [hu _ le_rfl, rowChar, if_pos rfl]

/-- a reader of `n` entries -/
def rowReader (es : ℕ → Buf) (n : ℕ) : EntryReader ℕ where
  getEntry z := if z < n then (true, z + 1) else (false, z)
  ent z := es (z - 1)

/-- `Long Name.text` -/
def longNameText : List UInt16 := [0x4c, 0x6f, 0x6e, 0x67, 0x20, 0x4e, 0x61, 0x6d, 0x65, 0x2e, 0x74, 0x65, 0x78, 0x74]

/-- an entry with a short name, its attributes, and zeros -/
def entryBytes (short : List UInt8) (attr : UInt8) : List UInt8 := short ++ attr :: List.replicate 20 0

/-- the two slots of `Long Name.text`, and the entry with its short name `LONGNA~1.TEX` -/
def longNameBytes : List UInt8 :=
  let short := "LONGNA~1TEX".toList.map ch
  longSlots (fillSlots longNameText) (fatChecksum short) 2 ++ entryBytes short ATTR_ARCH

/-- entries whose bytes follow each other -/
def bytesAt (bytes : List UInt8) : ℕ → Buf := fun i k => bytes.getD (DENT_SIZE * i + k) 0

theorem rowReader_reads (es : ℕ → Buf) (n : ℕ) : (rowReader es n).Reads (fun i z => i = z) (fun _ => True) es n where
  next := by
    rintro i z rfl hi
    exact ⟨i + 1, if_pos hi, rfl⟩
  last := by
    rintro i z rfl hi
    exact ⟨i, if_neg (not_lt.2 hi), trivial⟩
  ent := by
    rintro i z rfl
    rfl

/-- `Long Name.text` is read back -/
theorem fatParseLong_longSlots_two : ∃ z' u, fatParseLong (rowReader (bytesAt longNameBytes) 3) 3 (some fun _ => 7) 1 none 0 =
    ⟨.ok, z', some u, 2⟩ ∧ 0 + 2 + 1 = z' ∧ (∀ p < 13 * 2, (fillSlots longNameText)[p]? = some (u p)) ∧ u (13 * 2) = 0 :=
  fatParseLong_longSlots (i := 0) (rowReader_reads (bytesAt longNameBytes) 3) (by decide) (by decide) (by decide)
    (by decide +kernel) ⟨by decide +kernel, by decide +kernel⟩ (by decide) rfl (fun _ => 7) none 0

end AtsLdd.Vfat
