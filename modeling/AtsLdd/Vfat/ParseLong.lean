/-
Reading a long name: `fat_parse_long` (dir.c), over any function that hands out the entries of a directory one after the other.

- `LongRow`: the entries before an entry are the slots of a long name for it;
- `fatParseLong_sound`: whatever a directory holds, what is accepted as a long name is such a row, and the characters are those
  of its slots;
- `fatParseLong_row`: such a row is accepted from its first slot on.
-/
import AtsLdd.Fat.Scan
import AtsLdd.Vfat.Translate

namespace AtsLdd.Vfat

open AtsLdd.Fat

/-- `ATTR_RO | ATTR_HIDDEN | ATTR_SYS | ATTR_VOLUME` -/
def ATTR_EXT : UInt8 := 0xf

/-! ## The code -/

/-- a function that moves to the next entry, with the entry it is at; there may be no next one -/
structure EntryReader (σ : Type*) where
  getEntry : σ → Bool × σ
  ent : σ → Buf

/-- `fat_checksum` -/
def fatChecksum : List UInt8 → UInt8
  | [] => 0
  | c :: name => name.foldl (fun s c => (s <<< 7) + (s >>> 1) + c) c

/-- `fat16_towchar`: `len` characters of `src`, to `dst` from `at` on -/
def fat16Towchar (dst : ℕ → UInt16) (start : ℕ) (src : Buf) (off len : ℕ) : ℕ → UInt16 :=
  fun j => if start ≤ j ∧ j < start + len then
    (src (off + 2 * (j - start))).toUInt16 ||| (src (off + 2 * (j - start) + 1)).toUInt16 <<< 8 else dst j

/-- the three parts of a name in a slot are copied, and a zero behind the first slot of a row -/
def copySlot (unicode : ℕ → UInt16) (ds : Buf) (offset : ℕ) : ℕ → UInt16 :=
  let unicode := fat16Towchar unicode offset ds 1 5
  let unicode := fat16Towchar unicode (offset + 5) ds 14 6
  let unicode := fat16Towchar unicode (offset + 11) ds 28 2
  if ds 0 &&& 0x40 ≠ 0 then Function.update unicode (offset + 13) 0 else unicode

/-- what `fat_parse_long` returns -/
inductive ParseStatus
  | ok
  | nomem
  | invalid
  | notLongname
  | eof
deriving DecidableEq

/-- what `fat_parse_long` leaves -/
structure ParseLong (σ : Type*) where
  status : ParseStatus
  z : σ
  unicode : Option (ℕ → UInt16)
  nrSlots : ℕ

section
variable {σ : Type*}

/-- the label `parse_long`, before the loop -/
def parseStart (rd : EntryReader σ) (loop : σ → (ℕ → UInt16) → ℕ → UInt8 → ℕ → ParseLong σ) (z : σ) (unicode : ℕ → UInt16)
    (nrSlots : ℕ) : ParseLong σ :=
  let id := rd.ent z 0
  if id &&& 0x40 = 0 then ⟨.invalid, z, unicode, nrSlots⟩
  else
    let slots := (id &&& ~~~ 0x40).toNat
    if 20 < slots ∨ slots = 0 then ⟨.invalid, z, unicode, nrSlots⟩
    else loop z unicode slots (rd.ent z 13) slots

/-- the loop of `fat_parse_long`, at most `fuel` times -/
def parseLoop (rd : EntryReader σ) : ℕ → σ → (ℕ → UInt16) → ℕ → UInt8 → ℕ → ParseLong σ
  | 0, z, unicode, nrSlots, _, _ => ⟨.eof, z, unicode, nrSlots⟩
  | fuel + 1, z, unicode, nrSlots, aliasChecksum, slot =>
    let slot := slot - 1
    let unicode := copySlot unicode (rd.ent z) (slot * 13)
    match rd.getEntry z with
    | (false, z) => ⟨.eof, z, unicode, nrSlots⟩
    | (true, z) =>
      let de := rd.ent z
      if slot ≠ 0 then
        if entAttr de ≠ ATTR_EXT then ⟨.notLongname, z, unicode, nrSlots⟩
        else if (de 0 &&& ~~~ 0x40).toNat ≠ slot then parseStart rd (parseLoop rd fuel) z unicode nrSlots
        else if de 13 ≠ aliasChecksum then parseStart rd (parseLoop rd fuel) z unicode nrSlots
        else parseLoop rd fuel z unicode nrSlots aliasChecksum slot
      -- behind the loop: the short entry
      else if de 0 = DELETED_FLAG then ⟨.invalid, z, unicode, nrSlots⟩
      else if entAttr de = ATTR_EXT then parseStart rd (parseLoop rd fuel) z unicode nrSlots
      else if IsFree de ∨ entAttr de &&& ATTR_VOLUME ≠ 0 then ⟨.invalid, z, unicode, nrSlots⟩
      else ⟨.ok, z, unicode, if fatChecksum (entName de) ≠ aliasChecksum then 0 else nrSlots⟩

/-- `fat_parse_long`; `fresh` is the buffer that `__getname` finds -/
def fatParseLong (rd : EntryReader σ) (fuel : ℕ) (fresh : Option (ℕ → UInt16)) (z : σ) (unicode : Option (ℕ → UInt16))
    (nrSlots : ℕ) : ParseLong σ :=
  match unicode.or fresh with
  | none => ⟨.nomem, z, none, nrSlots⟩
  | some unicode => parseStart rd (parseLoop rd fuel) z unicode nrSlots

/-! ## Slots -/

/-- the byte of a slot at which character `x` begins -/
def charOff (x : ℕ) : ℕ := if x < 5 then 1 + 2 * x else if x < 11 then 14 + 2 * (x - 5) else 28 + 2 * (x - 11)

/-- character `x` of the 13 in a slot -/
def slotChar (ds : Buf) (x : ℕ) : UInt16 := (ds (charOff x)).toUInt16 ||| (ds (charOff x + 1)).toUInt16 <<< 8

theorem copySlot_of_mem (unicode : ℕ → UInt16) (ds : Buf) {offset x : ℕ} (hx : x < 13) :
    copySlot unicode ds offset (offset + x) = slotChar ds x := by
  have hne : offset + x ≠ offset + 13 := by omega
  have hcopy : fat16Towchar (fat16Towchar (fat16Towchar unicode offset ds 1 5) (offset + 5) ds 14 6) (offset + 11) ds 28 2
      (offset + x) = slotChar ds x := by
    unfold fat16Towchar slotChar charOff
    by_cases h5 : x < 5
    · rw [if_neg (by omega), if_neg (by omega), if_pos (by omega), if_pos h5, Nat.add_sub_cancel_left]
    by_cases h11 : x < 11
    · rw [if_neg (by omega), if_pos (by omega), if_neg h5, if_pos h11, show offset + x - (offset + 5) = x - 5 by omega]
    · rw [if_pos (by omega), if_neg h5, if_neg h11, show offset + x - (offset + 11) = x - 11 by omega]
  unfold copySlot
  split_ifs
  · rw [Function.update_of_ne hne, hcopy]
  · exact hcopy

theorem copySlot_of_not_mem (unicode : ℕ → UInt16) (ds : Buf) {offset j : ℕ} (hj : j < offset ∨ offset + 13 < j) :
    copySlot unicode ds offset j = unicode j := by
  have hcopy : fat16Towchar (fat16Towchar (fat16Towchar unicode offset ds 1 5) (offset + 5) ds 14 6) (offset + 11) ds 28 2
      j = unicode j := by
    unfold fat16Towchar
    rw [if_neg (by omega), if_neg (by omega), if_neg (by omega)]
  unfold copySlot
  split_ifs
  · rw [Function.update_of_ne (by omega), hcopy]
  · exact hcopy

theorem copySlot_behind (unicode : ℕ → UInt16) (ds : Buf) (offset : ℕ) :
    copySlot unicode ds offset (offset + 13) = if ds 0 &&& 0x40 ≠ 0 then 0 else unicode (offset + 13) := by
  have hcopy : fat16Towchar (fat16Towchar (fat16Towchar unicode offset ds 1 5) (offset + 5) ds 14 6) (offset + 11) ds 28 2
      (offset + 13) = unicode (offset + 13) := by
    unfold fat16Towchar
    rw [if_neg (by omega), if_neg (by omega), if_neg (by omega)]
  unfold copySlot
  split_ifs
  · rw [Function.update_self]
  · exact hcopy

/-! ## Rows of slots -/

/-- the `n` entries from entry `i` on are the first of the `m` slots of a long name for a short name with checksum `a` -/
structure SlotRow (es : ℕ → Buf) (a : UInt8) (i m n : ℕ) : Prop where
  first : es i 0 &&& 0x40 ≠ 0
  id : ∀ t < n, (es (i + t) 0 &&& ~~~ 0x40).toNat = m - t
  attr : ∀ t < n, entAttr (es (i + t)) = ATTR_EXT
  sum : ∀ t < n, es (i + t) 13 = a

/-- the `m` entries from entry `i` on are the slots of a long name for the entry behind them -/
structure LongRow (es : ℕ → Buf) (i m : ℕ) : Prop where
  pos : 0 < m
  le : m ≤ 20
  row : SlotRow es (fatChecksum (entName (es (i + m)))) i m m

/-- the entry of a file or a directory -/
def Live (de : Buf) : Prop := ¬ IsFree de ∧ entAttr de &&& ATTR_VOLUME = 0

/-- character `p` of the name in the `m` slots from entry `i` on; a slot that says that it is the first one ends the name behind
it -/
def rowChar (es : ℕ → Buf) (i m p : ℕ) : UInt16 :=
  if p = 13 * m then 0
  else if p % 13 = 0 ∧ p / 13 ≠ 0 ∧ es (i + (m - p / 13)) 0 &&& 0x40 ≠ 0 then 0
  else slotChar (es (i + (m - 1 - p / 13))) (p % 13)

/-- what is stored before slot `t` of a row is copied -/
structure CopiedTo (es : ℕ → Buf) (i m t : ℕ) (unicode : ℕ → UInt16) : Prop where
  behind : ∀ p, 13 * (m - t) < p → p ≤ 13 * m → unicode p = rowChar es i m p
  /-- the slot may still end the name here -/
  next : 0 < t → unicode (13 * (m - t)) = slotChar (es (i + (t - 1))) 0

/-- the entries of a directory are handed out one after the other, from any of the states `At`; behind the last one the reader
is `Over` -/
structure EntryReader.Reads (rd : EntryReader σ) (At : ℕ → σ → Prop) (Over : σ → Prop) (es : ℕ → Buf) (n : ℕ) : Prop where
  next : ∀ {i z}, At i z → i < n → ∃ z', rd.getEntry z = (true, z') ∧ At (i + 1) z'
  last : ∀ {i z}, At i z → n ≤ i → ∃ z', rd.getEntry z = (false, z') ∧ Over z'
  ent : ∀ {i z}, At (i + 1) z → rd.ent z = es i

variable {rd : EntryReader σ} {At : ℕ → σ → Prop} {Over : σ → Prop} {es : ℕ → Buf} {n i m t lo : ℕ} {z : σ} {unicode : ℕ → UInt16} {a : UInt8}

theorem CopiedTo.zero (es : ℕ → Buf) (i m : ℕ) (unicode : ℕ → UInt16) : CopiedTo es i m 0 unicode where
  behind := fun _ h1 h2 => absurd h2 (not_le.2 h1)
  next := fun h => absurd h (lt_irrefl 0)

/-- **One slot is copied.** -/
theorem CopiedTo.slot (h : CopiedTo es i m t unicode) (ht : t < m) (hfirst : es i 0 &&& 0x40 ≠ 0) :
    CopiedTo es i m (t + 1) (copySlot unicode (es (i + t)) ((m - t - 1) * 13)) where
  behind := by
    intro p h1 h2
    rcases lt_trichotomy p (13 * (m - t)) with hlt | heq | hgt
    · -- a character of the slot, but not the first one
      obtain ⟨x, hx, rfl⟩ : ∃ x, x < 13 ∧ p = (m - t - 1) * 13 + x := ⟨p - (m - t - 1) * 13, by omega, by omega⟩
      have hdiv : ((m - t - 1) * 13 + x) / 13 = m - t - 1 := by omega
      have hmod : ((m - t - 1) * 13 + x) % 13 = x := by omega
      rw [copySlot_of_mem _ _ hx, rowChar, if_neg (by omega), hdiv, hmod, if_neg (by omega), show m - 1 - (m - t - 1) = t by omega]
    · have hp : p = (m - t - 1) * 13 + 13 := by omega
      rw [hp, copySlot_behind, ← hp, heq]
      rcases Nat.eq_zero_or_pos t with rfl | hpos
      · rw [Nat.add_zero, if_pos hfirst, rowChar, if_pos (by omega)]
      · have hdiv : 13 * (m - t) / 13 = m - t := by omega
        have hmod : 13 * (m - t) % 13 = 0 := by omega
        have hrow : rowChar es i m (13 * (m - t)) =
            if es (i + t) 0 &&& 0x40 ≠ 0 then 0 else slotChar (es (i + (t - 1))) 0 := by
          rw [rowChar, if_neg (by omega), hdiv, hmod, show m - (m - t) = t by omega, show m - 1 - (m - t) = t - 1 by omega]
          simp only [true_and, show m - t ≠ 0 by omega, ne_eq, not_false_eq_true]
        rw [h.next hpos, hrow]
    · rw [copySlot_of_not_mem _ _ (by omega), h.behind p hgt h2]
  next := by
    intro _
    have hx := @copySlot_of_mem unicode (es (i + t)) ((m - t - 1) * 13) 0 (by omega)
    rw [Nat.add_zero] at hx
    rw [show 13 * (m - (t + 1)) = (m - t - 1) * 13 by omega, hx, Nat.add_sub_cancel]

/-- all the slots are copied -/
theorem CopiedTo.all (h : CopiedTo es i m m unicode) (hm : 0 < m) : ∀ p ≤ 13 * m, unicode p = rowChar es i m p := by
  intro p hp
  rcases Nat.eq_zero_or_pos p with rfl | hpos
  · have h0 := h.next hm
    rw [Nat.sub_self, Nat.mul_zero] at h0
    rw [h0, rowChar, if_neg (by omega), if_neg (by simp)]
    simp only [Nat.zero_div, Nat.zero_mod, Nat.sub_zero]
  · exact h.behind p (by omega) hp

/-! ## Whatever a directory holds -/

/-- what `fat_parse_long` may leave from entry `lo` on -/
inductive Parsed (At : ℕ → σ → Prop) (Over : σ → Prop) (es : ℕ → Buf) (n lo : ℕ) : ParseLong σ → Prop
  /-- a long name, with the cursor behind the entry that it is for -/
  | long {i m : ℕ} {z : σ} {unicode : ℕ → UInt16} (from_ : lo ≤ i) (lt : i + m < n) (at_ : At (i + m + 1) z)
      (live : Live (es (i + m))) (row : LongRow es i m) (chars : ∀ p ≤ 13 * m, unicode p = rowChar es i m p) :
      Parsed At Over es n lo ⟨.ok, z, some unicode, m⟩
  /-- an entry whose checksum is not that of the slots before it -/
  | short {j : ℕ} {z : σ} {unicode : ℕ → UInt16} (from_ : lo < j) (lt : j < n) (at_ : At (j + 1) z) (live : Live (es j)) :
      Parsed At Over es n lo ⟨.ok, z, some unicode, 0⟩
  | invalid {j nr : ℕ} {z : σ} {unicode : ℕ → UInt16} (from_ : lo ≤ j) (lt : j < n) (at_ : At (j + 1) z) :
      Parsed At Over es n lo ⟨.invalid, z, some unicode, nr⟩
  | notLongname {j nr : ℕ} {z : σ} {unicode : ℕ → UInt16} (from_ : lo < j) (lt : j < n) (at_ : At (j + 1) z)
      (attr : entAttr (es j) ≠ ATTR_EXT) : Parsed At Over es n lo ⟨.notLongname, z, some unicode, nr⟩
  | eof {nr : ℕ} {z : σ} {unicode : ℕ → UInt16} (done : Over z) : Parsed At Over es n lo ⟨.eof, z, some unicode, nr⟩

theorem Parsed.mono {lo' : ℕ} {r : ParseLong σ} (h : Parsed At Over es n lo' r) (hlo : lo ≤ lo') : Parsed At Over es n lo r := by
  cases h with
  | long from_ lt at_ live row chars => exact .long (hlo.trans from_) lt at_ live row chars
  | short from_ lt at_ live => exact .short (lt_of_le_of_lt hlo from_) lt at_ live
  | invalid from_ lt at_ => exact .invalid (hlo.trans from_) lt at_
  | notLongname from_ lt at_ attr => exact .notLongname (lt_of_le_of_lt hlo from_) lt at_ attr
  | eof done => exact .eof done

theorem SlotRow.one (hfirst : es i 0 &&& 0x40 ≠ 0) (hid : (es i 0 &&& ~~~ 0x40).toNat = m) (hattr : entAttr (es i) = ATTR_EXT) :
    SlotRow es (es i 13) i m 1 := by
  refine ⟨hfirst, fun t ht => ?_, fun t ht => ?_, fun t ht => ?_⟩ <;> obtain rfl := Nat.lt_one_iff.1 ht
  · exact hid
  · exact hattr
  · rfl

theorem SlotRow.snoc (h : SlotRow es a i m t) (hid : (es (i + t) 0 &&& ~~~ 0x40).toNat = m - t)
    (hattr : entAttr (es (i + t)) = ATTR_EXT) (hsum : es (i + t) 13 = a) : SlotRow es a i m (t + 1) := by
  refine ⟨h.first, fun x hx => ?_, fun x hx => ?_, fun x hx => ?_⟩ <;> rcases Nat.lt_succ_iff_lt_or_eq.1 hx with hlt | rfl
  · exact h.id x hlt
  · exact hid
  · exact h.attr x hlt
  · exact hattr
  · exact h.sum x hlt
  · exact hsum

/-- the label `parse_long` -/
theorem parseStart_parsed (hrd : rd.Reads At Over es n) {loop : σ → (ℕ → UInt16) → ℕ → UInt8 → ℕ → ParseLong σ} (hat : At (i + 1) z)
    (hi : i < n) (hattr : entAttr (es i) = ATTR_EXT) (unicode : ℕ → UInt16) (nr : ℕ)
    (hloop : ∀ m, 0 < m → m ≤ 20 → SlotRow es (es i 13) i m 1 → Parsed At Over es n i (loop z unicode m (es i 13) m)) :
    Parsed At Over es n i (parseStart rd loop z unicode nr) := by
  unfold parseStart
  rw [hrd.ent hat]
  simp only
  by_cases hfirst : es i 0 &&& 0x40 = 0
  · rw [if_pos hfirst]
    exact .invalid le_rfl hi hat
  rw [if_neg hfirst]
  by_cases hslots : 20 < (es i 0 &&& ~~~ 0x40).toNat ∨ (es i 0 &&& ~~~ 0x40).toNat = 0
  · rw [if_pos hslots]
    exact .invalid le_rfl hi hat
  · rw [if_neg hslots]
    rw [not_or, not_lt] at hslots
    exact hloop _ (Nat.pos_of_ne_zero hslots.2) hslots.1 (SlotRow.one hfirst rfl hattr)

/-- **The loop**, at slot `t` of a row. -/
theorem parseLoop_parsed (hrd : rd.Reads At Over es n) (fuel : ℕ) : ∀ {z : σ} {i m t : ℕ} {unicode : ℕ → UInt16} {a : UInt8},
    At (i + t + 1) z → i + t < n → t < m → m ≤ 20 → SlotRow es a i m (t + 1) → CopiedTo es i m t unicode →
    n < i + t + 1 + fuel → Parsed At Over es n i (parseLoop rd fuel z unicode m a (m - t)) := by
  induction fuel with
  | zero =>
    intro z i m t unicode a _ hi _ _ _ _ hfuel
    omega
  | succ fuel ih =>
    intro z i m t unicode a hat hi ht hm hrow hcopy hfuel
    have hcopy' := hcopy.slot ht hrow.first
    rw [parseLoop, hrd.ent hat]
    generalize hu : copySlot unicode (es (i + t)) ((m - t - 1) * 13) = u' at hcopy' ⊢
    rcases Nat.lt_or_ge (i + t + 1) n with hlt | hge
    swap
    · obtain ⟨z', hget, hover⟩ := hrd.last hat hge
      rw [hget]
      exact .eof hover
    obtain ⟨z', hget, hat'⟩ := hrd.next hat hlt
    -- a row begins again at the entry that is read
    have hrestart : ∀ nr, entAttr (es (i + t + 1)) = ATTR_EXT →
        Parsed At Over es n i (parseStart rd (parseLoop rd fuel) z' u' nr) := by
      intro nr hattr
      refine (parseStart_parsed hrd hat' hlt hattr u' nr fun k hk h20 hone => ?_).mono (by omega)
      have h := ih (t := 0) (a := es (i + t + 1) 13) hat' hlt hk h20 hone (CopiedTo.zero es _ k u') (by omega)
      rwa [Nat.sub_zero] at h
    rw [hget]
    simp only
    rw [hrd.ent hat']
    by_cases hslot : m - t - 1 ≠ 0
    · rw [if_pos hslot]
      by_cases hattr : entAttr (es (i + t + 1)) ≠ ATTR_EXT
      · rw [if_pos hattr]
        exact .notLongname (by omega) hlt hat' hattr
      rw [if_neg hattr]
      rw [not_not] at hattr
      by_cases hid : (es (i + t + 1) 0 &&& ~~~ 0x40).toNat ≠ m - t - 1
      · rw [if_pos hid]
        exact hrestart m hattr
      rw [if_neg hid]
      rw [not_not] at hid
      by_cases hsum : es (i + t + 1) 13 ≠ a
      · rw [if_pos hsum]
        exact hrestart m hattr
      rw [if_neg hsum]
      rw [not_not] at hsum
      exact ih (t := t + 1) hat' hlt (by omega) hm (hrow.snoc hid hattr hsum) hcopy' (by omega)
    · -- the short entry
      rw [if_neg hslot]
      obtain rfl : m = t + 1 := by omega
      by_cases hdel : es (i + t + 1) 0 = DELETED_FLAG
      · rw [if_pos hdel]
        exact .invalid (by omega) hlt hat'
      rw [if_neg hdel]
      by_cases hattr : entAttr (es (i + t + 1)) = ATTR_EXT
      · rw [if_pos hattr]
        exact hrestart _ hattr
      rw [if_neg hattr]
      by_cases hfree : IsFree (es (i + t + 1)) ∨ entAttr (es (i + t + 1)) &&& ATTR_VOLUME ≠ 0
      · rw [if_pos hfree]
        exact .invalid (by omega) hlt hat'
      rw [if_neg hfree]
      rw [not_or, not_not] at hfree
      by_cases hsum : fatChecksum (entName (es (i + t + 1))) ≠ a
      · rw [if_pos hsum]
        exact .short (by omega) hlt hat' hfree
      · rw [if_neg hsum]
        rw [not_not] at hsum
        have hall := hcopy'.all (Nat.succ_pos t)
        refine .long (i := i) le_rfl hlt hat' hfree ⟨Nat.succ_pos t, hm, ?_⟩ hall
        rw [← Nat.add_assoc, hsum]
        exact hrow

/-! ## A row of slots -/

/-- the loop, at slot `t` of a row with its short entry -/
theorem parseLoop_row (hrd : rd.Reads At Over es n) (hrow : LongRow es i m) (hlt : i + m < n) (hlive : Live (es (i + m))) (fuel : ℕ) :
    ∀ {z : σ} {t : ℕ} {unicode : ℕ → UInt16}, At (i + t + 1) z → t < m → CopiedTo es i m t unicode → m ≤ t + fuel →
    ∃ z' u, parseLoop rd fuel z unicode m (fatChecksum (entName (es (i + m)))) (m - t) = ⟨.ok, z', some u, m⟩ ∧
      At (i + m + 1) z' ∧ ∀ p ≤ 13 * m, u p = rowChar es i m p := by
  induction fuel with
  | zero =>
    intro z t unicode _ ht _ hfuel
    omega
  | succ fuel ih =>
    intro z t unicode hat ht hcopy hfuel
    have hcopy' := hcopy.slot ht hrow.row.first
    obtain ⟨z', hget, hat'⟩ := hrd.next hat (show i + t + 1 < n by omega)
    rw [parseLoop, hrd.ent hat, hget]
    simp only
    rw [hrd.ent hat']
    by_cases hslot : m - t - 1 ≠ 0
    · have ht' : t + 1 < m := by omega
      have hattr := hrow.row.attr (t + 1) ht'
      have hid := hrow.row.id (t + 1) ht'
      have hsum := hrow.row.sum (t + 1) ht'
      rw [← Nat.add_assoc] at hattr hid hsum
      rw [← Nat.sub_sub] at hid
      rw [if_pos hslot, if_neg (not_not.2 hattr), if_neg (not_not.2 hid), if_neg (not_not.2 hsum)]
      exact ih (t := t + 1) hat' ht' hcopy' (by omega)
    · obtain rfl : m = t + 1 := by omega
      rw [← Nat.add_assoc] at hlive
      have hdel : es (i + t + 1) 0 ≠ DELETED_FLAG := fun h => hlive.1 (Or.inr h)
      have hattr : entAttr (es (i + t + 1)) ≠ ATTR_EXT := by
        intro h
        have hvol := hlive.2
        rw [h] at hvol
        exact absurd hvol (by decide)
      rw [if_neg hslot, if_neg hdel, if_neg hattr, if_neg (not_or.2 ⟨hlive.1, not_not.2 hlive.2⟩), ← Nat.add_assoc,
        if_neg (by simp)]
      exact ⟨z', _, rfl, hat', hcopy'.all (Nat.succ_pos t)⟩

/-- **A row of slots is accepted** from its first slot on. -/
theorem fatParseLong_row (hrd : rd.Reads At Over es n) (hrow : LongRow es i m) (hlt : i + m < n) (hlive : Live (es (i + m)))
    (hat : At (i + 1) z) (fresh : ℕ → UInt16) (unicode : Option (ℕ → UInt16)) (nr : ℕ) :
    ∃ z' u, fatParseLong rd n (some fresh) z unicode nr = ⟨.ok, z', some u, m⟩ ∧ At (i + m + 1) z' ∧
      ∀ p ≤ 13 * m, u p = rowChar es i m p := by
  obtain ⟨u, hu⟩ : ∃ u, unicode.or (some fresh) = some u := by
    cases unicode with
    | none => exact ⟨fresh, rfl⟩
    | some u => exact ⟨u, rfl⟩
  have hid := hrow.row.id 0 hrow.pos
  have hsum := hrow.row.sum 0 hrow.pos
  rw [Nat.add_zero, Nat.sub_zero] at hid
  rw [Nat.add_zero] at hsum
  have hm := hrow.le
  unfold fatParseLong
  rw [hu]
  simp only
  unfold parseStart
  rw [hrd.ent hat]
  simp only
  rw [if_neg hrow.row.first, hid, if_neg (not_or.2 ⟨not_lt.2 hm, hrow.pos.ne'⟩), hsum]
  have h := parseLoop_row hrd hrow hlt hlive n (t := 0) hat hrow.pos (CopiedTo.zero es i m u) (by omega)
  rwa [Nat.sub_zero] at h

end

/-- **Nothing but a row of slots is accepted as a long name**, whatever the directory holds. -/
theorem fatParseLong_sound {σ : Type*} {rd : EntryReader σ} {At : ℕ → σ → Prop} {Over : σ → Prop} {es : ℕ → Buf} {n i : ℕ} {z : σ}
    (hrd : rd.Reads At Over es n) (hat : At (i + 1) z) (hi : i < n) (hattr : entAttr (es i) = ATTR_EXT) (fresh : ℕ → UInt16)
    (unicode : Option (ℕ → UInt16)) (nr : ℕ) : Parsed At Over es n i (fatParseLong rd n (some fresh) z unicode nr) := by
  obtain ⟨u, hu⟩ : ∃ u, unicode.or (some fresh) = some u := by
    cases unicode with
    | none => exact ⟨fresh, rfl⟩
    | some u => exact ⟨u, rfl⟩
  unfold fatParseLong
  rw [hu]
  apply parseStart_parsed hrd hat hi hattr
  intro m hm h20 hrow
  have h := parseLoop_parsed hrd n (t := 0) hat hi hm h20 hrow (CopiedTo.zero es i m u) (by omega)
  rwa [Nat.sub_zero] at h

end AtsLdd.Vfat
