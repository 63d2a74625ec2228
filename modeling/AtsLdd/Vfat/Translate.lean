/-
The names of a user and the characters of a long name: `uni16_to_x8` (dir.c) and `xlate_to_uni` (namei_vfat.c).

- `xlateLoop_uni16ToX8`: what is listed for some characters is read as these characters again; a character that the charset does
  not have is listed as its number behind a colon;
- `uni16ToX8_xlateLoop`: a name in which no colon is to be read as such a number is listed again as it was given.
-/
import AtsLdd.Fat.Mount
import AtsLdd.Fat.Name

namespace AtsLdd.Vfat

open AtsLdd.Fat

def ENAMETOOLONG : ℕ := 36
def NLS_MAX_CHARSET_SIZE : ℕ := 6
def MSDOS_SLOTS : ℕ := 21
def FAT_MAX_UNI_CHARS : ℕ := (MSDOS_SLOTS - 1) * 13 + 1

/-! ## The code -/

/-- `struct nls_table` -/
structure Nls where
  /-- the length of the character at the start of some bytes, and the character; `none` is a negative error -/
  char2uni : List UInt8 → Option (ℕ × UInt16)
  /-- the bytes of a character; none where there is an error -/
  uni2char : UInt16 → List UInt8
  charset2lower : UInt8 → UInt8
  charset2upper : UInt8 → UInt8

/-- a hexadecimal digit as `uni16_to_x8` writes it -/
def hexDigit (ec : UInt16) : UInt8 :=
  let nc := (ec &&& 0xf).toUInt8
  if nc > 9 then nc + (ch 'a' - 10) else nc + ch '0'

/-- the number of a character, behind a colon -/
def hexEscape (ec : UInt16) : List UInt8 :=
  [ch ':', hexDigit (ec >>> 12), hexDigit (ec >>> 8), hexDigit (ec >>> 4), hexDigit ec]

/-- `uni16_to_x8`, for the characters that `uni` points to and a buffer of `len` bytes -/
def uni16ToX8 (nls : Nls) (uniXlate : Bool) : ℤ → List UInt16 → List UInt8
  | _, [] => []
  | len, ec :: uni =>
    if ec = 0 ∨ len - NLS_MAX_CHARSET_SIZE ≤ 0 then []
    else if nls.uni2char ec ≠ [] then nls.uni2char ec ++ uni16ToX8 nls uniXlate (len - (nls.uni2char ec).length) uni
    else if uniXlate then hexEscape ec ++ uni16ToX8 nls uniXlate (len - 5) uni
    else ch '?' :: uni16ToX8 nls uniXlate (len - 1) uni

/-- a hexadecimal digit as `xlate_to_uni` reads it -/
def readHex (nc : UInt8) : Option UInt16 :=
  if ch '0' ≤ nc ∧ nc ≤ ch '9' then some (nc - ch '0').toUInt16
  else if ch 'a' ≤ nc ∧ nc ≤ ch 'f' then some (nc - (ch 'a' - 10)).toUInt16
  else if ch 'A' ≤ nc ∧ nc ≤ ch 'F' then some (nc - (ch 'A' - 10)).toUInt16
  else none

/-- the number of the digits behind a colon -/
def readEscape : UInt16 → List UInt8 → Option UInt16
  | ec, [] => some ec
  | ec, nc :: ip => (readHex nc).bind fun d => readEscape (ec <<< 4 ||| d) ip

/-- the loop of `xlate_to_uni` with a table, while `*outlen` may grow by `room` -/
def xlateLoop (nls : Nls) (escape : Bool) : ℕ → List UInt8 → Except ℤ (List UInt16)
  | _, [] => .ok []
  | 0, _ :: _ => .error (- ENAMETOOLONG)
  | room + 1, c :: ip =>
    if escape ∧ c = ch ':' then
      if ip.length < 4 then .error (- EINVAL)
      else
        match readEscape 0 (ip.take 4) with
        | none => .error (- EINVAL)
        | some ec => (xlateLoop nls escape room (ip.drop 4)).map (ec :: ·)
    else
      match nls.char2uni (c :: ip) with
      | none => .error (- EINVAL)
      | some (charlen, w) => (xlateLoop nls escape room ((c :: ip).drop charlen)).map (w :: ·)

/-- the characters, with a zero behind them and filled up, when they do not fill their slots -/
def fillSlots (uni : List UInt16) : List UInt16 :=
  if uni.length % 13 = 0 then uni
  else
    let uni := uni ++ [0]
    if uni.length % 13 = 0 then uni else uni ++ List.replicate (13 - uni.length % 13) 0xffff

/-- what the functions for names read of a volume mounted as vfat, which has both its tables, and the functions of the kernel for
UTF-8 -/
structure VfatSb where
  nlsIo : Nls
  nlsDisk : Nls
  utf8 : Bool
  unicodeXlate : Bool
  numtail : Bool
  /-- the flags for the case of short names -/
  shortname : ℕ
  /-- relaxed, normal or strict: `r`, `n` or `s` -/
  nameCheck : UInt8
  utf8sToUtf16s : List UInt8 → Except ℤ (List UInt16)
  /-- the bytes of the characters up to a zero, in a buffer of some bytes -/
  utf16sToUtf8s : List UInt16 → ℤ → List UInt8

/-- `xlate_to_uni`: the characters, filled up, and `*longlen` -/
def xlateToUni (sbi : VfatSb) (name : List UInt8) : Except ℤ (List UInt16 × ℕ) :=
  let uni :=
    if sbi.utf8 then
      match sbi.utf8sToUtf16s name with
      | .error err => .error err
      | .ok uni => if 255 < uni.length then .error (- ENAMETOOLONG) else .ok uni
    else xlateLoop sbi.nlsIo sbi.unicodeXlate 256 name
  uni.map fun uni => (fillSlots uni, uni.length)

/-- `fat_uni_to_x8` -/
def fatUniToX8 (sbi : VfatSb) (uni : List UInt16) (size : ℤ) : List UInt8 :=
  if sbi.utf8 then sbi.utf16sToUtf8s ((uni.take FAT_MAX_UNI_CHARS).takeWhile (· ≠ 0)) size
  else uni16ToX8 sbi.nlsIo sbi.unicodeXlate size uni

/-! ## Hexadecimal digits -/

theorem readHex_hexDigit (ec : UInt16) : readHex (hexDigit ec) = some (ec &&& 0xf) := by
  have hlt : (ec &&& 0xf) < 16 := by
    rw [UInt16.lt_iff_toNat_lt, UInt16.toNat_and]
    exact lt_of_le_of_lt Nat.and_le_right (by decide)
  unfold hexDigit
  generalize ec &&& 0xf = d at hlt ⊢
  have hsmall : ∀ n < 16, readHex (if (UInt16.ofNat n).toUInt8 > 9 then (UInt16.ofNat n).toUInt8 + (ch 'a' - 10)
      else (UInt16.ofNat n).toUInt8 + ch '0') = some (UInt16.ofNat n) := by decide
  have h := hsmall d.toNat hlt
  rwa [UInt16.ofNat_toNat] at h

/-- **The number behind a colon is read back.** -/
theorem readEscape_hexEscape (ec : UInt16) : readEscape 0 (hexEscape ec).tail = some ec := by
  unfold hexEscape
  rw [List.tail_cons]
  simp only [readEscape, readHex_hexDigit, Option.bind_some]
  congr 1
  apply UInt16.eq_of_toBitVec_eq
  simp only [UInt16.toBitVec_or, UInt16.toBitVec_shiftLeft, UInt16.toBitVec_and, UInt16.toBitVec_shiftRight, UInt16.toBitVec_ofNat]
  ext i hi
  simp only [BitVec.getElem_or, BitVec.getElem_and]
  interval_cases i <;> simp

/-! ## Listing characters and reading them -/

/-- a character that is read where it has been listed -/
structure Nls.Listed (nls : Nls) (uniXlate : Bool) (w : UInt16) : Prop where
  ne_zero : w ≠ 0
  back : nls.uni2char w ≠ [] → ∀ rest, nls.char2uni (nls.uni2char w ++ rest) = some ((nls.uni2char w).length, w)
  size : (nls.uni2char w).length ≤ NLS_MAX_CHARSET_SIZE
  /-- without numbers, the charset has the character -/
  coded : uniXlate = false → nls.uni2char w ≠ []
  /-- with numbers, it is not a colon -/
  colon : uniXlate = true → (nls.uni2char w).head? ≠ some (ch ':')

/-- a table that writes every character as the bytes that it reads it from -/
structure Nls.Exact (nls : Nls) : Prop where
  pos : ∀ {bs n w}, nls.char2uni bs = some (n, w) → 0 < n ∧ n ≤ NLS_MAX_CHARSET_SIZE
  back : ∀ {bs n w}, nls.char2uni bs = some (n, w) → n ≤ bs.length ∧ nls.uni2char w = bs.take n
  ne_zero : ∀ {bs n w}, nls.char2uni bs = some (n, w) → w ≠ 0

section
variable {nls : Nls} {uniXlate : Bool} {w : UInt16} {u : List UInt16} {name : List UInt8} {len : ℤ} {room : ℕ}

theorem charset_size : (NLS_MAX_CHARSET_SIZE : ℤ) = 6 := rfl

/-- reading a character that has been listed -/
theorem xlateLoop_char (hw : nls.Listed uniXlate w) (hcoded : nls.uni2char w ≠ []) (name : List UInt8) :
    xlateLoop nls uniXlate (room + 1) (nls.uni2char w ++ name) = (xlateLoop nls uniXlate room name).map (w :: ·) := by
  have hback := hw.back hcoded name
  have hcolon := hw.colon
  have hdrop : (nls.uni2char w ++ name).drop (nls.uni2char w).length = name := List.drop_left
  obtain ⟨c, bs, hbs⟩ := List.exists_cons_of_ne_nil hcoded
  rw [hbs] at hback hcolon hdrop ⊢
  rw [List.cons_append] at hback hdrop ⊢
  rw [xlateLoop, if_neg, hback]
  · simp only
    rw [hdrop]
  · rintro ⟨hx, hc⟩
    exact hcolon hx (by rw [hc]; rfl)

/-- reading the number of a character that has been listed -/
theorem xlateLoop_escape (w : UInt16) (name : List UInt8) :
    xlateLoop nls true (room + 1) (hexEscape w ++ name) = (xlateLoop nls true room name).map (w :: ·) := by
  have hread := readEscape_hexEscape w
  have hcons : hexEscape w = ch ':' :: (hexEscape w).tail := rfl
  have hlen : (hexEscape w).tail.length = 4 := rfl
  rw [hcons, List.cons_append, xlateLoop, if_pos ⟨rfl, rfl⟩, if_neg (by rw [List.length_append, hlen]; omega)]
  rw [← hlen, List.take_left, hread, List.drop_left]

/-- **What is listed is read again.** -/
theorem xlateLoop_uni16ToX8 (nls : Nls) (uniXlate : Bool) (u : List UInt16) : ∀ {len : ℤ} {room : ℕ}, u.length ≤ room →
    NLS_MAX_CHARSET_SIZE * (u.length : ℤ) < len → (∀ w ∈ u, nls.Listed uniXlate w) →
    xlateLoop nls uniXlate room (uni16ToX8 nls uniXlate len u) = .ok u := by
  induction u with
  | nil =>
    intro len room _ _ _
    rw [uni16ToX8, xlateLoop]
  | cons w u ih =>
    intro len room hroom hlen hu
    obtain ⟨room, rfl⟩ : ∃ r, room = r + 1 := ⟨room - 1, by rw [List.length_cons] at hroom; omega⟩
    have hw := hu w List.mem_cons_self
    have hrest : ∀ x ∈ u, nls.Listed uniXlate x := fun x hx => hu x (List.mem_cons_of_mem w hx)
    rw [List.length_cons] at hroom hlen
    push_cast at hlen
    have hsize : ((nls.uni2char w).length : ℤ) ≤ NLS_MAX_CHARSET_SIZE := by exact_mod_cast hw.size
    rw [charset_size] at hlen hsize ih
    rw [uni16ToX8, if_neg (not_or.2 ⟨hw.ne_zero, by rw [charset_size]; omega⟩)]
    by_cases hcoded : nls.uni2char w ≠ []
    · rw [if_pos hcoded, xlateLoop_char hw hcoded, ih (by omega) (by omega) hrest]
      rfl
    · -- the charset does not have the character
      cases hx : uniXlate with
      | false => exact absurd (hw.coded hx) hcoded
      | true =>
        rw [hx] at ih hrest
        rw [if_neg hcoded, if_pos rfl, xlateLoop_escape, ih (by omega) (by omega) hrest]
        rfl

/-- **A name is listed as it was given**, when a colon in it is not read as the start of a number. -/
theorem uni16ToX8_xlateLoop (hnls : nls.Exact) (room : ℕ) : ∀ {name : List UInt8} {u : List UInt16} {len : ℤ},
    xlateLoop nls uniXlate room name = .ok u → (uniXlate = true → ch ':' ∉ name) →
    NLS_MAX_CHARSET_SIZE * (u.length : ℤ) < len → uni16ToX8 nls uniXlate len u = name := by
  induction room with
  | zero =>
    intro name u len hx _ _
    cases name with
    | nil =>
      rw [xlateLoop, Except.ok.injEq] at hx
      rw [← hx, uni16ToX8]
    | cons c ip => cases hx
  | succ room ih =>
    intro name u len hx hcolon hlen
    cases name with
    | nil =>
      rw [xlateLoop, Except.ok.injEq] at hx
      rw [← hx, uni16ToX8]
    | cons c ip =>
      rw [xlateLoop, if_neg fun (h : uniXlate = true ∧ c = ch ':') => hcolon h.1 (h.2 ▸ List.mem_cons_self)] at hx
      cases hchar : nls.char2uni (c :: ip) with
      | none =>
        rw [hchar] at hx
        cases hx
      | some r =>
        obtain ⟨n, w⟩ := r
        obtain ⟨hpos, hsize⟩ := hnls.pos hchar
        obtain ⟨hle, hback⟩ := hnls.back hchar
        rw [hchar] at hx
        simp only at hx
        cases hrest : xlateLoop nls uniXlate room ((c :: ip).drop n) with
        | error err =>
          rw [hrest] at hx
          cases hx
        | ok v =>
          rw [hrest] at hx
          obtain rfl : w :: v = u := Except.ok.inj hx
          have hlenw : (nls.uni2char w).length = n := by rw [hback, List.length_take, min_eq_left hle]
          have hne : nls.uni2char w ≠ [] := List.ne_nil_of_length_pos (by rw [hlenw]; exact hpos)
          have hsize' : (n : ℤ) ≤ NLS_MAX_CHARSET_SIZE := by exact_mod_cast hsize
          rw [List.length_cons] at hlen
          push_cast at hlen
          rw [charset_size] at hlen hsize' ih
          rw [uni16ToX8, if_neg (not_or.2 ⟨hnls.ne_zero hchar, by rw [charset_size]; omega⟩), if_pos hne,
            ih hrest (fun h hm => hcolon h (List.mem_of_mem_drop hm)) (by rw [hlenw]; omega), hback, List.take_append_drop]

/-- what is behind a zero is not listed -/
theorem uni16ToX8_zero (nls : Nls) (uniXlate : Bool) (junk : List UInt16) (u : List UInt16) : ∀ len : ℤ,
    uni16ToX8 nls uniXlate len (u ++ 0 :: junk) = uni16ToX8 nls uniXlate len u := by
  induction u with
  | nil =>
    intro len
    rw [List.nil_append, uni16ToX8, uni16ToX8, if_pos (Or.inl rfl)]
  | cons w u ih =>
    intro len
    rw [List.cons_append, uni16ToX8, uni16ToX8, ih, ih, ih]

/-- what is behind a zero does not count -/
theorem fatUniToX8_zero (sbi : VfatSb) (hlen : u.length < FAT_MAX_UNI_CHARS) (junk junk' : List UInt16) (size : ℤ) :
    fatUniToX8 sbi (u ++ 0 :: junk) size = fatUniToX8 sbi (u ++ 0 :: junk') size := by
  have hstop : ∀ fill, ((u ++ 0 :: fill).take FAT_MAX_UNI_CHARS).takeWhile (· ≠ 0) = u.takeWhile (· ≠ 0) := by
    intro fill
    obtain ⟨k, hk⟩ : ∃ k, FAT_MAX_UNI_CHARS - u.length = k + 1 := ⟨FAT_MAX_UNI_CHARS - u.length - 1, by omega⟩
    rw [List.take_append, List.take_of_length_le hlen.le, hk, List.take_succ_cons]
    clear hlen hk
    induction u with
    | nil => rfl
    | cons w u ih =>
      rw [List.cons_append, List.takeWhile_cons, List.takeWhile_cons, ih]
  unfold fatUniToX8
  rw [hstop, hstop, uni16ToX8_zero, uni16ToX8_zero]

/-! ## Filled slots -/

/-- the slots of a name are filled -/
theorem fillSlots_length (u : List UInt16) : (fillSlots u).length % 13 = 0 ∧ u.length ≤ (fillSlots u).length ∧
    (fillSlots u).length < u.length + 13 := by
  unfold fillSlots
  simp only
  split_ifs with h1 h2
  · omega
  · simp only [List.length_append, List.length_singleton] at h2 ⊢
    omega
  · simp only [List.length_append, List.length_singleton, List.length_replicate] at h2 ⊢
    omega

end

/-- **Any name can be dumped and restored**: what is listed for the characters of a long name is read as these characters. -/
theorem xlateToUni_fatUniToX8 {sbi : VfatSb} (hutf8 : sbi.utf8 = false) {u junk : List UInt16} (h256 : u.length ≤ 256)
    (hu : ∀ w ∈ u, sbi.nlsIo.Listed sbi.unicodeXlate w) {size : ℤ}
    (hsize : NLS_MAX_CHARSET_SIZE * (u.length : ℤ) < size) :
    xlateToUni sbi (fatUniToX8 sbi (u ++ 0 :: junk) size) = .ok (fillSlots u, u.length) := by
  unfold xlateToUni fatUniToX8
  simp only [hutf8, Bool.false_eq_true, if_false]
  rw [uni16ToX8_zero, xlateLoop_uni16ToX8 sbi.nlsIo sbi.unicodeXlate u h256 hsize hu]
  rfl

/-- the table of the ASCII characters -/
def asciiNls : Nls where
  char2uni
    | [] => none
    | c :: _ => if c = 0 ∨ 0x80 ≤ c then none else some (1, c.toUInt16)
  uni2char w := if w = 0 ∨ 0x80 ≤ w then [] else [w.toUInt8]
  charset2lower c := if ch 'A' ≤ c ∧ c ≤ ch 'Z' then c + 32 else c
  charset2upper c := if ch 'a' ≤ c ∧ c ≤ ch 'z' then c - 32 else c

/-- a volume whose characters are those of ASCII, and the others are given by their numbers -/
def asciiSb : VfatSb where
  nlsIo := asciiNls
  nlsDisk := asciiNls
  utf8 := false
  unicodeXlate := true
  numtail := true
  shortname := 0x202
  nameCheck := ch 'n'
  utf8sToUtf16s _ := .error (- EINVAL)
  utf16sToUtf8s _ _ := []

/-- `aé` is listed as `a:00e9` -/
theorem xlateToUni_fatUniToX8_ascii : fatUniToX8 asciiSb [0x61, 0xe9, 0] 3574 = "a:00e9".toList.map ch ∧
    xlateToUni asciiSb (fatUniToX8 asciiSb ([0x61, 0xe9] ++ 0 :: []) 3574) = .ok (fillSlots [0x61, 0xe9], 2) := by
  refine ⟨by decide, xlateToUni_fatUniToX8 rfl (by decide) (fun w hw => ?_) (by decide)⟩
  rcases List.mem_cons.1 hw with rfl | hw
  · exact ⟨by decide, fun _ rest => rfl, by decide, by decide, by decide⟩
  · rw [List.mem_singleton.1 hw]
    exact ⟨by decide, fun h => absurd rfl h, by decide, by decide, by decide⟩

end AtsLdd.Vfat
