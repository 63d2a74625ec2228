/-
Looking a name up in a directory with long names: `fat_search_long` (dir.c), over any function that hands out the entries.

- `fatSearchLong_sound`: whatever a directory holds, what is found is an entry of a file, with a row of slots before it when
  there is more than one slot, and the name is its short name or that of the row.
-/
import AtsLdd.Fat.Readdir
import AtsLdd.Vfat.ParseLong

namespace AtsLdd.Vfat

open AtsLdd.Fat

/-- `FAT_MAX_SHORT_SIZE` -/
def FAT_MAX_SHORT_SIZE : ℤ := (MSDOS_NAME + 1) * NLS_MAX_CHARSET_SIZE + 1

/-- `PATH_MAX - FAT_MAX_UNI_SIZE`, with two bytes a character -/
def FAT_MAX_LONG_SIZE : ℤ := 4096 - FAT_MAX_UNI_CHARS * 2

/-! ## The code -/

/-- `fat_short2uni`: the length and the character -/
def fatShort2uni (nls : Nls) (c : List UInt8) : ℕ × UInt16 := (nls.char2uni c).getD (1, 0x3f)

/-- `fat_short2lower_uni` -/
def fatShort2lowerUni (nls : Nls) (c : List UInt8) : ℕ × UInt16 :=
  match nls.char2uni c with
  | none => (1, 0x3f)
  | some (charlen, wc) =>
    if charlen ≤ 1 then
      let nc := nls.charset2lower (c.headD 0)
      let nc := if nc = 0 then c.headD 0 else nc
      (nls.char2uni [nc]).getD (1, 0x3f)
    else (charlen, wc)

/-- `fat_shortname2uni` -/
def fatShortname2uni (nls : Nls) (buf : List UInt8) (opt : ℕ) (lower : Bool) : ℕ × UInt16 :=
  if opt &&& VFAT_SFN_DISPLAY_LOWER ≠ 0 then fatShort2lowerUni nls buf
  else if opt &&& VFAT_SFN_DISPLAY_WIN95 ≠ 0 then fatShort2uni nls buf
  else if opt &&& VFAT_SFN_DISPLAY_WINNT ≠ 0 then if lower then fatShort2lowerUni nls buf else fatShort2uni nls buf
  else fatShort2uni nls buf

/-- a loop of `fat_search_long` over the bytes of a base or an extension: the characters behind `uni`, and the number of them
without the spaces at the end; a character has one byte at least, so the fuel is the number of bytes -/
def shortLoop (nls : Nls) (opt : ℕ) (lower : Bool) : ℕ → List UInt8 → List UInt16 → ℕ → List UInt16 × ℕ
  | 0, _, uni, last => (uni, last)
  | _ + 1, [], uni, last => (uni, last)
  | fuel + 1, c :: work, uni, last =>
    if c = 0 then (uni, last)
    else
      let (chl, w) := fatShortname2uni nls (c :: work) opt lower
      let last := if chl ≤ 1 then if c ≠ ch ' ' then uni.length + 1 else last else uni.length + 1
      shortLoop nls opt lower fuel ((c :: work).drop chl) (uni ++ [w]) last

/-- the characters of the short name of an entry; there may be none -/
def shortUni (sbi : VfatSb) (de : Buf) : List UInt16 :=
  let work := if de 0 = 0x05 then 0xe5 :: (entName de).tail else entName de
  let (uni, last) := shortLoop sbi.nlsDisk sbi.shortname (decide (entLcase de &&& CASE_LOWER_BASE ≠ 0)) 8 (work.take 8) [] 0
  let uni := uni.take last ++ [(fatShort2uni sbi.nlsDisk [ch '.']).2]
  let (uni, last) := shortLoop sbi.nlsDisk sbi.shortname (decide (entLcase de &&& CASE_LOWER_EXT ≠ 0)) 3 (work.drop 8) uni last
  uni.take last

/-- `nls_tolower` -/
def nlsTolower (t : Nls) (c : UInt8) : UInt8 := if t.charset2lower c = 0 then c else t.charset2lower c

/-- `fat_name_match` -/
def fatNameMatch (sbi : VfatSb) (a b : List UInt8) : Bool :=
  if a.length ≠ b.length then false
  else if sbi.nameCheck ≠ ch 's' then decide (a.map (nlsTolower sbi.nlsIo) = b.map (nlsTolower sbi.nlsIo))
  else decide (a = b)

/-- the first characters of a buffer -/
def uniChars (unicode : ℕ → UInt16) : List UInt16 := (List.range FAT_MAX_UNI_CHARS).map unicode

/-- the short name of an entry, as it is compared -/
def shortName (sbi : VfatSb) (de : Buf) : List UInt8 := fatUniToX8 sbi (shortUni sbi de) FAT_MAX_SHORT_SIZE

/-- the long name in a buffer, as it is compared -/
def longName (sbi : VfatSb) (unicode : ℕ → UInt16) : List UInt8 := fatUniToX8 sbi (uniChars unicode) FAT_MAX_LONG_SIZE

/-- how a search for the next entry of a file ends -/
inductive RecordEnd (σ : Type*)
  | eof (z : σ)
  | nomem (z : σ)
  /-- the entry the reader is at, with so many slots before it, and the buffer -/
  | record (z : σ) (unicode : Option (ℕ → UInt16)) (nrSlots : ℕ)

/-- what `fat_search_long` leaves: 0 or a negative error, the reader, and the number of slots that are found -/
structure SearchLong (σ : Type*) where
  err : ℤ
  z : σ
  nrSlots : ℕ

section
variable {σ : Type*}

/-- the part of the loop before the names are compared, from `parse_record` on or before it; `entries` bounds the entries that are
read, and the fuel the rounds -/
def nextRecord (rd : EntryReader σ) (entries : ℕ) (fresh : Option (ℕ → UInt16)) :
    ℕ → Bool → σ → Option (ℕ → UInt16) → RecordEnd σ
  | 0, _, z, _ => .eof z
  | fuel + 1, get, z, unicode =>
    match if get then rd.getEntry z else (true, z) with
    | (false, z) => .eof z
    | (true, z) =>
      -- `parse_record`
      let de := rd.ent z
      if de 0 = DELETED_FLAG then nextRecord rd entries fresh fuel true z unicode
      else if entAttr de ≠ ATTR_EXT ∧ entAttr de &&& ATTR_VOLUME ≠ 0 then nextRecord rd entries fresh fuel true z unicode
      else if entAttr de ≠ ATTR_EXT ∧ IsFree de then nextRecord rd entries fresh fuel true z unicode
      else if entAttr de = ATTR_EXT then
        let r := fatParseLong rd entries fresh z unicode 0
        match r.status with
        | .nomem => .nomem r.z
        | .invalid => nextRecord rd entries fresh fuel true r.z r.unicode
        | .notLongname => nextRecord rd entries fresh fuel false r.z r.unicode
        | .eof => .eof r.z
        | .ok => .record r.z r.unicode r.nrSlots
      else .record z unicode 0

/-- the loop of `fat_search_long`, over `fuel` entries of files at most -/
def searchLongLoop (rd : EntryReader σ) (sbi : VfatSb) (entries : ℕ) (fresh : Option (ℕ → UInt16)) (name : List UInt8) :
    ℕ → σ → Option (ℕ → UInt16) → SearchLong σ
  | 0, z, _ => ⟨- ENOENT, z, 0⟩
  | fuel + 1, z, unicode =>
    match nextRecord rd entries fresh (2 * entries + 2) true z unicode with
    | .eof z => ⟨- ENOENT, z, 0⟩
    | .nomem z => ⟨- ENOMEM, z, 0⟩
    | .record z unicode nrSlots =>
      if shortUni sbi (rd.ent z) = [] then searchLongLoop rd sbi entries fresh name fuel z unicode
      else if fatNameMatch sbi name (shortName sbi (rd.ent z)) then ⟨0, z, nrSlots + 1⟩
      else if nrSlots ≠ 0 ∧ fatNameMatch sbi name (longName sbi (unicode.getD fun _ => 0)) then ⟨0, z, nrSlots + 1⟩
      else searchLongLoop rd sbi entries fresh name fuel z unicode

/-- `fat_search_long`; `fresh` is the buffer that `__getname` finds -/
def fatSearchLong (rd : EntryReader σ) (sbi : VfatSb) (entries : ℕ) (fresh : Option (ℕ → UInt16)) (name : List UInt8) (z : σ) :
    SearchLong σ :=
  searchLongLoop rd sbi entries fresh name (entries + 1) z none

/-! ## Whatever a directory holds -/

/-- entry `i + m` is that of a file, and the entries before it from entry `i` on are the slots of a long name for it -/
structure FileAt (es : ℕ → Buf) (n i m : ℕ) : Prop where
  lt : i + m < n
  live : Live (es (i + m))
  row : m ≠ 0 → LongRow es i m

/-- how a search for the next entry of a file ends from entry `lo` on -/
inductive Recorded (At : ℕ → σ → Prop) (Over : σ → Prop) (es : ℕ → Buf) (n lo : ℕ) : RecordEnd σ → Prop
  | record {i m : ℕ} {z : σ} {unicode : Option (ℕ → UInt16)} (from_ : lo ≤ i) (at_ : At (i + m + 1) z) (file : FileAt es n i m)
      (chars : m ≠ 0 → ∃ u, unicode = some u ∧ ∀ p ≤ 13 * m, u p = rowChar es i m p) :
      Recorded At Over es n lo (.record z unicode m)
  | eof {z : σ} (done : Over z) : Recorded At Over es n lo (.eof z)

variable {rd : EntryReader σ} {At : ℕ → σ → Prop} {Over : σ → Prop} {es : ℕ → Buf} {n i m lo : ℕ} {z : σ} {sbi : VfatSb} {name : List UInt8}

theorem Recorded.mono {lo' : ℕ} {r : RecordEnd σ} (h : Recorded At Over es n lo' r) (hlo : lo ≤ lo') : Recorded At Over es n lo r := by
  cases h with
  | record from_ at_ file chars => exact .record (hlo.trans from_) at_ file chars
  | eof done => exact .eof done

/-- the next entry is read, and then its record -/
theorem nextRecord_get {z' : σ} (hget : rd.getEntry z = (true, z')) (entries : ℕ) (fresh : Option (ℕ → UInt16)) (fuel : ℕ)
    (unicode : Option (ℕ → UInt16)) :
    nextRecord rd entries fresh (fuel + 1) true z unicode = nextRecord rd entries fresh (fuel + 1) false z' unicode := by
  rw [nextRecord, nextRecord, if_pos rfl, hget, if_neg Bool.false_ne_true]

theorem nextRecord_end {z' : σ} (hget : rd.getEntry z = (false, z')) (entries : ℕ) (fresh : Option (ℕ → UInt16)) (fuel : ℕ)
    (unicode : Option (ℕ → UInt16)) : nextRecord rd entries fresh (fuel + 1) true z unicode = .eof z' := by
  rw [nextRecord, if_pos rfl, hget]

/-- **The label `parse_record`**, at any entry. -/
theorem nextRecord_recorded (hrd : rd.Reads At Over es n) (fresh : ℕ → UInt16) (fuel : ℕ) :
    ∀ {j : ℕ} {z : σ} {unicode : Option (ℕ → UInt16)}, At (j + 1) z → j < n →
      2 * (n - (j + 1)) + (if entAttr (es j) = ATTR_EXT then 3 else 2) ≤ fuel →
      Recorded At Over es n j (nextRecord rd n (some fresh) fuel false z unicode) := by
  induction fuel with
  | zero =>
    intro j z unicode _ _ hfuel
    split_ifs at hfuel <;> omega
  | succ fuel ih =>
    intro j z unicode hat hj hfuel
    have hleft : 2 * (n - (j + 1)) + 1 ≤ fuel := by split_ifs at hfuel <;> omega
    -- `continue`, from any later entry
    have hnext : ∀ {j' : ℕ} {z' : σ} (u : Option (ℕ → UInt16)), At (j' + 1) z' → j ≤ j' →
        Recorded At Over es n j (nextRecord rd n (some fresh) fuel true z' u) := by
      intro j' z' u hat' hle
      obtain ⟨fuel, rfl⟩ : ∃ f, fuel = f + 1 := ⟨fuel - 1, by omega⟩
      rcases Nat.lt_or_ge (j' + 1) n with hlt | hge
      · obtain ⟨z'', hget, hat''⟩ := hrd.next hat' hlt
        rw [nextRecord_get hget]
        refine (ih hat'' hlt ?_).mono (by omega)
        split_ifs <;> omega
      · obtain ⟨z'', hget, hover⟩ := hrd.last hat' hge
        rw [nextRecord_end hget]
        exact .eof hover
    rw [nextRecord, if_neg Bool.false_ne_true]
    simp only
    rw [hrd.ent hat]
    by_cases hdel : es j 0 = DELETED_FLAG
    · rw [if_pos hdel]
      exact hnext unicode hat le_rfl
    rw [if_neg hdel]
    by_cases hvol : entAttr (es j) ≠ ATTR_EXT ∧ entAttr (es j) &&& ATTR_VOLUME ≠ 0
    · rw [if_pos hvol]
      exact hnext unicode hat le_rfl
    rw [if_neg hvol]
    by_cases hfree : entAttr (es j) ≠ ATTR_EXT ∧ IsFree (es j)
    · rw [if_pos hfree]
      exact hnext unicode hat le_rfl
    rw [if_neg hfree]
    by_cases hattr : entAttr (es j) = ATTR_EXT
    · rw [if_pos hattr] at hfuel ⊢
      have hparsed := fatParseLong_sound hrd hat hj hattr fresh unicode 0
      generalize fatParseLong rd n (some fresh) z unicode 0 = r at hparsed
      cases hparsed with
      | long from_ lt at_ live row chars => exact .record from_ at_ ⟨lt, live, fun _ => row⟩ fun _ => ⟨_, rfl, chars⟩
      | short from_ lt at_ live => exact .record from_.le at_ ⟨lt, live, fun h => absurd rfl h⟩ fun h => absurd rfl h
      | invalid from_ lt at_ => exact hnext _ at_ from_
      | notLongname from_ lt at_ attr =>
        refine (ih at_ lt ?_).mono from_.le
        rw [if_neg attr]
        omega
      | eof done => exact .eof done
    · rw [if_neg hattr]
      have hlive : Live (es j) := ⟨fun h => hfree ⟨hattr, h⟩, not_not.1 fun h => hvol ⟨hattr, h⟩⟩
      exact .record (m := 0) le_rfl hat ⟨hj, hlive, fun h => absurd rfl h⟩ fun h => absurd rfl h

/-- the next entry of a file, from a place between two entries -/
theorem nextRecord_from (hrd : rd.Reads At Over es n) (fresh : ℕ → UInt16) (hat : At lo z) (unicode : Option (ℕ → UInt16)) :
    Recorded At Over es n lo (nextRecord rd n (some fresh) (2 * n + 2) true z unicode) := by
  rcases Nat.lt_or_ge lo n with hlt | hge
  · obtain ⟨z', hget, hat'⟩ := hrd.next hat hlt
    rw [nextRecord_get hget]
    apply nextRecord_recorded hrd fresh _ hat' hlt
    split_ifs <;> omega
  · obtain ⟨z', hget, hover⟩ := hrd.last hat hge
    rw [nextRecord_end hget]
    exact .eof hover

/-! ## Looking up -/

/-- the characters of the name in the `m` slots from entry `i` on -/
def rowUni (es : ℕ → Buf) (i m : ℕ) : List UInt16 := (List.range (13 * m + 1)).map (rowChar es i m)

/-- the name is that of the file whose entry is entry `i + m` -/
def NameIs (sbi : VfatSb) (es : ℕ → Buf) (name : List UInt8) (i m : ℕ) : Prop :=
  shortUni sbi (es (i + m)) ≠ [] ∧ (fatNameMatch sbi name (shortName sbi (es (i + m))) = true ∨
    m ≠ 0 ∧ fatNameMatch sbi name (fatUniToX8 sbi (rowUni es i m) FAT_MAX_LONG_SIZE) = true)

/-- the zero behind a row -/
theorem rowUni_eq (es : ℕ → Buf) (i m : ℕ) : rowUni es i m = (List.range (13 * m)).map (rowChar es i m) ++ 0 :: [] := by
  unfold rowUni
  rw [List.range_succ, List.map_append, List.map_singleton, rowChar, if_pos rfl]

/-- a buffer with the characters of a row holds its name -/
theorem longName_row {unicode : ℕ → UInt16} (hm : m ≤ 20) (hu : ∀ p ≤ 13 * m, unicode p = rowChar es i m p) :
    longName sbi unicode = fatUniToX8 sbi (rowUni es i m) FAT_MAX_LONG_SIZE := by
  have hmax : FAT_MAX_UNI_CHARS = 261 := rfl
  have hsplit : uniChars unicode = (List.range (13 * m)).map (rowChar es i m) ++
      0 :: (List.range' (13 * m + 1) (FAT_MAX_UNI_CHARS - (13 * m + 1))).map unicode := by
    have hrange : List.range FAT_MAX_UNI_CHARS = List.range (13 * m) ++
        13 * m :: List.range' (13 * m + 1) (FAT_MAX_UNI_CHARS - (13 * m + 1)) := by
      have happ := List.range'_append_1 (s := 0) (m := 13 * m) (n := FAT_MAX_UNI_CHARS - (13 * m + 1) + 1)
      rw [Nat.zero_add, show 13 * m + (FAT_MAX_UNI_CHARS - (13 * m + 1) + 1) = FAT_MAX_UNI_CHARS by omega] at happ
      rw [List.range_eq_range', List.range_eq_range', ← List.range'_succ, happ]
    unfold uniChars
    rw [hrange, List.map_append, List.map_cons, hu _ le_rfl, rowChar, if_pos rfl]
    congr 1
    apply List.map_congr_left
    intro p hp
    exact hu p (List.mem_range.1 hp).le
  unfold longName
  rw [hsplit, rowUni_eq]
  apply fatUniToX8_zero
  rw [List.length_map, List.length_range]
  omega

/-- **What is found, is there**, from any place of the search on. -/
theorem searchLongLoop_sound (hrd : rd.Reads At Over es n) (fresh : ℕ → UInt16) (fuel : ℕ) :
    ∀ {lo : ℕ} {z : σ} (unicode : Option (ℕ → UInt16)), At lo z →
      (∃ z', searchLongLoop rd sbi n (some fresh) name fuel z unicode = ⟨- ENOENT, z', 0⟩ ∧ (Over z' ∨ ∃ i, At i z')) ∨
      ∃ i m z', lo ≤ i ∧ searchLongLoop rd sbi n (some fresh) name fuel z unicode = ⟨0, z', m + 1⟩ ∧
        At (i + m + 1) z' ∧ FileAt es n i m ∧ NameIs sbi es name i m := by
  induction fuel with
  | zero => exact fun _ hat => Or.inl ⟨_, rfl, Or.inr ⟨_, hat⟩⟩
  | succ fuel ih =>
    intro lo z unicode hat
    have hrec := nextRecord_from hrd fresh hat unicode
    rw [searchLongLoop]
    generalize nextRecord rd n (some fresh) (2 * n + 2) true z unicode = e at hrec
    cases hrec with
    | eof done => exact Or.inl ⟨_, rfl, Or.inl done⟩
    | @record i m z' u from_ at_ file chars =>
      simp only
      rw [hrd.ent at_]
      have hnext : (∃ z'', searchLongLoop rd sbi n (some fresh) name fuel z' u = ⟨- ENOENT, z'', 0⟩ ∧
          (Over z'' ∨ ∃ i, At i z'')) ∨ ∃ i m z'', lo ≤ i ∧ searchLongLoop rd sbi n (some fresh) name fuel z' u = ⟨0, z'', m + 1⟩ ∧
            At (i + m + 1) z'' ∧ FileAt es n i m ∧ NameIs sbi es name i m := by
        rcases ih u at_ with hnone | ⟨i', m', z'', hle, hrest⟩
        · exact Or.inl hnone
        · exact Or.inr ⟨i', m', z'', by omega, hrest⟩
      by_cases hnil : shortUni sbi (es (i + m)) = []
      · rw [if_pos hnil]
        exact hnext
      rw [if_neg hnil]
      by_cases hshort : fatNameMatch sbi name (shortName sbi (es (i + m))) = true
      · rw [if_pos hshort]
        exact Or.inr ⟨i, m, z', from_, rfl, at_, file, hnil, Or.inl hshort⟩
      rw [if_neg hshort]
      by_cases hlong : m ≠ 0 ∧ fatNameMatch sbi name (longName sbi (u.getD fun _ => 0)) = true
      · rw [if_pos hlong]
        obtain ⟨hm, hmatch⟩ := hlong
        obtain ⟨v, rfl, hv⟩ := chars hm
        rw [Option.getD_some, longName_row (file.row hm).le hv] at hmatch
        exact Or.inr ⟨i, m, z', from_, rfl, at_, file, hnil, Or.inr ⟨hm, hmatch⟩⟩
      · rw [if_neg hlong]
        exact hnext

end

/-- **Nothing is found but a file of the directory with the name**, whatever the directory holds. -/
theorem fatSearchLong_sound {σ : Type*} {rd : EntryReader σ} {At : ℕ → σ → Prop} {Over : σ → Prop} {es : ℕ → Buf} {n : ℕ} {z : σ}
    (hrd : rd.Reads At Over es n) (hat : At 0 z) (sbi : VfatSb) (fresh : ℕ → UInt16) (name : List UInt8) :
    (∃ z', fatSearchLong rd sbi n (some fresh) name z = ⟨- ENOENT, z', 0⟩ ∧ (Over z' ∨ ∃ i, At i z')) ∨
    ∃ i m z', fatSearchLong rd sbi n (some fresh) name z = ⟨0, z', m + 1⟩ ∧ At (i + m + 1) z' ∧ FileAt es n i m ∧
      NameIs sbi es name i m := by
  rcases searchLongLoop_sound hrd fresh (n + 1) none hat with hnone | ⟨i, m, z', -, h⟩
  · exact Or.inl hnone
  · exact Or.inr ⟨i, m, z', h⟩

end AtsLdd.Vfat
