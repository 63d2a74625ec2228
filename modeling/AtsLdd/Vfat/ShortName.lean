/-
Making a short name for a long one: `vfat_create_shortname` (namei_vfat.c).

- `numtailName_spec`: of all the names with a tail one is new, unless the directory has more than 65536 entries;
- `vfatCreateShortname_new`: the search for a short name ends, and the name is that of no entry of the directory.
-/
import AtsLdd.Fat.Readdir
import AtsLdd.Vfat.Translate

namespace AtsLdd.Vfat

open AtsLdd.Fat

def EEXIST : ℕ := 17
def VFAT_SFN_CREATE_WIN95 : ℕ := 0x100
def VFAT_SFN_CREATE_WINNT : ℕ := 0x200

/-! ## The code -/

/-- `vfat_bad_char` -/
def vfatBadChar (w : UInt16) : Prop :=
  w < 0x20 ∨ w = 0x2a ∨ w = 0x3f ∨ w = 0x3c ∨ w = 0x3e ∨ w = 0x7c ∨ w = 0x22 ∨ w = 0x3a ∨ w = 0x2f ∨ w = 0x5c

instance (w : UInt16) : Decidable (vfatBadChar w) := inferInstanceAs (Decidable (_ ∨ _))

/-- `vfat_replace_char` -/
def vfatReplaceChar (w : UInt16) : Prop := w = 0x5b ∨ w = 0x5d ∨ w = 0x3b ∨ w = 0x2c ∨ w = 0x2b ∨ w = 0x3d

instance (w : UInt16) : Decidable (vfatReplaceChar w) := inferInstanceAs (Decidable (_ ∨ _))

/-- `vfat_skip_char` -/
def vfatSkipChar (w : UInt16) : Prop := w = 0x2e ∨ w = 0x20

instance (w : UInt16) : Decidable (vfatSkipChar w) := inferInstanceAs (Decidable (_ ∨ _))

/-- `vfat_is_used_badchars`; the last character is read before a name that is empty, and no name is -/
def vfatIsUsedBadchars (s : List UInt16) : ℤ :=
  if ∃ w ∈ s, vfatBadChar w then - EINVAL
  else if s.getLast? = some 0x20 then - EINVAL
  else 0

/-- `struct shortname_info` -/
structure ShortnameInfo where
  lower : Bool
  upper : Bool
  valid : Bool

/-- `INIT_SHORTNAME_INFO` -/
def initShortnameInfo : ShortnameInfo := ⟨true, true, true⟩

/-- `nls_toupper` -/
def nlsToupper (t : Nls) (c : UInt8) : UInt8 := if t.charset2upper c = 0 then c else t.charset2upper c

/-- `isalpha`, with the letters of Latin 1 -/
def isalpha (c : UInt8) : Prop :=
  (ch 'A' ≤ c ∧ c ≤ ch 'Z') ∨ (ch 'a' ≤ c ∧ c ≤ ch 'z') ∨ (0xc0 ≤ c ∧ c ≠ 0xd7 ∧ c ≠ 0xf7)

instance (c : UInt8) : Decidable (isalpha c) := inferInstanceAs (Decidable (_ ∨ _))

/-- `to_shortname_char`: the bytes -/
def toShortnameChar (nls : Nls) (w : UInt16) (info : ShortnameInfo) : List UInt8 × ShortnameInfo :=
  if vfatSkipChar w then ([], { info with valid := false })
  else if vfatReplaceChar w then ([ch '_'], { info with valid := false })
  else
    match nls.uni2char w with
    | [] => ([ch '_'], { info with valid := false })
    | [prev] =>
      let info := if 0x7f ≤ prev then { info with lower := false, upper := false } else info
      let c := nlsToupper nls prev
      ([c], if isalpha c then if c = prev then { info with lower := false } else { info with upper := false } else info)
    | buf => (buf, { info with lower := false, upper := false })

/-- where the extension starts: the characters of the base, and those of the extension, if there is one -/
def splitExt (uname : List UInt16) : List UInt16 × Option (List UInt16) :=
  -- the characters behind the last dot
  let ext := (uname.reverse.takeWhile (· ≠ 0x2e)).reverse
  if ext.length = uname.length then (uname, none)
  else if ext = [] then (uname, none)
  else
    let base := uname.take (uname.length - ext.length - 1)
    if ∃ w ∈ base, ¬ vfatSkipChar w then (base, some ext) else (uname, none)

/-- the variables of the loop over the base -/
structure BaseName where
  base : List UInt8
  info : ShortnameInfo
  numtailBaselen : ℕ
  numtail2Baselen : ℕ
  isShortname : Bool

/-- the loop over the base -/
def baseLoop (nls : Nls) : List UInt16 → BaseName → BaseName
  | [], b => b
  | w :: ip, b =>
    let (charbuf, info) := toShortnameChar nls w b.info
    if charbuf = [] then baseLoop nls ip { b with info := info }
    else
      let baselen := b.base.length
      let b : BaseName :=
        { b with
          base := (b.base ++ charbuf).take 8
          info := info
          numtail2Baselen := if baselen < 2 ∧ 2 < baselen + charbuf.length then baselen else b.numtail2Baselen
          numtailBaselen := if baselen < 6 ∧ 6 < baselen + charbuf.length then baselen else b.numtailBaselen }
      if 8 ≤ b.base.length then
        if 8 < baselen + charbuf.length ∨ ip ≠ [] then { b with isShortname := false } else b
      else baseLoop nls ip b

/-- the variables of the loop over the extension -/
structure ExtName where
  ext : List UInt8
  info : ShortnameInfo
  isShortname : Bool

/-- the loop over the extension -/
def extLoop (nls : Nls) : List UInt16 → ExtName → ExtName
  | [], e => e
  | w :: ip, e =>
    if 3 ≤ e.ext.length then e
    else
      let (charbuf, info) := toShortnameChar nls w e.info
      let e := { e with info := info }
      if charbuf = [] then extLoop nls ip e
      else if 3 < e.ext.length + charbuf.length then { e with isShortname := false }
      else
        let e := { e with ext := e.ext ++ charbuf }
        if 3 ≤ e.ext.length then if ip ≠ [] then { e with isShortname := false } else e else extLoop nls ip e

/-- a digit of `%04X` -/
def upperDigit (d : ℕ) : UInt8 := if d < 10 then UInt8.ofNat (48 + d) else UInt8.ofNat (55 + d)

/-- `%04X` -/
def hex4 (n : ℕ) : List UInt8 := [upperDigit (n / 4096 % 16), upperDigit (n / 256 % 16), upperDigit (n / 16 % 16), upperDigit (n % 16)]

/-- `memcpy` of four bytes into a name -/
def setFour (name : List UInt8) (at_ : ℕ) (buf : List UInt8) : List UInt8 :=
  (((name.set at_ (buf.getD 0 0)).set (at_ + 1) (buf.getD 1 0)).set (at_ + 2) (buf.getD 2 0)).set (at_ + 3) (buf.getD 3 0)

/-- what `vfat_create_shortname` leaves: a negative error, 0, or 1 where the short name is the name itself -/
structure ShortName (σ : Type*) where
  ret : ℤ
  nameRes : List UInt8
  lcase : UInt8
  s : σ

section
variable {σ : Type*}

/-- the loop over the tails `~1` to `~9`, from `i` on -/
def tailLoop (find : σ → List UInt8 → Bool × σ) (baselen : ℕ) : ℕ → ℕ → List UInt8 → σ → Bool × List UInt8 × σ
  | 0, _, name, s => (false, name, s)
  | left + 1, i, name, s =>
    let name := name.set (baselen + 1) (UInt8.ofNat (i + 48))
    match find s name with
    | (false, s) => (true, name, s)
    | (true, s) => tailLoop find baselen left (i + 1) name s

/-- the loop over the tails of four digits; `none` when it has not ended -/
def hexLoop (find : σ → List UInt8 → Bool × σ) (baselen : ℕ) : ℕ → ℤ → List UInt8 → σ → Option (List UInt8 × σ)
  | 0, _, _, _ => none
  | fuel + 1, i, name, s =>
    let name := setFour name baselen (hex4 (i % 2 ^ 16).toNat)
    match find s name with
    | (false, s) => some (name, s)
    | (true, s) => hexLoop find baselen fuel (i - 11) name s

/-- the search for a name with a tail; `jiffies` is read twice -/
def numtailName (find : σ → List UInt8 → Bool × σ) (fuel jiffies jiffies' : ℕ) (b : BaseName) (name : List UInt8) (s : σ) :
    Option (List UInt8 × σ) :=
  let (baselen, name) := if 6 < b.base.length then (b.numtailBaselen, name.set 7 (ch ' ')) else (b.base.length, name)
  let name := name.set baselen (ch '~')
  match tailLoop find baselen 9 1 name s with
  | (true, name, s) => some (name, s)
  | (false, name, s) =>
    let sz := jiffies' / 2 ^ 16 % 8
    let (baselen, name) := if 2 < baselen then (b.numtail2Baselen, name.set 7 (ch ' ')) else (baselen, name)
    let name := (name.set (baselen + 4) (ch '~')).set (baselen + 5) (UInt8.ofNat (49 + sz))
    hexLoop find baselen fuel jiffies name s

/-- the base and the extension of a name, and whether they are the whole name -/
def shortParts (nls : Nls) (uname : List UInt16) : BaseName × ExtName :=
  let (base, ext) := splitExt uname
  let b := baseLoop nls base ⟨[], initShortnameInfo, 6, 2, true⟩
  (b, extLoop nls (ext.getD []) ⟨[], initShortnameInfo, b.isShortname⟩)

/-- the 11 bytes of a base and an extension; `.\xe5` would begin with the mark of a free entry -/
def shortBytes (b : BaseName) (e : ExtName) : List UInt8 :=
  let base := if b.base.head? = some DELETED_FLAG then b.base.set 0 0x05 else b.base
  padTo 8 base ++ padTo 3 e.ext

/-- `vfat_create_shortname`; `find` is `vfat_find_form`, and says whether the directory has the name. `none` is `BUG`, or a loop
that has not ended. -/
def vfatCreateShortname (sbi : VfatSb) (find : σ → List UInt8 → Bool × σ) (fuel jiffies jiffies' : ℕ) (uname : List UInt16)
    (s : σ) : Option (ShortName σ) :=
  let (b, e) := shortParts sbi.nlsDisk uname
  if b.base = [] then some ⟨- EINVAL, [], 0, s⟩
  else
    let name := shortBytes b e
    if e.isShortname ∧ b.info.valid ∧ e.info.valid then
      match find s name with
      | (true, s) => some ⟨- EEXIST, name, 0, s⟩
      | (false, s) =>
        if sbi.shortname &&& VFAT_SFN_CREATE_WIN95 ≠ 0 then some ⟨if b.info.upper ∧ e.info.upper then 1 else 0, name, 0, s⟩
        else if sbi.shortname &&& VFAT_SFN_CREATE_WINNT ≠ 0 then
          if (b.info.upper ∨ b.info.lower) ∧ (e.info.upper ∨ e.info.lower) then
            let lcase := if b.info.upper = false ∧ b.info.lower then CASE_LOWER_BASE else 0
            some ⟨1, name, if e.info.upper = false ∧ e.info.lower then lcase ||| CASE_LOWER_EXT else lcase, s⟩
          else some ⟨0, name, 0, s⟩
        else none
    else
      let (found, s) := if sbi.numtail then (true, s) else find s name
      if found = false then some ⟨0, name, 0, s⟩
      else (numtailName find fuel jiffies jiffies' b name s).map fun r => ⟨0, r.1, 0, r.2⟩

/-! ## Four digits -/

theorem upperDigit_ne {d : ℕ} (hd : d < 16) : upperDigit d ≠ 0 ∧ upperDigit d ≠ ch '~' := by
  have hall : ∀ d < 16, upperDigit d ≠ 0 ∧ upperDigit d ≠ ch '~' := by decide
  exact hall d hd

theorem upperDigit_inj {d d' : ℕ} (hd : d < 16) (hd' : d' < 16) (h : upperDigit d = upperDigit d') : d = d' := by
  have hall : ∀ d < 16, ∀ d' < 16, upperDigit d = upperDigit d' → d = d' := by decide
  exact hall d hd d' hd' h

theorem hex4_inj {m n : ℕ} (hm : m < 2 ^ 16) (hn : n < 2 ^ 16) (h : hex4 m = hex4 n) : m = n := by
  unfold hex4 at h
  simp only [List.cons.injEq, and_true] at h
  obtain ⟨h1, h2, h3, h4⟩ := h
  have h1' := upperDigit_inj (Nat.mod_lt _ (by decide)) (Nat.mod_lt _ (by decide)) h1
  have h2' := upperDigit_inj (Nat.mod_lt _ (by decide)) (Nat.mod_lt _ (by decide)) h2
  have h3' := upperDigit_inj (Nat.mod_lt _ (by decide)) (Nat.mod_lt _ (by decide)) h3
  have h4' := upperDigit_inj (Nat.mod_lt _ (by decide)) (Nat.mod_lt _ (by decide)) h4
  omega

@[simp] theorem setFour_length (name : List UInt8) (p : ℕ) (buf : List UInt8) : (setFour name p buf).length = name.length := by
  unfold setFour
  simp only [List.length_set]

/-- four bytes are copied -/
theorem setFour_get {name : List UInt8} {p : ℕ} (hp : p + 4 ≤ name.length) (n j : ℕ) :
    (setFour name p (hex4 n))[j]? = if p ≤ j ∧ j < p + 4 then (hex4 n)[j - p]? else name[j]? := by
  unfold setFour
  simp only [List.getElem?_set, List.length_set]
  by_cases h : p ≤ j ∧ j < p + 4
  · rw [if_pos h]
    obtain ⟨d, rfl⟩ := Nat.exists_eq_add_of_le h.1
    have hd : d < 4 := by omega
    rw [Nat.add_sub_cancel_left]
    interval_cases d <;> simp [hex4] <;> omega
  · rw [if_neg h, if_neg (by omega), if_neg (by omega), if_neg (by omega), if_neg (by omega)]

/-- other bytes are copied over them -/
theorem setFour_setFour {name : List UInt8} {p : ℕ} (hp : p + 4 ≤ name.length) (m n : ℕ) :
    setFour (setFour name p (hex4 m)) p (hex4 n) = setFour name p (hex4 n) := by
  apply List.ext_getElem?
  intro j
  rw [setFour_get (by simpa using hp), setFour_get hp, setFour_get hp]
  split_ifs <;> rfl

/-- the four bytes of a name are told apart -/
theorem setFour_inj {name : List UInt8} {p m n : ℕ} (hp : p + 4 ≤ name.length) (hm : m < 2 ^ 16) (hn : n < 2 ^ 16)
    (h : setFour name p (hex4 m) = setFour name p (hex4 n)) : m = n := by
  apply hex4_inj hm hn
  apply List.ext_getElem?
  intro j
  rcases Nat.lt_or_ge j 4 with hj | hj
  · have hget : (setFour name p (hex4 m))[p + j]? = (setFour name p (hex4 n))[p + j]? := by rw [h]
    rw [setFour_get hp, setFour_get hp, if_pos ⟨by omega, by omega⟩, if_pos ⟨by omega, by omega⟩, Nat.add_sub_cancel_left] at hget
    exact hget
  · rw [List.getElem?_eq_none (by simpa [hex4] using hj), List.getElem?_eq_none (by simpa [hex4] using hj)]

/-! ## The parts of a name -/

/-- a table whose characters have no zero bytes, and whose other characters do not begin with a space -/
structure Nls.Sane (nls : Nls) : Prop where
  ne_zero : ∀ w, w ≠ 0 → 0 ∉ nls.uni2char w
  space : ∀ w, w ≠ 0x20 → (nls.uni2char w).head? ≠ some (ch ' ')
  upper : ∀ c, nlsToupper nls c = ch ' ' → c = ch ' '

variable {nls : Nls} {info : ShortnameInfo} {w : UInt16} {uname : List UInt16}

theorem nlsToupper_ne_zero {c : UInt8} (hc : c ≠ 0) : nlsToupper nls c ≠ 0 := by
  unfold nlsToupper
  split_ifs with h
  · exact hc
  · exact h

/-- the bytes of a character -/
theorem toShortnameChar_bytes (h : nls.Sane) (hw : w ≠ 0) (info : ShortnameInfo) :
    0 ∉ (toShortnameChar nls w info).1 ∧ (toShortnameChar nls w info).1.head? ≠ some (ch ' ') := by
  have hund : 0 ∉ [ch '_'] ∧ [ch '_'].head? ≠ some (ch ' ') := by decide
  unfold toShortnameChar
  by_cases hskip : vfatSkipChar w
  · rw [if_pos hskip]
    exact ⟨List.not_mem_nil, by simp⟩
  rw [if_neg hskip]
  by_cases hrep : vfatReplaceChar w
  · rw [if_pos hrep]
    exact hund
  rw [if_neg hrep]
  have hzero := h.ne_zero w hw
  have hspace := h.space w fun he => hskip (Or.inr he)
  rcases hbuf : nls.uni2char w with _ | ⟨c, _ | ⟨c', buf⟩⟩
  · exact hund
  · rw [hbuf] at hzero hspace
    have hc : c ≠ 0 := fun he => hzero (by rw [he]; exact List.mem_singleton_self 0)
    refine ⟨?_, ?_⟩
    · simp only [List.mem_singleton]
      exact (nlsToupper_ne_zero hc).symm
    · simp only [List.head?_cons, ne_eq, Option.some.injEq]
      intro he
      exact hspace (by rw [h.upper c he]; rfl)
  · rw [hbuf] at hzero hspace
    exact ⟨hzero, hspace⟩

/-- what holds of the base at any time -/
structure BaseOk (b : BaseName) : Prop where
  length : b.base.length ≤ 8
  numtail : b.numtailBaselen ≤ 6
  numtail2 : b.numtail2Baselen ≤ 2
  zero : 0 ∉ b.base
  space : b.base.head? ≠ some (ch ' ')

theorem baseLoop_ok (h : nls.Sane) (ip : List UInt16) : ∀ {b : BaseName}, (∀ w ∈ ip, w ≠ 0) → BaseOk b → BaseOk (baseLoop nls ip b) := by
  induction ip with
  | nil => exact fun _ hb => hb
  | cons w ip ih =>
    intro b hip hb
    have hrest : ∀ x ∈ ip, x ≠ 0 := fun x hx => hip x (List.mem_cons_of_mem w hx)
    obtain ⟨hzero, hspace⟩ := toShortnameChar_bytes h (hip w List.mem_cons_self) b.info
    rw [baseLoop]
    generalize toShortnameChar nls w b.info = r at hzero hspace
    obtain ⟨buf, info⟩ := r
    simp only at hzero hspace ⊢
    by_cases hbuf : buf = []
    · rw [if_pos hbuf]
      exact ih hrest ⟨hb.length, hb.numtail, hb.numtail2, hb.zero, hb.space⟩
    rw [if_neg hbuf]
    have hb' : ∀ short, BaseOk ⟨(b.base ++ buf).take 8, info,
        if b.base.length < 6 ∧ 6 < b.base.length + buf.length then b.base.length else b.numtailBaselen,
        if b.base.length < 2 ∧ 2 < b.base.length + buf.length then b.base.length else b.numtail2Baselen, short⟩ := by
      intro short
      refine ⟨?_, ?_, ?_, fun h0 => ?_, ?_⟩
      · rw [List.length_take]
        exact min_le_left _ _
      · simp only
        split_ifs with hc
        · exact hc.1.le
        · exact hb.numtail
      · simp only
        split_ifs with hc
        · exact hc.1.le
        · exact hb.numtail2
      · rcases List.mem_append.1 (List.mem_of_mem_take h0) with h0 | h0
        · exact hb.zero h0
        · exact hzero h0
      · rw [List.head?_take, if_neg (by decide)]
        rcases hbase : b.base with _ | ⟨c, l⟩
        · exact hspace
        · have hs := hb.space
          rw [hbase] at hs
          exact hs
    by_cases hfull : 8 ≤ ((b.base ++ buf).take 8).length
    · rw [if_pos hfull]
      by_cases hcut : 8 < b.base.length + buf.length ∨ ip ≠ []
      · rw [if_pos hcut]
        exact hb' false
      · rw [if_neg hcut]
        exact hb' b.isShortname
    · rw [if_neg hfull]
      exact ih hrest (hb' b.isShortname)

/-- what holds of the extension at any time -/
structure ExtOk (e : ExtName) : Prop where
  length : e.ext.length ≤ 3
  zero : 0 ∉ e.ext

theorem extLoop_ok (h : nls.Sane) (ip : List UInt16) : ∀ {e : ExtName}, (∀ w ∈ ip, w ≠ 0) → ExtOk e → ExtOk (extLoop nls ip e) := by
  induction ip with
  | nil => exact fun _ he => he
  | cons w ip ih =>
    intro e hip he
    have hrest : ∀ x ∈ ip, x ≠ 0 := fun x hx => hip x (List.mem_cons_of_mem w hx)
    obtain ⟨hzero, -⟩ := toShortnameChar_bytes h (hip w List.mem_cons_self) e.info
    rw [extLoop]
    generalize toShortnameChar nls w e.info = r at hzero
    obtain ⟨buf, info⟩ := r
    simp only at hzero ⊢
    by_cases hfull : 3 ≤ e.ext.length
    · rw [if_pos hfull]
      exact he
    rw [if_neg hfull]
    by_cases hbuf : buf = []
    · rw [if_pos hbuf]
      exact ih hrest ⟨he.length, he.zero⟩
    rw [if_neg hbuf]
    by_cases hlong : 3 < e.ext.length + buf.length
    · rw [if_pos hlong]
      exact ⟨he.length, he.zero⟩
    rw [if_neg hlong]
    have he' : ∀ short, ExtOk ⟨e.ext ++ buf, info, short⟩ := by
      intro short
      refine ⟨?_, fun h0 => ?_⟩
      · rw [List.length_append]
        omega
      · rcases List.mem_append.1 h0 with h0 | h0
        · exact he.zero h0
        · exact hzero h0
    by_cases hfull' : 3 ≤ (e.ext ++ buf).length
    · rw [if_pos hfull']
      by_cases hcut : ip ≠ []
      · rw [if_pos hcut]
        exact he' false
      · rw [if_neg hcut]
        exact he' e.isShortname
    · rw [if_neg hfull']
      exact ih hrest (he' e.isShortname)

/-! ## Names for an entry -/

/-- 11 bytes for an entry that is not free: they do not begin with the mark of a free entry, or with a space -/
structure GoodName (name : List UInt8) : Prop where
  length : name.length = MSDOS_NAME
  zero : 0 ∉ name
  deleted : name.head? ≠ some DELETED_FLAG
  space : name.head? ≠ some (ch ' ')

variable {name name' : List UInt8} {p m : ℕ} {v : UInt8} {b : BaseName} {e : ExtName}

theorem GoodName.set (h : GoodName name) (hv : v ≠ 0) (hp : p ≠ 0 ∨ v ≠ DELETED_FLAG ∧ v ≠ ch ' ') : GoodName (name.set p v) := by
  have hhead : (name.set p v).head? = name.head? ∨ (name.set p v).head? = some v ∧ v ≠ DELETED_FLAG ∧ v ≠ ch ' ' := by
    cases name with
    | nil => exact Or.inl rfl
    | cons c l =>
      cases p with
      | zero => exact Or.inr ⟨rfl, hp.resolve_left (by simp)⟩
      | succ p => exact Or.inl rfl
  refine ⟨by rw [List.length_set, h.length], fun h0 => ?_, ?_, ?_⟩
  · rcases List.mem_or_eq_of_mem_set h0 with h0 | h0
    · exact h.zero h0
    · exact hv h0.symm
  · rcases hhead with heq | ⟨heq, hdel, -⟩ <;> rw [heq]
    · exact h.deleted
    · simpa using hdel
  · rcases hhead with heq | ⟨heq, -, hsp⟩ <;> rw [heq]
    · exact h.space
    · simpa using hsp

theorem GoodName.setFour (h : GoodName name) (p n : ℕ) : GoodName (setFour name p (hex4 n)) := by
  have hdigit : ∀ d < 16, upperDigit d ≠ 0 ∧ upperDigit d ≠ DELETED_FLAG ∧ upperDigit d ≠ ch ' ' := by decide
  have hset : ∀ {name : List UInt8}, GoodName name → ∀ q d, GoodName (name.set q (upperDigit (d % 16))) := by
    intro name h q d
    obtain ⟨h0, h1⟩ := hdigit (d % 16) (Nat.mod_lt _ (by decide))
    exact h.set h0 (Or.inr h1)
  exact hset (hset (hset (hset h p _) (p + 1) _) (p + 2) _) (p + 3) _

/-- the 11 bytes of a base and an extension -/
theorem shortBytes_good (hb : BaseOk b) (he : ExtOk e) (hne : b.base ≠ []) : GoodName (shortBytes b e) := by
  obtain ⟨c, l, hbase⟩ := List.exists_cons_of_ne_nil hne
  -- the first byte of the base, when it is stored
  obtain ⟨c', hc', h1, h2, h3⟩ : ∃ c', (if b.base.head? = some DELETED_FLAG then b.base.set 0 0x05 else b.base) = c' :: l ∧
      c' ≠ 0 ∧ c' ≠ DELETED_FLAG ∧ c' ≠ ch ' ' := by
    have hzero := hb.zero
    have hspace := hb.space
    rw [hbase] at hzero hspace ⊢
    by_cases hdel : c = DELETED_FLAG
    · refine ⟨0x05, ?_, by decide, by decide, by decide⟩
      rw [List.head?_cons, if_pos (congrArg some hdel)]
      rfl
    · refine ⟨c, ?_, fun h => hzero (by rw [h]; exact List.mem_cons_self), hdel, fun h => hspace (by rw [h]; rfl)⟩
      rw [List.head?_cons, if_neg (by simpa using hdel)]
  have hlen := hb.length
  rw [hbase] at hlen
  have hpad : ∀ {n : ℕ} {res : List UInt8}, 0 ∉ res → 0 ∉ padTo n res := by
    intro n res h0 hmem
    rcases List.mem_append.1 hmem with h | h
    · exact h0 h
    · exact absurd (List.eq_of_mem_replicate h) (by decide)
  unfold shortBytes
  simp only [hc']
  refine ⟨?_, fun h0 => ?_, ?_, ?_⟩
  · rw [List.length_append, padTo_length (by simpa using hlen), padTo_length he.length]
    rfl
  · rcases List.mem_append.1 h0 with h0 | h0
    · refine hpad (fun h => ?_) h0
      rcases List.mem_cons.1 h with h | h
      · exact h1 h.symm
      · have hz := hb.zero
        rw [hbase] at hz
        exact hz (List.mem_cons_of_mem c h)
    · exact hpad he.zero h0
  · simpa [padTo] using h2
  · simpa [padTo] using h3

/-! ## Looking for a name that is new -/

/-- `find` says what names there are, and leaves what it reads as it is -/
structure Finds (find : σ → List UInt8 → Bool × σ) (Inv : σ → Prop) (Has : List UInt8 → Prop) : Prop where
  keeps : ∀ {s} name, Inv s → Inv (find s name).2
  iff : ∀ {s} name, Inv s → ((find s name).1 = true ↔ Has name)

variable {find : σ → List UInt8 → Bool × σ} {Inv : σ → Prop} {Has : List UInt8 → Prop}

/-- the tails of one digit -/
theorem tailLoop_spec (hfind : Finds find Inv Has) (baselen left : ℕ) : ∀ (i : ℕ) (name : List UInt8) {s : σ}, Inv s →
    ∃ found name' s', tailLoop find baselen left i name s = (found, name', s') ∧ Inv s' ∧
      (∀ d, (name'.set (baselen + 1) d) = name.set (baselen + 1) d) ∧
      (found = true → ¬ Has name' ∧ ∃ d, i ≤ d ∧ d < i + left ∧ name' = name.set (baselen + 1) (UInt8.ofNat (d + 48))) ∧
      (found = false → (∀ d, i ≤ d → d < i + left → Has (name.set (baselen + 1) (UInt8.ofNat (d + 48)))) ∧
        (0 < left → name' = name.set (baselen + 1) (UInt8.ofNat (i + left - 1 + 48)))) := by
  induction left with
  | zero =>
    intro i name s hs
    exact ⟨false, name, s, rfl, hs, fun _ => rfl, by simp, fun _ => ⟨fun d h1 h2 => by omega, fun h => absurd h (by simp)⟩⟩
  | succ left ih =>
    intro i name s hs
    have hkeep := hfind.keeps (name.set (baselen + 1) (UInt8.ofNat (i + 48))) hs
    have hiff := hfind.iff (name.set (baselen + 1) (UInt8.ofNat (i + 48))) hs
    rw [tailLoop]
    generalize find s (name.set (baselen + 1) (UInt8.ofNat (i + 48))) = q at hkeep hiff ⊢
    obtain ⟨found, s1⟩ := q
    cases found with
    | false =>
      have hnew : ¬ Has (name.set (baselen + 1) (UInt8.ofNat (i + 48))) := fun h => Bool.false_ne_true (hiff.2 h)
      exact ⟨true, _, s1, rfl, hkeep, fun d => List.set_set .., fun _ => ⟨hnew, i, le_rfl, by omega, rfl⟩, by simp⟩
    | true =>
      obtain ⟨found, name', s', hloop, hinv, hset, htrue, hfalse⟩ := ih (i + 1)
        (name.set (baselen + 1) (UInt8.ofNat (i + 48))) hkeep
      refine ⟨found, name', s', hloop, hinv, fun d => by rw [hset, List.set_set], fun h => ?_, fun h => ?_⟩
      · obtain ⟨hnew, d, h1, h2, heq⟩ := htrue h
        exact ⟨hnew, d, by omega, by omega, by rw [heq, List.set_set]⟩
      · obtain ⟨hall, hlast⟩ := hfalse h
        refine ⟨fun d h1 h2 => ?_, fun _ => ?_⟩
        · rcases Nat.eq_or_lt_of_le h1 with rfl | hlt
          · exact hiff.1 rfl
          · have hd := hall d hlt (by omega)
            rwa [List.set_set] at hd
        · rcases Nat.eq_zero_or_pos left with rfl | hpos
          · rw [tailLoop] at hloop
            simp only [Prod.mk.injEq] at hloop
            rw [← hloop.2.1]
            rfl
          · rw [hlast hpos, List.set_set, show i + 1 + left - 1 = i + (left + 1) - 1 by omega]

/-- the tails of four digits -/
theorem hexLoop_spec (hfind : Finds find Inv Has) (baselen fuel : ℕ) : ∀ (i : ℤ) (name : List UInt8) {s : σ}, Inv s →
    baselen + 4 ≤ name.length →
    (∃ name' s' n, hexLoop find baselen fuel i name s = some (name', s') ∧ Inv s' ∧ ¬ Has name' ∧
      name' = setFour name baselen (hex4 n)) ∨
    hexLoop find baselen fuel i name s = none ∧ ∀ k < fuel, Has (setFour name baselen (hex4 ((i - 11 * k) % 2 ^ 16).toNat)) := by
  induction fuel with
  | zero => exact fun _ _ _ _ _ => Or.inr ⟨rfl, fun k hk => absurd hk (Nat.not_lt_zero k)⟩
  | succ fuel ih =>
    intro i name s hs hlen
    obtain ⟨n, hn⟩ : ∃ n, n = (i % 2 ^ 16).toNat := ⟨_, rfl⟩
    have hkeep := hfind.keeps (setFour name baselen (hex4 n)) hs
    have hiff := hfind.iff (setFour name baselen (hex4 n)) hs
    rw [hexLoop, ← hn]
    generalize find s (setFour name baselen (hex4 n)) = q at hkeep hiff ⊢
    obtain ⟨found, s1⟩ := q
    cases found with
    | false => exact Or.inl ⟨_, s1, n, rfl, hkeep, fun h => Bool.false_ne_true (hiff.2 h), rfl⟩
    | true =>
      rcases ih (i - 11) (setFour name baselen (hex4 n)) hkeep (by simpa using hlen) with
        ⟨name', s', k, hloop, hinv, hnew, heq⟩ | ⟨hloop, hall⟩
      · exact Or.inl ⟨name', s', k, hloop, hinv, hnew, by rw [heq, setFour_setFour hlen]⟩
      · refine Or.inr ⟨hloop, fun k hk => ?_⟩
        cases k with
        | zero =>
          rw [Nat.cast_zero, mul_zero, sub_zero, ← hn]
          exact hiff.1 rfl
        | succ k =>
          have h := hall k (by omega)
          rwa [setFour_setFour hlen, show i - 11 - 11 * (k : ℤ) = i - 11 * ((k + 1 : ℕ) : ℤ) by push_cast; ring] at h

/-! ## Names with a tail -/

/-- **A name with a tail of one digit** is one with a tail of four digits for a single digit at most. -/
theorem tail_ne_hex {name1 name2 : List UInt8} {b0 b1 sz d n : ℕ} (hlen1 : name1.length = MSDOS_NAME)
    (hlen2 : name2.length = MSDOS_NAME) (h0 : b0 ≤ 6) (h1 : b1 ≤ 2) (h01 : b0 ≤ 2 → b1 = b0) (htilde : name1[b0]? = some (ch '~'))
    (hspace : 2 < b0 → name2[7]? = some (ch ' ')) (hd : 1 ≤ d) (hd9 : d ≤ 9) (hsz : sz < 8)
    (h : setFour ((name2.set (b1 + 4) (ch '~')).set (b1 + 5) (UInt8.ofNat (49 + sz))) b1 (hex4 n) =
      name1.set (b0 + 1) (UInt8.ofNat (d + 48))) : d = 1 + sz := by
  have hdigit : ∀ d < 10, UInt8.ofNat (d + 48) ≠ ch ' ' ∧ UInt8.ofNat (d + 48) ≠ ch '~' := by decide
  have heq : ∀ d < 10, ∀ sz < 8, UInt8.ofNat (49 + sz) = UInt8.ofNat (d + 48) → d = 1 + sz := by decide
  have hmax : MSDOS_NAME = 11 := rfl
  have hget : ∀ j, (if b1 ≤ j ∧ j < b1 + 4 then (hex4 n)[j - b1]?
      else ((name2.set (b1 + 4) (ch '~')).set (b1 + 5) (UInt8.ofNat (49 + sz)))[j]?) =
      (name1.set (b0 + 1) (UInt8.ofNat (d + 48)))[j]? := by
    intro j
    rw [← setFour_get (by simp only [List.length_set]; omega), h]
  have hself : (name1.set (b0 + 1) (UInt8.ofNat (d + 48)))[b0]? = some (ch '~') := by
    rw [List.getElem?_set_ne (by omega), htilde]
  have hbehind : (name1.set (b0 + 1) (UInt8.ofNat (d + 48)))[b0 + 1]? = some (UInt8.ofNat (d + 48)) :=
    List.getElem?_set_self (by omega)
  have hat := (hget b0).trans hself
  have hnext := (hget (b0 + 1)).trans hbehind
  by_cases hin : b1 ≤ b0 ∧ b0 < b1 + 4
  · -- a digit is not a tilde
    rw [if_pos hin] at hat
    have hmem := List.mem_of_getElem? hat
    unfold hex4 at hmem
    simp only [List.mem_cons, List.not_mem_nil, or_false] at hmem
    rcases hmem with hm | hm | hm | hm <;> exact absurd hm.symm (upperDigit_ne (Nat.mod_lt _ (by decide))).2
  rw [if_neg hin] at hat
  rcases Nat.lt_or_ge (b0 + 1) (b1 + 7) with hlt | hge
  · have hcases : b0 = b1 + 4 ∨ b0 = b1 + 5 := by
      by_contra hnot
      rcases Nat.lt_or_ge 2 b0 with h2 | h2
      · omega
      · have := h01 h2
        omega
    rcases hcases with rfl | rfl
    · rw [if_neg (by omega), List.getElem?_set_self (by simp only [List.length_set]; omega), Option.some.injEq] at hnext
      exact heq d (by omega) sz hsz hnext
    · rw [List.getElem?_set_self (by simp only [List.length_set]; omega), Option.some.injEq] at hat
      rw [show 49 + sz = sz + 1 + 48 by omega] at hat
      exact absurd hat (hdigit (sz + 1) (by omega)).2
  · obtain rfl : b0 = 6 := by omega
    obtain rfl : b1 = 0 := by omega
    rw [if_neg (by omega), List.getElem?_set_ne (by omega), List.getElem?_set_ne (by omega), hspace (by omega),
      Option.some.injEq] at hnext
    exact absurd hnext.symm (hdigit d (by omega)).1

/-- the numbers `i`, `i - 11`, `i - 22` and so on are all different -/
theorem steps_inj {i : ℤ} {j k : ℕ} (hj : j < 2 ^ 16) (hk : k < 2 ^ 16)
    (h : ((i - 11 * j) % 2 ^ 16).toNat = ((i - 11 * k) % 2 ^ 16).toNat) : j = k := by
  omega

/-- what a search for a new name that does not end has found: more names than a directory of 2 MB has entries -/
def TooMany (Has : List UInt8 → Prop) : Prop := ∃ F : Finset (List UInt8), 2 ^ 16 < F.card ∧ ∀ n ∈ F, Has n ∧ GoodName n

/-- the name with tail `~d` -/
def tailName (name : List UInt8) (baselen d : ℕ) : List UInt8 := name.set (baselen + 1) (UInt8.ofNat (d + 48))

/-- the name with the digits that are tried after `k` others -/
def hexName (name : List UInt8) (baselen : ℕ) (i : ℤ) (k : ℕ) : List UInt8 :=
  setFour name baselen (hex4 ((i - 11 * k) % 2 ^ 16).toNat)

theorem tailName_inj {name1 : List UInt8} {b0 d d' : ℕ} (hlen : b0 + 1 < name1.length) (hd : d < 10) (hd' : d' < 10)
    (h : tailName name1 b0 d = tailName name1 b0 d') : d = d' := by
  have hinj : ∀ d < 10, ∀ d' < 10, UInt8.ofNat (d + 48) = UInt8.ofNat (d' + 48) → d = d' := by decide
  have hget : (tailName name1 b0 d)[b0 + 1]? = (tailName name1 b0 d')[b0 + 1]? := by rw [h]
  unfold tailName at hget
  rw [List.getElem?_set_self hlen, List.getElem?_set_self hlen, Option.some.injEq] at hget
  exact hinj d hd d' hd' hget

/-- all the names with a tail -/
theorem tooMany_of_tails {name1 name4 : List UInt8} {b0 b1 sz : ℕ} {i : ℤ} (hgood1 : GoodName name1) (hgood4 : GoodName name4)
    (h0 : b0 ≤ 6) (h1 : b1 ≤ 2) (htails : ∀ d, 1 ≤ d → d < 10 → Has (tailName name1 b0 d))
    (hhex : ∀ k < 2 ^ 16, Has (hexName name4 b1 i k))
    (hne : ∀ d n, 1 ≤ d → d ≤ 9 → setFour name4 b1 (hex4 n) = tailName name1 b0 d → d = 1 + sz) : TooMany Has := by
  have hmax : MSDOS_NAME = 11 := rfl
  have hlen1 := hgood1.length
  have hlen4 := hgood4.length
  -- the names are different ones
  have hHinj : Set.InjOn (hexName name4 b1 i) (Finset.range (2 ^ 16)) := by
    intro j hj k hk heq
    rw [Finset.mem_coe, Finset.mem_range] at hj hk
    exact steps_inj hj hk (setFour_inj (by omega) (by omega) (by omega) heq)
  have hTinj : Set.InjOn (tailName name1 b0) ((Finset.Ico 1 10).erase (1 + sz)) := by
    intro d hd d' hd' heq
    rw [Finset.mem_coe, Finset.mem_erase, Finset.mem_Ico] at hd hd'
    exact tailName_inj (by omega) hd.2.2 hd'.2.2 heq
  have hdis : Disjoint ((Finset.range (2 ^ 16)).image (hexName name4 b1 i))
      (((Finset.Ico 1 10).erase (1 + sz)).image (tailName name1 b0)) := by
    rw [Finset.disjoint_left]
    intro x hx hx'
    obtain ⟨k, -, rfl⟩ := Finset.mem_image.1 hx
    obtain ⟨d, hd, heq⟩ := Finset.mem_image.1 hx'
    rw [Finset.mem_erase, Finset.mem_Ico] at hd
    exact hd.1 (hne d _ hd.2.1 (by omega) heq.symm)
  refine ⟨(Finset.range (2 ^ 16)).image (hexName name4 b1 i) ∪ ((Finset.Ico 1 10).erase (1 + sz)).image (tailName name1 b0), ?_,
    fun n hn => ?_⟩
  · rw [Finset.card_union_of_disjoint hdis, Finset.card_image_of_injOn hHinj, Finset.card_range,
      Finset.card_image_of_injOn hTinj]
    have hcard : (Finset.Ico 1 10).card - 1 ≤ ((Finset.Ico 1 10).erase (1 + sz)).card := Finset.pred_card_le_card_erase
    rw [Nat.card_Ico] at hcard
    omega
  · rcases Finset.mem_union.1 hn with hn | hn
    · obtain ⟨k, hk, rfl⟩ := Finset.mem_image.1 hn
      exact ⟨hhex k (Finset.mem_range.1 hk), hgood4.setFour _ _⟩
    · obtain ⟨d, hd, rfl⟩ := Finset.mem_image.1 hn
      rw [Finset.mem_erase, Finset.mem_Ico] at hd
      have hdigit : ∀ d < 10, UInt8.ofNat (d + 48) ≠ 0 := by decide
      exact ⟨htails d hd.2.1 hd.2.2, hgood1.set (hdigit d hd.2.2) (Or.inl (Nat.succ_ne_zero b0))⟩

/-- **The search for a name with a tail**: it ends with a new one, unless there are too many names. -/
theorem numtailName_spec (hfind : Finds find Inv Has) (fuel jiffies jiffies' : ℕ) {s : σ} (hs : Inv s) (hb : BaseOk b)
    (hname : GoodName name) :
    (∃ name' s', numtailName find fuel jiffies jiffies' b name s = some (name', s') ∧ Inv s' ∧ ¬ Has name' ∧ GoodName name') ∨
    numtailName find fuel jiffies jiffies' b name s = none ∧ (2 ^ 16 ≤ fuel → TooMany Has) := by
  have hmax : MSDOS_NAME = 11 := rfl
  have hspace : ch ' ' ≠ 0 := by decide
  have htilde : ch '~' ≠ 0 ∧ ch '~' ≠ DELETED_FLAG ∧ ch '~' ≠ ch ' ' := by decide
  have hdigit : ∀ d < 10, UInt8.ofNat (d + 48) ≠ 0 := by decide
  unfold numtailName
  -- the length of the base, and the name with a tilde
  obtain ⟨b0, name0, hpair, h6, hgood0⟩ : ∃ b0 name0, (if 6 < b.base.length then (b.numtailBaselen, name.set 7 (ch ' '))
      else (b.base.length, name)) = (b0, name0) ∧ b0 ≤ 6 ∧ GoodName name0 := by
    by_cases h : 6 < b.base.length
    · exact ⟨_, _, if_pos h, hb.numtail, hname.set hspace (Or.inl (by decide))⟩
    · exact ⟨_, _, if_neg h, not_lt.1 h, hname⟩
  rw [hpair]
  simp only
  have hgood1 : GoodName (name0.set b0 (ch '~')) := hgood0.set htilde.1 (Or.inr htilde.2)
  have hlen0 := hgood0.length
  obtain ⟨name1, hname1⟩ : ∃ x, x = name0.set b0 (ch '~') := ⟨_, rfl⟩
  rw [← hname1] at hgood1 ⊢
  obtain ⟨found, name2, s2, hloop, hinv2, hset2, htrue, hfalse⟩ := tailLoop_spec hfind b0 9 1 name1 hs
  rw [hloop]
  cases found with
  | true =>
    obtain ⟨hnew, d, h1, h2, heq⟩ := htrue rfl
    refine Or.inl ⟨name2, s2, rfl, hinv2, hnew, ?_⟩
    rw [heq]
    exact hgood1.set (hdigit d (by omega)) (Or.inl (Nat.succ_ne_zero b0))
  | false =>
    obtain ⟨htails, hlast⟩ := hfalse rfl
    have hgood2 : GoodName name2 := by
      rw [hlast (by decide)]
      exact hgood1.set (by decide) (Or.inl (Nat.succ_ne_zero b0))
    simp only
    obtain ⟨b1, name3, hpair3, h2, h01, hgood3, hsp3⟩ : ∃ b1 name3, (if 2 < b0 then (b.numtail2Baselen, name2.set 7 (ch ' '))
        else (b0, name2)) = (b1, name3) ∧ b1 ≤ 2 ∧ (b0 ≤ 2 → b1 = b0) ∧ GoodName name3 ∧ (2 < b0 → name3[7]? = some (ch ' ')) := by
      have hlen2 := hgood2.length
      by_cases h : 2 < b0
      · exact ⟨_, _, if_pos h, hb.numtail2, fun hle => absurd h (not_lt.2 hle), hgood2.set hspace (Or.inl (by decide)),
          fun _ => List.getElem?_set_self (by omega)⟩
      · exact ⟨_, _, if_neg h, not_lt.1 h, fun _ => rfl, hgood2, fun h' => absurd h' h⟩
    rw [hpair3]
    simp only
    have hsz : jiffies' / 2 ^ 16 % 8 < 8 := Nat.mod_lt _ (by decide)
    generalize jiffies' / 2 ^ 16 % 8 = sz at hsz ⊢
    have hszd : UInt8.ofNat (49 + sz) ≠ 0 := by
      have h := hdigit (sz + 1) (by omega)
      rwa [show sz + 1 + 48 = 49 + sz by omega] at h
    have hgood4 : GoodName ((name3.set (b1 + 4) (ch '~')).set (b1 + 5) (UInt8.ofNat (49 + sz))) :=
      (hgood3.set htilde.1 (Or.inl (by omega))).set hszd (Or.inl (by omega))
    have hlen4 := hgood4.length
    rcases hexLoop_spec hfind b1 fuel jiffies _ hinv2 (show b1 + 4 ≤ _ by rw [hlen4]; omega) with
      ⟨name', s', n, hhex, hinv', hnew, heq⟩ | ⟨hhex, hall⟩
    · exact Or.inl ⟨name', s', hhex, hinv', hnew, by rw [heq]; exact hgood4.setFour _ _⟩
    · have hat : name1[b0]? = some (ch '~') := by
        rw [hname1]
        exact List.getElem?_set_self (by omega)
      exact Or.inr ⟨hhex, fun hfuel => tooMany_of_tails hgood1 hgood4 h6 h2 htails (fun k hk => hall k (hk.trans_le hfuel))
        fun d n hd1 hd9 heq => tail_ne_hex hgood1.length hgood3.length h6 h2 h01 hat hsp3 hd1 hd9 hsz heq⟩

/-- the characters of the base and of the extension are characters of the name -/
theorem splitExt_mem (uname : List UInt16) :
    (∀ w ∈ (splitExt uname).1, w ∈ uname) ∧ ∀ w ∈ (splitExt uname).2.getD [], w ∈ uname := by
  have hnone : (∀ w ∈ uname, w ∈ uname) ∧ ∀ w ∈ (none : Option (List UInt16)).getD [], w ∈ uname :=
    ⟨fun _ h => h, fun w h => absurd h List.not_mem_nil⟩
  unfold splitExt
  simp only
  split_ifs
  · exact hnone
  · exact hnone
  · exact ⟨fun w h => List.mem_of_mem_take h,
      fun w h => List.mem_reverse.1 ((List.takeWhile_sublist _).subset (List.mem_reverse.1 h))⟩
  · exact hnone

/-- the two parts of a name -/
theorem shortParts_ok (h : nls.Sane) (hname : ∀ w ∈ uname, w ≠ 0) :
    BaseOk (shortParts nls uname).1 ∧ ExtOk (shortParts nls uname).2 := by
  obtain ⟨hbase, hext⟩ := splitExt_mem uname
  refine ⟨baseLoop_ok h _ (fun w hw => hname w (hbase w hw)) ⟨by decide, by decide, by decide, List.not_mem_nil, by decide⟩,
    extLoop_ok h _ (fun w hw => hname w (hext w hw)) ⟨Nat.zero_le _, List.not_mem_nil⟩⟩

/-- why no short name is made, and the error: nothing is left of the name, or it is a short name and there is one already -/
inductive ShortRefused (nls : Nls) (uname : List UInt16) (Has : List UInt8 → Prop) : ℤ → Prop
  | empty (base : (shortParts nls uname).1.base = []) : ShortRefused nls uname Has (- EINVAL)
  | taken (good : GoodName (shortBytes (shortParts nls uname).1 (shortParts nls uname).2))
      (has : Has (shortBytes (shortParts nls uname).1 (shortParts nls uname).2)) : ShortRefused nls uname Has (- EEXIST)

/-- what `vfat_create_shortname` leaves in a directory that has some names -/
structure Shortened (nls : Nls) (uname : List UInt16) (Inv : σ → Prop) (Has : List UInt8 → Prop) (r : ShortName σ) : Prop where
  inv : Inv r.s
  err : r.ret < 0 → ShortRefused nls uname Has r.ret
  ret : 0 ≤ r.ret → r.ret = 0 ∨ r.ret = 1
  good : 0 ≤ r.ret → GoodName r.nameRes
  new : 0 ≤ r.ret → ¬ Has r.nameRes

/-- **A short name is made** that is the name of no entry, and whose first byte is not the mark of a free entry. The search for it
ends, when the directory does not have more than 65536 names. -/
theorem vfatCreateShortname_new (hfind : Finds find Inv Has) {sbi : VfatSb} (hsane : sbi.nlsDisk.Sane)
    (hflags : sbi.shortname &&& VFAT_SFN_CREATE_WIN95 ≠ 0 ∨ sbi.shortname &&& VFAT_SFN_CREATE_WINNT ≠ 0)
    (hname : ∀ w ∈ uname, w ≠ 0) {s : σ} (hs : Inv s) (fuel jiffies jiffies' : ℕ) :
    (∃ r, vfatCreateShortname sbi find fuel jiffies jiffies' uname s = some r ∧ Shortened sbi.nlsDisk uname Inv Has r) ∨
    vfatCreateShortname sbi find fuel jiffies jiffies' uname s = none ∧ (2 ^ 16 ≤ fuel → TooMany Has) := by
  obtain ⟨hb, he⟩ := shortParts_ok hsane hname
  have hempty : (shortParts sbi.nlsDisk uname).1.base = [] → ShortRefused sbi.nlsDisk uname Has (- EINVAL) := .empty
  have htaken : GoodName (shortBytes (shortParts sbi.nlsDisk uname).1 (shortParts sbi.nlsDisk uname).2) →
      Has (shortBytes (shortParts sbi.nlsDisk uname).1 (shortParts sbi.nlsDisk uname).2) →
      ShortRefused sbi.nlsDisk uname Has (- EEXIST) := .taken
  unfold vfatCreateShortname
  generalize shortParts sbi.nlsDisk uname = parts at hb he hempty htaken
  obtain ⟨b, e⟩ := parts
  simp only at hb he hempty htaken ⊢
  by_cases hbase : b.base = []
  · rw [if_pos hbase]
    have hneg : ¬ (0 : ℤ) ≤ - EINVAL := by decide
    exact Or.inl ⟨_, rfl, hs, fun _ => hempty hbase, fun h => absurd h hneg, fun h => absurd h hneg, fun h => absurd h hneg⟩
  rw [if_neg hbase]
  have hgood := shortBytes_good hb he hbase
  have hkeep := hfind.keeps (shortBytes b e) hs
  have hiff := hfind.iff (shortBytes b e) hs
  generalize find s (shortBytes b e) = q at hkeep hiff ⊢
  obtain ⟨found, s1⟩ := q
  by_cases hshort : e.isShortname = true ∧ b.info.valid = true ∧ e.info.valid = true
  · -- the name itself
    rw [if_pos hshort]
    cases found with
    | true =>
      have hneg : ¬ (0 : ℤ) ≤ - EEXIST := by decide
      exact Or.inl ⟨_, rfl, hkeep, fun _ => htaken hgood (hiff.1 rfl), fun h => absurd h hneg, fun h => absurd h hneg,
        fun h => absurd h hneg⟩
    | false =>
      have hnew : ¬ Has (shortBytes b e) := fun h => Bool.false_ne_true (hiff.2 h)
      simp only
      by_cases h95 : sbi.shortname &&& VFAT_SFN_CREATE_WIN95 ≠ 0
      · rw [if_pos h95]
        refine Or.inl ⟨_, rfl, hkeep, fun h => ?_, fun _ => ?_, fun _ => hgood, fun _ => hnew⟩
        · simp only at h
          split_ifs at h <;> exact absurd h (by decide)
        · simp only
          split_ifs
          · exact Or.inr rfl
          · exact Or.inl rfl
      rw [if_neg h95, if_pos (hflags.resolve_left h95)]
      by_cases hcase : (b.info.upper = true ∨ b.info.lower = true) ∧ (e.info.upper = true ∨ e.info.lower = true)
      · rw [if_pos hcase]
        exact Or.inl ⟨_, rfl, hkeep, fun h => absurd h (show ¬ (1 : ℤ) < 0 by decide), fun _ => Or.inr rfl, fun _ => hgood,
          fun _ => hnew⟩
      · rw [if_neg hcase]
        exact Or.inl ⟨_, rfl, hkeep, fun h => absurd h (lt_irrefl (0 : ℤ)), fun _ => Or.inl rfl, fun _ => hgood, fun _ => hnew⟩
  rw [if_neg hshort]
  -- a name with a tail, unless the name without one will do
  have htail : ∀ {s2}, Inv s2 → (∃ r, ((numtailName find fuel jiffies jiffies' b (shortBytes b e) s2).map
      fun r => (⟨0, r.1, 0, r.2⟩ : ShortName σ)) = some r ∧ Shortened sbi.nlsDisk uname Inv Has r) ∨
      ((numtailName find fuel jiffies jiffies' b (shortBytes b e) s2).map fun r => (⟨0, r.1, 0, r.2⟩ : ShortName σ)) = none ∧
        (2 ^ 16 ≤ fuel → TooMany Has) := by
    intro s2 hs2
    rcases numtailName_spec hfind fuel jiffies jiffies' hs2 hb hgood with ⟨name', s', hnum, hinv', hnew, hgood'⟩ | ⟨hnum, hmany⟩
    · rw [hnum]
      exact Or.inl ⟨_, rfl, hinv', fun h => absurd h (lt_irrefl (0 : ℤ)), fun _ => Or.inl rfl, fun _ => hgood', fun _ => hnew⟩
    · rw [hnum]
      exact Or.inr ⟨rfl, hmany⟩
  by_cases hnum : sbi.numtail = true
  · simp only [hnum, if_true]
    exact htail hs
  · rw [if_neg hnum]
    simp only
    cases found with
    | true => exact htail hkeep
    | false => exact Or.inl ⟨_, rfl, hkeep, fun h => absurd h (lt_irrefl (0 : ℤ)), fun _ => Or.inl rfl, fun _ => hgood,
        fun _ h => Bool.false_ne_true (hiff.2 h)⟩

end

end AtsLdd.Vfat
