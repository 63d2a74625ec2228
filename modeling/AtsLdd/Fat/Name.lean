/-
Names of directory entries: `msdos_format_name` (msdos_misc.h), which builds the 11 bytes of an entry from the name of a
user.

- `msdosFormatName_eq_some`: the names that are accepted, and what they become;
- `msdosFormatName_join`: a base and an extension of accepted characters are accepted as a name.
-/
import AtsLdd.Fat.Volume

namespace AtsLdd.Fat

def MSDOS_NAME : ℕ := 11
def DELETED_FLAG : UInt8 := 0xe5
def ATTR_HIDDEN : UInt8 := 2
def ATTR_VOLUME : UInt8 := 8
def ATTR_DIR : UInt8 := 16
def ATTR_ARCH : UInt8 := 32

/-! ## Entries -/

/-- the name of the entry at the start of `de` -/
def entName (de : Buf) : List UInt8 := (List.range MSDOS_NAME).map de

def entAttr (de : Buf) : UInt8 := de 11

def entLcase (de : Buf) : UInt8 := de 12

/-- `IS_FREE` -/
def IsFree (de : Buf) : Prop := de 0 = 0 ∨ de 0 = DELETED_FLAG

instance (de : Buf) : Decidable (IsFree de) := inferInstanceAs (Decidable (_ ∨ _))

/-! ## From a name to an entry -/

/-- the byte of an ASCII character -/
def ch (c : Char) : UInt8 := UInt8.ofNat c.toNat

/-- the fields of `struct fat_mount_options` that names depend on -/
structure MountOptions where
  /-- relaxed, normal or strict: `r`, `n` or `s` -/
  nameCheck : UInt8
  nocase : Bool
  dotsOK : Bool
  /-- the flags for the case of short names -/
  shortname : ℕ

def badChars : List UInt8 := [ch '*', ch '?', ch '<', ch '>', ch '|', 0x22]
def badIfStrict : List UInt8 := [ch '+', ch '=', ch ',', ch ';', ch ' ']

/-- `strchr` finds the terminator, too -/
def strchr (s : List UInt8) (c : UInt8) : Prop := c ∈ s ∨ c = 0

instance (s : List UInt8) (c : UInt8) : Decidable (strchr s c) := inferInstanceAs (Decidable (_ ∨ _))

/-- the upper case that is stored, unless the mount option says to keep the case -/
def foldCase (opts : MountOptions) (c : UInt8) : UInt8 :=
  if ¬ opts.nocase ∧ ch 'a' ≤ c ∧ c ≤ ch 'z' then c - 32 else c

/-- the variables of `msdos_format_name`; `len` is the length of what is left of the name, and `walk` stands behind the
bytes written -/
structure Format where
  name : List UInt8
  res : List UInt8
  c : UInt8
  space : Bool

/-- the loop over the first 8 characters; `none` is -EINVAL -/
def formatBase (opts : MountOptions) : List UInt8 → List UInt8 → UInt8 → Bool → Option Format
  | [], res, c, space => some ⟨[], res, c, space⟩
  | a :: name, res, c, space =>
    if 8 ≤ res.length then some ⟨a :: name, res, c, space⟩
    else if opts.nameCheck ≠ ch 'r' ∧ strchr badChars a then none
    else if opts.nameCheck = ch 's' ∧ strchr badIfStrict a then none
    else if ch 'A' ≤ a ∧ a ≤ ch 'Z' ∧ opts.nameCheck = ch 's' then none
    else if a < ch ' ' ∨ a = ch ':' ∨ a = ch '\\' then none
    else
      let c := if res = [] ∧ a = 0xe5 then 0x05 else a
      if c = ch '.' then some ⟨name, res, c, space⟩
      else formatBase opts name (res ++ [foldCase opts c]) c (decide (c = ch ' '))

/-- the loop over the characters of the extension, up to the next dot; `none` is -EINVAL -/
def formatExt (opts : MountOptions) : List UInt8 → List UInt8 → Bool → Option (List UInt8 × List UInt8 × Bool)
  | [], res, space => some ([], res, space)
  | c :: name, res, space =>
    if MSDOS_NAME ≤ res.length then some (c :: name, res, space)
    else if opts.nameCheck ≠ ch 'r' ∧ strchr badChars c then none
    else if opts.nameCheck = ch 's' ∧ strchr badIfStrict c then none
    else if c < ch ' ' ∨ c = ch ':' ∨ c = ch '\\' then none
    else if c = ch '.' then if opts.nameCheck = ch 's' then none else some (name, res, space)
    else if ch 'A' ≤ c ∧ c ≤ ch 'Z' ∧ opts.nameCheck = ch 's' then none
    else formatExt opts name (res ++ [foldCase opts c]) (decide (c = ch ' '))

/-- the search for the dot, from the character `c` on -/
def skipToDot : List UInt8 → UInt8 → List UInt8 × UInt8
  | [], c => ([], c)
  | a :: name, c => if c = ch '.' then (a :: name, c) else skipToDot name a

/-- the bytes up to `n`, filled up with spaces -/
def padTo (n : ℕ) (res : List UInt8) : List UInt8 := res ++ List.replicate (n - res.length) (ch ' ')

/-- the dot of a hidden file is left out; `none` is -EINVAL -/
def stripDot (opts : MountOptions) : List UInt8 → Option (List UInt8)
  | [] => some []
  | a :: name => if a = ch '.' then if opts.dotsOK then some name else none else some (a :: name)

/-- a strict name has its dot right behind the first 8 characters; `none` is -EINVAL -/
def strictDot (opts : MountOptions) (f : Format) : Option Format :=
  match f.name with
  | [] => some f
  | a :: name =>
    if opts.nameCheck = ch 's' ∧ f.c ≠ ch '.' then
      if a = ch '.' then some { f with name := name, c := a } else none
    else some f

/-- the extension, if there is one, and the spaces behind it; `none` is -EINVAL -/
def formatRest (opts : MountOptions) (f : Format) : Option (List UInt8) :=
  let (name, c) := skipToDot f.name f.c
  if c = ch '.' then
    match formatExt opts name (padTo 8 f.res) f.space with
    | none => none
    | some (name, res, space) =>
      if space then none
      else if opts.nameCheck = ch 's' ∧ name ≠ [] then none
      else some (padTo MSDOS_NAME res)
  else some (padTo MSDOS_NAME f.res)

/-- `msdos_format_name`; `none` is -EINVAL -/
def msdosFormatName (opts : MountOptions) (name : List UInt8) : Option (List UInt8) :=
  match stripDot opts name with
  | none => none
  | some name =>
    match formatBase opts name [] 0 true with
    | none => none
    | some f =>
      if f.space then none
      else
        match strictDot opts f with
        | none => none
        | some f => formatRest opts f

/-- `is_hid` of `msdos_create`, for a name and its 11 bytes -/
def isHid (name res : List UInt8) : Bool := name.head? = some (ch '.') ∧ res.head? ≠ some (ch '.')

/-- the attributes of an entry that `msdos_add_entry` makes -/
def createAttr (isDir isHid : Bool) : UInt8 :=
  (if isDir then ATTR_DIR else ATTR_ARCH) ||| (if isHid then ATTR_HIDDEN else 0)

/-! ## The names that are accepted -/

/-- a character that both loops of `msdos_format_name` store -/
structure GoodChar (opts : MountOptions) (a : UInt8) : Prop where
  bad : ¬ (opts.nameCheck ≠ ch 'r' ∧ strchr badChars a)
  strict : ¬ (opts.nameCheck = ch 's' ∧ strchr badIfStrict a)
  upper : ¬ (ch 'A' ≤ a ∧ a ≤ ch 'Z' ∧ opts.nameCheck = ch 's')
  control : ¬ (a < ch ' ' ∨ a = ch ':' ∨ a = ch '\\')
  dot : a ≠ ch '.'

/-- what is stored for the first character of a name -/
def storeFirst (opts : MountOptions) (a : UInt8) : UInt8 := foldCase opts (if a = 0xe5 then 0x05 else a)

/-- what is stored for the first 8 characters of a name -/
def storeBase (opts : MountOptions) : List UInt8 → List UInt8
  | [] => []
  | a :: b => storeFirst opts a :: b.map (foldCase opts)

/-- a base and an extension as names are made of -/
structure NameParts (opts : MountOptions) (b e : List UInt8) : Prop where
  base_ne_nil : b ≠ []
  base_length : b.length ≤ 8
  base_good : ∀ a ∈ b, GoodChar opts a
  base_last : b.getLast? ≠ some (ch ' ')
  ext_length : e.length ≤ 3
  ext_good : ∀ a ∈ e, GoodChar opts a
  ext_last : e.getLast? ≠ some (ch ' ')

/-- the 11 bytes for a base and an extension -/
def storedName (opts : MountOptions) (b e : List UInt8) : List UInt8 :=
  padTo MSDOS_NAME (padTo 8 (storeBase opts b) ++ e.map (foldCase opts))

/-- an extension behind its dot, or nothing -/
def dotExt (e : List UInt8) : List UInt8 := if e = [] then [] else ch '.' :: e

/-- whether a space was the last character of `l`, if there was one -/
def lastSpace (space : Bool) (l : List UInt8) : Bool := l.foldl (fun _ a => decide (a = ch ' ')) space

theorem lastSpace_eq_false {space : Bool} {l : List UInt8} :
    lastSpace space l = false ↔ l.getLast? ≠ some (ch ' ') ∧ (l = [] → space = false) := by
  rcases List.eq_nil_or_concat l with rfl | ⟨l, a, rfl⟩
  · simp [lastSpace]
  · simp [lastSpace]

section
variable {opts : MountOptions} {b e name res : List UInt8} {a c : UInt8} {space : Bool}

@[simp] theorem storeBase_length (opts : MountOptions) (b : List UInt8) : (storeBase opts b).length = b.length := by
  cases b with
  | nil => rfl
  | cons a b => simp [storeBase]

theorem padTo_length {n : ℕ} (h : res.length ≤ n) : (padTo n res).length = n := by
  unfold padTo
  rw [List.length_append, List.length_replicate]
  omega

theorem padTo_padTo {m n : ℕ} (h : m ≤ n) (hres : res.length ≤ m) : padTo n (padTo m res) = padTo n res := by
  unfold padTo
  rw [List.append_assoc, ← List.replicate_add, List.length_append, List.length_replicate]
  congr 2
  omega

theorem storedName_length (h : NameParts opts b e) : (storedName opts b e).length = MSDOS_NAME := by
  have hb : (padTo 8 (storeBase opts b)).length = 8 := padTo_length (by simpa using h.base_length)
  apply padTo_length
  rw [List.length_append, hb, List.length_map]
  have := h.ext_length
  unfold MSDOS_NAME
  omega

theorem storedName_nil (hb : b.length ≤ 8) : padTo MSDOS_NAME (storeBase opts b) = storedName opts b [] := by
  unfold storedName
  rw [List.map_nil, List.append_nil, padTo_padTo (by decide) (by simpa using hb)]

/-! ### One character -/

theorem GoodChar.ne_zero (h : GoodChar opts a) : a ≠ 0 := by
  have := h.control
  unfold ch at this
  simp at this
  grind

/-- the loop over the base stores a good character behind others -/
theorem formatBase_good (h : GoodChar opts a) (hres : res.length < 8) (hne : res ≠ []) (c : UInt8) (space : Bool) :
    formatBase opts (a :: name) res c space =
      formatBase opts name (res ++ [foldCase opts a]) a (decide (a = ch ' ')) := by
  rw [formatBase, if_neg (not_le.2 hres), if_neg h.bad, if_neg h.strict, if_neg h.upper, if_neg h.control]
  simp only [hne, false_and, if_false, h.dot]

/-- the loop over the base stores a good first character -/
theorem formatBase_first (h : GoodChar opts a) (name : List UInt8) (c : UInt8) (space : Bool) :
    ∃ c', c' ≠ ch '.' ∧ formatBase opts (a :: name) [] c space =
      formatBase opts name [storeFirst opts a] c' (decide (a = ch ' ')) := by
  have hspace : (if a = 0xe5 then 0x05 else a) = ch ' ' ↔ a = ch ' ' := by
    by_cases ha : a = 0xe5
    · rw [if_pos ha, ha]
      decide
    · rw [if_neg ha]
  have hdot : (if a = 0xe5 then 0x05 else a) ≠ ch '.' := by
    by_cases ha : a = 0xe5
    · rw [if_pos ha]
      decide
    · rw [if_neg ha]
      exact h.dot
  refine ⟨_, hdot, ?_⟩
  rw [formatBase, if_neg (by simp), if_neg h.bad, if_neg h.strict, if_neg h.upper, if_neg h.control]
  simp only [true_and, hdot, if_false, hspace, List.nil_append]
  rfl

/-- the loop over the extension stores a good character -/
theorem formatExt_good (h : GoodChar opts a) (hres : res.length < MSDOS_NAME) (space : Bool) :
    formatExt opts (a :: name) res space =
      formatExt opts name (res ++ [foldCase opts a]) (decide (a = ch ' ')) := by
  rw [formatExt, if_neg (not_le.2 hres), if_neg h.bad, if_neg h.strict, if_neg h.control, if_neg h.dot, if_neg h.upper]

/-! ### Good characters are accepted -/

/-- the base, up to the end of the name or to a dot -/
theorem formatBase_append {rest : List UInt8} (hrest : rest = [] ∨ ∃ e, rest = ch '.' :: e) :
    ∀ (b res : List UInt8) (c : UInt8) (space : Bool), (∀ a ∈ b, GoodChar opts a) → res ≠ [] →
      res.length + b.length ≤ 8 → c ≠ ch '.' → ∃ f, formatBase opts (b ++ rest) res c space = some f ∧
        f.res = res ++ b.map (foldCase opts) ∧
        f.space = lastSpace space b ∧
        (f.name = rest ∧ f.c ≠ ch '.' ∨ f.c = ch '.' ∧ rest = ch '.' :: f.name) := by
  intro b
  induction b with
  | nil =>
    intro res c space _ hne hlen hc
    rcases hrest with rfl | ⟨e, rfl⟩
    · exact ⟨⟨[], res, c, space⟩, rfl, by simp, rfl, Or.inl ⟨rfl, hc⟩⟩
    · by_cases h8 : 8 ≤ res.length
      · exact ⟨⟨ch '.' :: e, res, c, space⟩, by rw [List.nil_append, formatBase, if_pos h8], by simp, rfl, Or.inl ⟨rfl, hc⟩⟩
      · refine ⟨⟨e, res, ch '.', space⟩, ?_, by simp, rfl, Or.inr ⟨rfl, rfl⟩⟩
        have hbad : ¬ (opts.nameCheck ≠ ch 'r' ∧ strchr badChars (ch '.')) := fun h => absurd h.2 (by decide)
        have hstrict : ¬ (opts.nameCheck = ch 's' ∧ strchr badIfStrict (ch '.')) := fun h => absurd h.2 (by decide)
        have hupper : ¬ (ch 'A' ≤ ch '.' ∧ ch '.' ≤ ch 'Z' ∧ opts.nameCheck = ch 's') := fun h => absurd h.1 (by decide)
        rw [List.nil_append, formatBase, if_neg h8, if_neg hbad, if_neg hstrict, if_neg hupper, if_neg (by decide)]
        simp only [hne, false_and, if_false, if_true]
  | cons a b ih =>
    intro res c space hgood hne hlen hc
    rw [List.length_cons] at hlen
    have ha := hgood a List.mem_cons_self
    obtain ⟨f, hf, hres, hspace, hor⟩ := ih (res ++ [foldCase opts a]) a (decide (a = ch ' '))
      (fun x hx => hgood x (List.mem_cons_of_mem _ hx)) (by simp)
      (by simp only [List.length_append, List.length_singleton]; omega) ha.dot
    refine ⟨f, ?_, ?_, ?_, hor⟩
    · rw [List.cons_append, formatBase_good ha (by omega) hne, hf]
    · rw [hres, List.map_cons, List.append_assoc]
      rfl
    · rw [hspace]
      rfl

/-- the extension, up to the end of the name -/
theorem formatExt_all : ∀ {e res : List UInt8} {space : Bool}, (∀ a ∈ e, GoodChar opts a) →
    res.length + e.length ≤ MSDOS_NAME →
      formatExt opts e res space = some ([], res ++ e.map (foldCase opts), lastSpace space e) := by
  intro e
  induction e with
  | nil =>
    intro res space _ _
    rw [formatExt, List.map_nil, List.append_nil]
    rfl
  | cons a e ih =>
    intro res space hgood hlen
    rw [List.length_cons] at hlen
    rw [formatExt_good (hgood a List.mem_cons_self) (by omega),
      ih (fun x hx => hgood x (List.mem_cons_of_mem _ hx)) (by simp only [List.length_append, List.length_singleton]; omega),
      List.map_cons, List.append_assoc]
    rfl

/-- the extension behind its dot -/
theorem formatRest_dotExt (h : NameParts opts b e) {f : Format} (hres : f.res = storeBase opts b) (hspace : f.space = false)
    (hor : f.name = dotExt e ∧ f.c ≠ ch '.' ∨ f.c = ch '.' ∧ f.name = e) :
    formatRest opts f = some (storedName opts b e) := by
  have hext : formatExt opts e (padTo 8 f.res) f.space =
      some ([], padTo 8 (storeBase opts b) ++ e.map (foldCase opts), false) := by
    have hlen : (padTo 8 f.res).length = 8 := padTo_length (by rw [hres]; simpa using h.base_length)
    rw [formatExt_all h.ext_good (by rw [hlen]; have := h.ext_length; unfold MSDOS_NAME; omega), hres]
    rw [lastSpace_eq_false.2 ⟨h.ext_last, fun _ => hspace⟩]
  have hdone : skipToDot f.name f.c = (e, ch '.') → formatRest opts f = some (storedName opts b e) := by
    intro hskip
    unfold formatRest
    simp only [hskip, if_true, hext, Bool.false_eq_true, if_false, ne_eq, not_true_eq_false, and_false]
    rfl
  rcases hor with ⟨hname, hc⟩ | ⟨hc, hname⟩
  · by_cases he : e = []
    · unfold dotExt at hname
      rw [if_pos he] at hname
      unfold formatRest
      simp only [hname, skipToDot, if_neg hc]
      rw [hres, storedName_nil h.base_length, he]
    · unfold dotExt at hname
      rw [if_neg he] at hname
      apply hdone
      rw [hname, skipToDot, if_neg hc]
      cases e with
      | nil => exact absurd rfl he
      | cons x e => rw [skipToDot, if_pos rfl]
  · apply hdone
    rw [hname, hc]
    cases e with
    | nil => rfl
    | cons x e => rw [skipToDot, if_pos rfl]

/-- **A base and an extension of good characters are accepted**, with a dot in front of them where that is allowed. -/
theorem msdosFormatName_join (h : NameParts opts b e) {dot : List UInt8}
    (hdot : dot = [] ∨ dot = [ch '.'] ∧ opts.dotsOK = true) :
    msdosFormatName opts (dot ++ (b ++ dotExt e)) = some (storedName opts b e) := by
  obtain ⟨a, t, rfl⟩ := List.exists_cons_of_ne_nil h.base_ne_nil
  have ha := h.base_good a List.mem_cons_self
  have hstrip : stripDot opts (dot ++ (a :: t ++ dotExt e)) = some (a :: t ++ dotExt e) := by
    rcases hdot with rfl | ⟨rfl, hok⟩
    · exact if_neg ha.dot
    · simp [stripDot, hok]
  have hrest : dotExt e = [] ∨ ∃ x, dotExt e = ch '.' :: x := by
    unfold dotExt
    split_ifs
    · exact Or.inl rfl
    · exact Or.inr ⟨e, rfl⟩
  obtain ⟨c', hc', hfirst⟩ := formatBase_first ha (t ++ dotExt e) 0 true
  have hlen := h.base_length
  rw [List.length_cons] at hlen
  obtain ⟨f, hf, hres, hspace, hor⟩ := formatBase_append hrest t [storeFirst opts a] c' (decide (a = ch ' '))
    (fun x hx => h.base_good x (List.mem_cons_of_mem _ hx)) (List.cons_ne_nil _ [])
    (by rw [List.length_singleton]; omega) hc'
  have hlast : lastSpace true (a :: t) = false :=
    lastSpace_eq_false.2 ⟨h.base_last, fun hnil => absurd hnil (List.cons_ne_nil a t)⟩
  have hspace' : f.space = false := hspace.trans hlast
  have hres' : f.res = storeBase opts (a :: t) := hres
  have hrun : formatBase opts (a :: t ++ dotExt e) [] 0 true = some f := hfirst.trans hf
  unfold msdosFormatName
  simp only [hstrip, hrun, hspace', Bool.false_eq_true, if_false]
  -- the dot, unless the loop has stepped over it
  rcases hor with ⟨hname, hc⟩ | ⟨hc, hname⟩
  · rcases hrest with hnil | ⟨x, hx⟩
    · have hstrict : strictDot opts f = some f := by
        unfold strictDot
        rw [hname, hnil]
      simp only [hstrict]
      exact formatRest_dotExt h hres' hspace' (Or.inl ⟨hname, hc⟩)
    · have hxe : x = e := by
        unfold dotExt at hx
        split_ifs at hx
        exact (List.cons.inj hx).2.symm
      by_cases hs : opts.nameCheck = ch 's'
      · have hstrict : strictDot opts f = some { f with name := e, c := ch '.' } := by
          unfold strictDot
          rw [hname, hx]
          simp only [hs, ne_eq, hc, not_false_eq_true, and_self, if_true, hxe]
        simp only [hstrict]
        exact formatRest_dotExt h hres' hspace' (Or.inr ⟨rfl, rfl⟩)
      · have hstrict : strictDot opts f = some f := by
          unfold strictDot
          rw [hname, hx]
          simp only [hs, false_and, if_false]
        simp only [hstrict]
        exact formatRest_dotExt h hres' hspace' (Or.inl ⟨hname, hc⟩)
  · have hxe : f.name = e := by
      unfold dotExt at hname
      split_ifs at hname
      exact (List.cons.inj hname).2.symm
    have hstrict : strictDot opts f = some f := by
      unfold strictDot
      cases f.name with
      | nil => rfl
      | cons x l => simp only [hc, ne_eq, not_true_eq_false, and_false, if_false]
    simp only [hstrict]
    exact formatRest_dotExt h hres' hspace' (Or.inr ⟨hc, hxe⟩)

/-! ### Only good characters are accepted -/

/-- what the loop over the base leaves, behind a first character -/
theorem formatBase_eq_some : ∀ {name res : List UInt8} {c : UInt8} {space : Bool} {f : Format}, res ≠ [] →
    res.length ≤ 8 → formatBase opts name res c space = some f → ∃ b, (∀ a ∈ b, GoodChar opts a) ∧
      res.length + b.length ≤ 8 ∧ f.res = res ++ b.map (foldCase opts) ∧ f.space = lastSpace space b := by
  intro name
  induction name with
  | nil =>
    intro res c space f _ hlen hf
    rw [formatBase, Option.some.injEq] at hf
    rw [← hf]
    exact ⟨[], by simp, by simpa using hlen, by simp, rfl⟩
  | cons a name ih =>
    intro res c space f hne hlen hf
    rw [formatBase] at hf
    simp only [hne, false_and, if_false] at hf
    split_ifs at hf with h8 h1 h2 h3 h4 h5
    · rw [Option.some.injEq] at hf
      rw [← hf]
      exact ⟨[], by simp, by simpa using hlen, by simp, rfl⟩
    · rw [Option.some.injEq] at hf
      rw [← hf]
      exact ⟨[], by simp, by simpa using hlen, by simp, rfl⟩
    · obtain ⟨b, hgood, hblen, hres, hspace⟩ := ih (by simp)
        (by simp only [List.length_append, List.length_singleton]; omega) hf
      simp only [List.length_append, List.length_singleton] at hblen
      refine ⟨a :: b, List.forall_mem_cons.2 ⟨⟨h1, h2, h3, h4, h5⟩, hgood⟩, ?_, ?_, hspace⟩
      · rw [List.length_cons]
        omega
      · rw [hres, List.append_assoc]
        rfl

/-- what the loop over the extension leaves -/
theorem formatExt_eq_some : ∀ {name res : List UInt8} {space : Bool} {r : List UInt8 × List UInt8 × Bool},
    res.length ≤ MSDOS_NAME → formatExt opts name res space = some r → ∃ e, (∀ a ∈ e, GoodChar opts a) ∧
      res.length + e.length ≤ MSDOS_NAME ∧ r.2.1 = res ++ e.map (foldCase opts) ∧ r.2.2 = lastSpace space e := by
  intro name
  induction name with
  | nil =>
    intro res space r hlen hr
    rw [formatExt, Option.some.injEq] at hr
    rw [← hr]
    exact ⟨[], by simp, by simpa using hlen, by simp, rfl⟩
  | cons a name ih =>
    intro res space r hlen hr
    rw [formatExt] at hr
    split_ifs at hr with h11 h1 h2 h4 h5 hs h3
    · rw [Option.some.injEq] at hr
      rw [← hr]
      exact ⟨[], by simp, by simpa using hlen, by simp, rfl⟩
    · rw [Option.some.injEq] at hr
      rw [← hr]
      exact ⟨[], by simp, by simpa using hlen, by simp, rfl⟩
    · obtain ⟨e, hgood, helen, hres, hspace⟩ := ih
        (by simp only [List.length_append, List.length_singleton]; omega) hr
      simp only [List.length_append, List.length_singleton] at helen
      refine ⟨a :: e, List.forall_mem_cons.2 ⟨⟨h1, h2, h3, h4, h5⟩, hgood⟩, ?_, ?_, hspace⟩
      · rw [List.length_cons]
        omega
      · rw [hres, List.append_assoc]
        rfl

/-- the first character of a base -/
theorem formatBase_start {f : Format} (hf : formatBase opts name [] 0 true = some f) (hspace : f.space = false) :
    ∃ b, b ≠ [] ∧ b.length ≤ 8 ∧ (∀ a ∈ b, GoodChar opts a) ∧ b.getLast? ≠ some (ch ' ') ∧ f.res = storeBase opts b := by
  cases name with
  | nil =>
    rw [formatBase, Option.some.injEq] at hf
    rw [← hf] at hspace
    exact absurd hspace (by simp)
  | cons a name =>
    by_cases hgood : GoodChar opts a
    · obtain ⟨c', -, hfirst⟩ := formatBase_first hgood name 0 true
      rw [hfirst] at hf
      obtain ⟨t, ht, hlen, hres, hsp⟩ := formatBase_eq_some (List.cons_ne_nil _ _) (by simp) hf
      rw [List.length_singleton] at hlen
      refine ⟨a :: t, List.cons_ne_nil a t, ?_, List.forall_mem_cons.2 ⟨hgood, ht⟩, ?_, hres⟩
      · rw [List.length_cons]
        omega
      · exact (lastSpace_eq_false.1 (show lastSpace true (a :: t) = false from hsp.symm.trans hspace)).1
    · -- a first character that is refused, or a dot
      rw [formatBase] at hf
      simp only [true_and] at hf
      split_ifs at hf with h8 h1 h2 h3 h4 h5 h6 h6
      · exact absurd h8 (by simp)
      · exact absurd h6 (by decide)
      · exact absurd (GoodChar.mk h1 h2 h3 h4 (by rw [h5]; decide)) hgood
      · rw [Option.some.injEq] at hf
        rw [← hf] at hspace
        exact absurd hspace (by simp)
      · exact absurd (GoodChar.mk h1 h2 h3 h4 h6) hgood

theorem strictDot_eq_some {f f' : Format} (h : strictDot opts f = some f') : f'.res = f.res ∧ f'.space = f.space := by
  unfold strictDot at h
  split at h
  · rw [Option.some.injEq] at h
    exact ⟨by rw [h], by rw [h]⟩
  · split_ifs at h
    · rw [Option.some.injEq] at h
      rw [← h]
      exact ⟨rfl, rfl⟩
    · rw [Option.some.injEq] at h
      exact ⟨by rw [h], by rw [h]⟩

/-- **The names that are accepted**, and the bytes that they become. -/
theorem msdosFormatName_eq_some (h : msdosFormatName opts name = some res) :
    ∃ b e, NameParts opts b e ∧ res = storedName opts b e := by
  unfold msdosFormatName at h
  cases hstrip : stripDot opts name with
  | none => simp [hstrip] at h
  | some name' =>
    cases hbase : formatBase opts name' [] 0 true with
    | none => simp [hstrip, hbase] at h
    | some f =>
      cases hspace : f.space with
      | true => simp [hstrip, hbase, hspace] at h
      | false =>
        cases hstrict : strictDot opts f with
        | none => simp [hstrip, hbase, hspace, hstrict] at h
        | some f' =>
          simp only [hstrip, hbase, hspace, hstrict, Bool.false_eq_true, if_false] at h
          obtain ⟨b, hne, hlen, hgood, hlast, hres⟩ := formatBase_start hbase hspace
          obtain ⟨hres', hspace'⟩ := strictDot_eq_some hstrict
          rw [hres] at hres'
          rw [hspace] at hspace'
          unfold formatRest at h
          generalize skipToDot f'.name f'.c = q at h
          simp only at h
          split_ifs at h with hdot
          · cases hext : formatExt opts q.1 (padTo 8 f'.res) f'.space with
            | none => simp [hext] at h
            | some r =>
              simp only [hext] at h
              split_ifs at h with hsp hs
              have hlen8 : (padTo 8 f'.res).length = 8 := padTo_length (by rw [hres']; simpa using hlen)
              obtain ⟨e, hegood, helen, heres, hesp⟩ := formatExt_eq_some (by rw [hlen8]; decide) hext
              rw [hlen8] at helen
              have hesp : lastSpace f'.space e = false := by simpa [← hesp] using hsp
              refine ⟨b, e, ⟨hne, hlen, hgood, hlast, ?_, hegood, (lastSpace_eq_false.1 hesp).1⟩, ?_⟩
              · unfold MSDOS_NAME at helen
                omega
              · rw [← Option.some.inj h, heres, hres']
                rfl
          · refine ⟨b, [], ⟨hne, hlen, hgood, hlast, by simp, by simp, by simp⟩, ?_⟩
            rw [← Option.some.inj h, hres', storedName_nil hlen]

/-- a dot at the start of an accepted name -/
theorem msdosFormatName_dot (h : msdosFormatName opts name = some res) (hdot : name.head? = some (ch '.')) :
    opts.dotsOK = true := by
  cases name with
  | nil => exact absurd hdot (by simp)
  | cons a name =>
    have ha : a = ch '.' := by simpa using hdot
    by_contra hok
    have hstrip : stripDot opts (a :: name) = none := by simp [stripDot, ha, hok]
    simp [msdosFormatName, hstrip] at h

end

end AtsLdd.Fat
