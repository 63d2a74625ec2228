/-
The names that `__fat_readdir` (fat_dir.c) lists, without vfat, and what they are as names of a user.

- `readdirName_eq_some`: the name that is listed for the bytes of a base and an extension;
- `name_round_trip`: a listed name is accepted again, for the same entry.
-/
import AtsLdd.Fat.Name

namespace AtsLdd.Fat

/-! ## From an entry to a name -/

/-- `struct nls_table`: the length of the character at the start of some bytes or a negative error, and the lower case -/
structure NlsTable where
  char2uni : List UInt8 → ℤ
  charset2lower : UInt8 → UInt8

/-- `fat_short2uni`: the length -/
def fatShort2uni (nls : NlsTable) (c : List UInt8) : ℤ := if nls.char2uni c < 0 then 1 else nls.char2uni c

/-- `fat_short2lower_uni`: the length -/
def fatShort2lowerUni (nls : NlsTable) (c : List UInt8) : ℤ :=
  let charlen := nls.char2uni c
  if charlen < 0 then 1
  else if charlen ≤ 1 then
    let nc := nls.charset2lower (c.headD 0)
    let nc := if nc = 0 then c.headD 0 else nc
    if nls.char2uni [nc] < 0 then 1 else nls.char2uni [nc]
  else charlen

def VFAT_SFN_DISPLAY_LOWER : ℕ := 1
def VFAT_SFN_DISPLAY_WIN95 : ℕ := 2
def VFAT_SFN_DISPLAY_WINNT : ℕ := 4
def CASE_LOWER_BASE : UInt8 := 8
def CASE_LOWER_EXT : UInt8 := 16

/-- `fat_shortname2uni`: the length -/
def fatShortname2uni (nls : NlsTable) (buf : List UInt8) (opt : ℕ) (lower : Bool) : ℤ :=
  if opt &&& VFAT_SFN_DISPLAY_LOWER ≠ 0 then fatShort2lowerUni nls buf
  else if opt &&& VFAT_SFN_DISPLAY_WIN95 ≠ 0 then fatShort2uni nls buf
  else if opt &&& VFAT_SFN_DISPLAY_WINNT ≠ 0 then if lower then fatShort2lowerUni nls buf else fatShort2uni nls buf
  else fatShort2uni nls buf

/-- the case that is listed -/
def showCase (opts : MountOptions) (c : UInt8) : UInt8 :=
  if ¬ opts.nocase ∧ ch 'A' ≤ c ∧ c ≤ ch 'Z' then c + 32 else c

/-- a copying loop of `__fat_readdir`: `work` is still to be copied, its first `skip` bytes as the rest of a character of
several bytes; `last` is the length without the spaces at the end -/
def copyName (opts : MountOptions) (nls : NlsTable) (lower : Bool) :
    ℕ → List UInt8 → List UInt8 → ℕ → List UInt8 × ℕ
  | _, [], ptname, last => (ptname, last)
  | skip + 1, c :: work, ptname, _ => copyName opts nls lower skip work (ptname ++ [c]) (ptname.length + 1)
  | 0, c :: work, ptname, last =>
    if c = 0 then (ptname, last)
    else
      let chl := fatShortname2uni nls (c :: work) opts.shortname lower
      if chl ≤ 1 then
        copyName opts nls lower 0 work (ptname ++ [showCase opts c])
          (if c ≠ ch ' ' then ptname.length + 1 else last)
      else copyName opts nls lower (chl.toNat - 1) work (ptname ++ [c]) (ptname.length + 1)

/-- the name that `__fat_readdir` lists for an entry, if it lists the entry -/
def readdirName (opts : MountOptions) (nls : NlsTable) (de : Buf) : Option (List UInt8) :=
  if entAttr de &&& ATTR_VOLUME ≠ 0 ∨ IsFree de then none
  else
    let dot := if opts.dotsOK ∧ entAttr de &&& ATTR_HIDDEN ≠ 0 then [ch '.'] else []
    let work := if de 0 = 0x05 then 0xe5 :: (entName de).tail else entName de
    let (ptname, last) := copyName opts nls (decide (entLcase de &&& CASE_LOWER_BASE ≠ 0)) 0 (work.take 8) [] 0
    let (ptname, last) := copyName opts nls (decide (entLcase de &&& CASE_LOWER_EXT ≠ 0)) 0 (work.drop 8)
      (ptname.take last ++ [ch '.']) last
    if last = 0 then none else some (dot ++ ptname.take last)

/-! ## What is listed -/

/-- every character of the codepage is one byte -/
def NlsTable.SingleByte (nls : NlsTable) : Prop := ∀ c, nls.char2uni c ≤ 1

section
variable {opts : MountOptions} {nls : NlsTable} {b e name res : List UInt8} {a c : UInt8}

theorem NlsTable.SingleByte.length_le (h : nls.SingleByte) (buf : List UInt8) (opt : ℕ) (lower : Bool) :
    fatShortname2uni nls buf opt lower ≤ 1 := by
  have hupper : fatShort2uni nls buf ≤ 1 := by
    unfold fatShort2uni
    split_ifs
    · exact le_rfl
    · exact h buf
  have hlower : fatShort2lowerUni nls buf ≤ 1 := by
    unfold fatShort2lowerUni
    simp only
    generalize (if nls.charset2lower (buf.headD 0) = 0 then buf.headD 0 else nls.charset2lower (buf.headD 0)) = nc
    split_ifs
    · exact le_rfl
    · exact le_rfl
    · exact h [nc]
    · exact h buf
  unfold fatShortname2uni
  split_ifs <;> assumption

/-- the copying loop, over bytes that are not 0 -/
theorem copyName_append (opts : MountOptions) (hnls : nls.SingleByte) (lower : Bool) (rest : List UInt8) :
    ∀ (work ptname : List UInt8) (last : ℕ), (∀ c ∈ work, c ≠ 0) →
      ∃ last', copyName opts nls lower 0 work ptname last = (ptname ++ work.map (showCase opts), last') ∧
        copyName opts nls lower 0 (work ++ rest) ptname last =
          copyName opts nls lower 0 rest (ptname ++ work.map (showCase opts)) last' := by
  intro work
  induction work with
  | nil =>
    intro ptname last _
    refine ⟨last, ?_, ?_⟩
    · simp [copyName]
    · simp
  | cons c work ih =>
    intro ptname last hwork
    obtain ⟨last', h1, h2⟩ := ih (ptname ++ [showCase opts c]) (if c ≠ ch ' ' then ptname.length + 1 else last)
      fun x hx => hwork x (List.mem_cons_of_mem _ hx)
    have hstep : ∀ l, copyName opts nls lower 0 (c :: l) ptname last = copyName opts nls lower 0 l
        (ptname ++ [showCase opts c]) (if c ≠ ch ' ' then ptname.length + 1 else last) := by
      intro l
      rw [copyName, if_neg (hwork c List.mem_cons_self)]
      simp only [if_pos (hnls.length_le _ _ _)]
    have happ : ptname ++ (c :: work).map (showCase opts) = ptname ++ [showCase opts c] ++ work.map (showCase opts) := by
      simp
    refine ⟨last', ?_, ?_⟩
    · rw [hstep, h1, happ]
    · rw [List.cons_append, hstep, h2, happ]

/-- the copying loop, over spaces -/
theorem copyName_spaces (hnls : nls.SingleByte) (lower : Bool) (n : ℕ) : ∀ (ptname : List UInt8) (last : ℕ),
    copyName opts nls lower 0 (List.replicate n (ch ' ')) ptname last =
      (ptname ++ (List.replicate n (ch ' ')).map (showCase opts), last) := by
  induction n with
  | zero => simp [copyName]
  | succ n ih =>
    intro ptname last
    rw [List.replicate_succ, copyName, if_neg (by decide)]
    simp only [if_pos (hnls.length_le _ _ _), ne_eq, not_true_eq_false, if_false]
    rw [ih, List.map_cons, List.append_assoc]
    rfl

/-- **The copying loop**: `last` is the length up to the spaces at the end, unless there is nothing else. -/
theorem copyName_padTo (hnls : nls.SingleByte) (lower : Bool) {n : ℕ} {work ptname : List UInt8} {last : ℕ}
    (hwork : ∀ c ∈ work, c ≠ 0) (hlast : work.getLast? ≠ some (ch ' ')) :
    copyName opts nls lower 0 (padTo n work) ptname last = (ptname ++ (padTo n work).map (showCase opts),
      if work = [] then last else ptname.length + work.length) := by
  obtain ⟨last', h1, h2⟩ := copyName_append opts hnls lower (List.replicate (n - work.length) (ch ' ')) work ptname last hwork
  unfold padTo
  rw [h2, copyName_spaces hnls, List.map_append, List.append_assoc]
  apply congrArg (Prod.mk _)
  rcases List.eq_nil_or_concat work with rfl | ⟨l, c, rfl⟩
  · rw [if_pos rfl]
    have hnil := (Prod.mk.inj h1).2
    exact hnil.symm
  · -- the last byte is not a space
    have hc : c ≠ ch ' ' := by simpa using hlast
    rw [List.concat_eq_append] at h1 ⊢
    obtain ⟨l', -, h3⟩ := copyName_append opts hnls lower [c] l ptname last fun x hx => hwork x (by simp [hx])
    rw [h3, copyName, if_neg (hwork c (by simp))] at h1
    simp only [if_pos (hnls.length_le _ _ _), ne_eq, hc, not_false_eq_true, if_true, copyName] at h1
    rw [if_neg (by simp), ← (Prod.mk.inj h1).2]
    simp only [List.length_append, List.length_map, List.length_singleton]
    omega

/-- a listed character is the one of the name, or the lower case of it -/
theorem showCase_foldCase (opts : MountOptions) (a : UInt8) : showCase opts (foldCase opts a) = a ∨
    ¬ opts.nocase = true ∧ ch 'A' ≤ a ∧ a ≤ ch 'Z' ∧ showCase opts (foldCase opts a) = a + 32 := by
  have hA : ch 'A' = 65 := by decide
  have hZ : ch 'Z' = 90 := by decide
  have ha : ch 'a' = 97 := by decide
  have hz : ch 'z' = 122 := by decide
  unfold showCase foldCase
  rw [hA, hZ, ha, hz]
  grind

theorem foldCase_showCase (opts : MountOptions) (a : UInt8) :
    foldCase opts (showCase opts (foldCase opts a)) = foldCase opts a := by
  have hA : ch 'A' = 65 := by decide
  have hZ : ch 'Z' = 90 := by decide
  have ha : ch 'a' = 97 := by decide
  have hz : ch 'z' = 122 := by decide
  unfold showCase foldCase
  rw [hA, hZ, ha, hz]
  grind

/-- a lower case letter is not one of the characters that are refused -/
theorem lower_not_refused (hA : ch 'A' ≤ a) (hZ : a ≤ ch 'Z') : ¬ strchr badChars (a + 32) ∧
    ¬ strchr badIfStrict (a + 32) ∧ ¬ (a + 32 < ch ' ' ∨ a + 32 = ch ':' ∨ a + 32 = ch '\\') ∧ a + 32 ≠ ch '.' ∧
    ¬ (ch 'A' ≤ a + 32 ∧ a + 32 ≤ ch 'Z') ∧ a + 32 ≠ ch ' ' ∧ a + 32 ≠ 0xe5 := by
  have hlow : 97 ≤ a + 32 ∧ a + 32 ≤ 122 := by
    unfold ch at hA hZ
    simp at hA hZ
    grind
  generalize a + 32 = x at hlow
  obtain ⟨h1, h2⟩ := hlow
  unfold strchr badChars badIfStrict ch
  simp only [List.mem_cons, List.not_mem_nil, or_false]
  refine ⟨?_, ?_, ?_, ?_, ?_, ?_, ?_⟩ <;> (simp; grind)

/-- **A listed character is good again.** -/
theorem GoodChar.relist (h : GoodChar opts a) : GoodChar opts (showCase opts (foldCase opts a)) := by
  rcases showCase_foldCase opts a with heq | ⟨-, hA, hZ, heq⟩
  · rw [heq]
    exact h
  · obtain ⟨h1, h2, h3, h4, h5, -⟩ := lower_not_refused hA hZ
    rw [heq]
    exact ⟨fun h => h1 h.2, fun h => h2 h.2, fun h => h5 ⟨h.1, h.2.1⟩, h3, h4⟩

theorem relist_eq_space : showCase opts (foldCase opts a) = ch ' ' ↔ a = ch ' ' := by
  rcases showCase_foldCase opts a with heq | ⟨-, hA, hZ, heq⟩
  · rw [heq]
  · obtain ⟨-, -, -, -, -, h6, -⟩ := lower_not_refused hA hZ
    rw [heq]
    apply iff_of_false h6
    rintro rfl
    exact absurd hA (by decide)

theorem relist_eq_e5 : showCase opts (foldCase opts a) = 0xe5 ↔ a = 0xe5 := by
  rcases showCase_foldCase opts a with heq | ⟨-, hA, hZ, heq⟩
  · rw [heq]
  · obtain ⟨-, -, -, -, -, -, h7⟩ := lower_not_refused hA hZ
    rw [heq]
    apply iff_of_false h7
    rintro rfl
    exact absurd hZ (by decide)

/-- what is stored for a good character -/
theorem GoodChar.foldCase (h : GoodChar opts a) :
    Fat.foldCase opts a ≠ 0 ∧ Fat.foldCase opts a ≠ 0x05 ∧ (Fat.foldCase opts a = 0xe5 ↔ a = 0xe5) ∧
      (Fat.foldCase opts a = ch ' ' ↔ a = ch ' ') ∧ Fat.foldCase opts a ≠ ch '.' := by
  have hctl := h.control
  have hdot := h.dot
  unfold Fat.foldCase ch at *
  simp at *
  grind

theorem storeFirst_eq_e5 : storeFirst opts 0xe5 = 0x05 := by
  unfold storeFirst foldCase
  rw [if_pos rfl, if_neg]
  rintro ⟨-, h, -⟩
  exact absurd h (by decide)

theorem storeFirst_of_ne (h : a ≠ 0xe5) : storeFirst opts a = foldCase opts a := by
  unfold storeFirst
  rw [if_neg h]

/-- the first stored byte -/
theorem GoodChar.storeFirst (h : GoodChar opts a) :
    Fat.storeFirst opts a ≠ 0 ∧ Fat.storeFirst opts a ≠ 0xe5 ∧ (Fat.storeFirst opts a = 0x05 ↔ a = 0xe5) ∧
      (Fat.storeFirst opts a = ch ' ' ↔ a = ch ' ') ∧ Fat.storeFirst opts a ≠ ch '.' := by
  by_cases ha : a = 0xe5
  · rw [ha, storeFirst_eq_e5]
    decide
  · obtain ⟨h1, h2, h3, h4, h5⟩ := h.foldCase
    rw [storeFirst_of_ne ha]
    exact ⟨h1, fun h => ha (h3.1 h), iff_of_false h2 ha, h4, h5⟩

/-- the listed base, stored again -/
theorem storeBase_relist (opts : MountOptions) (b : List UInt8) :
    storeBase opts (b.map fun a => showCase opts (foldCase opts a)) = storeBase opts b := by
  cases b with
  | nil => rfl
  | cons a b =>
    have hrest : ∀ x : UInt8, (foldCase opts ∘ fun a => showCase opts (foldCase opts a)) x = foldCase opts x :=
      fun x => foldCase_showCase opts x
    have hfirst : storeFirst opts (showCase opts (foldCase opts a)) = storeFirst opts a := by
      by_cases ha : a = 0xe5
      · rw [relist_eq_e5.2 ha, ha]
      · rw [storeFirst_of_ne fun h => ha (relist_eq_e5.1 h), storeFirst_of_ne ha, foldCase_showCase]
    rw [List.map_cons, storeBase, storeBase, List.map_map, hfirst, List.map_congr_left fun x _ => hrest x]

theorem getLast?_relist {l : List UInt8} (h : l.getLast? ≠ some (ch ' ')) :
    (l.map fun a => showCase opts (foldCase opts a)).getLast? ≠ some (ch ' ') := by
  rw [List.getLast?_map]
  intro hl
  obtain ⟨x, hx, hxs⟩ := Option.map_eq_some_iff.1 hl
  exact h (hx.trans (congrArg some (relist_eq_space.1 hxs)))

/-- **A listed base and extension** are a base and an extension again. -/
theorem NameParts.relist (h : NameParts opts b e) : NameParts opts (b.map fun a => showCase opts (foldCase opts a))
    (e.map fun a => showCase opts (foldCase opts a)) where
  base_ne_nil := fun hnil => h.base_ne_nil (List.map_eq_nil_iff.1 hnil)
  base_length := by simpa using h.base_length
  base_good := by
    intro x hx
    obtain ⟨a, ha, rfl⟩ := List.mem_map.1 hx
    exact (h.base_good a ha).relist
  base_last := getLast?_relist h.base_last
  ext_length := by simpa using h.ext_length
  ext_good := by
    intro x hx
    obtain ⟨a, ha, rfl⟩ := List.mem_map.1 hx
    exact (h.ext_good a ha).relist
  ext_last := getLast?_relist h.ext_last

theorem storedName_relist (opts : MountOptions) (b e : List UInt8) :
    storedName opts (b.map fun a => showCase opts (foldCase opts a)) (e.map fun a => showCase opts (foldCase opts a)) =
      storedName opts b e := by
  have hrest : ∀ x : UInt8, (foldCase opts ∘ fun a => showCase opts (foldCase opts a)) x = foldCase opts x :=
    fun x => foldCase_showCase opts x
  unfold storedName
  rw [storeBase_relist, List.map_map, List.map_congr_left fun x _ => hrest x]

/-! ## The round trip -/

/-- the bytes of an entry, with the first one as it was in the name -/
theorem work_storedName {de : Buf} (h : NameParts opts b e) (hname : entName de = storedName opts b e) :
    (if de 0 = 0x05 then 0xe5 :: (entName de).tail else entName de) =
      padTo 8 (b.map (foldCase opts)) ++ padTo 3 (e.map (foldCase opts)) := by
  obtain ⟨a, t, rfl⟩ := List.exists_cons_of_ne_nil h.base_ne_nil
  have ha := h.base_good a List.mem_cons_self
  have hlen := h.base_length
  rw [List.length_cons] at hlen
  have hstored : entName de = storeFirst opts a :: (t.map (foldCase opts) ++
      List.replicate (7 - t.length) (ch ' ') ++ padTo 3 (e.map (foldCase opts))) := by
    have hsub : 8 - (t.length + 1) = 7 - t.length := by omega
    have hsub3 : 10 - (t.length + (7 - t.length + e.length)) = 3 - e.length := by omega
    rw [hname]
    unfold storedName padTo MSDOS_NAME
    simp [storeBase, hsub, hsub3]
  have hhead : de 0 = storeFirst opts a := by
    have h0 : (entName de).head? = some (de 0) := rfl
    rw [hstored] at h0
    simpa using h0.symm
  have hpad : padTo 8 ((a :: t).map (foldCase opts)) =
      foldCase opts a :: (t.map (foldCase opts) ++ List.replicate (7 - t.length) (ch ' ')) := by
    have hsub : 8 - (t.length + 1) = 7 - t.length := by omega
    unfold padTo
    simp [hsub]
  rw [hhead, hpad, hstored, List.tail_cons, List.cons_append]
  by_cases hae : a = 0xe5
  · have hfold : foldCase opts a = 0xe5 := (ha.foldCase.2.2.1).2 hae
    rw [if_pos (ha.storeFirst.2.2.1.2 hae), hfold]
  · rw [if_neg fun h5 => hae (ha.storeFirst.2.2.1.1 h5), storeFirst_of_ne hae]

/-- the stored characters, in the copying loop -/
theorem stored_chars {l : List UInt8} (hgood : ∀ a ∈ l, GoodChar opts a) (hlast : l.getLast? ≠ some (ch ' ')) :
    (∀ c ∈ l.map (foldCase opts), c ≠ 0) ∧ (l.map (foldCase opts)).getLast? ≠ some (ch ' ') := by
  constructor
  · intro c hc
    obtain ⟨a, ha, rfl⟩ := List.mem_map.1 hc
    exact (hgood a ha).foldCase.1
  · rw [List.getLast?_map]
    intro hl
    obtain ⟨x, hx, hxs⟩ := Option.map_eq_some_iff.1 hl
    exact hlast (hx.trans (congrArg some ((hgood x (List.mem_of_getLast? hx)).foldCase.2.2.2.1.1 hxs)))

theorem isFree_storedName {de : Buf} (h : NameParts opts b e) (hname : entName de = storedName opts b e) : ¬ IsFree de := by
  obtain ⟨a, t, rfl⟩ := List.exists_cons_of_ne_nil h.base_ne_nil
  have ha := h.base_good a List.mem_cons_self
  have hhead : de 0 = storeFirst opts a := by
    have h0 : (entName de).head? = some (de 0) := rfl
    rw [hname] at h0
    simpa [storedName, padTo, storeBase] using h0.symm
  unfold IsFree DELETED_FLAG
  rw [hhead, not_or]
  exact ⟨ha.storeFirst.1, ha.storeFirst.2.1⟩

/-- **The listed name** of an entry with the bytes of a base and an extension. -/
theorem readdirName_eq_some (hnls : nls.SingleByte) {de : Buf} (h : NameParts opts b e)
    (hname : entName de = storedName opts b e) (hvol : entAttr de &&& ATTR_VOLUME = 0) :
    readdirName opts nls de = some ((if opts.dotsOK ∧ entAttr de &&& ATTR_HIDDEN ≠ 0 then [ch '.'] else []) ++
      ((b.map fun a => showCase opts (foldCase opts a)) ++ dotExt (e.map fun a => showCase opts (foldCase opts a)))) := by
  have hno : ¬ (entAttr de &&& ATTR_VOLUME ≠ 0 ∨ IsFree de) := fun hor =>
    hor.elim (fun hv => hv hvol) (isFree_storedName h hname)
  have hb8 : (padTo 8 (b.map (foldCase opts))).length = 8 := padTo_length (by simpa using h.base_length)
  obtain ⟨hb0, hblast⟩ := stored_chars h.base_good h.base_last
  obtain ⟨he0, helast⟩ := stored_chars h.ext_good h.ext_last
  have hbne : b.map (foldCase opts) ≠ [] := fun hnil => h.base_ne_nil (List.map_eq_nil_iff.1 hnil)
  have htake : ((padTo 8 (b.map (foldCase opts))).map (showCase opts)).take b.length =
      b.map fun a => showCase opts (foldCase opts a) := by
    unfold padTo
    rw [List.map_append, List.map_map, List.take_left' (List.length_map _)]
    rfl
  unfold readdirName
  rw [if_neg hno, work_storedName h hname]
  simp only [List.take_left' hb8, List.drop_left' hb8]
  rw [copyName_padTo hnls _ hb0 hblast, if_neg hbne]
  simp only [List.nil_append, List.length_nil, Nat.zero_add, List.length_map, htake]
  rw [copyName_padTo hnls _ he0 helast]
  simp only [List.length_append, List.length_map, List.length_singleton, List.map_eq_nil_iff]
  have hbpos : b.length ≠ 0 := fun h0 => h.base_ne_nil (List.length_eq_zero_iff.1 h0)
  by_cases he : e = []
  · subst he
    rw [if_pos rfl, if_neg hbpos, List.append_assoc, List.take_left' (List.length_map _)]
    simp [dotExt]
  · have hext : dotExt (e.map fun a => showCase opts (foldCase opts a)) =
        ch '.' :: e.map fun a => showCase opts (foldCase opts a) := if_neg fun hnil => he (List.map_eq_nil_iff.1 hnil)
    have hlen : ((b.map fun a => showCase opts (foldCase opts a)) ++ [ch '.'] ++
        (e.map (foldCase opts)).map (showCase opts)).length = b.length + 1 + e.length := by
      simp only [List.length_append, List.length_map, List.length_singleton]
    rw [if_neg he, if_neg (show b.length + 1 + e.length ≠ 0 by omega), hext]
    unfold padTo
    rw [List.map_append, ← List.append_assoc, List.take_left' hlen, List.map_map, List.append_assoc, List.singleton_append]
    rfl

/-- the hidden bit of an entry that is made for a name -/
theorem createAttr_hidden (isDir hid : Bool) : (createAttr isDir hid &&& ATTR_HIDDEN ≠ 0 ↔ hid = true) ∧
    createAttr isDir hid &&& ATTR_VOLUME = 0 := by
  cases isDir <;> cases hid <;> decide

/-- **Names survive the round trip** from a name to an entry, to the listed name, and to an entry again. -/
theorem name_round_trip {opts : MountOptions} {nls : NlsTable} (hnls : nls.SingleByte) {name res : List UInt8}
    (h : msdosFormatName opts name = some res) :
    res.length = MSDOS_NAME ∧ res.head? ≠ some 0 ∧ res.head? ≠ some DELETED_FLAG ∧
      ∀ de : Buf, entName de = res → entAttr de = createAttr false (isHid name res) →
        ∃ name', readdirName opts nls de = some name' ∧ msdosFormatName opts name' = some res ∧
          isHid name' res = isHid name res := by
  obtain ⟨b, e, hparts, hres⟩ := msdosFormatName_eq_some h
  obtain ⟨a, t, rfl⟩ := List.exists_cons_of_ne_nil hparts.base_ne_nil
  have ha := hparts.base_good a List.mem_cons_self
  have hhead : res.head? = some (storeFirst opts a) := by
    rw [hres]
    rfl
  have hnodot : res.head? ≠ some (ch '.') := by
    rw [hhead]
    intro hd
    exact ha.storeFirst.2.2.2.2 (Option.some.inj hd)
  refine ⟨hres ▸ storedName_length hparts, ?_, ?_, ?_⟩
  · rw [hhead]
    intro h0
    exact ha.storeFirst.1 (Option.some.inj h0)
  · rw [hhead]
    intro h0
    exact ha.storeFirst.2.1 (Option.some.inj h0)
  intro de hname hattr
  obtain ⟨hhid, hvol⟩ := createAttr_hidden false (isHid name res)
  rw [← hattr] at hhid hvol
  have hlist := readdirName_eq_some hnls hparts (hname.trans hres) hvol
  have hisHid : ∀ n : List UInt8, isHid n res = decide (n.head? = some (ch '.')) := by
    intro n
    unfold isHid
    simp only [ne_eq, hnodot, not_false_eq_true, and_true]
  refine ⟨_, hlist, ?_, ?_⟩
  · rw [hres, ← storedName_relist opts (a :: t) e]
    apply msdosFormatName_join hparts.relist
    split_ifs with hdot
    · exact Or.inr ⟨rfl, hdot.1⟩
    · exact Or.inl rfl
  · rw [hisHid, hisHid]
    by_cases hdot : name.head? = some (ch '.')
    · have hok := msdosFormatName_dot h hdot
      have hbit : isHid name res = true := (hisHid name).trans (decide_eq_true hdot)
      rw [if_pos ⟨hok, hhid.2 hbit⟩, decide_eq_true hdot]
      rfl
    · have hbit : isHid name res = false := (hisHid name).trans (decide_eq_false hdot)
      have hno : ¬ (opts.dotsOK = true ∧ entAttr de &&& ATTR_HIDDEN ≠ 0) := by
        rintro ⟨-, hbits⟩
        rw [hhid.1 hbits] at hbit
        exact absurd hbit (by simp)
      have hgood := hparts.relist.base_good (showCase opts (foldCase opts a)) (by simp)
      rw [if_neg hno, decide_eq_false hdot]
      refine decide_eq_false fun hd => hgood.dot ?_
      simpa using hd

end

/-- the options of a mount with `dotsOK` -/
def dotsOptions : MountOptions := ⟨ch 'n', false, true, 0⟩

/-- the entry of the hidden file `.a` -/
def hiddenEntry : Buf := fun i => if i = 0 then ch 'A' else if i < 11 then ch ' ' else if i = 11 then 0x22 else 0

/-- the hidden file `.a` is listed with its dot -/
theorem name_round_trip_hidden : ∃ name', readdirName dotsOptions ⟨fun _ => 1, fun _ => 0⟩ hiddenEntry = some name' ∧
    msdosFormatName dotsOptions name' = some (entName hiddenEntry) ∧ isHid name' (entName hiddenEntry) = true :=
  (name_round_trip (fun _ => le_rfl) (show msdosFormatName dotsOptions [ch '.', ch 'a'] = some (entName hiddenEntry) from
    by decide)).2.2.2 hiddenEntry rfl (by decide)

end AtsLdd.Fat
