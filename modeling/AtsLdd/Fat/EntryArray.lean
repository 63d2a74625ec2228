/-
The FAT as callers use it through a cursor (fat_entry.c): `fat_ent_read` and `fat32_ent_put`, `fatent_next_sb`, and
stepping with `fat_ent_next`.

`Reads sb s d w` says what entry `d` is in state `s`: every read of it, with any cursor and any device, answers `w`,
unless a block that the cursor does not hold cannot be read.

- `fatEntNexts_eq`: stepping goes on as far as the block and the volume do;
- `arrayStore_iff`: a store through a positioned cursor is one to an array if and only if the value is not the bad mark,
  which only the largest volume has as a cluster number;
- `store_bad_not_read`: there it is read back as the end of a chain.
-/
import AtsLdd.Fat.Mirror
import AtsLdd.Fat.Chains

namespace AtsLdd.Fat

open AtsLdd.Machine AtsLdd.ByteMap

/-! ## What an entry reads as -/

/-- every read of entry `d` answers `w`, or fails because a block that is not held cannot be read -/
structure Reads (sb : FatSb) (s : St) (d w : ℤ) : Prop where
  entRead : ∀ (env : Env) (e : FatEntry), (fatEntRead env sb s e d).1 = w ∨
    (fatEntRead env sb s e d).1 = - EIO ∧ e.bh ≠ some (fatEntBlocknr sb d).2 ∧
      env.bread s.t (fatEntBlocknr sb d).2 = false
  nextSb : ∀ env : Env, (fatentNextSb env sb s d).1 = some w ∨
    (fatentNextSb env sb s d).1 = none ∧ env.bread s.t (fatEntBlocknr sb d).2 = false

section
variable {sb : FatSb} {c d v w : ℤ}

/-- what a read of an entry answers, and where it leaves the cursor -/
theorem fatEntRead_answer (env : Env) (s : St) (e : FatEntry) (hc : InRange sb c) :
    (fatEntRead env sb s e c).1 = fatLink sb s.vol c ∧ (fatEntRead env sb s e c).2.1.At sb c ∨
      (fatEntRead env sb s e c).1 = - EIO ∧ e.bh ≠ some (fatEntBlocknr sb c).2 ∧
        env.bread s.t (fatEntBlocknr sb c).2 = false := by
  obtain ⟨v, e', s', hread, -, hres⟩ := fatEntRead_spec env s e hc
  rw [hread]
  exact hres

/-- an entry of the volume reads as its link -/
theorem reads_fatLink (s : St) (hd : InRange sb d) : Reads sb s d (fatLink sb s.vol d) := by
  constructor
  · intro env e
    rcases fatEntRead_answer env s e hd with ⟨hv, -⟩ | herr
    · exact Or.inl hv
    · exact Or.inr herr
  · intro env
    obtain ⟨s', -, -, ⟨hr, -, -⟩ | ⟨hr, hb, -⟩⟩ := fatentNextSb_spec env sb s d
    · exact Or.inl (congrArg Prod.fst hr)
    · exact Or.inr ⟨congrArg Prod.fst hr, hb⟩

/-- a cursor that holds the block of the entry reads its link -/
theorem Reads.unique {s : St} (h : Reads sb s d w) (hd : InRange sb d) : w = fatLink sb s.vol d := by
  have hheld : (⟨d, some (fatEntBlocknr sb d).2, none⟩ : FatEntry).bh = some (fatEntBlocknr sb d).2 := rfl
  rcases fatEntRead_answer goodEnv s ⟨d, some (fatEntBlocknr sb d).2, none⟩ hd with ⟨hv, -⟩ | ⟨-, hne, -⟩
  · rcases h.entRead goodEnv ⟨d, some (fatEntBlocknr sb d).2, none⟩ with hw | ⟨-, hne, -⟩
    · exact hw.symm.trans hv
    · exact absurd hheld hne
  · exact absurd hheld hne

/-! ## Stepping -/

/-- `n` steps of `fat_ent_next`, while it answers 1 -/
def fatEntNexts (sb : FatSb) : ℕ → FatEntry → Option FatEntry
  | 0, e => some e
  | n + 1, e =>
    match fatEntNext sb e with
    | (true, e) => fatEntNexts sb n e
    | (false, _) => none

/-- the entry is in the block of entry `c`, and in the volume -/
def SameBlock (sb : FatSb) (c d : ℤ) : Prop := InRange sb d ∧ (fatEntBlocknr sb d).2 = (fatEntBlocknr sb c).2

theorem sameBlock_iff {k j : ℕ} (hk : k < sb.maxCluster) (hj : 2 ≤ j) :
    SameBlock sb k j ↔ j < sb.maxCluster ∧ 4 * j / sb.blocksize = 4 * k / sb.blocksize := by
  constructor
  · rintro ⟨hin, hblk⟩
    have hlt : j < sb.maxCluster := by have := hin.2; omega
    rw [(fatEntBlocknr_spec sb hk).1, (fatEntBlocknr_spec sb hlt).1] at hblk
    exact ⟨hlt, Nat.add_left_cancel hblk⟩
  · rintro ⟨hlt, hdiv⟩
    refine ⟨⟨?_, by omega⟩, ?_⟩
    · unfold FAT_START_ENT; omega
    · rw [(fatEntBlocknr_spec sb hk).1, (fatEntBlocknr_spec sb hlt).1, hdiv]

/-- **One step** succeeds if and only if the next entry is in the same block and in the volume. -/
theorem fatEntNext_iff {e : FatEntry} (hc : InRange sb c) (h : e.At sb c) :
    (fatEntNext sb e).1 = true ↔ SameBlock sb c (c + 1) := by
  constructor
  · intro hmore
    obtain ⟨hin, hat⟩ := (fatEntNext_spec hc h).2 hmore
    refine ⟨hin, ?_⟩
    have hheld : (fatEntNext sb e).2.bh = e.bh := by
      unfold fatEntNext fat32EntNext
      rw [h.ptr]
      simp only
      split_ifs
      · rfl
      · rfl
    rw [hat.bh, h.bh] at hheld
    exact Option.some.inj hheld
  · intro hsame
    obtain ⟨k, rfl, hk2, hk⟩ := inRange_natCast hc
    have hsucc : ((k : ℤ) + 1) = ((k + 1 : ℕ) : ℤ) := by push_cast; rfl
    rw [hsucc] at hsame
    obtain ⟨hlt, hdiv⟩ := (sameBlock_iff hk (by omega)).1 hsame
    have hptr := h.ptr
    rw [(fatEntBlocknr_spec sb hk).1] at hptr
    have hdm := Nat.div_add_mod (4 * k) sb.blocksize
    have hdm' := Nat.div_add_mod (4 * (k + 1)) sb.blocksize
    have hml := Nat.mod_lt (4 * (k + 1)) sb.blocksize_pos
    rw [hdiv] at hdm'
    have hoff : 4 * k % sb.blocksize < sb.blocksize - 4 := by omega
    unfold fatEntNext fat32EntNext
    simp only [hptr, if_pos hoff, h.entry, Bool.true_and, decide_eq_true_eq]
    omega

/-- an entry between two of one block is in it -/
theorem SameBlock.between {n : ℕ} (hc : InRange sb c) :
    SameBlock sb c (c + (n + 1 : ℕ)) ↔ SameBlock sb c (c + 1) ∧ SameBlock sb (c + 1) (c + 1 + n) := by
  obtain ⟨k, rfl, hk2, hk⟩ := inRange_natCast hc
  have h1 : ((k : ℤ) + 1) = ((k + 1 : ℕ) : ℤ) := by push_cast; rfl
  have h2 : ((k : ℤ) + (n + 1 : ℕ)) = ((k + 1 + n : ℕ) : ℤ) := by push_cast; ring
  have h3 : (((k + 1 : ℕ) : ℤ) + n) = ((k + 1 + n : ℕ) : ℤ) := by push_cast; ring
  rw [h1, h2, h3, sameBlock_iff hk (by omega), sameBlock_iff hk (by omega)]
  have hle1 : 4 * k / sb.blocksize ≤ 4 * (k + 1) / sb.blocksize := Nat.div_le_div_right (by omega)
  have hle2 : 4 * (k + 1) / sb.blocksize ≤ 4 * (k + 1 + n) / sb.blocksize := Nat.div_le_div_right (by omega)
  constructor
  · rintro ⟨hlt, hdiv⟩
    have hk1 : k + 1 < sb.maxCluster := by omega
    refine ⟨⟨hk1, by omega⟩, (sameBlock_iff hk1 (by omega)).2 ⟨hlt, by omega⟩⟩
  · rintro ⟨⟨hk1, hdiv1⟩, hrest⟩
    obtain ⟨hlt, hdiv2⟩ := (sameBlock_iff hk1 (by omega)).1 hrest
    exact ⟨hlt, hdiv2.trans hdiv1⟩

/-- **Stepping** `n` times reaches the n-th entry on, exactly while it is in the block and in the volume. -/
theorem fatEntNexts_eq (n : ℕ) : ∀ {c : ℤ} {e : FatEntry}, InRange sb c → e.At sb c →
    (SameBlock sb c (c + n) → ∃ e', fatEntNexts sb n e = some e' ∧ e'.At sb (c + n)) ∧
      (¬ SameBlock sb c (c + n) → fatEntNexts sb n e = none) := by
  induction n with
  | zero =>
    intro c e hc h
    have hzero : c + ((0 : ℕ) : ℤ) = c := by simp
    rw [hzero]
    exact ⟨fun _ => ⟨e, rfl, h⟩, fun hno => absurd ⟨hc, rfl⟩ hno⟩
  | succ n ih =>
    intro c e hc h
    have hnext := fatEntNext_iff hc h
    rw [SameBlock.between hc]
    simp only [fatEntNexts]
    cases hmore : (fatEntNext sb e).1 with
    | true =>
      obtain ⟨hin, hat⟩ := (fatEntNext_spec hc h).2 hmore
      have hstep : fatEntNext sb e = (true, (fatEntNext sb e).2) := Prod.ext hmore rfl
      have hidx : c + ((n + 1 : ℕ) : ℤ) = c + 1 + n := by push_cast; ring
      obtain ⟨hyes, hno⟩ := ih hin hat
      rw [hstep, hidx]
      simp only
      exact ⟨fun hs => hyes hs.2, fun hs => hno fun h' => hs ⟨hnext.1 hmore, h'⟩⟩
    | false =>
      have hstep : fatEntNext sb e = (false, (fatEntNext sb e).2) := Prod.ext hmore rfl
      rw [hstep]
      refine ⟨fun hs => ?_, fun _ => rfl⟩
      rw [hnext.2 hs.1] at hmore
      cases hmore

/-! ## A store -/

/-- the state after `fat_ent_read` of entry `c` with cursor `e`, and `fat32_ent_put` of `v` -/
def storeAt (env : Env) (sb : FatSb) (s : St) (e : FatEntry) (c v : ℤ) : St :=
  (fatEntRead env sb s e c).2.1.put (fatEntRead env sb s e c).2.2 v

/-- the cursor by then -/
def cursorAfter (env : Env) (sb : FatSb) (s : St) (e : FatEntry) (c : ℤ) : FatEntry := (fatEntRead env sb s e c).2.1

/-- the store is one to an array: it is read back, no other entry changes, the top 4 bits of the word stay, and stepping
visits the entries behind it, each with its own value, up to the end of the block or of the volume -/
structure ArrayStore (env : Env) (sb : FatSb) (s : St) (e : FatEntry) (c v : ℤ) : Prop where
  same : Reads sb (storeAt env sb s e c v) c v
  others : ∀ d, InRange sb d → d ≠ c → ∃ w, Reads sb s d w ∧ Reads sb (storeAt env sb s e c v) d w
  top : fatTop sb (storeAt env sb s e c v).vol c = fatTop sb s.vol c
  visits : ∀ n : ℕ, SameBlock sb c (c + n) → ∃ e', fatEntNexts sb n (cursorAfter env sb s e c) = some e' ∧
    e'.entry = c + n ∧ Reads sb (storeAt env sb s e c v) (c + n) (e'.get (storeAt env sb s e c v))
  stops : ∀ n : ℕ, ¬ SameBlock sb c (c + n) → fatEntNexts sb n (cursorAfter env sb s e c) = none

/-- the values that callers store -/
def Stored (sb : FatSb) (v : ℤ) : Prop := v = FAT_ENT_FREE ∨ v = FAT_ENT_EOF ∨ InRange sb v

theorem Stored.storable (h : Stored sb v) : Storable v := by
  rcases h with rfl | rfl | h
  · exact Storable.free
  · exact Storable.eof
  · exact h.storable

/-- only the bad mark is not read back -/
theorem Stored.readBack_iff (h : Stored sb v) : readBack v = v ↔ v ≠ BAD_FAT32 := by
  rcases h with rfl | rfl | h
  · exact iff_of_true readBack_free (by decide)
  · exact iff_of_true readBack_eof (by decide)
  · obtain ⟨k, rfl, hk2, hk⟩ := inRange_natCast h
    have hmax := sb.maxCluster_max
    unfold MAX_FAT32 at hmax
    constructor
    · intro hback hbad
      rw [hbad] at hback
      exact absurd hback (by decide)
    · intro hne
      refine readBack_of_lt (lt_of_le_of_ne ?_ hne)
      unfold BAD_FAT32
      omega

section
variable {env : Env} {s : St} {e : FatEntry}

theorem cursorAfter_at (hc : InRange sb c) (hread : (fatEntRead env sb s e c).1 ≠ - EIO) :
    (cursorAfter env sb s e c).At sb c := by
  rcases fatEntRead_answer env s e hc with ⟨-, hat⟩ | ⟨herr, -⟩
  · exact hat
  · exact absurd herr hread

/-- the volume after the store -/
theorem storeAt_vol (hc : InRange sb c) (hread : (fatEntRead env sb s e c).1 ≠ - EIO) :
    (storeAt env sb s e c v).vol = fatPut sb s.vol c v := by
  have hat := cursorAfter_at hc hread
  have hput : storeAt env sb s e c v = _ := hat.put (fatEntRead env sb s e c).2.2 v
  rw [hput]
  exact congrArg (fatPut sb · c v) (fatEntRead_vol env sb s e c)

/-- **Reading after the store.** -/
theorem storeAt_link (hc : InRange sb c) (hv : Storable v) (hread : (fatEntRead env sb s e c).1 ≠ - EIO)
    (hd : InRange sb d) : fatLink sb (storeAt env sb s e c v).vol d = if d = c then readBack v else fatLink sb s.vol d := by
  rw [storeAt_vol hc hread]
  exact fatLink_fatPut hc hv hd

/-- if the value is read back, the store is one to an array -/
theorem arrayStore_of_readBack (hc : InRange sb c) (hv : Storable v) (hread : (fatEntRead env sb s e c).1 ≠ - EIO)
    (hback : readBack v = v) : ArrayStore env sb s e c v := by
  have hat := cursorAfter_at hc hread
  refine ⟨?_, fun d hd hne => ⟨_, reads_fatLink s hd, ?_⟩, ?_, fun n hn => ?_, fun n hn => ?_⟩
  · have hlink := storeAt_link hc hv hread hc
    rw [if_pos rfl, hback] at hlink
    have hreads := reads_fatLink (storeAt env sb s e c v) hc
    rwa [hlink] at hreads
  · have hlink := storeAt_link hc hv hread hd
    rw [if_neg hne] at hlink
    have hreads := reads_fatLink (storeAt env sb s e c v) hd
    rwa [hlink] at hreads
  · have hsmall : v.toNat < 2 ^ 28 := by obtain ⟨h0, h1⟩ := hv; omega
    unfold fatTop fatWord
    rw [storeAt_vol hc hread, fatPut, Function.update_self, le32_fat32EntPut _ _ hv]
    omega
  · obtain ⟨e', he', hat'⟩ := (fatEntNexts_eq n hc hat).1 hn
    refine ⟨e', he', hat'.entry, ?_⟩
    rw [hat'.get]
    exact reads_fatLink _ hn.1
  · exact (fatEntNexts_eq n hc hat).2 hn

/-- what is not read back is not there -/
theorem not_arrayStore (hc : InRange sb c) (hv : Storable v) (hread : (fatEntRead env sb s e c).1 ≠ - EIO)
    (hback : readBack v ≠ v) : ¬ ArrayStore env sb s e c v := by
  intro h
  have hlink := storeAt_link hc hv hread hc
  rw [if_pos rfl, ← h.same.unique hc] at hlink
  exact hback hlink.symm

/-- **The FAT through a cursor is an array.** Whatever the cursor held, a store of a value that callers store, behind a
read that positions it, is one to an array if and only if the value is not the bad mark. -/
theorem arrayStore_iff (env : Env) (s : St) (e : FatEntry) (hc : InRange sb c) (hv : Stored sb v)
    (hread : (fatEntRead env sb s e c).1 ≠ - EIO) : ArrayStore env sb s e c v ↔ v ≠ BAD_FAT32 := by
  rw [← hv.readBack_iff]
  constructor
  · intro h
    by_contra hback
    exact not_arrayStore hc hv.storable hread hback h
  · exact arrayStore_of_readBack hc hv.storable hread

end

end

/-- a cursor that holds nothing, entry 3 of a volume without links, and a store of 4 -/
theorem arrayStore_tiny :
    ArrayStore goodEnv tinySb (St.idle (tinyVol fun _ => 0)) fatentInit 3 4 :=
  (arrayStore_iff goodEnv (St.idle (tinyVol fun _ => 0)) fatentInit (by decide) (Or.inr (Or.inr (by decide)))
    (by decide)).2 (by decide)

/-- on the largest volume, the number of the last cluster is stored and read back as the end of a chain -/
theorem store_bad_not_read : ¬ ArrayStore goodEnv largeSb (St.idle onesVol) fatentInit 3 BAD_FAT32 :=
  not_arrayStore (by decide) (InRange.storable (show InRange largeSb BAD_FAT32 by decide)) (by decide) (by decide)

end AtsLdd.Fat
