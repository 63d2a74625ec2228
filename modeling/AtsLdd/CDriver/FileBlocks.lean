/-
The files of a volume of the C driver, as a store of blocks. The state is the volume with the inodes of the files; the steps
are the calls of the page cache and of the inode operations: `fat_get_block`, `fat_truncate` behind a change of `i_size`, and
the steps of `generic_write_end` and `cont_write_begin`, which set `i_size` and round `mmu_private`.

The abstract store has a list of clusters and two sizes for every file, and the set of free clusters. `Serves` are its steps.

- `fileStep_serves`: one call does what the abstract store does, and answers what it answers;
- `files_refine`: so does every run; no assertion fails in it;
- `block_handed_out_once`: two calls of a run hand out the same block of the volume exactly when they ask for the same block
  of the same file, unless the file was truncated between them.

A cluster that has the number of the bad mark cannot be linked to, so the volume is assumed to have none.
-/
import AtsLdd.CDriver.Growth
import AtsLdd.Core.Run

namespace AtsLdd.Fat.CDriver

open AtsLdd.Machine AtsLdd.LinkTable AtsLdd.Run

/-! ## The calls -/

inductive FileOp (κ : Type*) where
  /-- `fat_get_block`, for a buffer of `bSize` bytes -/
  | getBlock (env : Env) (k : κ) (fl : SyncFlags) (iblock bSize : ℕ) (create : Bool)
  /-- `i_size` is made smaller, and `fat_truncate` is called -/
  | truncate (env : Env) (k : κ) (now : Timespec) (wait : Bool) (size : ℕ)
  /-- `generic_write_end` sets `i_size` -/
  | setSize (k : κ) (size : ℕ)
  /-- `cont_write_begin` rounds `mmu_private` up to a block -/
  | roundUp (k : κ)

structure FileSys (κ : Type*) where
  s : St
  files : κ → CachedInode

/-- 0 or a negative error; the block of the volume that a buffer is mapped to, and whether it is new; the size of the buffer -/
structure Answer where
  ret : ℤ
  mapped : Option (ℕ × Bool)
  bSize : ℕ
  deriving DecidableEq

def CachedInode.resized (ino : CachedInode) (size : ℕ) : CachedInode := { ino with iSize := size }

section
variable {κ : Type*} [DecidableEq κ]

/-- one call; the answer `none` is an assertion that fails -/
def fileStep (sb : FatSb) (opts : InodeOptions) (σ : FileSys κ) : FileOp κ → FileSys κ × Option Answer
  | .getBlock env k fl iblock bSize create =>
    match fatGetBlock env sb opts true fl σ.s (σ.files k) iblock bSize create with
    | none => (σ, none)
    | some r => (⟨r.s, Function.update σ.files k r.ino⟩, some ⟨r.ret, r.mapped, r.maxBlocks⟩)
  | .truncate env k now wait size =>
    match fatTruncate env sb opts true now wait σ.s ((σ.files k).resized size) with
    | none => (σ, none)
    | some r => (⟨r.s, Function.update σ.files k r.ino⟩, some ⟨r.ret, none, 0⟩)
  | .setSize k size => (⟨σ.s, Function.update σ.files k ((σ.files k).resized size)⟩, some ⟨0, none, 0⟩)
  | .roundUp k =>
    let mmuPrivate := ((σ.files k).mmuPrivate + (sb.blocksize - 1)) / sb.blocksize * sb.blocksize
    (⟨σ.s, Function.update σ.files k { σ.files k with mmuPrivate := mmuPrivate }⟩, some ⟨0, none, 0⟩)

/-- what the kernel promises: a buffer holds a block, which lies below the largest size of a file; sizes are within bounds.
Blocks may be unreadable when one is looked up. -/
def FileOp.Allowed (sb : FatSb) (σ : FileSys κ) : FileOp κ → Prop
  | .getBlock env _ _ iblock bSize create =>
    sb.blocksize ≤ bSize ∧ iblock * sb.blocksize ≤ S_MAXBYTES ∧ (create = true → env.NoFault)
  | .truncate env k _ _ size => env.NoFault ∧ size ≤ (σ.files k).iSize
  | .setSize k size => (σ.files k).iSize ≤ size ∧ size ≤ (σ.files k).mmuPrivate
  | .roundUp _ => True

/-! ## The abstract store -/

/-- a file has its clusters, `size` bytes, and clusters for `written` bytes -/
structure FileStore (κ : Type*) extends Store κ ℤ where
  size : κ → ℕ
  written : κ → ℕ

/-- file `k` gets clusters for all bytes up to the end of block `b + m - 1` -/
def FileStore.extend (A : FileStore κ) (sb : FatSb) (k : κ) (b m : ℕ) : FileStore κ :=
  { A with written := Function.update A.written k ((b + m) * sb.blocksize) }

/-- file `k` gets the cluster `c` -/
def FileStore.addCluster (A : FileStore κ) (k : κ) (c : ℤ) : FileStore κ := { A with toStore := A.toStore.grow k c }

/-- file `k` keeps `size` bytes -/
def FileStore.truncate (A : FileStore κ) (sb : FatSb) (k : κ) (size : ℕ) : FileStore κ where
  toStore := A.toStore.cut k (clustersOf sb size)
  size := Function.update A.size k size
  written := Function.update A.written k size

def FileStore.setSize (A : FileStore κ) (k : κ) (size : ℕ) : FileStore κ := { A with size := Function.update A.size k size }

def FileStore.roundUp (A : FileStore κ) (sb : FatSb) (k : κ) : FileStore κ :=
  { A with written := Function.update A.written k (blocksIn sb (A.written k) * sb.blocksize) }

/-- the blocks from block `b` of a cluster on, at most `n` -/
def inCluster (sb : FatSb) (b n : ℕ) : ℕ := min (sb.secPerClus - b % sb.secPerClus) n

/-- the steps of the abstract store, with their answers -/
inductive Serves (sb : FatSb) : FileStore κ → FileOp κ → Option Answer → FileStore κ → Prop where
  /-- a block that the file has -/
  | mapped {A env k fl b bSize create} (hb : b < visible sb (A.size k) (A.written k) b create) :
    Serves sb A (.getBlock env k fl b bSize create)
      (some ⟨0, some (fileBlock sb (A.rows k) b, false),
        min (inCluster sb b (visible sb (A.size k) (A.written k) b create - b)) (bSize / sb.blocksize) * sb.blocksize⟩) A
  /-- a block behind the size, looked up -/
  | hole {A env k fl b bSize} (hb : visible sb (A.size k) (A.written k) b false ≤ b) :
    Serves sb A (.getBlock env k fl b bSize false) (some ⟨0, none, bSize / sb.blocksize * sb.blocksize⟩) A
  /-- a block of the FAT that cannot be read -/
  | unread {A env k fl b bSize create} (hfail : ReadFails env) :
    Serves sb A (.getBlock env k fl b bSize create) (some ⟨- EIO, none, bSize⟩) A
  /-- a block that does not follow the last one -/
  | gap {A env k fl b bSize} (hb : A.written k < b * sb.blocksize) :
    Serves sb A (.getBlock env k fl b bSize true) (some ⟨- EIO, none, bSize⟩) A
  /-- no cluster is free -/
  | full {A env k fl b bSize} (hb : A.written k = b * sb.blocksize) (hspc : b % sb.secPerClus = 0) (hfree : A.free = ∅) :
    Serves sb A (.getBlock env k fl b bSize true) (some ⟨- ENOSPC, none, bSize⟩) A
  /-- the next block, in the last cluster of the file -/
  | made {A env k fl b bSize} (hb : A.written k = b * sb.blocksize) (hspc : b % sb.secPerClus ≠ 0) :
    Serves sb A (.getBlock env k fl b bSize true)
      (some ⟨0, some (fileBlock sb (A.rows k) b, true), inCluster sb b (bSize / sb.blocksize) * sb.blocksize⟩)
      (A.extend sb k b (inCluster sb b (bSize / sb.blocksize)))
  /-- the next block, in a new cluster -/
  | added {A env k fl b bSize c} (hb : A.written k = b * sb.blocksize) (hspc : b % sb.secPerClus = 0) (hc : c ∈ A.free) :
    Serves sb A (.getBlock env k fl b bSize true)
      (some ⟨0, some (fileBlock sb (A.rows k ++ [c]) b, true), inCluster sb b (bSize / sb.blocksize) * sb.blocksize⟩)
      ((A.addCluster k c).extend sb k b (inCluster sb b (bSize / sb.blocksize)))
  | truncated {A env k now wait size} :
    Serves sb A (.truncate env k now wait size) (some ⟨0, none, 0⟩) (A.truncate sb k size)
  | sized {A k size} : Serves sb A (.setSize k size) (some ⟨0, none, 0⟩) (A.setSize k size)
  | rounded {A k} : Serves sb A (.roundUp k) (some ⟨0, none, 0⟩) (A.roundUp sb k)

theorem Serves.answers {sb : FatSb} {A A' : FileStore κ} {op : FileOp κ} {r : Option Answer} (h : Serves sb A op r A') :
    r ≠ none := by
  cases h <;> exact Option.some_ne_none _

/-- the files of the volume are those of the abstract store -/
structure Refines (sb : FatSb) (σ : FileSys κ) (A : FileStore κ) : Prop where
  holds : StoredRows (table sb σ.s.vol) (InRange sb) A.toStore
  chain : ∀ k, FileChain sb σ.s.vol (A.rows k) (σ.files k)
  sizes : ∀ k, FileSizes sb (A.rows k).length (A.size k) (A.written k) (σ.files k)
  exact : Exact sb σ.s
  prevFree : PrevFreeOk sb σ.s

/-! ## One call -/

variable {sb : FatSb} {σ : FileSys κ} {A A' : FileStore κ} {k : κ} {ino' : CachedInode} {s' : St}

/-- **One file changed**, and the rows of the others stayed. -/
theorem Refines.change (h : Refines sb σ A) (hholds : StoredRows (table sb s'.vol) (InRange sb) A'.toStore)
    (hother : ∀ j ≠ k, A'.rows j = A.rows j ∧ A'.size j = A.size j ∧ A'.written j = A.written j)
    (hchain : FileChain sb s'.vol (A'.rows k) ino')
    (hsizes : FileSizes sb (A'.rows k).length (A'.size k) (A'.written k) ino') (hexact : Exact sb s') (hpf : PrevFreeOk sb s') :
    Refines sb ⟨s', Function.update σ.files k ino'⟩ A' where
  holds := hholds
  chain := by
    intro j
    by_cases hj : j = k
    · subst hj
      simp only [Function.update_self]
      exact hchain
    · have hrow := (hother j hj).1
      simp only [Function.update_of_ne hj, hrow]
      apply (h.chain j).frame
      intro x hx
      -- the chain of the other file is the same in both tables
      obtain ⟨a, p⟩ := h.holds.rows.path j (List.ne_nil_of_mem hx)
      obtain ⟨a', p'⟩ := hholds.rows.path j (by rw [hrow]; exact List.ne_nil_of_mem hx)
      rw [hrow] at p'
      exact p.table_eq p' x hx
  sizes := by
    intro j
    by_cases hj : j = k
    · subst hj
      simp only [Function.update_self]
      exact hsizes
    · obtain ⟨hrow, hsize, hwritten⟩ := hother j hj
      simp only [Function.update_of_ne hj, hrow, hsize, hwritten]
      exact h.sizes j
  exact := hexact
  prevFree := hpf

/-- blocks of the FAT were looked up, and a cache changed -/
theorem Refines.looked (h : Refines sb σ A) (hlook : Looked σ.s s') (hchain : FileChain sb s'.vol (A.rows k) ino')
    (hvfs : ino'.toVfsInode = (σ.files k).toVfsInode) : Refines sb ⟨s', Function.update σ.files k ino'⟩ A := by
  have hpf : s'.prevFree = σ.s.prevFree := (hlook.sameFat sb).prevFree
  refine h.change ?_ (fun _ _ => ⟨rfl, rfl, rfl⟩) hchain ((h.sizes k).of_vfs hvfs) ((hlook.sameFat sb).exact h.exact) ?_
  · rw [hlook.vol]
    exact h.holds
  · unfold PrevFreeOk
    rw [hpf]
    exact h.prevFree

/-- the block behind the last one is made in the last cluster of the file -/
theorem makeBlock_serves {env : Env} (henv : env.NoFault) {b n : ℕ} (h : Refines sb σ A) {s1 : St} {ino1 : CachedInode}
    {B : FileStore κ} (hB : StoredRows (table sb s1.vol) (InRange sb) B.toStore)
    (hother : ∀ j ≠ k, B.rows j = A.rows j) (hsize : B.size = A.size) (hwritten : B.written = A.written)
    (hchain : FileChain sb s1.vol (B.rows k) ino1) (hsize1 : ino1.iSize = A.size k)
    (hmmu : ino1.mmuPrivate = (b * sb.blocksize : ℕ)) (hle : A.size k ≤ b * sb.blocksize)
    (hb : b * sb.blocksize ≤ S_MAXBYTES) (hl : (B.rows k).length = b / sb.secPerClus + 1) (hn : 0 < n)
    (hexact : Exact sb s1) (hpf : PrevFreeOk sb s1) :
    ∃ r, makeBlock env sb true s1 ino1 b n = some r ∧ r.ret = 0 ∧ r.mapped = some (fileBlock sb (B.rows k) b, true) ∧
      r.maxBlocks = inCluster sb b n ∧
      Refines sb ⟨r.s, Function.update σ.files k r.ino⟩ (B.extend sb k b (inCluster sb b n)) := by
  obtain ⟨r, hmake, hret, hmapped, hmax, hchain', hlook, z⟩ := makeBlock_spec henv hchain hsize1 hmmu hle hb hl hn
  refine ⟨r, hmake, hret, hmapped, hmax, h.change ?_ ?_ hchain' ?_ ((hlook.sameFat sb).exact hexact) ?_⟩
  · rw [hlook.vol]
    exact hB
  · intro j hj
    exact ⟨hother j hj, congrFun hsize j, (Function.update_of_ne hj _ _).trans (congrFun hwritten j)⟩
  · unfold FileStore.extend
    simp only [Function.update_self, hsize]
    exact z
  · unfold PrevFreeOk
    rw [(hlook.sameFat sb).prevFree]
    exact hpf

/-- where `mmu_private` ends, in blocks -/
theorem FileSizes.next_block {n size written : ℕ} {ino : CachedInode} (z : FileSizes sb n size written ino) :
    ulong (ino.mmuPrivate / 2 ^ sb.blocksizeBits) = written / sb.blocksize := by
  have hmax := z.max
  have hle : written / sb.blocksize ≤ written := Nat.div_le_self _ _
  unfold S_MAXBYTES at hmax
  rw [z.written_eq, ← ulong_natCast (show written / sb.blocksize < 2 ^ 64 by omega)]
  congr 1

/-- **Asking for a block** is a step of the abstract store. -/
theorem getBlock_serves (hsmall : (sb.maxCluster : ℤ) ≤ BAD_FAT32) (opts : InodeOptions) (h : Refines sb σ A) {env : Env}
    {fl : SyncFlags} {b bSize : ℕ} {create : Bool} (hal : (FileOp.getBlock env k fl b bSize create).Allowed sb σ) :
    ∃ A', Serves sb A (.getBlock env k fl b bSize create) (fileStep sb opts σ (.getBlock env k fl b bSize create)).2 A' ∧
      Refines sb (fileStep sb opts σ (.getBlock env k fl b bSize create)).1 A' := by
  obtain ⟨hbSize, hb, hcreate⟩ := hal
  have z := h.sizes k
  have hn : 0 < bSize / sb.blocksize := Nat.div_pos hbSize sb.blocksize_pos
  obtain ⟨r, hmap, hr⟩ := fatBmap_spec env (h.chain k) z b create
  have hlooked : Refines sb ⟨r.s, Function.update σ.files k r.ino⟩ A := h.looked hr.looked hr.chain hr.inode
  have hbits : 2 ^ sb.blocksizeBits = sb.blocksize := rfl
  unfold fileStep fatGetBlock getBlock
  simp only [hmap, hbits]
  rcases hr.answer with ⟨hlt, hret, hphys, hne, hmapped⟩ | ⟨hge, hret, hphys⟩ | ⟨-, hret, -, hfail⟩
  · -- the file has the block
    simp only [hret, ne_eq, not_true_eq_false, if_false, hne, not_false_iff, if_true, Option.map_some]
    refine ⟨A, ?_, hlooked⟩
    rw [hphys, hmapped]
    exact Serves.mapped hlt
  · simp only [hret, ne_eq, not_true_eq_false, if_false, hphys]
    cases create with
    | false =>
      simp only [if_true, Option.map_some, not_true_eq_false, if_false]
      exact ⟨A, Serves.hole hge, hlooked⟩
    | true =>
      have henv := hcreate rfl
      have hnext := (z.of_vfs hr.inode).next_block
      have hsize : A.size k ≤ b * sb.blocksize := by
        by_contra hlt
        have hsee : b < blocksIn sb (A.size k) := lt_blocksIn_iff.2 (not_le.1 hlt)
        unfold visible at hge
        rw [if_neg fun hc => absurd hc.1 (not_le.2 hsee)] at hge
        exact absurd hsee (not_lt.2 hge)
      have hwritten : A.written k ≤ b * sb.blocksize := by
        unfold visible at hge
        rw [if_pos ⟨not_lt.1 (lt_blocksIn_iff.not.2 (not_lt.2 hsize)), rfl⟩] at hge
        exact not_lt.1 (lt_blocksIn_iff.not.1 (not_lt.2 hge))
      simp only [Bool.true_eq_false, if_false, hnext]
      by_cases hgap : b = A.written k / sb.blocksize
      · have heq : A.written k = b * sb.blocksize := by
          apply le_antisymm hwritten
          rw [hgap]
          exact Nat.div_mul_le_self _ _
        have hmmu : r.ino.mmuPrivate = (b * sb.blocksize : ℕ) := by
          rw [← heq]
          exact (z.of_vfs hr.inode).written_eq
        have hlen : (A.rows k).length = _ := (z.covers.trans (by rw [heq])).trans (clustersOf_block sb b)
        rw [if_neg (not_not.2 hgap)]
        by_cases hoff : b % sb.secPerClus = 0
        · -- a cluster is needed
          rw [if_pos hoff] at hlen
          obtain ⟨a, hadd, hexact, hpf, ⟨c, hc, haret, hA', hchain, hsz, hmm⟩ | ⟨haret, hfree, hT, hino⟩⟩ :=
            fatAddCluster_spec henv hsmall opts fl hlooked.holds hr.chain z.length_le hlooked.exact hlooked.prevFree
          · obtain ⟨m, hmake, hmret, hmapped, hmax, href⟩ := makeBlock_serves (B := A.addCluster k c) henv h hA'
              (fun j hj => A.toStore.grow_other k hj c) rfl rfl
              (by rw [FileStore.addCluster, A.toStore.grow_self]; exact hchain)
              (hsz.trans (z.of_vfs hr.inode).size_eq) (hmm.trans hmmu) hsize hb
              (by rw [FileStore.addCluster, A.toStore.grow_self, List.length_append, hlen, List.length_singleton]) hn hexact hpf
            rw [FileStore.addCluster, A.toStore.grow_self] at hmapped
            simp only [hoff, if_true, hadd, haret, not_true_eq_false, if_false, hmake, Option.map_some, hmret, hmapped, hmax]
            exact ⟨_, Serves.added heq hoff hc, href⟩
          · have hneg : (- ENOSPC : ℤ) ≠ 0 := by decide
            simp only [hoff, if_true, hadd, haret, hneg, not_false_iff, Option.map_some]
            refine ⟨A, Serves.full heq hoff hfree, h.change ?_ (fun _ _ => ⟨rfl, rfl, rfl⟩) ?_ ?_ hexact hpf⟩
            · rw [hT]
              exact hlooked.holds
            · rw [hino]
              exact hr.chain.frame fun x _ => by rw [hT]
            · rw [hino]
              exact z.of_vfs hr.inode
        · rw [if_neg hoff] at hlen
          obtain ⟨m, hmake, hmret, hmapped, hmax, href⟩ := makeBlock_serves henv h hlooked.holds (fun _ _ => rfl) rfl rfl
            hr.chain (z.of_vfs hr.inode).size_eq hmmu hsize hb hlen hn hlooked.exact hlooked.prevFree
          simp only [hoff, if_false, hmake, Option.map_some, hmret, not_true_eq_false, hmapped, hmax]
          exact ⟨_, Serves.made heq hoff, href⟩
      · have hneg : (- EIO : ℤ) ≠ 0 := by decide
        simp only [hgap, not_false_iff, if_true, Option.map_some, hneg]
        refine ⟨A, Serves.gap (lt_of_le_of_ne hwritten fun heq => hgap ?_), hlooked⟩
        rw [heq, Nat.mul_div_cancel _ sb.blocksize_pos]
  · have hneg : (- EIO : ℤ) ≠ 0 := by decide
    simp only [hret, ne_eq, hneg, not_false_iff, if_true, Option.map_some]
    exact ⟨A, Serves.unread hfail, hlooked⟩

/-- the sizes of a file changed, and its clusters stayed -/
theorem Refines.resize (h : Refines sb σ A) {size written : ℕ} {iSize mmuPrivate : ℤ} (hsize : iSize = size)
    (hwritten : mmuPrivate = written) (hle : size ≤ written) (hmax : written ≤ S_MAXBYTES + 1)
    (hcovers : clustersOf sb written = clustersOf sb (A.written k)) (hA' : A'.toStore = A.toStore)
    (hAsize : A'.size = Function.update A.size k size) (hAwritten : A'.written = Function.update A.written k written) :
    Refines sb ⟨σ.s, Function.update σ.files k { σ.files k with iSize := iSize, mmuPrivate := mmuPrivate }⟩ A' := by
  have hc := h.chain k
  apply h.change
  · rw [hA']
    exact h.holds
  · intro j hj
    rw [hA', hAsize, hAwritten, Function.update_of_ne hj, Function.update_of_ne hj]
    exact ⟨rfl, rfl, rfl⟩
  · rw [hA']
    exact ⟨hc.chain, hc.coherent.of_eq rfl rfl rfl, hc.blocks, hc.outside⟩
  · rw [hA', hAsize, hAwritten, Function.update_self, Function.update_self]
    exact ⟨hsize, hwritten, hle, hmax, (h.sizes k).covers.trans hcovers.symm⟩
  · exact h.exact
  · exact h.prevFree

/-- rounding up to a block needs no cluster -/
theorem clustersOf_rounded (sb : FatSb) (n : ℕ) : clustersOf sb (blocksIn sb n * sb.blocksize) = clustersOf sb n := by
  have hiff : ∀ i, i < clustersOf sb (blocksIn sb n * sb.blocksize) ↔ i < clustersOf sb n := by
    intro i
    rw [lt_clustersOf_iff, lt_clustersOf_iff, FatSb.clusterSize, Nat.mul_comm sb.blocksize, ← Nat.mul_assoc,
      Nat.mul_lt_mul_right sb.blocksize_pos, lt_blocksIn_iff]
  exact le_antisymm (le_of_not_gt fun hlt => absurd ((hiff _).1 hlt) (lt_irrefl _))
    (le_of_not_gt fun hlt => absurd ((hiff _).2 hlt) (lt_irrefl _))

theorem le_rounded (sb : FatSb) (n : ℕ) : n ≤ blocksIn sb n * sb.blocksize := by
  by_contra hlt
  exact absurd (lt_blocksIn_iff.2 (not_le.1 hlt)) (lt_irrefl _)

/-- the largest size of a file is a number of blocks -/
theorem rounded_le {n : ℕ} (hn : n ≤ S_MAXBYTES + 1) : blocksIn sb n * sb.blocksize ≤ S_MAXBYTES + 1 := by
  obtain ⟨q, hq⟩ : sb.blocksize ∣ S_MAXBYTES + 1 := pow_dvd_pow 2 (sb.bits_max.trans (by decide : 12 ≤ 32))
  rw [hq, Nat.mul_comm sb.blocksize] at hn ⊢
  apply Nat.mul_le_mul_right
  exact le_of_not_gt fun hlt => absurd (lt_blocksIn_iff.1 hlt) (not_lt.2 hn)

/-- **Truncation** is a step of the abstract store. -/
theorem truncate_serves (opts : InodeOptions) (h : Refines sb σ A) {env : Env} {now : Timespec} {wait : Bool} {size : ℕ}
    (hal : (FileOp.truncate env k now wait size).Allowed sb σ) :
    Serves sb A (.truncate env k now wait size) (fileStep sb opts σ (.truncate env k now wait size)).2 (A.truncate sb k size) ∧
      Refines sb (fileStep sb opts σ (.truncate env k now wait size)).1 (A.truncate sb k size) := by
  obtain ⟨henv, hle⟩ := hal
  have hc := h.chain k
  have z := h.sizes k
  have hsize : size ≤ A.written k := by
    have hle' := hle
    rw [z.size_eq] at hle'
    exact le_trans (by exact_mod_cast hle') z.le
  have hclus : clustersOf sb size ≤ (A.rows k).length := by
    rw [z.covers]
    exact Nat.div_le_div_right (Nat.add_le_add_right hsize _)
  have hother : ∀ j ≠ k, (A.truncate sb k size).rows j = A.rows j ∧ (A.truncate sb k size).size j = A.size j ∧
      (A.truncate sb k size).written j = A.written j := fun j hj =>
    ⟨A.toStore.cut_other k hj _, Function.update_of_ne hj _ _, Function.update_of_ne hj _ _⟩
  have hrow : (A.truncate sb k size).rows k = (A.rows k).take (clustersOf sb size) := A.toStore.cut_self k _
  have hsizes : ∀ ino : CachedInode, ino.iSize = size → ino.mmuPrivate = min (A.written k : ℤ) size →
      FileSizes sb ((A.truncate sb k size).rows k).length ((A.truncate sb k size).size k) ((A.truncate sb k size).written k) ino := by
    intro ino hi hm
    have hs : (A.truncate sb k size).size k = size := Function.update_self _ _ _
    have hw : (A.truncate sb k size).written k = size := Function.update_self _ _ _
    rw [hs, hw, hrow, List.length_take, min_eq_left hclus]
    exact ⟨hi, hm.trans (min_eq_right (by exact_mod_cast hsize)), le_rfl, hsize.trans z.max, rfl⟩
  unfold fileStep
  rcases hc.chain with p | ⟨hnil, h0⟩
  · have hcoh : Coherent (table sb σ.s.vol) (clusterLimit sb + 1) ((σ.files k).resized size) := hc.coherent.of_eq rfl rfl rfl
    have presized : Path (table sb σ.s.vol) ((σ.files k).resized size).iStart (A.rows k) := p
    obtain ⟨r, htrunc, hcut⟩ := fatTruncate_cuts henv presized hcoh hc.outside rfl (hsize.trans z.max) opts now wait
    obtain ⟨hi, hm, hpos⟩ := hcut.sizes
    have hmm : r.ino.mmuPrivate = min (A.written k : ℤ) size := by
      rw [hm, ← z.written_eq]
      rfl
    simp only [htrunc, hcut.ret]
    refine ⟨Serves.truncated, h.change ?_ hother ⟨?_, hcut.coherent, ?_, ?_⟩ (hsizes r.ino hi hmm) (hcut.exact h.exact) ?_⟩
    · rw [hcut.table]
      exact h.holds.cut p _
    · rw [hrow, hcut.start, hcut.table]
      by_cases hzero : clustersOf sb size = 0
      · rw [if_pos hzero, hzero]
        exact Or.inr ⟨rfl, rfl⟩
      · rw [if_neg hzero]
        exact Or.inl (p.cut (Nat.pos_of_ne_zero hzero))
    · rw [hrow, hcut.blocks, List.length_take]
      split_ifs with hlt
      · rw [min_eq_left hlt.le]
      · rw [min_eq_right (not_lt.1 hlt)]
        exact hc.blocks
    · rw [hpos]
      exact hc.outside
    · unfold PrevFreeOk
      rw [hcut.prevFree]
      exact h.prevFree
  · -- a file without a cluster stays as it is
    have htrunc : fatTruncate env sb opts true now wait σ.s ((σ.files k).resized size) =
        some ⟨0, ((σ.files k).resized size).trimmed, σ.s⟩ := by
      unfold fatTruncate fatFree
      exact if_pos h0
    have hmm : ((σ.files k).resized size).trimmed.mmuPrivate = min (A.written k : ℤ) size := by
      rw [← z.written_eq]
      rfl
    have hstay : A.toStore.cut k (clustersOf sb size) = A.toStore := A.toStore.cut_long k (by rw [hnil]; exact Nat.zero_le _)
    simp only [htrunc]
    refine ⟨Serves.truncated, h.change ?_ hother ⟨?_, hc.coherent.of_eq rfl rfl rfl, ?_, hc.outside⟩ (hsizes _ rfl hmm)
      h.exact h.prevFree⟩
    · unfold FileStore.truncate
      rw [hstay]
      exact h.holds
    · rw [hrow, hnil, List.take_nil]
      exact Or.inr ⟨rfl, h0⟩
    · rw [hrow, hnil, List.take_nil]
      exact (congrArg (fun l : List ℤ => l.length * 2 ^ (sb.clusterBits - 9)) hnil) ▸ hc.blocks

/-- **One call** is a step of the abstract store, with the same answer. -/
theorem fileStep_serves (hsmall : (sb.maxCluster : ℤ) ≤ BAD_FAT32) (opts : InodeOptions) (h : Refines sb σ A) {op : FileOp κ}
    (hal : op.Allowed sb σ) :
    ∃ A', Serves sb A op (fileStep sb opts σ op).2 A' ∧ Refines sb (next (fileStep sb opts) σ op) A' := by
  cases op with
  | getBlock env k fl b bSize create => exact getBlock_serves hsmall opts h hal
  | truncate env k now wait size => exact ⟨_, truncate_serves opts h hal⟩
  | setSize k size =>
    obtain ⟨hlo, hhi⟩ := hal
    have z := h.sizes k
    rw [z.written_eq] at hhi
    refine ⟨A.setSize k size, Serves.sized, h.resize rfl z.written_eq (by exact_mod_cast hhi) z.max rfl rfl rfl ?_⟩
    exact (Function.update_eq_self _ _).symm
  | roundUp k =>
    have z := h.sizes k
    have hround : ((σ.files k).mmuPrivate + (sb.blocksize - 1)) / sb.blocksize * sb.blocksize =
        (blocksIn sb (A.written k) * sb.blocksize : ℕ) := by
      have hpos := sb.blocksize_pos
      rw [z.written_eq]
      unfold blocksIn
      push_cast [Nat.one_le_iff_ne_zero.2 hpos.ne']
      rfl
    refine ⟨A.roundUp sb k, Serves.rounded, h.resize z.size_eq hround (z.le.trans (le_rounded sb _)) (rounded_le z.max)
      (clustersOf_rounded sb _) rfl ?_ rfl⟩
    exact (Function.update_eq_self _ _).symm

/-! ## Runs -/

/-- **The files of a volume refine the abstract store** in every run, and no assertion fails. -/
theorem files_refine {sb : FatSb} (hsmall : (sb.maxCluster : ℤ) ≤ BAD_FAT32) (opts : InodeOptions) {σ : FileSys κ}
    {A : FileStore κ} (h : Refines sb σ A) {ops : List (FileOp κ)}
    (hal : Meets (next (fileStep sb opts)) (fun σ op => op.Allowed sb σ) σ ops) :
    (∃ A', Accepts (Serves sb) A (trace (fileStep sb opts) σ ops) A' ∧ A'.Apart ∧
        Refines sb (run (next (fileStep sb opts)) σ ops) A') ∧
      ∀ e ∈ trace (fileStep sb opts) σ ops, e.2 ≠ none := by
  obtain ⟨A', hacc, href⟩ := trace_simulated (fun σ A op h hal => fileStep_serves hsmall opts h hal) h hal
  refine ⟨⟨A', hacc, href.holds.apart, href⟩, ?_⟩
  -- every step of the abstract store has an answer
  clear hal href h
  generalize trace (fileStep sb opts) σ ops = es at hacc
  induction es generalizing A with
  | nil => exact fun e he => absurd he List.not_mem_nil
  | cons e es ih =>
    obtain ⟨B, hserves, hacc⟩ := hacc
    exact List.forall_mem_cons.2 ⟨hserves.answers, ih hacc⟩

/-! ## Which blocks are handed out -/

/-- block `b` of file `k` has its place at block `p` of the volume -/
def FileStore.Placed (A : FileStore κ) (sb : FatSb) (k : κ) (b p : ℕ) : Prop :=
  b < blocksIn sb (A.written k) ∧ fileBlock sb (A.rows k) b = p

/-- the call does not truncate file `k` -/
def FileOp.Spares (k : κ) : FileOp κ → Prop
  | .truncate _ j _ _ _ => j ≠ k
  | _ => True

/-- a row that grows keeps its blocks -/
theorem fileBlock_append {l : List ℤ} {b : ℕ} (hb : b / sb.secPerClus < l.length) (l' : List ℤ) :
    fileBlock sb (l ++ l') b = fileBlock sb l b := by
  unfold fileBlock
  rw [List.getD_eq_getElem?_getD, List.getD_eq_getElem?_getD, List.getElem?_append_left hb]

/-- the abstract store has enough clusters for its sizes -/
def FileStore.Covered (A : FileStore κ) (sb : FatSb) : Prop := ∀ k, (A.rows k).length = clustersOf sb (A.written k)

omit [DecidableEq κ] in
theorem index_lt_of_covered (hA : A.Covered sb) {b : ℕ} (hb : b < blocksIn sb (A.written k)) :
    b / sb.secPerClus < (A.rows k).length := by
  rw [hA k, lt_clustersOf_iff]
  exact (cluster_of_block sb b).trans_lt (lt_blocksIn_iff.1 hb)

/-- **A block keeps its place** as long as its file is not truncated. -/
theorem Serves.placed {op : FileOp κ} {r : Option Answer} (h : Serves sb A op r A') (hA : A.Covered sb) {b p : ℕ}
    (hp : A.Placed sb k b p) (hop : op.Spares k) : A'.Placed sb k b p := by
  obtain ⟨hb, hat⟩ := hp
  have hidx := index_lt_of_covered hA hb
  -- a file whose sizes grew
  have hgrown : ∀ B : FileStore κ, (∃ l, B.rows k = A.rows k ++ l) → A.written k ≤ B.written k → B.Placed sb k b p := by
    rintro B ⟨l, hrow⟩ hle
    refine ⟨lt_blocksIn_iff.2 ((lt_blocksIn_iff.1 hb).trans_le hle), ?_⟩
    rw [hrow, fileBlock_append hidx, hat]
  have hwritten : ∀ (B : FileStore κ) (j : κ) (n : ℕ), B.written = Function.update A.written j n → A.written j ≤ n →
      A.written k ≤ B.written k := by
    intro B j n hB hle
    rw [hB]
    by_cases hkj : k = j
    · rw [hkj, Function.update_self]
      exact hle
    · rw [Function.update_of_ne hkj]
  cases h with
  | mapped => exact ⟨hb, hat⟩
  | hole => exact ⟨hb, hat⟩
  | unread => exact ⟨hb, hat⟩
  | gap => exact ⟨hb, hat⟩
  | full => exact ⟨hb, hat⟩
  | made hw =>
    refine hgrown _ ⟨[], (List.append_nil _).symm⟩ (hwritten _ _ _ rfl ?_)
    rw [hw]
    exact Nat.mul_le_mul_right _ (Nat.le_add_right _ _)
  | @added env j fl b' bSize c hw =>
    refine hgrown _ ?_ (hwritten _ _ _ rfl ?_)
    · by_cases hkj : k = j
      · subst hkj
        exact ⟨[c], A.toStore.grow_self k c⟩
      · exact ⟨[], (A.toStore.grow_other j hkj c).trans (List.append_nil _).symm⟩
    · rw [hw]
      exact Nat.mul_le_mul_right _ (Nat.le_add_right _ _)
  | @truncated env j now wait size =>
    have hkj : k ≠ j := fun he => hop he.symm
    refine hgrown _ ⟨[], (A.toStore.cut_other j hkj _).trans (List.append_nil _).symm⟩ ?_
    exact (Function.update_of_ne hkj _ _).symm.le
  | sized => exact ⟨hb, hat⟩
  | @rounded j => exact hgrown _ ⟨[], (List.append_nil _).symm⟩ (hwritten _ _ _ rfl (le_rounded sb _))

/-- the blocks of one cluster follow one another -/
theorem fileBlock_add {l : List ℤ} {c : ℤ} (hc : InRange sb c) {b j : ℕ} (hk : l[b / sb.secPerClus]? = some c)
    (hj : b % sb.secPerClus + j < sb.secPerClus) :
    (b + j) / sb.secPerClus = b / sb.secPerClus ∧ fileBlock sb l (b + j) = fileBlock sb l b + j := by
  have hsplit : b + j = (b % sb.secPerClus + j) + sb.secPerClus * (b / sb.secPerClus) := by
    have hdiv := Nat.div_add_mod b sb.secPerClus
    omega
  have hdiv : (b + j) / sb.secPerClus = b / sb.secPerClus := by
    rw [hsplit, Nat.add_mul_div_left _ _ sb.secPerClus_pos, Nat.div_eq_of_lt hj, Nat.zero_add]
  have hmod : (b + j) % sb.secPerClus = b % sb.secPerClus + j := by
    rw [hsplit, Nat.add_mul_mod_self_left, Nat.mod_eq_of_lt hj]
  refine ⟨hdiv, ?_⟩
  rw [fileBlock_eq hc hk, fileBlock_eq hc (by rw [hdiv]; exact hk), hmod]
  ring

omit [DecidableEq κ] in
theorem Refines.covered (h : Refines sb σ A) : A.Covered sb := fun k => (h.sizes k).covers

omit [DecidableEq κ] in
/-- the cluster in which a block of a file lies -/
theorem Refines.cluster (h : Refines sb σ A) {b : ℕ} (hb : b < blocksIn sb (A.written k)) :
    ∃ c, (A.rows k)[b / sb.secPerClus]? = some c ∧ InRange sb c := by
  have hidx := index_lt_of_covered h.covered hb
  exact ⟨_, List.getElem?_eq_getElem hidx, h.holds.ok_of_mem k _ (List.getElem_mem hidx)⟩

/-- **What was handed out** is where the file has its blocks: as many as the size of the buffer tells. -/
theorem Serves.handed_out {env : Env} {fl : SyncFlags} {b bSize : ℕ} {create : Bool} {p z : ℕ} {new : Bool}
    (h : Serves sb A (.getBlock env k fl b bSize create) (some ⟨0, some (p, new), z⟩) A') {σ' : FileSys κ}
    (hA : ∀ j, A.size j ≤ A.written j) (href : Refines sb σ' A') :
    ∀ j < z / sb.blocksize, A'.Placed sb k (b + j) (p + j) := by
  have hbs := sb.blocksize_pos
  -- the blocks of one cluster, up to a bound within the size of the file
  have hall : ∀ n, n ≤ sb.secPerClus - b % sb.secPerClus → b + n ≤ blocksIn sb (A'.written k) →
      p = fileBlock sb (A'.rows k) b → ∀ j < n, A'.Placed sb k (b + j) (p + j) := by
    intro n hn hin hp j hj
    obtain ⟨c, hc, hcin⟩ := href.cluster (show b < blocksIn sb (A'.written k) by omega)
    have hmod := Nat.mod_lt b sb.secPerClus_pos
    exact ⟨by omega, by rw [(fileBlock_add hcin hc (by omega)).2, hp]⟩
  have hmade : ∀ m, m ≤ sb.secPerClus - b % sb.secPerClus → A'.written k = (b + m) * sb.blocksize →
      p = fileBlock sb (A'.rows k) b → ∀ j < m * sb.blocksize / sb.blocksize, A'.Placed sb k (b + j) (p + j) := by
    intro m hm hw hp
    rw [Nat.mul_div_cancel _ hbs]
    refine hall m hm (le_of_not_gt fun hlt => ?_) hp
    have hnot := lt_blocksIn_iff.not.1 (lt_irrefl (blocksIn sb (A'.written k)))
    rw [hw] at hnot
    exact hnot (Nat.mul_lt_mul_of_pos_right (hw ▸ hlt) hbs)
  cases h with
  | mapped hb =>
    rw [Nat.mul_div_cancel _ hbs]
    refine hall _ ((min_le_left _ _).trans (min_le_left _ _)) ?_ rfl
    have hle : visible sb (A.size k) (A.written k) b create ≤ blocksIn sb (A.written k) := by
      unfold visible
      split_ifs
      · exact le_rfl
      · exact Nat.div_le_div_right (Nat.add_le_add_right (hA k) _)
    have hmin : min (inCluster sb b (visible sb (A.size k) (A.written k) b create - b)) (bSize / sb.blocksize) ≤
        visible sb (A.size k) (A.written k) b create - b := (min_le_left _ _).trans (min_le_right _ _)
    omega
  | made hw => exact hmade _ (min_le_left _ _) (Function.update_self _ _ _) rfl
  | added hw =>
    refine hmade _ (min_le_left _ _) (Function.update_self _ _ _) ?_
    rw [← A.toStore.grow_self]
    rfl

omit [DecidableEq κ] in
/-- **No block has two owners**: two blocks of files have the same place only if they are the same block of the same file. -/
theorem Refines.placed_inj (h : Refines sb σ A) {k' : κ} {b b' p p' : ℕ} (hp : A.Placed sb k b p) (hp' : A.Placed sb k' b' p') :
    p = p' ↔ k = k' ∧ b = b' := by
  obtain ⟨hb, rfl⟩ := hp
  obtain ⟨hb', rfl⟩ := hp'
  constructor
  · obtain ⟨c, hc, hcin⟩ := h.cluster hb
    obtain ⟨c', hc', hcin'⟩ := h.cluster hb'
    have hmod := Nat.mod_lt b sb.secPerClus_pos
    have hmod' := Nat.mod_lt b' sb.secPerClus_pos
    rw [fileBlock_eq hcin hc, fileBlock_eq hcin' hc']
    intro heq
    -- the quotient and the remainder by the blocks of a cluster
    have hsum : (c - 2).toNat * sb.secPerClus + b % sb.secPerClus = (c' - 2).toNat * sb.secPerClus + b' % sb.secPerClus := by
      omega
    have hoff : b % sb.secPerClus = b' % sb.secPerClus := by
      have hm := congrArg (· % sb.secPerClus) hsum
      simpa [Nat.mul_add_mod', Nat.mod_eq_of_lt hmod, Nat.mod_eq_of_lt hmod'] using hm
    have hclus : (c - 2).toNat = (c' - 2).toNat := by
      rw [hoff] at hsum
      exact Nat.eq_of_mul_eq_mul_right sb.secPerClus_pos (Nat.add_right_cancel hsum)
    have hsame : c = c' := by
      have h2 := hcin.1
      have h2' := hcin'.1
      unfold FAT_START_ENT at h2 h2'
      omega
    have hkk : k = k' := by
      by_contra hne
      exact h.holds.rows.apart k k' hne (List.mem_of_getElem? hc) (hsame ▸ List.mem_of_getElem? hc')
    subst hkk
    refine ⟨rfl, ?_⟩
    rw [← hsame] at hc'
    obtain ⟨hi, hgi⟩ := List.getElem?_eq_some_iff.1 hc
    obtain ⟨hi', hgi'⟩ := List.getElem?_eq_some_iff.1 hc'
    have hdiv := ((h.holds.rows.nodup k).getElem_inj_iff).1 (hgi.trans hgi'.symm)
    rw [← Nat.div_add_mod b sb.secPerClus, ← Nat.div_add_mod b' sb.secPerClus, hdiv, hoff]
  · rintro ⟨rfl, rfl⟩
    rfl

/-- **Every block of the volume is handed out for one block of one file.** Two calls of a run hand out a common block of the
volume exactly where they ask for the same block of the same file, unless that file was truncated between them. -/
theorem block_handed_out_once {sb : FatSb} (hsmall : (sb.maxCluster : ℤ) ≤ BAD_FAT32) (opts : InodeOptions) {σ : FileSys κ}
    {A : FileStore κ} (h : Refines sb σ A) {pre mid : List (FileOp κ)} {env env' : Env} {k k' : κ} {fl fl' : SyncFlags}
    {b b' bSize bSize' : ℕ} {create create' : Bool}
    (hal : Meets (next (fileStep sb opts)) (fun σ op => op.Allowed sb σ) σ
      (pre ++ .getBlock env k fl b bSize create :: (mid ++ [.getBlock env' k' fl' b' bSize' create'])))
    (hmid : ∀ op ∈ mid, op.Spares k) {p p' z z' : ℕ} {new new' : Bool}
    (hfirst : (fileStep sb opts (run (next (fileStep sb opts)) σ pre) (.getBlock env k fl b bSize create)).2 =
      some ⟨0, some (p, new), z⟩)
    (hlast : (fileStep sb opts (run (next (fileStep sb opts)) σ (pre ++ .getBlock env k fl b bSize create :: mid))
      (.getBlock env' k' fl' b' bSize' create')).2 = some ⟨0, some (p', new'), z'⟩) :
    ∀ j < z / sb.blocksize, ∀ j' < z' / sb.blocksize, p + j = p' + j' ↔ k = k' ∧ b + j = b' + j' := by
  intro j hj j' hj'
  obtain ⟨hpre, hfirstal, hrest⟩ := meets_append.1 hal
  obtain ⟨hmidal, hlastal, -⟩ := meets_append.1 hrest
  have hsizes : ∀ {σ : FileSys κ} {A : FileStore κ}, Refines sb σ A → ∀ i, A.size i ≤ A.written i := fun href i => (href.sizes i).le
  obtain ⟨A1, -, href1⟩ := trace_simulated (fun σ A op h hal => fileStep_serves hsmall opts h hal) h hpre
  obtain ⟨A2, hserves2, href2⟩ := fileStep_serves hsmall opts href1 hfirstal
  rw [hfirst] at hserves2
  have hplaced := hserves2.handed_out (hsizes href1) href2 j hj
  -- the place stays until the last call
  obtain ⟨A3, href3, hplaced3⟩ : ∃ A3, Refines sb (run (next (fileStep sb opts))
      (next (fileStep sb opts) (run (next (fileStep sb opts)) σ pre) (.getBlock env k fl b bSize create)) mid) A3 ∧
      A3.Placed sb k (b + j) (p + j) := by
    have hkeep : ∀ (σ : FileSys κ) (op : FileOp κ), (∃ A, Refines sb σ A ∧ A.Placed sb k (b + j) (p + j)) →
        op.Allowed sb σ ∧ op.Spares k →
        ∃ A, Refines sb (next (fileStep sb opts) σ op) A ∧ A.Placed sb k (b + j) (p + j) := by
      rintro σ op ⟨A, href, hp⟩ ⟨hop, hspare⟩
      obtain ⟨A', hserves, href'⟩ := fileStep_serves hsmall opts href hop
      exact ⟨A', href', hserves.placed href.covered hp hspare⟩
    exact run_inv hkeep ⟨A2, href2, hplaced⟩ (hmidal.and (meets_of_forall hmid))
  rw [run_append, run_cons] at hlast
  obtain ⟨A4, hserves4, href4⟩ := fileStep_serves hsmall opts href3 hlastal
  have hplaced4 := hserves4.placed href3.covered hplaced3 trivial
  rw [hlast] at hserves4
  exact href4.placed_inj hplaced4 (hserves4.handed_out (hsizes href3) href4 j' hj')

end

/-! ## Two empty files -/

/-- an inode without a cluster, with an empty cache -/
def emptyFile : CachedInode := { newInode with cacheLru := [], nrCaches := 0, cacheValidId := 1 }

/-- a volume whose clusters are all free, with two empty files -/
def twoFiles : FileSys Bool := ⟨tinyFree, fun _ => emptyFile⟩

def twoFilesStore : FileStore Bool :=
  ⟨⟨fun _ => [], {x | InRange tinySb x ∧ table tinySb tinyFree.vol x = .free}⟩, fun _ => 0, fun _ => 0⟩

theorem emptyFile_outside : ¬ InFat tinySb (iPosBlock tinySb emptyFile.iPos) := by
  unfold InFat
  decide

theorem emptyFile_sizes : FileSizes tinySb 0 0 0 emptyFile := ⟨rfl, rfl, le_rfl, Nat.zero_le _, by decide⟩

theorem twoFiles_refines : Refines tinySb twoFiles twoFilesStore where
  holds :=
    { rows := ⟨fun _ hne => absurd rfl hne, fun _ _ _ => List.disjoint_nil_left _⟩
      ok_of_mem := fun _ _ hx => absurd hx List.not_mem_nil
      free := rfl }
  chain := fun _ =>
    { chain := Or.inr ⟨rfl, rfl⟩
      coherent := ⟨fun _ hp => absurd hp List.not_mem_nil, List.nodup_nil, rfl, Nat.zero_le _⟩
      blocks := rfl
      outside := emptyFile_outside }
  sizes := fun _ => emptyFile_sizes
  exact := tinyFree_exact
  prevFree := ⟨by decide, by decide⟩

/-- the first block of file `k`, which is to be made -/
def firstBlock (k : Bool) : FileOp Bool := .getBlock goodEnv k ⟨true, false⟩ 0 512 true

theorem firstBlock_allowed (k : Bool) (σ : FileSys Bool) : (firstBlock k).Allowed tinySb σ :=
  ⟨by decide, by decide, fun _ => goodEnv_noFault⟩

/-- both files get a block, and the first one is asked for again -/
theorem files_refine_tiny :
    Meets (next (fileStep tinySb plainOptions)) (fun σ op => op.Allowed tinySb σ) twoFiles
      [firstBlock true, firstBlock false, firstBlock true] ∧
    ∀ e ∈ trace (fileStep tinySb plainOptions) twoFiles [firstBlock true, firstBlock false, firstBlock true], e.2 ≠ none := by
  have hal : Meets (next (fileStep tinySb plainOptions)) (fun σ op => op.Allowed tinySb σ) twoFiles
      [firstBlock true, firstBlock false, firstBlock true] :=
    ⟨firstBlock_allowed true _, firstBlock_allowed false _, firstBlock_allowed true _, trivial⟩
  exact ⟨hal, (files_refine (by decide) plainOptions twoFiles_refines hal).2⟩

/-- the blocks 4 and 6 of the volume are handed out to different files -/
theorem block_handed_out_once_tiny :
    (fileStep tinySb plainOptions twoFiles (firstBlock true)).2 = some ⟨0, some (4, true), 512⟩ ∧
    (fileStep tinySb plainOptions (run (next (fileStep tinySb plainOptions)) twoFiles [firstBlock true, firstBlock true])
      (firstBlock false)).2 = some ⟨0, some (6, true), 512⟩ ∧
    ∀ j < 512 / tinySb.blocksize, ∀ j' < 512 / tinySb.blocksize, 4 + j = 6 + j' ↔ true = false ∧ 0 + j = 0 + j' := by
  have hal : Meets (next (fileStep tinySb plainOptions)) (fun σ op => op.Allowed tinySb σ) twoFiles
      ([] ++ firstBlock true :: ([firstBlock true] ++ [firstBlock false])) :=
    ⟨firstBlock_allowed true _, firstBlock_allowed true _, firstBlock_allowed false _, trivial⟩
  have hfirst : (fileStep tinySb plainOptions twoFiles (firstBlock true)).2 = some ⟨0, some (4, true), 512⟩ := by
    decide +kernel
  have hlast : (fileStep tinySb plainOptions
      (run (next (fileStep tinySb plainOptions)) twoFiles [firstBlock true, firstBlock true]) (firstBlock false)).2 =
      some ⟨0, some (6, true), 512⟩ := by decide +kernel
  refine ⟨hfirst, hlast, block_handed_out_once (by decide) plainOptions twoFiles_refines hal (fun op hop => ?_) hfirst hlast⟩
  rw [List.mem_singleton.1 hop]
  trivial

end AtsLdd.Fat.CDriver
