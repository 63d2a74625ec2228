/-
What `fat_sync_read` answers.

A whole call asks for the cluster of the position and copies from the cluster it is given on. `get_nth_cluster` gives it the
first cluster of the file, whatever the position, so the copy starts in the first cluster, at the offset that the position
has in its own.
- `fatSyncRead_cases`: one call, for any volume and any pattern of failures;
- `ReadSpec`: what a call owes its caller: bytes of the file from the position on, at least one of them unless it answers
  -EIO, and all that are wanted when the chain is long enough and nothing fails;
- `fatSyncRead_right_iff`: when it does so: in the first cluster, and where the chain comes back to it;
- `fatSyncRead_wrong`: a read of the second cluster of a file.
-/
import AtsLdd.Fat.ReadPath

namespace AtsLdd.Fat

open AtsLdd.Machine AtsLdd.ByteMap AtsLdd.Chain

/-! ## Blocks of a position -/

/-- the blocks behind a part of the chain -/
theorem fileBlock_append (sb : FatSb) (front chain : List ℤ) (i : ℕ) :
    fileBlock sb (front ++ chain) (front.length * sb.secPerClus + i) = fileBlock sb chain i := by
  have hpos := sb.secPerClus_pos
  unfold fileBlock
  rw [Nat.mul_comm, Nat.mul_add_div hpos, Nat.mul_add_mod, List.getD_eq_getElem?_getD, List.getD_eq_getElem?_getD,
    List.getElem?_append_right (Nat.le_add_right _ _), Nat.add_sub_cancel_left]

/-- the blocks of a position, counted from its cluster -/
theorem block_of_pos (sb : FatSb) (pos : ℕ) : pos / sb.blocksize =
    pos / sb.clusterSize * sb.secPerClus + pos % sb.clusterSize / sb.blocksize := by
  have hdiv : pos / sb.clusterSize = pos / sb.blocksize / sb.secPerClus := (Nat.div_div_eq_div_mul _ _ _).symm
  have hmod : pos % sb.clusterSize / sb.blocksize = pos / sb.blocksize % sb.secPerClus := Nat.mod_mul_right_div_self _ _ _
  rw [hdiv, hmod, Nat.mul_comm]
  exact (Nat.div_add_mod _ _).symm

theorem mod_of_pos (sb : FatSb) (pos : ℕ) : pos % sb.clusterSize % sb.blocksize = pos % sb.blocksize :=
  Nat.mod_mul_right_mod _ _ _

/-- the cluster of the last byte, counted from the cluster of the first -/
theorem last_cluster (sb : FatSb) (pos : ℕ) {len : ℕ} (hlen : 0 < len) : (pos + len - 1) / sb.clusterSize =
    pos / sb.clusterSize + (pos % sb.clusterSize + len - 1) / sb.clusterSize := by
  have hdm := Nat.div_add_mod pos sb.clusterSize
  have hsplit : pos + len - 1 = sb.clusterSize * (pos / sb.clusterSize) + (pos % sb.clusterSize + len - 1) := by omega
  rw [hsplit, Nat.mul_add_div sb.clusterSize_pos]

/-! ## One call -/

/-- the bytes from `pos` on of the file with cluster chain `chain`, `k` of them, are in user memory from `p` on: byte `i`
comes from the buffer handed out for the block of the file that it lies in -/
def Delivered (sb : FatSb) (chain : List ℤ) (handed : List (ℕ × Buf)) (ubuf : ℕ → UInt8) (p pos k : ℕ) : Prop :=
  ∀ i < k, ∃ buf, handed[(pos + i) / sb.blocksize - pos / sb.blocksize]? =
    some (fileBlock sb chain ((pos + i) / sb.blocksize), buf) ∧ ubuf (p + i) = buf ((pos + i) % sb.blocksize)

theorem getElem?_of_mem_prefix {xs ys : List ℤ} {x : ℤ} (h : x ∈ xs) (hp : xs <+: ys) :
    ∃ j < xs.length, ys[j]? = some x := by
  obtain ⟨j, hj, rfl⟩ := List.getElem_of_mem h
  obtain ⟨tail, rfl⟩ := hp
  exact ⟨j, hj, by rw [List.getElem?_append_left hj, List.getElem?_eq_getElem hj]⟩

/-- what was copied, byte by byte -/
theorem delivered_of_progress {sb : FatSb} {chain : List ℤ} {s s' : St} {p pos len k m : ℕ} {es : List Access}
    (h : Progress sb.blocksize s p (pos % sb.blocksize) len s' k es)
    (hblk : (buffers es).map Prod.fst = (List.range m).map fun q => fileBlock sb chain (pos / sb.blocksize + q)) :
    Delivered sb chain (buffers es) s'.ubuf p pos k := by
  intro i hi
  have hpos := sb.blocksize_pos
  have hdm := Nat.div_add_mod pos sb.blocksize
  have hsplit : pos + i = sb.blocksize * (pos / sb.blocksize) + (pos % sb.blocksize + i) := by omega
  have hdiv : (pos + i) / sb.blocksize = pos / sb.blocksize + (pos % sb.blocksize + i) / sb.blocksize := by
    rw [hsplit, Nat.mul_add_div hpos]
  have hmod : (pos + i) % sb.blocksize = (pos % sb.blocksize + i) % sb.blocksize := by
    rw [hsplit, Nat.mul_add_mod]
  have hlt : (pos % sb.blocksize + i) / sb.blocksize < (buffers es).length := by
    rw [Nat.div_lt_iff_lt_mul hpos]
    have := h.cover (by omega)
    omega
  have hm : (buffers es).length = m := by
    rw [← List.length_map (f := Prod.fst), hblk, List.length_map, List.length_range]
  have hfst := congrArg (fun xs => xs[(pos % sb.blocksize + i) / sb.blocksize]?) hblk
  simp only [List.getElem?_map, List.getElem?_eq_getElem hlt, List.getElem?_range (hm ▸ hlt), Option.map_some,
    Option.some.injEq] at hfst
  rw [hdiv, hmod, Nat.add_sub_cancel_left]
  refine ⟨((buffers es)[(pos % sb.blocksize + i) / sb.blocksize]).2, ?_, ?_⟩
  · rw [List.getElem?_eq_getElem hlt, ← hfst]
  · rw [h.bytes, splice_of_mem (by omega) (by rw [length_slice]; omega), getElem_slice, Nat.add_sub_cancel_left, handedOut,
      concat, List.getD_eq_getElem?_getD, List.getElem?_map, List.getElem?_eq_getElem hlt]
    rfl

/-- the bytes copied lie before the end of the clusters read -/
theorem ClustersCopied.last_lt {env : Env} {sb : FatSb} {s : St} {p ofs len accu k m : ℕ} {ncls : ℤ} {r : Copied}
    {es : List Access} (h : ClustersCopied env sb s p ofs len ncls accu r es k m) (hk : 0 < k) :
    (ofs + k - 1) / sb.clusterSize < (clusters es).length := by
  have hbuf : (buffers es).length = m := by
    rw [← List.length_map (f := Prod.fst), h.blocks, List.length_map, List.length_range]
  have hcov := h.progress.cover hk
  have hcount : ofs + k ≤ (clusters es).length * sb.clusterSize := by
    have hmul : (ofs / sb.blocksize + m) * sb.blocksize ≤ (clusters es).length * sb.secPerClus * sb.blocksize :=
      Nat.mul_le_mul_right _ h.count
    have hsize : (clusters es).length * sb.secPerClus * sb.blocksize = (clusters es).length * sb.clusterSize := by
      unfold FatSb.clusterSize
      ring
    have hdm := Nat.div_add_mod ofs sb.blocksize
    rw [hsize, Nat.add_mul, Nat.mul_comm (ofs / sb.blocksize)] at hmul
    rw [hbuf] at hcov
    omega
  rw [Nat.div_lt_iff_lt_mul sb.clusterSize_pos]
  omega

/-- the copy reached the last cluster, or the chain ended before it -/
theorem ClustersCopied.reaches {env : Env} {sb : FatSb} {s : St} {p ofs len accu k m : ℕ} {ncls : ℤ} {r : Copied}
    {es : List Access} (h : ClustersCopied env sb s p ofs len ncls accu r es k m) (hlen : 0 < len) (hno : NoFailure es) :
    Ended sb es ∨ (ofs + len - 1) / sb.clusterSize < (clusters es).length := by
  rcases h.outcome with rfl | hbad | ⟨hend, -⟩
  · exact Or.inr (h.last_lt hlen)
  · exact absurd hno hbad
  · exact Or.inl hend

theorem ClustersCopied.covers {env : Env} {sb : FatSb} {s : St} {p ofs len accu k m : ℕ} {ncls : ℤ} {r : Copied}
    {es : List Access} (h : ClustersCopied env sb s p ofs len ncls accu r es k m) (hlen : 0 < len) (hno : NoFailure es)
    {j : ℕ} (hj : j ≤ (ofs + len - 1) / sb.clusterSize) {c : ℤ} (hc : (followed sb ncls es)[j]? = some c) :
    c ∈ (lookups es).map Prod.fst ∨ c ∈ clusters es := by
  rcases h.reaches hlen hno with hend | hlt
  · left
    rw [hend.entries_eq h.entries_prefix]
    exact List.mem_of_getElem? hc
  · right
    obtain ⟨tail, htail⟩ := h.clusters_prefix
    rw [← htail, List.getElem?_append_left (lt_of_le_of_lt hj hlt)] at hc
    exact List.mem_of_getElem? hc

/-- the cluster index of a position fits in `int` -/
theorem int32_cluster_index (sb : FatSb) {ino : FatInode} {pos : ℕ} (h : pos < ino.iSize) :
    (int32 (pos / sb.clusterSize : ℕ)).toNat = pos / sb.clusterSize := by
  have hmax := ino.size_max
  have hcs : 2 ^ 9 ≤ sb.clusterSize := sb.blocksize_min.trans (Nat.le_mul_of_pos_right _ sb.secPerClus_pos)
  have hle : pos / sb.clusterSize ≤ pos / 2 ^ 9 := Nat.div_le_div_left hcs (by norm_num)
  unfold S_MAXBYTES at hmax
  generalize pos / sb.clusterSize = k at hle ⊢
  rw [int32_of_bounds (by omega) (by omega), Int.toNat_natCast]

/-- inside a file with a first cluster: a search for the cluster, and a copy from the cluster it answers -/
theorem fatSyncRead_eq (env : Env) (sb : FatSb) {ino : FatInode} (s : St) (p n : ℕ) {pos : ℕ} (hstart : ino.iStart ≠ 0)
    (hpos : pos < ino.iSize) {q : NthCluster} (hq : getNthClusterLoop env sb (pos / sb.clusterSize) s ino.iStart 0 = q)
    {r : Copied} (hr : copyClustersImpl env sb (min (ino.iSize - pos) n) q.s p (pos % sb.clusterSize)
      (min (ino.iSize - pos) n) q.cls 0 0 = r) :
    fatSyncRead env sb ino s p n pos = if q.n1 < pos / sb.clusterSize then ⟨some (- EIO), pos, q.s⟩ else
      ⟨some (if r.accu > 0 then (r.accu : ℤ) else -r.err), pos + r.accu, r.s⟩ := by
  unfold fatSyncRead getNthCluster
  rw [if_neg (not_le.2 hpos)]
  simp only
  rw [if_neg hstart, int32_cluster_index sb hpos, hq, hr]

/-- **One call**, inside the file and with a first cluster: it answers -EIO when `get_nth_cluster` did not make all its
steps, and else copies from the first cluster on. -/
theorem fatSyncRead_cases (env : Env) (sb : FatSb) (ino : FatInode) (s : St) (p : ℕ) {n pos : ℕ} (hn : 0 < n)
    (hstart : ino.iStart ≠ 0) (hpos : pos < ino.iSize) :
    ∃ q es m, Stays env sb s ino.iStart (pos / sb.clusterSize) 0 q es m ∧
      (m < pos / sb.clusterSize ∧ fatSyncRead env sb ino s p n pos = ⟨some (- EIO), pos, q.s⟩ ∨
        m = pos / sb.clusterSize ∧ ∃ r es2 k j, copyClustersImpl env sb (min (ino.iSize - pos) n) q.s p
            (pos % sb.clusterSize) (min (ino.iSize - pos) n) ino.iStart 0 0 = r ∧
          ClustersCopied env sb q.s p (pos % sb.clusterSize) (min (ino.iSize - pos) n) ino.iStart 0 r es2 k j ∧
          fatSyncRead env sb ino s p n pos =
            ⟨some (if r.accu > 0 then (r.accu : ℤ) else -r.err), pos + r.accu, r.s⟩) := by
  have hlen : 0 < min (ino.iSize - pos) n := by omega
  obtain ⟨es, m, h⟩ := getNthClusterLoop_stays env sb (pos / sb.clusterSize) s ino.iStart 0
  have hcall := fatSyncRead_eq env sb s p n hstart hpos rfl rfl
  rw [h.n1_eq, Nat.zero_add, h.cls_eq] at hcall
  refine ⟨_, es, m, h, ?_⟩
  rcases Nat.lt_or_ge m (pos / sb.clusterSize) with hlt | hge
  · rw [if_pos hlt] at hcall
    exact Or.inl ⟨hlt, hcall⟩
  · rw [if_neg (not_lt.2 hge)] at hcall
    obtain ⟨es2, k, j, hcopy⟩ := copyClusters_spec env sb (min (ino.iSize - pos) n)
      (getNthClusterLoop env sb (pos / sb.clusterSize) s ino.iStart 0).s p (pos % sb.clusterSize)
      (min (ino.iSize - pos) n) ino.iStart 0 (Nat.mod_lt _ sb.clusterSize_pos) hlen le_rfl
    exact Or.inr ⟨le_antisymm h.le hge, _, es2, k, j, rfl, hcopy, hcall⟩

/-! ## What a call owes -/

/-- `v` stands in the FAT entry of cluster `c`: in the FAT of the volume, or in a FAT block that the call was handed out -/
def Stands (sb : FatSb) (vol : Vol) (es : List Access) (c v : ℤ) : Prop :=
  fatLink sb vol c = v ∨ ∃ buf, (c, buf) ∈ lookups es ∧ linkIn sb buf c = v

/-- the cluster chain of a file from cluster `start` on, or the beginning of it -/
def FileChain (sb : FatSb) (vol : Vol) (es : List Access) (start : ℤ) (chain : List ℤ) : Prop :=
  chain.head? = some start ∧ chain.IsChain fun c d => IsLink d ∧ Stands sb vol es c d

/-- the cluster chain of a file does not end before index `J` -/
def Reaches (sb : FatSb) (vol : Vol) (es : List Access) (start : ℤ) (J : ℕ) : Prop :=
  ∀ chain, FileChain sb vol es start chain → chain.length ≤ J → ∀ c v, chain.getLast? = some c → Stands sb vol es c v →
    IsLink v

/-- what a read of `want` bytes from `pos` on owes its caller -/
structure ReadSpec (sb : FatSb) (start : ℤ) (s : St) (p pos want : ℕ) (r : SyncRead) : Prop where
  answer : r.ret = some (- EIO : ℤ) ∧ r.pos = pos ∨
    ∃ k chain, 1 ≤ k ∧ k ≤ want ∧ r.ret = some (k : ℤ) ∧ r.pos = pos + k ∧
      FileChain sb s.vol (accesses s r.s) start chain ∧ (pos + k - 1) / sb.clusterSize < chain.length ∧
      Delivered sb chain (buffers (accesses s r.s)) r.s.ubuf p pos k ∧
      ∀ a, ¬ (p ≤ a ∧ a < p + k) → r.s.ubuf a = s.ubuf a
  /-- nothing is missing when no access fails and the chain reaches the cluster of the last byte -/
  full : NoFailure (accesses s r.s) → Reaches sb s.vol (accesses s r.s) start ((pos + want - 1) / sb.clusterSize) →
    r.ret = some (want : ℤ)
  /-- what was found in the FAT is what stood there before the call, unless a FAT block was handed out as data -/
  found : ∀ c buf, (c, buf) ∈ lookups (accesses s r.s) →
    (fatEntBlocknr sb c).2 ∉ (buffers (accesses s r.s)).map Prod.fst → linkIn sb buf c = fatLink sb s.vol c

/-- `fat_sync_read` does what it owes: at or behind the end of the file it answers 0 and changes nothing, before it
`ReadSpec` -/
def ReadsRight (env : Env) (sb : FatSb) (ino : FatInode) (s : St) (p n pos : ℕ) : Prop :=
  (ino.iSize ≤ pos → fatSyncRead env sb ino s p n pos = ⟨some 0, pos, s⟩) ∧
    (pos < ino.iSize →
      ReadSpec sb ino.iStart s p pos (min n (ino.iSize - pos)) (fatSyncRead env sb ino s p n pos))

/-- a read from `pos` on is right: it is behind the end of the file or in the first cluster, or there is no second cluster,
or the chain is back at its first cluster there -/
def RightAt (sb : FatSb) (ino : FatInode) (vol : Vol) (pos : ℕ) : Prop :=
  ino.iSize ≤ pos ∨ pos < sb.clusterSize ∨ ¬ IsLink (fatLink sb vol ino.iStart) ∨
    nth (fatSucc sb vol) ino.iStart (pos / sb.clusterSize) = some ino.iStart

section
variable {env : Env} {sb : FatSb} {s : St} {start : ℤ} {p pos len m : ℕ} {q : NthCluster} {es : List Access}

theorem Stays.found (h : Stays env sb s start (pos / sb.clusterSize) 0 q es m) {c : ℤ} {buf : Buf}
    (hmem : (c, buf) ∈ lookups es) : linkIn sb buf c = fatLink sb s.vol c := by
  obtain ⟨e, he, hl⟩ := List.mem_filterMap.1 hmem
  rcases h.entries e he with rfl | rfl
  · exact absurd hl (by simp [Access.lookup?])
  · obtain ⟨rfl, rfl⟩ := Prod.mk.inj (Option.some.inj hl)
    rfl

/-- a call that answers -EIO owes no more, since the file has no second cluster or something failed -/
theorem Stays.readSpec (h : Stays env sb s start (pos / sb.clusterSize) 0 q es m) (hm : m < pos / sb.clusterSize)
    (hlen : 0 < len) : ReadSpec sb start s p pos len ⟨some (- EIO), pos, q.s⟩ := by
  have hacc : accesses s q.s = es := accesses_eq h.log
  refine ⟨Or.inl ⟨rfl, rfl⟩, fun hno hreach => ?_, fun c buf hmem _ => ?_⟩
  · rw [hacc] at hno
    rcases (h.stopped hm).2 with ⟨-, hbad⟩ | hend
    · exact absurd hno hbad
    · refine absurd (hreach [start] ⟨rfl, List.isChain_singleton _⟩ ?_ start _ rfl (Or.inl rfl)) hend
      rw [last_cluster sb pos hlen, List.length_singleton]
      exact (Nat.one_le_of_lt hm).trans (Nat.le_add_right _ _)
  · simp only at hmem
    rw [hacc] at hmem
    exact h.found hmem

/-- a call that copies from the first cluster on does what it owes when that is the cluster of the position -/
theorem ClustersCopied.readSpec {r : Copied} {es2 : List Access} {k j : ℕ}
    (hq : Stays env sb s start (pos / sb.clusterSize) 0 q es (pos / sb.clusterSize))
    (h : ClustersCopied env sb q.s p (pos % sb.clusterSize) len start 0 r es2 k j) (hlen : 0 < len)
    (hback : nth (fatSucc sb s.vol) start (pos / sb.clusterSize) = some start) :
    ReadSpec sb start s p pos len ⟨some (if r.accu > 0 then (r.accu : ℤ) else -r.err), pos + r.accu, r.s⟩ := by
  have hacc : accesses s r.s = es ++ es2 := accesses_eq (by rw [h.progress.log, hq.log, List.append_assoc])
  have hbuf : buffers (es ++ es2) = buffers es2 := by rw [buffers_append, hq.buffers_nil, List.nil_append]
  have haccu : r.accu = k := by
    have := h.accu_eq
    omega
  -- the chain up to the cluster of the position, and from there on the one that the copy followed
  obtain ⟨front, hfront, hhead, hchain⟩ := exists_front hback
  have hfile : FileChain sb s.vol (es ++ es2) start (front ++ followed sb start es2) := by
    refine ⟨?_, List.isChain_split.2 ⟨hchain.imp fun c d hcd => ?_, h.along.chain.imp fun c d hcd => ?_⟩⟩
    · cases front with
      | nil => rfl
      | cons x xs => exact hhead
    · obtain ⟨hl, rfl⟩ := fatSucc_isLink hcd
      exact ⟨hl, Or.inl rfl⟩
    · obtain ⟨hl, buf, hmem, heq⟩ := hcd
      exact ⟨hl, Or.inr ⟨buf, by rw [lookups_append]; exact List.mem_append_right _ hmem, heq⟩⟩
  refine ⟨?_, fun hno hreach => ?_, fun c buf hmem hne => ?_⟩
  · simp only
    rw [hacc, haccu]
    rcases Nat.eq_zero_or_pos k with hk | hk
    · left
      rw [hk, if_neg (lt_irrefl 0), h.err_of_zero hk]
      exact ⟨rfl, rfl⟩
    · right
      rw [if_pos hk]
      refine ⟨k, _, hk, h.progress.le, rfl, rfl, hfile, ?_, ?_, fun a ha => ?_⟩
      · have hlt := h.last_lt hk
        have hle := h.clusters_prefix.length_le
        rw [last_cluster sb pos hk, List.length_append, hfront]
        omega
      · have hprog := h.progress
        rw [mod_of_pos] at hprog
        rw [hbuf]
        refine delivered_of_progress (m := j) hprog ?_
        rw [h.blocks]
        refine List.map_congr_left fun i _ => ?_
        rw [block_of_pos sb pos, Nat.add_assoc, ← fileBlock_append sb front, hfront]
      · rw [h.progress.bytes, splice_of_not_mem (by rw [length_slice]; exact ha), hq.quiet.ubuf]
  · simp only at hno hreach ⊢
    rw [hacc] at hno hreach
    rcases h.outcome with hall | hbad | ⟨hend, hlt⟩
    · rw [haccu, hall, if_pos hlen]
    · exact absurd hno.right hbad
    · obtain ⟨a, buf, hlast, hmem, hne⟩ := h.along.last hend
      refine absurd (hreach _ hfile ?_ a _ ?_ (Or.inr ⟨buf, ?_, rfl⟩)) hne
      · rw [last_cluster sb pos hlen, List.length_append, hfront, followed, List.length_cons]
        omega
      · rw [List.getLast?_append_of_ne_nil _ (by simp [followed])]
        exact hlast
      · rw [lookups_append]
        exact List.mem_append_right _ hmem
  · simp only at hmem hne
    rw [hacc] at hmem hne
    rw [hbuf] at hne
    rw [lookups_append] at hmem
    rcases List.mem_append.1 hmem with hmem | hmem
    · exact hq.found hmem
    · rw [h.looked c buf hmem hne, hq.quiet.vol]
      rfl

end

/-! ## Where a call goes wrong -/

/-- different clusters have different blocks -/
theorem ncluster2block_inj (sb : FatSb) {c d : ℤ} {i : ℕ} (hc0 : -2 ^ 31 ≤ c) (hc : c < 2 ^ 31) (hd0 : -2 ^ 31 ≤ d)
    (hd : d < 2 ^ 31) (h : sectorAdd (ncluster2block sb c) i = sectorAdd (ncluster2block sb d) i) : c = d := by
  have hspc : (sb.secPerClus : ℤ) ≤ 2 ^ 7 := by exact_mod_cast Nat.pow_le_pow_right Nat.two_pos sb.spc_max
  have hpos : (0 : ℤ) < sb.secPerClus := by exact_mod_cast sb.secPerClus_pos
  obtain ⟨hx0, hx⟩ := int32_bounds (c - FAT_START_ENT)
  obtain ⟨hy0, hy⟩ := int32_bounds (d - FAT_START_ENT)
  unfold sectorAdd ncluster2block ulong at h
  have hsame : int32 (c - FAT_START_ENT) = int32 (d - FAT_START_ENT) := by
    generalize int32 (c - FAT_START_ENT) = x at hx0 hx h
    generalize int32 (d - FAT_START_ENT) = y at hy0 hy h ⊢
    have hmod : ((x - y) * sb.secPerClus) % 2 ^ 64 = 0 := by
      have hring : x * (sb.secPerClus : ℤ) - y * sb.secPerClus = (x - y) * sb.secPerClus := by ring
      rw [← hring]
      omega
    have hle : (x - y) * sb.secPerClus < 2 ^ 32 * 2 ^ 7 := by nlinarith
    have hge : -(2 ^ 32 * 2 ^ 7) < (x - y) * sb.secPerClus := by nlinarith
    rcases mul_eq_zero.1 (show (x - y) * (sb.secPerClus : ℤ) = 0 by omega) with h0 | h0
    · omega
    · omega
  unfold int32 at hsame
  rw [Int.bmod_eq_bmod_iff_bmod_sub_eq_zero] at hsame
  have hdvd := Int.dvd_of_bmod_eq_zero hsame
  push_cast at hdvd
  omega

/-- blocks can be read before tick `T` only, and nothing else fails -/
def briefEnv (T : ℕ) : Env := ⟨fun t _ => decide (t < T), fun _ => true, fun _ _ => true, fun _ => 2 ^ 12⟩

theorem copyPhyblock_time (env : Env) (s : St) (p ofs len nblk err : ℕ) :
    s.t < (copyPhyblockImpl env s p ofs len nblk err).s.t := by
  cases hb : env.bread s.t nblk with
  | false =>
    simp only [copyPhyblockImpl, atsfsSbread, sbBread_fail hb]
    omega
  | true =>
    obtain ⟨vol, disk, refs, hread, -⟩ := atsfsSbread_ok hb
    simp only [copyPhyblockImpl, hread, copyToUser, brelse]
    omega

/-- later blocks take time and add to what was copied -/
theorem copyPhyblocks_mono (env : Env) (blksz fuel : ℕ) : ∀ (s : St) (p ofs len nblk accu err : ℕ),
    s.t ≤ (copyPhyblocksImpl env blksz fuel s p ofs len nblk accu err).s.t ∧
      accu ≤ (copyPhyblocksImpl env blksz fuel s p ofs len nblk accu err).accu := by
  induction fuel with
  | zero => intro s p ofs len nblk accu err; exact ⟨le_rfl, le_rfl⟩
  | succ fuel ih =>
    intro s p ofs len nblk accu err
    have htime := copyPhyblock_time env s p ofs (min len (blksz - ofs)) nblk err
    simp only [copyPhyblocksImpl]
    split_ifs
    · exact ⟨le_rfl, le_rfl⟩
    · obtain ⟨ht, ha⟩ := ih (copyPhyblockImpl env s p ofs (min len (blksz - ofs)) nblk err).s (p + min len (blksz - ofs)) 0
        (len - min len (blksz - ofs)) (sectorAdd nblk 1)
        (accu + (copyPhyblockImpl env s p ofs (min len (blksz - ofs)) nblk err).accu)
        (copyPhyblockImpl env s p ofs (min len (blksz - ofs)) nblk err).err
      exact ⟨htime.le.trans ht, (Nat.le_add_right _ _).trans ha⟩
    · exact ⟨htime.le, Nat.le_add_right _ _⟩

/-- when reads succeed once more, the first block of a cluster is copied -/
theorem copyCluster_brief (sb : FatSb) (s : St) (p ofs : ℕ) {len : ℕ} (hlen : 0 < len) (ncls : ℤ) :
    0 < (copyClusterImpl (briefEnv (s.t + 1)) sb s p ofs len ncls 0).accu ∧
      s.t < (copyClusterImpl (briefEnv (s.t + 1)) sb s p ofs len ncls 0).s.t := by
  obtain ⟨g, rfl⟩ : ∃ g, len = g + 1 := ⟨len - 1, by omega⟩
  have hblk := Nat.mod_lt ofs sb.blocksize_pos
  have hmax := sb.blocksize_max
  simp only [copyClusterImpl, copyPhyblocksImpl, if_neg (show ¬ (0 : ℕ) ≠ 0 by simp), Nat.zero_add]
  generalize hs0 : ({ s with log := s.log ++ [.cluster ncls] } : St) = s0
  have ht0 : s0.t = s.t := by rw [← hs0]
  generalize sectorAdd (ncluster2block sb ncls) (ofs / sb.blocksize) = blk
  have htime := copyPhyblock_time (briefEnv (s.t + 1)) s0 p (ofs % sb.blocksize)
    (min (g + 1) (sb.blocksize - ofs % sb.blocksize)) blk 0
  have haccu : 0 < (copyPhyblockImpl (briefEnv (s.t + 1)) s0 p (ofs % sb.blocksize)
      (min (g + 1) (sb.blocksize - ofs % sb.blocksize)) blk 0).accu := by
    have hok : (briefEnv (s.t + 1)).bread s0.t blk = true := by simp [briefEnv, ht0]
    obtain ⟨vol, disk, refs, hread, -⟩ := atsfsSbread_ok hok
    have hcopied : ∀ t, (briefEnv (s.t + 1)).copied t = 2 ^ 12 := fun _ => rfl
    simp only [copyPhyblockImpl, hread, copyToUser, length_slice, hcopied]
    omega
  rw [ht0] at htime
  split_ifs
  · obtain ⟨ht, ha⟩ := copyPhyblocks_mono (briefEnv (s.t + 1)) sb.blocksize g _ _ _ _ _ _ _
    exact ⟨haccu.trans_le ha, htime.trans_le ht⟩
  · exact ⟨haccu, htime⟩

/-- when reads succeed once more, a copy delivers something, and looks nothing up -/
theorem copyClusters_brief (sb : FatSb) (s : St) (p : ℕ) {ofs len : ℕ} (hlen : 0 < len) (hofs : ofs < sb.clusterSize)
    (ncls : ℤ) : ∃ s' accu err, copyClustersImpl (briefEnv (s.t + 1)) sb len s p ofs len ncls 0 0 = ⟨accu, err, s'⟩ ∧
      0 < accu ∧ ∃ es, s'.log = s.log ++ es ∧ lookups es = [] := by
  obtain ⟨f, rfl⟩ : ∃ f, len = f + 1 := ⟨len - 1, by omega⟩
  have hlen1 : 0 < min (f + 1) (sb.clusterSize - ofs) := by omega
  obtain ⟨es, k, m, h, -⟩ := @copyCluster_spec (briefEnv (s.t + 1)) sb s p ofs _ hlen1 ncls
  have hfirst := copyCluster_brief sb s p ofs hlen1 ncls
  rw [copyClustersImpl, if_neg (by simp)]
  simp only [Nat.zero_add]
  generalize copyClusterImpl (briefEnv (s.t + 1)) sb s p ofs (min (f + 1) (sb.clusterSize - ofs)) ncls 0 = r at h hfirst
  by_cases herr : r.err ≠ 0
  · rw [if_pos herr]
    exact ⟨r.s, r.accu, r.err, rfl, hfirst.1, es, h.progress.log, h.lookups_nil⟩
  · -- the FAT cannot be read any more
    obtain ⟨s2, -, -, ⟨-, hread, -⟩ | ⟨hres, -, hlog⟩⟩ := fatentNextSb_spec (briefEnv (s.t + 1)) sb r.s ncls
    · exact absurd (of_decide_eq_true hread) (by omega)
    · rw [if_neg herr, hres]
      refine ⟨s2, r.accu, r.err, rfl, hfirst.1, es ++ [.entry ncls none], ?_, ?_⟩
      · rw [hlog, h.progress.log, List.append_assoc]
      · rw [lookups_append, h.lookups_nil]
        rfl

/-! ## Correctness -/

/-- the elements of a file chain are `int`s -/
theorem FileChain.bounds {sb : FatSb} {vol : Vol} {es : List Access} {ino : FatInode} {chain : List ℤ}
    (h : FileChain sb vol es ino.iStart chain) {k : ℕ} {c : ℤ} (hc : chain[k]? = some c) : -2 ^ 31 ≤ c ∧ c < 2 ^ 31 := by
  obtain ⟨hlt, rfl⟩ := List.getElem?_eq_some_iff.1 hc
  cases k with
  | zero =>
    have hhead := h.1
    rw [List.head?_eq_getElem?, List.getElem?_eq_getElem hlt] at hhead
    rw [Option.some.inj hhead]
    exact ⟨ino.start_min, ino.start_max⟩
  | succ k =>
    obtain ⟨hl, hv⟩ := List.isChain_iff_getElem.1 h.2 k hlt
    have hbounds : 0 < chain[k + 1] ∧ chain[k + 1] < BAD_FAT32 := by
      rcases hv with hv | ⟨buf, -, hv⟩
      · rw [← hv] at hl ⊢
        exact isLink_bounds hl
      · rw [← hv] at hl ⊢
        exact isLink_bounds hl
    unfold BAD_FAT32 at hbounds
    omega

/-- a call that delivers what it owes tells the chain: it is back at its first cluster, where the first byte comes from -/
theorem ReadSpec.back {env : Env} {sb : FatSb} {ino : FatInode} {s : St} {p n pos want : ℕ}
    (h : ReadSpec sb ino.iStart s p pos want (fatSyncRead env sb ino s p n pos)) (hn : 0 < n) (hstart : ino.iStart ≠ 0)
    (hpos : pos < ino.iSize) (hret : (fatSyncRead env sb ino s p n pos).ret ≠ some (- EIO : ℤ))
    (hfound : ∀ c buf, (c, buf) ∈ lookups (accesses s (fatSyncRead env sb ino s p n pos).s) →
      linkIn sb buf c = fatLink sb s.vol c) :
    nth (fatSucc sb s.vol) ino.iStart (pos / sb.clusterSize) = some ino.iStart := by
  rcases h.answer with ⟨herr, -⟩ | ⟨k', chain, hk', -, -, -, hchain, hreach, hdel, -⟩
  · exact absurd herr hret
  obtain ⟨q, es, m, hq, ⟨-, hcall⟩ | ⟨-, r, es2, k, j, -, hcopy, hcall⟩⟩ := fatSyncRead_cases env sb ino s p hn hstart hpos
  · rw [hcall] at hret
    exact absurd rfl hret
  -- the first byte delivered is of a block of the first cluster
  obtain ⟨buf, hfirst, -⟩ := hdel 0 hk'
  rw [hcall, accesses_eq (show r.s.log = s.log ++ (es ++ es2) by rw [hcopy.progress.log, hq.log, List.append_assoc]),
    Nat.add_zero, Nat.sub_self, buffers_append, hq.buffers_nil, List.nil_append] at hfirst
  have hblk := congrArg (fun xs => xs[0]?) hcopy.blocks
  simp only [List.getElem?_map, hfirst, Option.map_some] at hblk
  have hj : 0 < j := by
    by_contra hj
    rw [Nat.le_zero.1 (not_lt.1 hj)] at hblk
    exact absurd hblk (by simp)
  have hofs : pos % sb.clusterSize / sb.blocksize < sb.secPerClus :=
    Nat.div_lt_of_lt_mul (Nat.mod_lt _ sb.clusterSize_pos)
  rw [List.getElem?_range hj, Option.map_some, Option.some.injEq, Nat.add_zero, followed, fileBlock_head sb _ _ hofs,
    block_of_pos sb pos] at hblk
  obtain ⟨c, hc⟩ : ∃ c, chain[pos / sb.clusterSize]? = some c := by
    rw [← Option.ne_none_iff_exists', Ne, List.getElem?_eq_none_iff]
    have := Nat.div_le_div_right (c := sb.clusterSize) (show pos ≤ pos + k' - 1 by omega)
    omega
  have hcluster : c = ino.iStart := by
    rw [fileBlock, Nat.mul_comm, Nat.mul_add_div sb.secPerClus_pos, Nat.div_eq_of_lt hofs, Nat.add_zero, Nat.mul_add_mod,
      Nat.mod_eq_of_lt hofs, List.getD_eq_getElem?_getD, hc] at hblk
    exact ncluster2block_inj sb (hchain.bounds hc).1 (hchain.bounds hc).2 ino.start_min ino.start_max hblk
  rw [hcluster] at hc
  refine nth_of_isChain hchain.1 (hchain.2.imp fun a b hab => ?_) hc
  obtain ⟨hb, hv | ⟨buf', hmem, hv⟩⟩ := hab
  · rw [← hv] at hb ⊢
    exact fatSucc_link hb
  · rw [hfound a buf' hmem] at hv
    rw [← hv] at hb ⊢
    exact fatSucc_link hb

/-- where reads succeed just long enough for one block, something is delivered, and only the entry of the first cluster was
looked up -/
theorem fatSyncRead_brief {sb : FatSb} {ino : FatInode} {s : St} (p : ℕ) {n pos : ℕ} (hn : 0 < n) (hstart : ino.iStart ≠ 0)
    (hpos : pos < ino.iSize) (hlink : IsLink (fatLink sb s.vol ino.iStart)) :
    (fatSyncRead (briefEnv (s.t + pos / sb.clusterSize + 1)) sb ino s p n pos).ret ≠ some (- EIO : ℤ) ∧
      ∀ c buf, (c, buf) ∈ lookups (accesses s
        (fatSyncRead (briefEnv (s.t + pos / sb.clusterSize + 1)) sb ino s p n pos).s) →
        linkIn sb buf c = fatLink sb s.vol c := by
  obtain ⟨q, es, m, hq, hcase⟩ := fatSyncRead_cases (briefEnv (s.t + pos / sb.clusterSize + 1)) sb ino s p hn hstart hpos
  have hm : m = pos / sb.clusterSize :=
    hq.complete (fun i hi => by simp only [briefEnv, decide_eq_true_eq]; omega) (Or.inr hlink)
  rcases hcase with ⟨hlt, -⟩ | ⟨-, r, es2, k, j, hr, -, hcall⟩
  · exact absurd hm hlt.ne
  subst hm
  have htime : s.t + pos / sb.clusterSize = q.s.t := (hq.all rfl).2.1.symm
  obtain ⟨s', accu, err, hres, haccu, es', hlog, hnone⟩ := copyClusters_brief sb q.s p
    (show 0 < min (ino.iSize - pos) n by omega) (Nat.mod_lt pos sb.clusterSize_pos) ino.iStart
  rw [← htime, hr] at hres
  subst hres
  rw [hcall, accesses_eq (show s'.log = s.log ++ (es ++ es') by rw [hlog, hq.log, List.append_assoc])]
  refine ⟨fun hret => ?_, fun c buf hmem => ?_⟩
  · rw [if_pos haccu] at hret
    have hneg := Option.some.inj hret
    simp only at hneg
    omega
  · rw [lookups_append, hnone, List.append_nil] at hmem
    exact hq.found hmem

/-- **When `fat_sync_read` is correct.** Whatever fails, it delivers the bytes of the file at the position exactly when the
position is in the first cluster or behind the end, or there is no second cluster, or the chain is back at its first
cluster there: the copy always starts in the first cluster. -/
theorem fatSyncRead_right_iff (sb : FatSb) (ino : FatInode) (s : St) (p n pos : ℕ) (hn : 0 < n) (hstart : ino.iStart ≠ 0) :
    (∀ env, ReadsRight env sb ino s p n pos) ↔ RightAt sb ino s.vol pos := by
  constructor
  · intro h
    by_contra hwrong
    rw [RightAt, not_or, not_or, not_or, not_not] at hwrong
    obtain ⟨hend, -, hlink, hback⟩ := hwrong
    obtain ⟨hret, hfound⟩ := fatSyncRead_brief p hn hstart (not_le.1 hend) hlink
    exact hback (((h _).2 (not_le.1 hend)).back hn hstart (not_le.1 hend) hret hfound)
  · intro h env
    refine ⟨fun hend => if_pos hend, fun hpos => ?_⟩
    have hlen : 0 < min (ino.iSize - pos) n := by omega
    obtain ⟨q, es, m, hq, ⟨hlt, hcall⟩ | ⟨rfl, r, es2, k, j, -, hcopy, hcall⟩⟩ :=
      fatSyncRead_cases env sb ino s p hn hstart hpos
    · rw [hcall, Nat.min_comm]
      exact hq.readSpec hlt hlen
    · rw [hcall, Nat.min_comm]
      refine hcopy.readSpec hq hlen ?_
      rcases h with hend | hfirst | hnolink | hback
      · exact absurd hpos (not_lt.2 hend)
      · rw [Nat.div_eq_of_lt hfirst]
        rfl
      · rcases Nat.eq_zero_or_pos (pos / sb.clusterSize) with h0 | h0
        · rw [h0]
          rfl
        · exact absurd (hq.link h0) hnolink
      · exact hback

/-- 600 bytes from the first cluster into the second -/
theorem fatSyncRead_right_iff_tiny : ReadSpec tinySb 3 (St.idle (tinyVol (· + 1))) 0 500 600
    (fatSyncRead goodEnv tinySb (tinyInode 3 (by decide)) (St.idle (tinyVol (· + 1))) 0 600 500) := by
  have h := ((fatSyncRead_right_iff tinySb (tinyInode 3 (by decide)) (St.idle (tinyVol (· + 1))) 0 600 500 (by decide)
    (by decide)).2 (Or.inr (Or.inl (by decide))) goodEnv).2 (by decide)
  have hwant : min 600 ((tinyInode 3 (by decide)).iSize - 500) = 600 := by decide
  rwa [hwant] at h

/-- one byte at position 1024 of a file of the clusters 3, 4 and 5, with nothing that fails: it comes from cluster 3 -/
theorem fatSyncRead_wrong : ¬ ∀ (env : Env) (sb : FatSb) (ino : FatInode) (s : St) (p n pos : ℕ), 0 < n →
    ino.iStart ≠ 0 → ReadsRight env sb ino s p n pos := by
  intro h
  have hpos : 1024 < (tinyInode 3 (by decide)).iSize := by decide
  have hspec := (h goodEnv tinySb (tinyInode 3 (by decide)) (St.idle (tinyVol (· + 1))) 0 1 1024 one_pos (by decide)).2 hpos
  have hentries : (lookups (accesses (St.idle (tinyVol (· + 1))) (fatSyncRead goodEnv tinySb (tinyInode 3 (by decide))
      (St.idle (tinyVol (· + 1))) 0 1 1024).s)).map Prod.fst = [3, 3] := by decide +kernel
  have hblocks : (buffers (accesses (St.idle (tinyVol (· + 1))) (fatSyncRead goodEnv tinySb (tinyInode 3 (by decide))
      (St.idle (tinyVol (· + 1))) 0 1 1024).s)).map Prod.fst = [4] := by decide +kernel
  have hback := hspec.back one_pos (by decide) hpos (by decide +kernel) fun c buf hmem => hspec.found c buf hmem (by
    have hc : c ∈ [3, 3] := hentries ▸ List.mem_map_of_mem hmem
    have hc3 : c = 3 := by simpa using hc
    rw [hblocks, hc3]
    decide)
  exact absurd hback (by decide +kernel)

end AtsLdd.Fat
