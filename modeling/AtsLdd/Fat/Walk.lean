/-
What a walk along a cluster chain does. `fat_get_cluster` walks; `get_nth_cluster`, which should, stays where it is.

A log tells which chain a call followed: `followed` is its first cluster and the links it found in the FAT blocks handed
out. `Walk` has one rule for each way a walk can go on or stop.

- `fatGetClusterLoop_walk`: `fat_get_cluster` makes such a walk;
- `getNthClusterLoop_stays`: `get_nth_cluster` looks up one entry, that of the cluster it was given;
- `Walk.reached`, `Walk.followed_nth`: a walk stays on the chain of the volume, `nth (fatSucc sb vol)`;
- `Walk.stopped`: it stops early only at a failure or at the end of the chain.
-/
import AtsLdd.Core.Chain
import AtsLdd.Fat.FileRead

namespace AtsLdd.Fat

open AtsLdd.Machine AtsLdd.Chain

/-! ## The chain in a log -/

/-- what was accessed between two states -/
def accesses (s s' : St) : List Access := s'.log.drop s.log.length

theorem accesses_eq {s s' : St} {es : List Access} (h : s'.log = s.log ++ es) : accesses s s' = es := by
  unfold accesses
  rw [h, List.drop_left]

/-- every access of the log succeeded -/
def NoFailure (es : List Access) : Prop := ∀ e ∈ es, e.ok

theorem NoFailure.append {a b : List Access} (ha : NoFailure a) (hb : NoFailure b) : NoFailure (a ++ b) := by
  intro e he
  rcases List.mem_append.1 he with h | h
  · exact ha e h
  · exact hb e h

theorem NoFailure.left {a b : List Access} (h : NoFailure (a ++ b)) : NoFailure a :=
  fun e he => h e (List.mem_append_left b he)

theorem NoFailure.right {a b : List Access} (h : NoFailure (a ++ b)) : NoFailure b :=
  fun e he => h e (List.mem_append_right a he)

theorem NoFailure.cons {e : Access} {es : List Access} (he : e.ok) (h : NoFailure es) : NoFailure (e :: es) := by
  intro x hx
  rcases List.mem_cons.1 hx with rfl | hx
  · exact he
  · exact h x hx

/-- the first data block that a call asked for -/
def firstBlock : List Access → Option ℕ
  | [] => none
  | .block b _ :: _ => some b
  | _ :: es => firstBlock es

theorem firstBlock_append {a b : List Access} {n : ℕ} (h : firstBlock a = some n) : firstBlock (a ++ b) = some n := by
  induction a with
  | nil => exact absurd h (by simp [firstBlock])
  | cons e a ih =>
    cases e with
    | block b o => exact h
    | entry c o => exact ih h
    | cluster c => exact ih h
    | copy k => exact ih h

theorem firstBlock_append_none {a b : List Access} (h : firstBlock a = none) : firstBlock (a ++ b) = firstBlock b := by
  induction a with
  | nil => rfl
  | cons e a ih =>
    cases e with
    | block b o => exact absurd h (by simp [firstBlock])
    | entry c o => exact ih h
    | cluster c => exact ih h
    | copy k => exact ih h

/-- the links that a call found, in order -/
def links (sb : FatSb) (es : List Access) : List ℤ :=
  (lookups es).filterMap fun e => if IsLink (linkIn sb e.2 e.1) then some (linkIn sb e.2 e.1) else none

/-- the chain that a call followed from cluster `start` on, along the links in the FAT blocks it was handed out -/
def followed (sb : FatSb) (start : ℤ) (es : List Access) : List ℤ := start :: links sb es

/-- the chain ended: an entry looked up is free, or marks the end -/
def Ended (sb : FatSb) (es : List Access) : Prop := ∃ e ∈ lookups es, ¬ IsLink (linkIn sb e.2 e.1)

@[simp] theorem links_append (sb : FatSb) (a b : List Access) : links sb (a ++ b) = links sb a ++ links sb b := by
  unfold links
  rw [lookups_append, List.filterMap_append]

theorem Ended.right {sb : FatSb} {a b : List Access} (h : Ended sb b) : Ended sb (a ++ b) := by
  obtain ⟨e, he, hne⟩ := h
  exact ⟨e, by rw [lookups_append]; exact List.mem_append_right _ he, hne⟩

theorem Ended.left {sb : FatSb} {a b : List Access} (h : Ended sb a) : Ended sb (a ++ b) := by
  obtain ⟨e, he, hne⟩ := h
  exact ⟨e, by rw [lookups_append]; exact List.mem_append_left _ he, hne⟩

/-- when the chain ended, every cluster followed was looked up -/
theorem Ended.entries_eq {sb : FatSb} {start : ℤ} {es : List Access} (h : Ended sb es)
    (hp : (lookups es).map Prod.fst <+: followed sb start es) : (lookups es).map Prod.fst = followed sb start es := by
  obtain ⟨e, he, hne⟩ := h
  apply hp.eq_of_length_le
  have hlt : (links sb es).length < (lookups es).length := by
    unfold links
    rw [List.length_filterMap_eq_countP]
    refine List.countP_lt_length_iff.2 ⟨e, he, ?_⟩
    rw [if_neg hne]
    simp
  rw [followed, List.length_cons, List.length_map]
  exact hlt

theorem links_nil_of_lookups {sb : FatSb} {es : List Access} (h : lookups es = []) : links sb es = [] := by
  unfold links
  rw [h]
  rfl

theorem links_cons_link {sb : FatSb} {c : ℤ} {buf : Buf} (h : IsLink (linkIn sb buf c)) (es : List Access) :
    links sb (.entry c (some buf) :: es) = linkIn sb buf c :: links sb es :=
  List.filterMap_cons_some (if_pos h)

theorem links_cons_end {sb : FatSb} {c : ℤ} {buf : Buf} (h : ¬ IsLink (linkIn sb buf c)) (es : List Access) :
    links sb (.entry c (some buf) :: es) = links sb es :=
  List.filterMap_cons_none (if_neg h)

/-- the cluster after `c`, when the chain goes on -/
theorem fatSucc_link {sb : FatSb} {vol : Vol} {c : ℤ} (h : IsLink (fatLink sb vol c)) :
    fatSucc sb vol c = some (fatLink sb vol c) := if_pos h

theorem fatSucc_end {sb : FatSb} {vol : Vol} {c : ℤ} (h : ¬ IsLink (fatLink sb vol c)) : fatSucc sb vol c = none :=
  if_neg h

theorem fatSucc_isLink {sb : FatSb} {vol : Vol} {c d : ℤ} (h : fatSucc sb vol c = some d) :
    IsLink (fatLink sb vol c) ∧ fatLink sb vol c = d := by
  by_cases hl : IsLink (fatLink sb vol c)
  · rw [fatSucc_link hl] at h
    exact ⟨hl, Option.some.inj h⟩
  · rw [fatSucc_end hl] at h
    exact absurd h (by simp)

/-- every cluster of a chain behind the first is a positive number below the bad mark -/
theorem nth_fatSucc_bounds {sb : FatSb} {vol : Vol} {start c : ℤ} {k : ℕ}
    (h : nth (fatSucc sb vol) start (k + 1) = some c) : 0 < c ∧ c < BAD_FAT32 := by
  rw [nth_succ] at h
  obtain ⟨b, -, hb⟩ := Option.bind_eq_some_iff.1 h
  obtain ⟨hl, rfl⟩ := fatSucc_isLink hb
  exact isLink_bounds hl

/-! ## Walks -/

/-- a walk of at most `n` steps from a cluster: its accesses, the cluster it reaches and the steps it makes -/
inductive Walk (sb : FatSb) (vol : Vol) : ℤ → ℕ → List Access → ℤ → ℕ → Prop where
  | done (c : ℤ) : Walk sb vol c 0 [] c 0
  | unreadable (c : ℤ) (n : ℕ) : Walk sb vol c (n + 1) [.entry c none] c 0
  | ended (c : ℤ) (n : ℕ) (h : ¬ IsLink (fatLink sb vol c)) :
      Walk sb vol c (n + 1) [.entry c (some (vol (fatEntBlocknr sb c).2))] c 0
  | step {c d : ℤ} {n m : ℕ} {es : List Access} (h : IsLink (fatLink sb vol c))
      (w : Walk sb vol (fatLink sb vol c) n es d m) :
      Walk sb vol c (n + 1) (.entry c (some (vol (fatEntBlocknr sb c).2)) :: es) d (m + 1)

section
variable {sb : FatSb} {vol : Vol} {start d : ℤ} {n m : ℕ} {es : List Access}

theorem Walk.le (w : Walk sb vol start n es d m) : m ≤ n := by
  induction w with
  | done c => exact le_rfl
  | unreadable c n => exact Nat.zero_le _
  | ended c n h => exact Nat.zero_le _
  | step h w ih => exact Nat.succ_le_succ ih

theorem Walk.buffers_nil (w : Walk sb vol start n es d m) : buffers es = [] := by
  induction w with
  | done c => rfl
  | unreadable c n => rfl
  | ended c n h => rfl
  | step h w ih => exact ih

theorem Walk.firstBlock_none (w : Walk sb vol start n es d m) : firstBlock es = none := by
  induction w with
  | done c => rfl
  | unreadable c n => rfl
  | ended c n h => rfl
  | step h w ih => exact ih

theorem Walk.clusters_nil (w : Walk sb vol start n es d m) : clusters es = [] := by
  induction w with
  | done c => rfl
  | unreadable c n => rfl
  | ended c n h => rfl
  | step h w ih => exact ih

theorem Walk.lookups_le (w : Walk sb vol start n es d m) : (lookups es).length ≤ n := by
  induction w with
  | done c => exact le_rfl
  | unreadable c n => exact Nat.zero_le _
  | ended c n h => exact Nat.succ_le_succ (Nat.zero_le n)
  | step h w ih => exact Nat.succ_le_succ ih

/-- the entries looked up are the chain, in order -/
theorem Walk.entries_prefix (w : Walk sb vol start n es d m) : (lookups es).map Prod.fst <+: followed sb start es := by
  induction w with
  | done c => exact List.nil_prefix
  | unreadable c n => exact List.nil_prefix
  | ended c n h => exact ⟨[], by rw [followed, links_cons_end h]; rfl⟩
  | step h w ih =>
    rw [followed, links_cons_link h]
    exact List.cons_prefix_cons.2 ⟨rfl, ih⟩

/-- a walk that makes all its steps looks up every cluster before the one it reaches -/
theorem Walk.followed_eq (w : Walk sb vol start n es d m) (hm : m = n) :
    followed sb start es = (lookups es).map Prod.fst ++ [d] ∧ NoFailure es := by
  induction w with
  | done c => exact ⟨rfl, fun e he => absurd he List.not_mem_nil⟩
  | unreadable c n => exact absurd hm (Nat.succ_ne_zero n).symm
  | ended c n h => exact absurd hm (Nat.succ_ne_zero n).symm
  | step h w ih =>
    obtain ⟨heq, hok⟩ := ih (Nat.succ.inj hm)
    refine ⟨?_, hok.cons (by simp [Access.ok])⟩
    rw [followed, links_cons_link h]
    exact congrArg _ heq

/-- **Where a walk gets.** -/
theorem Walk.reached (w : Walk sb vol start n es d m) : nth (fatSucc sb vol) start m = some d := by
  induction w with
  | done c => rfl
  | unreadable c n => rfl
  | ended c n h => rfl
  | step h w ih => rw [nth_head, fatSucc_link h]; exact ih

/-- the chain followed is the chain of the volume -/
theorem Walk.followed_nth (w : Walk sb vol start n es d m) {j : ℕ} {c : ℤ} (h : (followed sb start es)[j]? = some c) :
    nth (fatSucc sb vol) start j = some c := by
  induction w generalizing j with
  | done b =>
    cases j with
    | zero => exact h
    | succ j => simp [followed, links, lookups] at h
  | unreadable b n =>
    cases j with
    | zero => exact h
    | succ j =>
      rw [followed, links_nil_of_lookups rfl] at h
      simp at h
  | ended b n hend =>
    rw [followed, links_cons_end hend] at h
    cases j with
    | zero => exact h
    | succ j => simp [links, lookups] at h
  | step hlink w ih =>
    rw [followed, links_cons_link hlink] at h
    cases j with
    | zero => exact h
    | succ j =>
      rw [nth_head, fatSucc_link hlink]
      exact ih h

/-- **Why a walk stops early.** Its last lookup failed, or the chain ends where it got. -/
theorem Walk.stopped (w : Walk sb vol start n es d m) (hm : m < n) :
    ¬ NoFailure es ∨ NoFailure es ∧ Ended sb es ∧ ¬ IsLink (fatLink sb vol d) := by
  induction w with
  | done c => exact absurd hm (lt_irrefl 0)
  | unreadable c n => exact Or.inl fun h => h (.entry c none) (List.mem_singleton.2 rfl) rfl
  | ended c n h =>
    refine Or.inr ⟨NoFailure.cons (by simp [Access.ok]) fun e he => absurd he List.not_mem_nil, ?_, h⟩
    exact ⟨_, List.mem_singleton.2 rfl, h⟩
  | step h w ih =>
    rcases ih (Nat.lt_of_succ_lt_succ hm) with hbad | ⟨hok, hend, hlast⟩
    · exact Or.inl fun hno => hbad fun e he => hno e (List.mem_cons_of_mem _ he)
    · exact Or.inr ⟨hok.cons (by simp [Access.ok]), Ended.right (a := [_]) hend, hlast⟩

/-- every lookup, also one that fails, is that of a cluster of the chain -/
theorem Walk.entry_on (w : Walk sb vol start n es d m) {c : ℤ} {b : Option Buf} (h : Access.entry c b ∈ es) :
    ∃ j < n, (followed sb start es)[j]? = some c := by
  induction w with
  | done a => exact absurd h List.not_mem_nil
  | unreadable a n =>
    obtain ⟨rfl, -⟩ := Access.entry.inj (List.mem_singleton.1 h)
    exact ⟨0, Nat.succ_pos n, rfl⟩
  | ended a n hend =>
    obtain ⟨rfl, -⟩ := Access.entry.inj (List.mem_singleton.1 h)
    exact ⟨0, Nat.succ_pos n, rfl⟩
  | step hlink w ih =>
    rcases List.mem_cons.1 h with h | h
    · obtain ⟨rfl, -⟩ := Access.entry.inj h
      exact ⟨0, Nat.succ_pos _, rfl⟩
    · obtain ⟨j, hj, hget⟩ := ih h
      refine ⟨j + 1, Nat.succ_lt_succ hj, ?_⟩
      rw [followed, links_cons_link hlink]
      exact hget

/-- a walk in which nothing fails looks up the first `n` clusters of the chain -/
theorem Walk.looked_up (w : Walk sb vol start n es d m) (hok : NoFailure es) {j : ℕ} (hj : j < n) {c : ℤ}
    (hc : nth (fatSucc sb vol) start j = some c) : ∃ b, Access.entry c b ∈ es := by
  induction w generalizing j with
  | done a => exact absurd hj (Nat.not_lt_zero j)
  | unreadable a n => exact absurd rfl (hok (.entry a none) (List.mem_singleton.2 rfl))
  | ended a n hend =>
    cases j with
    | zero => exact ⟨_, List.mem_singleton.2 (by rw [Option.some.inj hc])⟩
    | succ j =>
      rw [nth_head, fatSucc_end hend] at hc
      exact absurd hc (by simp)
  | step hlink w ih =>
    cases j with
    | zero => exact ⟨_, List.mem_cons.2 (Or.inl (by rw [Option.some.inj hc]))⟩
    | succ j =>
      rw [nth_head, fatSucc_link hlink] at hc
      obtain ⟨b, hb⟩ := ih (fun e he => hok e (List.mem_cons_of_mem _ he)) (Nat.lt_of_succ_lt_succ hj) hc
      exact ⟨b, List.mem_cons_of_mem _ hb⟩

/-- a walk in which nothing fails gets as far as the chain does -/
theorem Walk.complete (w : Walk sb vol start n es d m) (hok : NoFailure es) (hn : nth (fatSucc sb vol) start n ≠ none) :
    m = n := by
  refine le_antisymm w.le (not_lt.1 fun hlt => ?_)
  rcases w.stopped hlt with hbad | ⟨-, -, hlast⟩
  · exact hbad hok
  · apply nth_mono hlt hn
    rw [nth_succ, w.reached]
    exact fatSucc_end hlast

end

/-! ## `get_nth_cluster` -/

/-- what `get_nth_cluster` does with `n` steps to go: it looks up the entry of the cluster it was given again and again, as
long as the entry is a link, makes `m` steps so, and answers that cluster -/
structure Stays (env : Env) (sb : FatSb) (s : St) (cls : ℤ) (n n1 : ℕ) (r : NthCluster) (es : List Access) (m : ℕ) : Prop where
  cls_eq : r.cls = cls
  n1_eq : r.n1 = n1 + m
  le : m ≤ n
  quiet : Quiet s r.s
  log : r.s.log = s.log ++ es
  entries : ∀ e ∈ es, e = .entry cls none ∨ e = .entry cls (some (s.vol (fatEntBlocknr sb cls).2))
  link : 0 < m → IsLink (fatLink sb s.vol cls)
  all : m = n → NoFailure es ∧ r.s.t = s.t + n ∧ ∀ i < n, env.bread (s.t + i) (fatEntBlocknr sb cls).2 = true
  stopped : m < n → es ≠ [] ∧ ((∃ i < n, env.bread (s.t + i) (fatEntBlocknr sb cls).2 = false) ∧ ¬ NoFailure es ∨
    ¬ IsLink (fatLink sb s.vol cls))

/-- **`get_nth_cluster` stays where it is.** -/
theorem getNthClusterLoop_stays (env : Env) (sb : FatSb) (n : ℕ) : ∀ (s : St) (cls : ℤ) (n1 : ℕ),
    ∃ es m, Stays env sb s cls n n1 (getNthClusterLoop env sb n s cls n1) es m := by
  induction n with
  | zero =>
    intro s cls n1
    exact ⟨[], 0, rfl, rfl, le_rfl, Quiet.refl s, (List.append_nil _).symm, fun e he => absurd he List.not_mem_nil,
      fun h => absurd h (lt_irrefl 0),
      fun _ => ⟨fun e he => absurd he List.not_mem_nil, rfl, fun i hi => absurd hi (Nat.not_lt_zero i)⟩,
      fun h => absurd h (lt_irrefl 0)⟩
  | succ n ih =>
    intro s cls n1
    obtain ⟨s1, hq, ht, ⟨hres, hread, hlog⟩ | ⟨hres, hread, hlog⟩⟩ := fatentNextSb_spec env sb s cls
    · simp only [getNthClusterLoop, hres]
      by_cases hend : fatLink sb s.vol cls = FAT_ENT_FREE ∨ fatLink sb s.vol cls = FAT_ENT_EOF
      · rw [if_pos hend]
        refine ⟨_, 0, rfl, rfl, Nat.zero_le _, hq, hlog, fun e he => Or.inr (List.mem_singleton.1 he),
          fun h => absurd h (lt_irrefl 0), fun h => absurd h (Nat.succ_ne_zero n).symm,
          fun _ => ⟨by simp, Or.inr fun h => (not_or.2 h) hend⟩⟩
      · rw [if_neg hend]
        obtain ⟨es, m, h⟩ := ih s1 cls (n1 + 1)
        have hvol := hq.vol
        refine ⟨_, m + 1, h.cls_eq, by rw [h.n1_eq, Nat.add_assoc, Nat.add_comm 1], Nat.succ_le_succ h.le, hq.trans h.quiet,
          by rw [h.log, hlog, List.append_assoc], fun e he => ?_, fun _ => not_or.1 hend, fun hm => ?_, fun hm => ?_⟩
        · rcases List.mem_append.1 he with he | he
          · exact Or.inr (List.mem_singleton.1 he)
          · rw [← hvol]
            exact h.entries e he
        · obtain ⟨hok, htime, hreads⟩ := h.all (Nat.succ.inj hm)
          refine ⟨hok.cons (by simp [Access.ok]), by rw [htime, ht]; omega, fun i hi => ?_⟩
          cases i with
          | zero => exact hread
          | succ i =>
            have hnext := hreads i (by omega)
            rwa [ht, Nat.add_assoc, Nat.add_comm 1] at hnext
        · obtain ⟨-, ⟨⟨i, hi, hfail⟩, hbad⟩ | hne⟩ := h.stopped (Nat.lt_of_succ_lt_succ hm)
          · rw [ht, Nat.add_assoc, Nat.add_comm 1] at hfail
            exact ⟨by simp, Or.inl ⟨⟨i + 1, by omega, hfail⟩, fun hok => hbad hok.right⟩⟩
          · rw [hvol] at hne
            exact absurd (not_or.1 hend) hne
    · simp only [getNthClusterLoop, hres]
      refine ⟨_, 0, rfl, rfl, Nat.zero_le _, hq, hlog, fun e he => Or.inl (List.mem_singleton.1 he),
        fun h => absurd h (lt_irrefl 0), fun h => absurd h (Nat.succ_ne_zero n).symm,
        fun _ => ⟨by simp, Or.inl ⟨⟨0, Nat.succ_pos n, hread⟩, fun h => ?_⟩⟩⟩
      exact h (.entry cls none) (List.mem_singleton.2 rfl) rfl

section
variable {env : Env} {sb : FatSb} {s : St} {cls : ℤ} {n n1 m : ℕ} {r : NthCluster} {es : List Access}

theorem Stays.firstBlock_none (h : Stays env sb s cls n n1 r es m) : firstBlock es = none := by
  have hentries := h.entries
  clear h
  induction es with
  | nil => rfl
  | cons e es ih =>
    rcases hentries e List.mem_cons_self with rfl | rfl
    all_goals exact ih fun e' he' => hentries e' (List.mem_cons_of_mem _ he')

theorem Stays.buffers_nil (h : Stays env sb s cls n n1 r es m) : buffers es = [] := by
  refine List.filterMap_eq_nil_iff.2 fun e he => ?_
  rcases h.entries e he with rfl | rfl <;> rfl

/-- it gets as far as it was asked to when nothing fails and there is a link -/
theorem Stays.complete (h : Stays env sb s cls n n1 r es m)
    (hread : ∀ i < n, env.bread (s.t + i) (fatEntBlocknr sb cls).2 = true) (hlink : n = 0 ∨ IsLink (fatLink sb s.vol cls)) :
    m = n := by
  refine le_antisymm h.le (not_lt.1 fun hlt => ?_)
  obtain ⟨-, ⟨⟨i, hi, hfail⟩, -⟩ | hne⟩ := h.stopped hlt
  · rw [hread i hi] at hfail
    exact absurd hfail (by simp)
  · rcases hlink with rfl | hlink
    · exact absurd hlt (Nat.not_lt_zero m)
    · exact hne hlink

/-- it does not make all its steps when there is no link -/
theorem Stays.lt_of_end (h : Stays env sb s cls n n1 r es m) (hn : 0 < n) (hend : ¬ IsLink (fatLink sb s.vol cls)) : m < n := by
  refine lt_of_le_of_ne h.le fun hm => hend (h.link ?_)
  omega

end

/-! ## `fat_get_cluster` -/

/-- the steps that `fat_get_cluster` may still make at index `fclus` -/
def stepsLeft (sb : FatSb) (cluster : ℤ) (fclus : ℕ) : ℕ := min (cluster - fclus).toNat (clusterLimit sb + 1 - fclus)

/-- the entries of the first `n` clusters of a chain can be read, one at each tick from `t` on -/
def ChainReadable (env : Env) (sb : FatSb) (vol : Vol) (t : ℕ) (start : ℤ) (n : ℕ) : Prop :=
  ∀ i < n, ∀ c, nth (fatSucc sb vol) start i = some c → env.bread (t + i) (fatEntBlocknr sb c).2 = true

section
variable {env : Env} {sb : FatSb} {vol : Vol} {t : ℕ} {start : ℤ} {n : ℕ}

theorem ChainReadable.of_all (h : ∀ t b, env.bread t b = true) : ChainReadable env sb vol t start n :=
  fun _ _ _ _ => h _ _

theorem chainReadable_zero : ChainReadable env sb vol t start 0 := fun i hi => absurd hi (Nat.not_lt_zero i)

theorem ChainReadable.head (h : ChainReadable env sb vol t start (n + 1)) :
    env.bread t (fatEntBlocknr sb start).2 = true := h 0 (Nat.succ_pos n) start rfl

/-- a chain that ends with its first cluster -/
theorem chainReadable_end (hend : ¬ IsLink (fatLink sb vol start)) (h : env.bread t (fatEntBlocknr sb start).2 = true) :
    ChainReadable env sb vol t start n := by
  intro i _ c hc
  cases i with
  | zero => rwa [← Option.some.inj hc]
  | succ i =>
    rw [nth_head, fatSucc_end hend] at hc
    exact absurd hc (by simp)

/-- a chain that goes on behind its first cluster -/
theorem chainReadable_link (hlink : IsLink (fatLink sb vol start)) :
    ChainReadable env sb vol t start (n + 1) ↔ env.bread t (fatEntBlocknr sb start).2 = true ∧
      ChainReadable env sb vol (t + 1) (fatLink sb vol start) n := by
  refine ⟨fun h => ⟨h.head, fun i hi c hc => ?_⟩, fun h i hi c hc => ?_⟩
  · have hnext := h (i + 1) (Nat.succ_lt_succ hi) c (by rw [nth_head, fatSucc_link hlink]; exact hc)
    rwa [Nat.add_assoc, Nat.add_comm 1]
  · cases i with
    | zero => rw [← Option.some.inj hc]; exact h.1
    | succ i =>
      rw [nth_head, fatSucc_link hlink] at hc
      have hnext := h.2 i (Nat.lt_of_succ_lt_succ hi) c hc
      rwa [Nat.add_assoc, Nat.add_comm 1] at hnext

end

/-- **`fat_get_cluster`** walks. It answers 0 at the index asked for, but also at an EOF mark before it. -/
theorem fatGetClusterLoop_walk (env : Env) (sb : FatSb) (cluster : ℤ) (fuel : ℕ) : ∀ (s : St) (fclus : ℕ) (dclus : ℤ)
    (r : GetCluster), fclus ≤ clusterLimit sb + 1 → clusterLimit sb + 2 ≤ fuel + fclus →
    fatGetClusterLoop env sb cluster fuel s fclus dclus = r →
    ∃ es m, Walk sb s.vol dclus (stepsLeft sb cluster fclus) es r.dclus m ∧ r.fclus = fclus + m ∧ Quiet s r.s ∧
      r.s.log = s.log ++ es ∧ (NoFailure es ↔ ChainReadable env sb s.vol s.t dclus (stepsLeft sb cluster fclus)) ∧
      (m = stepsLeft sb cluster fclus → r.ret = if cluster ≤ r.fclus then 0 else (- EIO : ℤ)) ∧
      (m < stepsLeft sb cluster fclus → NoFailure es →
        r.ret = if fatLink sb s.vol r.dclus = FAT_ENT_EOF then 0 else (- EIO : ℤ)) ∧
      (¬ NoFailure es → r.ret = - EIO) := by
  induction fuel with
  | zero => intro s fclus dclus r hf hfuel; omega
  | succ fuel ih =>
    intro s fclus dclus r hf hfuel hr
    have hnone : NoFailure [] := fun e he => absurd he List.not_mem_nil
    rw [fatGetClusterLoop] at hr
    by_cases hdone : cluster ≤ fclus
    · rw [if_pos hdone] at hr
      subst hr
      have hleft : stepsLeft sb cluster fclus = 0 := by unfold stepsLeft; omega
      rw [hleft]
      exact ⟨[], 0, .done dclus, rfl, Quiet.refl s, (List.append_nil _).symm, iff_of_true hnone chainReadable_zero,
        fun _ => (if_pos hdone).symm, fun h => absurd h (lt_irrefl 0), fun h => absurd hnone h⟩
    rw [if_neg hdone] at hr
    by_cases hlimit : clusterLimit sb < fclus
    · rw [if_pos hlimit] at hr
      subst hr
      have hleft : stepsLeft sb cluster fclus = 0 := by unfold stepsLeft; omega
      rw [hleft]
      exact ⟨[], 0, .done dclus, rfl, Quiet.refl s, (List.append_nil _).symm, iff_of_true hnone chainReadable_zero,
        fun _ => (if_neg hdone).symm, fun h => absurd h (lt_irrefl 0), fun h => absurd hnone h⟩
    rw [if_neg hlimit] at hr
    have hleft : stepsLeft sb cluster fclus = stepsLeft sb cluster (fclus + 1) + 1 := by
      unfold stepsLeft
      push_cast
      omega
    rw [hleft]
    obtain ⟨s1, hq, ht, ⟨hres, hread, hlog⟩ | ⟨hres, hread, hlog⟩⟩ := fatentNextSb_spec env sb s dclus
    swap
    · -- the FAT block cannot be read
      simp only [hres] at hr
      subst hr
      have hbad : ¬ NoFailure [.entry dclus none] := fun hno => hno (.entry dclus none) (List.mem_singleton.2 rfl) rfl
      refine ⟨_, 0, .unreadable dclus _, rfl, hq, hlog, iff_of_false hbad fun h => ?_,
        fun h => absurd h (Nat.succ_ne_zero _).symm, fun _ hno => absurd hno hbad, fun _ => rfl⟩
      rw [h.head] at hread
      exact absurd hread (by simp)
    simp only [hres] at hr
    have hok1 : NoFailure [.entry dclus (some (s.vol (fatEntBlocknr sb dclus).2))] :=
      hnone.cons (by simp [Access.ok])
    by_cases hfree : fatLink sb s.vol dclus = FAT_ENT_FREE
    · rw [if_pos hfree] at hr
      subst hr
      refine ⟨_, 0, .ended dclus _ fun h => h.1 hfree, rfl, hq, hlog,
        iff_of_true hok1 (chainReadable_end (fun h => h.1 hfree) hread),
        fun h => absurd h (Nat.succ_ne_zero _).symm, fun _ _ => ?_, fun h => absurd hok1 h⟩
      rw [if_neg]
      simp only [hfree]
      decide
    rw [if_neg hfree] at hr
    by_cases heof : fatLink sb s.vol dclus = FAT_ENT_EOF
    · rw [if_pos heof] at hr
      subst hr
      exact ⟨_, 0, .ended dclus _ fun h => h.2 heof, rfl, hq, hlog,
        iff_of_true hok1 (chainReadable_end (fun h => h.2 heof) hread),
        fun h => absurd h (Nat.succ_ne_zero _).symm, fun _ _ => (if_pos heof).symm, fun h => absurd hok1 h⟩
    · rw [if_neg heof] at hr
      obtain ⟨es, m, hw, hfc, hq2, hlog2, hok, hret, hstop, hbad⟩ := ih s1 (fclus + 1) (fatLink sb s.vol dclus) r
        (by omega) (by omega) hr
      rw [hq.vol] at hw hok hstop
      rw [ht] at hok
      refine ⟨_, m + 1, .step ⟨hfree, heof⟩ hw, ?_, hq.trans hq2, ?_, ?_,
        fun h => hret (Nat.succ.inj h), fun h hno => hstop (Nat.lt_of_succ_lt_succ h) fun e he => ?_, fun h => hbad ?_⟩
      · rw [hfc, Nat.add_assoc, Nat.add_comm 1]
      · rw [hlog2, hlog, List.append_assoc]
        rfl
      · rw [chainReadable_link ⟨hfree, heof⟩, ← hok, and_iff_right hread]
        exact ⟨fun h e he => h e (List.mem_cons_of_mem _ he), fun h => h.cons (by simp [Access.ok])⟩
      · exact hno e (List.mem_cons_of_mem _ he)
      · intro hno
        exact h (hno.cons (by simp [Access.ok]))

/-! ## `fat_bmap` -/

/-- a sector of the file is before the last block -/
theorem lt_lastBlock (sb : FatSb) {ino : FatInode} {sector : ℕ} (h : sector * sb.blocksize < ino.iSize) :
    sector < (ino.iSize + (sb.blocksize - 1)) / 2 ^ sb.blocksizeBits := by
  have hpos := sb.blocksize_pos
  change sector < (ino.iSize + (sb.blocksize - 1)) / sb.blocksize
  have hle : sector + 1 ≤ (ino.iSize + (sb.blocksize - 1)) / sb.blocksize := by
    rw [Nat.le_div_iff_mul_le hpos, Nat.add_mul, Nat.one_mul]
    omega
  omega

/-- the cluster index of a sector of a file is below the limit of `fat_get_cluster` -/
theorem sector_index_le (sb : FatSb) {ino : FatInode} {sector : ℕ} (h : sector * sb.blocksize < ino.iSize) :
    sector / sb.secPerClus ≤ clusterLimit sb := by
  have hmax := ino.size_max
  unfold clusterLimit
  rw [← sb.clusterSize_eq, Nat.le_div_iff_mul_le sb.clusterSize_pos]
  have hmul : sector / sb.secPerClus * sb.clusterSize = sector / sb.secPerClus * sb.secPerClus * sb.blocksize := by
    unfold FatSb.clusterSize
    ring
  have hle : sector / sb.secPerClus * sb.secPerClus * sb.blocksize ≤ sector * sb.blocksize :=
    Nat.mul_le_mul_right _ (Nat.div_mul_le_self _ _)
  omega

theorem clusterLimit_lt (sb : FatSb) : clusterLimit sb < 2 ^ 31 := by
  have hle : S_MAXBYTES / 2 ^ sb.clusterBits ≤ S_MAXBYTES / 2 ^ 9 := by
    refine Nat.div_le_div_left (Nat.pow_le_pow_right Nat.two_pos ?_) (by norm_num)
    exact sb.bits_min.trans (Nat.le_add_right _ _)
  exact lt_of_le_of_lt hle (by decide)

/-- **`fat_bmap`** inside a file with a first cluster: it maps the sector to the cluster where its walk stops. That is the
cluster of the sector, or the last one of a chain that is too short. -/
theorem fatBmap_walk (env : Env) (sb : FatSb) (s : St) (ino : FatInode) {sector : ℕ} (hin : sector * sb.blocksize < ino.iSize)
    (hstart : ino.iStart ≠ 0) :
    ∃ es m d, Walk sb s.vol ino.iStart (sector / sb.secPerClus) es d m ∧
      (fatBmap env sb s ino.toInode sector).s.log = s.log ++ es ∧
      (NoFailure es ↔ ChainReadable env sb s.vol s.t ino.iStart (sector / sb.secPerClus)) ∧
      (0 < d ∧ NoFailure es ∧ (m = sector / sb.secPerClus ∨ fatLink sb s.vol d = FAT_ENT_EOF) ∧
          (fatBmap env sb s ino.toInode sector).ret = 0 ∧ (fatBmap env sb s ino.toInode sector).mappedBlocks ≠ 0 ∧
          (fatBmap env sb s ino.toInode sector).phys = sectorAdd (fatClusToBlknr sb d) (sector % sb.secPerClus) ∨
        (fatBmap env sb s ino.toInode sector).ret < 0 ∧ (fatBmap env sb s ino.toInode sector).mappedBlocks = 0 ∧
          (d < 0 ∧ m = 0 ∨ ¬ NoFailure es ∨ m < sector / sb.secPerClus ∧ fatLink sb s.vol d ≠ FAT_ENT_EOF)) := by
  have hlast := lt_lastBlock sb hin
  have hidx := sector_index_le sb hin
  have hshift : sector / 2 ^ (sb.clusterBits - sb.blocksizeBits) = sector / sb.secPerClus := by
    unfold FatSb.clusterBits FatSb.secPerClus
    rw [Nat.add_sub_cancel_left]
  have hint : int32 ((sector / sb.secPerClus : ℕ) : ℤ) = ((sector / sb.secPerClus : ℕ) : ℤ) := by
    have hlt := clusterLimit_lt sb
    generalize sector / sb.secPerClus = k at hidx ⊢
    exact int32_of_bounds (by omega) (by omega)
  have hsteps : stepsLeft sb ((sector / sb.secPerClus : ℕ) : ℤ) 0 = sector / sb.secPerClus := by
    generalize sector / sb.secPerClus = k at hidx ⊢
    unfold stepsLeft
    omega
  obtain ⟨es, m, w, hfc, -, hlog, hok, hret, hstop, hbad⟩ := fatGetClusterLoop_walk env sb
    ((sector / sb.secPerClus : ℕ) : ℤ) (clusterLimit sb + 2) s 0 ino.iStart _ (Nat.zero_le _) (Nat.le_refl _) rfl
  rw [hsteps] at w hok hret hstop
  simp only [fatBmap, if_neg (not_le.2 hlast), hshift, hint, fatBmapCluster, if_neg hstart]
  generalize fatGetClusterLoop env sb ((sector / sb.secPerClus : ℕ) : ℤ) (clusterLimit sb + 2) s 0 ino.iStart = r
    at w hfc hlog hret hstop hbad ⊢
  refine ⟨es, m, r.dclus, w, ?_⟩
  by_cases herr : r.ret = - EIO
  · have hneg : r.ret < 0 := by rw [herr]; decide
    simp only [if_pos hneg]
    refine ⟨hlog, hok, Or.inr ⟨hneg, trivial, Or.inr ?_⟩⟩
    by_cases hno : NoFailure es
    · refine Or.inr ⟨lt_of_le_of_ne w.le fun hm => ?_, fun heof => ?_⟩
      · have h0 := hret hm
        rw [hfc, hm, Nat.zero_add, if_pos le_rfl, herr] at h0
        exact absurd h0 (by decide)
      · rcases Nat.lt_or_ge m (sector / sb.secPerClus) with hlt | hge
        · have h0 := hstop hlt hno
          rw [if_pos heof, herr] at h0
          exact absurd h0 (by decide)
        · have h0 := hret (le_antisymm w.le hge)
          rw [hfc, le_antisymm w.le hge, Nat.zero_add, if_pos le_rfl, herr] at h0
          exact absurd h0 (by decide)
    · exact Or.inl hno
  · have hno : NoFailure es := by
      by_contra hno
      exact herr (hbad hno)
    have hat : m = sector / sb.secPerClus ∨ fatLink sb s.vol r.dclus = FAT_ENT_EOF := by
      rcases Nat.lt_or_ge m (sector / sb.secPerClus) with hlt | hge
      · right
        by_contra heof
        have h0 := hstop hlt hno
        rw [if_neg heof] at h0
        exact herr h0
      · exact Or.inl (le_antisymm w.le hge)
    have hzero : r.ret = 0 := by
      rcases Nat.lt_or_ge m (sector / sb.secPerClus) with hlt | hge
      · have h0 := hstop hlt hno
        rwa [if_pos (hat.resolve_left hlt.ne)] at h0
      · have h0 := hret (le_antisymm w.le hge)
        rwa [hfc, le_antisymm w.le hge, Nat.zero_add, if_pos le_rfl] at h0
    have hreach := w.reached
    simp only [hzero, if_neg (lt_irrefl (0 : ℤ)), if_neg (show ¬ (0 : ℤ) = FAT_ENT_EOF by decide)]
    rcases lt_trichotomy r.dclus 0 with hneg | hd0 | hdpos
    · simp only [if_pos hneg]
      refine ⟨hlog, hok, Or.inr ⟨hneg, trivial, Or.inl ⟨hneg, ?_⟩⟩⟩
      cases m with
      | zero => rfl
      | succ m =>
        have := (nth_fatSucc_bounds hreach).1
        omega
    · cases m with
      | zero =>
        rw [hd0] at hreach
        exact absurd (Option.some.inj hreach) hstart
      | succ m =>
        have := (nth_fatSucc_bounds hreach).1
        omega
    · simp only [if_neg (not_lt.2 hdpos.le), if_pos hdpos.ne']
      refine ⟨hlog, hok, Or.inl ⟨hdpos, hno, hat, trivial, ?_, trivial⟩⟩
      have := Nat.mod_lt sector sb.secPerClus_pos
      omega

end AtsLdd.Fat
