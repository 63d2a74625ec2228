/-
A row of cells that is divided into items of some cells each, and blank cells between them.

- `Divided`: the cells from one place to another are divided into blanks and the items of a list;
- `Divided.split`: a row is cut at a place that is not inside an item;
- `Divided.insert`: an item is put where no item was, and the others stay;
- `Divided.erase`: an item is made blank, and the others stay.
-/
import Mathlib.Tactic

namespace AtsLdd.Division

variable {Blank Blank' : ℕ → Prop} {Item Item' : ℕ → ℕ → Prop}

/-- the cells from `i` to `n` are the items of a list, each with its first cell and its length, and blanks -/
inductive Divided (Blank : ℕ → Prop) (Item : ℕ → ℕ → Prop) : ℕ → ℕ → List (ℕ × ℕ) → Prop
  | nil (i : ℕ) : Divided Blank Item i i []
  | blank {i n : ℕ} {fs : List (ℕ × ℕ)} (cell : Blank i) (rest : Divided Blank Item (i + 1) n fs) : Divided Blank Item i n fs
  | item {i k n : ℕ} {fs : List (ℕ × ℕ)} (pos : 0 < k) (item : Item i k) (rest : Divided Blank Item (i + k) n fs) :
      Divided Blank Item i n ((i, k) :: fs)

section
variable {i j k n a : ℕ} {f : ℕ × ℕ} {fs gs : List (ℕ × ℕ)}

theorem Divided.le (h : Divided Blank Item i n fs) : i ≤ n := by
  induction h with
  | nil => exact le_rfl
  | blank _ _ ih => exact (Nat.le_succ _).trans ih
  | item _ _ _ ih => exact (Nat.le_add_right _ _).trans ih

/-- every item has a cell -/
theorem Divided.length_le (h : Divided Blank Item i n fs) : i + fs.length ≤ n := by
  induction h with
  | nil => exact le_rfl
  | blank _ _ ih => omega
  | item pos _ _ ih =>
    rw [List.length_cons]
    omega

theorem Divided.append (h : Divided Blank Item i j fs) (h' : Divided Blank Item j n gs) : Divided Blank Item i n (fs ++ gs) := by
  induction h with
  | nil => exact h'
  | blank cell _ ih => exact .blank cell (ih h')
  | item pos item _ ih => exact .item pos item (ih h')

/-- what is between the ends is all that counts -/
theorem Divided.mono (h : Divided Blank Item i n fs) (hblank : ∀ x, i ≤ x → x < n → Blank x → Blank' x)
    (hitem : ∀ x k, i ≤ x → x + k ≤ n → Item x k → Item' x k) : Divided Blank' Item' i n fs := by
  induction h with
  | nil => exact .nil _
  | blank cell rest ih =>
    exact .blank (hblank _ le_rfl rest.le cell) (ih (fun x hx => hblank x (by omega)) fun x k hx => hitem x k (by omega))
  | item pos item rest ih =>
    exact .item pos (hitem _ _ le_rfl rest.le item) (ih (fun x hx => hblank x (by omega)) fun x k hx => hitem x k (by omega))

/-- cells that are all blank -/
theorem Divided.of_blank (hle : i ≤ n) (h : ∀ x, i ≤ x → x < n → Blank x) : Divided Blank Item i n [] := by
  obtain ⟨d, rfl⟩ := Nat.exists_eq_add_of_le hle
  clear hle
  induction d generalizing i with
  | zero => exact .nil i
  | succ d ih =>
    rw [show i + (d + 1) = i + 1 + d by omega] at h ⊢
    exact .blank (h i le_rfl (by omega)) (ih fun x hx => h x (by omega))

/-- where the items of a list are -/
theorem Divided.item_of_mem (h : Divided Blank Item i n fs) (hf : f ∈ fs) : i ≤ f.1 ∧ f.1 + f.2 ≤ n ∧ 0 < f.2 ∧ Item f.1 f.2 := by
  induction h with
  | nil => exact absurd hf List.not_mem_nil
  | blank _ _ ih =>
    obtain ⟨h1, h2⟩ := ih hf
    exact ⟨by omega, h2⟩
  | item pos item rest ih =>
    rcases List.mem_cons.1 hf with rfl | hf
    · exact ⟨le_rfl, rest.le, pos, item⟩
    · obtain ⟨h1, h2⟩ := ih hf
      exact ⟨by omega, h2⟩

/-- a cell is blank or in an item -/
theorem Divided.cell (h : Divided Blank Item i n fs) (hi : i ≤ a) (hn : a < n) :
    Blank a ∨ ∃ f ∈ fs, f.1 ≤ a ∧ a < f.1 + f.2 := by
  induction h with
  | nil => exact absurd hn (not_lt.2 hi)
  | @blank i n fs cell rest ih =>
    rcases Nat.eq_or_lt_of_le hi with rfl | hlt
    · exact Or.inl cell
    · exact ih hlt hn
  | @item i k n fs pos item rest ih =>
    rcases Nat.lt_or_ge a (i + k) with hlt | hge
    · exact Or.inr ⟨(i, k), List.mem_cons_self, hi, hlt⟩
    · exact (ih hge hn).imp_right fun ⟨f, hf, hin⟩ => ⟨f, List.mem_cons_of_mem _ hf, hin⟩

/-- **The items are one behind the other.** -/
theorem Divided.pairwise (h : Divided Blank Item i n fs) : fs.Pairwise fun f g => f.1 + f.2 ≤ g.1 := by
  induction h with
  | nil => exact .nil
  | blank _ _ ih => exact ih
  | item _ _ rest ih => exact .cons (fun g hg => (rest.item_of_mem hg).1) ih

/-- no item has a cell in common with the `k` cells from `a` on -/
def Clear (Item : ℕ → ℕ → Prop) (a k : ℕ) : Prop := ∀ x m, Item x m → x + m ≤ a ∨ a + k ≤ x

/-- **A row is cut** at a place that is not inside an item. -/
theorem Divided.split (h : Divided Blank Item i n fs) (hi : i ≤ a) (hn : a ≤ n)
    (ha : ∀ x m, Item x m → x + m ≤ a ∨ a ≤ x) :
    ∃ gs hs, fs = gs ++ hs ∧ Divided Blank Item i a gs ∧ Divided Blank Item a n hs := by
  induction h with
  | nil i =>
    obtain rfl : i = a := le_antisymm hi hn
    exact ⟨[], [], rfl, .nil i, .nil i⟩
  | @blank i n fs cell rest ih =>
    rcases Nat.eq_or_lt_of_le hi with rfl | hlt
    · exact ⟨[], fs, rfl, .nil i, .blank cell rest⟩
    · obtain ⟨gs, hs, rfl, h1, h2⟩ := ih hlt hn
      exact ⟨gs, hs, rfl, .blank cell h1, h2⟩
  | @item i k n fs pos item rest ih =>
    rcases ha i k item with hle | hle
    · obtain ⟨gs, hs, rfl, h1, h2⟩ := ih hle hn
      exact ⟨(i, k) :: gs, hs, rfl, .item pos item h1, h2⟩
    · obtain rfl : i = a := le_antisymm hi hle
      exact ⟨[], (i, k) :: fs, rfl, .nil i, .item pos item rest⟩

/-- cells without items -/
theorem Divided.eq_nil (h : Divided Blank Item i n fs) (hclear : Clear Item i (n - i)) : fs = [] := by
  rcases fs with _ | ⟨f, fs⟩
  · rfl
  · obtain ⟨h1, h2, h3, h4⟩ := h.item_of_mem List.mem_cons_self
    rcases hclear f.1 f.2 h4 with hle | hle <;> omega

/-- **A row is cut around an item.** -/
theorem Divided.split_mem (h : Divided Blank Item i n fs) (hf : f ∈ fs) : ∃ gs hs, fs = gs ++ f :: hs ∧
    Divided Blank Item i f.1 gs ∧ Divided Blank Item (f.1 + f.2) n hs := by
  induction h with
  | nil => exact absurd hf List.not_mem_nil
  | blank cell _ ih =>
    obtain ⟨gs, hs, rfl, h1, h2⟩ := ih hf
    exact ⟨gs, hs, rfl, .blank cell h1, h2⟩
  | @item i k n fs pos item rest ih =>
    rcases List.mem_cons.1 hf with rfl | hf
    · exact ⟨[], fs, rfl, .nil _, rest⟩
    · obtain ⟨gs, hs, rfl, h1, h2⟩ := ih hf
      exact ⟨(i, k) :: gs, hs, rfl, .item pos item h1, h2⟩

/-- what changes in the `k` cells from `a` on only -/
structure Outside (Blank Blank' : ℕ → Prop) (Item Item' : ℕ → ℕ → Prop) (a k : ℕ) : Prop where
  blank : ∀ x, x < a ∨ a + k ≤ x → Blank x → Blank' x
  item : ∀ x m, x + m ≤ a ∨ a + k ≤ x → Item x m → Item' x m

theorem Outside.before (h : Outside Blank Blank' Item Item' a k) (hd : Divided Blank Item i a fs) :
    Divided Blank' Item' i a fs :=
  hd.mono (fun x _ hx => h.blank x (Or.inl hx)) fun x m _ hx => h.item x m (Or.inl hx)

theorem Outside.behind (h : Outside Blank Blank' Item Item' a k) (hd : Divided Blank Item (a + k) n fs) :
    Divided Blank' Item' (a + k) n fs :=
  hd.mono (fun x hx _ => h.blank x (Or.inr hx)) fun x m hx _ => h.item x m (Or.inr hx)

/-- **An item is put where there was none.** -/
theorem Divided.insert (h : Divided Blank Item i n fs) (hi : i ≤ a) (hn : a + k ≤ n) (hk : 0 < k) (hclear : Clear Item a k)
    (hout : Outside Blank Blank' Item Item' a k) (hitem : Item' a k) :
    ∃ gs hs, fs = gs ++ hs ∧ Divided Blank' Item' i n (gs ++ (a, k) :: hs) := by
  obtain ⟨gs, hs, rfl, h1, h2⟩ := h.split hi (by omega) fun x m hx => (hclear x m hx).imp_right (by omega)
  obtain ⟨ms, hs, rfl, h3, h4⟩ := h2.split (by omega) hn fun x m hx => (hclear x m hx).imp_left (by omega)
  have hnil : ms = [] := h3.eq_nil (by rwa [Nat.add_sub_cancel_left])
  rw [hnil, List.nil_append]
  exact ⟨gs, hs, rfl, (hout.before h1).append (.item hk hitem (hout.behind h4))⟩

/-- **An item is made blank.** -/
theorem Divided.erase (h : Divided Blank Item i n fs) (hf : (a, k) ∈ fs) (hout : Outside Blank Blank' Item Item' a k)
    (hblank : ∀ x, a ≤ x → x < a + k → Blank' x) :
    ∃ gs hs, fs = gs ++ (a, k) :: hs ∧ Divided Blank' Item' i n (gs ++ hs) := by
  obtain ⟨gs, hs, rfl, h1, h2⟩ := h.split_mem hf
  refine ⟨gs, hs, rfl, (hout.before h1).append ?_⟩
  have hmid : Divided Blank' Item' a (a + k) [] := .of_blank (Nat.le_add_right a k) hblank
  exact hmid.append (hout.behind h2)

end

end AtsLdd.Division
