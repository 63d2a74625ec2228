/-
A write-back cache over a device. A block that is written reaches the device; one whose write fails is dropped, and reads as
the device has it.

- `Kept`: a property of each block, which holds in the cache, and on the device where writes may fail;
- `Kept.store`, `Kept.written`, `Kept.dropped`: what each operation must see to.
-/
import Mathlib.Logic.Function.Basic

namespace AtsLdd.WriteBack

variable {ι β : Type*} {G : ι → β → Prop} {fails : Prop} {cache device : ι → β} {b : ι}

/-- `G` holds of every block in the cache, and, if writes may fail, of every block on the device -/
structure Kept (G : ι → β → Prop) (fails : Prop) (cache device : ι → β) : Prop where
  cache : ∀ b, G b (cache b)
  device : fails → ∀ b, G b (device b)

/-- a weaker property is kept as well -/
theorem Kept.mono {G' : ι → β → Prop} (h : Kept G fails cache device) (himp : ∀ b x, G b x → G' b x) :
    Kept G' fails cache device :=
  ⟨fun b => himp b _ (h.cache b), fun hf b => himp b _ (h.device hf b)⟩

variable [DecidableEq ι]

/-- a block that meets the property is stored in the cache -/
theorem Kept.store (h : Kept G fails cache device) {x : β} (hx : G b x) : Kept G fails (Function.update cache b x) device :=
  ⟨(Function.forall_update_iff cache (p := G)).2 ⟨hx, fun i _ => h.cache i⟩, h.device⟩

/-- a block is written to the device -/
theorem Kept.written (h : Kept G fails cache device) (b : ι) : Kept G fails cache (Function.update device b (cache b)) :=
  ⟨h.cache, fun hf => (Function.forall_update_iff device (p := G)).2 ⟨h.cache b, fun i _ => h.device hf i⟩⟩

/-- **A failed write** puts the block of the device in the cache; it does no harm where failures were reckoned with. -/
theorem Kept.dropped (h : Kept G fails cache device) (hb : fails ∨ ∀ x, G b x) :
    Kept G fails (Function.update cache b (device b)) device := by
  rcases hb with hf | hall
  · exact h.store (h.device hf b)
  · exact h.store (hall _)

end AtsLdd.WriteBack
