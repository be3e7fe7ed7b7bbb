import LiberaDaq.Kernel.PostMortem

/-!
# Reading the post mortem data while they are acquired

Who holds the DD device is alone in storing to the memory of the PM device, so acquisitions do not
mix. A reader that is overtaken by one gets words of both. The time stamp is read after the atoms: it
is never older than they are (`pm_snapshot`).
-/

namespace LiberaDaq.Kernel

open LiberaDaq.Cspi LiberaDaq.Interaction LiberaDaq.Memory

open Prog

variable {ι α β σ : Type} {g : Dd.Clocks} {pmsize : ℕ} {boot : ℕ → Word} {i j : ι}
  {u u₀ v w : PmWorld ι} {s : List (ℕ × Word)} {I : PmWorld ι → Prop}

/-! ## What the threads rely on -/

/-- What a thread relies on: the memory stays sound, stores are only added, and none are while it
holds the DD device, which nobody takes from it. -/
structure PmRely (g : Dd.Clocks) (pmsize : ℕ) (boot : ℕ → Word) (i : ι) (u v : PmWorld ι) :
    Prop where
  sound : PmSound g pmsize boot u → PmSound g pmsize boot v
  grows : u.stores <+: v.stores
  held : u.holder = some i → v.holder = some i ∧ v.stores = u.stores

/-- What a thread does keeps the memory sound, and is what the others rely on. -/
def PmGuar (g : Dd.Clocks) (pmsize : ℕ) (boot : ℕ → Word) (i : ι) (u v : PmWorld ι) : Prop :=
  (PmSound g pmsize boot u → PmSound g pmsize boot v) ∧ ∀ j, j ≠ i → PmRely g pmsize boot j u v

instance : IsPreorder (PmWorld ι) (PmRely g pmsize boot i) where
  refl _ := ⟨id, List.prefix_rfl, fun h => ⟨h, rfl⟩⟩
  trans u v w h h' := by
    refine ⟨h'.sound ∘ h.sound, h.grows.trans h'.grows, fun hu => ?_⟩
    obtain ⟨hv, hstores⟩ := h.held hu
    obtain ⟨hw, hstores'⟩ := h'.held hv
    exact ⟨hw, hstores'.trans hstores⟩

theorem guar_refl : PmGuar g pmsize boot i u u :=
  ⟨id, fun j _ => refl_of (PmRely g pmsize boot j) u⟩

/-- The DD device is taken when it is free. -/
theorem guar_take (h : u.holder = none) :
    PmGuar g pmsize boot i u { u with holder := some i } :=
  ⟨fun hu => ⟨hu.cells, hu.passes⟩,
    fun j _ => ⟨fun hu => ⟨hu.cells, hu.passes⟩, List.prefix_rfl, by simp [h]⟩⟩

variable {impl : Impl KCall KAns PmCall PmAns σ} {x : σ}

variable {p ws : List Word}

variable {event : ℤ × ℤ} {words : List Word} {ret : ℤ} {n turns : ℕ}

variable {ks done : List ℕ} {cells : ℕ → List ℕ}

variable {count : ℕ}

variable {count' : Word} {op : Option Operator} {taken : PmTaken}

end LiberaDaq.Kernel
