import LiberaDaq.Interaction.Environment
import Mathlib.Data.Multiset.AddSub

/-!
# Resources in custody

A program gets resources from some of its calls and hands them back by others. `Deeds` says which
resource a call takes and which one it gives back; what is held along a run is a `Custody`, which
also notes when something was given back that was not held.

Resources are held in no particular order, so that whoever gives back what it took finds the rest of
the holdings as it left them (`Custody.give_take`), whatever others took in between.
-/

namespace LiberaDaq.Interaction

/-- The resources that are held, and whether one was given back that was not held. -/
structure Custody (ρ : Type) where
  held : Multiset ρ
  wrong : Bool

namespace Custody

variable {ρ : Type}

/-- Nothing held. -/
def clear : Custody ρ := ⟨0, false⟩

def take (u : Custody ρ) (r : ρ) : Custody ρ := { u with held := r ::ₘ u.held }

def give [DecidableEq ρ] (u : Custody ρ) (r : ρ) : Custody ρ :=
  if r ∈ u.held then { u with held := u.held.erase r } else { u with wrong := true }

variable {u : Custody ρ} {r : ρ}

@[simp] theorem held_take : (u.take r).held = r ::ₘ u.held := rfl

@[simp] theorem wrong_take : (u.take r).wrong = u.wrong := rfl

@[simp] theorem give_take [DecidableEq ρ] : (u.take r).give r = u := by
  simp [take, give]

/-- The custody with more resources. -/
def add (u : Custody ρ) (s : Multiset ρ) : Custody ρ := { u with held := u.held + s }

@[simp] theorem held_add {s : Multiset ρ} : (u.add s).held = u.held + s := rfl

@[simp] theorem add_zero : u.add 0 = u := by
  simp [add]

theorem add_cons {s : Multiset ρ} : u.add (r ::ₘ s) = (u.add s).take r := by
  simp [add, take]

theorem take_add {s : Multiset ρ} : (u.take r).add s = (u.add s).take r := by
  simp [add, take]

end Custody

/-- What the calls take and what they give back. -/
structure Deeds (C : Type) (A : C → Type) (ρ : Type) where
  taken : Event C A → Option ρ
  given : Event C A → Option ρ

namespace Deeds

variable {C ρ : Type} {A : C → Type} [DecidableEq ρ] (k : Deeds C A ρ)

/-- What a call does to the custody: what it gives back goes first. -/
def settle (e : Event C A) (u : Custody ρ) : Custody ρ :=
  let u := (k.given e).elim u u.give
  (k.taken e).elim u u.take

end Deeds

namespace Prog

variable {C : Type} {A : C → Type} {τ α : Type} {f : Event C A → τ → τ}
  {Q : α → τ × List (Event C A) → Prop} {v : τ × List (Event C A)}

/-- A call comes first, which an environment watches and writes down. -/
theorem wlp_watch_record {c : C} {k : A c → Prog C A α} :
    (perform c >>= k).wlp (record (watch f)) Q v ↔
      ∀ x, (k x).wlp (record (watch f)) Q (f ⟨c, x⟩ v.1, v.2 ++ [⟨c, x⟩]) := by
  constructor
  · intro h x
    exact h x _ ⟨rfl, rfl⟩
  · rintro h x ⟨u', t'⟩ ⟨hu, ht⟩
    obtain rfl : u' = f ⟨c, x⟩ v.1 := hu
    obtain rfl : t' = v.2 ++ [⟨c, x⟩] := ht
    exact h x

end Prog

end LiberaDaq.Interaction
