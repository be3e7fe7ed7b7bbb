import LiberaDaq.Interaction.Environment

/-!
# Programs that maintain an invariant

A program maintains an invariant of its environment when every run of it that starts in the invariant
ends in it. What is done in the middle of a step of several calls may break the invariant, so that a
program need not be made of calls that keep it.
-/

namespace LiberaDaq.Interaction.Prog

variable {C : Type} {A : C → Type} {τ α β : Type} {serve : Serves C A τ} {I : τ → Prop}
  {p q : Prog C A α}

/-- Every run of the program from the invariant ends in the invariant. -/
def Maintains (serve : Serves C A τ) (I : τ → Prop) (p : Prog C A α) : Prop :=
  ∀ u, I u → p.wlp serve (fun _ => I) u

theorem maintains_pure (a : α) : Maintains serve I (Pure.pure a : Prog C A α) := fun _ hu => hu

theorem Maintains.bind {f : α → Prog C A β} (h : Maintains serve I p)
    (hf : ∀ a, Maintains serve I (f a)) : Maintains serve I (p >>= f) := fun u hu =>
  wlp_seq (h u hu) fun a v hv => hf a v hv

theorem Maintains.ite {c : Prop} [Decidable c] (hp : Maintains serve I p)
    (hq : Maintains serve I q) : Maintains serve I (if c then p else q) := by
  split
  · exact hp
  · exact hq

/-- A single call maintains the invariant when all its answers do. -/
theorem maintains_perform {c : C} (h : ∀ x u u', I u → serve c x u u' → I u') :
    Maintains serve I (perform c : Prog C A (A c)) := fun u hu x u' hx => h x u u' hu hx

end LiberaDaq.Interaction.Prog
