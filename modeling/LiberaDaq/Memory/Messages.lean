import Mathlib.Data.List.GetD
import Mathlib.Logic.Nontrivial.Basic

/-!
# Messages of one size in a stream

A stream carries messages of `n` items each. `messages n s` are the complete ones among the items
`s` that came so far. A reader that takes at most what is missing of a message completes at most one
of them with every read (`messages_append_of_lt`, `messages_append_of_eq`).

A buffer is filled by storing what was read behind what it holds (`store`). If it held the first
part of the message before, it holds the message afterwards; if it came up with anything instead, it
holds the message only when there was no first part (`store_eq_message_iff`).
-/

namespace LiberaDaq.Memory

variable {α : Type} [Inhabited α] {n : ℕ} {s bs : List α}

/-! ## The messages -/

/-- The message `k` of a stream. -/
def message (n : ℕ) (s : List α) (k : ℕ) : Fin n → α := fun i => s.getD (k * n + i) default

/-- The complete messages of a stream. -/
def messages (n : ℕ) (s : List α) : List (Fin n → α) :=
  (List.range (s.length / n)).map (message n s)

@[simp] theorem messages_nil : messages n ([] : List α) = [] := by
  simp [messages]

/-- A complete message is not changed by what follows. -/
theorem message_append {k : ℕ} (h : k < s.length / n) : message n (s ++ bs) k = message n s k := by
  funext i
  have hle : (k + 1) * n ≤ s.length := Nat.le_trans (Nat.mul_le_mul_right n h)
      (Nat.div_mul_le_self _ _)
  have hi : k * n + i < s.length := by
    rw [Nat.add_mul, Nat.one_mul] at hle
    omega
  exact List.getD_append _ _ _ _ hi

theorem map_message_append :
    (List.range (s.length / n)).map (message n (s ++ bs)) = messages n s :=
  List.map_congr_left fun _ hk => message_append (List.mem_range.1 hk)

/-- Too little for another message. -/
theorem messages_append_of_lt (h : s.length % n + bs.length < n) :
    messages n (s ++ bs) = messages n s := by
  have hdiv : (s ++ bs).length / n = s.length / n := by
    have hlen : (s ++ bs).length = n * (s.length / n) + (s.length % n + bs.length) := by
      rw [List.length_append, ← Nat.add_assoc, Nat.div_add_mod]
    rw [hlen, Nat.mul_add_div (by omega), Nat.div_eq_of_lt h, Nat.add_zero]
  rw [messages, hdiv, map_message_append]

/-- The rest of a message. -/
theorem messages_append_of_eq (hn : 0 < n) (h : s.length % n + bs.length = n) :
    messages n (s ++ bs) = messages n s ++ [message n (s ++ bs) (s.length / n)] := by
  have hdiv : (s ++ bs).length / n = s.length / n + 1 := by
    have hlen : (s ++ bs).length = n * (s.length / n) + (s.length % n + bs.length) := by
      rw [List.length_append, ← Nat.add_assoc, Nat.div_add_mod]
    rw [hlen, Nat.mul_add_div hn, h, Nat.div_self hn]
  rw [messages, hdiv, List.range_succ, List.map_append, map_message_append]
  rfl

/-! ## A buffer -/

/-- The buffer with `bs` stored from the item `off` on. -/
def store (buf : Fin n → α) (off : ℕ) (bs : List α) : Fin n → α := fun i =>
  if off ≤ i ∧ i < off + bs.length then bs.getD (i - off) default else buf i

/-- The whole message is stored. -/
theorem store_zero (buf : Fin n → α) (h : bs.length = n) (hs : s.length % n = 0) :
    store buf 0 bs = message n (s ++ bs) (s.length / n) := by
  funext i
  have hstart : s.length / n * n = s.length := Nat.div_mul_cancel (Nat.dvd_of_mod_eq_zero hs)
  have hi : (0 : ℕ) ≤ i ∧ (i : ℕ) < 0 + bs.length := ⟨Nat.zero_le _, by omega⟩
  rw [store, if_pos hi, message, hstart, List.getD_append_right _ _ _ _ (by omega)]
  congr 1
  omega

/-- A buffer whose contents are not known holds the message after its last part was stored, only if
that was the whole message. -/
theorem store_eq_message_iff [Nontrivial α] (h : s.length % n + bs.length = n) :
    (∀ buf, store buf (s.length % n) bs = message n (s ++ bs) (s.length / n)) ↔
      s.length % n = 0 := by
  constructor
  · intro hall
    by_contra hpart
    have hn : 0 < n := by omega
    -- the buffer comes up with another first item
    obtain ⟨b, hb⟩ := exists_ne (message n (s ++ bs) (s.length / n) ⟨0, hn⟩)
    have hfirst := congrFun (hall fun _ => b) ⟨0, hn⟩
    have hnot : ¬(s.length % n ≤ (⟨0, hn⟩ : Fin n) ∧
        (⟨0, hn⟩ : Fin n).val < s.length % n + bs.length) := fun hle => by
      have hzero := hle.1
      dsimp only at hzero
      omega
    rw [store, if_neg hnot] at hfirst
    exact hb hfirst
  · intro hs buf
    rw [hs]
    exact store_zero buf (by omega) hs

end LiberaDaq.Memory
