import LiberaDaq.Cspi.Handles

/-!
# The live connections

The connections that a client has allocated and not yet freed are known from what it was told
(`liveCons`). In every life of the library, with any calls in any order, the list of the environment
is exactly these connections (`connections_linked`): following `next` from `head` leads through them
and ends, `prev` leads back, and `connection_count` is their number.

`malloc` gives out only addresses that are not in use, which are neither null nor too large for a
pointer.
-/

namespace LiberaDaq.Cspi

open LiberaDaq.Interaction LiberaDaq.Memory Prog

variable {l : Lib} {ps : List ℕ} {tf : Transform}

/-- The connections that are live at the end of a life that began when the library was loaded. -/
def liveCons (ms : List LibMove) : List ℕ := ms.foldl (fun ps m => liveStep ps m.result) []

/-- The list of the environment consists of the connections `ps`, which are all that are on the
heap. -/
structure Lib.Linked (l : Lib) (ps : List ℕ) : Prop where
  nodup : ps.Nodup
  live : ∀ p, (l.heap p).isSome ↔ p ∈ ps
  next : Follows l.heap Connection.next l.env.head ps
  head : ∀ p c, l.env.head = some p → l.heap p = some c → c.prev = none
  prev : ∀ p q c d, l.heap p = some c → l.heap q = some d → (c.next = some q ↔ d.prev = some p)
  count : l.env.connectionCount.toNat = ps.length

theorem Lib.Listed.follows (h : l.Listed ps) {qs : List ℕ} (hq : qs <:+ ps) :
    Follows l.heap Connection.next qs.head? qs := by
  induction qs with
  | nil => rfl
  | cons q qs ih =>
    obtain ⟨c, hc⟩ := Option.isSome_iff_exists.1 (h.isSome.2 (hq.subset List.mem_cons_self))
    refine ⟨rfl, c, hc, ?_⟩
    rw [h.next hq hc]
    exact ih ((List.suffix_cons q qs).trans hq)

/-- Addresses of 32 bits that are not null are fewer than the count can show. -/
theorem length_lt_of_addresses (hn : ps.Nodup) (hp : ∀ p ∈ ps, 0 < p ∧ p < 2 ^ 32) :
    ps.length < 2 ^ 32 := by
  have hsub : 0 :: ps ⊆ List.range (2 ^ 32) := by
    intro p hmem
    rcases List.mem_cons.1 hmem with rfl | hmem
    · exact List.mem_range.2 (Nat.two_pow_pos 32)
    · exact List.mem_range.2 (hp p hmem).2
  have hnodup : (0 :: ps).Nodup := List.nodup_cons.2 ⟨fun h => lt_irrefl 0 (hp 0 h).1, hn⟩
  have hle := (hnodup.subperm hsub).length_le
  rw [List.length_range, List.length_cons] at hle
  omega

theorem Lib.Listed.linked (h : l.Listed ps) (hp : ∀ p ∈ ps, 0 < p ∧ p < 2 ^ 32) : l.Linked ps where
  nodup := h.nodup
  live := fun _ => h.isSome
  next := h.head ▸ h.follows List.suffix_rfl
  head := fun p c hhead hc => by
    rcases linksOf_prev (h.cell hc) with ⟨-, hprev⟩ | ⟨hne, -⟩
    · exact hprev
    · exact absurd (h.head.symm.trans hhead) hne
  prev := fun p q c d hc hd => linksOf_next_iff h.nodup (fun _ ha => by cases ha) (h.cell hc)
    (h.cell hd)
  count := by
    rw [h.count, BitVec.toNat_ofNat]
    exact Nat.mod_eq_of_lt (length_lt_of_addresses h.nodup hp)

/-- The address that `malloc` gave out. -/
def newAddress : SysEvent → Option ℕ
  | ⟨.malloc _, q⟩ => q
  | _ => none

/-- `malloc` gives out an address that is not in use, not null and of 32 bits. -/
def mallocSound (c : SysCall) (x : SysAns c) : Prop :=
  mallocFresh c x ∧ ∀ p ∈ newAddress ⟨c, x⟩, 0 < p ∧ p < 2 ^ 32

instance (ev : SysEvent) : Decidable (mallocSound ev.1 ev.2) :=
  inferInstanceAs (Decidable (_ ∧ _))

/-- The address of a new connection comes from `malloc`. -/
theorem allochandle_address {h : Handle} : (l.allochandle .con h).wlp (allowing mallocSound)
    (fun r _ => ∀ p, r.1.2 = .con p → 0 < p ∧ p < 2 ^ 32) () := by
  refine wlp_seq (wlp_of_ensures (ensures_true _)) fun valid _ _ => ?_
  cases valid with
  | false => exact fun p hp => by cases hp
  | true =>
    simp only [if_true, Lib.allocCon, bind_assoc]
    refine wlp_perform_bind.2 fun q _ hq => ?_
    cases q with
    | none => exact fun e => Empty.elim e
    | some p =>
      simp only [bind_assoc, pure_bind]
      refine wlp_seq (wlp_of_ensures (ensures_true _)) fun l' _ _ p' hp' => ?_
      obtain rfl : p = p' := by simpa using hp'
      exact hq.2 p rfl

/-- Live connections have addresses that `malloc` gave out. -/
theorem libStep_addresses {op : LibOp} (hp : ∀ p ∈ ps, 0 < p ∧ p < 2 ^ 32) :
    (libStep tf op l).wlp (allowing mallocSound)
      (fun r _ => ∀ p ∈ liveStep ps r.1, 0 < p ∧ p < 2 ^ 32) () := by
  cases op with
  | deliver q => exact hp
  | call call =>
    suffices hcall : (cspiImpl tf call l).wlp (allowing mallocSound)
        (fun r _ => ∀ p ∈ liveAfter ps ⟨call, r.1⟩, 0 < p ∧ p < 2 ^ 32) () from
      wlp_seq hcall fun r _ hr => hr
    have hsame : (cspiImpl tf call l).wlp (allowing mallocSound) (fun _ _ => True) () :=
      wlp_of_ensures (ensures_true _)
    cases call with
    | allochandle type h =>
      cases type with
      | env => exact wlp_mono hsame fun r _ _ => hp
      | con =>
        refine wlp_mono allochandle_address ?_
        rintro ⟨⟨rc, hd⟩, l'⟩ _ hr p hmem
        cases hd with
        | con q =>
          simp only [liveAfter] at hmem
          split at hmem
          · rcases List.mem_cons.1 hmem with rfl | hmem
            · exact hr p rfl
            · exact hp p hmem
          · exact hp p hmem
        | null | env => exact hp p hmem
    | freehandle type h =>
      refine wlp_mono hsame fun r _ _ p hmem => ?_
      cases type with
      | env => exact hp p hmem
      | con =>
        cases h with
        | con q =>
          simp only [liveAfter] at hmem
          split at hmem
          · exact hp p (List.mem_of_mem_erase hmem)
          · exact hp p hmem
        | null | env => exact hp p hmem
    | _ => exact wlp_mono hsame fun r _ _ => hp

/-- **The connections of the environment.** At the end of every life of the library its list is
exactly the connections that were allocated and not freed. -/
theorem connections_linked {ms : List LibMove} (hh : History (libStep tf) Lib.loaded ms l)
    (hm : ∀ m ∈ ms, ∀ e ∈ m.events, mallocSound e.1 e.2) : l.Linked (liveCons ms) := by
  have hrule :=
      hh.rule_prefix (I := fun past l => (∀ m ∈ past, ∀ e ∈ m.events, mallocSound e.1 e.2) →
      l.Listed (liveCons past) ∧ ∀ p ∈ liveCons past, 0 < p ∧ p < 2 ^ 32)
    (P := fun _ _ => True) ?_ fun _ => ⟨loaded_listed, by simp [liveCons]⟩
  · exact (hrule.2 hm).1.linked (hrule.2 hm).2
  · refine fun past m hvalid hI => ⟨trivial, fun hsound => ?_⟩
    obtain ⟨hlist, haddr⟩ := hI fun m' hm' => hsound m' (List.mem_append_left _ hm')
    have hev := hsound m (List.mem_append_right _ (List.mem_singleton_self m))
    have hfresh := fun e he => (hev e he).1
    have hlive : liveCons (past ++ [m]) = liveStep (liveCons past) m.result := by
      rw [liveCons, List.foldl_append]
      rfl
    rw [hlive]
    exact ⟨hvalid.of_wlp (served_allowing hfresh) (libStep_lists hlist),
      hvalid.of_wlp (served_allowing hev) (libStep_addresses haddr)⟩

/-- Three connections are allocated, and the middle one is freed. -/
theorem connections_linked_middle : ∃ tf ms l, History (libStep tf) Lib.loaded ms l ∧
    liveCons ms = [4, 2] ∧ l.Linked (liveCons ms) := by
  let tf : Transform := fun _ _ _ _ => none
  obtain ⟨ms, hms, hlive, hsound⟩ : ∃ ms, execAll granting (libStep tf)
      [.call (.allochandle .env .null), .call (.allochandle .con .env),
        .call (.allochandle .con .env), .call (.allochandle .con .env),
        .call (.freehandle .con (.con 3))] Lib.loaded 1 = some ms ∧
      liveCons ms = [4, 2] ∧ ∀ m ∈ ms, ∀ e ∈ m.events, mallocSound e.1 e.2 :=
    ⟨_, rfl, rfl, by decide⟩
  obtain ⟨l, hh⟩ := History.of_execAll hms
  exact ⟨tf, ms, l, hh, hlive, connections_linked hh hsound⟩

end LiberaDaq.Cspi
