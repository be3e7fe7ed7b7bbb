import Mathlib.Data.List.Basic
import Mathlib.Logic.Function.Basic
import Mathlib.Tactic.Common

/-!
# Doubly linked lists

A memory of cells, each with the address of the cell before it and of the one after it, as a partial
function. `linksOf none ps` is the memory of the list `ps`. The two operations that programs make on
such a list are assignments through pointers, `assignAt`: a cell is pushed to the front
(`linksOf_push`), and a cell is taken out (`linksOf_unlink`).
-/

namespace LiberaDaq.Memory

variable {P α β : Type} [DecidableEq P]

/-- An assignment to the cell that a pointer stands for, if it is not null. -/
def assignAt (k : P → Option α) (q : Option P) (f : α → α) : P → Option α :=
  fun x => if q = some x then (k x).map f else k x

@[simp] theorem assignAt_none (k : P → Option α) (f : α → α) : assignAt k none f = k := by
  funext x
  simp [assignAt]

theorem assignAt_self {k : P → Option α} {x : P} (f : α → α) :
    assignAt k (some x) f x = (k x).map f := if_pos rfl

theorem assignAt_of_ne {k : P → Option α} {q : Option P} {x : P} (h : q ≠ some x) (f : α → α) :
    assignAt k q f x = k x := if_neg h

/-- An assignment through a pointer that points nowhere. -/
theorem assignAt_eq_self {k : P → Option α} {q : Option P} (h : ∀ x, q = some x → k x = none)
    (f : α → α) : assignAt k q f = k := by
  funext x
  by_cases hx : q = some x
  · rw [hx, assignAt_self, h x hx, Option.map_none]
  · exact assignAt_of_ne hx f

@[simp] theorem assignAt_isSome (k : P → Option α) (q : Option P) (f : α → α) (x : P) :
    (assignAt k q f x).isSome = (k x).isSome := by
  unfold assignAt
  split <;> simp

/-- A memory where one component is observed. -/
theorem map_assignAt (g : α → β) (k : P → Option α) (q : Option P) (f : α → α) (f' : β → β)
    (h : ∀ a, g (f a) = f' (g a)) :
    (fun x => (assignAt k q f x).map g) = assignAt (fun x => (k x).map g) q f' := by
  funext x
  unfold assignAt
  split
  · simp only [Option.map_map]
    exact congrArg (fun r => (k x).map r) (funext h)
  · rfl

theorem assignAt_update_self {k : P → Option α} {x : P} {a : α} (f : α → α) :
    assignAt (Function.update k x (some a)) (some x) f = Function.update k x (some (f a)) := by
  funext y
  by_cases hy : y = x
  · subst hy
    simp [assignAt_self]
  · rw [assignAt_of_ne (by simpa using Ne.symm hy), Function.update_of_ne hy,
      Function.update_of_ne hy]

theorem assignAt_update_of_ne {k : P → Option α} {q : Option P} {x : P} {a : Option α}
    (h : q ≠ some x) (f : α → α) :
    assignAt (Function.update k x a) q f = Function.update (assignAt k q f) x a := by
  funext y
  by_cases hy : y = x
  · subst hy
    rw [assignAt_of_ne h, Function.update_self, Function.update_self]
  · rw [Function.update_of_ne hy]
    simp only [assignAt, Function.update_of_ne hy]

/-! ## Linked lists -/

/-- The addresses of the cells before and after a cell. -/
abbrev Links (P : Type) := P → Option (Option P × Option P)

/-- The memory of a list whose first cell comes after `prev`. -/
def linksOf : Option P → List P → Links P
  | _, [] => fun _ => none
  | prev, p :: ps => Function.update (linksOf (some p) ps) p (some (prev, ps.head?))

variable {prev : Option P} {p q : P} {ps : List P}

theorem linksOf_isSome (prev : Option P) : (linksOf prev ps p).isSome ↔ p ∈ ps := by
  induction ps generalizing prev with
  | nil => simp [linksOf]
  | cons q ps ih =>
    by_cases h : p = q
    · subst h
      simp [linksOf]
    · simp [linksOf, h, ih]

theorem linksOf_eq_none : linksOf prev ps p = none ↔ p ∉ ps := by
  rw [← linksOf_isSome prev]
  simp

/-- The list behind another cell. -/
theorem linksOf_relink (prev prev' : Option P) (hps : ps.Nodup) :
    linksOf prev' ps = assignAt (linksOf prev ps) ps.head? fun c => (prev', c.2) := by
  cases ps with
  | nil => rw [List.head?_nil, assignAt_none]; rfl
  | cons p ps => rw [List.head?_cons, linksOf, linksOf, assignAt_update_self]

/-- **Pushing a cell to the front.** -/
theorem linksOf_push (hps : ps.Nodup) : linksOf none (p :: ps) =
    Function.update (assignAt (linksOf none ps) ps.head? fun c => (some p, c.2)) p
      (some (none, ps.head?)) := by
  rw [linksOf, linksOf_relink none (some p) hps]

/-- Pushing a cell to the front, in a memory of cells with more than their links. -/
theorem map_push {k : P → Option α} {q : Option P} {f : α → α} {a : α}
    (g : α → Option P × Option P) (hf : ∀ a, g (f a) = (some p, (g a).2)) :
    (fun x => (Function.update (assignAt k q f) p (some a) x).map g) =
      Function.update (assignAt (fun x => (k x).map g) q fun c => (some p, c.2)) p
        (some (g a)) := by
  have hq := map_assignAt g k q f (fun c => (some p, c.2)) hf
  funext x
  by_cases hx : x = p
  · subst hx
    simp
  · rw [Function.update_of_ne hx, Function.update_of_ne hx, ← hq]

/-- The assignments that take the cell `p` out: its neighbours `pv` and `nx` are linked to each
other. -/
def unlink (k : Links P) (p : P) (pv nx : Option P) : Links P :=
  Function.update (assignAt (assignAt k pv fun c => (c.1, nx)) nx fun c => (pv, c.2)) p none

/-- Taking a cell out, in a memory of cells with more than their links. -/
theorem map_unlink {k : P → Option α} {f b : α → α} (pv nx : Option P)
    (g : α → Option P × Option P) (hf : ∀ a, g (f a) = ((g a).1, nx))
    (hb : ∀ a, g (b a) = (pv, (g a).2)) :
    (fun x => (Function.update (assignAt (assignAt k pv f) nx b) p none x).map g) =
      unlink (fun x => (k x).map g) p pv nx := by
  have hpv := map_assignAt g k pv f (fun c => (c.1, nx)) hf
  have hnx := map_assignAt g (assignAt k pv f) nx b (fun c => (pv, c.2)) hb
  funext x
  by_cases hx : x = p
  · subst hx
    simp [unlink]
  · rw [unlink, Function.update_of_ne hx, Function.update_of_ne hx, ← hpv, ← hnx]

/-- The first cell of a list without the cell `p`, which is followed by `nx`. -/
theorem head?_erase {pv nx : Option P} (hp : p ∈ ps) (h : linksOf prev ps p = some (pv, nx)) :
    (ps.erase p).head? = if ps.head? = some p then nx else ps.head? := by
  cases ps with
  | nil => cases hp
  | cons q ps =>
    by_cases hq : q = p
    · subst hq
      rw [linksOf, Function.update_self] at h
      obtain ⟨-, rfl⟩ := Prod.mk.inj (Option.some.inj h)
      simp
    · rw [List.erase_cons_tail (by simpa using hq)]
      simp [hq]

/-- The cell before a cell: `prev` for the first one, and one of the list for the others. -/
theorem linksOf_prev {pv nx : Option P} (h : linksOf prev ps p = some (pv, nx)) :
    (ps.head? = some p ∧ pv = prev) ∨ (ps.head? ≠ some p ∧ ∃ a ∈ ps, pv = some a) := by
  induction ps generalizing prev with
  | nil => cases h
  | cons q ps ih =>
    by_cases hq : p = q
    · subst hq
      rw [linksOf, Function.update_self] at h
      exact .inl ⟨rfl, (Prod.mk.inj (Option.some.inj h)).1.symm⟩
    · rw [linksOf, Function.update_of_ne hq] at h
      have hne : (q :: ps).head? ≠ some p := by simpa using Ne.symm hq
      rcases ih h with ⟨-, rfl⟩ | ⟨-, a, ha, rfl⟩
      · exact .inr ⟨hne, q, List.mem_cons_self, rfl⟩
      · exact .inr ⟨hne, a, List.mem_cons_of_mem q ha, rfl⟩

/-- The cell after a cell is one of the list. -/
theorem linksOf_next {pv : Option P} {a : P} (h : linksOf prev ps p = some (pv, some a)) :
    a ∈ ps := by
  induction ps generalizing prev with
  | nil => cases h
  | cons q ps ih =>
    by_cases hq : p = q
    · subst hq
      rw [linksOf, Function.update_self] at h
      have ha : ps.head? = some a := (Prod.mk.inj (Option.some.inj h)).2
      exact List.mem_cons_of_mem p (List.mem_of_mem_head? ha)
    · rw [linksOf, Function.update_of_ne hq] at h
      exact List.mem_cons_of_mem q (ih h)

/-- The cell after a cell of the list, by position. -/
theorem linksOf_suffix (prev : Option P) {qs : List P} (hps : ps.Nodup) (h : p :: qs <:+ ps) :
    ∃ pv, linksOf prev ps p = some (pv, qs.head?) := by
  induction ps generalizing prev with
  | nil => simp at h
  | cons q ps ih =>
    obtain ⟨hq, hps⟩ := List.nodup_cons.1 hps
    rcases List.suffix_cons_iff.1 h with heq | h
    · obtain ⟨rfl, rfl⟩ := List.cons.inj heq
      exact ⟨prev, Function.update_self ..⟩
    · have hne : p ≠ q := fun he => hq (he ▸ h.subset List.mem_cons_self)
      obtain ⟨pv, hcell⟩ := ih (some q) hps h
      exact ⟨pv, by rw [linksOf, Function.update_of_ne hne, hcell]⟩

/-- A cell is the next one of another exactly if the other is the one before it. -/
theorem linksOf_next_iff {pv nx pv' nx' : Option P} (hps : ps.Nodup)
    (hprev : ∀ a, prev = some a → a ∉ ps) (hp : linksOf prev ps p = some (pv, nx))
    (hq : linksOf prev ps q = some (pv', nx')) : nx = some q ↔ pv' = some p := by
  induction ps generalizing prev with
  | nil => cases hp
  | cons r rs ih =>
    obtain ⟨hr, hrs⟩ := List.nodup_cons.1 hps
    have hprev' : ∀ a, some r = some a → a ∉ rs := fun a ha => Option.some.inj ha ▸ hr
    by_cases hpr : p = r <;> by_cases hqr : q = r
    · subst hpr hqr
      rw [linksOf, Function.update_self] at hp hq
      obtain ⟨rfl, rfl⟩ := Prod.mk.inj (Option.some.inj hp)
      obtain ⟨rfl, rfl⟩ := Prod.mk.inj (Option.some.inj hq)
      exact iff_of_false (fun h => hr (List.mem_of_mem_head? h))
        fun h => hprev _ h List.mem_cons_self
    · subst hpr
      rw [linksOf, Function.update_self] at hp
      rw [linksOf, Function.update_of_ne hqr] at hq
      obtain ⟨rfl, rfl⟩ := Prod.mk.inj (Option.some.inj hp)
      rcases linksOf_prev hq with ⟨hhead, rfl⟩ | ⟨hhead, a, ha, rfl⟩
      · exact iff_of_true hhead rfl
      · exact iff_of_false hhead fun h => hr (Option.some.inj h ▸ ha)
    · subst hqr
      rw [linksOf, Function.update_of_ne hpr] at hp
      rw [linksOf, Function.update_self] at hq
      obtain ⟨rfl, rfl⟩ := Prod.mk.inj (Option.some.inj hq)
      have hmem : p ∈ rs := (linksOf_isSome _).1 (by rw [hp]; rfl)
      exact iff_of_false (fun h => hr (linksOf_next (h ▸ hp)))
        fun h => hprev _ h (List.mem_cons_of_mem _ hmem)
    · rw [linksOf, Function.update_of_ne hpr] at hp
      rw [linksOf, Function.update_of_ne hqr] at hq
      exact ih hrs hprev' hp hq

/-- From a cell on, the pointers `next` lead along a list and to its end. -/
def Follows (k : P → Option α) (next : α → Option P) : Option P → List P → Prop
  | q, [] => q = none
  | q, p :: ps => q = some p ∧ ∃ c, k p = some c ∧ Follows k next (next c) ps

theorem linksOf_unlink_aux {pv nx : Option P} (hps : ps.Nodup) (hprev : ∀ a, prev = some a → a ∉ ps)
    (h : linksOf prev ps p = some (pv, nx)) :
    unlink (linksOf prev ps) p pv nx = linksOf prev (ps.erase p) := by
  induction ps generalizing prev with
  | nil => cases h
  | cons q ps ih =>
    obtain ⟨hq, hps⟩ := List.nodup_cons.1 hps
    by_cases hqp : q = p
    · subst hqp
      have hcell := h
      rw [linksOf, Function.update_self] at hcell
      obtain ⟨rfl, rfl⟩ := Prod.mk.inj (Option.some.inj hcell)
      -- the assignment through `prev` goes to a cell outside the list
      rw [unlink, assignAt_eq_self fun a ha => linksOf_eq_none.2 (hprev a ha), List.erase_cons_head,
        linksOf]
      have hhead : ps.head? ≠ some q := fun hh => hq (List.mem_of_mem_head? hh)
      rw [assignAt_update_of_ne hhead, Function.update_idem, linksOf_relink (some q) prev hps]
      funext x
      by_cases hx : x = q
      · subst hx
        rw [Function.update_self, assignAt_of_ne hhead]
        exact (linksOf_eq_none.2 hq).symm
      · rw [Function.update_of_ne hx]
    · have hpq : p ≠ q := Ne.symm hqp
      have htail : linksOf (some q) ps p = some (pv, nx) := by
        rwa [linksOf, Function.update_of_ne hpq] at h
      have hp : p ∈ ps := (linksOf_isSome _).1 (by rw [htail]; rfl)
      have hnx : nx ≠ some q := fun hn => hq (linksOf_next (hn ▸ htail))
      have hprev : ∀ a, some q = some a → a ∉ ps := fun a ha => Option.some.inj ha ▸ hq
      have hih := ih hps hprev htail
      have herase : (q :: ps).erase p = q :: ps.erase p := List.erase_cons_tail (by simpa using hqp)
      rw [herase, linksOf, linksOf, ← hih, head?_erase hp htail]
      rcases linksOf_prev htail with ⟨hhead, rfl⟩ | ⟨hhead, a, ha, rfl⟩
      · -- `p` comes right after `q`, whose link is the one that changes
        rw [if_pos hhead, unlink, unlink, assignAt_update_self, assignAt_update_of_ne hnx,
          Function.update_comm hpq,
          assignAt_eq_self (q := some q) fun x hx => by
            obtain rfl := Option.some.inj hx
            exact linksOf_eq_none.2 hq]
      · have haq : (some a : Option P) ≠ some q := fun he => hq (Option.some.inj he ▸ ha)
        rw [if_neg hhead, unlink, unlink, assignAt_update_of_ne haq, assignAt_update_of_ne hnx,
          Function.update_comm hpq]

/-- **Taking a cell out.** -/
theorem linksOf_unlink {pv nx : Option P} (hps : ps.Nodup) (h : linksOf none ps p = some (pv, nx)) :
    unlink (linksOf none ps) p pv nx = linksOf none (ps.erase p) :=
  linksOf_unlink_aux hps (fun _ ha => by cases ha) h

end LiberaDaq.Memory
