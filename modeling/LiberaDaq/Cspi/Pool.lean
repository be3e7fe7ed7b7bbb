import LiberaDaq.Cspi.Codes
import LiberaDaq.Interaction.Environment
import LiberaDaq.Memory.FreeList

/-!
# The memory pool

`pool.c`: objects of one size, four to a block of `malloc`, with a free list that is threaded
through them. Requests that do not fit an object go to `malloc`, and come back to `free`.

`pool_sound` is about every sequence of calls, whatever `malloc` gives back: the free list has no
cycle, its objects are whole objects of the blocks, and they are apart from the allocations that are
live, as these are from each other.
-/

namespace LiberaDaq.Cspi

open LiberaDaq.Interaction LiberaDaq.Memory
open LiberaDaq.Interaction.Prog hiding pure bind call

/-! ## Calls -/

/-- The calls of the pool. A pointer is read and written at the address of the member that holds
it. -/
inductive PoolCall
  | malloc (size : Word)
  | free (p : ℕ)
  | load (a : ℕ)
  | store (a : ℕ) (q : Option ℕ)
  /-- A lock that is never released. -/
  | hang

abbrev PoolAns : PoolCall → Type
  | .malloc _ | .load _ => Option ℕ
  | .free _ | .store _ _ => Unit
  | .hang => Empty

abbrev PoolProg := Prog PoolCall PoolAns

/-- A call of the pool. -/
abbrev poolCall (c : PoolCall) : PoolProg (PoolAns c) := Prog.perform c

abbrev PoolEvent := Event PoolCall PoolAns

/-! ## The pool -/

/-- `OBJECT_COUNT`. -/
def objectCount : ℕ := 4

/-- `CHUNK_SIZE`. -/
def chunkSize : ℕ := 10240 * 8 * 4

/-- The size of a pointer. -/
def pointerSize : ℕ := 4

/-- `sizeof(Pool_object)`. -/
def objectSize : ℕ := chunkSize + pointerSize

/-- `&new[i]`. -/
def objectAt (new i : ℕ) : ℕ := new + i * objectSize

/-- `&p->next`. -/
def nextMember (p : ℕ) : ℕ := p + chunkSize

/-- `OBJECT_COUNT * sizeof(Pool_object)`. -/
def blockSize : Word := BitVec.ofNat 32 (objectCount * objectSize)

/-- The requests that the pool serves itself. -/
def pooled (size : Word) : Bool := !(size = 0 || BitVec.ofNat 32 chunkSize < size)

/-- `Pool`: the mutex and the head of the free list. -/
structure Pool where
  mutex : Bool
  head : Option ℕ

/-- The pool when the library was loaded. -/
def Pool.loaded : Pool := ⟨false, none⟩

/-- `pthread_mutex_lock` of the pool's mutex. -/
def Pool.lock (s : Pool) : PoolProg Pool :=
  if s.mutex then do
    let e ← poolCall .hang
    e.elim
  else pure { s with mutex := true }

/-- `pthread_mutex_unlock` of the pool's mutex. -/
def Pool.unlock (s : Pool) : Pool := { s with mutex := false }

/-- The loop of `pool_malloc`, over the indices that are left. -/
def linkObjects (new : ℕ) : List ℕ → PoolProg Unit
  | [] => pure ()
  | i :: is => do
    poolCall (.store (nextMember (objectAt new i)) (some (objectAt new (i + 1))))
    linkObjects new is

/-- `pool_malloc`. -/
def Pool.poolMalloc (s : Pool) (size : Word) : PoolProg (Option ℕ × Pool) :=
  if !pooled size then do
    let p ← poolCall (.malloc size)
    pure (p, s)
  else do
    let s ← s.lock
    match s.head with
    | some p => do
      let q ← poolCall (.load (nextMember p))
      pure (some p, { s with head := q }.unlock)
    | none => do
      let new ← poolCall (.malloc blockSize)
      match new with
      | none => pure (none, s.unlock)
      | some new => do
        linkObjects new (List.range' 1 (objectCount - 2))
        poolCall (.store (nextMember (objectAt new (objectCount - 1))) none)
        pure (some new, { s with head := some (objectAt new 1) }.unlock)

/-- `pool_free`. -/
def Pool.poolFree (s : Pool) (p : Option ℕ) (size : Word) : PoolProg Pool :=
  match p with
  | none => pure s
  | some p =>
    if !pooled size then do
      poolCall (.free p)
      pure s
    else do
      let s ← s.lock
      poolCall (.store (nextMember p) s.head)
      pure { s with head := some p }.unlock

/-- What clients do: they call the pool, and they store in memory. -/
inductive PoolOp
  | malloc (size : Word)
  | free (p : Option ℕ) (size : Word)
  | use (a : ℕ) (q : Option ℕ)

/-- An operation, with the pointer that it returns. -/
def Pool.step : PoolOp → Pool → PoolProg (Option ℕ × Pool)
  | .malloc size, s => s.poolMalloc size
  | .free p size, s => s.poolFree p size >>= fun s => pure (none, s)
  | .use a q, s => poolCall (.store a q) >>= fun _ => pure (none, s)

/-! ## The heap -/

/-- The memory below the pool: the pointers in it, by their address, and the regions that `malloc`
gave out and that were not freed since, with their size. -/
structure Heap where
  mem : ℕ → Option ℕ
  regions : List (ℕ × ℕ)

/-- The pointers in the regions are the same. -/
def Heap.SameIn (rs : List (ℕ × ℕ)) (h h' : Heap) : Prop :=
  ∀ a, (∃ r ∈ rs, bytesAt a pointerSize ⊆ bytesAt r.1 r.2) → h'.mem a = h.mem a

/-- What the system answers the pool. A region has at least one byte, and is apart from those that
are in use. What is not in them may change. -/
def Heap.serve : Serves PoolCall PoolAns Heap
  | .malloc _, none, h, h' => h'.regions = h.regions ∧ h.SameIn h.regions h'
  | .malloc size, some a, h, h' =>
    (∀ r ∈ h.regions, Disjoint (bytesAt a (max 1 size.toNat)) (bytesAt r.1 r.2)) ∧
      h'.regions = (a, max 1 size.toNat) :: h.regions ∧ h.SameIn h.regions h'
  | .free p, _, h, h' =>
    h'.regions = h.regions.filter (·.1 ≠ p) ∧ h.SameIn h'.regions h'
  | .load a, q, h, h' => q = h.mem a ∧ h' = h
  | .store a q, _, h, h' =>
    h'.regions = h.regions ∧ h'.mem a = q ∧
      ∀ b, Disjoint (bytesAt a pointerSize) (bytesAt b pointerSize) → h'.mem b = h.mem b
  | .hang, _, _, _ => False

/-- What goes on beside the pool. -/
def Heap.Drift (h h' : Heap) : Prop := h'.regions = h.regions ∧ h.SameIn h.regions h'

abbrev PoolMove := Move PoolOp (Option ℕ) (Pool × Heap) PoolEvent

/-- The lives of the pool. -/
abbrev PoolLife := Joint Pool.step Heap.serve Heap.Drift

/-! ## Allocations -/

/-- What an operation makes of the allocations that are live, each with the size that was asked
for. -/
def poolLiveStep (live : List (ℕ × Word)) : PoolOp → Option ℕ → List (ℕ × Word)
  | .malloc size, some p => (p, size) :: live
  | .free (some p) size, _ => live.erase (p, size)
  | _, _ => live

def poolLive (ms : List PoolMove) : List (ℕ × Word) :=
  ms.foldl (fun live m => poolLiveStep live m.op m.result) []

/-- The region that a call obtained. -/
def obtained : PoolEvent → Option ℕ
  | ⟨.malloc _, q⟩ => q
  | _ => none

/-- What an operation that obtained `new` makes of the blocks that were obtained for the pool. -/
def poolBlocksStep (blocks : List ℕ) : PoolOp → List ℕ → List ℕ
  | .malloc size, new => if pooled size then new ++ blocks else blocks
  | _, _ => blocks

def poolBlocks (ms : List PoolMove) : List ℕ :=
  ms.foldl (fun blocks m => poolBlocksStep blocks m.op (m.events.filterMap obtained)) []

/-- An operation that clients may ask for: they free what they were given and did not free yet, with
the size they asked for, and store in the bytes they were given. -/
def Permitted (live : List (ℕ × Word)) : PoolOp → Prop
  | .malloc _ | .free none _ => True
  | .free (some p) size => (p, size) ∈ live
  | .use a _ => ∃ x ∈ live, bytesAt a pointerSize ⊆ bytesAt x.1 x.2.toNat

/-- Every operation is one that clients may ask for. -/
def AllPermitted (ms : List PoolMove) : Prop :=
  ∀ ms₁ m ms₂, ms = ms₁ ++ m :: ms₂ → Permitted (poolLive ms₁) m.op

/-- A whole object of one of the blocks. -/
def IsObject (blocks : List ℕ) (p : ℕ) : Prop := ∃ b ∈ blocks, ∃ i < objectCount, p = objectAt b i

/-- The bytes that belong to an allocation: its object, or its region. -/
def extent (x : ℕ × Word) : Set ℕ :=
  if pooled x.2 then bytesAt x.1 objectSize else bytesAt x.1 (max 1 x.2.toNat)

/-- The pointer behind each object. -/
def Heap.next (h : Heap) (p : ℕ) : Option ℕ := h.mem (nextMember p)

/-- The free list is sound. -/
structure Pool.Sound (s : Pool) (h : Heap) (blocks : List ℕ) (live : List (ℕ × Word))
    (free : List ℕ) : Prop where
  threaded : Threaded h.next s.head free
  nodup : free.Nodup
  whole : ∀ p ∈ free, IsObject blocks p
  obtained : ∀ b ∈ blocks, (b, objectCount * objectSize) ∈ h.regions
  apart : ∀ p ∈ free, ∀ x ∈ live, Disjoint (bytesAt p objectSize) (extent x)
  live : live.Pairwise fun x y => Disjoint (extent x) (extent y)

/-! ## Objects -/

variable {s s' : Pool} {h h' : Heap} {blocks : List ℕ} {live live' : List (ℕ × Word)}
  {free free' : List ℕ} {size : Word} {p q : ℕ} {x : ℕ × Word}

theorem pooled_le (hs : pooled size = true) : size.toNat ≤ chunkSize := by
  simp only [pooled, Bool.not_eq_true', Bool.or_eq_false_iff, decide_eq_false_iff_not] at hs
  exact Nat.le_of_not_lt hs.2

theorem nextMember_subset (p : ℕ) :
    bytesAt (nextMember p) pointerSize ⊆ bytesAt p objectSize :=
  bytes_subset (Nat.le_add_right p chunkSize) (by rw [nextMember, objectSize]; omega)

theorem object_subset {b i : ℕ} (hi : i < objectCount) :
    bytesAt (objectAt b i) objectSize ⊆ bytesAt b (objectCount * objectSize) := by
  have hmul : (i + 1) * objectSize ≤ objectCount * objectSize := Nat.mul_le_mul_right _ hi
  rw [Nat.succ_mul] at hmul
  exact bytes_subset (Nat.le_add_right b _) (by rw [objectAt]; omega)

theorem objectAt_zero (b : ℕ) : objectAt b 0 = b := by rw [objectAt, Nat.zero_mul, Nat.add_zero]

theorem disjoint_objectAt {b i j : ℕ} (hij : i ≠ j) :
    Disjoint (bytesAt (objectAt b i) objectSize) (bytesAt (objectAt b j) objectSize) :=
  disjoint_bytes_row hij

theorem objectAt_injective (b : ℕ) : Function.Injective (objectAt b) := by
  intro i j hij
  by_contra hne
  exact ne_of_disjoint_bytes (disjoint_objectAt hne) (by decide) (by decide) hij

/-! ## What the operations do -/

/-- The loop has linked the objects of a block, and the last one was terminated. -/
structure Linked (new : ℕ) (h h' : Heap) : Prop where
  regions : h'.regions = h.regions
  link : ∀ i, 1 ≤ i → i + 1 < objectCount →
    h'.next (objectAt new i) = some (objectAt new (i + 1))
  last : h'.next (objectAt new (objectCount - 1)) = none
  rest : ∀ a, Disjoint (bytesAt new (objectCount * objectSize)) (bytesAt a pointerSize) →
    h'.mem a = h.mem a

/-- A run of an operation, with the regions that it obtained. -/
inductive PoolRun (s : Pool) (h : Heap) : PoolOp → Option ℕ → Pool → Heap → List ℕ → Prop
  | direct {size : Word} {q : Option ℕ} {h' : Heap} (hs : pooled size = false)
    (hq : Heap.serve (.malloc size) q h h') : PoolRun s h (.malloc size) q s h' q.toList
  | reused {size : Word} {p : ℕ} (hs : pooled size = true) (hp : s.head = some p) :
    PoolRun s h (.malloc size) (some p) ⟨false, h.next p⟩ h []
  | exhausted {size : Word} {h' : Heap} (hs : pooled size = true)
    (hq : Heap.serve (.malloc blockSize) none h h') : PoolRun s h (.malloc size) none s h' []
  | carved {size : Word} {new : ℕ} {h₁ h' : Heap} (hs : pooled size = true) (hp : s.head = none)
    (hq : Heap.serve (.malloc blockSize) (some new) h h₁) (hl : Linked new h₁ h') :
    PoolRun s h (.malloc size) (some new) ⟨false, some (objectAt new 1)⟩ h' [new]
  | freedNull {size : Word} : PoolRun s h (.free none size) none s h []
  | freed {size : Word} {p : ℕ} {h' : Heap} (hs : pooled size = false)
    (hq : Heap.serve (.free p) () h h') : PoolRun s h (.free (some p) size) none s h' []
  | returned {size : Word} {p : ℕ} {h' : Heap} (hs : pooled size = true)
    (hq : Heap.serve (.store (nextMember p) s.head) () h h') :
    PoolRun s h (.free (some p) size) none ⟨false, some p⟩ h' []
  | used {a : ℕ} {q : Option ℕ} {h' : Heap} (hq : Heap.serve (.store a q) () h h') :
    PoolRun s h (.use a q) none s h' []

theorem obtained_store {t : List PoolEvent} {a : ℕ} {q : Option ℕ} :
    (t ++ [(⟨.store a q, ()⟩ : PoolEvent)]).filterMap obtained = t.filterMap obtained := by
  rw [List.filterMap_append]
  exact List.append_nil _

/-- The loop, over indices that are different. -/
theorem linkObjects_wlp {new : ℕ} {is : List ℕ} (his : is.Nodup) (hlt : ∀ i ∈ is, i < objectCount)
    (t : List PoolEvent) : (linkObjects new is).wlp (record Heap.serve) (fun _ v =>
      v.2.filterMap obtained = t.filterMap obtained ∧ v.1.regions = h.regions ∧
      (∀ i ∈ is, v.1.next (objectAt new i) = some (objectAt new (i + 1))) ∧
      (∀ a, (∀ i ∈ is, Disjoint (bytesAt (nextMember (objectAt new i)) pointerSize)
        (bytesAt a pointerSize)) → v.1.mem a = h.mem a)) (h, t) := by
  induction is generalizing h t with
  | nil => exact ⟨rfl, rfl, by simp, fun _ _ => rfl⟩
  | cons i is ih =>
    obtain ⟨hi, his⟩ := List.nodup_cons.1 his
    rintro ⟨⟩ ⟨h₁, _⟩ ⟨⟨hr, hv, hrest⟩, rfl⟩
    refine wlp_mono (ih his (fun j hj => hlt j (List.mem_cons_of_mem i hj)) _) ?_
    rintro - ⟨h₂, t₂⟩ ⟨ht, hr₂, hlink, hrest₂⟩
    refine ⟨ht.trans obtained_store, hr₂.trans hr, fun j hj => ?_, fun a ha => ?_⟩
    · rcases List.mem_cons.1 hj with rfl | hj
      · -- the stores that follow are to other objects
        have hkept := hrest₂ (nextMember (objectAt new j)) fun k hk =>
          (disjoint_objectAt fun he : k = j => hi (he ▸ hk)).mono (nextMember_subset _)
            (nextMember_subset _)
        exact hkept.trans hv
      · exact hlink j hj
    · rw [hrest₂ a fun j hj => ha j (List.mem_cons_of_mem i hj)]
      exact hrest a (ha i List.mem_cons_self)

/-- What `pool_malloc` makes of a block. -/
theorem carve_wlp {new : ℕ} (t : List PoolEvent) : (linkObjects new
      (List.range' 1 (objectCount - 2)) >>= fun _ =>
        poolCall (.store (nextMember (objectAt new (objectCount - 1))) none)).wlp
      (record Heap.serve) (fun _ v => v.2.filterMap obtained = t.filterMap obtained ∧
        Linked new h v.1) (h, t) := by
  have hcell : ∀ i < objectCount, bytesAt (nextMember (objectAt new i)) pointerSize ⊆
      bytesAt new (objectCount * objectSize) := fun i hi =>
    (nextMember_subset _).trans (object_subset hi)
  refine wlp_seq (linkObjects_wlp List.nodup_range' (by decide) t) ?_
  rintro - ⟨h₁, t₁⟩ ⟨ht, hr, hlink, hrest⟩ ⟨⟩ ⟨h₂, _⟩ ⟨⟨hr₂, hlast, hrest₂⟩, rfl⟩
  refine ⟨obtained_store.trans ht, hr₂.trans hr, fun i hi hlt => ?_, hlast, fun a ha => ?_⟩
  · have hne : objectCount - 1 ≠ i := by omega
    have hkept := hrest₂ (nextMember (objectAt new i))
      ((disjoint_objectAt hne).mono (nextMember_subset _) (nextMember_subset _))
    refine hkept.trans (hlink i ?_)
    rw [List.mem_range'_1]
    omega
  · rw [hrest₂ a (ha.mono_left (hcell _ (by decide)))]
    refine hrest a fun i hi => ha.mono_left (hcell i ?_)
    rw [List.mem_range'_1] at hi
    omega

/-- **The runs of an operation**, while the mutex is free. -/
theorem step_wlp (op : PoolOp) (hm : s.mutex = false) : (Pool.step op s).wlp (record Heap.serve)
    (fun r v => PoolRun s h op r.1 r.2 v.1 (v.2.filterMap obtained)) (h, []) := by
  obtain ⟨mutex, head⟩ := s
  obtain rfl : mutex = false := hm
  cases op with
  | use a q =>
    rintro ⟨⟩ ⟨h', _⟩ ⟨hq, rfl⟩
    exact .used hq
  | free p size =>
    cases p with
    | none => exact .freedNull
    | some p =>
      cases hs : pooled size with
      | false =>
        simp only [Pool.step, Pool.poolFree, hs, Bool.not_false, if_true]
        rintro ⟨⟩ ⟨h', _⟩ ⟨hq, rfl⟩
        exact .freed hs hq
      | true =>
        simp only [Pool.step, Pool.poolFree, hs, Bool.not_true]
        rintro ⟨⟩ ⟨h', _⟩ ⟨hq, rfl⟩
        exact .returned hs hq
  | malloc size =>
    cases hs : pooled size with
    | false =>
      simp only [Pool.step, Pool.poolMalloc, hs, Bool.not_false, if_true]
      rintro q ⟨h', _⟩ ⟨hq, rfl⟩
      have hrun := PoolRun.direct (s := ⟨false, head⟩) hs hq
      cases q with
      | none => exact hrun
      | some p => exact hrun
    | true =>
      simp only [Pool.step, Pool.poolMalloc, hs, Bool.not_true]
      cases head with
      | some p =>
        rintro q ⟨h', _⟩ ⟨⟨rfl, he⟩, rfl⟩
        obtain rfl : h' = h := he
        exact .reused hs rfl
      | none =>
        rintro q ⟨h₁, _⟩ ⟨hq, rfl⟩
        cases q with
        | none => exact .exhausted hs hq
        | some new =>
          change (linkObjects new (List.range' 1 (objectCount - 2)) >>= fun _ =>
            poolCall (.store (nextMember (objectAt new (objectCount - 1))) none) >>= fun _ =>
              pure (some new, Pool.unlock _)).wlp _ _ _
          rw [← bind_assoc']
          refine wlp_seq (carve_wlp _) ?_
          rintro - ⟨h₂, t⟩ ⟨ht, hl⟩
          have hrun := PoolRun.carved (s := ⟨false, none⟩) hs rfl hq hl
          dsimp only at ht
          rw [wlp_pure, ht]
          exact hrun

/-! ## The stock -/

/-- The objects that clients have, and the other allocations. -/
def handed (live : List (ℕ × Word)) : List ℕ := (live.filter fun x => pooled x.2).map (·.1)

def apartFromPool (live : List (ℕ × Word)) : List ℕ :=
  (live.filter fun x => !pooled x.2).map (·.1)

/-- The books of the pool. The objects that are free and those that clients have are different
objects of its blocks; its blocks and the other allocations are regions of their own. -/
structure Pool.Stock (s : Pool) (h : Heap) (blocks : List ℕ) (live : List (ℕ × Word))
    (free : List ℕ) : Prop where
  mutex : s.mutex = false
  threaded : Threaded h.next s.head free
  nodup : (free ++ handed live).Nodup
  objects : ∀ p ∈ free ++ handed live, IsObject blocks p
  starts : (blocks ++ apartFromPool live).Nodup
  blocks : ∀ b ∈ blocks, (b, objectCount * objectSize) ∈ h.regions
  other : ∀ x ∈ live, pooled x.2 = false → (x.1, max 1 x.2.toNat) ∈ h.regions
  filled : ∀ r ∈ h.regions, 0 < r.2
  apart : ∀ r ∈ h.regions, ∀ r' ∈ h.regions, r ≠ r' → Disjoint (bytesAt r.1 r.2) (bytesAt r'.1 r'.2)

theorem mem_handed (hx : x ∈ live) (hs : pooled x.2 = true) : x.1 ∈ handed live :=
  List.mem_map_of_mem (List.mem_filter.2 ⟨hx, hs⟩)

theorem mem_apartFromPool (hx : x ∈ live) (hs : pooled x.2 = false) :
    x.1 ∈ apartFromPool live :=
  List.mem_map_of_mem (List.mem_filter.2 ⟨hx, by simp [hs]⟩)

theorem handed_cons (hs : pooled size = true) :
    handed ((p, size) :: live) = p :: handed live := by simp [handed, hs]

theorem handed_cons_other (hs : pooled size = false) :
    handed ((p, size) :: live) = handed live := by simp [handed, hs]

theorem apartFromPool_cons (hs : pooled size = false) :
    apartFromPool ((p, size) :: live) = p :: apartFromPool live := by simp [apartFromPool, hs]

theorem apartFromPool_cons_pooled (hs : pooled size = true) :
    apartFromPool ((p, size) :: live) = apartFromPool live := by simp [apartFromPool, hs]

theorem handed_perm (hl : live.Perm live') : (handed live).Perm (handed live') :=
  (hl.filter _).map _

theorem apartFromPool_perm (hl : live.Perm live') :
    (apartFromPool live).Perm (apartFromPool live') := (hl.filter _).map _

namespace Pool.Stock

/-- Different objects are apart. -/
theorem disjoint_objects (hst : s.Stock h blocks live free) (hp : IsObject blocks p)
    (hq : IsObject blocks q) (hne : p ≠ q) :
    Disjoint (bytesAt p objectSize) (bytesAt q objectSize) := by
  obtain ⟨b, hb, i, hi, rfl⟩ := hp
  obtain ⟨c, hc, j, hj, rfl⟩ := hq
  by_cases hbc : b = c
  · subst hbc
    exact disjoint_objectAt fun hij => hne (congrArg _ hij)
  · have hblocks := hst.apart _ (hst.blocks b hb) _ (hst.blocks c hc) fun he =>
      hbc (Prod.mk.inj he).1
    exact hblocks.mono (object_subset hi) (object_subset hj)

/-- An object is apart from an allocation that the pool did not serve. -/
theorem disjoint_other (hst : s.Stock h blocks live free) (hp : IsObject blocks p) (hx : x ∈ live)
    (hs : pooled x.2 = false) :
    Disjoint (bytesAt p objectSize) (bytesAt x.1 (max 1 x.2.toNat)) := by
  obtain ⟨b, hb, i, hi, rfl⟩ := hp
  have hne : b ≠ x.1 := fun he =>
    (List.nodup_append.1 hst.starts).2.2 b hb x.1 (mem_apartFromPool hx hs) he
  have hregions := hst.apart _ (hst.blocks b hb) _ (hst.other x hx hs) fun he =>
    hne (Prod.mk.inj he).1
  exact hregions.mono_left (object_subset hi)

theorem free_ne_handed (hst : s.Stock h blocks live free) (hp : p ∈ free) (hq : q ∈ handed live) :
    p ≠ q := fun he => (List.nodup_append.1 hst.nodup).2.2 p hp q hq he

/-- A free object is apart from every allocation. -/
theorem disjoint_extent (hst : s.Stock h blocks live free) (hp : p ∈ free) (hx : x ∈ live) :
    Disjoint (bytesAt p objectSize) (extent x) := by
  have hobject := hst.objects p (List.mem_append_left _ hp)
  rw [extent]
  cases hs : pooled x.2 with
  | true =>
    have hmem := mem_handed hx hs
    exact hst.disjoint_objects hobject (hst.objects _ (List.mem_append_right _ hmem))
      (hst.free_ne_handed hp hmem)
  | false => exact hst.disjoint_other hobject hx hs

/-- Different allocations are apart. -/
theorem disjoint_extents {y : ℕ × Word} (hst : s.Stock h blocks live free) (hx : x ∈ live)
    (hy : y ∈ live) (hne : x ≠ y) : Disjoint (extent x) (extent y) := by
  have hobject : ∀ z ∈ live, pooled z.2 = true → IsObject blocks z.1 := fun z hz hs =>
    hst.objects _ (List.mem_append_right _ (mem_handed hz hs))
  rw [extent, extent]
  cases hsx : pooled x.2 with
  | true =>
    cases hsy : pooled y.2 with
    | true =>
      refine hst.disjoint_objects (hobject x hx hsx) (hobject y hy hsy) fun he => hne ?_
      exact List.inj_on_of_nodup_map (List.nodup_append.1 hst.nodup).2.1
        (List.mem_filter.2 ⟨hx, hsx⟩) (List.mem_filter.2 ⟨hy, hsy⟩) he
    | false => exact hst.disjoint_other (hobject x hx hsx) hy hsy
  | false =>
    cases hsy : pooled y.2 with
    | true => exact (hst.disjoint_other (hobject y hy hsy) hx hsx).symm
    | false =>
      refine hst.apart _ (hst.other x hx hsx) _ (hst.other y hy hsy) fun he => hne ?_
      exact List.inj_on_of_nodup_map (List.nodup_append.1 hst.starts).2.1
        (List.mem_filter.2 ⟨hx, by simp [hsx]⟩) (List.mem_filter.2 ⟨hy, by simp [hsy]⟩)
        (Prod.mk.inj he).1

theorem nodup_live (hst : s.Stock h blocks live free) : live.Nodup := by
  have hhanded : (live.filter fun x => pooled x.2).Nodup :=
    (List.nodup_append.1 hst.nodup).2.1.of_map
  have hother : (live.filter fun x => !pooled x.2).Nodup :=
    (List.nodup_append.1 hst.starts).2.1.of_map
  refine (List.filter_append_perm (fun x => pooled x.2) live).nodup_iff.1 ?_
  refine List.nodup_append.2 ⟨hhanded, hother, fun x hx y hy he => ?_⟩
  subst he
  simp [(List.mem_filter.1 hx).2] at hy

/-- **The books are sound.** -/
theorem sound (hst : s.Stock h blocks live free) : s.Sound h blocks live free where
  threaded := hst.threaded
  nodup := hst.threaded.nodup
  whole _ hp := hst.objects _ (List.mem_append_left _ hp)
  obtained := hst.blocks
  apart _ hp _ hx := hst.disjoint_extent hp hx
  live := hst.nodup_live.pairwise_of_forall_ne fun _ hx _ hy hne => hst.disjoint_extents hx hy hne

/-! ### Operations -/

/-- Where the regions and the pointers behind the free objects are the same, the books are. -/
theorem quiet (hst : s.Stock h blocks live free) (hr : h'.regions = h.regions)
    (hn : ∀ p ∈ free, h'.next p = h.next p) : s.Stock h' blocks live free where
  mutex := hst.mutex
  threaded := hst.threaded.congr hn
  nodup := hst.nodup
  objects := hst.objects
  starts := hst.starts
  blocks := hr ▸ hst.blocks
  other := hr ▸ hst.other
  filled := hr ▸ hst.filled
  apart := hr ▸ hst.apart

/-- What keeps the pointers in the blocks keeps those behind the free objects. -/
theorem next_eq (hst : s.Stock h blocks live free) {rs : List (ℕ × ℕ)} (hs : h.SameIn rs h')
    (hrs : ∀ b ∈ blocks, (b, objectCount * objectSize) ∈ rs) : ∀ p ∈ free, h'.next p = h.next p := by
  intro p hp
  obtain ⟨b, hb, i, hi, rfl⟩ := hst.objects p (List.mem_append_left _ hp)
  exact hs _ ⟨_, hrs b hb, (nextMember_subset _).trans (object_subset hi)⟩

theorem drift (hst : s.Stock h blocks live free) (hd : h.Drift h') : s.Stock h' blocks live free :=
  hst.quiet hd.1 (hst.next_eq hd.2 hst.blocks)

/-- A client has stored in the bytes that it was given. -/
theorem used (hst : s.Stock h blocks live free) {a : ℕ} {q : Option ℕ} (hx : x ∈ live)
    (ha : bytesAt a pointerSize ⊆ bytesAt x.1 x.2.toNat) (hq : Heap.serve (.store a q) () h h') :
    s.Stock h' blocks live free := by
  obtain ⟨hr, -, hrest⟩ := hq
  refine hst.quiet hr fun p hp => hrest (nextMember p) ?_
  have hdisjoint := hst.disjoint_extent hp hx
  rw [extent] at hdisjoint
  cases hs : pooled x.2 with
  | true =>
    rw [hs, if_pos rfl] at hdisjoint
    have hchunk : bytesAt x.1 x.2.toNat ⊆ bytesAt x.1 objectSize :=
      bytes_subset le_rfl (by have := pooled_le hs; rw [objectSize]; omega)
    exact (hdisjoint.mono (nextMember_subset p) (ha.trans hchunk)).symm
  | false =>
    rw [hs, if_neg (by simp)] at hdisjoint
    have hregion : bytesAt x.1 x.2.toNat ⊆ bytesAt x.1 (max 1 x.2.toNat) :=
      bytes_subset le_rfl (by omega)
    exact (hdisjoint.mono (nextMember_subset p) (ha.trans hregion)).symm

/-- A new region starts where no other one does. -/
theorem start_fresh (hst : s.Stock h blocks live free) {n : ℕ} (hn : 0 < n)
    (hp : ∀ r ∈ h.regions, Disjoint (bytesAt p n) (bytesAt r.1 r.2)) :
    p ∉ blocks ++ apartFromPool live := by
  have hne : ∀ r ∈ h.regions, p ≠ r.1 := fun r hr =>
    ne_of_disjoint_bytes (hp r hr) hn (hst.filled r hr)
  intro hmem
  rcases List.mem_append.1 hmem with hmem | hmem
  · exact hne _ (hst.blocks p hmem) rfl
  · obtain ⟨x, hx, rfl⟩ := List.mem_map.1 hmem
    obtain ⟨hx, hs⟩ := List.mem_filter.1 hx
    exact hne _ (hst.other x hx (by simpa using hs)) rfl

/-- The regions with a new one. -/
theorem apart_cons (hst : s.Stock h blocks live free) {n : ℕ}
    (hp : ∀ r ∈ h.regions, Disjoint (bytesAt p n) (bytesAt r.1 r.2)) :
    ∀ r ∈ (p, n) :: h.regions, ∀ r' ∈ (p, n) :: h.regions, r ≠ r' →
      Disjoint (bytesAt r.1 r.2) (bytesAt r'.1 r'.2) := by
  intro r hr r' hr' hne
  rcases List.mem_cons.1 hr with rfl | hr <;> rcases List.mem_cons.1 hr' with rfl | hr'
  · exact absurd rfl hne
  · exact hp r' hr'
  · exact (hp r hr).symm
  · exact hst.apart r hr r' hr' hne

/-- A request that goes to `malloc`. -/
theorem direct (hst : s.Stock h blocks live free) (hs : pooled size = false)
    (hq : Heap.serve (.malloc size) (some p) h h') :
    s.Stock h' blocks ((p, size) :: live) free := by
  obtain ⟨hfresh, hr, hsame⟩ := hq
  have hstart := hst.start_fresh (by omega) hfresh
  refine ⟨hst.mutex, hst.threaded.congr (hst.next_eq hsame hst.blocks), ?_, ?_, ?_, ?_, ?_, ?_, ?_⟩
  · rw [handed_cons_other hs]
    exact hst.nodup
  · rw [handed_cons_other hs]
    exact hst.objects
  · rw [apartFromPool_cons hs]
    exact List.nodup_middle.2 (List.nodup_cons.2 ⟨hstart, hst.starts⟩)
  · intro b hb
    rw [hr]
    exact List.mem_cons_of_mem _ (hst.blocks b hb)
  · intro x hx hsx
    rw [hr]
    rcases List.mem_cons.1 hx with rfl | hx
    · exact List.mem_cons_self
    · exact List.mem_cons_of_mem _ (hst.other x hx hsx)
  · rw [hr]
    exact List.forall_mem_cons.2 ⟨by dsimp only; omega, hst.filled⟩
  · rw [hr]
    exact hst.apart_cons hfresh

/-- An object is taken from the free list. -/
theorem reused (hst : s.Stock h blocks live free) (hs : pooled size = true)
    (hp : s.head = some p) :
    ∃ free', Pool.Stock ⟨false, h.next p⟩ h blocks ((p, size) :: live) free' := by
  have hthreaded := hst.threaded
  rw [hp] at hthreaded
  obtain ⟨free', rfl, hrest⟩ := threaded_some.1 hthreaded
  refine ⟨free', rfl, hrest, ?_, ?_, ?_, hst.blocks, ?_, hst.filled, hst.apart⟩
  · rw [handed_cons hs]
    exact List.nodup_middle.2 hst.nodup
  · rw [handed_cons hs]
    intro q hq
    exact hst.objects q (List.perm_middle.mem_iff.1 hq)
  · rw [apartFromPool_cons_pooled hs]
    exact hst.starts
  · intro x hx hsx
    rcases List.mem_cons.1 hx with rfl | hx
    · rw [hs] at hsx
      cases hsx
    · exact hst.other x hx hsx

/-- A block is obtained: its first object goes to the client, and the others are the free list. -/
theorem carved (hst : s.Stock h blocks live free) {h₁ : Heap} (hs : pooled size = true)
    (hq : Heap.serve (.malloc blockSize) (some p) h h₁) (hl : Linked p h₁ h') :
    Pool.Stock ⟨false, some (objectAt p 1)⟩ h' (p :: blocks) ((p, size) :: live)
      ((List.range' 1 (objectCount - 1)).map (objectAt p)) := by
  obtain ⟨hfresh, hr, hsame⟩ := hq
  have hsize : max 1 blockSize.toNat = objectCount * objectSize := by decide
  rw [hsize] at hfresh hr
  have hr' : h'.regions = (p, objectCount * objectSize) :: h.regions := hl.regions.trans hr
  have hstart := hst.start_fresh (by decide) hfresh
  -- the objects of the block that are free and the one that the client has
  have hperm : ((List.range' 1 (objectCount - 1)).map (objectAt p) ++ p :: handed live).Perm
      ((List.range objectCount).map (objectAt p) ++ handed live) := by
    refine List.perm_middle.trans ?_
    rw [← objectAt_zero p]
    exact .refl _
  have hobject : ∀ q ∈ (List.range objectCount).map (objectAt p), IsObject [p] q := by
    intro q hq
    obtain ⟨i, hi, rfl⟩ := List.mem_map.1 hq
    exact ⟨p, List.mem_singleton_self p, i, List.mem_range.1 hi, rfl⟩
  refine ⟨rfl, ?_, ?_, ?_, ?_, ?_, ?_, ?_, ?_⟩
  · exact threaded_row (by decide) hl.link hl.last
  · rw [handed_cons hs, hperm.nodup_iff]
    refine List.nodup_append.2 ⟨List.nodup_range.map (objectAt_injective p),
      (List.nodup_append.1 hst.nodup).2.1, fun q hq r hr => ?_⟩
    -- the objects that clients have are in other regions
    obtain ⟨i, hi, rfl⟩ := List.mem_map.1 hq
    obtain ⟨b, hb, j, hj, rfl⟩ := hst.objects r (List.mem_append_right _ hr)
    have hdisjoint := hfresh _ (hst.blocks b hb)
    exact ne_of_disjoint_bytes (hdisjoint.mono (object_subset (List.mem_range.1 hi))
      (object_subset hj)) (by decide) (by decide)
  · rw [handed_cons hs]
    intro q hq
    rcases List.mem_append.1 (hperm.mem_iff.1 hq) with hq | hq
    · obtain ⟨b, hb, hi⟩ := hobject q hq
      exact ⟨b, List.mem_cons.2 (.inl (List.mem_singleton.1 hb)), hi⟩
    · obtain ⟨b, hb, hi⟩ := hst.objects q (List.mem_append_right _ hq)
      exact ⟨b, List.mem_cons_of_mem p hb, hi⟩
  · rw [apartFromPool_cons_pooled hs]
    exact List.nodup_cons.2 ⟨hstart, hst.starts⟩
  · rw [hr']
    intro b hb
    rcases List.mem_cons.1 hb with rfl | hb
    · exact List.mem_cons_self
    · exact List.mem_cons_of_mem _ (hst.blocks b hb)
  · rw [hr']
    intro x hx hsx
    rcases List.mem_cons.1 hx with rfl | hx
    · rw [hs] at hsx
      cases hsx
    · exact List.mem_cons_of_mem _ (hst.other x hx hsx)
  · rw [hr']
    exact List.forall_mem_cons.2
      ⟨show 0 < objectCount * objectSize by decide, hst.filled⟩
  · rw [hr']
    exact hst.apart_cons hfresh

/-- An allocation that goes back to `free`. -/
theorem freed (hst : s.Stock h blocks live free) (hs : pooled size = false) (hx : (p, size) ∈ live)
    (hq : Heap.serve (.free p) () h h') : s.Stock h' blocks (live.erase (p, size)) free := by
  obtain ⟨hr, hsame⟩ := hq
  have hperm := List.perm_cons_erase hx
  have hhanded := handed_perm hperm
  have hother := apartFromPool_perm hperm
  rw [handed_cons_other hs] at hhanded
  rw [apartFromPool_cons hs] at hother
  have hstarts := ((hother.append_left blocks).nodup_iff.1 hst.starts)
  obtain ⟨hp, hstarts⟩ := List.nodup_cons.1 (List.nodup_middle.1 hstarts)
  have hkept : ∀ r ∈ h.regions, r.1 ≠ p → r ∈ h'.regions := fun r hr' hne => by
    rw [hr]
    exact List.mem_filter.2 ⟨hr', by simpa using hne⟩
  have hsub : ∀ r ∈ h'.regions, r ∈ h.regions := fun r hr' => List.mem_of_mem_filter (hr ▸ hr')
  have hblocks : ∀ b ∈ blocks, (b, objectCount * objectSize) ∈ h'.regions := fun b hb =>
    hkept _ (hst.blocks b hb) fun he => hp (List.mem_append_left _ (he ▸ hb))
  refine ⟨hst.mutex, hst.threaded.congr (hst.next_eq hsame hblocks), ?_, ?_, hstarts, hblocks, ?_,
    fun r hr' => hst.filled r (hsub r hr'),
    fun r hr' r' hr'' => hst.apart r (hsub r hr') r' (hsub r' hr'')⟩
  · exact (hhanded.append_left free).nodup_iff.1 hst.nodup
  · exact fun q hq => hst.objects q ((hhanded.append_left free).mem_iff.2 hq)
  · intro x hx hsx
    refine hkept _ (hst.other x (List.mem_of_mem_erase hx) hsx) fun he => hp ?_
    have hstart := mem_apartFromPool hx hsx
    rw [show x.1 = p from he] at hstart
    exact List.mem_append_right _ hstart

/-- An object that goes back to the free list. -/
theorem returned (hst : s.Stock h blocks live free) (hs : pooled size = true)
    (hx : (p, size) ∈ live) (hq : Heap.serve (.store (nextMember p) s.head) () h h') :
    Pool.Stock ⟨false, some p⟩ h' blocks (live.erase (p, size)) (p :: free) := by
  obtain ⟨hr, hnext, hrest⟩ := hq
  have hmem := mem_handed hx hs
  have hperm := List.perm_cons_erase hx
  have hhanded := handed_perm hperm
  have hother := apartFromPool_perm hperm
  rw [handed_cons hs] at hhanded
  rw [apartFromPool_cons_pooled hs] at hother
  have hall : (free ++ handed live).Perm (p :: free ++ handed (live.erase (p, size))) :=
    (hhanded.append_left free).trans List.perm_middle
  have hkept : ∀ q ∈ free, h'.next q = h.next q := fun q hq => by
    refine hrest (nextMember q) ?_
    have hdisjoint := hst.disjoint_objects (hst.objects p (List.mem_append_right _ hmem))
      (hst.objects q (List.mem_append_left _ hq)) (hst.free_ne_handed hq hmem).symm
    exact hdisjoint.mono (nextMember_subset p) (nextMember_subset q)
  refine ⟨rfl, hst.threaded.push hnext hkept, hall.nodup_iff.1 hst.nodup,
    fun q hq => hst.objects q (hall.mem_iff.2 hq), ?_, hr ▸ hst.blocks, ?_, hr ▸ hst.filled,
    hr ▸ hst.apart⟩
  · exact (hother.append_left blocks).nodup_iff.1 hst.starts
  · intro x hx hsx
    rw [hr]
    exact hst.other x (List.mem_of_mem_erase hx) hsx

end Pool.Stock

/-- **The books are kept** by every operation that clients may ask for. -/
theorem PoolRun.stock {op : PoolOp} {q : Option ℕ} {new : List ℕ}
    (hrun : PoolRun s h op q s' h' new) (hst : s.Stock h blocks live free)
    (hop : Permitted live op) :
    ∃ free', s'.Stock h' (poolBlocksStep blocks op new) (poolLiveStep live op q) free' := by
  cases hrun with
  | direct hs hq =>
    rw [poolBlocksStep, hs]
    cases q with
    | none => exact ⟨free, hst.drift hq⟩
    | some p => exact ⟨free, hst.direct hs hq⟩
  | reused hs hp =>
    rw [poolBlocksStep, hs]
    exact hst.reused hs hp
  | exhausted hs hq =>
    rw [poolBlocksStep, hs]
    exact ⟨free, hst.drift hq⟩
  | carved hs _ hq hl =>
    rw [poolBlocksStep, hs]
    exact ⟨_, hst.carved hs hq hl⟩
  | freedNull => exact ⟨free, hst⟩
  | freed hs hq => exact ⟨free, hst.freed hs hop hq⟩
  | returned hs hq => exact ⟨_, hst.returned hs hop hq⟩
  | used hq =>
    obtain ⟨x, hx, ha⟩ := hop
    exact ⟨free, hst.used hx ha hq⟩

/-! ## Lives -/

variable {ms : List PoolMove} {m : PoolMove}

theorem poolLive_append :
    poolLive (ms ++ [m]) = poolLiveStep (poolLive ms) m.op m.result := by
  rw [poolLive, List.foldl_append]
  rfl

theorem poolBlocks_append : poolBlocks (ms ++ [m]) =
    poolBlocksStep (poolBlocks ms) m.op (m.events.filterMap obtained) := by
  rw [poolBlocks, List.foldl_append]
  rfl

theorem allPermitted_nil : AllPermitted [] := by
  intro ms₁ m ms₂ he
  simp at he

theorem allPermitted_append :
    AllPermitted (ms ++ [m]) ↔ AllPermitted ms ∧ Permitted (poolLive ms) m.op := by
  constructor
  · intro hp
    refine ⟨fun ms₁ m' ms₂ he => hp ms₁ m' (ms₂ ++ [m]) ?_, hp ms m [] rfl⟩
    rw [he, List.append_assoc, List.cons_append]
  · rintro ⟨hp, hm⟩ ms₁ m' ms₂ he
    rcases List.eq_nil_or_concat ms₂ with rfl | ⟨ms₃, m₃, rfl⟩
    · obtain ⟨rfl, hlast⟩ := List.append_inj' he rfl
      obtain rfl := (List.cons.inj hlast).1
      exact hm
    · rw [List.concat_eq_append, ← List.cons_append, ← List.append_assoc] at he
      exact hp ms₁ m' ms₃ (List.append_inj' he rfl).1

/-- The pool begins without objects. -/
theorem stock_loaded (hr : h.regions = []) : Pool.loaded.Stock h [] [] [] where
  mutex := rfl
  threaded := .nil
  nodup := List.nodup_nil
  objects := by simp [handed]
  starts := List.nodup_nil
  blocks := by simp
  other := by simp
  filled := by simp [hr]
  apart := by simp [hr]

/-- **The memory pool.** After every sequence of calls of `pool_malloc` and `pool_free`, in which
clients free what they were given and store in the bytes they were given, the free list has no
cycle, its objects are whole objects of the blocks that were obtained for the pool, and they are
apart from the allocations that are live, as these are from each other. -/
theorem pool_sound (hr : h.regions = []) (hl : PoolLife (Pool.loaded, h) ms (s', h'))
    (hp : AllPermitted ms) : ∃ free, s'.Sound h' (poolBlocks ms) (poolLive ms) free := by
  have hstock := Joint.rule_past
    (I := fun ms w => AllPermitted ms → ∃ free, w.1.Stock w.2 (poolBlocks ms) (poolLive ms) free)
    (P := fun _ _ => True) (fun ms m hm hI => ⟨trivial, fun hp => ?_⟩)
    (fun ms s u u' hI hd hp => ?_) hl fun _ => ⟨[], stock_loaded hr⟩
  · obtain ⟨free, hst⟩ := hstock.2 hp
    exact ⟨free, hst.sound⟩
  · obtain ⟨hp, hop⟩ := allPermitted_append.1 hp
    obtain ⟨free, hst⟩ := hI hp
    have hrun := hm.of_wlp_record (step_wlp (h := m.before.2) m.op hst.mutex)
    rw [poolLive_append, poolBlocks_append]
    exact hrun.stock hst hop
  · obtain ⟨free, hst⟩ := hI hp
    exact ⟨free, hst.drift hd⟩

/-! ### A life -/

/-- The heap that puts each region behind those that are in use. -/
def bumpHeap : Handler PoolCall PoolAns Heap
  | .malloc size, h =>
    let a := h.regions.foldr (fun r a => max a (r.1 + r.2)) 1
    some (some a, { h with regions := (a, max 1 size.toNat) :: h.regions })
  | .free p, h => some ((), { h with regions := h.regions.filter (·.1 ≠ p) })
  | .load a, h => some (h.mem a, h)
  | .store a q, h => some ((), { h with mem := Function.update h.mem a q })
  | .hang, _ => none

theorem le_foldr {rs : List (ℕ × ℕ)} {r : ℕ × ℕ} (hr : r ∈ rs) :
    r.1 + r.2 ≤ rs.foldr (fun r a => max a (r.1 + r.2)) 1 := by
  induction rs with
  | nil => cases hr
  | cons r' rs ih =>
    rcases List.mem_cons.1 hr with rfl | hr
    · exact le_max_right _ _
    · exact (ih hr).trans (le_max_left _ _)

theorem bumpHeap_serves (c : PoolCall) (h : Heap) (x : PoolAns c) (h' : Heap)
    (he : bumpHeap c h = some (x, h')) : Heap.serve c x h h' := by
  cases c with
  | hang => cases he
  | malloc size =>
    obtain ⟨rfl, rfl⟩ := Prod.mk.inj (Option.some.inj he)
    refine ⟨fun r hr => ?_, rfl, fun _ _ => rfl⟩
    have hle := le_foldr hr
    rw [disjoint_bytes]
    omega
  | store a q =>
    obtain ⟨rfl, rfl⟩ := Prod.mk.inj (Option.some.inj he)
    refine ⟨rfl, Function.update_self .., fun b hb => Function.update_of_ne ?_ _ _⟩
    exact (ne_of_disjoint_bytes hb (by decide) (by decide)).symm
  | free p =>
    obtain ⟨rfl, rfl⟩ := Prod.mk.inj (Option.some.inj he)
    exact ⟨rfl, fun _ _ => rfl⟩
  | load a =>
    obtain ⟨rfl, rfl⟩ := Prod.mk.inj (Option.some.inj he)
    exact ⟨rfl, rfl⟩

/-- An object and a large region are handed out, and the object comes back. -/
theorem pool_sound_bump : ∃ ms w free, PoolLife (Pool.loaded, ⟨fun _ => none, []⟩) ms w ∧
    ms.map Move.op = [.malloc 100, .malloc 400000, .free (some 1) 100] ∧
    w.1.Sound w.2 (poolBlocks ms) (poolLive ms) free := by
  have hfirst : PoolLife (Pool.loaded, ⟨fun _ => none, []⟩) _ _ :=
    Joint.exec bumpHeap_serves (Joint.nil _) (PoolOp.malloc 100) rfl
  have hsecond := hfirst.exec bumpHeap_serves (PoolOp.malloc 400000) rfl
  have hthird := hsecond.exec bumpHeap_serves (PoolOp.free (some 1) 100) rfl
  have hlive : ((1 : ℕ), (100 : Word)) ∈ [((1310737 : ℕ), (400000 : Word)), (1, 100)] := by decide
  obtain ⟨free, hfree⟩ := pool_sound rfl hthird (allPermitted_append.2
    ⟨allPermitted_append.2 ⟨allPermitted_append.2 ⟨allPermitted_nil, trivial⟩, trivial⟩, hlive⟩)
  exact ⟨_, _, free, hthird, rfl, hfree⟩

end LiberaDaq.Cspi
