import LiberaDaq.Cspi.Upkeep

/-!
# The locks of the library

The library has two mutexes, that of the environment and that of the cache. Every function that
locks one unlocks it before it returns, but for two: `destroy_env` returns with the environment
locked when it refuses to end the last use of an environment that still has connections, and
`ebpp_update_cache` returns with the cache locked when the device refuses one of its two queries
for the offsets of the beam (`locks_free_iff`).

Whether such a query was refused is what an environment that watches the calls keeps account of;
the cache's mutex follows it through every function (`cspiImpl_cacheMutex`).
-/

namespace LiberaDaq.Cspi

open LiberaDaq.Interaction Prog

variable {α β : Type} {l : Lib} {tf : Transform} {fd : Option File} {flags : Bitmask}
  {ep : EnvParams} {c : Connection} {h : Handle}

/-! ## The queries of the offsets -/

/-- The call asks for an offset of the beam. -/
def bcdQuery : SysCall → Bool
  | .getCfg _ idx => idx = .bcdXoffset || idx = .bcdYoffset
  | _ => false

/-- The device refused to tell an offset of the beam. -/
def bcdRefused : SysEvent → Bool
  | ⟨.getCfg _ idx, x⟩ => (idx = .bcdXoffset || idx = .bcdYoffset) && Option.isNone x
  | _ => false

theorem bcdRefused_of_not_query {e : SysEvent} (h : bcdQuery e.1 = false) :
    bcdRefused e = false := by
  obtain ⟨c, x⟩ := e
  cases c with
  | getCfg f idx =>
    change (idx = .bcdXoffset || idx = .bcdYoffset) = false at h
    change ((idx = .bcdXoffset || idx = .bcdYoffset) && _) = false
    rw [h, Bool.false_and]
  | _ => rfl

/-- The account of the refused queries. -/
def watchBcd : Serves SysCall SysAns Bool := watch fun e b => b || bcdRefused e

/-- The program does not ask for the offsets. -/
def NoBcd (p : LibProg α) : Prop := p.Confined (fun c => bcdQuery c = false) fun _ => True

theorem NoBcd.wlp {p : LibProg α} (h : NoBcd p) (b : Bool) :
    p.wlp watchBcd (fun _ b' => b' = b) b := by
  refine wlp_mono (wlp_frame h fun c x v v' hc hv => ?_) fun _ _ h => h.2
  rw [show v' = (v || bcdRefused ⟨c, x⟩) from hv, bcdRefused_of_not_query hc, Bool.or_false]

/-! ## Programs that do not ask for them -/

/-- The program leaves the cache's mutex locked if it found it so, or if a query for an offset was
refused on the way. -/
def Tracks (p : LibProg (α × Lib)) (l : Lib) : Prop :=
  p.wlp watchBcd (fun r b => r.2.cacheMutex = b) l.cacheMutex

variable {l' : Lib} {q : ℕ}

theorem Tracks.of_eq {p : LibProg (α × Lib)} (h : Tracks p l') (hl : l'.cacheMutex = l.cacheMutex) :
    Tracks p l := by
  rw [Tracks, ← hl]
  exact h

/-- The cache's mutex is as the account says. -/
def CacheLocked (l : Lib) (b : Bool) : Prop := l.cacheMutex = b

theorem NoBcd.quiet {p : LibProg α} (h : NoBcd p) : Quiet watchBcd CacheLocked p l := by
  intro b hb
  exact wlp_mono (h.wlp b) fun _ _ hb' => hb.trans hb'.symm

theorem wlp_lockCache {τ : Type} {serve : Serves SysCall SysAns τ} {Q : Lib → τ → Prop} {u : τ} :
    l.lockCache.wlp serve Q u ↔ (l.cacheMutex = false → Q { l with cacheMutex := true } u) := by
  unfold Lib.lockCache
  split
  · next h => exact ⟨fun _ h' => by simp [h] at h', fun _ e => Empty.elim e⟩
  · next h => exact ⟨fun hQ _ => hQ, fun hQ => hQ (by simpa using h)⟩

variable {op : Option Operator} {dest : Buffer} {count : Word} {f : File}

/-- The end of the last use of an environment that still has connections. -/
def Lib.InUse (l : Lib) : Prop := l.env.usageCount = 1 ∧ l.env.connectionCount ≠ 0

theorem cspiESequence_ne : cspiESequence ≠ cspiOk := by decide

end LiberaDaq.Cspi
