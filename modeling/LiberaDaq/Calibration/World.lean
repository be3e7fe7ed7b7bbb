import LiberaDaq.Kernel.CfgStation

/-!
# The cache and the device

The operators of the library work with a cache of calibration parameters. What the cache should hold
are the parameters of the configuration device, the offsets that the DSC server reports to it, and
the mode of the DSC server (`Coherent`).

Every change of a parameter is announced to the processes that listen. The DSC server announces its
own changes: a new mode, and new offsets by a change of level. An announcement is pending until the
event thread hands it to `signal_handler_hook`, which marks the cache as out of date if it heeds the
parameter.
-/

namespace LiberaDaq.Calibration

open LiberaDaq.Interaction LiberaDaq.Cspi LiberaDaq.Kernel Prog

/-! ## The world -/

/-- The configuration device, the mode of the DSC server, and the parameters whose change was
announced to the process and not yet handled by it. -/
structure CacheWorld where
  cfg : CfgWorld
  dsc : Word
  pending : List ℕ

namespace CacheWorld

/-- The world with a changed device, announced. -/
def setDev (u : CacheWorld) (dev : CfgDevice) (param : ℕ) : CacheWorld :=
  { u with cfg := { u.cfg with dev := dev }, pending := u.pending ++ [param] }

/-- The DSC server takes a mode. -/
def setDsc (u : CacheWorld) (dsc : Word) : CacheWorld :=
  { u with dsc := dsc, pending := u.pending ++ [cfgDsc] }

/-- The DSC server reports new offsets. -/
def setOffsets (u : CacheWorld) (x y : Word) : CacheWorld :=
  u.setDev (u.cfg.dev.bcdOffsets x y) cfgLevel

/-- An announcement is pending that the hook heeds. -/
def Warned (u : CacheWorld) : Prop := ∃ i ∈ u.pending, i ∈ hookParams

end CacheWorld

/-- What the system answers to the process. A query may fail. The DSC server may fail before or
after it took a mode, and it may report new offsets with other messages than those that ask. -/
def cacheServe (g : Global) : Serves SysCall SysAns CacheWorld
  | .setCfg f idx val, x, u, u' =>
    if u.cfg.master = some f then
      match u.cfg.dev.setCfg g idx val with
      | some dev => x = true ∧ u' = u.setDev dev idx.code
      | none => x = false ∧ u' = u
    else x = false ∧ u' = u
  | .getCfg _ idx, x, u, u' => (x = none ∨ x = u.cfg.dev.getCfg g idx) ∧ u' = u
  | .toattn w, x, u, u' => x = u.cfg.gains w ∧ u' = u
  | .dscMessage .getDsc _, x, u, u' => (x.1 = cspiOk → x.2 = some (u.dsc.setWidth 64)) ∧ u' = u
  | .dscMessage .getFrev _, _, u, u' => u' = u
  | .dscMessage .setDsc val, _, u, u' => u' = u ∨ u' = u.setDsc (val.setWidth 32)
  | .dscMessage _ _, _, u, u' => u' = u ∨ ∃ x y, u' = u.setOffsets x y
  | _, _, u, u' => u' = u

/-- What happens between the calls of the process: its event thread handles an announcement, another
process sets a parameter, the DSC server takes a mode or reports new offsets, and the device or the
table of gains changes hands. -/
inductive CacheOutside (g : Global) : Lib × CacheWorld → Lib × CacheWorld → Prop
  | deliver (l : Lib) (u : CacheWorld) (a b : List ℕ) (i : ℕ) (h : u.pending = a ++ i :: b) :
      CacheOutside g (l, u)
        (l.signalHandlerHook ⟨eventCfg, BitVec.ofNat 32 i⟩, { u with pending := a ++ b })
  | set (l : Lib) (u : CacheWorld) (idx : CfgIndex) (val : Word) (dev : CfgDevice)
      (h : u.cfg.dev.setCfg g idx val = some dev) :
      CacheOutside g (l, u) (l, u.setDev dev idx.code)
  | dsc (l : Lib) (u : CacheWorld) (dsc : Word) : CacheOutside g (l, u) (l, u.setDsc dsc)
  | offsets (l : Lib) (u : CacheWorld) (x y : Word) : CacheOutside g (l, u) (l, u.setOffsets x y)
  | station (l : Lib) (u : CacheWorld) (master : Option File) (gains : Word → ℤ) :
      CacheOutside g (l, u) (l, { u with cfg := ⟨u.cfg.dev, master, gains⟩ })

/-! ## Coherence -/

/-- The cache holds the values of the device. -/
structure Coherent (c : Cache) (u : CacheWorld) : Prop where
  kx : c.kx = u.cfg.dev.param .kx
  ky : c.ky = u.cfg.dev.param .ky
  xoffset : c.xoffset = u.cfg.dev.param .xoffset + u.cfg.dev.param .bcdXoffset
  yoffset : c.yoffset = u.cfg.dev.param .yoffset + u.cfg.dev.param .bcdYoffset
  qoffset : c.qoffset = u.cfg.dev.param .qoffset
  sp : ∀ m, c.sp m = u.cfg.dev.param (.sp m)
  sr : ∀ m, c.sr m = u.cfg.dev.param (.sr m)
  srDsc : c.srDsc = u.dsc

/-- The parameters of the device that the cache mirrors. -/
def cached : CfgIndex → Bool
  | .kx | .ky | .xoffset | .yoffset | .qoffset | .bcdXoffset | .bcdYoffset | .sr _ | .sp _ => true
  | _ => false

/-- The mirrored values are the same in two worlds. -/
structure SameValues (u u' : CacheWorld) : Prop where
  param : ∀ idx, cached idx → u'.cfg.dev.param idx = u.cfg.dev.param idx
  dsc : u'.dsc = u.dsc

variable {g : Global} {c : Cache} {u u' u'' : CacheWorld} {l : Lib}

theorem SameValues.refl (u : CacheWorld) : SameValues u u := ⟨fun _ _ => rfl, rfl⟩

theorem SameValues.trans (h : SameValues u u') (h' : SameValues u' u'') : SameValues u u'' :=
  ⟨fun idx hi => (h'.param idx hi).trans (h.param idx hi), h'.dsc.trans h.dsc⟩

theorem Coherent.of_same (h : Coherent c u) (hs : SameValues u u') : Coherent c u' where
  kx := h.kx.trans (hs.param _ rfl).symm
  ky := h.ky.trans (hs.param _ rfl).symm
  xoffset := by rw [h.xoffset, hs.param .xoffset rfl, hs.param .bcdXoffset rfl]
  yoffset := by rw [h.yoffset, hs.param .yoffset rfl, hs.param .bcdYoffset rfl]
  qoffset := h.qoffset.trans (hs.param _ rfl).symm
  sp := fun m => (h.sp m).trans (hs.param _ rfl).symm
  sr := fun m => (h.sr m).trans (hs.param _ rfl).symm
  srDsc := h.srDsc.trans hs.dsc.symm

/-- The cache is marked, or it will be, or it is coherent. -/
def Attended (l : Lib) (u : CacheWorld) : Prop := l.dirty = true ∨ u.Warned ∨ Coherent l.cache u

/-- What an attended cache is when nothing is pending. -/
theorem Attended.of_quiet (h : Attended l u) (hp : u.pending = []) :
    l.dirty = true ∨ Coherent l.cache u := by
  refine h.imp_right fun h => h.resolve_left ?_
  rintro ⟨i, hi, -⟩
  rw [hp] at hi
  cases hi

/-! ## Changes of the world -/

/-- The announcements that were pending still are, and either one that the hook heeds is pending or
the mirrored values are the same. -/
structure Announced (u u' : CacheWorld) : Prop where
  warned : u.Warned → u'.Warned
  same : u'.Warned ∨ SameValues u u'

theorem Announced.refl (u : CacheWorld) : Announced u u := ⟨id, .inr (.refl u)⟩

theorem Announced.trans (h : Announced u u') (h' : Announced u' u'') : Announced u u'' := by
  refine ⟨h'.warned ∘ h.warned, ?_⟩
  rcases h'.same with hw | hs
  · exact .inl hw
  · exact h.same.imp h'.warned fun hs' => hs'.trans hs

/-- An announced change leaves the cache attended. -/
theorem Announced.attended (h : Announced u u') (ha : Attended l u) : Attended l u' := by
  rcases ha with hd | hw | hc
  · exact .inl hd
  · exact .inr (.inl (h.warned hw))
  · exact .inr (h.same.imp_right hc.of_same)

theorem warned_append {i : ℕ} {p : List ℕ} (h : ∃ j ∈ p, j ∈ hookParams) :
    ∃ j ∈ p ++ [i], j ∈ hookParams := by
  obtain ⟨j, hj, hh⟩ := h
  exact ⟨j, List.mem_append_left _ hj, hh⟩

theorem announced_setDsc {dsc : Word} : Announced u (u.setDsc dsc) where
  warned := warned_append
  same := .inl ⟨cfgDsc, by simp [CacheWorld.setDsc], by decide⟩

theorem announced_setOffsets {x y : Word} : Announced u (u.setOffsets x y) where
  warned := warned_append
  same := .inl ⟨cfgLevel, by simp [CacheWorld.setOffsets, CacheWorld.setDev], by decide⟩

/-- The hook heeds every parameter that the cache mirrors, but for the offsets of the DSC server,
which no one sets at the device, and for the switch of the spike removal. -/
theorem heeded {idx : CfgIndex} (hi : cached idx) (he : idx ≠ .sr .enable)
    (hx : idx ≠ .bcdXoffset) (hy : idx ≠ .bcdYoffset) : idx.code ∈ hookParams := by
  cases idx with
  | sr m =>
    cases m with
    | enable => exact absurd rfl he
    | _ => decide
  | sp m => cases m <;> decide
  | bcdXoffset => exact absurd rfl hx
  | bcdYoffset => exact absurd rfl hy
  | xoffset | yoffset | qoffset | kx | ky => decide
  | _ => cases hi

/-- A setting at the device is announced, if it does not change the switch of the spike removal. -/
theorem announced_setDev {idx : CfgIndex} {val : Word} {dev : CfgDevice}
    (h : u.cfg.dev.setCfg g idx val = some dev)
    (he : idx = .sr .enable → dev.param idx = u.cfg.dev.param idx) :
    Announced u (u.setDev dev idx.code) := by
  refine ⟨warned_append, ?_⟩
  have hset : ∀ j, j ≠ idx → dev.param j = u.cfg.dev.param j := fun j hj => param_setCfg_of_ne h hj
  by_cases hi : cached idx = true ∧ idx ≠ .sr .enable
  · have hx : idx ≠ .bcdXoffset := by rintro rfl; cases h
    have hy : idx ≠ .bcdYoffset := by rintro rfl; cases h
    exact .inl ⟨idx.code, by simp [CacheWorld.setDev], heeded hi.1 hi.2 hx hy⟩
  · refine .inr ⟨fun j hj => ?_, rfl⟩
    by_cases hji : j = idx
    · subst hji
      exact he (by_contra fun hne => hi ⟨hj, hne⟩)
    · exact hset j hji

/-- An announcement that the hook handles marks the cache, or it was not one that it heeds. -/
theorem attended_deliver {a b : List ℕ} {i : ℕ} (hp : u.pending = a ++ i :: b)
    (h : Attended l u) : Attended (l.signalHandlerHook ⟨eventCfg, BitVec.ofNat 32 i⟩)
      { u with pending := a ++ b } := by
  have hnat : ∀ i ∈ hookParams, (BitVec.ofNat 32 i).toNat = i := by decide
  by_cases hi : i ∈ hookParams
  · refine .inl ?_
    rw [Lib.signalHandlerHook, if_pos ⟨rfl, by rwa [hnat i hi]⟩]
  · have hcache : (l.signalHandlerHook ⟨eventCfg, BitVec.ofNat 32 i⟩).cache = l.cache := by
      unfold Lib.signalHandlerHook
      split <;> rfl
    have hdirty : l.dirty = true →
        (l.signalHandlerHook ⟨eventCfg, BitVec.ofNat 32 i⟩).dirty = true := by
      unfold Lib.signalHandlerHook
      split <;> simp
    rcases h with hd | ⟨j, hj, hh⟩ | hc
    · exact .inl (hdirty hd)
    · refine .inr (.inl ⟨j, ?_, hh⟩)
      rw [hp] at hj
      have hne : j ≠ i := fun h => hi (h ▸ hh)
      simpa [hne] using hj
    · exact .inr (.inr (hcache ▸ hc.of_same ⟨fun _ _ => rfl, rfl⟩))

end LiberaDaq.Calibration
