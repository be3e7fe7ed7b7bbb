import LiberaDaq.Command.Setup
import LiberaDaq.Interaction.Environment

/-!
# The duration of an acquisition

`setHandler` notes the milliseconds of the day at the start, and `acquireHandler` ends the
acquisition when the time of day is more than `acquire_duration*1000` ahead of them. The difference
is taken in 64 bits without sign and the product in 32 bits with sign. `duration_limit` says for
which instants and durations this ends the acquisition exactly when the duration has passed.
-/

namespace LiberaDaq

open Cspi Interaction

/-! ## Instants -/

/-- The milliseconds of a day. -/
def dayMs : ℕ := 86400000

/-- The milliseconds of the time of day at an instant, which is given by the microseconds since some
midnight. -/
def timeOfDay (t : ℕ) : ℕ := t / 1000 % dayMs

/-- How much later the time of day is at `t` than at `t₀`. -/
def shift (t₀ t : ℕ) : ℤ := timeOfDay t - timeOfDay t₀

/-- `acquire_duration*1000`, in 32 bits. -/
def limit (d : Word) : ℤ := (d * 1000).toInt

/-- More than `d` seconds have passed from `t₀` to `t`. -/
def Over (d : Word) (t₀ t : ℕ) : Prop := 1000000 * d.toInt < (t : ℤ) - t₀

theorem timeOfDay_lt (t : ℕ) : timeOfDay t < 86400000 := Nat.mod_lt _ (by decide)

/-- For durations whose milliseconds fit. -/
theorem limit_eq {d : Word} (h₀ : -2147483 ≤ d.toInt) (h₁ : d.toInt ≤ 2147483) :
    limit d = 1000 * d.toInt := by
  have hk : (1000 : Word).toInt = 1000 := rfl
  rw [limit, BitVec.toInt_mul, hk, Int.bmod_eq_of_le] <;> omega

/-- The comparison of a difference of times of day with a limit, in 64 bits without sign. -/
theorem expired_iff {c : AcquireCmd} {t₀ t : ℕ}
    (hstart : c.startAcquire = BitVec.ofNat 64 (timeOfDay t₀)) :
    c.expired (BitVec.ofNat 64 (timeOfDay t)) ↔
      if shift t₀ t < 0 then 0 ≤ limit c.acquireDuration ∨ limit c.acquireDuration < shift t₀ t
      else 0 ≤ limit c.acquireDuration ∧ limit c.acquireDuration < shift t₀ t := by
  have hd₀ := timeOfDay_lt t₀
  have hd := timeOfDay_lt t
  have hlim : ((c.acquireDuration * 1000).signExtend 64).toInt = limit c.acquireDuration :=
    BitVec.toInt_signExtend_of_le (by decide)
  have hcond := BitVec.toInt_eq_toNat_cond ((c.acquireDuration * 1000).signExtend 64)
  have hlt := ((c.acquireDuration * 1000).signExtend 64).isLt
  rw [hlim] at hcond
  rw [AcquireCmd.expired, hstart, BitVec.ult, decide_eq_true_eq, BitVec.toNat_sub,
    BitVec.toNat_ofNat, BitVec.toNat_ofNat]
  unfold shift
  split at hcond <;> split <;> omega

/-! ## When the test is right -/

/-- The duration `d` is one whose test is right, from a start at `t₀` to a turn at `t`. -/
def KeepsLimit (d : Word) (t₀ t : ℕ) : Prop :=
  if d = 0 then t = t₀
  else if 0 < d.toInt ∧ d.toInt ≤ 2147483 then
    if shift t₀ t < 0 then Over d t₀ t else Over d t₀ t → 1000 * d.toInt < shift t₀ t
  -- the milliseconds of the duration do not fit, or there is less than none of them
  else if shift t₀ t < 0 then Over d t₀ t ↔ (0 ≤ limit d ∨ limit d < shift t₀ t)
  else Over d t₀ t ↔ (0 ≤ limit d ∧ limit d < shift t₀ t)

/-- As long as the time of day does not go back, an advance by more than the duration takes longer
than the duration. -/
theorem over_of_shift {d : Word} {t₀ t : ℕ} (ht : t₀ ≤ t) (h : 1000 * d.toInt < shift t₀ t) :
    Over d t₀ t := by
  unfold shift timeOfDay dayMs at h
  unfold Over
  omega

/-- **The test of the duration** against the time that has passed. -/
theorem expired_over_iff {c : AcquireCmd} {t₀ t : ℕ} (ht : t₀ ≤ t)
    (hstart : c.startAcquire = BitVec.ofNat 64 (timeOfDay t₀)) :
    ((c.acquireDuration ≠ 0 ∧ c.expired (BitVec.ofNat 64 (timeOfDay t))) ↔
      Over c.acquireDuration t₀ t) ↔ KeepsLimit c.acquireDuration t₀ t := by
  rw [expired_iff hstart, KeepsLimit]
  generalize c.acquireDuration = d
  by_cases hd : d = 0
  · have hzero : Over d t₀ t ↔ t₀ < t := by
      rw [Over, hd]
      simp
    rw [hzero, if_pos hd]
    refine ⟨fun h => ?_, fun h => iff_of_false (fun hx => hx.1 hd) (by omega)⟩
    by_contra hne
    exact (h.2 (by omega)).1 hd
  · rw [if_neg hd, and_iff_right hd]
    by_cases hfit : 0 < d.toInt ∧ d.toInt ≤ 2147483
    · rw [if_pos hfit, limit_eq (by omega) hfit.2]
      by_cases hback : shift t₀ t < 0
      · rw [if_pos hback, if_pos hback]
        exact ⟨fun h => h.1 (.inl (by omega)), fun h => iff_of_true (.inl (by omega)) h⟩
      · rw [if_neg hback, if_neg hback]
        refine ⟨fun h hover => (h.2 hover).2, fun h => ⟨fun hx => over_of_shift ht hx.2, ?_⟩⟩
        exact fun hover => ⟨by omega, h hover⟩
    · rw [if_neg hfit]
      split <;> exact Iff.comm

/-- On one day, a duration that fits is kept up to a millisecond. -/
theorem keepsLimit_of_sameDay {d : Word} {t₀ t : ℕ} (hd : 0 < d.toInt ∧ d.toInt ≤ 2147483)
    (hday : t₀ / 1000 / dayMs = t / 1000 / dayMs) (ht : t₀ ≤ t) (hms : t % 1000 ≤ t₀ % 1000) :
    KeepsLimit d t₀ t := by
  have hne : d ≠ 0 := by
    rintro rfl
    exact absurd hd.1 (by decide)
  unfold dayMs at hday
  have hshift : shift t₀ t = (t / 1000 : ℕ) - (t₀ / 1000 : ℕ) := by
    unfold shift timeOfDay dayMs
    omega
  rw [KeepsLimit, if_neg hne, if_pos hd, if_neg (by omega), hshift]
  unfold Over
  omega

/-! ## The moves of a station -/

variable {c c' : AcquireCmd} {d d' : Driver} {tr : List UnitEvent} {e : Exit} {r : Request}
  {m m₀ : StationMove} {ms : List StationMove} {t t₀ : ℕ}

/-- The limit of an acquisition: its start, and how long it may take. -/
def AcquireCmd.span (c : AcquireCmd) : BitVec 64 × Word := (c.startAcquire, c.acquireDuration)

theorem countDown_span : c.countDown.span = c.span := by
  unfold AcquireCmd.countDown
  split <;> rfl

theorem stamped_span (x : ℤ × Timestamp) : (c.stamped x).span = c.span := by
  obtain ⟨mt, st, h⟩ := c.stamped_eq x
  rw [h]
  rfl

theorem took_span (a : Attr) (ptr : Bool) (x : ReadOutcome) : (c.took a ptr x).span = c.span := by
  unfold AcquireCmd.took
  split <;> rfl

theorem AcquireCmd.FinishRun.span (h : c.FinishRun d tr e c' d') : c'.span = c.span := by
  cases h with
  | ended => rfl
  | failed => exact countDown_span
  | goesOn => exact countDown_span

theorem AcquireCmd.IterateRun.span (h : c.IterateRun d tr e c' d') : c'.span = c.span := by
  cases h with
  | missing ep x => exact stamped_span x
  | unread ep x _ hfin => exact hfin.span.trans (stamped_span x)
  | read ep x a ptr _ _ _ _ hfin =>
    exact hfin.span.trans ((took_span a ptr _).trans (stamped_span x))

/-- No turn changes the limit. -/
theorem AcquireCmd.TurnRun.span (h : c.TurnRun d tr e c' d') : c'.span = c.span := by
  cases h with
  | expired => rfl
  | timed _ _ _ h => exact h.span
  | untimed _ h => exact h.span

theorem acquire_span (hm : m.Valid Station.step) (hop : m.op = .acquire) :
    m.after.cmd.span = m.before.cmd.span := by
  by_cases hl : m.before.live
  · exact (move_turn hm hop hl).1.span
  · rw [(move_idle hm hop hl).2.2]

/-- The clock answers with the time of day at `t` throughout the move. -/
def ClockAt (t : ℕ) (m : StationMove) : Prop :=
  ∀ x, frameEvent .now x ∈ m.events → x = BitVec.ofNat 64 (timeOfDay t)

/-- The test of the duration ended the turn: it came to the end without a call of the driver. -/
def ByDuration (m : StationMove) : Prop :=
  m.after.cmd.running = .ended ∧ ∀ e ∈ m.events, ∃ f x, e = frameEvent f x

/-- A turn that passes the test calls the driver. -/
theorem AcquireCmd.IterateRun.calls (h : c.IterateRun d tr e c' d') :
    ¬∀ e ∈ tr, ∃ f x, e = frameEvent f x := by
  intro hall
  have hts : ∃ ep tr', tr = Prog.leftEvent (hostEvent .uninitEnv ep) :: tr' := by
    cases h with
    | missing ep => exact ⟨ep, _, rfl⟩
    | unread ep => exact ⟨ep, _, rfl⟩
    | read ep => exact ⟨ep, _, rfl⟩
  obtain ⟨ep, tr', rfl⟩ := hts
  obtain ⟨f, x, h⟩ := hall _ List.mem_cons_self
  cases h

/-- **When the test of the duration ends a turn.** -/
theorem byDuration_iff (hm : m.Valid Station.step) (hop : m.op = .acquire) (hl : m.before.live)
    (hclock : ClockAt t m) : ByDuration m ↔ m.before.cmd.acquireDuration ≠ 0 ∧
      m.before.cmd.expired (BitVec.ofNat 64 (timeOfDay t)) := by
  have hturn := (move_turn hm hop hl).1
  unfold ByDuration
  unfold ClockAt at hclock
  generalize m.after.cmd = c' at hturn ⊢
  generalize m.after.driver = d' at hturn
  generalize m.result = e at hturn
  generalize m.events = tr at hturn hclock ⊢
  cases hturn with
  | expired now hdur hexp =>
    obtain rfl := hclock now List.mem_cons_self
    exact iff_of_true ⟨rfl, by simp⟩ ⟨hdur, hexp⟩
  | timed now hdur hexp h =>
    obtain rfl := hclock now List.mem_cons_self
    refine iff_of_false (fun hb => h.calls fun e he => ?_) fun hx => hexp hx.2
    exact hb.2 e (List.mem_cons_of_mem _ he)
  | untimed hdur h => exact iff_of_false (fun hb => h.calls hb.2) fun hx => hx.1 hdur

/-- What an accepted request notes. -/
theorem accepts_span (hm : m.Valid Station.step) (hacc : Accepts m r) (hclock : ClockAt t m) :
    m.after.cmd.span = (BitVec.ofNat 64 (timeOfDay t), r.duration.getD 0) := by
  obtain ⟨hop, hen, hres⟩ := hacc
  obtain ⟨hrun, -⟩ := move_set hm hop
  rw [hres] at hrun
  unfold ClockAt at hclock
  generalize m.after.driver = d' at hrun
  generalize m.after.cmd = c' at hrun ⊢
  generalize m.events = ev at hrun hclock
  cases hrun with
  | disabled ep x hdis => exact absurd hdis hen
  | started ep x w a now =>
    obtain rfl := hclock now (by simp)
    exact Prod.ext rfl (prepared_cmd _ r a).2.2.1

/-- **The duration of an acquisition.** In every history in which a request for `d` seconds is
accepted at `t₀`, the test of the duration ends a turn at `t` exactly when more than `d` seconds
have passed, if and only if `KeepsLimit` holds of the duration and the two instants. -/
theorem duration_limit (r : Request) (d : Word) (t₀ t : ℕ) (s s' : Station)
    (m₀ m : StationMove) (ms : List StationMove) (hdur : r.duration = some d) (ht : t₀ ≤ t)
    (h : History Station.step s (m₀ :: (ms ++ [m])) s') (hacc : Accepts m₀ r)
    (hops : ∀ m' ∈ ms, m'.op = .acquire) (hop : m.op = .acquire) (hl : m.before.live)
    (hclock₀ : ClockAt t₀ m₀) (hclock : ClockAt t m) :
    (ByDuration m ↔ Over d t₀ t) ↔ KeepsLimit d t₀ t := by
  obtain ⟨-, hm₀, hh⟩ := History.cons_iff.1 h
  obtain ⟨s₁, hh₁, hh₂⟩ := History.append_iff.1 hh
  obtain ⟨rfl, hm, -⟩ := History.cons_iff.1 hh₂
  have hspan : m.before.cmd.span = (BitVec.ofNat 64 (timeOfDay t₀), d) := by
    have hrule := History.rule (I := fun s => s.cmd.span = (BitVec.ofNat 64 (timeOfDay t₀), d))
      (G := fun m' => m'.op = .acquire) (P := fun _ => True) ?_ hh₁ ?_ hops
    · exact hrule.2
    · exact fun m' hm' hI hop' => ⟨trivial, (acquire_span hm' hop').trans hI⟩
    · rw [accepts_span hm₀ hacc hclock₀, hdur]
      rfl
  obtain ⟨hstart, hd⟩ := Prod.mk.inj hspan
  rw [byDuration_iff hm hop hl hclock, ← hd]
  exact expired_over_iff ht hstart

/-! ## Over midnight -/

/-- The calm environment with its clock at an instant. -/
def clocked (t : ℕ) : Handler UnitCall UnitAns Unit
  | .inr .now, u => some (BitVec.ofNat 64 (timeOfDay t), u)
  | c, u => calm c u

/-- A move under that environment. -/
theorem clocked_move {op : StationOp} {s s' : Station} {e : Exit}
    (he : (Station.step op s).exec (clocked t) () = some ((e, s'), (), tr)) :
    Move.Valid Station.step ⟨op, s, tr, e, s'⟩ ∧ ClockAt t ⟨op, s, tr, e, s'⟩ := by
  refine ⟨Prog.exec_runs he, fun x hx => ?_⟩
  have hserve : ∀ c u y u', clocked t c u = some (y, u') → ∀ x, (⟨c, y⟩ : UnitEvent) =
      frameEvent .now x → x = BitVec.ofNat 64 (timeOfDay t) := by
    rintro c u y u' hc x hx
    cases hx
    cases hc
    rfl
  exact Prog.Served.forall (P := fun e => ∀ x, e = frameEvent .now x →
    x = BitVec.ofNat 64 (timeOfDay t)) (Prog.exec_served hserve he) _ hx x rfl

/-- A request for ten seconds of `DD`. -/
def tenSeconds : Request := { mode := some 1, samples := some 1, duration := some 10 }

/-- A turn after that request. -/
theorem tenSeconds_history {s₁ s₂ : Station} {tr₀ : List UnitEvent}
    (h₀ : (Station.step (.set tenSeconds) calmStation).exec (clocked t₀) () =
      some ((.return, s₁), (), tr₀))
    (h : (Station.step .acquire s₁).exec (clocked t) () = some ((e, s₂), (), tr)) :
    History Station.step calmStation [⟨.set tenSeconds, calmStation, tr₀, .return, s₁⟩,
      ⟨.acquire, s₁, tr, e, s₂⟩] s₂ ∧
    ClockAt t₀ ⟨.set tenSeconds, calmStation, tr₀, .return, s₁⟩ ∧
    ClockAt t ⟨.acquire, s₁, tr, e, s₂⟩ := by
  obtain ⟨hm₀, hclock₀⟩ := clocked_move h₀
  obtain ⟨hm, hclock⟩ := clocked_move h
  exact ⟨.cons hm₀ (.cons hm (.nil _)), hclock₀, hclock⟩

/-- Two seconds over midnight end an acquisition for ten. -/
theorem midnight_ends_early : ¬∀ (r : Request) (d : Word) (t₀ t : ℕ) (s s' : Station)
    (m₀ m : StationMove) (ms : List StationMove), r.duration = some d → t₀ ≤ t →
      History Station.step s (m₀ :: (ms ++ [m])) s' → Accepts m₀ r →
      (∀ m' ∈ ms, m'.op = .acquire) → m.op = .acquire → m.before.live → ClockAt t₀ m₀ →
      ClockAt t m → (ByDuration m ↔ Over d t₀ t) := by
  intro h
  obtain ⟨s₁, s₂, tr₀, tr, h₀, h₁, hl, hend, hev⟩ : ∃ s₁ s₂ tr₀ tr,
      (Station.step (.set tenSeconds) calmStation).exec (clocked 86399000000) () =
        some ((.return, s₁), (), tr₀) ∧
      (Station.step .acquire s₁).exec (clocked 86401000000) () =
        some ((.return, s₂), (), tr) ∧
      s₁.live ∧ s₂.cmd.running = .ended ∧ tr = [frameEvent .now 1000] :=
    ⟨_, _, _, _, rfl, rfl, ⟨rfl, rfl⟩, rfl, rfl⟩
  obtain ⟨hh, hclock₀, hclock⟩ := tenSeconds_history h₀ h₁
  have hover := (h tenSeconds 10 _ _ _ _ _ _ [] rfl (by decide) hh ⟨rfl, by decide, rfl⟩
    (by simp) rfl hl hclock₀ hclock).1 ⟨hend, by simp [hev]⟩
  unfold Over at hover
  exact absurd hover (by decide)

/-- Eleven seconds of one day. -/
theorem duration_limit_day : ∃ m₀ m, History Station.step calmStation [m₀, m] m.after ∧
    Accepts m₀ tenSeconds ∧ ClockAt 0 m₀ ∧ ClockAt 11000000 m ∧
      (ByDuration m ↔ Over 10 0 11000000) := by
  obtain ⟨s₁, s₂, tr₀, tr, h₀, h₁, hl⟩ : ∃ s₁ s₂ tr₀ tr,
      (Station.step (.set tenSeconds) calmStation).exec (clocked 0) () =
        some ((.return, s₁), (), tr₀) ∧
      (Station.step .acquire s₁).exec (clocked 11000000) () = some ((.return, s₂), (), tr) ∧
      s₁.live := ⟨_, _, _, _, rfl, rfl, ⟨rfl, rfl⟩⟩
  obtain ⟨hh, hclock₀, hclock⟩ := tenSeconds_history h₀ h₁
  have hkeeps : KeepsLimit 10 0 11000000 :=
    keepsLimit_of_sameDay (by decide) (by decide) (by decide) (by decide)
  exact ⟨_, _, hh, ⟨rfl, by decide, rfl⟩, hclock₀, hclock,
    (duration_limit tenSeconds 10 0 11000000 _ _ _ _ [] rfl (by decide) hh
      ⟨rfl, by decide, rfl⟩ (by simp) rfl hl hclock₀ hclock).2 hkeeps⟩

end LiberaDaq
