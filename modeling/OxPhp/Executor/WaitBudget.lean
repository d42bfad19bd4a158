import OxPhp.Executor.WaitingBytes

/-!
# The wait budget

`WaitBudget` of `executor/admission.rs`: how long a request may wait, halved while the
pool works for clients that have gone and raised by eighths of the ceiling when the queue
is empty.  A tick that has seen too little decides nothing, and its counts are carried
into the next one.
-/

namespace OxPhp.Executor

open WaitingBytes (saturatingAdd usizeMax)

abbrev Duration := Nat

def Duration.fromMillis (ms : Nat) : Duration := ms * 1000000

def Duration.asMicros (d : Duration) : Nat := d / 1000

def micros (d : Duration) : UInt64 :=
  if d.asMicros < 2 ^ 64 then UInt64.ofNat d.asMicros else usizeMax

structure LoadSample where
  started : UInt64
  abandoned : UInt64
  queueDepth : Nat
  deriving DecidableEq

structure WaitBudget where
  configured : Duration
  floor : Duration
  effectiveUs : UInt64
  windowStarted : UInt64
  windowAbandoned : UInt64
  deriving DecidableEq

def minStartsPerDecision : UInt64 := 8

namespace WaitBudget

def new (configured : Duration) : WaitBudget where
  configured := configured
  floor := min (max (configured / 64) (.fromMillis 10)) configured
  effectiveUs := micros configured
  windowStarted := 0
  windowAbandoned := 0

variable (b : WaitBudget) (sample : LoadSample)

def configuredUs : UInt64 := micros b.configured

def floorUs : UInt64 := micros b.floor

/-- Fold one tick into the budget. -/
def observe : WaitBudget :=
  let started := b.windowStarted + sample.started
  let abandoned := b.windowAbandoned + sample.abandoned
  if sample.queueDepth > 0 ∧ started < minStartsPerDecision then
    { b with windowStarted := started, windowAbandoned := abandoned }
  else
    let b := { b with windowStarted := 0, windowAbandoned := 0 }
    let ceiling := b.configuredUs
    if sample.queueDepth > 0 ∧ abandoned * 4 ≥ started then
      { b with effectiveUs := max (b.effectiveUs / 2) b.floorUs }
    else if sample.queueDepth = 0 ∧ (abandoned = 0 ∨ abandoned * 4 < started) then
      { b with effectiveUs := min (saturatingAdd b.effectiveUs (ceiling / 8)) ceiling }
    else b

/-- One tick after the other: the controller task is the only caller. -/
def run (ticks : List LoadSample) : WaitBudget := ticks.foldl observe b

/-! ## What a tick decides -/

inductive Decision where
  | carried
  | halved
  | raised
  | kept
  deriving DecidableEq

def decision : Decision :=
  if sample.queueDepth > 0 ∧ b.windowStarted + sample.started < minStartsPerDecision then .carried
  else if sample.queueDepth > 0 ∧
    (b.windowAbandoned + sample.abandoned) * 4 ≥ b.windowStarted + sample.started then .halved
  else if sample.queueDepth = 0 ∧ (b.windowAbandoned + sample.abandoned = 0 ∨
    (b.windowAbandoned + sample.abandoned) * 4 < b.windowStarted + sample.started) then .raised
  else .kept

def decisions (b : WaitBudget) : List LoadSample → List Decision
  | [] => []
  | tick :: ticks => b.decision tick :: decisions (b.observe tick) ticks

def settle (us : UInt64) : WaitBudget :=
  { b with effectiveUs := us, windowStarted := 0, windowAbandoned := 0 }

theorem observe_cases : (b.decision sample = .carried ∧ b.observe sample =
      { b with
        windowStarted := b.windowStarted + sample.started
        windowAbandoned := b.windowAbandoned + sample.abandoned }) ∨
    (b.decision sample = .halved ∧
      b.observe sample = b.settle (max (b.effectiveUs / 2) b.floorUs)) ∨
    (b.decision sample = .raised ∧ b.observe sample =
      b.settle (min (saturatingAdd b.effectiveUs (b.configuredUs / 8)) b.configuredUs)) ∨
    (b.decision sample = .kept ∧ b.observe sample = b.settle b.effectiveUs) := by
  by_cases hc : sample.queueDepth > 0 ∧
      b.windowStarted + sample.started < minStartsPerDecision
  · exact .inl ⟨if_pos hc, if_pos hc⟩
  right
  by_cases hh : sample.queueDepth > 0 ∧
      (b.windowAbandoned + sample.abandoned) * 4 ≥ b.windowStarted + sample.started
  · exact .inl ⟨(if_neg hc).trans (if_pos hh), (if_neg hc).trans (if_pos hh)⟩
  right
  by_cases hr : sample.queueDepth = 0 ∧ (b.windowAbandoned + sample.abandoned = 0 ∨
      (b.windowAbandoned + sample.abandoned) * 4 < b.windowStarted + sample.started)
  · exact .inl ⟨(if_neg hc).trans ((if_neg hh).trans (if_pos hr)),
      (if_neg hc).trans ((if_neg hh).trans (if_pos hr))⟩
  · exact .inr ⟨(if_neg hc).trans ((if_neg hh).trans (if_neg hr)),
      (if_neg hc).trans ((if_neg hh).trans (if_neg hr))⟩

/-! ## Machine words -/

theorem toNat_micros (d : Duration) : (micros d).toNat = min d.asMicros (2 ^ 64 - 1) := by
  unfold micros
  split
  · next h =>
    rw [UInt64.toNat_ofNat_of_lt' h]
    omega
  · next h =>
    have hmax : usizeMax.toNat = 2 ^ 64 - 1 := rfl
    omega

theorem toNat_max (x y : UInt64) : (max x y).toNat = max x.toNat y.toNat := by
  change (if x ≤ y then y else x).toNat = _
  split
  · next h => exact (Nat.max_eq_right (UInt64.le_iff_toNat_le.mp h)).symm
  · next h =>
    have hlt := UInt64.lt_iff_toNat_lt.mp (UInt64.not_le.mp h)
    exact (Nat.max_eq_left (Nat.le_of_lt hlt)).symm

theorem toNat_min (x y : UInt64) : (min x y).toNat = min x.toNat y.toNat := by
  change (if x ≤ y then x else y).toNat = _
  split
  · next h => exact (Nat.min_eq_left (UInt64.le_iff_toNat_le.mp h)).symm
  · next h =>
    have hlt := UInt64.lt_iff_toNat_lt.mp (UInt64.not_le.mp h)
    exact (Nat.min_eq_right (Nat.le_of_lt hlt)).symm

theorem toNat_saturatingAdd (x y : UInt64) :
    (saturatingAdd x y).toNat = min (x.toNat + y.toNat) (2 ^ 64 - 1) := by
  unfold saturatingAdd
  split
  · next h =>
    have hmax : usizeMax.toNat = 2 ^ 64 - 1 := rfl
    omega
  · next h =>
    rw [UInt64.toNat_add, Nat.mod_eq_of_lt (Nat.not_le.mp h)]
    omega

theorem toNat_halved (us floor : UInt64) :
    (max (us / 2) floor).toNat = max (us.toNat / 2) floor.toNat := by
  rw [toNat_max, UInt64.toNat_div]
  rfl

theorem toNat_raised (us ceiling : UInt64) : (min (saturatingAdd us (ceiling / 8)) ceiling).toNat =
      min (us.toNat + ceiling.toNat / 8) ceiling.toNat := by
  have hc := ceiling.toNat_lt
  have he : (ceiling / 8).toNat = ceiling.toNat / 8 := UInt64.toNat_div ceiling 8
  rw [toNat_min, toNat_saturatingAdd, he]
  omega

/-! ## Floor and ceiling -/

/-- A budget of this many milliseconds, as it can be after any number of ticks. -/
structure Within (ms : Nat) (b : WaitBudget) : Prop where
  configured : b.configured = .fromMillis ms
  floor : b.floor = min (max (b.configured / 64) (.fromMillis 10)) b.configured
  floor_le : b.floorUs.toNat ≤ b.effectiveUs.toNat
  le_ceiling : b.effectiveUs.toNat ≤ b.configuredUs.toNat

variable {b sample} {ms : Nat} {us : UInt64} {ticks : List LoadSample}

section Within

variable (h : Within ms b)

include h

theorem Within.toNat_configuredUs : b.configuredUs.toNat = min (ms * 1000) (2 ^ 64 - 1) := by
  rw [configuredUs, toNat_micros, h.configured, Duration.asMicros, Duration.fromMillis]
  omega

theorem Within.toNat_floorUs : b.floorUs.toNat =
    min (min (max (ms * 1000000 / 64) 10000000) (ms * 1000000) / 1000) (2 ^ 64 - 1) := by
  rw [floorUs, toNat_micros, h.floor, h.configured]
  rfl

theorem Within.floorUs_pos (hms : 1 ≤ ms) : 1000 ≤ b.floorUs.toNat := by
  rw [h.toNat_floorUs]
  omega

theorem Within.ceiling_div_le : b.configuredUs.toNat / 64 ≤ b.floorUs.toNat := by
  rw [h.toNat_configuredUs, h.toNat_floorUs]
  omega

theorem Within.settle (hlow : b.floorUs.toNat ≤ us.toNat)
    (hh : us.toNat ≤ b.configuredUs.toNat) : Within ms (b.settle us) :=
  ⟨h.configured, h.floor, hlow, hh⟩

theorem Within.observe : Within ms (b.observe sample) := by
  have hlow := h.floor_le
  have hh := h.le_ceiling
  rcases b.observe_cases sample with ⟨-, heq⟩ | ⟨-, heq⟩ | ⟨-, heq⟩ | ⟨-, heq⟩
  · rw [heq]
    exact ⟨h.configured, h.floor, hlow, hh⟩
  · rw [heq]
    refine h.settle ?_ ?_
    all_goals
      rw [toNat_halved]
      omega
  · rw [heq]
    refine h.settle ?_ ?_
    all_goals
      rw [toNat_raised]
      omega
  · rw [heq]
    exact h.settle hlow hh

theorem Within.run : Within ms (b.run ticks) := by
  induction ticks generalizing b with
  | nil => exact h
  | cons tick ticks ih => exact ih h.observe

theorem Within.floorUs_run : (b.run ticks).floorUs = b.floorUs := by
  rw [← UInt64.toNat_inj, h.run.toNat_floorUs, h.toNat_floorUs]

end Within

theorem within_new : Within ms (new (.fromMillis ms)) := by
  refine ⟨rfl, rfl, ?_, Nat.le_refl _⟩
  have hf : (new (.fromMillis ms)).floor ≤ .fromMillis ms := Nat.min_le_right _ _
  have hdiv := Nat.div_le_div_right (c := 1000) hf
  change (micros (new (.fromMillis ms)).floor).toNat ≤ (micros (.fromMillis ms)).toNat
  rw [toNat_micros, toNat_micros, Duration.asMicros, Duration.asMicros]
  omega

/-! ## Down -/

theorem halved_div_le (us floor n : Nat) :
    max (us / 2) floor / 2 ^ n ≤ max (us / 2 ^ (n + 1)) floor := by
  rcases Nat.le_total (us / 2) floor with hle | hle
  · rw [Nat.max_eq_right hle]
    exact Nat.le_trans (Nat.div_le_self _ _) (Nat.le_max_right _ _)
  · rw [Nat.max_eq_left hle, Nat.div_div_eq_div_mul, ← Nat.pow_succ']
    exact Nat.le_max_left _ _

theorem run_le_of_halvings (hr : .raised ∉ b.decisions ticks) : (b.run ticks).effectiveUs.toNat ≤
      max (b.effectiveUs.toNat / 2 ^ (b.decisions ticks).count .halved) b.floorUs.toNat := by
  induction ticks generalizing b with
  | nil => simp [run, decisions]
  | cons tick ticks ih =>
    rw [decisions, List.mem_cons, not_or] at hr
    have hre := ih hr.2
    change ((b.observe tick).run ticks).effectiveUs.toNat ≤ _
    rw [decisions]
    rcases b.observe_cases tick with ⟨hd, heq⟩ | ⟨hd, heq⟩ | ⟨hd, heq⟩ | ⟨hd, heq⟩
    · rw [hd, List.count_cons_of_ne (by decide)]
      rw [heq] at hre ⊢
      exact hre
    · rw [hd, List.count_cons_self]
      rw [heq] at hre ⊢
      have hs := halved_div_le b.effectiveUs.toNat b.floorUs.toNat
        ((b.settle (max (b.effectiveUs / 2) b.floorUs)).decisions ticks |>.count .halved)
      rw [← toNat_halved] at hs
      exact Nat.le_trans hre (Nat.max_le.mpr ⟨hs, Nat.le_max_right _ _⟩)
    · exact absurd hd.symm hr.1
    · rw [hd, List.count_cons_of_ne (by decide)]
      rw [heq] at hre ⊢
      exact hre

theorem Within.run_eq_floor (h : Within ms b) (hr : .raised ∉ b.decisions ticks)
    (hh : 6 ≤ (b.decisions ticks).count .halved) : (b.run ticks).effectiveUs = b.floorUs := by
  have hb := run_le_of_halvings hr
  have hlow : (b.run ticks).floorUs.toNat ≤ (b.run ticks).effectiveUs.toNat := h.run.floor_le
  rw [h.floorUs_run] at hlow
  -- six halvings lead from the ceiling to the floor, and so they do from anywhere below it
  have hdiv : b.effectiveUs.toNat / 2 ^ (b.decisions ticks).count .halved ≤ b.floorUs.toNat :=
    calc b.effectiveUs.toNat / 2 ^ (b.decisions ticks).count .halved
        ≤ b.effectiveUs.toNat / 2 ^ 6 :=
          Nat.div_le_div_left (Nat.pow_le_pow_right (by decide) hh) (by decide)
      _ ≤ b.configuredUs.toNat / 64 := Nat.div_le_div_right h.le_ceiling
      _ ≤ b.floorUs.toNat := h.ceiling_div_le
  rw [← UInt64.toNat_inj]
  omega

/-! ## Up -/

/-- An empty queue, and none or under a quarter of what the tick reads abandoned: its own
counts and the ones carried in the window. -/
def Drains (b : WaitBudget) (tick : LoadSample) : Prop :=
  tick.queueDepth = 0 ∧ b.windowStarted.toNat + tick.started.toNat < 2 ^ 64 ∧
    (b.windowAbandoned.toNat + tick.abandoned.toNat = 0 ∨
      (b.windowAbandoned.toNat + tick.abandoned.toNat) * 4 <
        b.windowStarted.toNat + tick.started.toNat)

/-- An empty queue, and none or under a quarter of the tick's own counts abandoned. -/
def Quiet (tick : LoadSample) : Prop :=
  tick.queueDepth = 0 ∧
    (tick.abandoned.toNat = 0 ∨ tick.abandoned.toNat * 4 < tick.started.toNat)

instance : DecidablePred Quiet := fun tick =>
  inferInstanceAs (Decidable (tick.queueDepth = 0 ∧
    (tick.abandoned.toNat = 0 ∨ tick.abandoned.toNat * 4 < tick.started.toNat)))

variable {tick : LoadSample}

theorem Drains.decision (h : b.Drains tick) : b.decision tick = .raised := by
  obtain ⟨he, hf, hq⟩ := h
  have hqu : ¬tick.queueDepth > 0 := by omega
  have hs : (b.windowStarted + tick.started).toNat =
      b.windowStarted.toNat + tick.started.toNat := by
    rw [UInt64.toNat_add, Nat.mod_eq_of_lt hf]
  have ha : (b.windowAbandoned + tick.abandoned).toNat =
      b.windowAbandoned.toNat + tick.abandoned.toNat := by
    rw [UInt64.toNat_add]
    omega
  have hr : b.windowAbandoned + tick.abandoned = 0 ∨
      (b.windowAbandoned + tick.abandoned) * 4 < b.windowStarted + tick.started := by
    rcases hq with hn | hfew
    · left
      rw [← UInt64.toNat_inj, ha, hn]
      rfl
    · right
      rw [UInt64.lt_iff_toNat_lt, UInt64.toNat_mul, ha, hs]
      change _ * 4 % 2 ^ 64 < _
      omega
  unfold WaitBudget.decision
  rw [if_neg fun hc => hqu hc.1, if_neg fun hh => hqu hh.1,
    if_pos ⟨he, hr⟩]

theorem Drains.observe (h : b.Drains tick) : b.observe tick =
    b.settle (min (saturatingAdd b.effectiveUs (b.configuredUs / 8)) b.configuredUs) := by
  have hd := h.decision
  rcases b.observe_cases tick with ⟨hd', -⟩ | ⟨hd', -⟩ | ⟨-, heq⟩ | ⟨hd', -⟩
  · cases hd.symm.trans hd'
  · cases hd.symm.trans hd'
  · exact heq
  · cases hd.symm.trans hd'

theorem exists_settle (h : tick.queueDepth = 0) : ∃ us, b.observe tick = b.settle us := by
  rcases b.observe_cases tick with ⟨hd, -⟩ | ⟨-, heq⟩ | ⟨-, heq⟩ | ⟨-, heq⟩
  · unfold decision at hd
    rw [if_neg (by omega), if_neg (by omega)] at hd
    split at hd <;> cases hd
  · exact ⟨_, heq⟩
  · exact ⟨_, heq⟩
  · exact ⟨_, heq⟩

theorem drains_settle (h : Quiet tick) : (b.settle us).Drains tick := by
  have hf := tick.started.toNat_lt
  have hz : (0 : UInt64).toNat = 0 := rfl
  refine ⟨h.1, ?_, ?_⟩
  · change (0 : UInt64).toNat + tick.started.toNat < 2 ^ 64
    omega
  · change (0 : UInt64).toNat + tick.abandoned.toNat = 0 ∨
      ((0 : UInt64).toNat + tick.abandoned.toNat) * 4 < (0 : UInt64).toNat + tick.started.toNat
    have hq := h.2
    omega

theorem run_settle (hq : ∀ tick ∈ ticks, Quiet tick) (hle : us.toNat ≤ b.configuredUs.toNat) :
    ((b.settle us).run ticks).effectiveUs.toNat =
      min (us.toNat + ticks.length * (b.configuredUs.toNat / 8)) b.configuredUs.toNat := by
  induction ticks generalizing us with
  | nil =>
    change us.toNat = min (us.toNat + 0 * _) _
    omega
  | cons tick ticks ih =>
    obtain ⟨hfirst, hr⟩ := List.forall_mem_cons.mp hq
    have ho : (b.settle us).observe tick =
        b.settle (min (saturatingAdd us (b.configuredUs / 8)) b.configuredUs) :=
      (drains_settle hfirst).observe
    change (((b.settle us).observe tick).run ticks).effectiveUs.toNat = _
    have hra := toNat_raised us b.configuredUs
    rw [ho, ih hr (by omega), hra, List.length_cons, Nat.succ_mul]
    omega

theorem Within.eight_eighths (h : Within ms b) (hms : 1 ≤ ms) :
    b.configuredUs.toNat ≤ b.floorUs.toNat + 8 * (b.configuredUs.toNat / 8) := by
  have hf := h.floorUs_pos hms
  omega

theorem Within.run_eq_ceiling (h : Within ms b) (hms : 1 ≤ ms) {first : LoadSample}
    (hfirst : b.Drains first) (hlength : ticks.length = 7) (hq : ∀ tick ∈ ticks, Quiet tick) :
    (b.run (first :: ticks)).effectiveUs = b.configuredUs := by
  have hlow := h.floor_le
  have he := h.eight_eighths hms
  have hr := toNat_raised b.effectiveUs b.configuredUs
  change ((b.observe first).run ticks).effectiveUs = _
  rw [hfirst.observe, ← UInt64.toNat_inj, run_settle hq (by omega), hr, hlength]
  omega

theorem Within.run_eq_ceiling_of_quiet (h : Within ms b) (hms : 1 ≤ ms)
    (hlength : ticks.length = 9) (hq : ∀ tick ∈ ticks, Quiet tick) :
    (b.run ticks).effectiveUs = b.configuredUs := by
  cases ticks with
  | nil => cases hlength
  | cons first ticks =>
    obtain ⟨hfirst, hr⟩ := List.forall_mem_cons.mp hq
    obtain ⟨us, hus⟩ := b.exists_settle hfirst.1
    have hw : Within ms (b.settle us) := hus ▸ h.observe
    have he := h.eight_eighths hms
    have hlow : b.floorUs.toNat ≤ us.toNat := hw.floor_le
    have hh : us.toNat ≤ b.configuredUs.toNat := hw.le_ceiling
    have hl' : ticks.length = 8 := Nat.succ.inj hlength
    change ((b.observe first).run ticks).effectiveUs = _
    rw [hus, ← UInt64.toNat_inj, run_settle hr hh, hl']
    omega

/-! ## Any number of ticks -/

/-- **Between floor and ceiling, and back.** After any ticks the budget is between a
positive floor and the ceiling; six halvings with no raise between them bring it to the
floor; eight ticks that find the queue empty, and none or under a quarter of what they
read abandoned, bring it to the ceiling.  What the first of them reads includes the
window it finds, so if only the ticks' own counts are known it takes nine. -/
theorem bounded_and_recovers (ms : UInt64) (hms : 1 ≤ ms) (samples : List LoadSample)
    (b : WaitBudget) (hb : b = (new (.fromMillis ms.toNat)).run samples) :
    (b.configuredUs = micros (.fromMillis ms.toNat) ∧ 0 < b.floorUs ∧
      b.floorUs ≤ b.effectiveUs ∧ b.effectiveUs ≤ b.configuredUs) ∧
    (∀ ticks, .raised ∉ b.decisions ticks → 6 ≤ (b.decisions ticks).count .halved →
      (b.run ticks).effectiveUs = b.floorUs) ∧
    (∀ first ticks, b.Drains first → ticks.length = 7 → (∀ tick ∈ ticks, Quiet tick) →
      (b.run (first :: ticks)).effectiveUs = b.configuredUs) ∧
    ∀ ticks, ticks.length = 9 → (∀ tick ∈ ticks, Quiet tick) →
      (b.run ticks).effectiveUs = b.configuredUs := by
  have hms' : 1 ≤ ms.toNat := UInt64.le_iff_toNat_le.mp hms
  have h : Within ms.toNat b := hb ▸ within_new.run
  refine ⟨⟨?_, ?_, ?_, ?_⟩, fun ticks => h.run_eq_floor, fun first ticks => h.run_eq_ceiling hms',
    fun ticks => h.run_eq_ceiling_of_quiet hms'⟩
  · rw [configuredUs, h.configured]
  · have hpos := h.floorUs_pos hms'
    rw [UInt64.lt_iff_toNat_lt]
    exact Nat.lt_of_lt_of_le (by decide) hpos
  · exact UInt64.le_iff_toNat_le.mpr h.floor_le
  · exact UInt64.le_iff_toNat_le.mpr h.le_ceiling

/-- A pool that works for nobody, until the budget is at its floor, and one more request
of a client that has gone, with requests still queued. -/
def episode : List LoadSample := List.replicate 6 ⟨8, 8, 2⟩ ++ [⟨1, 1, 4⟩]

/-- Nine ticks with an empty queue bring the budget back after the episode. -/
theorem bounded_and_recovers_episode :
    (((new (.fromMillis 1000)).run episode).run (List.replicate 9 ⟨1, 0, 0⟩)).effectiveUs =
      micros (.fromMillis 1000) := by
  have hr := bounded_and_recovers 1000 (by decide) episode _ rfl
  exact (hr.2.2.2 _ rfl (by decide)).trans hr.1.1

/-- Eight ticks with an empty queue, nothing abandoned in any of them: the first one still
reads the abandoned request of the window and decides nothing. -/
theorem eight_quiet_ticks_fall_short :
    (∀ tick ∈ List.replicate 8 (⟨1, 0, 0⟩ : LoadSample), Quiet tick) ∧
      (((new (.fromMillis 1000)).run episode).run (List.replicate 8 ⟨1, 0, 0⟩)).effectiveUs =
        890625 ∧ ((new (.fromMillis 1000)).run episode).configuredUs = 1000000 := by
  decide +kernel

end WaitBudget

end OxPhp.Executor
