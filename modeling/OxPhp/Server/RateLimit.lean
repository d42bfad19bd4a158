import Mathlib.Data.List.AList
import Mathlib.Data.List.Flatten
import OxPhp.Lib.ByteStr

/-!
# The rate limiter

`server/rate_limit.rs`: a counter per client address and window, in 32 bits that
wrap.  Expired counters are only removed by a cleanup.  Times are nanoseconds of a
monotonic clock.
-/

namespace OxPhp.Server

open ByteStr

inductive IpAddr where
  | v4 (bits : BitVec 32)
  | v6 (bits : BitVec 128)
  deriving DecidableEq

def maxTrackedIps : Nat := 100000

structure Slot where
  count : UInt32
  windowStart : Nat

structure RateLimiter where
  limits : AList fun _ : IpAddr => Slot
  trackedCount : Nat
  maxRequests : UInt32
  windowSecs : UInt64

structure Refusal where
  status : Nat
  retryAfter : Nat
  limit : UInt32
  remaining : UInt32
  reset : Nat
  requestId : Option Bytes
  body : Bytes

/-- Whole seconds between two instants; none when the second is earlier. -/
def elapsedSecs (now start : Nat) : Nat := (now - start) / 10 ^ 9

theorem lt_of_elapsedSecs_pos {now start : Nat} (h : 0 < elapsedSecs now start) : start < now := by
  unfold elapsedSecs at h
  have hle := Nat.div_le_self (now - start) (10 ^ 9)
  omega

namespace RateLimiter

def new (maxRequests : UInt32) (windowSecs : UInt64) : RateLimiter where
  limits := ∅
  trackedCount := 0
  maxRequests := maxRequests
  windowSecs := windowSecs

variable (l : RateLimiter)

def tracked : Nat := l.limits.keys.length

/-- Kept by a cleanup: the doubled window has not passed. The product wraps. -/
def fresh (now : Nat) (slot : Slot) : Bool :=
  elapsedSecs now slot.windowStart < (l.windowSecs * 2).toNat

def retained (now : Nat) : AList fun _ : IpAddr => Slot where
  entries := l.limits.entries.filter fun e => l.fresh now e.2
  nodupKeys := l.limits.nodupKeys.sublist List.filter_sublist

def cleanup (now : Nat) : RateLimiter :=
  { l with
    limits := l.retained now
    trackedCount := (l.retained now).keys.length }

/-- The limiter a request finds: cleaned up when too many addresses are
tracked. -/
def purged (now : Nat) : RateLimiter :=
  if l.trackedCount > maxTrackedIps then l.cleanup now else l

def counted (ip : IpAddr) (now : Nat) : Slot :=
  let found := (l.limits.lookup ip).getD ⟨0, now⟩
  let slot := if elapsedSecs now found.windowStart ≥ l.windowSecs.toNat then ⟨0, now⟩ else found
  { slot with count := slot.count + 1 }

def visibleAscii (b : UInt8) : Bool := (32 ≤ b && b < 127) || b == 9

def refusal (slot : Slot) (now : Nat) (requestId : Bytes) : Refusal :=
  let resetSecs := l.windowSecs.toNat - elapsedSecs now slot.windowStart
  { status := 429
    retryAfter := resetSecs
    limit := l.maxRequests
    remaining := 0
    reset := resetSecs
    requestId := if requestId.all visibleAscii then some requestId else none
    body := str "429 Too Many Requests" }

/-- Count a request, and refuse it over the limit. The clock is read once for
the cleanup and once for the count. -/
def checkRateLimited (ip : IpAddr) (requestId : Bytes) (purgeAt now : Nat) :
    Option Refusal × RateLimiter :=
  let l := l.purged purgeAt
  let slot := l.counted ip now
  let trackedCount :=
    if (l.limits.lookup ip).isSome then l.trackedCount else l.trackedCount + 1
  (if slot.count > l.maxRequests then some (l.refusal slot now requestId) else none,
    { l with limits := l.limits.insert ip slot, trackedCount })

/-! ## Sequences of requests -/

inductive Event where
  | request (ip : IpAddr) (requestId : Bytes) (purgeAt now : Nat)
  | cleanup (now : Nat)

def Event.times : Event → List Nat
  | request _ _ purgeAt now => [purgeAt, now]
  | cleanup now => [now]

/-- What became of a request: the window it was counted in, and the answer. -/
structure Outcome where
  ip : IpAddr
  windowStart : Nat
  refused : Bool

def step : Event → List Outcome × RateLimiter
  | .request ip requestId purgeAt now =>
    let checked := l.checkRateLimited ip requestId purgeAt now
    ([⟨ip, ((l.purged purgeAt).counted ip now).windowStart, checked.1.isSome⟩], checked.2)
  | .cleanup now => ([], l.cleanup now)

def outcomes (l : RateLimiter) : List Event → List Outcome
  | [] => []
  | e :: events => (l.step e).1 ++ outcomes (l.step e).2 events

def after (l : RateLimiter) (events : List Event) : RateLimiter :=
  events.foldl (fun l e => (l.step e).2) l

/-! ## What a step leaves -/

section Step

variable {l} {ip : IpAddr} {requestId : Bytes} {purgeAt now : Nat}

@[simp] theorem purged_maxRequests : (l.purged now).maxRequests = l.maxRequests := by
  unfold purged
  split <;> rfl

@[simp] theorem purged_windowSecs : (l.purged now).windowSecs = l.windowSecs := by
  unfold purged
  split <;> rfl

theorem lookup_retained {slot : Slot} : (l.retained now).lookup ip = some slot ↔
      l.limits.lookup ip = some slot ∧ l.fresh now slot = true := by
  have hmem : ∀ {a : AList fun _ : IpAddr => Slot},
      a.lookup ip = some slot ↔ (⟨ip, slot⟩ : Sigma fun _ : IpAddr => Slot) ∈ a.entries :=
    AList.mem_lookup_iff
  rw [hmem, hmem]
  exact List.mem_filter

theorem refused_iff : (l.checkRateLimited ip requestId purgeAt now).1.isSome =
      decide (l.maxRequests < ((l.purged purgeAt).counted ip now).count) := by
  unfold checkRateLimited
  dsimp only
  rw [purged_maxRequests]
  split
  · next h => exact (decide_eq_true h).symm
  · next h => exact (decide_eq_false h).symm

theorem lookup_checked : (l.checkRateLimited ip requestId purgeAt now).2.limits.lookup ip =
      some ((l.purged purgeAt).counted ip now) :=
  AList.lookup_insert _

theorem lookup_checked_ne {other : IpAddr} (h : other ≠ ip) :
    (l.checkRateLimited ip requestId purgeAt now).2.limits.lookup other =
      (l.purged purgeAt).limits.lookup other :=
  AList.lookup_insert_ne h

@[simp] theorem checked_maxRequests :
    (l.checkRateLimited ip requestId purgeAt now).2.maxRequests = l.maxRequests :=
  purged_maxRequests

theorem step_maxRequests (e : Event) : (l.step e).2.maxRequests = l.maxRequests := by
  cases e with
  | request ip requestId purgeAt now => exact purged_maxRequests
  | cleanup now => rfl

theorem step_windowSecs (e : Event) : (l.step e).2.windowSecs = l.windowSecs := by
  cases e with
  | request ip requestId purgeAt now => exact purged_windowSecs
  | cleanup now => rfl

end Step

/-! ## A refusal lasts as long as its window -/

/-- A request whose count would go past 32 bits: its address's counter is full
and its window has not expired. -/
def wraps : Event → Bool
  | .request ip _ _ now =>
    (l.limits.lookup ip).any fun slot =>
      slot.count == 4294967295 && decide (elapsedSecs now slot.windowStart < l.windowSecs.toNat)
  | .cleanup _ => false

def neverWraps (l : RateLimiter) : List Event → Bool
  | [] => true
  | e :: events => !l.wraps e && neverWraps (l.step e).2 events

/-- No later request of this address in the window that began at `w` is let
through: its counter is over the limit, or the window is past. -/
def Spent (clock : Nat) (ip : IpAddr) (w : Nat) : Prop :=
  match l.limits.lookup ip with
  | some slot => (slot.windowStart = w ∧ l.maxRequests < slot.count) ∨ w < slot.windowStart
  | none => w < clock

section Spent

variable {l} {ip : IpAddr} {w clock now purgeAt : Nat} {requestId : Bytes} {events : List Event}

theorem Spent.cleanup (h : l.Spent clock ip w) (hw : 0 < (l.windowSecs * 2).toNat)
    (hnow : clock ≤ now) : (l.cleanup now).Spent now ip w := by
  unfold Spent at h ⊢
  cases hk : (l.cleanup now).limits.lookup ip with
  | some slot =>
    obtain ⟨hs, -⟩ := lookup_retained.mp hk
    rw [hs] at h
    exact h
  | none =>
    cases hs : l.limits.lookup ip with
    | none =>
      rw [hs] at h
      exact lt_of_lt_of_le h hnow
    | some slot =>
      -- removed, so the doubled window has passed since it began
      rw [hs] at h
      have hst : l.fresh now slot = false := by
        cases hf : l.fresh now slot with
        | false => rfl
        | true => cases hk.symm.trans (lookup_retained.mpr ⟨hs, hf⟩)
      have hage : (l.windowSecs * 2).toNat ≤ elapsedSecs now slot.windowStart :=
        Nat.not_lt.mp (of_decide_eq_false hst)
      have hsta := lt_of_elapsedSecs_pos (lt_of_lt_of_le hw hage)
      rcases h with ⟨rfl, -⟩ | h
      · exact hsta
      · exact lt_trans h hsta

theorem Spent.purged (h : l.Spent clock ip w) (hw : 0 < (l.windowSecs * 2).toNat)
    (hnow : clock ≤ now) : (l.purged now).Spent now ip w := by
  unfold RateLimiter.purged
  split
  · exact h.cleanup hw hnow
  · unfold Spent at h ⊢
    split at h
    · exact h
    · exact lt_of_lt_of_le h hnow

theorem lt_count_succ {max count : UInt32} (h : max < count) (hf : count ≠ 4294967295) :
    max < count + 1 := by
  have hne : count.toNat ≠ 4294967295 := fun heq => hf (UInt32.toNat_inj.mp heq)
  have hlt := count.toNat_lt
  rw [UInt32.lt_iff_toNat_lt] at h ⊢
  rw [UInt32.toNat_add, UInt32.toNat_one, Nat.mod_eq_of_lt (by omega)]
  omega

theorem Spent.counted (h : l.Spent clock ip w) (ho : 0 < l.windowSecs.toNat)
    (hnow : clock ≤ now) (hf : ∀ slot, l.limits.lookup ip = some slot →
      elapsedSecs now slot.windowStart < l.windowSecs.toNat → slot.count ≠ 4294967295) :
    ((l.counted ip now).windowStart = w ∧ l.maxRequests < (l.counted ip now).count) ∨
      w < (l.counted ip now).windowStart := by
  unfold Spent at h
  unfold RateLimiter.counted
  cases hs : l.limits.lookup ip with
  | none =>
    rw [hs] at h
    right
    simp only [Option.getD_none, ite_self]
    exact lt_of_lt_of_le h hnow
  | some slot =>
    rw [hs] at h
    simp only [Option.getD_some]
    split
    · next he =>
      -- a new window begins, later than the one that was spent
      right
      have hst := lt_of_elapsedSecs_pos (lt_of_lt_of_le ho he)
      rcases h with ⟨rfl, -⟩ | h
      · exact hst
      · exact lt_trans h hst
    · next hw =>
      rcases h with ⟨hst, hov⟩ | h
      · have hn := hf slot hs (Nat.not_le.mp hw)
        exact .inl ⟨hst, lt_count_succ hov hn⟩
      · exact .inr h

theorem not_full_of_not_wraps {slot : Slot}
    (h : l.wraps (.request ip requestId purgeAt now) = false)
    (hs : (l.purged purgeAt).limits.lookup ip = some slot)
    (hw : elapsedSecs now slot.windowStart < l.windowSecs.toNat) : slot.count ≠ 4294967295 := by
  have hb : l.limits.lookup ip = some slot := by
    unfold RateLimiter.purged at hs
    split at hs
    · exact (lookup_retained.mp hs).1
    · exact hs
  intro hf
  simp only [wraps, hb, Option.any_some, hf, beq_self_eq_true, Bool.true_and,
    decide_eq_false_iff_not] at h
  exact h hw

theorem outcomes_of_spent (hw : 0 < (l.windowSecs * 2).toNat)
    (hopen : 0 < l.windowSecs.toNat) (h : l.Spent clock ip w)
    (hc : ∀ t ∈ events.flatMap Event.times, clock ≤ t)
    (hti : (events.flatMap Event.times).Pairwise (· ≤ ·)) (hwr : l.neverWraps events = true) :
    ∀ o ∈ l.outcomes events, o.ip = ip → o.windowStart = w → o.refused = true := by
  induction events generalizing l clock with
  | nil => exact fun o ho => absurd ho List.not_mem_nil
  | cons e events ih =>
    rw [List.flatMap_cons] at hc hti
    obtain ⟨hh, hr, hl⟩ := List.pairwise_append.mp hti
    obtain ⟨hnow, hwr⟩ := Bool.and_eq_true_iff.mp hwr
    rw [Bool.not_eq_true'] at hnow
    cases e with
    | cleanup now =>
      have hle : clock ≤ now := hc now (List.mem_append_left _ (List.mem_singleton.mpr rfl))
      exact ih hw hopen (h.cleanup hw hle)
        (fun t ht => hl now (List.mem_singleton.mpr rfl) t ht) hr hwr
    | request ip' requestId purgeAt now =>
      have hmem : now ∈ (Event.request ip' requestId purgeAt now).times :=
        List.mem_cons_of_mem _ (List.mem_singleton.mpr rfl)
      have hp : clock ≤ purgeAt := hc purgeAt (List.mem_append_left _ List.mem_cons_self)
      have hle : purgeAt ≤ now := (List.pairwise_cons.mp hh).1 now (List.mem_singleton.mpr rfl)
      have hpu := h.purged hw hp
      have hco : ip' = ip → _ := fun heq => hpu.counted
        (by rw [purged_windowSecs]; exact hopen) hle
        fun slot hs hwi => not_full_of_not_wraps (heq ▸ hnow) hs
          (by rwa [purged_windowSecs] at hwi)
      rw [purged_maxRequests] at hco
      -- the limiter after the request is spent as well
      have hn : (l.step (.request ip' requestId purgeAt now)).2.Spent now ip w := by
        change (l.checkRateLimited ip' requestId purgeAt now).2.Spent now ip w
        unfold Spent
        by_cases hip : ip' = ip
        · subst hip
          rw [lookup_checked, checked_maxRequests]
          exact hco rfl
        · rw [lookup_checked_ne (Ne.symm hip), checked_maxRequests]
          unfold Spent at hpu
          rw [purged_maxRequests] at hpu
          split at hpu
          · exact hpu
          · exact lt_of_lt_of_le hpu hle
      intro o ho hoip how
      rcases List.mem_append.mp ho with ho | ho
      · rw [List.mem_singleton.mp ho] at hoip how ⊢
        change ip' = ip at hoip
        change ((l.purged purgeAt).counted ip' now).windowStart = w at how
        subst hoip
        change (l.checkRateLimited ip' requestId purgeAt now).1.isSome = true
        rw [refused_iff, decide_eq_true_eq]
        rcases hco rfl with ⟨-, hov⟩ | hpa
        · exact hov
        · exact absurd how (Nat.ne_of_gt hpa)
      · rw [← step_windowSecs (.request ip' requestId purgeAt now)] at hw hopen
        exact ih hw hopen hn (fun t ht => hl now hmem t ht) hr hwr o ho hoip how

theorem refused_of_zero (hmax : l.maxRequests = 0)
    (hw : l.neverWraps events = true) : ∀ o ∈ l.outcomes events, o.refused = true := by
  induction events generalizing l with
  | nil => exact fun o ho => absurd ho List.not_mem_nil
  | cons e events ih =>
    obtain ⟨hnow, hw⟩ := Bool.and_eq_true_iff.mp hw
    rw [Bool.not_eq_true'] at hnow
    intro o ho
    rcases List.mem_append.mp ho with ho | ho
    · cases e with
      | cleanup now => exact absurd ho List.not_mem_nil
      | request ip requestId purgeAt now =>
        rw [List.mem_singleton.mp ho]
        change (l.checkRateLimited ip requestId purgeAt now).1.isSome = true
        rw [refused_iff, decide_eq_true_eq, hmax]
        have hz : (0 : UInt32) < 0 + 1 := by decide
        unfold RateLimiter.counted
        cases hs : (l.purged purgeAt).limits.lookup ip with
        | none =>
          simp only [Option.getD_none, ite_self]
          exact hz
        | some slot =>
          simp only [Option.getD_some]
          split
          · exact hz
          · next hwi =>
            rw [purged_windowSecs] at hwi
            have hf := not_full_of_not_wraps hnow hs (Nat.not_le.mp hwi)
            have hne : slot.count.toNat ≠ 4294967295 := fun heq => hf (UInt32.toNat_inj.mp heq)
            have hlt := slot.count.toNat_lt
            rw [UInt32.lt_iff_toNat_lt, UInt32.toNat_add, UInt32.toNat_one, UInt32.toNat_zero,
              Nat.mod_eq_of_lt (by omega)]
            omega
    · exact ih ((step_maxRequests e).trans hmax) hw o ho

theorem spent_of_refused (h : (l.checkRateLimited ip requestId purgeAt now).1.isSome = true) :
    (l.checkRateLimited ip requestId purgeAt now).2.Spent now ip
      ((l.purged purgeAt).counted ip now).windowStart := by
  rw [refused_iff, decide_eq_true_eq] at h
  unfold Spent
  rw [lookup_checked, checked_maxRequests]
  exact .inl ⟨rfl, h⟩

theorem open_of_refused (hmax : l.maxRequests ≠ 0)
    (h : (l.checkRateLimited ip requestId purgeAt now).1.isSome = true) :
    0 < l.windowSecs.toNat := by
  by_contra hc
  rw [refused_iff, decide_eq_true_eq] at h
  have hco : ((l.purged purgeAt).counted ip now).count = 1 := by
    unfold RateLimiter.counted
    dsimp only
    rw [purged_windowSecs, if_pos (by omega)]
    rfl
  rw [hco, UInt32.lt_iff_toNat_lt, UInt32.toNat_one] at h
  exact hmax (UInt32.toNat_inj.mp (by rw [UInt32.toNat_zero]; omega))

end Spent

theorem double_pos {windowSecs : UInt64} (ho : 0 < windowSecs.toNat)
    (hw : windowSecs ≠ 9223372036854775808) : 0 < (windowSecs * 2).toNat := by
  have hne : windowSecs.toNat ≠ 9223372036854775808 := fun heq => hw (UInt64.toNat_inj.mp heq)
  have hlt := windowSecs.toNat_lt
  rw [UInt64.toNat_mul]
  change 0 < windowSecs.toNat * 2 % 2 ^ 64
  omega

/-- A refusal binds the later requests of the same address and window. -/
def Persists (o later : Outcome) : Prop :=
  o.ip = later.ip → o.windowStart = later.windowStart → o.refused = true → later.refused = true

theorem outcomes_persist {l : RateLimiter} {events : List Event}
    (hw : l.windowSecs ≠ 9223372036854775808)
    (ht : (events.flatMap Event.times).Pairwise (· ≤ ·)) (hwr : l.neverWraps events = true) :
    (l.outcomes events).Pairwise Persists := by
  by_cases hmax : l.maxRequests = 0
  · have hall := refused_of_zero hmax hwr
    exact List.pairwise_of_forall_mem_list fun o _ later hl _ _ _ => hall later hl
  · induction events generalizing l with
    | nil => exact .nil
    | cons e events ih =>
      have hs := ht
      rw [List.flatMap_cons] at hs
      obtain ⟨hh, hre, hl⟩ := List.pairwise_append.mp hs
      have hn := (Bool.and_eq_true_iff.mp hwr).2
      have hta : ((l.step e).2.outcomes events).Pairwise Persists := by
        refine ih ?_ hre hn ?_
        · rw [step_windowSecs]
          exact hw
        · rw [step_maxRequests]
          exact hmax
      cases e with
      | cleanup now => exact hta
      | request ip requestId purgeAt now =>
        refine List.pairwise_cons.mpr ⟨fun later hmem hip hst hr => ?_, hta⟩
        have ho := open_of_refused hmax hr
        have hsp := spent_of_refused hr
        have hpos := double_pos ho hw
        rw [← step_windowSecs (.request ip requestId purgeAt now)] at ho hpos
        have hm : now ∈ (Event.request ip requestId purgeAt now).times :=
          List.mem_cons_of_mem _ (List.mem_singleton.mpr rfl)
        exact outcomes_of_spent hpos ho hsp (hl now hm) hre hn later hmem
          hip.symm hst.symm

/-- **A refusal lasts as long as its window.** Once an address has been refused,
every later request of it that is counted in the same window is refused, as long
as no counter runs over and the doubled window is not zero by overflow. -/
theorem refusal_persists (maxRequests : UInt32) (windowSecs : UInt64) (events : List Event)
    (htimes : (events.flatMap Event.times).Pairwise (· ≤ ·))
    (hwindow : windowSecs ≠ 9223372036854775808)
    (hwraps : (new maxRequests windowSecs).neverWraps events = true) :
    ((new maxRequests windowSecs).outcomes events).Pairwise Persists :=
  outcomes_persist hwindow htimes hwraps

theorem refusal_persists_oneAllowed :
    ((new 1 60).outcomes [.request (.v4 1) [] 0 0, .request (.v4 2) [] 0 5, .request (.v4 1) [] 7 8,
      .cleanup 9, .request (.v4 1) [] 10 11]).Pairwise Persists :=
  refusal_persists 1 60 _ (by decide) (by decide) (by decide +kernel)

theorem outcomes_flood {ip : IpAddr} (n : Nat) {l : RateLimiter} {count : UInt32}
    (ho : 0 < l.windowSecs.toNat) (hc : (l.limits.lookup ip).getD ⟨0, 0⟩ = ⟨count, 0⟩)
    (ht : l.trackedCount = if (l.limits.lookup ip).isSome then 1 else 0) :
    l.outcomes (List.replicate n (.request ip [] 0 0)) = (List.range n).map fun i =>
      ⟨ip, 0, decide (l.maxRequests < count + UInt32.ofNat (i + 1))⟩ := by
  induction n generalizing l count with
  | zero => rfl
  | succ n ih =>
    have hp : l.purged 0 = l := by
      unfold RateLimiter.purged
      rw [if_neg]
      rw [ht]
      split <;> decide
    have hs : l.counted ip 0 = ⟨count + 1, 0⟩ := by
      unfold RateLimiter.counted
      rw [hc]
      dsimp only
      rw [if_neg]
      exact Nat.not_le.mpr ho
    have hr : (l.step (.request ip [] 0 0)).2.outcomes (List.replicate n (.request ip [] 0 0)) =
        (List.range n).map fun i =>
          ⟨ip, 0, decide (l.maxRequests < count + 1 + UInt32.ofNat (i + 1))⟩ := by
      have hl : (l.step (.request ip [] 0 0)).2.limits.lookup ip = some ⟨count + 1, 0⟩ := by
        change (l.checkRateLimited ip [] 0 0).2.limits.lookup ip = _
        rw [lookup_checked, hp, hs]
      rw [← step_maxRequests (.request ip [] 0 0)]
      refine ih ?_ ?_ ?_
      · rw [step_windowSecs]
        exact ho
      · rw [hl]
        rfl
      · rw [hl]
        change (if ((l.purged 0).limits.lookup ip).isSome then (l.purged 0).trackedCount
          else (l.purged 0).trackedCount + 1) = 1
        rw [hp, ht]
        split <;> rfl
    rw [List.replicate_succ, List.range_succ_eq_map, List.map_cons, List.map_map]
    have hfirst : (l.step (.request ip [] 0 0)).1 =
        [⟨ip, 0, decide (l.maxRequests < count + UInt32.ofNat (0 + 1))⟩] := by
      change [(⟨ip, ((l.purged 0).counted ip 0).windowStart,
        (l.checkRateLimited ip [] 0 0).1.isSome⟩ : Outcome)] = _
      rw [refused_iff, hp, hs]
      rfl
    rw [outcomes, hfirst, hr]
    refine congrArg (List.cons _) (List.map_congr_left fun i _ => ?_)
    have hsum : count + 1 + UInt32.ofNat (i + 1) = count + UInt32.ofNat (i + 1 + 1) := by
      rw [UInt32.ofNat_add (i + 1) 1, UInt32.add_comm (UInt32.ofNat (i + 1)), UInt32.add_assoc]
      rfl
    rw [hsum]
    rfl

/-- After 2^32 requests in one window the counter is back at zero, and the
address is let through again. -/
theorem refusal_ends_when_counter_wraps :
    ¬((new 3 60).outcomes
      (List.replicate (2 ^ 32) (.request (.v4 1) [] 0 0))).Pairwise Persists := by
  intro h
  have hc : ((new 3 60).limits.lookup (.v4 1)).getD ⟨0, 0⟩ = ⟨0, 0⟩ := rfl
  rw [outcomes_flood (2 ^ 32) (by decide) hc rfl, List.pairwise_map] at h
  have hlength : (List.range (2 ^ 32)).length = 2 ^ 32 := List.length_range
  have hp := List.pairwise_iff_getElem.mp h 3 (2 ^ 32 - 1) (by omega) (by omega) (by omega)
  rw [List.getElem_range, List.getElem_range] at hp
  have hlast := hp rfl rfl (by decide)
  exact absurd hlast (by decide)

/-! ## Cleanups change no decision -/

def Event.isRequest : Event → Bool
  | request _ _ _ _ => true
  | cleanup _ => false

/-- The requests, on a limiter that never removes a counter. -/
def withoutCleanup (l : RateLimiter) : List Event → List Outcome
  | [] => []
  | .cleanup _ :: events => withoutCleanup l events
  | .request ip _ _ now :: events =>
    let slot := l.counted ip now
    ⟨ip, slot.windowStart, decide (l.maxRequests < slot.count)⟩ ::
      withoutCleanup { l with limits := l.limits.insert ip slot } events

/-- The first limiter has the counters of the second, but for some whose window
has expired. -/
structure Lags (clock : Nat) (l m : RateLimiter) : Prop where
  maxRequests : l.maxRequests = m.maxRequests
  windowSecs : l.windowSecs = m.windowSecs
  lookup : ∀ ip, l.limits.lookup ip = m.limits.lookup ip ∨ l.limits.lookup ip = none ∧
    ∀ slot, m.limits.lookup ip = some slot → m.windowSecs.toNat ≤ elapsedSecs clock slot.windowStart

section Lags

variable {l} {m : RateLimiter} {clock now : Nat}

theorem Lags.later (h : Lags clock l m) (hnow : clock ≤ now) : Lags now l m where
  maxRequests := h.maxRequests
  windowSecs := h.windowSecs
  lookup := by
    intro ip
    refine (h.lookup ip).imp_right fun ⟨hn, hold⟩ => ⟨hn, fun slot hs => ?_⟩
    exact (hold slot hs).trans (Nat.div_le_div_right (Nat.sub_le_sub_right hnow _))

theorem Lags.cleanup (h : Lags now l m) (hd : m.windowSecs.toNat * 2 < 2 ^ 64) :
    Lags now (l.cleanup now) m where
  maxRequests := h.maxRequests
  windowSecs := h.windowSecs
  lookup := by
    intro ip
    have hg : (l.limits.lookup ip = none) → (l.cleanup now).limits.lookup ip = none := by
      refine fun hn => Option.eq_none_iff_forall_ne_some.mpr fun slot hs => ?_
      cases hn.symm.trans (lookup_retained.mp hs).1
    cases hs : l.limits.lookup ip with
    | none =>
      rw [hg hs]
      exact hs ▸ h.lookup ip
    | some slot =>
      have hsa : m.limits.lookup ip = some slot := by
        rcases h.lookup ip with hsa | ⟨hn, -⟩
        · exact hsa.symm.trans hs
        · cases hn.symm.trans hs
      cases hf : l.fresh now slot with
      | true => exact .inl ((lookup_retained.mpr ⟨hs, hf⟩).trans hsa.symm)
      | false =>
        refine .inr ⟨Option.eq_none_iff_forall_ne_some.mpr fun slot' hs' => ?_, ?_⟩
        · obtain ⟨hs', hf'⟩ := lookup_retained.mp hs'
          cases hs.symm.trans hs'
          cases hf.symm.trans hf'
        · intro slot' hs'
          cases hsa.symm.trans hs'
          have hst := of_decide_eq_false hf
          rw [h.windowSecs, UInt64.toNat_mul] at hst
          change ¬_ < m.windowSecs.toNat * 2 % 2 ^ 64 at hst
          omega

theorem Lags.purged (h : Lags now l m) (hd : m.windowSecs.toNat * 2 < 2 ^ 64) :
    Lags now (l.purged now) m := by
  unfold RateLimiter.purged
  split
  · exact h.cleanup hd
  · exact h

theorem Lags.counted (h : Lags now l m) (ip : IpAddr) : l.counted ip now = m.counted ip now := by
  unfold RateLimiter.counted
  rw [h.windowSecs]
  rcases h.lookup ip with hs | ⟨hn, hold⟩
  · rw [hs]
  · rw [hn]
    cases hsl : m.limits.lookup ip with
    | none => rfl
    | some slot => simp only [Option.getD_none, Option.getD_some, ite_self, if_pos (hold slot hsl)]

theorem Lags.insert (h : Lags now l m) (ip : IpAddr) (slot : Slot) {tracked : Nat} :
    Lags now { l with limits := l.limits.insert ip slot, trackedCount := tracked }
      { m with limits := m.limits.insert ip slot } where
  maxRequests := h.maxRequests
  windowSecs := h.windowSecs
  lookup := by
    intro other
    by_cases hip : other = ip
    · subst hip
      exact .inl ((AList.lookup_insert l.limits).trans (AList.lookup_insert m.limits).symm)
    · simp only [AList.lookup_insert_ne hip]
      exact h.lookup other

theorem Lags.outcomes {events : List Event} (h : Lags clock l m)
    (hd : m.windowSecs.toNat * 2 < 2 ^ 64)
    (ht : (clock :: events.flatMap Event.times).Pairwise (· ≤ ·)) :
    l.outcomes events = m.withoutCleanup events := by
  induction events generalizing l m clock with
  | nil => rfl
  | cons e events ih =>
    cases e with
    | cleanup now =>
      obtain ⟨hc, hr⟩ := List.pairwise_cons.mp ht
      exact ih ((h.later (hc now List.mem_cons_self)).cleanup hd) hd hr
    | request ip requestId purgeAt now =>
      obtain ⟨hc, hr⟩ := List.pairwise_cons.mp ht
      obtain ⟨hp, hr⟩ := List.pairwise_cons.mp hr
      have hl : Lags now (l.purged purgeAt) m :=
        ((h.later (hc purgeAt List.mem_cons_self)).purged hd).later
          (hp now List.mem_cons_self)
      have hs := hl.counted ip
      refine congrArg₂ List.cons ?_ (ih (?_ : Lags now _ _) hd hr)
      · rw [refused_iff, hs, h.maxRequests]
      · rw [← hs]
        exact hl.insert ip _

end Lags

theorem withoutCleanup_filter (l : RateLimiter) (events : List Event) :
    l.withoutCleanup (events.filter Event.isRequest) = l.withoutCleanup events := by
  induction events generalizing l with
  | nil => rfl
  | cons e events ih =>
    cases e with
    | cleanup now => exact ih l
    | request ip requestId purgeAt now => exact congrArg (List.cons _) (ih _)

/-- **Cleanups change no decision**, neither those on the timer nor those a request
makes: the run decides as the one without the cleanup calls, and as the one that
never removes a counter. -/
theorem cleanup_keeps_decisions (maxRequests : UInt32) (windowSecs : UInt64) (events : List Event)
    (htimes : (events.flatMap Event.times).Pairwise (· ≤ ·))
    (hdouble : windowSecs.toNat * 2 < 2 ^ 64) : (new maxRequests windowSecs).outcomes events =
        (new maxRequests windowSecs).outcomes (events.filter Event.isRequest) ∧
      (new maxRequests windowSecs).outcomes events =
        (new maxRequests windowSecs).withoutCleanup events := by
  have hall : ∀ events : List Event, (events.flatMap Event.times).Pairwise (· ≤ ·) →
      (new maxRequests windowSecs).outcomes events =
        (new maxRequests windowSecs).withoutCleanup events := by
    intro events htimes
    have hl : Lags 0 (new maxRequests windowSecs) (new maxRequests windowSecs) :=
      ⟨rfl, rfl, fun _ => .inl rfl⟩
    exact hl.outcomes hdouble (List.pairwise_cons.mpr ⟨fun t _ => Nat.zero_le t, htimes⟩)
  refine ⟨?_, hall events htimes⟩
  rw [hall events htimes, hall _ (htimes.sublist (List.filter_sublist.flatMap _)),
    withoutCleanup_filter]

theorem cleanup_keeps_decisions_oneSecond :
    (new 1 1).outcomes [.request (.v4 1) [] 0 0, .request (.v4 1) [] 3 4, .cleanup 2000000000,
        .request (.v4 1) [] 2000000001 2000000002] =
      [⟨.v4 1, 0, false⟩, ⟨.v4 1, 0, true⟩, ⟨.v4 1, 2000000002, false⟩] :=
  (cleanup_keeps_decisions 1 1 _ (by decide) (by decide)).2

end RateLimiter

end OxPhp.Server
