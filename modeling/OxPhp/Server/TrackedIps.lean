import OxPhp.Server.RateLimit

/-!
# How many addresses are tracked

The limiter cleans up before a request when more than `maxTrackedIps` addresses
are tracked, and then adds the request's address whether or not any was removed.
-/

namespace OxPhp.Server.RateLimiter

open ByteStr

variable (l : RateLimiter)

/-- A new address while too many are tracked, none of them stale. -/
def crowds : Event → Bool
  | .request ip _ purgeAt _ =>
    decide (maxTrackedIps < l.tracked) && (l.limits.lookup ip).isNone &&
      l.limits.entries.all fun e => l.fresh purgeAt e.2
  | .cleanup _ => false

variable {l} {ip : IpAddr} {requestId : Bytes} {purgeAt now : Nat}

theorem length_keys (limits : AList fun _ : IpAddr => Slot) :
    limits.keys.length = limits.entries.length := List.length_map _

/-! ## One request -/

theorem tracked_retained_le : (l.retained now).keys.length ≤ l.tracked := by
  rw [length_keys, tracked, length_keys]
  exact List.length_filter_le _ _

theorem tracked_retained_lt (h : (l.limits.entries.all fun e => l.fresh now e.2) = false) :
    (l.retained now).keys.length < l.tracked := by
  obtain ⟨e, he, hs⟩ := List.all_eq_false.mp h
  rw [length_keys, tracked, length_keys]
  exact List.length_filter_lt_length_iff_exists.mpr ⟨e, he, hs⟩

theorem tracked_insert (limits : AList fun _ : IpAddr => Slot) (ip : IpAddr) (slot : Slot) :
    (limits.insert ip slot).keys.length =
      if (limits.lookup ip).isSome then limits.keys.length else limits.keys.length + 1 := by
  rw [AList.keys_insert, List.length_cons, List.length_erase]
  by_cases hmem : ip ∈ limits.keys
  · have hpos := List.length_pos_of_mem hmem
    rw [if_pos hmem, if_pos (AList.lookup_isSome.mpr hmem)]
    omega
  · rw [if_neg hmem, if_neg fun hs => hmem (AList.lookup_isSome.mp hs)]

theorem tracked_checked : (l.checkRateLimited ip requestId purgeAt now).2.tracked =
    if ((l.purged purgeAt).limits.lookup ip).isSome then (l.purged purgeAt).tracked
    else (l.purged purgeAt).tracked + 1 :=
  tracked_insert _ _ _

/-- The approximate counter is exact as long as requests come one at a time. -/
def Counted (l : RateLimiter) : Prop := l.trackedCount = l.tracked

theorem Counted.purged (h : l.Counted) : (l.purged now).Counted := by
  unfold RateLimiter.purged
  split
  · rfl
  · exact h

theorem Counted.step (h : l.Counted) (e : Event) : (l.step e).2.Counted := by
  cases e with
  | cleanup now => rfl
  | request ip requestId purgeAt now =>
    change _ = (l.checkRateLimited ip requestId purgeAt now).2.tracked
    have hp : (l.purged purgeAt).trackedCount = (l.purged purgeAt).tracked := h.purged
    rw [tracked_checked, ← hp]
    rfl

theorem purged_tracked_le : (l.purged now).tracked ≤ l.tracked := by
  unfold RateLimiter.purged
  split
  · exact tracked_retained_le
  · exact Nat.le_refl _

/-- **One request.** It stays within the bound unless it crowds. -/
theorem step_tracked_le (hc : l.Counted) (h : l.tracked ≤ maxTrackedIps + 1) {e : Event}
    (hcr : l.crowds e = false) : (l.step e).2.tracked ≤ maxTrackedIps + 1 := by
  cases e with
  | cleanup now => exact le_trans tracked_retained_le h
  | request ip requestId purgeAt now =>
    change (l.checkRateLimited ip requestId purgeAt now).2.tracked ≤ _
    have hle : (l.purged purgeAt).tracked ≤ l.tracked := purged_tracked_le
    rw [tracked_checked]
    split
    · omega
    · next hnew =>
      by_cases hro : l.tracked ≤ maxTrackedIps
      · omega
      · -- too many: the cleanup ran, and it had an entry to remove
        have hcl : l.purged purgeAt = l.cleanup purgeAt := by
          unfold RateLimiter.purged
          rw [hc, if_pos (Nat.not_le.mp hro)]
        rw [hcl] at hnew ⊢
        have hs : (l.limits.entries.all fun e => l.fresh purgeAt e.2) = false := by
          by_contra hf
          rw [Bool.not_eq_false] at hf
          have hn : (l.limits.lookup ip).isNone = true := by
            cases hl : l.limits.lookup ip with
            | none => rfl
            | some slot =>
              have hk : l.fresh purgeAt slot = true :=
                List.all_eq_true.mp hf _ (AList.mem_lookup_iff.mp hl)
              have hr : (l.cleanup purgeAt).limits.lookup ip = some slot :=
                lookup_retained.mpr ⟨hl, hk⟩
              rw [hr] at hnew
              exact absurd rfl hnew
          simp only [crowds, hn, hf, Bool.and_true, decide_eq_false_iff_not] at hcr
          exact hcr (Nat.not_le.mp hro)
        have hlt : (l.cleanup purgeAt).tracked < l.tracked := tracked_retained_lt hs
        omega

theorem step_tracked_of_crowds {e : Event} (h : l.crowds e = true) :
    maxTrackedIps + 1 < (l.step e).2.tracked := by
  cases e with
  | cleanup now => cases h
  | request ip requestId purgeAt now =>
    change _ < (l.checkRateLimited ip requestId purgeAt now).2.tracked
    simp only [crowds, Bool.and_eq_true, decide_eq_true_eq] at h
    obtain ⟨⟨hm, hn⟩, hf⟩ := h
    have hs : (l.purged purgeAt).limits = l.limits := by
      unfold RateLimiter.purged
      split
      · exact AList.ext (List.filter_eq_self.mpr (List.all_eq_true.mp hf))
      · rfl
    rw [tracked_checked, tracked, hs, if_neg]
    · change _ < l.tracked + 1
      omega
    · rw [Option.isSome_eq_false_iff.mpr hn]
      exact Bool.false_ne_true

/-! ## Sequences -/

theorem after_take_succ {events : List Event} {n : Nat} {e : Event} (h : events[n]? = some e) :
    l.after (events.take (n + 1)) = ((l.after (events.take n)).step e).2 := by
  rw [List.take_add_one, h, after, List.foldl_append]
  rfl

theorem Counted.after (h : l.Counted) (events : List Event) : (l.after events).Counted := by
  induction events generalizing l with
  | nil => exact h
  | cons e events ih => exact ih (h.step e)

/-- **How many addresses are tracked.** In every state of a run at most one more
than `maxTrackedIps` addresses are tracked just if no request of the run adds an
address while more than that are tracked and none is stale. -/
theorem tracked_bounded_iff (maxRequests : UInt32) (windowSecs : UInt64) (events : List Event) :
    (∀ n, ((new maxRequests windowSecs).after (events.take n)).tracked ≤ maxTrackedIps + 1) ↔
      ∀ n e, events[n]? = some e →
        ((new maxRequests windowSecs).after (events.take n)).crowds e = false := by
  constructor
  · intro hb n e he
    by_contra hc
    rw [Bool.not_eq_false] at hc
    have hm := step_tracked_of_crowds hc
    rw [← after_take_succ he] at hm
    exact absurd (hb (n + 1)) (Nat.not_le.mpr hm)
  · intro hc n
    induction n with
    | zero => exact Nat.zero_le _
    | succ n ih =>
      cases he : events[n]? with
      | none =>
        rw [List.take_add_one, he, Option.toList_none, List.append_nil]
        exact ih
      | some e =>
        rw [after_take_succ he]
        have hnew : (new maxRequests windowSecs).Counted := rfl
        exact step_tracked_le (hnew.after _) ih (hc n e he)

/-! ## An address rotation -/

def rotation (n : Nat) : List Event :=
  (List.range n).map fun i => .request (.v4 (BitVec.ofNat 32 i)) [] 0 0

/-- Tracks the first `n` addresses of the rotation, with windows from the start. -/
structure Rotated (n : Nat) (l : RateLimiter) : Prop where
  counted : l.Counted
  tracked : l.tracked = n
  lookup : ∀ ip slot, l.limits.lookup ip = some slot →
    slot.windowStart = 0 ∧ ∃ i < n, ip = .v4 (BitVec.ofNat 32 i)

theorem counted_windowStart_zero
    (h : ∀ slot, l.limits.lookup ip = some slot → slot.windowStart = 0) :
    (l.counted ip 0).windowStart = 0 := by
  unfold RateLimiter.counted
  dsimp only
  split
  · rfl
  · cases hl : l.limits.lookup ip with
    | none => rfl
    | some slot => exact h slot hl

theorem Rotated.step {n : Nat} (h : Rotated n l) (hw : 0 < (l.windowSecs * 2).toNat)
    (hn : n < 2 ^ 32) : Rotated (n + 1) (l.step (.request (.v4 (BitVec.ofNat 32 n)) [] 0 0)).2 := by
  -- at the instant of the rotation nothing is stale
  have hsa : (l.purged 0).limits = l.limits := by
    unfold RateLimiter.purged
    split
    · refine AList.ext (List.filter_eq_self.mpr fun e he => decide_eq_true ?_)
      have hs := (h.lookup e.1 e.2 (AList.mem_lookup_iff.mpr he)).1
      rw [hs]
      exact hw
    · rfl
  have hnew : l.limits.lookup (.v4 (BitVec.ofNat 32 n)) = none := by
    cases hl : l.limits.lookup (.v4 (BitVec.ofNat 32 n)) with
    | none => rfl
    | some slot =>
      obtain ⟨-, i, hi, heq⟩ := h.lookup _ slot hl
      have hb := congrArg BitVec.toNat (IpAddr.v4.inj heq)
      rw [BitVec.toNat_ofNat, BitVec.toNat_ofNat, Nat.mod_eq_of_lt hn, Nat.mod_eq_of_lt (by omega)]
        at hb
      omega
  refine ⟨h.counted.step _, ?_, fun ip slot hl => ?_⟩
  · change (l.checkRateLimited _ [] 0 0).2.tracked = n + 1
    rw [tracked_checked, hsa, hnew, Option.isSome_none, if_neg Bool.false_ne_true,
      RateLimiter.tracked, hsa]
    exact congrArg (· + 1) h.tracked
  · change (l.checkRateLimited (.v4 (BitVec.ofNat 32 n)) [] 0 0).2.limits.lookup ip = some slot
      at hl
    by_cases hip : ip = .v4 (BitVec.ofNat 32 n)
    · rw [hip, lookup_checked] at hl
      refine ⟨?_, n, Nat.lt_succ_self n, hip⟩
      rw [← Option.some.inj hl]
      refine counted_windowStart_zero fun slot hsl => ?_
      rw [hsa, hnew] at hsl
      cases hsl
    · rw [lookup_checked_ne hip, hsa] at hl
      obtain ⟨hs, i, hi, heq⟩ := h.lookup ip slot hl
      exact ⟨hs, i, Nat.lt_succ_of_lt hi, heq⟩

theorem windowSecs_after (events : List Event) : (l.after events).windowSecs = l.windowSecs := by
  induction events generalizing l with
  | nil => rfl
  | cons e events ih => exact ih.trans (step_windowSecs e)

theorem rotated {maxRequests : UInt32} {windowSecs : UInt64} (hw : 0 < (windowSecs * 2).toNat)
    {n : Nat} (hn : n ≤ 2 ^ 32) : Rotated n ((new maxRequests windowSecs).after (rotation n)) := by
  induction n with
  | zero => exact ⟨rfl, rfl, fun ip slot hl => by cases hl⟩
  | succ n ih =>
    have hb := ih (by omega)
    have ha : (new maxRequests windowSecs).after (rotation (n + 1)) =
        (((new maxRequests windowSecs).after (rotation n)).step
          (.request (.v4 (BitVec.ofNat 32 n)) [] 0 0)).2 := by
      rw [rotation, List.range_succ, List.map_append, after, List.foldl_append]
      rfl
    rw [ha]
    refine hb.step ?_ (by omega)
    rw [windowSecs_after]
    exact hw

/-- A rotation through 100002 addresses has all of them tracked. -/
theorem rotation_exceeds_bound :
    ¬((new 100 60).after (rotation 100002)).tracked ≤ maxTrackedIps + 1 := by
  have hr : Rotated 100002 ((new 100 60).after (rotation 100002)) :=
    rotated (by decide) (by decide)
  rw [hr.tracked]
  decide

end OxPhp.Server.RateLimiter
