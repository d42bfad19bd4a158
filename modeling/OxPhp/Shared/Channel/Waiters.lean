import OxPhp.Shared.Channel.Outcomes

/-!
# What a step does to the waiters

A promise is parked on one of the two waiter lists, in the hands of an operation
in progress, or resolved.  A drain goes on until no receiver is parked or no item
is left, and nothing opens a closed channel.
-/

namespace OxPhp.Shared.Channel

open OxPhp.Async Interleave

/-! ## Hands -/

namespace Pc

/-- The promises the operation has taken from a list, or has not parked yet. -/
def held : Pc → List PromiseId
  | offerResolve _ id _ => [id]
  | wakeResolve _ id => [id]
  | closeCancel ids => ids
  | closeRefuse ids => ids
  | registerLoadClosed id => [id]
  | registerLoadPending id => [id]
  | registerCancel id => [id]
  | registerPush id => [id]
  | registerSend id => [id]
  | registerResolve id _ => [id]
  | _ => []

/-- Whose drain of the buffer the operation is in. -/
def drainer : Pc → Option Drainer
  | offerPop (.drain d) _ => some d
  | offerResolve (.drain d) _ _ => some d
  | wakePop (.drain d) => some d
  | wakeResolve (.drain d) _ => some d
  | drainPeek d => some d
  | drainFront d => some d
  | drainBuffer d => some d
  | stashIndex d _ => some d
  | stashPush d _ => some d
  | stashBump d => some d
  | takenPending (.drain d) _ => some d
  | takenIndex (.drain d) _ => some d
  | _ => none

def sweepsRecv : Pc → Bool
  | closeSweepRecv => true
  | _ => false

def sweepsSend : Pc → Bool
  | closeSweepRecv => true
  | closeCancel _ => true
  | closeSweepSend => true
  | _ => false

end Pc

section Steps

variable {s s' : State} {pc : Pc} {next : Next Pc Answer}

theorem closed_of_act (h : (next, s') ∈ act pc s) (hc : s.channel.closed = true) :
    s'.channel.closed = true := by
  cases acts_of_act h with
  | closeSwap opened => rfl
  | _ => exact hc

theorem drainer_of_act (h : (next, s') ∈ act pc s) {d : Drainer} (hd : pc.drainer = some d) :
    (∃ pc' ∈ next.pcs, pc'.drainer = some d) ∨ s.channel.recvWaiters = [] ∨
      (pc = .drainBuffer d ∧ s.channel.buffer = []) := by
  have hg : ∀ {pc' : Pc}, pc'.drainer = pc.drainer →
      (∃ x ∈ (.go pc' : Next Pc Answer).pcs, x.drainer = some d) ∨ s.channel.recvWaiters = [] ∨
        (pc = .drainBuffer d ∧ s.channel.buffer = []) :=
    fun hs => .inl ⟨_, List.mem_singleton_self _, hs.trans hd⟩
  cases acts_of_act h with
  | sendDrained none | registerDrained none => exact .inr (.inl none)
  | bufferEmpty buffer unlocked none =>
    cases buffer with
    | send p | register id =>
      cases hd
      exact .inr (.inr ⟨rfl, none⟩)
    | _ => cases hd
  | placed place | noRoom place => cases place <;> cases hd
  | frontTaken front | frontEmpty front => cases front <;> exact hg rfl
  | bufferTaken buffer => cases buffer <;> exact hg rfl
  | @offered _ k | @offerDead k | @waking _ k | @wakeDead k | @takenPending k =>
    cases k <;> exact hg rfl
  | _ => first | exact hg rfl | cases hd

theorem closed_before_act (h : (next, s') ∈ act pc s) (hc : s'.channel.closed = true) :
    s.channel.closed = true ∨ next = .go .closeSweepRecv := by
  cases acts_of_act h with
  | closeSwap opened => exact .inr rfl
  | _ => exact .inl hc

theorem recvParked_before_act {id : PromiseId} (h : (next, s') ∈ act pc s)
    (hid : id ∈ s'.channel.recvWaiters) :
    id ∈ s.channel.recvWaiters ∨ next = .go (.drainPeek (.register id)) := by
  cases acts_of_act h with
  | offered first => exact .inl (first ▸ List.mem_cons_of_mem _ hid)
  | registerPush =>
    refine (List.mem_append.mp hid).imp_right fun hnew => ?_
    rw [List.mem_singleton.mp hnew]
  | closeSweepRecv => cases hid
  | _ => exact .inl hid

end Steps

end OxPhp.Shared.Channel
