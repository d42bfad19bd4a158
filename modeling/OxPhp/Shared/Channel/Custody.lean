import OxPhp.Lib.Ledger
import OxPhp.Shared.Channel.Waiters

/-!
# Who has a promise

A promise made for a registration belongs to that registration, and later to the
fiber that waits on it.  Its id is also held by whoever may resolve it: the
registration until it parks, then a waiter list, then the operation that has
taken it from the list.  No step makes two of one.
-/

namespace OxPhp.Shared.Channel

open OxPhp.Async Interleave

def Drainer.own : Drainer → Multiset PromiseId
  | send _ => 0
  | register id => {id}

def Offerer.own : Offerer → Multiset PromiseId
  | send _ => 0
  | drain d => d.own

def AfterWake.own : AfterWake → Multiset PromiseId
  | received _ => 0
  | sent _ => 0
  | drain d => d.own

def Taker.own : Taker → Multiset PromiseId
  | recv => 0
  | recvLast => 0
  | drain d => d.own

namespace Pc

def own : Pc → Multiset PromiseId
  | offerPop k _ => k.own
  | offerResolve k _ _ => k.own
  | wakePop k => k.own
  | wakeResolve k _ => k.own
  | drainPeek d => d.own
  | drainFront d => d.own
  | drainBuffer d => d.own
  | stashIndex d _ => d.own
  | stashPush d _ => d.own
  | stashBump d => d.own
  | takenPending k _ => k.own
  | takenIndex k _ => k.own
  | registerLoadClosed id => {id}
  | registerLoadPending id => {id}
  | registerCancel id => {id}
  | registerPush id => {id}
  | registerSend id => {id}
  | registerResolve id _ => {id}
  | _ => 0

def hands (pc : Pc) : Multiset PromiseId := pc.held

end Pc

def Answer.own : Answer → Multiset PromiseId
  | recvRegistered id => {id}
  | sendRegistered id => {id}
  | _ => 0

def State.parked (s : State) : Multiset PromiseId :=
  s.channel.recvWaiters + s.channel.sendWaiters.ids

/-- The promise a step makes. -/
def State.made (s : State) : Pc → Multiset PromiseId
  | .recvAlloc => {s.senders.alloc.1}
  | .sendAlloc => {s.senders.alloc.1}
  | _ => 0

/-- What a step does to the promises: nothing, it resolves one it holds, or it
makes one. -/
inductive Handles (s : State) (pc : Pc) (s' : State) : Prop
  | same (senders : s'.senders = s.senders) (made : s.made pc = 0)
  | resolve {id : PromiseId} {payload : PromisePayload (List SharedRef)} (held : id ∈ pc.hands)
      (senders : s'.senders = (s.senders.resolve id payload).2) (made : s.made pc = 0)
  | alloc (senders : s'.senders = s.senders.alloc.2) (made : s.made pc = {s.senders.alloc.1})

/-- What a step does to ids: only a resolved one is dropped, none doubled, and a
registration keeps its own. -/
structure Custody (s : State) (pc : Pc) (next : Next Pc Answer) (s' : State) : Prop where
  hands : s'.parked + next.holds Pc.hands (fun _ => 0) ≤ s.parked + pc.hands + s.made pc
  kept : ∀ id ∈ s.parked + pc.hands + s.made pc, s'.senders.Unresolved id →
    id ∈ s'.parked + next.holds Pc.hands (fun _ => 0)
  own : next.holds Pc.own Answer.own = pc.own + s.made pc
  handles : Handles s pc s'

section Steps

variable {s s' : State} {pc : Pc} {next : Next Pc Answer} {id : PromiseId}

@[simp] theorem mem_parked :
    id ∈ s.parked ↔ id ∈ s.channel.recvWaiters ∨ id ∈ s.channel.sendWaiters.ids := by
  simp [State.parked]

theorem mem_holds_hands :
    id ∈ next.holds Pc.hands (fun _ => 0) ↔ ∃ pc' ∈ next.pcs, id ∈ pc'.held := by
  cases next <;> simp [Next.holds, Pc.hands]

theorem Handles.unresolved (h : Handles s pc s')
    (hid : s'.senders.Unresolved id) : s.senders.Unresolved id ∨ id ∈ s.made pc := by
  cases h with
  | same senders made => exact .inl (senders ▸ hid)
  | resolve held senders made => exact .inl (Senders.unresolved_resolve.mp (senders ▸ hid)).1
  | alloc senders made =>
    rw [made, Multiset.mem_singleton]
    exact (Senders.unresolved_alloc.mp (senders ▸ hid)).symm

theorem Custody.moves (hh : s'.parked + next.holds Pc.hands (fun _ => 0) = s.parked + pc.hands)
    (hown : next.holds Pc.own Answer.own = pc.own) (hm : s.made pc = 0)
    (hs : s'.senders = s.senders) : Custody s pc next s' where
  hands := by rw [hh, hm, add_zero]
  kept := by
    rw [hh, hm, add_zero]
    exact fun _ hid _ => hid
  own := by rw [hown, hm, add_zero]
  handles := .same hs hm

theorem Custody.resolves {payload : PromisePayload (List SharedRef)}
    (hh : pc.hands = id ::ₘ next.holds Pc.hands (fun _ => 0))
    (hown : next.holds Pc.own Answer.own = pc.own) (hp : s'.parked = s.parked)
    (hm : s.made pc = 0) (hs : s'.senders = (s.senders.resolve id payload).2) :
    Custody s pc next s' where
  hands := by
    rw [hp, hm, add_zero, hh]
    exact Multiset.add_le_add_left (Multiset.le_cons_self _ _)
  kept := by
    intro x hx hu
    have hne : x ≠ id := (Senders.unresolved_resolve.mp (hs ▸ hu)).2
    rw [hm, add_zero, hh, Multiset.add_cons, Multiset.mem_cons] at hx
    rw [hp]
    exact hx.resolve_left hne
  own := by rw [hown, hm, add_zero]
  handles := .resolve (hh ▸ Multiset.mem_cons_self _ _) hs hm

theorem Custody.makes
    (hh : s'.parked + next.holds Pc.hands (fun _ => 0) = s.parked + pc.hands + s.made pc)
    (hown : next.holds Pc.own Answer.own = pc.own + s.made pc)
    (hm : s.made pc = {s.senders.alloc.1}) (hs : s'.senders = s.senders.alloc.2) :
    Custody s pc next s' where
  hands := le_of_eq hh
  kept := fun _ hid _ => hh ▸ hid
  own := hown
  handles := .alloc hs hm

theorem parked_bankSlot (h : s.channel.sendWaiters.ids = []) : s.bankSlot.parked = s.parked := by
  simp only [State.parked, State.bankSlot, State.set, h]

/-- **No step doubles a promise.** -/
theorem custody_of_act (h : (next, s') ∈ act pc s) : Custody s pc next s' := by
  cases acts_of_act h with
  | sendAccepted live | drainAccepted live | wokeReceived live | wokeSent live | wokeDrain live
  | offerDead dead | wakeDead dead | registerCancel | registerResolve | cancelOne | refuseOne =>
    exact .resolves rfl rfl rfl rfl rfl
  | bankedReceived none | bankedSent none | bankedDrain none =>
    exact .moves (congrArg (· + 0) (parked_bankSlot none)) rfl rfl rfl
  | offered first | waking first =>
    refine .moves ?_ rfl rfl rfl
    simp only [State.parked, State.setRecvWaiters, State.setSendIds, State.set, first, Next.holds,
      Pc.hands, Pc.held, ← Multiset.cons_coe, ← Multiset.singleton_add, Multiset.coe_nil, add_zero]
    abel
  | parked opened credits =>
    refine .moves ?_ rfl rfl rfl
    simp only [State.parked, State.setSendIds, State.set, Next.holds, Pc.hands, Pc.held,
      ← Multiset.coe_add, add_zero]
    abel
  | registerPush =>
    refine .moves ?_ rfl rfl rfl
    simp only [State.parked, State.setRecvWaiters, State.set, Next.holds, Pc.hands, Pc.held,
      ← Multiset.coe_add, Multiset.coe_nil, add_zero]
    abel
  | closeSweepRecv | closeSweepSend =>
    refine .moves ?_ rfl rfl rfl
    simp [State.parked, State.setRecvWaiters, State.setSendIds, State.set, Next.holds, Pc.hands,
      Pc.held, add_comm]
  | recvAlloc | sendAlloc =>
    exact .makes (by simp [State.parked, State.made, Next.holds, Pc.hands, Pc.held]) rfl rfl rfl
  | placed place | noRoom place => cases place <;> exact .moves rfl rfl rfl rfl
  | frontTaken front | frontEmpty front => cases front <;> exact .moves rfl rfl rfl rfl
  | bufferTaken buffer | bufferEmpty buffer => cases buffer <;> exact .moves rfl rfl rfl rfl
  | _ => exact .moves rfl rfl rfl rfl

end Steps

end OxPhp.Shared.Channel
