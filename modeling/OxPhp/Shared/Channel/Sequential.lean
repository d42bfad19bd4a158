import Mathlib.Data.List.Perm.Basic
import OxPhp.Shared.Channel.Inner

/-!
# Channel operations one at a time

The methods of `ChannelInner` as functions of the whole state, for schedules
where an operation ends before the next begins.
-/

namespace OxPhp.Shared

open ByteStr OxPhp.Async

/-- Hand a payload to the first waiter that can take it; the ids tried are
unparked. -/
def handToWaiter (p : Payload) : List PromiseId → ChannelSenders →
    Bool × List PromiseId × ChannelSenders
  | [], senders => (false, [], senders)
  | id :: rest, senders =>
    match senders.resolveValue id p.bytes p.keepalive with
    | (true, senders') => (true, rest, senders')
    | (false, senders') => handToWaiter p rest senders'

/-- Wake the first sender that is still there; the ids tried are unparked. -/
def wakeWaiter : List PromiseId → ChannelSenders → Bool × List PromiseId × ChannelSenders
  | [], senders => (false, [], senders)
  | id :: rest, senders =>
    match senders.resolve id wakeValue with
    | (true, senders') => (true, rest, senders')
    | (false, senders') => wakeWaiter rest senders'

def resolveAll (payload : PromisePayload (List SharedRef)) (ids : List PromiseId)
    (senders : ChannelSenders) : ChannelSenders :=
  ids.foldl (fun senders id => (senders.resolve id payload).2) senders

theorem handToWaiter_length (p : Payload) (ids : List PromiseId) (senders : ChannelSenders) :
    (handToWaiter p ids senders).2.1.length ≤ ids.length - 1 := by
  induction ids generalizing senders with
  | nil => exact Nat.le_refl 0
  | cons id rest ih =>
    unfold handToWaiter
    split
    · exact Nat.le_refl _
    · next senders' _ =>
      have hr := ih senders'
      simp only [List.length_cons]
      omega

namespace ChannelInner

variable (c : ChannelInner) (senders : ChannelSenders)

/-- Offer a payload to the parked receivers; whether one took it. -/
def drainOneRecvWaiterWith (p : Payload) : Bool × ChannelInner × ChannelSenders :=
  let handed := handToWaiter p c.recvWaiters senders
  (handed.1, { c with recvWaiters := handed.2.1 }, handed.2.2)

/-- Give a free slot to a parked sender, or bank it. -/
def drainOneSendWaiterOnSlotFree : ChannelInner × ChannelSenders :=
  match wakeWaiter c.sendWaiters.ids senders with
  | (true, ids, senders') => ({ c with sendWaiters := { c.sendWaiters with ids } }, senders')
  | (false, ids, senders') =>
    ({ c with
        sendWaiters := { ids, credits := min (c.sendWaiters.credits + 1) c.capacity } }, senders')

theorem drainOneSendWaiterOnSlotFree_recvWaiters :
    (c.drainOneSendWaiterOnSlotFree senders).1.recvWaiters = c.recvWaiters := by
  unfold drainOneSendWaiterOnSlotFree
  split <;> rfl

def takeItem : Option (Payload × ChannelInner) :=
  match c.popFront with
  | some (p, c') => some (p, c'.dropPending.indexRemove p.keepalive)
  | none =>
    match c.popBuffer with
    | some (p, c') => some (p, c'.dropPending.indexRemove p.keepalive)
    | none => none

variable {c} in
theorem takeItem_eq_some {p : Payload} {c' : ChannelInner} (h : c.takeItem = some (p, c')) :
    (∃ rest, c.recvFront = p :: rest ∧
      c' = { c with recvFront := rest }.dropPending.indexRemove p.keepalive) ∨
    (c.recvFront = [] ∧ ∃ rest, c.buffer = p :: rest ∧
      c' = { c with buffer := rest }.dropPending.indexRemove p.keepalive) := by
  unfold takeItem popFront popBuffer at h
  cases hf : c.recvFront with
  | cons q rest =>
    simp only [hf, Option.some.injEq, Prod.mk.injEq] at h
    obtain ⟨rfl, rfl⟩ := h
    exact .inl ⟨rest, rfl, rfl⟩
  | nil =>
    cases hb : c.buffer with
    | nil => simp [hf, hb] at h
    | cons q rest =>
      simp only [hf, hb, Option.some.injEq, Prod.mk.injEq] at h
      obtain ⟨rfl, rfl⟩ := h
      exact .inr ⟨rfl, rest, rfl, rfl⟩

variable {c} in
theorem takeItem_eq_none (h : c.takeItem = none) : c.recvFront = [] ∧ c.buffer = [] := by
  unfold takeItem popFront popBuffer at h
  cases hf : c.recvFront with
  | cons q rest => simp [hf] at h
  | nil =>
    cases hb : c.buffer with
    | nil => exact ⟨rfl, rfl⟩
    | cons q rest => simp [hf, hb] at h

theorem takeItem_recvWaiters {p : Payload} {c' : ChannelInner} (h : c.takeItem = some (p, c')) :
    c'.recvWaiters = c.recvWaiters := by
  rcases takeItem_eq_some h with ⟨rest, -, rfl⟩ | ⟨-, rest, -, rfl⟩
  · rfl
  · rfl

/-- Bring items and parked receivers together while there are both. -/
def drainBufferedToWaiters (c : ChannelInner) (senders : ChannelSenders) :
    ChannelInner × ChannelSenders :=
  if _hnone : c.recvWaiters = [] then (c, senders)
  else
    match _hitem : c.takeItem with
    | none => (c, senders)
    | some (p, c₁) =>
      let handed := c₁.drainOneRecvWaiterWith senders p
      if handed.1 then
        let woken := handed.2.1.drainOneSendWaiterOnSlotFree handed.2.2
        drainBufferedToWaiters woken.1 woken.2
      else
        -- every parked receiver was gone: the item goes back in front
        drainBufferedToWaiters ((handed.2.1.indexAdd p.keepalive).pushFront p).bumpPending
          handed.2.2
termination_by c.recvWaiters.length
decreasing_by
  all_goals
    have hshort := handToWaiter_length p c.recvWaiters senders
    have hpos : 0 < c.recvWaiters.length := List.length_pos_iff.mpr _hnone
    simp only [drainOneSendWaiterOnSlotFree_recvWaiters, drainOneRecvWaiterWith,
      c.takeItem_recvWaiters _hitem, indexAdd, pushFront, bumpPending]
    omega

/-- Free room that a send left untouched goes to a parked sender. -/
def wakeSendWaiterIfRoom : ChannelInner × ChannelSenders :=
  if c.buffer.length + c.recvFront.length < c.capacity then c.drainOneSendWaiterOnSlotFree senders
  else (c, senders)

inductive TrySend where
  | sent
  | full
  | closed
  deriving DecidableEq

/-- Non-blocking send: a parked receiver before the buffer. -/
def trySend (p : Payload) : TrySend × ChannelInner × ChannelSenders :=
  if c.closed then (.closed, c, senders)
  else
    match c.drainOneRecvWaiterWith senders p with
    | (true, c₁, senders₁) => (.sent, c₁.wakeSendWaiterIfRoom senders₁)
    | (false, c₁, senders₁) =>
      match (c₁.indexAdd p.keepalive).deposit p with
      | some c₂ => (.sent, c₂.bumpPending.drainBufferedToWaiters senders₁)
      | none => (.full, (c₁.indexAdd p.keepalive).indexRemove p.keepalive, senders₁)

inductive TryRecv where
  | got (p : Payload)
  | empty
  | drained

def tryRecv : TryRecv × ChannelInner × ChannelSenders :=
  match c.takeItem with
  | some (p, c₁) => (.got p, c₁.drainOneSendWaiterOnSlotFree senders)
  | none => (if c.closed then .drained else .empty, c, senders)

def close : Bool × ChannelInner × ChannelSenders :=
  if c.closed then (false, c, senders)
  else
    let (recvIds, c₁) := { c with closed := true }.takeRecvWaiters
    let senders₁ := resolveAll .cancelled recvIds senders
    let (sendIds, c₂) := c₁.takeSendWaiters
    (true, c₂, resolveAll closedException sendIds senders₁)

def registerRecvWaiter (id : PromiseId) : ChannelInner × ChannelSenders :=
  if c.closed && c.pending == 0 then (c, (senders.cancel id).2)
  else (c.pushRecvWaiter id).drainBufferedToWaiters senders

def registerSendWaiter (id : PromiseId) : ChannelInner × ChannelSenders :=
  match c.parkSender id with
  | (.parked, c₁) => (c₁, senders)
  | (.redeemed, c₁) => (c₁, (senders.resolve id wakeValue).2)
  | (.closed, c₁) => (c₁, (senders.resolve id closedException).2)

/-! ## What a channel holds -/

section Held

variable {c senders}

def held (c : ChannelInner) : List Payload := c.recvFront ++ c.buffer

def heldRefs (c : ChannelInner) : List SharedRef := c.held.flatMap Payload.keepalive

/-- The index holds the references of the items in the channel. -/
def Indexed (c : ChannelInner) : Prop := c.inFlight.Perm c.heldRefs

theorem indexed_new (capacity : Nat) : (new capacity).Indexed := List.Perm.refl _

theorem takeItem_held {p : Payload} {c' : ChannelInner} (h : c.takeItem = some (p, c')) :
    c.held = p :: c'.held ∧ c'.inFlight = c.inFlight.diff p.keepalive := by
  rcases takeItem_eq_some h with ⟨rest, hf, rfl⟩ | ⟨hf, rest, hb, rfl⟩
  · simp [held, hf, dropPending, indexRemove]
  · simp [held, hf, hb, dropPending, indexRemove]

theorem deposit_held {p : Payload} {c' : ChannelInner}
    (h : (c.indexAdd p.keepalive).deposit p = some c') :
    c'.held = c.held ++ [p] ∧ c'.inFlight = c.inFlight ++ p.keepalive := by
  unfold deposit at h
  split at h
  · cases h
    simp [held, indexAdd]
  · cases h

end Held

end ChannelInner

end OxPhp.Shared
