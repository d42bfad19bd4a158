import OxPhp.Async.Synthetic
import OxPhp.Shared.Value

/-!
# Channel state

`ChannelInner` of `plugins/ox_shared/types/channel.rs`, and what each of its
locks and atomics is used for, one function per critical section.  Operations
run these one after another; what runs between two of them is the schedule's
choice.
-/

namespace OxPhp.Shared

open ByteStr OxPhp.Async

/-- A sent value in transit, with the entries it keeps alive. -/
structure Payload where
  bytes : Bytes
  keepalive : List SharedRef
  deriving DecidableEq

/-- Parked senders, oldest first, and slots freed while none was parked. -/
structure SendWaiters where
  ids : List PromiseId
  credits : Nat
  deriving DecidableEq

structure ChannelInner where
  capacity : Nat
  buffer : List Payload
  pending : UInt64
  closed : Bool
  recvWaiters : List PromiseId
  sendWaiters : SendWaiters
  /-- Items popped for a receiver that was gone, oldest first. -/
  recvFront : List Payload
  /-- The references in transit, with multiplicity, for the cycle walker. -/
  inFlight : List SharedRef
  deriving DecidableEq

abbrev ChannelSenders := Senders (List SharedRef)

namespace ChannelInner

def new (capacity : Nat) : ChannelInner where
  capacity := max capacity 1
  buffer := []
  pending := 0
  closed := false
  recvWaiters := []
  sendWaiters := { ids := [], credits := 0 }
  recvFront := []
  inFlight := []

variable (c : ChannelInner)

def bumpPending : ChannelInner := { c with pending := c.pending + 1 }

def dropPending : ChannelInner := { c with pending := c.pending - 1 }

/-- Register references before their item can be popped. -/
def indexAdd (views : List SharedRef) : ChannelInner := { c with inFlight := c.inFlight ++ views }

def indexRemove (views : List SharedRef) : ChannelInner :=
  { c with inFlight := c.inFlight.diff views }

def deposit (p : Payload) : Option ChannelInner :=
  if c.buffer.length < c.capacity then some { c with buffer := c.buffer ++ [p] } else none

def popBuffer : Option (Payload × ChannelInner) :=
  match c.buffer with
  | [] => none
  | p :: rest => some (p, { c with buffer := rest })

def popFront : Option (Payload × ChannelInner) :=
  match c.recvFront with
  | [] => none
  | p :: rest => some (p, { c with recvFront := rest })

def pushFront (p : Payload) : ChannelInner := { c with recvFront := c.recvFront ++ [p] }

def popRecvWaiter : Option (PromiseId × ChannelInner) :=
  match c.recvWaiters with
  | [] => none
  | id :: rest => some (id, { c with recvWaiters := rest })

def pushRecvWaiter (id : PromiseId) : ChannelInner :=
  { c with recvWaiters := c.recvWaiters ++ [id] }

/-- Unpark the sender that parked first; with none parked, bank the free slot. -/
def popSendWaiter : Option PromiseId × ChannelInner :=
  match c.sendWaiters.ids with
  | [] =>
    (none,
      { c with
        sendWaiters := { ids := [], credits := min (c.sendWaiters.credits + 1) c.capacity } })
  | id :: rest => (some id, { c with sendWaiters := { c.sendWaiters with ids := rest } })

inductive Parking where
  | parked
  | redeemed
  | closed
  deriving DecidableEq

/-- Park a sender, redeem a banked slot for it, or find the channel closed. -/
def parkSender (id : PromiseId) : Parking × ChannelInner :=
  if c.closed then (.closed, c)
  else if c.sendWaiters.credits > 0 then
    (.redeemed,
      { c with sendWaiters := { c.sendWaiters with credits := c.sendWaiters.credits - 1 } })
  else
    (.parked, { c with sendWaiters := { c.sendWaiters with ids := c.sendWaiters.ids ++ [id] } })

def takeRecvWaiters : List PromiseId × ChannelInner :=
  (c.recvWaiters, { c with recvWaiters := [] })

def takeSendWaiters : List PromiseId × ChannelInner :=
  (c.sendWaiters.ids, { c with sendWaiters := { c.sendWaiters with ids := [] } })

end ChannelInner

def wakeValue : PromisePayload (List SharedRef) := .value [] []

def closedException : PromisePayload (List SharedRef) :=
  .exception (str "OxPHP\\Shared\\ClosedException") (str "channel closed")

end OxPhp.Shared
