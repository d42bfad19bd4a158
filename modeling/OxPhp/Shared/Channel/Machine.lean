import OxPhp.Lib.Interleave
import OxPhp.Shared.Channel.Inner

/-!
# Channel operations step by step

Every method of `ChannelInner` as a sequence of atomic steps.  The receiver end of
the queue has a lock of its own; it is held across an empty pop and the load of the
closed flag that follows.
-/

namespace OxPhp.Shared.Channel

open OxPhp.Async Interleave

inductive Wait where
  | forever
  | tryOnce
  | bounded
  deriving DecidableEq

inductive SendMode where
  | trySend
  | sendBlocking (wait : Wait)
  deriving DecidableEq

inductive RecvMode where
  | tryRecv
  | recvBlocking (wait : Wait)
  deriving DecidableEq

inductive Answer where
  | sent (p : Payload)
  | full (p : Payload)
  | sendClosed (p : Payload)
  | sendTimeout (p : Payload)
  | received (p : Payload)
  | drained
  | wouldBlock
  | recvTimeout
  | closed (wasOpen : Bool)
  | recvRegistered (id : PromiseId)
  | sendRegistered (id : PromiseId)
  deriving DecidableEq

/-- Who drains the buffer to parked receivers. -/
inductive Drainer where
  | send (p : Payload)
  | register (id : PromiseId)
  deriving DecidableEq

def Drainer.answer : Drainer → Answer
  | send p => .sent p
  | register id => .recvRegistered id

/-- Who offers an item to parked receivers. -/
inductive Offerer where
  | send (mode : SendMode)
  | drain (d : Drainer)
  deriving DecidableEq

/-- What follows once a free slot was given to a parked sender. -/
inductive AfterWake where
  | received (p : Payload)
  | sent (p : Payload)
  | drain (d : Drainer)
  deriving DecidableEq

/-- Why a blocking send gives up. -/
inductive PollEnd where
  | closed
  | deadline
  deriving DecidableEq

def PollEnd.answer (p : Payload) : PollEnd → Answer
  | closed => .sendClosed p
  | deadline => .sendTimeout p

/-- What becomes of an item popped from the stash or the buffer. -/
inductive Taker where
  | recv
  | recvLast
  | drain (d : Drainer)
  deriving DecidableEq

inductive Pc where
  -- `try_send`, and the fast path of `send_blocking`
  | sendLoadClosed (mode : SendMode) (p : Payload)
  | sendIndex (mode : SendMode) (p : Payload)
  | sendDeposit (mode : SendMode) (p : Payload)
  | sendRollback (mode : SendMode) (p : Payload)
  | sendBump (p : Payload)
  -- the slow path of `send_blocking`
  | pollIndex (wait : Wait) (p : Payload)
  | pollLoadClosed (wait : Wait) (p : Payload)
  | pollDeposit (wait : Wait) (p : Payload)
  | pollRollback (p : Payload) (reason : PollEnd)
  -- `drain_one_recv_waiter_with`
  | offerPop (k : Offerer) (p : Payload)
  | offerResolve (k : Offerer) (id : PromiseId) (p : Payload)
  -- `wake_send_waiter_if_room`
  | roomBuffer (p : Payload)
  | roomFront (p : Payload) (buffered : Nat)
  -- `drain_one_send_waiter_on_slot_free`
  | wakePop (k : AfterWake)
  | wakeResolve (k : AfterWake) (id : PromiseId)
  -- `drain_buffered_to_waiters`
  | drainPeek (d : Drainer)
  | drainFront (d : Drainer)
  | drainBuffer (d : Drainer)
  -- `push_front_stash`
  | stashIndex (d : Drainer) (p : Payload)
  | stashPush (d : Drainer) (p : Payload)
  | stashBump (d : Drainer)
  -- after a pop: `drop_pending`, `index_remove`
  | takenPending (k : Taker) (p : Payload)
  | takenIndex (k : Taker) (p : Payload)
  -- `try_recv`, and the fast path of `recv_blocking`
  | recvFront (mode : RecvMode)
  | recvBuffer (mode : RecvMode)
  | recvLoadClosed (mode : RecvMode)
  -- the slow path of `recv_blocking`
  | waitFront (wait : Wait)
  | waitLoadClosed (wait : Wait)
  | waitBuffer (wait : Wait)
  | waitLast
  -- `close`
  | closeSwap
  | closeSweepRecv
  | closeCancel (ids : List PromiseId)
  | closeSweepSend
  | closeRefuse (ids : List PromiseId)
  -- `register_recv_waiter`
  | recvAlloc
  | registerLoadClosed (id : PromiseId)
  | registerLoadPending (id : PromiseId)
  | registerCancel (id : PromiseId)
  | registerPush (id : PromiseId)
  -- `register_send_waiter`
  | sendAlloc
  | registerSend (id : PromiseId)
  | registerResolve (id : PromiseId) (payload : PromisePayload (List SharedRef))

structure State where
  channel : ChannelInner
  senders : ChannelSenders
  rx : Bool

namespace Pc

def accepted (p : Payload) : Offerer → Pc
  | .send _ => roomBuffer p
  | .drain d => wakePop (.drain d)

def handedBack (p : Payload) : Offerer → Pc
  | .send mode => sendIndex mode p
  | .drain d => stashIndex d p

end Pc

def AfterWake.next : AfterWake → Next Pc Answer
  | received p => .ret (.received p)
  | sent p => .ret (.sent p)
  | drain d => .go (.drainPeek d)

def Taker.next (p : Payload) : Taker → Next Pc Answer
  | recv => .go (.wakePop (.received p))
  | recvLast => .ret (.received p)
  | drain d => .go (.offerPop (.drain d) p)

def SendMode.full (p : Payload) : SendMode → Next Pc Answer
  | trySend => .ret (.full p)
  | sendBlocking .tryOnce => .ret (.sendTimeout p)
  | sendBlocking wait => .go (.pollIndex wait p)

def RecvMode.empty : RecvMode → Next Pc Answer
  | tryRecv => .ret .wouldBlock
  | recvBlocking .tryOnce => .ret .recvTimeout
  | recvBlocking wait => .go (.waitFront wait)

def parkingNext (id : PromiseId) : ChannelInner.Parking → Next Pc Answer
  | .parked => .ret (.sendRegistered id)
  | .redeemed => .go (.registerResolve id wakeValue)
  | .closed => .go (.registerResolve id closedException)

/-! ## Atomic steps -/

namespace State

variable (s : State)

def takeFront (k : Taker) (otherwise : Pc) : Next Pc Answer × State :=
  match s.channel.popFront with
  | some (p, channel) => (.go (.takenPending k p), { s with channel })
  | none => (.go otherwise, s)

/-- Pop from the buffer under the receiver lock, which an empty pop may keep. -/
def takeBuffer (k : Taker) (empty : Next Pc Answer) (keepRx : Bool) :
    List (Next Pc Answer × State) :=
  if s.rx then []
  else
    match s.channel.popBuffer with
    | some (p, channel) => [(.go (.takenPending k p), { s with channel })]
    | none => [(empty, { s with rx := keepRx })]

def deposit (p : Payload) (full : Pc) : Next Pc Answer × State :=
  match s.channel.deposit p with
  | some channel => (.go (.sendBump p), { s with channel })
  | none => (.go full, s)

def set (channel : ChannelInner) : State := { s with channel }

def resolve (id : PromiseId) (payload : PromisePayload (List SharedRef)) : State :=
  { s with senders := (s.senders.resolve id payload).2 }

end State

/-- The outcomes of the atomic step an operation is at. -/
def act (pc : Pc) (s : State) : List (Next Pc Answer × State) :=
  let c := s.channel
  match pc with
  | .sendLoadClosed mode p =>
    [(if c.closed then .ret (.sendClosed p) else .go (.offerPop (.send mode) p), s)]
  | .sendIndex mode p => [(.go (.sendDeposit mode p), s.set (c.indexAdd p.keepalive))]
  | .sendDeposit mode p => [s.deposit p (.sendRollback mode p)]
  | .sendRollback mode p => [(mode.full p, s.set (c.indexRemove p.keepalive))]
  | .sendBump p => [(.go (.drainPeek (.send p)), s.set c.bumpPending)]
  | .pollIndex wait p => [(.go (.pollLoadClosed wait p), s.set (c.indexAdd p.keepalive))]
  | .pollLoadClosed wait p =>
    [(.go (if c.closed then .pollRollback p .closed else .pollDeposit wait p), s)]
  | .pollDeposit wait p =>
    -- the queue is full for a whole quantum, or the deadline has passed
    s.deposit p (.pollLoadClosed wait p) ::
      if wait = .bounded then [(.go (.pollRollback p .deadline), s)] else []
  | .pollRollback p reason => [(.ret (reason.answer p), s.set (c.indexRemove p.keepalive))]
  | .offerPop k p =>
    match c.popRecvWaiter with
    | some (id, c') => [(.go (.offerResolve k id p), s.set c')]
    | none => [(.go (.handedBack p k), s)]
  | .offerResolve k id p =>
    let resolved := s.senders.resolveValue id p.bytes p.keepalive
    [(.go (if resolved.1 then .accepted p k else .offerPop k p),
      s.resolve id (.value p.bytes p.keepalive))]
  | .roomBuffer p => [(.go (.roomFront p c.buffer.length), s)]
  | .roomFront p buffered =>
    [(if buffered + c.recvFront.length < c.capacity then .go (.wakePop (.sent p))
      else .ret (.sent p), s)]
  | .wakePop k =>
    match c.popSendWaiter with
    | (some id, c') => [(.go (.wakeResolve k id), s.set c')]
    | (none, c') => [(k.next, s.set c')]
  | .wakeResolve k id =>
    [(if (s.senders.resolve id wakeValue).1 then k.next else .go (.wakePop k),
      s.resolve id wakeValue)]
  | .drainPeek d => [(if c.recvWaiters = [] then .ret d.answer else .go (.drainFront d), s)]
  | .drainFront d => [s.takeFront (.drain d) (.drainBuffer d)]
  | .drainBuffer d => s.takeBuffer (.drain d) (.ret d.answer) false
  | .stashIndex d p => [(.go (.stashPush d p), s.set (c.indexAdd p.keepalive))]
  | .stashPush d p => [(.go (.stashBump d), s.set (c.pushFront p))]
  | .stashBump d => [(.go (.drainPeek d), s.set c.bumpPending)]
  | .takenPending k p => [(.go (.takenIndex k p), s.set c.dropPending)]
  | .takenIndex k p => [(k.next p, s.set (c.indexRemove p.keepalive))]
  | .recvFront mode => [s.takeFront .recv (.recvBuffer mode)]
  | .recvBuffer mode => s.takeBuffer .recv (.go (.recvLoadClosed mode)) true
  | .recvLoadClosed mode =>
    [(if c.closed then .ret .drained else mode.empty, { s with rx := false })]
  | .waitFront wait => [s.takeFront .recv (.waitLoadClosed wait)]
  | .waitLoadClosed wait => [(.go (if c.closed then .waitLast else .waitBuffer wait), s)]
  | .waitBuffer wait =>
    s.takeBuffer .recv (.go (.waitFront wait)) false ++
      if wait = .bounded then [(.ret .recvTimeout, s)] else []
  | .waitLast => s.takeBuffer .recvLast (.ret .drained) false
  | .closeSwap =>
    if c.closed then [(.ret (.closed false), s)]
    else [(.go .closeSweepRecv, s.set { c with closed := true })]
  | .closeSweepRecv => [(.go (.closeCancel c.takeRecvWaiters.1), s.set c.takeRecvWaiters.2)]
  | .closeCancel [] => [(.go .closeSweepSend, s)]
  | .closeCancel (id :: ids) => [(.go (.closeCancel ids), s.resolve id .cancelled)]
  | .closeSweepSend => [(.go (.closeRefuse c.takeSendWaiters.1), s.set c.takeSendWaiters.2)]
  | .closeRefuse [] => [(.ret (.closed true), s)]
  | .closeRefuse (id :: ids) => [(.go (.closeRefuse ids), s.resolve id closedException)]
  | .recvAlloc =>
    [(.go (.registerLoadClosed s.senders.alloc.1), { s with senders := s.senders.alloc.2 })]
  | .registerLoadClosed id =>
    [(.go (if c.closed then .registerLoadPending id else .registerPush id), s)]
  | .registerLoadPending id =>
    [(.go (if c.pending = 0 then .registerCancel id else .registerPush id), s)]
  | .registerCancel id => [(.ret (.recvRegistered id), s.resolve id .cancelled)]
  | .registerPush id => [(.go (.drainPeek (.register id)), s.set (c.pushRecvWaiter id))]
  | .sendAlloc =>
    [(.go (.registerSend s.senders.alloc.1), { s with senders := s.senders.alloc.2 })]
  | .registerSend id =>
    [(parkingNext id (c.parkSender id).1, s.set (c.parkSender id).2)]
  | .registerResolve id payload => [(.ret (.sendRegistered id), s.resolve id payload)]

/-! ## The machine -/

inductive Call where
  | trySend (p : Payload)
  | sendBlocking (p : Payload) (wait : Wait)
  | tryRecv
  | recvBlocking (wait : Wait)
  | close
  | recvFiberRegister
  | sendFiberRegister
  deriving DecidableEq

def Call.entry : Call → Pc
  | trySend p => .sendLoadClosed .trySend p
  | sendBlocking p wait => .sendLoadClosed (.sendBlocking wait) p
  | tryRecv => .recvFront .tryRecv
  | recvBlocking wait => .recvFront (.recvBlocking wait)
  | close => .closeSwap
  | recvFiberRegister => .recvAlloc
  | sendFiberRegister => .sendAlloc

/-- What happens to a parked fiber from outside: its timer fires, or it is torn
down. -/
inductive Interference where
  | cancel (id : PromiseId)
  | dropReceiver (id : PromiseId)
  deriving DecidableEq

def interfere : Interference → State → State
  | .cancel id, s => s.resolve id .cancelled
  | .dropReceiver id, s => { s with senders := s.senders.dropReceiver id }

def machine : Machine State Pc Call Answer Interference where
  entry := Call.entry
  act := act
  env := interfere

abbrev Conf := Config State Pc Answer

def start (capacity : Nat) : Conf where
  shared := { channel := .new capacity, senders := .empty, rx := false }
  running := []
  returned := []

/-- A call that runs to its end with no other operation in progress. -/
def alone (k : Call) (steps : Nat) : List (Move Call Interference) :=
  .call k :: List.replicate steps (.act 0 0)

end OxPhp.Shared.Channel
