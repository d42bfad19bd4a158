import OxPhp.Shared.Channel.Machine

/-!
# Fibers on a channel

`send` and `recv` in a fiber, from the handlers of
`plugins/ox_shared/types/channel.rs`.  Timers and teardown reach a fiber only while
it is suspended on a promise that nobody has resolved.
-/

namespace OxPhp.Shared.Channel

open ByteStr OxPhp.Async Interleave

inductive FiberAnswer where
  | channel (answer : Answer)
  | sendOk (p : Payload)
  | sendClosed (p : Payload)
  | sendTimeout (p : Payload)
  | sendCancelled (p : Payload)
  | sendFailed (className message : Bytes)
  | recvOk (p : Payload)
  | recvClosed
  | recvTimeout
  | recvCancelled
  | recvFailed (className message : Bytes)
  | torn

inductive Role where
  | call
  | send (p : Payload) (bounded : Bool)
  | parkSend (p : Payload) (bounded : Bool)
  | recv (bounded : Bool)
  | parkRecv (bounded : Bool)
  | probe (bounded : Bool)

inductive Fiber where
  | op (role : Role) (pc : Pc)
  | awaitSend (p : Payload) (bounded : Bool) (id : PromiseId)
  | awaitRecv (bounded : Bool) (id : PromiseId)

def Fiber.trySend (p : Payload) (bounded : Bool) : Fiber :=
  op (.send p bounded) (.sendLoadClosed .trySend p)

/-- What a fiber may do with the answer of its channel operation; a deadline may
have passed or not. -/
def Role.follow : Role → Answer → List (Next Fiber FiberAnswer)
  | send p _, .sent _ => [.ret (.sendOk p)]
  | send p _, .sendClosed _ => [.ret (.sendClosed p)]
  | send p bounded, .full _ =>
    .go (.op (.parkSend p bounded) .sendAlloc) ::
      if bounded then [.ret (.sendTimeout p)] else []
  | parkSend p bounded, .sendRegistered id => [.go (.awaitSend p bounded id)]
  | recv _, .received p => [.ret (.recvOk p)]
  | recv _, .drained => [.ret .recvClosed]
  | recv bounded, .wouldBlock => [.go (.op (.parkRecv bounded) .recvAlloc)]
  | parkRecv bounded, .recvRegistered id => [.go (.awaitRecv bounded id)]
  | probe _, .received p => [.ret (.recvOk p)]
  | probe _, .drained => [.ret .recvClosed]
  | probe bounded, .wouldBlock =>
    .ret .recvCancelled :: if bounded then [.ret .recvTimeout] else []
  | _, answer => [.ret (.channel answer)]

def Role.outcomes (role : Role) (out : Next Pc Answer × State) :
    List (Next Fiber FiberAnswer × State) :=
  match out.1 with
  | .go pc => [(.go (.op role pc), out.2)]
  | .ret answer => (role.follow answer).map fun next => (next, out.2)

/-- What can happen to a fiber suspended on a promise not resolved yet: its timer
or another fiber cancels it, or it is torn down. -/
def interrupted (fiber : Fiber) (id : PromiseId) (s : State) :
    List (Next Fiber FiberAnswer × State) :=
  [(.go fiber, interfere (.cancel id) s), (.ret .torn, interfere (.dropReceiver id) s)]

def closedClass : Bytes := str "OxPHP\\Shared\\ClosedException"

def Fiber.act (fiber : Fiber) (s : State) : List (Next Fiber FiberAnswer × State) :=
  match fiber with
  | op role pc => (Channel.act pc s).flatMap role.outcomes
  | awaitSend p bounded id =>
    match s.senders.delivered.lookup id with
    | none => interrupted fiber id s
    | some (.value _ _) => [(.go (trySend p bounded), s)]
    | some (.exception className message) =>
      [(.ret (if className = closedClass then .sendClosed p else .sendFailed className message), s)]
    | some .cancelled =>
      if bounded then [(.ret (.sendTimeout p), s), (.go (trySend p bounded), s)]
      else [(.ret (.sendCancelled p), s)]
  | awaitRecv bounded id =>
    match s.senders.delivered.lookup id with
    | none => interrupted fiber id s
    | some (.value bytes keepalive) => [(.ret (.recvOk ⟨bytes, keepalive⟩), s)]
    | some (.exception className message) => [(.ret (.recvFailed className message), s)]
    | some .cancelled => [(.go (.op (.probe bounded) (.recvFront .tryRecv)), s)]

inductive FiberCall where
  | send (p : Payload) (bounded : Bool)
  | recv (bounded : Bool)
  | trySend (p : Payload)
  | sendBlocking (p : Payload) (wait : Wait)
  | tryRecv
  | recvBlocking (wait : Wait)

def FiberCall.entry : FiberCall → Fiber
  | send p bounded => .trySend p bounded
  | recv bounded => .op (.recv bounded) (.recvFront .tryRecv)
  | trySend p => .op .call (.sendLoadClosed .trySend p)
  | sendBlocking p wait => .op .call (.sendLoadClosed (.sendBlocking wait) p)
  | tryRecv => .op .call (.recvFront .tryRecv)
  | recvBlocking wait => .op .call (.recvFront (.recvBlocking wait))

/-- Senders and receivers on a channel that nobody closes. -/
def fibers : Machine State Fiber FiberCall FiberAnswer Empty where
  entry := FiberCall.entry
  act := Fiber.act
  env := nofun

abbrev FiberConf := Config State Fiber FiberAnswer

def fiberStart (capacity : Nat) : FiberConf where
  shared := { channel := .new capacity, senders := .empty, rx := false }
  running := []
  returned := []

end OxPhp.Shared.Channel
