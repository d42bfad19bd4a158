import OxPhp.Lib.Runs
import OxPhp.Shared.Channel.Custody

/-!
# One producer and one consumer

The producer sends, one call after the other; the consumer receives, or registers
as a waiter and takes what its promise was resolved with before it does anything
else.  Their atomic steps interleave in any way.
-/

namespace OxPhp.Shared.Channel

open OxPhp.Async Interleave

/-! ## The two parties -/

inductive Party where
  | idle
  | op (pc : Pc)
  | awaiting (id : PromiseId)

def Party.after : Next Pc Answer → Party
  | .go pc => op pc
  | .ret (.recvRegistered id) => awaiting id
  | .ret _ => idle

structure Pair where
  shared : State
  producer : Party
  consumer : Party
  sent : List Payload
  received : List Payload

inductive PairMove where
  | send (p : Payload) (mode : SendMode)
  | recv (mode : RecvMode)
  | register
  | producer (choice : Nat)
  | consumer (choice : Nat)

def Answer.sends : Answer → List Payload
  | sent p => [p]
  | _ => []

def Answer.receives : Answer → List Payload
  | received p => [p]
  | _ => []

def State.deliveredTo (s : State) (id : PromiseId) : List Payload :=
  match s.senders.delivered.lookup id with
  | some (.value bytes keepalive) => [⟨bytes, keepalive⟩]
  | _ => []

namespace Pair

def start (capacity : Nat) : Pair where
  shared := { channel := .new capacity, senders := .empty, rx := false }
  producer := .idle
  consumer := .idle
  sent := []
  received := []

def awaited (s : Pair) (id : PromiseId) : List Pair :=
  match s.shared.senders.delivered.lookup id with
  | none =>
    [{ s with shared := interfere (.cancel id) s.shared },
      { s with shared := interfere (.dropReceiver id) s.shared, consumer := .idle }]
  | some _ => [{ s with consumer := .idle, received := s.received ++ s.shared.deliveredTo id }]

def step : PairMove → Pair → Option Pair
  | .send p mode, s =>
    match s.producer with
    | .idle => some { s with producer := .op (.sendLoadClosed mode p) }
    | _ => none
  | .recv mode, s =>
    match s.consumer with
    | .idle => some { s with consumer := .op (.recvFront mode) }
    | _ => none
  | .register, s =>
    match s.consumer with
    | .idle => some { s with consumer := .op .recvAlloc }
    | _ => none
  | .producer choice, s =>
    match s.producer with
    | .op pc => ((act pc s.shared)[choice]?).map fun out =>
        { s with
          shared := out.2
          producer := .after out.1
          sent := s.sent ++ out.1.answers.flatMap Answer.sends }
    | _ => none
  | .consumer choice, s =>
    match s.consumer with
    | .op pc => ((act pc s.shared)[choice]?).map fun out =>
        { s with
          shared := out.2
          consumer := .after out.1
          received := s.received ++ out.1.answers.flatMap Answer.receives }
    | .awaiting id => (s.awaited id)[choice]?
    | .idle => none

end Pair

/-! ## What the parties hold -/

namespace Pc

/-- The payload a send has placed and will report as sent. -/
def reporting : Pc → List Payload
  | sendBump p => [p]
  | roomBuffer p => [p]
  | roomFront p _ => [p]
  | wakePop (.sent p) => [p]
  | wakeResolve (.sent p) _ => [p]
  | pc =>
    match pc.drainer with
    | some (.send p) => [p]
    | _ => []

/-- The item a drain has popped and has yet to hand over or to put back. -/
def holding : Pc → List Payload
  | takenPending (.drain _) p => [p]
  | takenIndex (.drain _) p => [p]
  | offerPop (.drain _) p => [p]
  | offerResolve (.drain _) _ p => [p]
  | stashIndex _ p => [p]
  | stashPush _ p => [p]
  | _ => []

/-- The item a receive has popped and will return. -/
def returning : Pc → List Payload
  | takenPending .recv p => [p]
  | takenPending .recvLast p => [p]
  | takenIndex .recv p => [p]
  | takenIndex .recvLast p => [p]
  | wakePop (.received p) => [p]
  | wakeResolve (.received p) _ => [p]
  | _ => []

/-- The promise of the receiver's registration the operation is. -/
def registers : Pc → Option PromiseId
  | registerLoadClosed id => some id
  | registerPush id => some id
  | pc =>
    match pc.drainer with
    | some (.register id) => some id
    | _ => none

/-- A send about to resolve the receiver it has unparked. -/
def direct : Pc → Bool
  | offerResolve (.send _) _ _ => true
  | _ => false

end Pc

/-- What an operation has, or had when it ended. -/
structure Load where
  reporting : List Payload
  holding : List Payload
  returning : List Payload
  registers : Option PromiseId

def Pc.load (pc : Pc) : Load := ⟨pc.reporting, pc.holding, pc.returning, pc.registers⟩

def Answer.load : Answer → Load
  | recvRegistered id => ⟨[], [], [], some id⟩
  | r => ⟨r.sends, [], r.receives, none⟩

def loadOf : Next Pc Answer → Load
  | .go pc => pc.load
  | .ret r => r.load

namespace Party

def reporting : Party → List Payload
  | op pc => pc.reporting
  | _ => []

def holding : Party → List Payload
  | op pc => pc.holding
  | _ => []

def returning : Party → List Payload
  | op pc => pc.returning
  | _ => []

def awaits : Party → Option PromiseId
  | idle => none
  | op pc => pc.registers
  | awaiting id => some id

def direct : Party → Bool
  | op pc => pc.direct
  | _ => false

@[simp] theorem reporting_op (pc : Pc) : (op pc).reporting = pc.reporting := rfl
@[simp] theorem holding_op (pc : Pc) : (op pc).holding = pc.holding := rfl

end Party

/-- What is on its way to the consumer: an item its receive is about to return,
or the value of its promise. -/
def State.due (s : State) (consumer : Party) : List Payload :=
  consumer.returning ++ consumer.awaits.elim [] s.deliveredTo

/-! ## Whose step it is -/

inductive Side where
  | producer
  | consumer
  deriving DecidableEq

def Drainer.side : Drainer → Side
  | send _ => .producer
  | register _ => .consumer

def Offerer.side : Offerer → Side
  | send _ => .producer
  | drain d => d.side

def AfterWake.side : AfterWake → Side
  | received _ => .consumer
  | sent _ => .producer
  | drain d => d.side

def Taker.side : Taker → Side
  | recv => .consumer
  | recvLast => .consumer
  | drain d => d.side

/-- Who takes the step, on an open channel with no sender parked. -/
def Pc.side : Pc → Option Side
  | sendLoadClosed _ _ => some .producer
  | sendIndex _ _ => some .producer
  | sendDeposit _ _ => some .producer
  | sendRollback _ _ => some .producer
  | sendBump _ => some .producer
  | pollIndex _ _ => some .producer
  | pollLoadClosed _ _ => some .producer
  | pollDeposit _ _ => some .producer
  | pollRollback _ _ => some .producer
  | offerPop k _ => some k.side
  | offerResolve k _ _ => some k.side
  | roomBuffer _ => some .producer
  | roomFront _ _ => some .producer
  | wakePop k => some k.side
  | drainPeek d => some d.side
  | drainFront d => some d.side
  | drainBuffer d => some d.side
  | stashIndex d _ => some d.side
  | stashPush d _ => some d.side
  | stashBump d => some d.side
  | takenPending k _ => some k.side
  | takenIndex k _ => some k.side
  | recvFront _ => some .consumer
  | recvBuffer _ => some .consumer
  | recvLoadClosed _ => some .consumer
  | waitFront _ => some .consumer
  | waitLoadClosed _ => some .consumer
  | waitBuffer _ => some .consumer
  | waitLast => some .consumer
  | recvAlloc => some .consumer
  | registerLoadClosed _ => some .consumer
  | registerPush _ => some .consumer
  | _ => none

/-! ## What a step moves -/

namespace Pc

def popsFront : Pc → Bool
  | drainFront _ => true
  | recvFront _ => true
  | waitFront _ => true
  | _ => false

def popsBuffer : Pc → Bool
  | drainBuffer _ => true
  | recvBuffer _ => true
  | waitBuffer _ => true
  | waitLast => true
  | _ => false

/-- A send about to unpark a receiver for its payload. -/
def unparks : Pc → Bool
  | offerPop (.send _) _ => true
  | _ => false

end Pc

/-- A step that delivers nothing to a promise. -/
structure Quiet (senders senders' : ChannelSenders) : Prop where
  delivered : senders'.delivered = senders.delivered
  live : ∀ id, senders'.Live id → senders.Live id
  sound : senders.Sound → senders'.Sound

/-- The operation is about to pop for the taker, and has nothing yet. -/
structure Pops (pc : Pc) (k : Taker) : Prop where
  side : pc.side = some k.side
  reporting : ∀ p, (Pc.takenPending k p).reporting = pc.reporting
  registers : ∀ p, (Pc.takenPending k p).registers = pc.registers
  holding : pc.holding = []
  returning : pc.returning = []

/-- What an atomic step of one of the two parties moves. -/
inductive Shift (s : State) (pc : Pc) (next : Next Pc Answer) : State → Prop
  | still {s' : State} (load : loadOf next = pc.load)
      (goesOn : ∀ pc' ∈ next.pcs, pc'.side = pc.side ∧ pc'.direct = false)
      (front : s'.channel.recvFront = s.channel.recvFront)
      (buffer : s'.channel.buffer = s.channel.buffer) (quiet : Quiet s.senders s'.senders) :
      Shift s pc next s'
  | alloc (at_alloc : pc = .recvAlloc) (goes : next = .go (.registerLoadClosed s.senders.alloc.1)) :
      Shift s pc next { s with senders := s.senders.alloc.2 }
  | place {p : Payload} (load : pc.load = ⟨[], [], [], none⟩) (side : pc.side = some .producer)
      (goes : next = .go (.sendBump p)) :
      Shift s pc next (s.set { s.channel with buffer := s.channel.buffer ++ [p] })
  | popFront {k : Taker} {p : Payload} {rest : List Payload} (pops : Pops pc k)
      (at_front : pc.popsFront = true) (first : s.channel.recvFront = p :: rest)
      (goes : next = .go (.takenPending k p)) :
      Shift s pc next (s.set { s.channel with recvFront := rest })
  | popBuffer {k : Taker} {p : Payload} {rest : List Payload} (pops : Pops pc k)
      (at_buffer : pc.popsBuffer = true) (first : s.channel.buffer = p :: rest)
      (goes : next = .go (.takenPending k p)) :
      Shift s pc next (s.set { s.channel with buffer := rest })
  | putBack {d : Drainer} {p : Payload} (at_stash : pc = .stashPush d p)
      (goes : next = .go (.stashBump d)) : Shift s pc next (s.set (s.channel.pushFront p))
  | unpark {mode : SendMode} {id : PromiseId} {p : Payload} {rest : List PromiseId}
      (at_offer : pc = .offerPop (.send mode) p) (first : s.channel.recvWaiters = id :: rest)
      (goes : next = .go (.offerResolve (.send mode) id p)) :
      Shift s pc next (s.set { s.channel with recvWaiters := rest })
  | deliver {k : Offerer} {id : PromiseId} {p : Payload} (at_resolve : pc = .offerResolve k id p)
      (live : s.senders.Live id) (goes : next = .go (.accepted p k)) :
      Shift s pc next (s.resolve id (.value p.bytes p.keepalive))

section Steps

variable {s s' : State} {pc : Pc} {next : Next Pc Answer}

theorem Quiet.refl (senders : ChannelSenders) : Quiet senders senders :=
  ⟨rfl, fun _ h => h, fun h => h⟩

theorem Quiet.resolve {senders : ChannelSenders} {id : PromiseId}
    {payload : PromisePayload (List SharedRef)} (hd : ¬senders.Live id) :
    Quiet senders (senders.resolve id payload).2 where
  delivered := Senders.delivered_resolve hd
  live := fun x hx => by
    have hne : x ≠ id := (Senders.unresolved_resolve.mp hx.unresolved).2
    exact (Senders.live_resolve hne).mp hx
  sound := fun h => h.resolve

theorem Shift.goes {pc' : Pc} {c' : ChannelInner} {rx : Bool} (hl : pc'.load = pc.load)
    (hs : pc'.side = pc.side) (hdirect : pc'.direct = false)
    (hf : c'.recvFront = s.channel.recvFront) (hb : c'.buffer = s.channel.buffer) :
    Shift s pc (.go pc') { s with channel := c', rx := rx } := by
  refine .still hl ?_ hf hb (.refl _)
  simp [hs, hdirect]

theorem Shift.ends {r : Answer} {c' : ChannelInner} {rx : Bool} (hl : r.load = pc.load)
    (hf : c'.recvFront = s.channel.recvFront) (hb : c'.buffer = s.channel.buffer) :
    Shift s pc (.ret r) { s with channel := c', rx := rx } :=
  .still hl nofun hf hb (.refl _)

/-- **What a step of the two parties moves**, on an open channel with no sender parked. -/
theorem shift_of_act (ho : s.channel.closed = false) (hn : s.channel.sendWaiters.ids = [])
    (hs : pc.side ≠ none) (h : (next, s') ∈ act pc s) : Shift s pc next s' := by
  cases acts_of_act h with
  | sendClosed closed | pollClosed closed | waitClosed closed | registerClosed closed
  | recvDrained closed =>
    rw [ho] at closed
    cases closed
  | waking first =>
    rw [hn] at first
    cases first
  | @offered _ k _ _ first =>
    cases k with
    | send mode => exact .unpark rfl first rfl
    | drain d => exact .goes rfl rfl rfl rfl rfl
  | sendAccepted live | drainAccepted live => exact .deliver rfl live rfl
  | @offerDead k _ _ dead =>
    refine .still ?_ (by simp [Pc.side, Pc.direct]) rfl rfl (.resolve dead)
    cases k <;> rfl
  | stashPush => exact .putBack rfl rfl
  | recvAlloc => exact .alloc rfl rfl
  | placed place => cases place <;> exact .place rfl rfl rfl
  | noRoom place => cases place <;> exact .goes rfl rfl rfl rfl rfl
  | frontTaken front first =>
    cases front <;>
      exact .popFront ⟨rfl, fun _ => rfl, fun _ => rfl, rfl, rfl⟩ rfl first rfl
  | frontEmpty front => cases front <;> exact .goes rfl rfl rfl rfl rfl
  | bufferTaken buffer _ first =>
    cases buffer <;>
      exact .popBuffer ⟨rfl, fun _ => rfl, fun _ => rfl, rfl, rfl⟩ rfl first rfl
  | bufferEmpty buffer =>
    cases buffer with
    | recv mode | wait wait => exact .goes rfl rfl rfl rfl rfl
    | send p | register id | last => exact .ends rfl rfl rfl
  | @takenPending k => cases k <;> exact .goes rfl rfl rfl rfl rfl
  | _ =>
    first
    | exact .goes rfl rfl rfl rfl rfl
    | exact .ends rfl rfl rfl
    | exact absurd rfl hs

end Steps

end OxPhp.Shared.Channel
