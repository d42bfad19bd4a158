import OxPhp.Shared.Channel.Machine

/-!
# The outcomes of a channel step

What `act` can do, outcome by outcome: where the operation stands, what it has
found, where it goes on and what it leaves behind.  Every invariant of the
machine is read off this list.
-/

namespace OxPhp.Shared.Channel

open OxPhp.Async Interleave

/-! ## Positions that share a step -/

/-- Where an item is deposited, and where a full buffer leads. -/
inductive Places : Pc → Payload → Pc → Prop
  | send (mode : SendMode) (p : Payload) : Places (.sendDeposit mode p) p (.sendRollback mode p)
  | poll (wait : Wait) (p : Payload) : Places (.pollDeposit wait p) p (.pollLoadClosed wait p)

/-- Where the stash is popped, for whom, and where an empty one leads. -/
inductive Fronts : Pc → Taker → Pc → Prop
  | drain (d : Drainer) : Fronts (.drainFront d) (.drain d) (.drainBuffer d)
  | recv (mode : RecvMode) : Fronts (.recvFront mode) .recv (.recvBuffer mode)
  | wait (wait : Wait) : Fronts (.waitFront wait) .recv (.waitLoadClosed wait)

/-- Where the buffer is popped, for whom, where an empty one leads, and whether
the receiver end then stays locked. -/
inductive Buffers : Pc → Taker → Next Pc Answer → Bool → Prop
  | send (p : Payload) :
      Buffers (.drainBuffer (.send p)) (.drain (.send p)) (.ret (.sent p)) false
  | register (id : PromiseId) : Buffers (.drainBuffer (.register id)) (.drain (.register id))
      (.ret (.recvRegistered id)) false
  | recv (mode : RecvMode) : Buffers (.recvBuffer mode) .recv (.go (.recvLoadClosed mode)) true
  | wait (wait : Wait) : Buffers (.waitBuffer wait) .recv (.go (.waitFront wait)) false
  | last : Buffers .waitLast .recvLast (.ret .drained) false

/-! ## What a step writes -/

namespace State

variable (s : State)

def setRecvWaiters (ids : List PromiseId) : State := s.set { s.channel with recvWaiters := ids }

def setSendIds (ids : List PromiseId) : State :=
  s.set { s.channel with sendWaiters := { s.channel.sendWaiters with ids } }

def bankSlot : State :=
  s.set { s.channel with sendWaiters :=
    { ids := [], credits := min (s.channel.sendWaiters.credits + 1) s.channel.capacity } }

def redeemSlot : State :=
  s.set { s.channel with
    sendWaiters := { s.channel.sendWaiters with credits := s.channel.sendWaiters.credits - 1 } }

end State

/-- The outcomes of `act`. -/
inductive Acts (s : State) : Pc → Next Pc Answer → State → Prop
  -- sends
  | sendClosed (closed : s.channel.closed = true) :
      Acts s (.sendLoadClosed mode p) (.ret (.sendClosed p)) s
  | sendOpen (opened : s.channel.closed = false) :
      Acts s (.sendLoadClosed mode p) (.go (.offerPop (.send mode) p)) s
  | sendIndex : Acts s (.sendIndex mode p) (.go (.sendDeposit mode p))
      (s.set (s.channel.indexAdd p.keepalive))
  | tryFull : Acts s (.sendRollback .trySend p) (.ret (.full p))
      (s.set (s.channel.indexRemove p.keepalive))
  | onceFull : Acts s (.sendRollback (.sendBlocking .tryOnce) p) (.ret (.sendTimeout p))
      (s.set (s.channel.indexRemove p.keepalive))
  | polls : Acts s (.sendRollback (.sendBlocking wait) p) (.go (.pollIndex wait p))
      (s.set (s.channel.indexRemove p.keepalive))
  | sendBump : Acts s (.sendBump p) (.go (.drainPeek (.send p))) (s.set s.channel.bumpPending)
  | pollIndex : Acts s (.pollIndex wait p) (.go (.pollLoadClosed wait p))
      (s.set (s.channel.indexAdd p.keepalive))
  | pollClosed (closed : s.channel.closed = true) :
      Acts s (.pollLoadClosed wait p) (.go (.pollRollback p .closed)) s
  | pollOpen (opened : s.channel.closed = false) :
      Acts s (.pollLoadClosed wait p) (.go (.pollDeposit wait p)) s
  | pollDeadline : Acts s (.pollDeposit .bounded p) (.go (.pollRollback p .deadline)) s
  | refusedClosed : Acts s (.pollRollback p .closed) (.ret (.sendClosed p))
      (s.set (s.channel.indexRemove p.keepalive))
  | refusedLate : Acts s (.pollRollback p .deadline) (.ret (.sendTimeout p))
      (s.set (s.channel.indexRemove p.keepalive))
  -- offers to parked receivers
  | backToSend (none : s.channel.recvWaiters = []) :
      Acts s (.offerPop (.send mode) p) (.go (.sendIndex mode p)) s
  | backToDrain (none : s.channel.recvWaiters = []) :
      Acts s (.offerPop (.drain d) p) (.go (.stashIndex d p)) s
  | offered {id : PromiseId} (first : s.channel.recvWaiters = id :: rest) :
      Acts s (.offerPop k p) (.go (.offerResolve k id p)) (s.setRecvWaiters rest)
  | sendAccepted {id : PromiseId} (live : s.senders.Live id) :
      Acts s (.offerResolve (.send mode) id p) (.go (.roomBuffer p))
        (s.resolve id (.value p.bytes p.keepalive))
  | drainAccepted {id : PromiseId} (live : s.senders.Live id) :
      Acts s (.offerResolve (.drain d) id p) (.go (.wakePop (.drain d)))
        (s.resolve id (.value p.bytes p.keepalive))
  | offerDead {id : PromiseId} (dead : ¬s.senders.Live id) :
      Acts s (.offerResolve k id p) (.go (.offerPop k p))
        (s.resolve id (.value p.bytes p.keepalive))
  -- room for parked senders
  | roomBuffer : Acts s (.roomBuffer p) (.go (.roomFront p s.channel.buffer.length)) s
  | roomFree (room : buffered + s.channel.recvFront.length < s.channel.capacity) :
      Acts s (.roomFront p buffered) (.go (.wakePop (.sent p))) s
  | roomNone (room : ¬buffered + s.channel.recvFront.length < s.channel.capacity) :
      Acts s (.roomFront p buffered) (.ret (.sent p)) s
  | bankedReceived (none : s.channel.sendWaiters.ids = []) :
      Acts s (.wakePop (.received p)) (.ret (.received p)) s.bankSlot
  | bankedSent (none : s.channel.sendWaiters.ids = []) :
      Acts s (.wakePop (.sent p)) (.ret (.sent p)) s.bankSlot
  | bankedDrain (none : s.channel.sendWaiters.ids = []) :
      Acts s (.wakePop (.drain d)) (.go (.drainPeek d)) s.bankSlot
  | waking {id : PromiseId} (first : s.channel.sendWaiters.ids = id :: rest) :
      Acts s (.wakePop k) (.go (.wakeResolve k id)) (s.setSendIds rest)
  | wokeReceived {id : PromiseId} (live : s.senders.Live id) :
      Acts s (.wakeResolve (.received p) id) (.ret (.received p)) (s.resolve id wakeValue)
  | wokeSent {id : PromiseId} (live : s.senders.Live id) :
      Acts s (.wakeResolve (.sent p) id) (.ret (.sent p)) (s.resolve id wakeValue)
  | wokeDrain {id : PromiseId} (live : s.senders.Live id) :
      Acts s (.wakeResolve (.drain d) id) (.go (.drainPeek d)) (s.resolve id wakeValue)
  | wakeDead {id : PromiseId} (dead : ¬s.senders.Live id) :
      Acts s (.wakeResolve k id) (.go (.wakePop k)) (s.resolve id wakeValue)
  -- drains
  | sendDrained (none : s.channel.recvWaiters = []) :
      Acts s (.drainPeek (.send p)) (.ret (.sent p)) s
  | registerDrained {id : PromiseId} (none : s.channel.recvWaiters = []) :
      Acts s (.drainPeek (.register id)) (.ret (.recvRegistered id)) s
  | drains (parked : s.channel.recvWaiters ≠ []) : Acts s (.drainPeek d) (.go (.drainFront d)) s
  | stashIndex : Acts s (.stashIndex d p) (.go (.stashPush d p))
      (s.set (s.channel.indexAdd p.keepalive))
  | stashPush : Acts s (.stashPush d p) (.go (.stashBump d)) (s.set (s.channel.pushFront p))
  | stashBump : Acts s (.stashBump d) (.go (.drainPeek d)) (s.set s.channel.bumpPending)
  -- popped items
  | takenPending : Acts s (.takenPending k p) (.go (.takenIndex k p)) (s.set s.channel.dropPending)
  | takenRecv : Acts s (.takenIndex .recv p) (.go (.wakePop (.received p)))
      (s.set (s.channel.indexRemove p.keepalive))
  | takenLast : Acts s (.takenIndex .recvLast p) (.ret (.received p))
      (s.set (s.channel.indexRemove p.keepalive))
  | takenDrain : Acts s (.takenIndex (.drain d) p) (.go (.offerPop (.drain d) p))
      (s.set (s.channel.indexRemove p.keepalive))
  -- receives
  | recvDrained (closed : s.channel.closed = true) :
      Acts s (.recvLoadClosed mode) (.ret .drained) { s with rx := false }
  | recvWouldBlock (opened : s.channel.closed = false) :
      Acts s (.recvLoadClosed .tryRecv) (.ret .wouldBlock) { s with rx := false }
  | recvOnce (opened : s.channel.closed = false) :
      Acts s (.recvLoadClosed (.recvBlocking .tryOnce)) (.ret .recvTimeout) { s with rx := false }
  | recvWaits (opened : s.channel.closed = false) :
      Acts s (.recvLoadClosed (.recvBlocking wait)) (.go (.waitFront wait)) { s with rx := false }
  | waitClosed (closed : s.channel.closed = true) :
      Acts s (.waitLoadClosed wait) (.go .waitLast) s
  | waitOpen (opened : s.channel.closed = false) :
      Acts s (.waitLoadClosed wait) (.go (.waitBuffer wait)) s
  | waitDeadline : Acts s (.waitBuffer .bounded) (.ret .recvTimeout) s
  -- close
  | closeAgain (closed : s.channel.closed = true) : Acts s .closeSwap (.ret (.closed false)) s
  | closeSwap (opened : s.channel.closed = false) :
      Acts s .closeSwap (.go .closeSweepRecv) (s.set { s.channel with closed := true })
  | closeSweepRecv :
      Acts s .closeSweepRecv (.go (.closeCancel s.channel.recvWaiters)) (s.setRecvWaiters [])
  | cancelDone : Acts s (.closeCancel []) (.go .closeSweepSend) s
  | cancelOne {id : PromiseId} :
      Acts s (.closeCancel (id :: ids)) (.go (.closeCancel ids)) (s.resolve id .cancelled)
  | closeSweepSend :
      Acts s .closeSweepSend (.go (.closeRefuse s.channel.sendWaiters.ids)) (s.setSendIds [])
  | refuseDone : Acts s (.closeRefuse []) (.ret (.closed true)) s
  | refuseOne {id : PromiseId} : Acts s (.closeRefuse (id :: ids)) (.go (.closeRefuse ids))
      (s.resolve id closedException)
  -- registrations
  | recvAlloc : Acts s .recvAlloc (.go (.registerLoadClosed s.senders.alloc.1))
      { s with senders := s.senders.alloc.2 }
  | registerClosed {id : PromiseId} (closed : s.channel.closed = true) :
      Acts s (.registerLoadClosed id) (.go (.registerLoadPending id)) s
  | registerOpen {id : PromiseId} (opened : s.channel.closed = false) :
      Acts s (.registerLoadClosed id) (.go (.registerPush id)) s
  | pendingNone {id : PromiseId} (none : s.channel.pending = 0) :
      Acts s (.registerLoadPending id) (.go (.registerCancel id)) s
  | pendingSome {id : PromiseId} (some : s.channel.pending ≠ 0) :
      Acts s (.registerLoadPending id) (.go (.registerPush id)) s
  | registerCancel {id : PromiseId} :
      Acts s (.registerCancel id) (.ret (.recvRegistered id)) (s.resolve id .cancelled)
  | registerPush {id : PromiseId} : Acts s (.registerPush id) (.go (.drainPeek (.register id)))
      (s.setRecvWaiters (s.channel.recvWaiters ++ [id]))
  | sendAlloc : Acts s .sendAlloc (.go (.registerSend s.senders.alloc.1))
      { s with senders := s.senders.alloc.2 }
  | parkClosed {id : PromiseId} (closed : s.channel.closed = true) :
      Acts s (.registerSend id) (.go (.registerResolve id closedException)) s
  | redeemed {id : PromiseId} (opened : s.channel.closed = false)
      (credits : 0 < s.channel.sendWaiters.credits) :
      Acts s (.registerSend id) (.go (.registerResolve id wakeValue)) s.redeemSlot
  | parked {id : PromiseId} (opened : s.channel.closed = false)
      (credits : s.channel.sendWaiters.credits = 0) :
      Acts s (.registerSend id) (.ret (.sendRegistered id))
        (s.setSendIds (s.channel.sendWaiters.ids ++ [id]))
  | registerResolve {id : PromiseId} :
      Acts s (.registerResolve id payload) (.ret (.sendRegistered id)) (s.resolve id payload)
  -- deposits and pops
  | placed (place : Places pc p full) (room : s.channel.buffer.length < s.channel.capacity) :
      Acts s pc (.go (.sendBump p)) (s.set { s.channel with buffer := s.channel.buffer ++ [p] })
  | noRoom (place : Places pc p full) (room : s.channel.capacity ≤ s.channel.buffer.length) :
      Acts s pc (.go full) s
  | frontTaken (front : Fronts pc k otherwise) (first : s.channel.recvFront = p :: rest) :
      Acts s pc (.go (.takenPending k p)) (s.set { s.channel with recvFront := rest })
  | frontEmpty (front : Fronts pc k otherwise) (none : s.channel.recvFront = []) :
      Acts s pc (.go otherwise) s
  | bufferTaken (buffer : Buffers pc k empty keepRx) (unlocked : s.rx = false)
      (first : s.channel.buffer = p :: rest) :
      Acts s pc (.go (.takenPending k p)) (s.set { s.channel with buffer := rest })
  | bufferEmpty (buffer : Buffers pc k empty keepRx) (unlocked : s.rx = false)
      (none : s.channel.buffer = []) : Acts s pc empty { s with rx := keepRx }

/-! ## Every outcome is on the list -/

section Inversion

variable {s s' : State} {pc : Pc} {next : Next Pc Answer} {p : Payload}

theorem acts_deposit {full : Pc} (place : Places pc p full) (h : (next, s') = s.deposit p full) :
    Acts s pc next s' := by
  unfold State.deposit ChannelInner.deposit at h
  split at h
  · next hd =>
    obtain ⟨hr, hc⟩ := Option.ite_none_right_eq_some.mp hd
    cases hc
    cases h
    exact .placed place hr
  · next hd =>
    cases h
    exact .noRoom place (Nat.not_lt.mp fun hr => by simp [hr] at hd)

theorem acts_takeFront {k : Taker} {otherwise : Pc} (front : Fronts pc k otherwise)
    (h : (next, s') = s.takeFront k otherwise) : Acts s pc next s' := by
  unfold State.takeFront ChannelInner.popFront at h
  cases hite : s.channel.recvFront with
  | nil =>
    simp only [hite] at h
    cases h
    exact .frontEmpty front hite
  | cons p rest =>
    simp only [hite] at h
    cases h
    exact .frontTaken front hite

theorem acts_takeBuffer {k : Taker} {empty : Next Pc Answer} {keepRx : Bool}
    (buffer : Buffers pc k empty keepRx) (h : (next, s') ∈ s.takeBuffer k empty keepRx) :
    Acts s pc next s' := by
  unfold State.takeBuffer ChannelInner.popBuffer at h
  split at h
  · cases h
  · next hrx =>
    have hu : s.rx = false := Bool.eq_false_iff.mpr hrx
    cases hite : s.channel.buffer with
    | nil =>
      simp only [hite] at h
      cases List.mem_singleton.mp h
      exact .bufferEmpty buffer hu hite
    | cons p rest =>
      simp only [hite] at h
      cases List.mem_singleton.mp h
      exact .bufferTaken buffer hu hite

theorem acts_offerPop {k : Offerer} (h : (next, s') ∈ act (.offerPop k p) s) :
    Acts s (.offerPop k p) next s' := by
  cases hids : s.channel.recvWaiters with
  | nil =>
    simp only [act, ChannelInner.popRecvWaiter, hids] at h
    cases List.mem_singleton.mp h
    cases k with
    | send mode => exact .backToSend hids
    | drain d => exact .backToDrain hids
  | cons id rest =>
    simp only [act, ChannelInner.popRecvWaiter, hids] at h
    cases List.mem_singleton.mp h
    exact .offered hids

theorem acts_offerResolve {k : Offerer} {id : PromiseId}
    (h : (next, s') ∈ act (.offerResolve k id p) s) : Acts s (.offerResolve k id p) next s' := by
  cases List.mem_singleton.mp h
  by_cases hl : s.senders.Live id
  · have hr : (s.senders.resolveValue id p.bytes p.keepalive).1 = true :=
      Senders.resolve_fst.mpr hl
    rw [if_pos hr]
    cases k with
    | send mode => exact .sendAccepted hl
    | drain d => exact .drainAccepted hl
  · have hr : ¬(s.senders.resolveValue id p.bytes p.keepalive).1 = true :=
      fun h => hl (Senders.resolve_fst.mp h)
    rw [if_neg hr]
    exact .offerDead hl

theorem acts_wakePop {k : AfterWake} (h : (next, s') ∈ act (.wakePop k) s) :
    Acts s (.wakePop k) next s' := by
  cases hids : s.channel.sendWaiters.ids with
  | nil =>
    simp only [act, ChannelInner.popSendWaiter, hids] at h
    cases List.mem_singleton.mp h
    cases k with
    | received p => exact .bankedReceived hids
    | sent p => exact .bankedSent hids
    | drain d => exact .bankedDrain hids
  | cons id rest =>
    simp only [act, ChannelInner.popSendWaiter, hids] at h
    cases List.mem_singleton.mp h
    exact .waking hids

theorem acts_wakeResolve {k : AfterWake} {id : PromiseId}
    (h : (next, s') ∈ act (.wakeResolve k id) s) : Acts s (.wakeResolve k id) next s' := by
  cases List.mem_singleton.mp h
  by_cases hl : s.senders.Live id
  · rw [if_pos (Senders.resolve_fst.mpr hl)]
    cases k with
    | received p => exact .wokeReceived hl
    | sent p => exact .wokeSent hl
    | drain d => exact .wokeDrain hl
  · rw [if_neg fun h => hl (Senders.resolve_fst.mp h)]
    exact .wakeDead hl

theorem acts_registerSend {id : PromiseId} (h : (next, s') ∈ act (.registerSend id) s) :
    Acts s (.registerSend id) next s' := by
  cases List.mem_singleton.mp h
  unfold ChannelInner.parkSender
  split
  · next hc => exact .parkClosed hc
  · next ho =>
    have ho := Bool.eq_false_iff.mpr ho
    split
    · next hcr => exact .redeemed ho hcr
    · next hcr => exact .parked ho (Nat.eq_zero_of_not_pos hcr)

/-- **What a step can do.** -/
theorem acts_of_act (h : (next, s') ∈ act pc s) : Acts s pc next s' := by
  cases pc with
  | sendIndex mode p | sendBump p | pollIndex wait p | roomBuffer p | stashIndex d p
  | stashPush d p | stashBump d | takenPending k p | closeSweepRecv | closeSweepSend | recvAlloc
  | registerCancel id | registerPush id | sendAlloc | registerResolve id payload =>
    cases List.mem_singleton.mp h
    constructor
  | sendLoadClosed mode p | pollLoadClosed wait p | waitLoadClosed wait | registerLoadClosed id =>
    cases List.mem_singleton.mp h
    cases hc : s.channel.closed <;> constructor <;> exact hc
  | sendDeposit mode p => exact acts_deposit (.send mode p) (List.mem_singleton.mp h)
  | sendRollback mode p =>
    cases List.mem_singleton.mp h
    unfold SendMode.full
    split <;> constructor
  | pollDeposit wait p =>
    rcases List.mem_cons.mp h with h | h
    · exact acts_deposit (.poll wait p) h
    · split at h
      · next hw =>
        cases List.mem_singleton.mp h
        subst hw
        exact .pollDeadline
      · cases h
  | pollRollback p reason =>
    cases List.mem_singleton.mp h
    cases reason <;> constructor
  | offerPop k p => exact acts_offerPop h
  | offerResolve k id p => exact acts_offerResolve h
  | roomFront p buffered =>
    cases List.mem_singleton.mp h
    split
    · next hr => exact .roomFree hr
    · next hr => exact .roomNone hr
  | wakePop k => exact acts_wakePop h
  | wakeResolve k id => exact acts_wakeResolve h
  | drainPeek d =>
    cases List.mem_singleton.mp h
    split
    · next hn => cases d <;> constructor <;> exact hn
    · next hs => exact .drains hs
  | drainFront d => exact acts_takeFront (.drain d) (List.mem_singleton.mp h)
  | recvFront mode => exact acts_takeFront (.recv mode) (List.mem_singleton.mp h)
  | waitFront wait => exact acts_takeFront (.wait wait) (List.mem_singleton.mp h)
  | drainBuffer d =>
    cases d with
    | send p => exact acts_takeBuffer (.send p) h
    | register id => exact acts_takeBuffer (.register id) h
  | recvBuffer mode => exact acts_takeBuffer (.recv mode) h
  | waitLast => exact acts_takeBuffer .last h
  | waitBuffer wait =>
    rcases List.mem_append.mp h with h | h
    · exact acts_takeBuffer (.wait wait) h
    · split at h
      · next hw =>
        cases List.mem_singleton.mp h
        subst hw
        exact .waitDeadline
      · cases h
  | takenIndex k p =>
    cases List.mem_singleton.mp h
    cases k <;> constructor
  | recvLoadClosed mode =>
    cases List.mem_singleton.mp h
    cases hc : s.channel.closed with
    | true => exact .recvDrained hc
    | false =>
      rw [if_neg Bool.false_ne_true, RecvMode.empty.eq_def]
      split <;> constructor <;> exact hc
  | closeSwap =>
    dsimp only [act] at h
    split at h
    · next hc =>
      cases List.mem_singleton.mp h
      exact .closeAgain hc
    · next ho =>
      cases List.mem_singleton.mp h
      exact .closeSwap (Bool.eq_false_iff.mpr ho)
  | closeCancel ids | closeRefuse ids =>
    cases ids <;> cases List.mem_singleton.mp h <;> constructor
  | registerLoadPending id =>
    cases List.mem_singleton.mp h
    split
    · next hn => exact .pendingNone hn
    · next hs => exact .pendingSome hs
  | registerSend id => exact acts_registerSend h

end Inversion

end OxPhp.Shared.Channel
