import OxPhp.Shared.Channel.Conservation
import OxPhp.Shared.Channel.InFlight

/-!
# One operation at a time

The functions that compute a whole operation agree with its atomic steps: a call
that runs with no other in between ends with the answer and in the state that
its function gives.  So what every step keeps, the functions keep.
-/

namespace OxPhp.Shared.Channel

open OxPhp.Async Interleave ChannelInner

variable {c : ChannelInner} {senders : ChannelSenders} {rx : Bool} {p : Payload}
  {answer : Answer} {s' : State}

/-! ## Loops -/

theorem act_offerPop_nil {k : Offerer} (h : c.recvWaiters = []) :
    machine.act (.offerPop k p) ⟨c, senders, rx⟩ = [(.go (.handedBack p k), ⟨c, senders, rx⟩)] := by
  simp [machine, act, popRecvWaiter, h]

theorem act_offerPop_cons {k : Offerer} {id : PromiseId} {ids : List PromiseId}
    (h : c.recvWaiters = id :: ids) : machine.act (.offerPop k p) ⟨c, senders, rx⟩ =
      [(.go (.offerResolve k id p), ⟨{ c with recvWaiters := ids }, senders, rx⟩)] := by
  simp [machine, act, popRecvWaiter, h, State.set]

theorem solo_offer (k : Offerer) (hr : machine.Solo
      (.go (if (c.drainOneRecvWaiterWith senders p).1 then .accepted p k else .handedBack p k))
      ⟨(c.drainOneRecvWaiterWith senders p).2.1, (c.drainOneRecvWaiterWith senders p).2.2, rx⟩
      answer s') : machine.Solo (.go (.offerPop k p)) ⟨c, senders, rx⟩ answer s' := by
  unfold drainOneRecvWaiterWith at hr
  generalize hids : c.recvWaiters = ids at hr
  induction ids generalizing c senders with
  | nil =>
    have hs : { c with recvWaiters := [] } = c := by rw [← hids]
    refine .step (act_offerPop_nil hids) ?_
    simpa [handToWaiter, hs] using hr
  | cons id ids ih =>
    refine .step (act_offerPop_cons hids) (.step rfl ?_)
    unfold handToWaiter at hr
    cases hre : senders.resolveValue id p.bytes p.keepalive with
    | mk took senders₁ =>
      have hse : (senders.resolve id (.value p.bytes p.keepalive)).2 = senders₁ :=
        congrArg Prod.snd hre
      rw [hre] at hr
      simp only [State.resolve, hse]
      cases took with
      | true => exact hr
      | false => exact ih rfl hr

theorem solo_wake (k : AfterWake)
    (hr : machine.Solo k.next ⟨(c.drainOneSendWaiterOnSlotFree senders).1,
      (c.drainOneSendWaiterOnSlotFree senders).2, rx⟩ answer s') :
    machine.Solo (.go (.wakePop k)) ⟨c, senders, rx⟩ answer s' := by
  unfold drainOneSendWaiterOnSlotFree at hr
  generalize hids : c.sendWaiters.ids = ids at hr
  induction ids generalizing c senders with
  | nil =>
    refine .step ?_ hr
    simp [machine, act, popSendWaiter, hids, State.set, wakeWaiter]
  | cons id ids ih =>
    have hpop : machine.act (.wakePop k) ⟨c, senders, rx⟩ = [(.go (.wakeResolve k id),
        ⟨{ c with sendWaiters := { c.sendWaiters with ids } }, senders, rx⟩)] := by
      simp [machine, act, popSendWaiter, hids, State.set]
    refine .step hpop (.step rfl ?_)
    unfold wakeWaiter at hr
    cases hre : senders.resolve id wakeValue with
    | mk took senders₁ =>
      rw [hre] at hr
      simp only [State.resolve, hre]
      cases took with
      | true => exact hr
      | false => exact ih rfl hr

theorem solo_taken {k : Taker} (hr : machine.Solo (k.next p)
    ⟨c.dropPending.indexRemove p.keepalive, senders, rx⟩ answer s') :
    machine.Solo (.go (.takenPending k p)) ⟨c, senders, rx⟩ answer s' :=
  .step rfl (.step rfl hr)

theorem act_takeFront_nil {k : Taker} {otherwise : Pc} (h : c.recvFront = []) :
    State.takeFront ⟨c, senders, rx⟩ k otherwise = (.go otherwise, ⟨c, senders, rx⟩) := by
  simp [State.takeFront, popFront, h]

variable {front buffer : Pc} {empty : Next Pc Answer} {keepRx : Bool}

theorem solo_takeItem {k : Taker} {c' : ChannelInner}
    (hf : machine.act front ⟨c, senders, false⟩ = [State.takeFront ⟨c, senders, false⟩ k buffer])
    (hb : machine.act buffer ⟨c, senders, false⟩ =
      State.takeBuffer ⟨c, senders, false⟩ k empty keepRx) (h : c.takeItem = some (p, c'))
    (hr : machine.Solo (k.next p) ⟨c', senders, false⟩ answer s') :
    machine.Solo (.go front) ⟨c, senders, false⟩ answer s' := by
  rcases takeItem_eq_some h with ⟨rest, hite, rfl⟩ | ⟨hn, rest, hite, rfl⟩
  · refine .step (hf.trans ?_) (solo_taken hr)
    simp [State.takeFront, popFront, hite]
  · refine .step (hf.trans (congrArg (fun out => [out]) (act_takeFront_nil hn))) ?_
    refine .step (hb.trans ?_) (solo_taken hr)
    simp [State.takeBuffer, popBuffer, hite]

theorem solo_noItem {k : Taker}
    (hf : machine.act front ⟨c, senders, false⟩ = [State.takeFront ⟨c, senders, false⟩ k buffer])
    (hb : machine.act buffer ⟨c, senders, false⟩ =
      State.takeBuffer ⟨c, senders, false⟩ k empty keepRx)
    (h : c.takeItem = none) (hr : machine.Solo empty ⟨c, senders, keepRx⟩ answer s') :
    machine.Solo (.go front) ⟨c, senders, false⟩ answer s' := by
  obtain ⟨hn, he⟩ := takeItem_eq_none h
  refine .step (hf.trans (congrArg (fun out => [out]) (act_takeFront_nil hn))) ?_
  refine .step (hb.trans ?_) hr
  simp [State.takeBuffer, popBuffer, he]

theorem act_drainPeek {d : Drainer} (h : ¬c.recvWaiters = []) :
    machine.act (.drainPeek d) ⟨c, senders, rx⟩ = [(.go (.drainFront d), ⟨c, senders, rx⟩)] := by
  simp [machine, act, h]

theorem solo_drain (d : Drainer) (c : ChannelInner) (senders : ChannelSenders) :
    machine.Solo (.go (.drainPeek d)) ⟨c, senders, false⟩ d.answer
      ⟨(c.drainBufferedToWaiters senders).1, (c.drainBufferedToWaiters senders).2, false⟩ := by
  fun_induction drainBufferedToWaiters c senders with
  | case1 c senders hn =>
    refine .step ?_ (.ret _ _)
    simp [machine, act, hn]
  | case2 c senders hs hite =>
    exact .step (act_drainPeek hs) (solo_noItem rfl rfl hite (.ret _ _))
  | case3 c senders hs p c₁ hite handed ht woken ih =>
    refine .step (act_drainPeek hs) (solo_takeItem rfl rfl hite (solo_offer (.drain d) ?_))
    rw [if_pos ht]
    exact solo_wake (.drain d) ih
  | case4 c senders hs p c₁ hite handed ht ih =>
    refine .step (act_drainPeek hs) (solo_takeItem rfl rfl hite (solo_offer (.drain d) ?_))
    rw [if_neg ht]
    exact .step rfl (.step rfl (.step rfl ih))

theorem solo_closeRefuse (ids : List PromiseId) (senders : ChannelSenders) :
    machine.Solo (.go (.closeRefuse ids)) ⟨c, senders, rx⟩ (.closed true)
      ⟨c, resolveAll closedException ids senders, rx⟩ := by
  induction ids generalizing senders with
  | nil => exact .step rfl (.ret _ _)
  | cons id ids ih => exact .step rfl (ih _)

theorem solo_closeCancel (ids : List PromiseId) (senders : ChannelSenders)
    (hr : machine.Solo (.go .closeSweepSend) ⟨c, resolveAll .cancelled ids senders, rx⟩
      answer s') : machine.Solo (.go (.closeCancel ids)) ⟨c, senders, rx⟩ answer s' := by
  induction ids generalizing senders with
  | nil => exact .step rfl hr
  | cons id ids ih => exact .step rfl (ih _ hr)

/-! ## Operations -/

def Answer.ofTrySend (p : Payload) : TrySend → Answer
  | .sent => .sent p
  | .full => .full p
  | .closed => .sendClosed p

def Answer.ofTryRecv : TryRecv → Answer
  | .got p => .received p
  | .empty => .wouldBlock
  | .drained => .drained

theorem solo_trySend (c : ChannelInner) (senders : ChannelSenders) (p : Payload) :
    machine.Solo (.go (.sendLoadClosed .trySend p)) ⟨c, senders, false⟩
      (Answer.ofTrySend p (c.trySend senders p).1)
      ⟨(c.trySend senders p).2.1, (c.trySend senders p).2.2, false⟩ := by
  unfold ChannelInner.trySend
  split
  · next hc =>
    refine .step ?_ (.ret _ _)
    simp [machine, act, hc, Answer.ofTrySend]
  · next ho =>
    have hl : machine.act (.sendLoadClosed .trySend p) ⟨c, senders, false⟩ =
        [(.go (.offerPop (.send .trySend) p), ⟨c, senders, false⟩)] := by
      simp [machine, act, ho]
    refine .step hl (solo_offer (.send .trySend) ?_)
    generalize c.drainOneRecvWaiterWith senders p = handed
    obtain ⟨took, c₁, senders₁⟩ := handed
    cases took with
    | true =>
      refine .step rfl (.step rfl ?_)
      dsimp only [wakeSendWaiterIfRoom]
      split
      · exact solo_wake (.sent p) (.ret _ _)
      · exact .ret _ _
    | false =>
      refine .step rfl ?_
      dsimp only
      split
      · next c₂ hd =>
        have hact : machine.act (.sendDeposit .trySend p)
            ⟨c₁.indexAdd p.keepalive, senders₁, false⟩ =
              [(.go (.sendBump p), ⟨c₂, senders₁, false⟩)] := by
          simp [machine, act, State.deposit, hd]
        exact .step hact (.step rfl (solo_drain (.send p) _ _))
      · next hd =>
        have hact : machine.act (.sendDeposit .trySend p)
            ⟨c₁.indexAdd p.keepalive, senders₁, false⟩ =
              [(.go (.sendRollback .trySend p), ⟨c₁.indexAdd p.keepalive, senders₁, false⟩)] := by
          simp [machine, act, State.deposit, hd]
        exact .step hact (.step rfl (.ret _ _))

theorem solo_tryRecv (c : ChannelInner) (senders : ChannelSenders) :
    machine.Solo (.go (.recvFront .tryRecv)) ⟨c, senders, false⟩
      (Answer.ofTryRecv (c.tryRecv senders).1)
      ⟨(c.tryRecv senders).2.1, (c.tryRecv senders).2.2, false⟩ := by
  unfold tryRecv
  split
  · next hite => exact solo_takeItem rfl rfl hite (solo_wake (.received _) (.ret _ _))
  · next hite =>
    refine solo_noItem rfl rfl hite (.step rfl ?_)
    cases hc : c.closed <;> exact .ret _ _

theorem solo_close (c : ChannelInner) (senders : ChannelSenders) :
    machine.Solo (.go .closeSwap) ⟨c, senders, false⟩ (.closed (c.close senders).1)
      ⟨(c.close senders).2.1, (c.close senders).2.2, false⟩ := by
  unfold close
  split
  · next hc =>
    refine .step ?_ (.ret _ _)
    simp [machine, act, hc]
  · next ho =>
    have hs : machine.act .closeSwap ⟨c, senders, false⟩ =
        [(.go .closeSweepRecv, ⟨{ c with closed := true }, senders, false⟩)] := by
      simp [machine, act, ho, State.set]
    exact .step hs (.step rfl (solo_closeCancel _ _ (.step rfl (solo_closeRefuse _ _))))

theorem solo_recvFiberRegister (c : ChannelInner) (senders : ChannelSenders) :
    machine.Solo (.go .recvAlloc) ⟨c, senders, false⟩ (.recvRegistered senders.alloc.1)
      ⟨(c.registerRecvWaiter senders.alloc.2 senders.alloc.1).1,
        (c.registerRecvWaiter senders.alloc.2 senders.alloc.1).2, false⟩ := by
  refine .step rfl (.step rfl ?_)
  unfold registerRecvWaiter
  cases hc : c.closed with
  | false => exact .step rfl (solo_drain (.register _) _ _)
  | true =>
    refine .step rfl ?_
    by_cases hp : c.pending = 0
    · rw [if_pos hp, if_pos (by simp [hp])]
      exact .step rfl (.ret _ _)
    · rw [if_neg hp, if_neg (by simp [hp])]
      exact .step rfl (solo_drain (.register _) _ _)

theorem solo_sendFiberRegister (c : ChannelInner) (senders : ChannelSenders) :
    machine.Solo (.go .sendAlloc) ⟨c, senders, false⟩ (.sendRegistered senders.alloc.1)
      ⟨(c.registerSendWaiter senders.alloc.2 senders.alloc.1).1,
        (c.registerSendWaiter senders.alloc.2 senders.alloc.1).2, false⟩ := by
  refine .step rfl (.step rfl ?_)
  unfold registerSendWaiter
  split
  · next hp =>
    rw [hp]
    exact .ret _ _
  · next hp =>
    rw [hp]
    exact .step rfl (.ret _ _)
  · next hp =>
    rw [hp]
    exact .step rfl (.ret _ _)

/-! ## What an operation leaves -/

section Leaves

variable {s : State} {k : Call}

theorem indexed_of_solo (h : machine.Solo (.go k.entry) s answer s') (hin : s.channel.Indexed) :
    s'.channel.Indexed := by
  have he : k.entry.registered = 0 := by cases k <;> rfl
  have hindex := h.invariant (P := fun next s => (s.channel.inFlight : Multiset SharedRef) =
    s.channel.heldRefs + (next.holds Pc.registered (fun _ => 0) + 0))
    (fun hP hout => inFlight_of_act hout hP) ?_
  · exact Multiset.coe_eq_coe.mp (by simpa [Next.holds] using hindex)
  · rw [Next.holds, he, add_zero, add_zero]
    exact Multiset.coe_eq_coe.mpr hin

/-- **An operation lets in what it was called with and nothing else.** -/
theorem held_of_solo (h : machine.Solo (.go k.entry) s answer s') :
    ∀ p ∈ s'.channel.held, p ∈ s.channel.held ∨ p ∈ k.offered := by
  have he : k.entry.carried + k.entry.taken = k.offered := by cases k <;> rfl
  have hite := h.invariant (P := fun next s₁ => ∀ p ∈ s₁.items +
    next.holds (fun pc => pc.carried + pc.taken) (fun r => r.refused + r.got),
      p ∈ s.items + k.offered) (fun {pc s₁ next s₂} hP hout p hp => hP p ?_) (he ▸ fun _ hp => hp)
  · intro p hp
    have hin : p ∈ s'.items := by simpa [State.items, held, or_comm] using hp
    simpa [State.items, held, or_comm] using hite p (Multiset.mem_add.mpr (.inl hin))
  · rw [Next.holds, (flow_of_act hout).place]
    exact Multiset.mem_add.mpr (.inl hp)

end Leaves

end OxPhp.Shared.Channel
