import OxPhp.Shared.Channel.Custody

/-!
# Where a sent payload is

Two ledgers: one follows a payload by who answers for it, the other by where it
is, in the buffer, the front stash, the hands of an operation, handed to a parked
receiver or returned by a receive.
-/

namespace OxPhp.Shared.Channel

open OxPhp.Async Interleave

/-! ## Hands -/

def Drainer.placed : Drainer → Multiset Payload
  | send p => {p}
  | register _ => 0

namespace Offerer

def carried (p : Payload) : Offerer → Multiset Payload
  | send _ => {p}
  | drain _ => 0

def placed : Offerer → Multiset Payload
  | send _ => 0
  | drain d => d.placed

def taken (p : Payload) : Offerer → Multiset Payload
  | send _ => 0
  | drain _ => {p}

end Offerer

namespace AfterWake

def placed : AfterWake → Multiset Payload
  | received _ => 0
  | sent p => {p}
  | drain d => d.placed

def taken : AfterWake → Multiset Payload
  | received p => {p}
  | sent _ => 0
  | drain _ => 0

end AfterWake

def Taker.placed : Taker → Multiset Payload
  | recv => 0
  | recvLast => 0
  | drain d => d.placed

namespace Pc

/-- The payload a send has yet to place. -/
def carried : Pc → Multiset Payload
  | sendLoadClosed _ p => {p}
  | sendIndex _ p => {p}
  | sendDeposit _ p => {p}
  | sendRollback _ p => {p}
  | pollIndex _ p => {p}
  | pollLoadClosed _ p => {p}
  | pollDeposit _ p => {p}
  | pollRollback p _ => {p}
  | offerPop k p => k.carried p
  | offerResolve k _ p => k.carried p
  | _ => 0

/-- The payload a send has placed and will report as sent. -/
def placed : Pc → Multiset Payload
  | sendBump p => {p}
  | roomBuffer p => {p}
  | roomFront p _ => {p}
  | offerPop k _ => k.placed
  | offerResolve k _ _ => k.placed
  | wakePop k => k.placed
  | wakeResolve k _ => k.placed
  | drainPeek d => d.placed
  | drainFront d => d.placed
  | drainBuffer d => d.placed
  | stashIndex d _ => d.placed
  | stashPush d _ => d.placed
  | stashBump d => d.placed
  | takenPending k _ => k.placed
  | takenIndex k _ => k.placed
  | _ => 0

/-- The item a receive or a drain has popped. -/
def taken : Pc → Multiset Payload
  | takenPending _ p => {p}
  | takenIndex _ p => {p}
  | offerPop k p => k.taken p
  | offerResolve k _ p => k.taken p
  | wakePop k => k.taken
  | wakeResolve k _ => k.taken
  | stashIndex _ p => {p}
  | stashPush _ p => {p}
  | _ => 0

end Pc

namespace Answer

def accepted : Answer → Multiset Payload
  | sent p => {p}
  | _ => 0

def refused : Answer → Multiset Payload
  | full p => {p}
  | sendClosed p => {p}
  | sendTimeout p => {p}
  | _ => 0

def got : Answer → Multiset Payload
  | received p => {p}
  | _ => 0

end Answer

def Call.offered : Call → Multiset Payload
  | trySend p => {p}
  | sendBlocking p _ => {p}
  | _ => 0

/-- A step notes the promise it hands a payload to. -/
def handover (pc : Pc) (s : State) (_ : Next Pc Answer) : List (PromiseId × Payload) :=
  match pc with
  | .offerResolve _ id p =>
    if (s.senders.resolveValue id p.bytes p.keepalive).1 then [(id, p)] else []
  | _ => []

/-! ## Steps -/

def State.items (s : State) : Multiset Payload := s.channel.buffer + s.channel.recvFront

/-- What a step does to payloads: the send that brought one still answers for
it, and it has only changed places. -/
structure Flow (s : State) (pc : Pc) (next : Next Pc Answer) (s' : State) : Prop where
  own : pc.carried + pc.placed =
    next.holds (fun pc => pc.carried + pc.placed) (fun r => r.refused + r.accepted)
  place : s.items + (pc.carried + pc.taken) =
    s'.items + next.holds (fun pc => pc.carried + pc.taken) (fun r => r.refused + r.got) +
      ((handover pc s next).map fun x => {x.2}).sum

section Steps

variable {s s' : State} {pc : Pc} {next : Next Pc Answer} {p : Payload}

theorem Flow.still (hc : pc.carried = next.holds Pc.carried Answer.refused)
    (hp : pc.placed = next.holds Pc.placed Answer.accepted)
    (ht : pc.taken = next.holds Pc.taken Answer.got) (hite : s'.items = s.items)
    (hn : handover pc s next = []) : Flow s pc next s' := by
  constructor
  · rw [hc, hp]
    cases next <;> rfl
  · rw [hc, ht, hite, hn, List.map_nil, List.sum_nil, add_zero]
    cases next <;> rfl

theorem flow_placed {full : Pc} (place : Places pc p full) :
    Flow s pc (.go (.sendBump p)) (s.set { s.channel with buffer := s.channel.buffer ++ [p] }) := by
  have hite : (s.set { s.channel with buffer := s.channel.buffer ++ [p] }).items =
      s.items + {p} := by
    simp only [State.items, State.set, ← Multiset.coe_add, Multiset.coe_singleton]
    abel
  cases place <;> refine ⟨add_comm _ _, ?_⟩
  all_goals simp [hite, handover, Next.holds, Pc.carried, Pc.taken]

theorem flow_pop {k : Taker} {c' : ChannelInner} (hc : pc.carried = 0)
    (hp : pc.placed = k.placed) (ht : pc.taken = 0) (hn : ∀ next, handover pc s next = [])
    (hite : s.items = {p} + (s.set c').items) : Flow s pc (.go (.takenPending k p)) (s.set c') := by
  constructor
  · rw [hc, hp]
    rfl
  · rw [hc, ht, hn, hite]
    simp only [Next.holds, Pc.carried, Pc.taken, List.map_nil, List.sum_nil]
    abel

theorem items_of_front {rest : List Payload} (h : s.channel.recvFront = p :: rest) :
    s.items = {p} + (s.set { s.channel with recvFront := rest }).items := by
  simp only [State.items, State.set, h, ← Multiset.cons_coe, ← Multiset.singleton_add]
  abel

theorem items_of_buffer {rest : List Payload} (h : s.channel.buffer = p :: rest) :
    s.items = {p} + (s.set { s.channel with buffer := rest }).items := by
  simp only [State.items, State.set, h, ← Multiset.cons_coe, ← Multiset.singleton_add]
  abel

theorem handover_live {k : Offerer} {id : PromiseId} (hl : s.senders.Live id) :
    handover (.offerResolve k id p) s next = [(id, p)] :=
  if_pos (Senders.resolve_fst.mpr hl)

theorem handover_dead {k : Offerer} {id : PromiseId} (hd : ¬s.senders.Live id) :
    handover (.offerResolve k id p) s next = [] :=
  if_neg fun hr => hd (Senders.resolve_fst.mp hr)

/-- **Every step only moves payloads.** -/
theorem flow_of_act (h : (next, s') ∈ act pc s) : Flow s pc next s' := by
  cases acts_of_act h with
  | placed place => exact flow_placed place
  | noRoom place => cases place <;> exact .still rfl rfl rfl rfl rfl
  | frontTaken front first =>
    cases front <;> exact flow_pop rfl rfl rfl (fun _ => rfl) (items_of_front first)
  | frontEmpty front => cases front <;> exact .still rfl rfl rfl rfl rfl
  | bufferTaken buffer _ first =>
    cases buffer <;> exact flow_pop rfl rfl rfl (fun _ => rfl) (items_of_buffer first)
  | bufferEmpty buffer => cases buffer <;> exact .still rfl rfl rfl rfl rfl
  | sendAccepted live =>
    refine ⟨add_comm _ _, ?_⟩
    rw [handover_live live]
    simp [State.items, State.resolve, Next.holds, Pc.carried, Pc.taken, Offerer.carried,
      Offerer.taken]
  | drainAccepted live =>
    refine ⟨rfl, ?_⟩
    rw [handover_live live]
    simp [State.items, State.resolve, Next.holds, Pc.carried, Pc.taken, Offerer.carried,
      Offerer.taken, AfterWake.taken]
  | offerDead dead => exact .still rfl rfl rfl rfl (handover_dead dead)
  | stashPush =>
    refine ⟨rfl, ?_⟩
    simp only [State.items, State.set, ChannelInner.pushFront, handover, Next.holds, Pc.carried,
      Pc.taken, ← Multiset.coe_add, Multiset.coe_singleton, List.map_nil, List.sum_nil]
    abel
  | _ => exact .still rfl rfl rfl rfl rfl

end Steps

/-! ## Deliveries -/

/-- Every promise handed a payload was handed one payload, and delivered it. -/
structure HandedOnce (senders : ChannelSenders) (log : List (PromiseId × Payload)) : Prop where
  sound : senders.Sound
  delivered : ∀ x ∈ log, (x.1, .value x.2.bytes x.2.keepalive) ∈ senders.delivered
  once : (log.map Prod.fst).Nodup

section Deliveries

variable {senders : ChannelSenders} {log : List (PromiseId × Payload)} {id : PromiseId}
  {payload : PromisePayload (List SharedRef)}

theorem HandedOnce.resolve (h : HandedOnce senders log) :
    HandedOnce (senders.resolve id payload).2 log where
  sound := h.sound.resolve
  delivered := fun x hx => Senders.mem_delivered_resolve.mpr (.inl (h.delivered x hx))
  once := h.once

theorem HandedOnce.alloc (h : HandedOnce senders log) : HandedOnce senders.alloc.2 log where
  sound := h.sound.alloc
  delivered := h.delivered
  once := h.once

theorem HandedOnce.dropReceiver (h : HandedOnce senders log) :
    HandedOnce (senders.dropReceiver id) log where
  sound := h.sound.dropReceiver
  delivered := h.delivered
  once := h.once

theorem HandedOnce.deliver {p : Payload} (h : HandedOnce senders log) (hl : senders.Live id) :
    HandedOnce (senders.resolve id (.value p.bytes p.keepalive)).2 (log ++ [(id, p)]) := by
  have hr : HandedOnce (senders.resolve id (.value p.bytes p.keepalive)).2 log := h.resolve
  refine ⟨hr.sound, fun x hx => ?_, ?_⟩
  · rcases List.mem_append.mp hx with hx | hx
    · exact hr.delivered x hx
    · cases List.mem_singleton.mp hx
      exact Senders.mem_delivered_resolve.mpr (.inr ⟨rfl, hl⟩)
  · rw [List.map_append, List.map_singleton, List.nodup_append]
    refine ⟨h.once, List.nodup_singleton _, fun x hx y hy => ?_⟩
    rintro rfl
    cases List.mem_singleton.mp hy
    obtain ⟨entry, he, rfl⟩ := List.mem_map.mp hx
    exact h.sound.apart _ (h.delivered entry he) hl.unresolved

theorem HandedOnce.handles {s s' : State} {pc : Pc} (hh : Handles s pc s')
    (h : HandedOnce s.senders log) : HandedOnce s'.senders log := by
  cases hh with
  | same senders made => exact senders ▸ h
  | resolve held senders made => exact senders ▸ h.resolve
  | alloc senders made => exact senders ▸ h.alloc

theorem HandedOnce.act {s s' : State} {pc : Pc} {next : Next Pc Answer}
    (hout : (next, s') ∈ act pc s) (h : HandedOnce s.senders log) :
    HandedOnce s'.senders (log ++ handover pc s next) := by
  by_cases hn : ∃ k id p, pc = .offerResolve k id p ∧
      (s.senders.resolveValue id p.bytes p.keepalive).1 = true
  · obtain ⟨k, id, p, rfl, hr⟩ := hn
    rw [handover, if_pos hr]
    cases List.mem_singleton.mp hout
    exact h.deliver (Senders.resolve_fst.mp hr)
  · have hno : handover pc s next = [] := by
      cases pc with
      | offerResolve k id p => exact if_neg fun hr => hn ⟨k, id, p, rfl, hr⟩
      | _ => rfl
    rw [hno, List.append_nil]
    exact h.handles (custody_of_act hout).handles

end Deliveries

/-! ## Runs -/

/-- The payloads that sends have placed: those reported as sent, and those of
sends that will report so. -/
def accepted (c : Conf) : Multiset Payload :=
  c.wentBack Answer.accepted + c.inHands Pc.placed

def offered (moves : List (Move Call Interference)) : Multiset Payload :=
  ((calls moves).map Call.offered).sum

def handed (capacity : Nat) (moves : List (Move Call Interference)) : List (PromiseId × Payload) :=
  machine.log handover (start capacity) moves

/-- Who answers for a payload: the send that brought it. -/
def ownership : Ledger machine handover (fun _ _ => True) (Multiset Payload) where
  brings := Call.offered
  here := fun _ => 0
  hand := fun pc => pc.carried + pc.placed
  back := fun r => r.refused + r.accepted
  left := fun _ => 0
  call := fun k => by cases k <;> rfl
  env := fun _ _ => rfl
  act := fun c pc next shared _ hout => by
    rw [(flow_of_act hout).own]
    simp

/-- Where a payload is. -/
def whereabouts : Ledger machine handover (fun _ _ => True) (Multiset Payload) where
  brings := Call.offered
  here := State.items
  hand := fun pc => pc.carried + pc.taken
  back := fun r => r.refused + r.got
  left := fun x => {x.2}
  call := fun k => by cases k <;> rfl
  env := fun e _ => by cases e <;> rfl
  act := fun _ _ _ _ _ hout => (flow_of_act hout).place

section Runs

variable {capacity : Nat} {moves : List (Move Call Interference)} {c : Conf}

theorem offered_eq (hrun : machine.run (start capacity) moves = some c) :
    offered moves = c.inHands Pc.carried + c.wentBack Answer.refused + accepted c := by
  have hb := ownership.balanced (Machine.along_true moves (start capacity)) hrun
  have hl : ((machine.log handover (start capacity) moves).map fun _ => (0 : Multiset Payload)).sum
      = 0 := by
    simp
  have hs : ownership.holds (start capacity) = 0 := rfl
  rw [hs, zero_add] at hb
  rw [offered, accepted]
  refine hb.trans ?_
  simp only [ownership, Ledger.holds, Config.inHands, Config.wentBack, List.sum_map_add, hl]
  abel

theorem offered_eq_places (hrun : machine.run (start capacity) moves = some c) :
    offered moves = c.inHands Pc.carried + c.wentBack Answer.refused +
      (c.shared.items + c.inHands Pc.taken + c.wentBack Answer.got +
        ((handed capacity moves).map Prod.snd : List Payload)) := by
  have hb := whereabouts.balanced (Machine.along_true moves (start capacity)) hrun
  have hl : ((machine.log handover (start capacity) moves).map fun x => {x.2}).sum =
      (((handed capacity moves).map Prod.snd : List Payload) : Multiset Payload) := by
    rw [handed]
    induction machine.log handover (start capacity) moves with
    | nil => rfl
    | cons x rest ih => rw [List.map_cons, List.sum_cons, ih, List.map_cons, ← Multiset.cons_coe,
        Multiset.singleton_add]
  have hs : whereabouts.holds (start capacity) = 0 := rfl
  rw [hs, zero_add] at hb
  refine hb.trans ?_
  simp only [whereabouts, Ledger.holds, Config.inHands, Config.wentBack, List.sum_map_add, hl]
  abel

theorem placed_eq (hrun : machine.run (start capacity) moves = some c) :
    accepted c = c.shared.channel.buffer + c.shared.channel.recvFront + c.inHands Pc.taken +
      ((handed capacity moves).map Prod.snd : List Payload) + c.wentBack Answer.got := by
  have hs : accepted c = c.shared.items + c.inHands Pc.taken + c.wentBack Answer.got +
      ((handed capacity moves).map Prod.snd : List Payload) :=
    add_left_cancel ((offered_eq hrun).symm.trans (offered_eq_places hrun))
  rw [hs, State.items]
  exact add_right_comm _ _ _

theorem handedOnce (hrun : machine.run (start capacity) moves = some c) :
    HandedOnce c.shared.senders (handed capacity moves) := by
  let P (c : Conf) (_ : List Call) (log : List (PromiseId × Payload)) : Prop :=
    HandedOnce c.shared.senders log
  have hs : P (start capacity) [] [] := ⟨Senders.sound_empty, nofun, List.nodup_nil⟩
  have hst : ∀ c c' made noted made' noted', P c made noted →
      machine.Notes handover (fun _ _ => True) c c' made' noted' →
      P c' (made ++ made') (noted ++ noted') := by
    intro c₁ c₂ made noted made' noted' h hn
    cases hn with
    | call k =>
      dsimp only [P]
      rw [List.append_nil]
      exact h
    | env e =>
      dsimp only [P]
      rw [List.append_nil]
      cases e with
      | cancel id => exact HandedOnce.resolve h
      | dropReceiver id => exact HandedOnce.dropReceiver h
    | act hrunning hmet hout => exact HandedOnce.act hout h
  exact Machine.run_log hst hs (Machine.along_true moves (start capacity)) hrun

/-- **A sent payload is in one place.**  After every schedule, what the sends
have placed is the buffer, the front stash, what receives and drains in progress
hold, what was handed to parked receivers and what receives returned, each
payload as often as it was sent.  Every other payload brought by a send is still
carried by it or went back refused, and each hand-over is a delivery on a
promise of its own. -/
theorem payload_in_one_place (capacity : Nat) (moves : List (Move Call Interference)) (c : Conf)
    (hrun : machine.run (start capacity) moves = some c) :
    accepted c = c.shared.channel.buffer + c.shared.channel.recvFront + c.inHands Pc.taken +
        ((handed capacity moves).map Prod.snd : List Payload) + c.wentBack Answer.got ∧
      offered moves = c.inHands Pc.carried + c.wentBack Answer.refused + accepted c ∧
      ((handed capacity moves).map Prod.fst).Nodup ∧ ∀ x ∈ handed capacity moves,
        (x.1, .value x.2.bytes x.2.keepalive) ∈ c.shared.senders.delivered := by
  have ho := handedOnce hrun
  exact ⟨placed_eq hrun, offered_eq hrun, ho.once, ho.delivered⟩

/-- A receiver parks and is handed the first payload; the second is buffered and
received. -/
def handedThenBuffered : List (Move Call Interference) :=
  alone .recvFiberRegister 6 ++ alone (.trySend ⟨[97], []⟩) 6 ++ alone (.trySend ⟨[98], []⟩) 6 ++
    alone .tryRecv 5

theorem payload_in_one_place_handedThenBuffered :
    handed 1 handedThenBuffered = [(-9223372036854775807, ⟨[97], []⟩)] ∧
      ∃ c, machine.run (start 1) handedThenBuffered = some c ∧
        c.returned.drop 1 = [.sent ⟨[97], []⟩, .sent ⟨[98], []⟩, .received ⟨[98], []⟩] ∧
        accepted c = c.shared.channel.buffer + c.shared.channel.recvFront + c.inHands Pc.taken +
          ((handed 1 handedThenBuffered).map Prod.snd : List Payload) + c.wentBack Answer.got := by
  refine ⟨rfl, _, rfl, rfl, ?_⟩
  exact (payload_in_one_place 1 handedThenBuffered _ rfl).1

end Runs

end OxPhp.Shared.Channel
