import OxPhp.Shared.Channel.Pair

/-!
# The order of delivery

As long as nobody takes an item past an older one, the items sent are those
received, those on their way to the consumer, the one a drain holds, the stash and
the buffer, in this order.
-/

namespace OxPhp.Shared.Channel

open OxPhp.Async Interleave

/-- The step takes no item, and hands none over, past an older one: the other
party holds none, an item leaves the buffer when the stash is empty, and a send
hands its payload over when the channel is. -/
structure InTurn (s : State) (other : Party) (pc : Pc) : Prop where
  front : pc.popsFront = true → s.channel.recvFront ≠ [] → other.holding = []
  buffer : pc.popsBuffer = true → s.channel.buffer ≠ [] →
    other.holding = [] ∧ s.channel.recvFront = []
  handOver : pc.unparks = true → s.channel.recvWaiters ≠ [] →
    other.holding = [] ∧ s.channel.recvFront = [] ∧ s.channel.buffer = []

instance (s : State) (other : Party) (pc : Pc) : Decidable (InTurn s other pc) :=
  decidable_of_iff
    ((pc.popsFront = true → s.channel.recvFront ≠ [] → other.holding = []) ∧
      (pc.popsBuffer = true → s.channel.buffer ≠ [] →
        other.holding = [] ∧ s.channel.recvFront = []) ∧
      (pc.unparks = true → s.channel.recvWaiters ≠ [] →
        other.holding = [] ∧ s.channel.recvFront = [] ∧ s.channel.buffer = []))
    ⟨fun h => ⟨h.1, h.2.1, h.2.2⟩, fun h => ⟨h.front, h.buffer, h.handOver⟩⟩

/-- The party's next step, if it takes one, is in turn. -/
def Party.InTurn (party : Party) (s : State) (other : Party) : Prop :=
  match party with
  | op pc => Channel.InTurn s other pc
  | _ => True

instance (s : State) (other party : Party) : Decidable (party.InTurn s other) :=
  match party with
  | .op pc => inferInstanceAs (Decidable (InTurn s other pc))
  | .idle => .isTrue trivial
  | .awaiting _ => .isTrue trivial

/-- The step the move makes is in turn. -/
def Pair.InTurn : PairMove → Pair → Prop
  | .producer _, s => s.producer.InTurn s.shared s.consumer
  | .consumer _, s => s.consumer.InTurn s.shared s.producer
  | _, _ => True

instance (m : PairMove) (s : Pair) : Decidable (Pair.InTurn m s) :=
  match m with
  | .producer _ => inferInstanceAs (Decidable (s.producer.InTurn s.shared s.consumer))
  | .consumer _ => inferInstanceAs (Decidable (s.consumer.InTurn s.shared s.producer))
  | .send _ _ | .recv _ | .register => .isTrue trivial

/-! ## Steps -/

section Steps

variable {s s' : State} {pc : Pc} {next : Next Pc Answer}

theorem Shift.side (h : Shift s pc next s') : ∀ pc' ∈ next.pcs, pc'.side = pc.side := by
  intro pc' hpc'
  cases h with
  | still load goesOn front buffer quiet => exact (goesOn pc' hpc').1
  | alloc at_alloc goes =>
    subst at_alloc goes
    cases List.mem_singleton.mp hpc'
    rfl
  | place load side goes =>
    subst goes
    cases List.mem_singleton.mp hpc'
    exact side.symm
  | popFront pops at_front first goes | popBuffer pops at_buffer first goes =>
    subst goes
    cases List.mem_singleton.mp hpc'
    exact pops.side.symm
  | putBack at_stash goes =>
    subst at_stash goes
    cases List.mem_singleton.mp hpc'
    rfl
  | unpark at_offer first goes =>
    subst at_offer goes
    cases List.mem_singleton.mp hpc'
    rfl
  | @deliver k id p at_resolve live goes =>
    subst at_resolve goes
    cases List.mem_singleton.mp hpc'
    cases k <;> rfl

theorem Shift.sound (h : Shift s pc next s') (hs : s.senders.Sound) : s'.senders.Sound := by
  cases h with
  | still load goesOn front buffer quiet => exact quiet.sound hs
  | alloc at_alloc goes => exact hs.alloc
  | deliver at_resolve live goes => exact hs.resolve
  | _ => exact hs

theorem Shift.live (h : Shift s pc next s') {id : PromiseId} (hl : s'.senders.Live id) :
    s.senders.Live id ∨ (pc = .recvAlloc ∧ (loadOf next).registers = some id) := by
  cases h with
  | still load goesOn front buffer quiet => exact .inl (quiet.live id hl)
  | alloc at_alloc goes =>
    by_cases hnew : id = s.senders.alloc.1
    · subst goes hnew
      exact .inr ⟨at_alloc, rfl⟩
    · exact .inl ((Senders.live_alloc hnew).mp hl)
  | @deliver k id' p at_resolve live goes =>
    have hne : id ≠ id' := (Senders.unresolved_resolve.mp hl.unresolved).2
    exact .inl ((Senders.live_resolve hne).mp hl)
  | _ => exact .inl hl

theorem Shift.registers (h : Shift s pc next s') (hpc : pc ≠ .recvAlloc) :
    (loadOf next).registers = pc.registers := by
  cases h with
  | still load goesOn front buffer quiet => rw [load]; rfl
  | alloc at_alloc goes => exact absurd at_alloc hpc
  | place load side goes =>
    subst goes
    exact (congrArg Load.registers load).symm
  | popFront pops at_front first goes | popBuffer pops at_buffer first goes =>
    subst goes
    exact pops.registers _
  | putBack at_stash goes =>
    subst at_stash goes
    rfl
  | unpark at_offer first goes =>
    subst at_offer goes
    rfl
  | @deliver k id p at_resolve live goes =>
    subst at_resolve goes
    cases k <;> rfl

theorem opened_of_act (ho : s.channel.closed = false)
    (hn : s.channel.sendWaiters.ids = []) (hs : pc.side ≠ none) (h : (next, s') ∈ act pc s) :
    s'.channel.closed = false ∧ s'.channel.sendWaiters.ids = [] := by
  cases acts_of_act h with
  | waking first =>
    rw [hn] at first
    cases first
  | bankedReceived none | bankedSent none | bankedDrain none | closeSweepSend => exact ⟨ho, rfl⟩
  | parked opened credits | closeSwap opened => exact absurd rfl hs
  | _ => exact ⟨ho, hn⟩

/-! ### The party after its step -/

theorem after_reporting : next.answers.flatMap Answer.sends ++ (Party.after next).reporting =
      (loadOf next).reporting := by
  cases next with
  | go pc => rfl
  | ret r => cases r <;> rfl

theorem after_holding : (Party.after next).holding = (loadOf next).holding := by
  cases next with
  | go pc => rfl
  | ret r => cases r <;> rfl

theorem after_returning : next.answers.flatMap Answer.receives ++ (Party.after next).returning =
      (loadOf next).returning := by
  cases next with
  | go pc => rfl
  | ret r => cases r <;> rfl

theorem after_awaits : (Party.after next).awaits = (loadOf next).registers := by
  cases next with
  | go pc => rfl
  | ret r => cases r <;> rfl

theorem after_eq_op (h : Party.after next = .op pc) : next = .go pc := by
  cases next with
  | go pc' =>
    cases h
    rfl
  | ret r => cases r <;> cases h

end Steps

namespace Pair

/-! ## Who does what -/

/-- The channel is open and no sender is parked; each party takes its own steps;
a promise that can still be resolved is the one the consumer registers or waits
on. -/
structure Roles (s : Pair) : Prop where
  opened : s.shared.channel.closed = false
  noSender : s.shared.channel.sendWaiters.ids = []
  sound : s.shared.senders.Sound
  producer : ∀ pc, s.producer = .op pc → pc.side = some .producer
  consumer : ∀ pc, s.consumer = .op pc → pc.side = some .consumer
  live : ∀ id, s.shared.senders.Live id → s.consumer.awaits = some id

/-- Where the items sent are, oldest first.  At most one is out of the buffer on
behalf of a parked receiver, and a send hands its payload over only when no other
item is left. -/
structure Line (s : Pair) : Prop where
  few : (s.producer.holding ++ s.consumer.holding ++ s.shared.channel.recvFront).length ≤ 1
  direct : s.producer.direct = true → s.shared.channel.buffer = [] ∧
    s.shared.channel.recvFront = [] ∧ s.consumer.holding = []
  order : s.received ++ s.shared.due s.consumer ++ s.producer.holding ++ s.consumer.holding ++
    s.shared.channel.recvFront ++ s.shared.channel.buffer = s.sent ++ s.producer.reporting

section Step

variable {s : Pair} {pc : Pc} {next : Next Pc Answer} {shared : State}

/-- A step of the producer leaves each party its own steps. -/
theorem Roles.produce (h : Roles s) (hpc : s.producer = .op pc)
    (hout : (next, shared) ∈ act pc s.shared) (sent : List Payload) :
    Roles { s with shared := shared, producer := .after next, sent := sent } := by
  have hs : pc.side = some .producer := h.producer pc hpc
  have hsh := shift_of_act h.opened h.noSender (by simp [hs]) hout
  obtain ⟨ho, hn⟩ := opened_of_act h.opened h.noSender (by simp [hs]) hout
  refine ⟨ho, hn, hsh.sound h.sound, fun pc' hpc' => ?_, h.consumer, fun id hl => ?_⟩
  · cases after_eq_op hpc'
    rw [hsh.side pc' (List.mem_singleton_self pc'), hs]
  · rcases hsh.live hl with hl | ⟨rfl, -⟩
    · exact h.live id hl
    · cases hs

/-- A step of the consumer leaves each party its own steps. -/
theorem Roles.consume (h : Roles s) (hpc : s.consumer = .op pc)
    (hout : (next, shared) ∈ act pc s.shared) (received : List Payload) :
    Roles { s with shared := shared, consumer := .after next, received := received } := by
  have hs : pc.side = some .consumer := h.consumer pc hpc
  have hsh := shift_of_act h.opened h.noSender (by simp [hs]) hout
  obtain ⟨ho, hn⟩ := opened_of_act h.opened h.noSender (by simp [hs]) hout
  refine ⟨ho, hn, hsh.sound h.sound, h.producer, fun pc' hpc' => ?_, fun id hl => ?_⟩
  · cases after_eq_op hpc'
    rw [hsh.side pc' (List.mem_singleton_self pc'), hs]
  · rw [after_awaits]
    rcases hsh.live hl with hl | ⟨-, hr⟩
    · have ha : pc.registers = some id := by
        have := h.live id hl
        rwa [hpc] at this
      have hne : pc ≠ .recvAlloc := by
        rintro rfl
        cases ha
      rw [hsh.registers hne, ha]
    · exact hr

/-! ## What is due to the consumer -/

theorem returning_of_registers {id : PromiseId} (h : pc.registers = some id) :
    pc.returning = [] := by
  cases pc with
  | takenPending k p | takenIndex k p | wakePop k | wakeResolve k id' =>
    cases k <;> first | rfl | cases h
  | _ => rfl

theorem returning_of_awaits {party : Party} {id : PromiseId} (h : party.awaits = some id) :
    party.returning = [] := by
  cases party with
  | idle => rfl
  | op pc => exact returning_of_registers h
  | awaiting id' => rfl

theorem deliveredTo_of_live {s : State} {id : PromiseId} (hs : s.senders.Sound)
    (hl : s.senders.Live id) : s.deliveredTo id = [] := by
  rw [State.deliveredTo, hs.lookup hl.unresolved]

theorem Roles.due_of_live (h : Roles s) {id : PromiseId} (hl : s.shared.senders.Live id) :
    s.shared.due s.consumer = [] := by
  have ha := h.live id hl
  rw [State.due, returning_of_awaits ha, ha, Option.elim_some,
    deliveredTo_of_live h.sound hl]
  rfl

theorem due_resolve {s : State} {id : PromiseId} {p : Payload} {party : Party}
    (hl : s.senders.Live id) (ha : party.awaits = some id) :
    (s.resolve id (.value p.bytes p.keepalive)).due party = [p] := by
  rw [State.due, returning_of_awaits ha, ha, Option.elim_some, State.deliveredTo,
    State.resolve, Senders.lookup_resolve_self hl]
  rfl

theorem due_congr {s s' : State} {party : Party}
    (h : s'.senders.delivered = s.senders.delivered) : s'.due party = s.due party := by
  rw [State.due, State.due]
  congr 2
  funext id
  rw [State.deliveredTo, State.deliveredTo, h]

/-! ## The line -/

theorem direct_after (hp : ∀ pc' ∈ next.pcs, pc'.direct = false) :
    (Party.after next).direct = false := by
  cases next with
  | go pc' => exact hp pc' (List.mem_singleton_self pc')
  | ret r => cases r <;> rfl

@[simp] theorem channel_set (s : State) (c : ChannelInner) : (s.set c).channel = c := rfl

@[simp] theorem channel_resolve (s : State) (id : PromiseId)
    (payload : PromisePayload (List SharedRef)) : (s.resolve id payload).channel = s.channel := rfl

@[simp] theorem after_go (pc : Pc) : Party.after (.go pc) = .op pc := rfl

@[simp] theorem due_set (s : State) (c : ChannelInner) (party : Party) :
    (s.set c).due party = s.due party := rfl

theorem drain_of_producer {k : Taker} (h : k.side = .producer) : ∃ d, k = .drain d := by
  cases k with
  | recv | recvLast => cases h
  | drain d => exact ⟨d, rfl⟩

/-- A step of the producer that is in turn keeps the items in line, whatever it moves. -/
theorem Line.produce (h : Line s) (hr : Roles s) (hpc : s.producer = .op pc)
    (ht : Channel.InTurn s.shared s.consumer pc) (hout : (next, shared) ∈ act pc s.shared) :
    Line { s with
      shared := shared
      producer := .after next
      sent := s.sent ++ next.answers.flatMap Answer.sends } := by
  have hs : pc.side = some .producer := hr.producer pc hpc
  have hfew : (pc.holding ++ s.consumer.holding ++ s.shared.channel.recvFront).length ≤ 1 := by
    simpa only [hpc, Party.holding_op] using h.few
  have ho : s.received ++ s.shared.due s.consumer ++ pc.holding ++ s.consumer.holding ++
      s.shared.channel.recvFront ++ s.shared.channel.buffer = s.sent ++ pc.reporting := by
    simpa only [hpc, Party.holding_op, Party.reporting_op] using h.order
  cases shift_of_act hr.opened hr.noSender (by simp [hs]) hout with
  | still load goesOn front buffer quiet =>
    have hp : (Party.after next).direct = false :=
      direct_after fun pc' hpc' => (goesOn pc' hpc').2
    refine ⟨?_, ?_, ?_⟩
    · rw [after_holding, load, front]
      exact hfew
    · rw [hp]
      intros; contradiction
    · rw [List.append_assoc s.sent, after_reporting, after_holding, load, front, buffer,
        due_congr quiet.delivered]
      exact ho
  | alloc at_alloc goes =>
    subst at_alloc
    cases hs
  | @place p load side goes =>
    subst goes
    have hh : pc.holding = [] := congrArg Load.holding load
    have hre : pc.reporting = [] := congrArg Load.reporting load
    rw [hh] at hfew ho
    rw [hre, List.append_nil] at ho
    refine ⟨hfew, (by intros; contradiction), ?_⟩
    simp [Pc.holding, Pc.reporting, ← ho]
  | @popFront k p rest pops at_front first goes =>
    subst goes
    obtain ⟨d, rfl⟩ := drain_of_producer (Option.some.inj (pops.side.symm.trans hs))
    have hot : s.consumer.holding = [] := ht.front at_front (by simp [first])
    rw [pops.holding, hot, first] at hfew ho
    refine ⟨?_, (by intros; contradiction), ?_⟩
    · simpa [Pc.holding, hot] using hfew
    · simpa [Pc.holding, hot, pops.reporting p] using ho
  | @popBuffer k p rest pops at_buffer first goes =>
    subst goes
    obtain ⟨d, rfl⟩ := drain_of_producer (Option.some.inj (pops.side.symm.trans hs))
    obtain ⟨hot, hf⟩ := ht.buffer at_buffer (by simp [first])
    rw [pops.holding, hot, hf, first] at ho
    refine ⟨?_, (by intros; contradiction), ?_⟩
    · simp [Pc.holding, hot, hf]
    · simpa [Pc.holding, hot, hf, pops.reporting p] using ho
  | @putBack d p at_stash goes =>
    subst at_stash goes
    obtain ⟨hot, hf⟩ : s.consumer.holding = [] ∧ s.shared.channel.recvFront = [] := by
      simpa [Pc.holding] using hfew
    rw [hot, hf] at ho
    refine ⟨?_, (by intros; contradiction), ?_⟩
    · simp [Pc.holding, hot, hf, ChannelInner.pushFront]
    · simpa [Pc.holding, hot, hf, ChannelInner.pushFront, Pc.reporting, Pc.drainer]
        using ho
  | @unpark mode id p rest at_offer first goes =>
    subst at_offer goes
    obtain ⟨hot, hf, hb⟩ := ht.handOver rfl (by simp [first])
    refine ⟨hfew, fun _ => ⟨hb, hf, hot⟩, ?_⟩
    simpa [Pc.holding, Pc.reporting, Pc.drainer] using ho
  | @deliver k id p at_resolve live goes =>
    subst at_resolve goes
    have hdue : (s.shared.resolve id (.value p.bytes p.keepalive)).due s.consumer = [p] :=
      due_resolve live (hr.live id live)
    rw [hr.due_of_live live] at ho
    cases k with
    | drain d =>
      obtain ⟨hot, hf⟩ : s.consumer.holding = [] ∧ s.shared.channel.recvFront = [] := by
        simpa [Pc.holding] using hfew
      rw [hot, hf] at ho
      refine ⟨?_, (by intros; contradiction), ?_⟩
      · simp [Pc.accepted, Pc.holding, hot, hf]
      · simpa [Pc.accepted, Pc.holding, hot, hf, hdue, Pc.reporting, Pc.drainer] using ho
    | send mode =>
      obtain ⟨hb, hf, hot⟩ := h.direct (by rw [hpc]; rfl)
      rw [hot, hf, hb] at ho
      refine ⟨?_, (by intros; contradiction), ?_⟩
      · simp [Pc.accepted, Pc.holding, hot, hf]
      · simpa [Pc.accepted, Pc.holding, hot, hf, hb, hdue, Pc.reporting, Pc.drainer]
          using ho

theorem due_op (s : State) (pc : Pc) :
    s.due (.op pc) = pc.returning ++ pc.registers.elim [] s.deliveredTo := rfl

theorem due_after (s : State) (next : Next Pc Answer) :
    next.answers.flatMap Answer.receives ++ s.due (.after next) =
      (loadOf next).returning ++ (loadOf next).registers.elim [] s.deliveredTo := by
  rw [State.due, ← List.append_assoc, after_returning, after_awaits]

theorem due_taken {k : Taker} (hp : Pops pc k) (s : State) (p : Payload) :
    s.due (.op (.takenPending k p)) ++ (Pc.takenPending k p).holding = s.due (.op pc) ++ [p] := by
  rw [due_op, due_op, hp.registers p, hp.returning]
  cases k with
  | recv | recvLast =>
    have hn : pc.registers = none := (hp.registers p).symm
    simp [hn, Pc.returning, Pc.holding]
  | drain d => rfl

theorem nil_of_few {held front : List Payload} {p : Payload}
    (h : (held ++ [p] ++ front).length ≤ 1) : held = [] ∧ front = [] := by
  simp only [List.length_append, List.length_singleton] at h
  exact ⟨List.eq_nil_of_length_eq_zero (by omega), List.eq_nil_of_length_eq_zero (by omega)⟩

theorem holding_taken_le (k : Taker) (p : Payload) : (Pc.takenPending k p).holding.length ≤ 1 := by
  cases k <;> simp [Pc.holding]

/-- A step of the consumer that is in turn keeps the items in line, whatever it moves. -/
theorem Line.consume (h : Line s) (hr : Roles s) (hpc : s.consumer = .op pc)
    (ht : Channel.InTurn s.shared s.producer pc) (hout : (next, shared) ∈ act pc s.shared) :
    Line { s with
      shared := shared
      consumer := .after next
      received := s.received ++ next.answers.flatMap Answer.receives } := by
  have hs : pc.side = some .consumer := hr.consumer pc hpc
  have hfew : (s.producer.holding ++ pc.holding ++ s.shared.channel.recvFront).length ≤ 1 := by
    simpa only [hpc, Party.holding_op] using h.few
  have hdirect : s.producer.direct = true → s.shared.channel.buffer = [] ∧
      s.shared.channel.recvFront = [] ∧ pc.holding = [] := by
    simpa only [hpc, Party.holding_op] using h.direct
  have ho : s.received ++ s.shared.due (.op pc) ++ s.producer.holding ++ pc.holding ++
      s.shared.channel.recvFront ++ s.shared.channel.buffer =
        s.sent ++ s.producer.reporting := by
    simpa only [hpc, Party.holding_op] using h.order
  cases shift_of_act hr.opened hr.noSender (by simp [hs]) hout with
  | still load goesOn front buffer quiet =>
    have hdue : (s.received ++ next.answers.flatMap Answer.receives) ++ shared.due (.after next) =
        s.received ++ s.shared.due (.op pc) := by
      rw [List.append_assoc, due_after, load, ← due_congr quiet.delivered]
      rfl
    refine ⟨?_, ?_, ?_⟩
    · rw [after_holding, load, front]
      exact hfew
    · rw [after_holding, load, front, buffer]
      exact hdirect
    · rw [hdue, after_holding, load, front, buffer]
      exact ho
  | alloc at_alloc goes =>
    subst at_alloc goes
    have hn : State.deliveredTo { s.shared with senders := s.shared.senders.alloc.2 }
        s.shared.senders.alloc.1 = [] :=
      deliveredTo_of_live hr.sound.alloc Senders.live_alloc_self
    refine ⟨hfew, hdirect, ?_⟩
    simpa [due_op, Pc.returning, Pc.registers, Pc.drainer, Pc.holding, hn] using ho
  | place load side goes =>
    rw [hs] at side
    cases side
  | @popFront k p rest pops at_front first goes =>
    subst goes
    have hot : s.producer.holding = [] := ht.front at_front (by simp [first])
    have hp : s.producer.direct ≠ true := by
      intro hp
      simp [(hdirect hp).2.1] at first
    rw [pops.holding, hot, first] at hfew ho
    refine ⟨?_, fun h => absurd h hp, ?_⟩
    · have hone := holding_taken_le k p
      simp only [after_go, Party.holding_op, channel_set, hot, List.nil_append,
        List.length_append, List.length_cons] at hfew ⊢
      omega
    · simp only [after_go, Party.holding_op, channel_set, due_set, hot, List.append_nil,
        Next.answers_go, List.flatMap_nil]
      rw [List.append_assoc s.received, due_taken pops, ← ho]
      simp
  | @popBuffer k p rest pops at_buffer first goes =>
    subst goes
    obtain ⟨hot, hf⟩ := ht.buffer at_buffer (by simp [first])
    have hp : s.producer.direct ≠ true := by
      intro hp
      simp [(hdirect hp).1] at first
    rw [pops.holding, hot, hf, first] at ho
    refine ⟨?_, fun h => absurd h hp, ?_⟩
    · have hone := holding_taken_le k p
      simpa [hot, hf] using hone
    · simp only [after_go, Party.holding_op, channel_set, due_set, hot, hf, List.append_nil,
        Next.answers_go, List.flatMap_nil]
      rw [List.append_assoc s.received, due_taken pops, ← ho]
      simp
  | @putBack d p at_stash goes =>
    subst at_stash goes
    obtain ⟨hot, hf⟩ := nil_of_few hfew
    have hp : s.producer.direct ≠ true := fun h => by cases (hdirect h).2.2
    rw [hot, hf] at ho
    refine ⟨?_, fun h => absurd h hp, ?_⟩
    · simp [Pc.holding, hot, hf, ChannelInner.pushFront]
    · have hdue : s.shared.due (.op (.stashBump d)) = s.shared.due (.op (.stashPush d p)) := rfl
      simpa [Pc.holding, hot, hf, ChannelInner.pushFront, hdue] using ho
  | @unpark mode id p rest at_offer first goes =>
    subst at_offer
    cases hs
  | @deliver k id p at_resolve live goes =>
    subst at_resolve goes
    have ha := hr.live id live
    have hn := hr.due_of_live live
    rw [hpc] at ha hn
    rw [hn] at ho
    cases k with
    | send mode => cases hs
    | drain d =>
      obtain ⟨hot, hf⟩ := nil_of_few hfew
      have hp : s.producer.direct ≠ true := fun h => by cases (hdirect h).2.2
      have hdue : (s.shared.resolve id (.value p.bytes p.keepalive)).due
          (.op (.wakePop (.drain d))) = [p] := due_resolve live ha
      rw [hot, hf] at ho
      refine ⟨?_, fun h => absurd h hp, ?_⟩
      · simp [Pc.accepted, Pc.holding, hot, hf]
      · simpa [Pc.accepted, Pc.holding, hot, hf, hdue] using ho

/-! ## Runs -/

/-- What every step in turn keeps. -/
structure Inv (s : Pair) : Prop where
  roles : Roles s
  line : Line s

theorem due_awaiting (s : State) (id : PromiseId) : s.due (.awaiting id) = s.deliveredTo id := rfl

theorem Inv.cancelled (h : Inv s) {id : PromiseId} (hc : s.consumer = .awaiting id)
    (hn : s.shared.senders.delivered.lookup id = none) :
    Inv { s with shared := interfere (.cancel id) s.shared } := by
  have hdue : (s.shared.resolve id .cancelled).due s.consumer = s.shared.due s.consumer := by
    rw [hc, due_awaiting, due_awaiting, State.deliveredTo, State.deliveredTo, hn]
    by_cases hl : s.shared.senders.Live id
    · rw [State.resolve, Senders.lookup_resolve_self hl]
    · rw [State.resolve, Senders.delivered_resolve hl, hn]
  refine ⟨⟨h.roles.opened, h.roles.noSender, h.roles.sound.resolve, h.roles.producer,
    h.roles.consumer, fun x hx => ?_⟩, ⟨h.line.few, h.line.direct, ?_⟩⟩
  · have hne : x ≠ id := (Senders.unresolved_resolve.mp hx.unresolved).2
    exact h.roles.live x ((Senders.live_resolve hne).mp hx)
  · have ho := h.line.order
    rw [← hdue] at ho
    exact ho

/-- A consumer that stops waiting takes what was delivered to it. -/
theorem Line.stopWaiting (h : Line s) {id : PromiseId} (hc : s.consumer = .awaiting id)
    {received : List Payload} (hr : received = s.received ++ s.shared.deliveredTo id)
    {shared : State} (hs : shared.channel = s.shared.channel) :
    Line { s with shared := shared, consumer := .idle, received := received } := by
  obtain ⟨hfew, hdirect, ho⟩ := h
  rw [hc, ← hs] at hfew hdirect ho
  rw [due_awaiting, ← hr] at ho
  refine ⟨hfew, hdirect, ?_⟩
  have hid : shared.due .idle = [] := rfl
  rw [hid, List.append_nil]
  exact ho

theorem Inv.torn (h : Inv s) {id : PromiseId} (hc : s.consumer = .awaiting id)
    (hn : s.shared.senders.delivered.lookup id = none) :
    Inv { s with shared := interfere (.dropReceiver id) s.shared, consumer := .idle } := by
  have hr : s.received = s.received ++ s.shared.deliveredTo id := by
    rw [State.deliveredTo, hn, List.append_nil]
  refine ⟨⟨h.roles.opened, h.roles.noSender, h.roles.sound.dropReceiver, h.roles.producer, nofun,
    fun x hx => ?_⟩, h.line.stopWaiting hc hr rfl⟩
  obtain ⟨hl, hne⟩ := Senders.live_dropReceiver.mp hx
  have ha := h.roles.live x hl
  rw [hc] at ha
  cases ha
  exact absurd rfl hne

theorem Inv.resumed (h : Inv s) {id : PromiseId} (hc : s.consumer = .awaiting id)
    (hs : s.shared.senders.delivered.lookup id ≠ none) :
    Inv { s with consumer := .idle, received := s.received ++ s.shared.deliveredTo id } := by
  refine ⟨⟨h.roles.opened, h.roles.noSender, h.roles.sound, h.roles.producer, nofun,
    fun x hx => ?_⟩, h.line.stopWaiting hc rfl rfl⟩
  have ha := h.roles.live x hx
  rw [hc] at ha
  cases ha
  exact absurd (h.roles.sound.lookup hx.unresolved) hs

theorem Inv.awaited (h : Inv s) {id : PromiseId} (hc : s.consumer = .awaiting id)
    {s' : Pair} (hs' : s' ∈ s.awaited id) : Inv s' := by
  unfold Pair.awaited at hs'
  split at hs'
  · next hn =>
    rcases List.mem_cons.mp hs' with rfl | hs'
    · exact h.cancelled hc hn
    · cases List.mem_singleton.mp hs'
      exact h.torn hc hn
  · next hs =>
    cases List.mem_singleton.mp hs'
    exact h.resumed hc (by simp [hs])

theorem Inv.send (h : Inv s) (hid : s.producer = .idle) (p : Payload) (mode : SendMode) :
    Inv { s with producer := .op (.sendLoadClosed mode p) } := by
  have hfew := h.line.few
  have ho := h.line.order
  rw [hid] at hfew ho
  refine ⟨{ h.roles with producer := fun pc hpc => ?_ }, ⟨hfew, nofun, ho⟩⟩
  cases hpc
  rfl

theorem Inv.recv (h : Inv s) (hid : s.consumer = .idle) {pc : Pc}
    (hs : pc.side = some .consumer) (hl : pc.load = ⟨[], [], [], none⟩) :
    Inv { s with consumer := .op pc } := by
  have hh : pc.holding = [] := congrArg Load.holding hl
  have hdue : s.shared.due (.op pc) = [] := by
    have hr : pc.returning = [] := congrArg Load.returning hl
    have hre : pc.registers = none := congrArg Load.registers hl
    rw [due_op, hr, hre]
    rfl
  have hfew := h.line.few
  have hdirect := h.line.direct
  have ho := h.line.order
  rw [hid] at hfew hdirect ho
  refine ⟨{ h.roles with consumer := fun pc' hpc' => ?_, live := fun id hli => ?_ }, ⟨?_, ?_, ?_⟩⟩
  · cases hpc'
    exact hs
  · have ha := h.roles.live id hli
    rw [hid] at ha
    cases ha
  · rw [Party.holding_op, hh]
    exact hfew
  · rw [Party.holding_op, hh]
    exact hdirect
  · rw [hdue, Party.holding_op, hh]
    exact ho

/-- **Every step in turn keeps the items in line.** -/
theorem Inv.step (h : Inv s) {m : PairMove} {s' : Pair} (ht : InTurn m s)
    (hs : step m s = some s') : Inv s' := by
  cases m with
  | send p mode =>
    cases hid : s.producer with
    | idle =>
      simp only [Pair.step, hid] at hs
      cases hs
      exact h.send hid p mode
    | op pc | awaiting id => simp [Pair.step, hid] at hs
  | recv mode | register =>
    cases hid : s.consumer with
    | idle =>
      simp only [Pair.step, hid] at hs
      cases hs
      exact h.recv hid rfl rfl
    | op pc | awaiting id => simp [Pair.step, hid] at hs
  | producer choice =>
    cases hpc : s.producer with
    | idle | awaiting id => simp [Pair.step, hpc] at hs
    | op pc =>
      simp only [Pair.step, hpc] at hs
      obtain ⟨⟨next, shared⟩, hout, rfl⟩ := Option.map_eq_some_iff.mp hs
      have hout := List.mem_of_getElem? hout
      rw [InTurn, hpc] at ht
      exact ⟨h.roles.produce hpc hout _, h.line.produce h.roles hpc ht hout⟩
  | consumer choice =>
    cases hpc : s.consumer with
    | idle => simp [Pair.step, hpc] at hs
    | op pc =>
      simp only [Pair.step, hpc] at hs
      obtain ⟨⟨next, shared⟩, hout, rfl⟩ := Option.map_eq_some_iff.mp hs
      have hout := List.mem_of_getElem? hout
      rw [InTurn, hpc] at ht
      exact ⟨h.roles.consume hpc hout _, h.line.consume h.roles hpc ht hout⟩
    | awaiting id =>
      simp only [Pair.step, hpc] at hs
      exact h.awaited hpc (List.mem_of_getElem? hs)

theorem inv_start (capacity : Nat) : Inv (start capacity) where
  roles := ⟨rfl, rfl, Senders.sound_empty, nofun, nofun, nofun⟩
  line := ⟨Nat.zero_le 1, nofun, rfl⟩

end Step

/-- **Items are received in the order they were sent.**  In every run of one
producer and one consumer in which no step takes an item, or hands one over, past
an older one, what the consumer has received is what the producer sent first: the
payloads it was told were sent and the one, if any, of a send that has placed its
payload and will report so. -/
theorem received_in_order (capacity : Nat) (moves : List PairMove) (s : Pair)
    (hturn : Runs.Along step InTurn moves (start capacity))
    (hrun : Runs.run step moves (start capacity) = some s) :
    s.received <+: s.sent ++ s.producer.reporting := by
  have hinv : Inv s :=
    Runs.run_invariant_along (fun _ _ _ h hturn hs => h.step hturn hs) (inv_start capacity)
      hturn hrun
  rw [← hinv.line.order]
  simp only [List.append_assoc]
  exact List.prefix_append _ _

/-- The receiver parks and looks for buffered items; one payload is handed to it directly, the
next goes through the buffer and, as nobody is parked any more, through the stash. -/
def directThenStashed : List PairMove :=
  List.flatten
    [.register :: .replicate 4 (.consumer 0),
      .send ⟨[97], []⟩ .trySend :: .replicate 6 (.producer 0),
      .send ⟨[98], []⟩ .trySend :: .replicate 6 (.producer 0),
      .replicate 10 (.consumer 0), .recv .tryRecv :: .replicate 4 (.consumer 0)]

theorem received_in_order_directThenStashed :
    ∃ s, Runs.run step directThenStashed (start 1) = some s ∧
      s.received = [⟨[97], []⟩, ⟨[98], []⟩] ∧ s.sent = [⟨[97], []⟩, ⟨[98], []⟩] ∧
      s.received <+: s.sent ++ s.producer.reporting := by
  have he : ((Runs.run step directThenStashed (start 1)).any fun s =>
      decide (s.received = [⟨[97], []⟩, ⟨[98], []⟩] ∧
        s.sent = [⟨[97], []⟩, ⟨[98], []⟩])) = true := by
    decide +kernel
  have ht : Runs.Along step InTurn directThenStashed (start 1) := by decide +kernel
  obtain ⟨s, hrun, hs⟩ := (Option.any_eq_true _ _).mp he
  obtain ⟨hr, hse⟩ := of_decide_eq_true hs
  exact ⟨s, hrun, hr, hse, received_in_order 1 directThenStashed s ht hrun⟩

/-- A registration has popped the first payload for its own promise when the producer's next
send finds that promise parked. -/
def overtaken : List PairMove :=
  List.flatten
    [.recv .tryRecv :: .replicate 3 (.consumer 0), .register :: .replicate 2 (.consumer 0),
      .send ⟨[97], []⟩ .trySend :: .replicate 4 (.producer 0),
      .replicate 4 (.consumer 0), .replicate 4 (.producer 0),
      .send ⟨[98], []⟩ .trySend :: .replicate 6 (.producer 0),
      .replicate 8 (.consumer 0), .recv .tryRecv :: .replicate 4 (.consumer 0)]

/-- **A later item can be received first**, by the only consumer, with no receiver gone: both
parties are idle, both payloads were sent and received. -/
theorem overtaken_received_out_of_order :
    ∃ s, Runs.run step overtaken (start 1) = some s ∧ s.sent = [⟨[97], []⟩, ⟨[98], []⟩] ∧
      s.received = [⟨[98], []⟩, ⟨[97], []⟩] ∧ s.producer.reporting = [] ∧
      s.shared.senders.waiting = [] := by
  have he : ((Runs.run step overtaken (start 1)).any fun s =>
      decide (s.sent = [⟨[97], []⟩, ⟨[98], []⟩] ∧ s.received = [⟨[98], []⟩, ⟨[97], []⟩] ∧
        s.producer.reporting = [] ∧ s.shared.senders.waiting = [])) = true := by
    decide +kernel
  obtain ⟨s, hrun, hs⟩ := (Option.any_eq_true _ _).mp he
  exact ⟨s, hrun, of_decide_eq_true hs⟩

end Pair

end OxPhp.Shared.Channel
