import OxPhp.Shared.Channel.CloseSweep
import OxPhp.Shared.Channel.Conservation

/-!
# The end of the stream

A receive reports the end of the stream when it finds nothing to take and the flag
set.  Reported while no send or drain is about to deposit, it is final.
-/

namespace OxPhp.Shared.Channel

open OxPhp.Async Interleave

/-- The step answers that the channel is closed and drained. -/
def ReportsDrained (s : State) : Pc → Prop
  | .recvLoadClosed _ => s.channel.closed = true
  | .waitLast => s.channel.buffer = []
  | _ => False

instance (s : State) (pc : Pc) : Decidable (ReportsDrained s pc) := by
  unfold ReportsDrained
  split <;> infer_instance

/-- The operation may yet put an item into the buffer or the stash although the
channel is closed: a send past its test of the flag, a drain with an item. -/
def Pc.feeds : Pc → Bool
  | offerPop _ _ => true
  | offerResolve _ _ _ => true
  | sendIndex _ _ => true
  | sendDeposit _ _ => true
  | pollDeposit _ _ => true
  | takenPending (.drain _) _ => true
  | takenIndex (.drain _) _ => true
  | stashIndex _ _ => true
  | stashPush _ _ => true
  | _ => false

/-- A receive reports the end of the stream while an item is in the channel or
still to enter it. -/
def Premature (c : Conf) (pc : Pc) : Prop :=
  ReportsDrained c.shared pc ∧
    (c.shared.channel.buffer ≠ [] ∨ c.shared.channel.recvFront ≠ [] ∨
      ∃ op ∈ c.running, op.feeds = true)

/-- Nothing is in the channel and nothing will enter it. -/
structure Ended (c : Conf) : Prop where
  closed : c.shared.channel.closed = true
  buffer : c.shared.channel.buffer = []
  recvFront : c.shared.channel.recvFront = []
  noFeed : ∀ pc ∈ c.running, pc.feeds = false

/-! ## Steps -/

section Steps

variable {s s' : State} {pc : Pc} {next : Next Pc Answer}

/-- What a step leaves of a channel that nothing can enter. -/
structure StaysEmpty (next : Next Pc Answer) (s' : State) : Prop where
  buffer : s'.channel.buffer = []
  recvFront : s'.channel.recvFront = []
  noFeed : ∀ pc ∈ next.pcs, pc.feeds = false

theorem StaysEmpty.go (hb : s'.channel.buffer = []) (hf : s'.channel.recvFront = [])
    (hfe : pc.feeds = false) : StaysEmpty (.go pc) s' :=
  ⟨hb, hf, fun _ hpc => List.mem_singleton.mp hpc ▸ hfe⟩

theorem StaysEmpty.ret {answer : Answer} (hb : s'.channel.buffer = [])
    (hf : s'.channel.recvFront = []) : StaysEmpty (.ret answer) s' :=
  ⟨hb, hf, Next.forall_pcs_ret _⟩

theorem staysEmpty_of_act (hc : s.channel.closed = true) (hb : s.channel.buffer = [])
    (hf : s.channel.recvFront = []) (hfe : pc.feeds = false)
    (h : (next, s') ∈ act pc s) : StaysEmpty next s' := by
  cases acts_of_act h with
  | sendOpen opened | pollOpen opened | waitOpen opened | registerOpen opened | closeSwap opened
  | recvWouldBlock opened | recvOnce opened | recvWaits opened | redeemed opened | parked opened =>
    rw [hc] at opened
    cases opened
  | frontTaken front first => simp [hf] at first
  | bufferTaken buffer _ first => simp [hb] at first
  | placed place | noRoom place => cases place <;> cases hfe
  | @takenPending k =>
    cases k with
    | recv | recvLast => exact .go hb hf rfl
    | drain d => cases hfe
  | frontEmpty front => cases front <;> exact .go hb hf rfl
  | bufferEmpty buffer =>
    cases buffer with
    | recv mode | wait wait => exact .go hb hf rfl
    | send p | register id | last => exact .ret hb hf
  | _ =>
    first
    | exact .go hb hf rfl
    | exact .ret hb hf
    | cases hfe

/-- The operation has reported the end of the stream, or is about to look a last
time before it does. -/
def ends : Next Pc Answer → Bool
  | .ret .drained => true
  | .go .waitLast => true
  | _ => false

theorem ends_of_act (h : (next, s') ∈ act pc s) (he : ends next = true) :
    (next = .ret .drained ∧ ReportsDrained s pc) ∨
      (next = .go .waitLast ∧ s.channel.closed = true) := by
  cases acts_of_act h with
  | recvDrained closed => exact .inl ⟨rfl, closed⟩
  | waitClosed closed => exact .inr ⟨rfl, closed⟩
  | bufferEmpty buffer _ none =>
    cases buffer with
    | last => exact .inl ⟨rfl, none⟩
    | _ => cases he
  | noRoom place => cases place <;> cases he
  | frontEmpty front => cases front <;> cases he
  | _ => cases he

end Steps

/-! ## Runs -/

section Runs

variable {c c' : Conf}

/-- The invariant: a last look finds the flag set, and a reported end is one. -/
structure EndsOnce (c : Conf) : Prop where
  waitLast : .waitLast ∈ c.running → c.shared.channel.closed = true
  ended : .drained ∈ c.returned → Ended c

theorem Ended.step (h : Ended c) (hf : machine.Fires (fun c pc => ¬Premature c pc) c c') :
    Ended c' := by
  cases hf with
  | call k =>
    refine ⟨h.closed, h.buffer, h.recvFront, fun pc hpc => ?_⟩
    rcases List.mem_append.mp hpc with hpc | hpc
    · exact h.noFeed pc hpc
    · cases List.mem_singleton.mp hpc
      cases k <;> rfl
  | env e =>
    simp only [machine]
    have hc : (interfere e c.shared).channel = c.shared.channel := interfere_channel
    refine ⟨?_, ?_, ?_, h.noFeed⟩
    · rw [hc]
      exact h.closed
    · rw [hc]
      exact h.buffer
    · rw [hc]
      exact h.recvFront
  | @act before after pc next shared hrunning hmet hout =>
    have hall : ∀ x ∈ before ++ pc :: after, x.feeds = false := hrunning ▸ h.noFeed
    have he := staysEmpty_of_act h.closed h.buffer h.recvFront
      (hall pc (List.mem_append_right _ List.mem_cons_self)) hout
    exact ⟨closed_of_act hout h.closed, he.buffer, he.recvFront,
      forall_running hall he.noFeed⟩

theorem EndsOnce.closedStep (h : EndsOnce c) {ok : Conf → Pc → Prop}
    (hf : machine.Fires ok c c') (hlast : .waitLast ∈ c'.running) :
    c'.shared.channel.closed = true := by
  cases hf with
  | call k =>
    rcases List.mem_append.mp hlast with hold | hnew
    · exact h.waitLast hold
    · cases k <;> cases List.mem_singleton.mp hnew
  | env e =>
    have hc : (interfere e c.shared).channel = c.shared.channel := interfere_channel
    simp only [machine, hc]
    exact h.waitLast hlast
  | @act before after pc next shared hrunning hmet hout =>
    have hcl : c.shared.channel.closed = true := by
      simp only [List.mem_append] at hlast
      rcases hlast with (hb | hnew) | ha
      · exact h.waitLast (hrunning ▸ List.mem_append_left _ hb)
      · cases next with
        | ret r => cases hnew
        | go pc' =>
          cases List.mem_singleton.mp hnew
          rcases ends_of_act hout rfl with ⟨hret, -⟩ | ⟨-, hcl⟩
          · cases hret
          · exact hcl
      · exact h.waitLast (hrunning ▸ List.mem_append_right _ (List.mem_cons_of_mem _ ha))
    exact closed_of_act hout hcl

theorem EndsOnce.ended_of_report (h : EndsOnce c) {pc : Pc} (hmem : pc ∈ c.running)
    (hr : ReportsDrained c.shared pc) (hmet : ¬Premature c pc) : Ended c := by
  have hc : ¬(c.shared.channel.buffer ≠ [] ∨ c.shared.channel.recvFront ≠ [] ∨
      ∃ op ∈ c.running, op.feeds = true) := fun he => hmet ⟨hr, he⟩
  push Not at hc
  obtain ⟨hb, hf, hfe⟩ := hc
  have hcl : c.shared.channel.closed = true := by
    unfold ReportsDrained at hr
    split at hr
    · exact hr
    · exact h.waitLast hmem
    · cases hr
  refine ⟨hcl, hb, hf, fun op hop => ?_⟩
  exact Bool.eq_false_iff.mpr (hfe op hop)

theorem EndsOnce.step (h : EndsOnce c)
    (hf : machine.Fires (fun c pc => ¬Premature c pc) c c') : EndsOnce c' := by
  refine ⟨h.closedStep hf, fun hd => ?_⟩
  suffices he : Ended c from he.step hf
  cases hf with
  | call k | env e => exact h.ended hd
  | @act before after pc next shared hrunning hmet hout =>
    rcases List.mem_append.mp hd with hold | hnew
    · exact h.ended hold
    · cases next with
      | go pc' => cases hnew
      | ret r =>
        cases List.mem_singleton.mp hnew
        have hmem : pc ∈ c.running := Config.mem_running hrunning
        rcases ends_of_act hout rfl with ⟨-, hr⟩ | ⟨hgo, -⟩
        · exact h.ended_of_report hmem hr hmet
        · cases hgo

theorem endsOnce_start (capacity : Nat) : EndsOnce (start capacity) where
  waitLast := nofun
  ended := nofun

/-- **Nothing sent is left behind the end of the stream.**  Once a receive has
reported the channel closed and drained, every payload whose send has reported
success, or will, was handed to a parked receiver, was received, or is in the
hands of a receive about to return it. -/
theorem drained_delivers_sent (capacity : Nat) (moves : List (Move Call Interference)) (c : Conf)
    (hrun : machine.run (start capacity) moves = some c) (hdrained : .drained ∈ c.returned)
    (hmet : machine.Along (fun c pc => ¬Premature c pc) (start capacity) moves) :
    c.wentBack Answer.accepted + c.inHands Pc.placed =
      ((handed capacity moves).map Prod.snd : List Payload) + c.wentBack Answer.got +
        c.inHands Pc.taken := by
  have he : EndsOnce c :=
    Machine.run_invariant (fun _ _ => EndsOnce.step) (endsOnce_start capacity) hmet hrun
  have hen := he.ended hdrained
  have hp := placed_eq hrun
  rw [hen.buffer, hen.recvFront] at hp
  rw [accepted] at hp
  rw [hp]
  simp only [Multiset.coe_nil, zero_add]
  abel

instance (c : Conf) (pc : Pc) : Decidable (Premature c pc) := by
  unfold Premature
  infer_instance

def sentThenDrained : List (Move Call Interference) :=
  alone (.trySend ⟨[97], []⟩) 6 ++ alone .close 5 ++ alone .tryRecv 5 ++ alone .tryRecv 3

theorem drained_delivers_sent_sentThenDrained :
    ∃ c, machine.run (start 1) sentThenDrained = some c ∧
      c.returned = [.sent ⟨[97], []⟩, .closed true, .received ⟨[97], []⟩, .drained] ∧
      c.wentBack Answer.accepted + c.inHands Pc.placed =
        ((handed 1 sentThenDrained).map Prod.snd : List Payload) + c.wentBack Answer.got +
          c.inHands Pc.taken := by
  refine ⟨_, rfl, rfl, drained_delivers_sent 1 sentThenDrained _ rfl (by decide) ?_⟩
  exact Machine.along_of_check (fun _ _ => of_decide_eq_true) rfl

/-- A send tests the flag; close and a receive run; then the send deposits. -/
def depositAfterDrained : List (Move Call Interference) :=
  [Move.call (Call.trySend ⟨[97], []⟩), .act 0 0, .act 0 0, .call .close] ++
    List.replicate 5 (Move.act 1 0) ++ Move.call Call.tryRecv :: List.replicate 3 (.act 1 0) ++
    List.replicate 4 (Move.act 0 0)

/-- **A payload can be left behind the end of the stream**: every operation has
ended, the receive reported the channel closed and drained, the send reported
success, and the payload is in the buffer. -/
theorem depositAfterDrained_leaves_sent :
    ∃ c, machine.run (start 1) depositAfterDrained = some c ∧ c.running = [] ∧
      c.returned = [.closed true, .drained, .sent ⟨[97], []⟩] ∧
      c.shared.channel.buffer = [⟨[97], []⟩] ∧ handed 1 depositAfterDrained = [] ∧
      c.wentBack Answer.accepted ≠
        ((handed 1 depositAfterDrained).map Prod.snd : List Payload) + c.wentBack Answer.got := by
  refine ⟨_, rfl, rfl, rfl, rfl, rfl, ?_⟩
  decide

end Runs

end OxPhp.Shared.Channel
