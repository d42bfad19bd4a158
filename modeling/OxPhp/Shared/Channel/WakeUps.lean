import Mathlib.Algebra.Order.BigOperators.Group.List
import OxPhp.Shared.Channel.FiberOrder

/-!
# Wake-ups

On a channel that nobody closes, every slot that is freed while a sender is parked
is a unit of room that some operation has in mind, that is banked, or that was
given to a sender which has yet to retry.
-/

namespace OxPhp.Shared.Channel

open OxPhp.Async Interleave

/-! ## Supply -/

/-- The unit of room a fiber has in mind; a woken sender's is its own. -/
def Fiber.unit (s : State) : Fiber → Nat
  | op _ pc => pc.unit s
  | awaitSend _ _ id => if woken s id then 1 else 0
  | awaitRecv _ _ => 0

/-- A live sender is parked, or one that found the channel full is about to
park. -/
def Guarded (c : FiberConf) : Prop :=
  (∃ id ∈ c.shared.channel.sendWaiters.ids, c.shared.senders.Live id) ∨
    ∃ f ∈ c.running, f.parking = true

/-- The operation is about to push an item back to the stash. -/
def Fiber.stashes : Fiber → Bool
  | op _ (.stashPush _ _) => true
  | _ => false

/-- The operation is between the two reads of `occupancy`, and one more item in
the stash is what makes the sum reach the capacity. -/
def Fiber.onBrink (channel : ChannelInner) : Fiber → Bool
  | op _ (.roomFront _ buffered) =>
    decide (buffered + channel.recvFront.length < channel.capacity) &&
      decide (channel.capacity ≤ buffered + channel.recvFront.length + 1)
  | _ => false

/-- An item goes back to the stash while the channel has room, between the two
reads of another operation's `occupancy`: the first counted the item in the
buffer, the second counts it in the stash, and the sum reaches the capacity. -/
def DoubleCounts (c : FiberConf) (f : Fiber) : Prop :=
  f.stashes = true ∧
    c.shared.channel.buffer.length + c.shared.channel.recvFront.length + 1 <
      c.shared.channel.capacity ∧
    ∃ x ∈ c.running, x.onBrink c.shared.channel = true

instance (c : FiberConf) (f : Fiber) : Decidable (DoubleCounts c f) :=
  inferInstanceAs (Decidable (_ ∧ _ ∧ _))

structure Supplied (c : FiberConf) : Prop where
  orderly : Orderly c
  bank : c.shared.channel.sendWaiters.ids = [] ∨ c.shared.channel.sendWaiters.credits = 0
  supply : Guarded c →
    c.shared.channel.capacity ≤ c.shared.room + c.inHands (Fiber.unit c.shared)

section Supply

variable {c c' : FiberConf} {before after : List Fiber} {f again : Fiber}
  {next : Next Fiber FiberAnswer} {s s' : State} {u v : Fiber → Nat} {id : PromiseId} {role : Role}
  {pc : Pc} {out : Next Pc Answer}

theorem unit_mono (hc : s'.channel.capacity = s.channel.capacity)
    (hf : s'.channel.recvFront.length ≤ s.channel.recvFront.length)
    (hw : ∀ id, woken s id = true → woken s' id = true) (x : Fiber) : x.unit s ≤ x.unit s' := by
  cases x with
  | op role pc =>
    cases pc with
    | roomFront p buffered =>
      simp only [Fiber.unit, Pc.unit, hc]
      split
      · next hr =>
        rw [if_pos (by omega)]
      · exact Nat.zero_le _
    | _ => exact Nat.le_refl _
  | awaitSend p bounded id =>
    simp only [Fiber.unit]
    split
    · next h => rw [if_pos (hw id h)]
    · exact Nat.zero_le _
  | awaitRecv bounded id => exact Nat.le_refl _

theorem inOtherHands_le (h : ∀ x ∈ before ++ after, u x ≤ v x) :
    inOtherHands u before after ≤ inOtherHands v before after := by
  refine Nat.add_le_add ?_ ?_
  · exact List.sum_le_sum fun x hx => h x (List.mem_append_left _ hx)
  · exact List.sum_le_sum fun x hx => h x (List.mem_append_right _ hx)

theorem inOtherHands_lt (h : ∀ x ∈ before ++ after, u x ≤ v x) {x : Fiber}
    (hx : x ∈ before ++ after) (hlt : u x < v x) :
    inOtherHands u before after + 1 ≤ inOtherHands v before after := by
  have hsum : ((before ++ after).map u).sum < ((before ++ after).map v).sum :=
    List.sum_lt_sum u v h ⟨x, hx, hlt⟩
  simp only [List.map_append, List.sum_append] at hsum
  exact hsum

/-- The unit a step gives to another fiber. -/
def Pc.woke (s : State) : Pc → Nat
  | wakeResolve _ id => if s.senders.Live id then 1 else 0
  | _ => 0

theorem not_woken_of_live (hs : s.senders.Sound) (hl : s.senders.Live id) : woken s id = false := by
  rw [woken, hs.lookup hl.unresolved]

/-- **The other fibers keep their units**, unless an item is counted twice, and a
woken one gains the unit it was given. -/
theorem Orderly.others (h : Orderly c) (hrunning : c.running = before ++ .op role pc :: after)
    (hmet : ¬DoubleCounts c (.op role pc)) (hout : (out, s') ∈ Channel.act pc c.shared)
    (hs : Supplies c.shared pc out s') : c.shared.channel.capacity ≤ s'.room ∨
      inOtherHands (Fiber.unit c.shared) before after + pc.woke c.shared ≤
        inOtherHands (Fiber.unit s') before after := by
  have hw : ∀ id, woken c.shared id = true → woken s' id = true := by
    intro id hid
    have ht : Touches c.shared (.op role pc) s' := (custody_of_act hout).handles.touches
    exact ht.woken_after h.sound hid
  by_cases hwa : ∃ k id, pc = .wakeResolve k id ∧ c.shared.senders.Live id
  · obtain ⟨k, id, rfl, hl⟩ := hwa
    have hmem : Fiber.op role (.wakeResolve k id) ∈ c.running :=
      Config.mem_running hrunning
    obtain ⟨p, bounded, ha⟩ :=
      h.awaited id (.inr ⟨_, hmem, List.mem_singleton_self id⟩) hl
    have ho : .awaitSend p bounded id ∈ before ++ after := by
      rw [hrunning] at ha
      simpa [List.mem_append, List.mem_cons] using ha
    cases List.mem_singleton.mp hout
    refine .inr ?_
    have hg : (Fiber.awaitSend p bounded id).unit c.shared <
        (Fiber.awaitSend p bounded id).unit (c.shared.resolve id wakeValue) := by
      have hnow : woken (c.shared.resolve id wakeValue) id = true := by
        rw [woken, State.resolve, Senders.lookup_resolve_self hl]
        rfl
      simp [Fiber.unit, not_woken_of_live h.sound hl, hnow]
    rw [Pc.woke, if_pos hl]
    have hm : ∀ x, Fiber.unit c.shared x ≤ Fiber.unit (c.shared.resolve id wakeValue) x :=
      unit_mono rfl (Nat.le_refl _) hw
    exact inOtherHands_lt (fun x _ => hm x) ho hg
  · have hz : pc.woke c.shared = 0 := by
      cases pc with
      | wakeResolve k id => exact if_neg fun hl => hwa ⟨k, id, rfl, hl⟩
      | _ => rfl
    rw [hz, Nat.add_zero]
    rcases hs.recvFront with hf | ⟨d, p, rfl⟩
    · exact .inr (inOtherHands_le fun x _ => unit_mono hs.capacity hf hw x)
    · -- the item is back in the channel: either it fills it, or no other read is affected
      cases List.mem_singleton.mp hout
      by_cases hfu : c.shared.channel.buffer.length + c.shared.channel.recvFront.length + 1 <
          c.shared.channel.capacity
      · refine .inr (inOtherHands_le fun x hx => ?_)
        have hx : x ∈ c.running := by
          rw [hrunning]
          simp only [List.mem_append, List.mem_cons] at hx ⊢
          tauto
        cases x with
        | op role' pc' =>
          cases pc' with
          | roomFront q buffered =>
            simp only [Fiber.unit, Pc.unit, State.set, ChannelInner.pushFront, List.length_append,
              List.length_singleton]
            split
            · next hr =>
              by_cases hst : buffered + (c.shared.channel.recvFront.length + 1) <
                  c.shared.channel.capacity
              · rw [if_pos hst]
              · refine absurd ⟨rfl, hfu, _, hx, ?_⟩ hmet
                have hb : c.shared.channel.capacity ≤
                    buffered + c.shared.channel.recvFront.length + 1 := by omega
                simp [Fiber.onBrink, hr, hb]
            · exact Nat.zero_le _
          | _ => exact Nat.le_refl _
        | awaitSend p' bounded id | awaitRecv bounded id => exact Nat.le_refl _
      · refine .inl ?_
        simp only [State.room, State.set, ChannelInner.pushFront, List.length_append,
          List.length_singleton]
        omega

theorem Orderly.next_unit (h : Orderly c)
    (hmem : .op role pc ∈ c.running) (hout : (out, s') ∈ Channel.act pc c.shared)
    (hn : (next, s') ∈ role.outcomes (out, s')) :
    out.holds (Pc.unit s') (fun _ => 0) + pc.given c.shared ≤
      next.holds (Fiber.unit s') (fun _ => 0) + pc.woke c.shared := by
  have hf := h.onOpen _ hmem
  cases pc with
  | registerResolve id payload =>
    cases List.mem_singleton.mp hout
    have hl := h.fresh _ hmem id (List.mem_singleton_self id)
    cases role with
    | parkSend p bounded =>
      cases List.mem_singleton.mp hn
      cases payload with
      | value bytes keepalive =>
        have hnow : woken (c.shared.resolve id (.value bytes keepalive)) id = true := by
          rw [woken, State.resolve, Senders.lookup_resolve_self hl]
        simp [Next.holds, Pc.given, Pc.woke, Fiber.unit, hnow]
      | exception className message => cases hf
      | cancelled => cases hf
    | _ => cases payload <;> cases hf
  | wakeResolve k id =>
    cases out with
    | go pc' =>
      cases List.mem_singleton.mp hn
      exact Nat.le_refl _
    | ret answer => exact Nat.add_le_add_right (Nat.zero_le _) _
  | _ =>
    cases out with
    | go pc' =>
      cases List.mem_singleton.mp hn
      exact Nat.le_refl _
    | ret answer => exact Nat.zero_le _

theorem Orderly.supply_op (h : Orderly c) (hrunning : c.running = before ++ .op role pc :: after)
    (hmet : ¬DoubleCounts c (.op role pc)) (hact : (next, s') ∈ (Fiber.op role pc).act c.shared) :
    c.shared.channel.capacity ≤ s'.room ∨ c.shared.room + c.inHands (Fiber.unit c.shared) ≤
        s'.room + (next.holds (Fiber.unit s') (fun _ => 0) +
          inOtherHands (Fiber.unit s') before after) := by
  have hmem : Fiber.op role pc ∈ c.running :=
    Config.mem_running hrunning
  have hpc : pc.onOpen = true := (Bool.and_eq_true_iff.mp (h.onOpen _ hmem)).1
  obtain ⟨⟨out, shared⟩, hout, hn⟩ := List.mem_flatMap.mp hact
  obtain rfl : shared = s' := by
    unfold Role.outcomes at hn
    split at hn
    · cases List.mem_singleton.mp hn
      rfl
    · obtain ⟨next', -, heq⟩ := List.mem_map.mp hn
      cases heq
      rfl
  have hs := supplies_of_act h.closed hpc hout
  have hunit := h.next_unit hmem hout hn
  rcases hs.supply with hf | hsu
  · exact .inl hf
  · rcases h.others hrunning hmet hout hs with hf | ho
    · exact .inl hf
    · refine .inr ?_
      rw [Config.inHands_eq hrunning]
      have hse : Fiber.unit c.shared (.op role pc) = pc.unit c.shared := rfl
      omega

theorem Orderly.supply_resumes (h : Orderly c)
    (hrunning : c.running = before ++ f :: after) (hunit : f.unit c.shared ≤ again.unit c.shared)
    (ha : c.shared.senders.delivered.lookup id = none → f.unit c.shared = 0)
    (he : (woken c.shared id = true → ∃ bounded, f = .awaitRecv bounded id) →
      f.unit c.shared = 0) (hown : f.own = {id}) (hm : f.made c.shared = 0)
    (hr : Resumes c.shared f id again next s') : c.shared.room + c.inHands (Fiber.unit c.shared) ≤
      s'.room + (next.holds (Fiber.unit s') (fun _ => 0) +
        inOtherHands (Fiber.unit s') before after) := by
  have hmi : id ∈ f.own := hown ▸ Multiset.mem_singleton_self id
  have hmo : ∀ {s' : State}, Touches c.shared f s' → s'.channel = c.shared.channel →
      inOtherHands (Fiber.unit c.shared) before after ≤
        inOtherHands (Fiber.unit s') before after := by
    intro s' ht hc
    refine inOtherHands_le fun x _ => unit_mono ?_ ?_ (fun y hy => ht.woken_after h.sound hy) x
    · rw [hc]
    · rw [hc]
  rw [Config.inHands_eq hrunning]
  cases hr with
  | cancel waits =>
    let s₁ : State := c.shared.resolve id .cancelled
    have ho : inOtherHands (Fiber.unit c.shared) before after ≤
        inOtherHands (Fiber.unit s₁) before after := hmo (.resolve (.inr hmi) rfl hm) rfl
    rw [ha waits, Nat.zero_add]
    exact Nat.add_le_add_left (Nat.le_trans ho (Nat.le_add_left _ _)) c.shared.room
  | torn waits =>
    let s₁ : State := ⟨c.shared.channel, c.shared.senders.dropReceiver id, c.shared.rx⟩
    have ho : inOtherHands (Fiber.unit c.shared) before after ≤
        inOtherHands (Fiber.unit s₁) before after := hmo (.drop hmi rfl hm) rfl
    rw [ha waits, Nat.zero_add]
    exact Nat.add_le_add_left (Nat.le_trans ho (Nat.le_add_left _ _)) c.shared.room
  | again resolved =>
    simp only [Next.holds]
    omega
  | ends r resolved not_woken =>
    rw [he not_woken]
    omega

/-- **A step of a fiber forgets no room.** -/
theorem Orderly.supply_act (h : Orderly c) (hrunning : c.running = before ++ f :: after)
    (hmet : ¬DoubleCounts c f) (hact : (next, s') ∈ f.act c.shared) :
    c.shared.channel.capacity ≤ s'.room ∨ c.shared.room + c.inHands (Fiber.unit c.shared) ≤
        s'.room + (next.holds (Fiber.unit s') (fun _ => 0) +
          inOtherHands (Fiber.unit s') before after) := by
  cases f with
  | op role pc => exact h.supply_op hrunning hmet hact
  | awaitSend p bounded id =>
    refine .inr (h.supply_resumes hrunning ?_ ?_ ?_ rfl rfl (act_awaitSend_cases hact))
    · simp only [Fiber.unit, Fiber.trySend, Pc.unit]
      split <;> omega
    · intro hn
      simp [Fiber.unit, woken, hn]
    · intro he
      refine if_neg fun hw => ?_
      obtain ⟨bounded', hr⟩ := he hw
      cases hr
  | awaitRecv bounded id =>
    exact .inr (h.supply_resumes hrunning (Nat.zero_le _) (fun _ => rfl) (fun _ => rfl) rfl rfl
      (act_awaitRecv_cases hact))

theorem Resumes.channel (h : Resumes s f id again next s') : s'.channel = s.channel := by
  cases h <;> rfl

structure Guards (s : State) (f : Fiber) (next : Next Fiber FiberAnswer) (s' : State) : Prop where
  capacity : s'.channel.capacity = s.channel.capacity
  bank : s.channel.sendWaiters.ids = [] ∨ s.channel.sendWaiters.credits = 0 →
    s'.channel.sendWaiters.ids = [] ∨ s'.channel.sendWaiters.credits = 0
  ids : ∀ id ∈ s'.channel.sendWaiters.ids, id ∈ s.channel.sendWaiters.ids ∨ f.parking = true
  parking : ∀ f' ∈ next.pcs, f'.parking = true →
    f.parking = true ∨ s.channel.capacity ≤ s'.room

theorem guards_resumes (ha : again.parking = false) (hf : f.parking = false)
    (h : Resumes s f id again next s') : Guards s f next s' := by
  have hc := h.channel
  refine ⟨?_, ?_, ?_, ?_⟩
  · rw [hc]
  · rw [hc]
    exact fun hb => hb
  · rw [hc]
    exact fun id hid => .inl hid
  · intro f' hf' hp
    cases h with
    | cancel waits =>
      cases List.mem_singleton.mp hf'
      rw [hf] at hp
      cases hp
    | again resolved =>
      cases List.mem_singleton.mp hf'
      rw [ha] at hp
      cases hp
    | torn waits | ends r resolved not_woken => cases hf'

theorem guards_op (ho : s.channel.closed = false)
    (hpc : pc.onOpen = true) (h : (next, s') ∈ (Fiber.op role pc).act s) :
    Guards s (.op role pc) next s' := by
  have hids : ∀ {out : Next Pc Answer}, Supplies s pc out s' → ∀ id ∈ s'.channel.sendWaiters.ids,
      id ∈ s.channel.sendWaiters.ids ∨ (Fiber.op role pc).parking = true := by
    intro out hs id hid
    refine (hs.ids id hid).imp_right ?_
    rintro rfl
    rfl
  rcases act_op_cases h with ⟨pc', hout, rfl⟩ | ⟨answer, hout, hf⟩
  · have hs := supplies_of_act ho hpc hout
    refine ⟨hs.capacity, hs.bank, hids hs, fun f' hf' => ?_⟩
    cases List.mem_singleton.mp hf'
    exact (hs.goesOn pc' (List.mem_singleton_self pc')).2.1
  · have hs := supplies_of_act ho hpc hout
    refine ⟨hs.capacity, hs.bank, hids hs, fun f' hf' hp => ?_⟩
    cases follow_cases hf with
    | ret r => cases hf'
    | parkSend full =>
      subst full
      exact .inl (hs.full _ rfl)
    | awaitSend at_park registered | parkRecv | awaitRecv registered =>
      cases List.mem_singleton.mp hf'
      cases hp

theorem guards_of_act (h : Orderly c) (hmem : f ∈ c.running) (hact : (next, s') ∈ f.act c.shared) :
    Guards c.shared f next s' := by
  cases f with
  | op role pc =>
    exact guards_op h.closed (Bool.and_eq_true_iff.mp (h.onOpen _ hmem)).1 hact
  | awaitSend p bounded id => exact guards_resumes rfl rfl (act_awaitSend_cases hact)
  | awaitRecv bounded id => exact guards_resumes rfl rfl (act_awaitRecv_cases hact)

theorem Orderly.guarded_before (h : Orderly c) (hrunning : c.running = before ++ f :: after)
    (hact : (next, s') ∈ f.act c.shared) {returned : List FiberAnswer}
    (hg : Guarded ⟨s', before ++ next.pcs ++ after, returned⟩) :
    Guarded c ∨ c.shared.channel.capacity ≤ s'.room := by
  have hmem : f ∈ c.running := Config.mem_running hrunning
  have hgu := guards_of_act h hmem hact
  have hs := fiberStep_of_act h.closed (h.onOpen f hmem) hact
  rcases hg with ⟨id, hid, hl⟩ | ⟨x, hx, hp⟩
  · rcases hgu.ids id hid with hold | hpa
    · refine .inl (.inl ⟨id, hold, (hs.touches.live_before hl).resolve_right fun hm => ?_⟩)
      have hh : id ∈ c.shared.parked + c.inHands Fiber.hands :=
        Multiset.mem_add.mpr (.inl (Multiset.mem_add.mpr (.inr hold)))
      exact Int.not_lt.mpr (hs.touches.nextId.2 id hm).2 (h.handsAged id hh)
    · exact .inl (.inr ⟨f, hmem, hpa⟩)
  · simp only [List.mem_append] at hx
    rcases hx with (hx | hx) | hx
    · exact .inl (.inr ⟨x, hrunning ▸ List.mem_append_left _ hx, hp⟩)
    · exact (hgu.parking x hx hp).imp_left fun hpa => .inr ⟨f, hmem, hpa⟩
    · refine .inl (.inr ⟨x, ?_, hp⟩)
      exact hrunning ▸ List.mem_append_right _ (List.mem_cons_of_mem _ hx)

theorem Supplied.call (h : Supplied c) (k : FiberCall) :
    Supplied { c with running := c.running ++ [k.entry] } := by
  refine ⟨h.orderly.call k, h.bank, fun hg => ?_⟩
  have hb : Guarded c := by
    refine hg.imp_right fun ⟨x, hx, hp⟩ => ⟨x, ?_, hp⟩
    refine (List.mem_append.mp hx).resolve_right fun hnew => ?_
    cases List.mem_singleton.mp hnew
    cases k <;> cases hp
  rw [Config.inHands_call]
  exact Nat.le_trans (h.supply hb) (Nat.add_le_add_left (Nat.le_add_right _ _) _)

/-- **One move keeps the room in mind**, unless an item is counted twice. -/
theorem Supplied.step (h : Supplied c)
    (hf : fibers.Fires (fun c f => ¬DoubleCounts c f) c c') : Supplied c' := by
  have ho := h.orderly.step hf
  cases hf with
  | call k => exact h.call k
  | env e => exact e.elim
  | @act before after f next shared hrunning hmet hout =>
    have hmem : f ∈ c.running := Config.mem_running hrunning
    have hg := guards_of_act h.orderly hmem hout
    refine ⟨ho, hg.bank h.bank, fun hgu => ?_⟩
    rw [Config.inHands_next]
    dsimp only
    rw [hg.capacity]
    rcases h.orderly.guarded_before hrunning hout hgu with hb | hfu
    · rcases h.orderly.supply_act hrunning hmet hout with hfu | hs
      · omega
      · have hsu := h.supply hb
        omega
    · omega

theorem supplied_start (capacity : Nat) : Supplied (fiberStart capacity) where
  orderly := orderly_start capacity
  bank := .inl rfl
  supply := by
    rintro (⟨id, hid, -⟩ | ⟨f, hf, -⟩)
    · cases hid
    · cases hf

end Supply

/-! ## Items for parked receivers -/

/-- An item is in the buffer and a receiver is parked. -/
def OwesBuffer (s : State) (_ : Unit) : Prop :=
  s.channel.recvWaiters ≠ [] ∧ s.channel.buffer ≠ []

/-- An item is in the stash and a receiver is parked. -/
def OwesStash (s : State) (_ : Unit) : Prop :=
  s.channel.recvWaiters ≠ [] ∧ s.channel.recvFront ≠ []

/-- The operation has yet to drain the buffer to the parked receivers. -/
def Pc.drainsBuffer : Pc → Bool
  | sendBump _ => true
  | pc => pc.drainer.isSome

/-- The operation has yet to drain the stash; it does so before the buffer. -/
def Pc.drainsStash : Pc → Bool
  | drainBuffer _ => false
  | pc => pc.drainer.isSome

section Items

variable {s s' : State} {pc : Pc} {next : Next Pc Answer}

theorem Pc.drainsBuffer_of_drainer {d : Drainer} (h : pc.drainer = some d) :
    pc.drainsBuffer = true := by
  cases pc <;> first | rfl | simp [drainsBuffer, h]

theorem Pc.drainer_of_drainsStash (h : pc.drainsStash = true) : ∃ d, pc.drainer = some d := by
  cases pc with
  | drainBuffer d => cases h
  | _ => exact Option.isSome_iff_exists.mp h

theorem owesBuffer_of_act (ho : s.channel.closed = false) (hpc : pc.onOpen = true)
    (h : (next, s') ∈ act pc s) (how : OwesBuffer s' ()) :
    (∃ pc' ∈ next.pcs, pc'.drainsBuffer = true) ∨ (OwesBuffer s () ∧ pc.drainsBuffer = false) := by
  obtain ⟨id, hid⟩ := List.exists_mem_of_ne_nil _ how.1
  rcases recvParked_before_act h hid with hp | rfl
  · rcases (supplies_of_act ho hpc h).refills how.2 with hb | ⟨p, rfl⟩
    · cases hd : pc.drainer with
      | none =>
        cases pc with
        | sendBump p =>
          cases List.mem_singleton.mp h
          exact .inl ⟨_, List.mem_singleton_self _, rfl⟩
        | _ =>
          refine .inr ⟨⟨List.ne_nil_of_mem hp, hb⟩, ?_⟩
          simp [Pc.drainsBuffer, hd]
      | some d =>
        rcases drainer_of_act h hd with ⟨pc', hpc', hd'⟩ | he | ⟨-, he⟩
        · exact .inl ⟨pc', hpc', Pc.drainsBuffer_of_drainer hd'⟩
        · exact absurd he (List.ne_nil_of_mem hp)
        · exact absurd he hb
    · exact .inl ⟨_, List.mem_singleton_self _, rfl⟩
  · exact .inl ⟨_, List.mem_singleton_self _, rfl⟩

theorem owesStash_of_act (ho : s.channel.closed = false) (hpc : pc.onOpen = true)
    (h : (next, s') ∈ act pc s) (how : OwesStash s' ()) :
    (∃ pc' ∈ next.pcs, pc'.drainsStash = true) ∨ (OwesStash s () ∧ pc.drainsStash = false) := by
  have hs := supplies_of_act ho hpc h
  obtain ⟨id, hid⟩ := List.exists_mem_of_ne_nil _ how.1
  rcases recvParked_before_act h hid with hp | rfl
  · rcases hs.restashes how.2 with hst | ⟨d, rfl⟩
    · cases hdr : pc.drainsStash with
      | false => exact .inr ⟨⟨List.ne_nil_of_mem hp, hst⟩, rfl⟩
      | true =>
        obtain ⟨d, hd⟩ := Pc.drainer_of_drainsStash hdr
        rcases drainer_of_act h hd with ⟨pc', hpc', hd'⟩ | he | ⟨rfl, -⟩
        · refine .inl ⟨pc', hpc', ?_⟩
          cases pc' with
          | drainBuffer d' =>
            cases next with
            | go pc'' =>
              cases List.mem_singleton.mp hpc'
              exact absurd (hs.empties d' rfl) hst
            | ret answer => cases hpc'
          | _ => exact Option.isSome_iff_exists.mpr ⟨d, hd'⟩
        · exact absurd he (List.ne_nil_of_mem hp)
        · cases hdr
    · exact .inl ⟨_, List.mem_singleton_self _, rfl⟩
  · exact .inl ⟨_, List.mem_singleton_self _, rfl⟩

end Items

def Fiber.at (test : Pc → Bool) : Fiber → Prop
  | op _ pc => test pc = true
  | _ => False

section Coverings

variable {c c' : FiberConf} {ok : FiberConf → Fiber → Prop} {owes : State → Unit → Prop}
  {test : Pc → Bool}

theorem covered_fibers (ho : Orderly c) (h : Covered owes (fun f _ => f.at test) c)
    (hfi : fibers.Fires ok c c')
    (hc : ∀ s s' : State, s'.channel = s.channel → owes s' () → owes s ())
    (hact : ∀ s pc next s', s.channel.closed = false → pc.onOpen = true →
      (next, s') ∈ act pc s → owes s' () →
        (∃ pc' ∈ next.pcs, test pc' = true) ∨ (owes s () ∧ test pc = false)) :
    Covered owes (fun f _ => f.at test) c' := by
  refine h.step hfi (fun e => e.elim) fun f hf next s' _ hout x hx => ?_
  cases f with
  | op role pc =>
    have hpc : pc.onOpen = true := (Bool.and_eq_true_iff.mp (ho.onOpen _ hf)).1
    have hk : owes c.shared () ∧ test pc = false → owes c.shared () ∧
        ((Fiber.op role pc).at test → ∃ other ∈ c.running, other ≠ .op role pc ∧ other.at test) :=
      fun hp => ⟨hp.1, fun hat => absurd hat (by simp [Fiber.at, hp.2])⟩
    rcases act_op_cases hout with ⟨pc', hs, rfl⟩ | ⟨answer, hs, -⟩
    · refine (hact _ _ _ _ ho.closed hpc hs hx).imp ?_ hk
      rintro ⟨pc'', hpc'', ht⟩
      cases List.mem_singleton.mp hpc''
      exact ⟨_, List.mem_singleton_self _, ht⟩
    · refine .inr (hk ?_)
      refine (hact _ _ _ _ ho.closed hpc hs hx).resolve_left ?_
      rintro ⟨pc'', hpc'', -⟩
      cases hpc''
  | awaitSend p bounded id =>
    exact .inr ⟨hc _ _ (act_awaitSend_cases hout).channel hx, False.elim⟩
  | awaitRecv bounded id =>
    exact .inr ⟨hc _ _ (act_awaitRecv_cases hout).channel hx, False.elim⟩

end Coverings

/-! ## Quiescence -/

/-- The fiber waits for somebody else: a sender that was not woken, or a
receiver. -/
def Fiber.suspended (s : State) : Fiber → Bool
  | op _ _ => false
  | awaitSend _ _ id => !woken s id
  | awaitRecv _ _ => true

/-- Nothing is in progress, and no woken sender has yet to retry. -/
def Quiescent (c : FiberConf) : Prop :=
  ∀ f ∈ c.running, f.suspended c.shared = true

instance (c : FiberConf) : Decidable (Quiescent c) :=
  inferInstanceAs (Decidable (∀ f ∈ c.running, _))

structure Attentive (c : FiberConf) : Prop where
  supplied : Supplied c
  buffer : Covered OwesBuffer (fun f _ => f.at Pc.drainsBuffer) c
  stash : Covered OwesStash (fun f _ => f.at Pc.drainsStash) c

theorem Attentive.step {c c' : FiberConf} (h : Attentive c)
    (hf : fibers.Fires (fun c f => ¬DoubleCounts c f) c c') : Attentive c' where
  supplied := h.supplied.step hf
  buffer := by
    refine covered_fibers h.supplied.orderly h.buffer hf (fun s s' heq ho => ?_)
      fun s pc next s' hope hpc hout => owesBuffer_of_act hope hpc hout
    rw [OwesBuffer, heq] at ho
    exact ho
  stash := by
    refine covered_fibers h.supplied.orderly h.stash hf (fun s s' heq ho => ?_)
      fun s pc next s' hope hpc hout => owesStash_of_act hope hpc hout
    rw [OwesStash, heq] at ho
    exact ho

theorem attentive_start (capacity : Nat) : Attentive (fiberStart capacity) where
  supplied := supplied_start capacity
  buffer := fun _ ho => absurd rfl ho.1
  stash := fun _ ho => absurd rfl ho.1

section Quiescence

variable {c : FiberConf}

theorem Quiescent.unit (h : Quiescent c) : c.inHands (Fiber.unit c.shared) = 0 := by
  refine List.sum_eq_zero fun n hn => ?_
  obtain ⟨f, hf, rfl⟩ := List.mem_map.mp hn
  have ha := h f hf
  cases f with
  | op role pc => cases ha
  | awaitSend p bounded id =>
    rw [Fiber.suspended, Bool.not_eq_true'] at ha
    simp [Fiber.unit, ha]
  | awaitRecv bounded id => rfl

theorem Quiescent.not_at (h : Quiescent c) {test : Pc → Bool} {f : Fiber} (hf : f ∈ c.running) :
    ¬f.at test := by
  have ha := h f hf
  cases f with
  | op role pc => cases ha
  | awaitSend p bounded id | awaitRecv bounded id => exact fun hat => hat

/-- A parked sender waits for room: banked room goes to the next that parks, so
there is none, and nobody has any in mind. -/
theorem Supplied.full (h : Supplied c) (hq : Quiescent c) {id : PromiseId}
    (hid : id ∈ c.shared.channel.sendWaiters.ids) (hl : c.shared.senders.Live id) :
    c.shared.channel.capacity ≤
      c.shared.channel.buffer.length + c.shared.channel.recvFront.length := by
  have hs := h.supply (.inl ⟨id, hid, hl⟩)
  have hb := h.bank.resolve_left (List.ne_nil_of_mem hid)
  rw [hq.unit, State.room, hb] at hs
  exact hs

/-- **No wake-up is lost**: on an open channel, once nothing is in progress, a
parked sender finds the channel full and a parked receiver finds it empty,
unless an item was counted twice. -/
theorem parked_only_when_stuck (capacity : Nat) (moves : List (Move FiberCall Empty))
    (halong : fibers.Along (fun c f => ¬DoubleCounts c f) (fiberStart capacity) moves)
    (hrun : fibers.run (fiberStart capacity) moves = some c) (hquiet : Quiescent c) :
    (∀ id ∈ c.shared.channel.sendWaiters.ids, c.shared.senders.Live id →
        c.shared.channel.capacity ≤
          c.shared.channel.buffer.length + c.shared.channel.recvFront.length) ∧
      ∀ id ∈ c.shared.channel.recvWaiters, c.shared.senders.Live id →
        c.shared.channel.buffer = [] ∧ c.shared.channel.recvFront = [] := by
  have ha : Attentive c :=
    Machine.run_invariant (fun _ _ => Attentive.step) (attentive_start capacity) halong hrun
  refine ⟨fun id hid => ha.supplied.full hquiet hid, fun id hid _ => ⟨?_, ?_⟩⟩
  · by_contra hb
    obtain ⟨f, hf, hat⟩ := ha.buffer () ⟨List.ne_nil_of_mem hid, hb⟩
    exact hquiet.not_at hf hat
  · by_contra hs
    obtain ⟨f, hf, hat⟩ := ha.stash () ⟨List.ne_nil_of_mem hid, hs⟩
    exact hquiet.not_at hf hat

def steps (fiber n : Nat) : List (Move FiberCall Empty) :=
  List.replicate n (.act fiber 0)

/-- Two senders park in front of a full channel; a receive wakes the first, which
retries and fills the slot. -/
def retriedAfterReceive : List (Move FiberCall Empty) :=
  .call (.trySend ⟨[1], []⟩) :: steps 0 6 ++ .call (.send ⟨[2], []⟩ false) :: steps 0 7 ++
    .call (.send ⟨[3], []⟩ false) :: steps 1 7 ++ .call .tryRecv :: steps 2 6 ++ steps 0 7

theorem parked_only_when_stuck_retriedAfterReceive :
    ∃ c, fibers.run (fiberStart 1) retriedAfterReceive = some c ∧ Quiescent c ∧
      c.shared.channel.sendWaiters.ids = [-9223372036854775806] ∧
      (∀ id ∈ c.shared.channel.sendWaiters.ids, c.shared.senders.Live id →
          c.shared.channel.capacity ≤
            c.shared.channel.buffer.length + c.shared.channel.recvFront.length) ∧
        ∀ id ∈ c.shared.channel.recvWaiters, c.shared.senders.Live id →
          c.shared.channel.buffer = [] ∧ c.shared.channel.recvFront = [] := by
  have hend : (fibers.run (fiberStart 1) retriedAfterReceive).any (fun c => Quiescent c ∧
      c.shared.channel.sendWaiters.ids = [-9223372036854775806]) = true := by decide +kernel
  obtain ⟨c, hrun, hc⟩ := (Option.any_eq_true _ _).mp hend
  obtain ⟨hq, hids⟩ := of_decide_eq_true hc
  have ha : fibers.Along (fun c f => ¬DoubleCounts c f) (fiberStart 1) retriedAfterReceive :=
    Machine.along_of_check (fun _ _ => of_decide_eq_true) (by decide +kernel)
  exact ⟨c, hrun, hq, hids, parked_only_when_stuck 1 retriedAfterReceive ha hrun hq⟩

/-- Two items fill a channel of capacity two, three senders park, and two
receives wake the first two.  The second goes as far as its deposit while two
receivers look and find nothing to take. -/
def crowded : List (Move FiberCall Empty) :=
  .call (.trySend ⟨[1], []⟩) :: steps 0 6 ++ .call (.trySend ⟨[2], []⟩) :: steps 0 6 ++
    .call (.send ⟨[3], []⟩ false) :: steps 0 7 ++ .call (.send ⟨[4], []⟩ false) :: steps 1 7 ++
    .call (.send ⟨[5], []⟩ false) :: steps 2 7 ++ .call .tryRecv :: steps 3 6 ++
    .call .tryRecv :: steps 3 6 ++ steps 1 3 ++ .call (.recv false) :: steps 3 9 ++
    .call (.recv true) :: steps 4 9

/-- One receiver is cancelled and gone before the first sender's item reaches a
receiver; between that sender's two reads, the second sender's item moves from
the buffer to the stash. -/
def itemCountedTwice : List (Move FiberCall Empty) :=
  crowded ++ steps 4 5 ++ steps 1 3 ++ steps 0 5 ++ steps 1 10 ++ steps 0 1 ++ steps 0 2 ++
    steps 1 1

/-- **A wake-up can be lost**: nothing is in progress, one of two slots is taken,
and a live sender is parked. -/
theorem itemCountedTwice_strands_sender :
    ∃ c, fibers.run (fiberStart 2) itemCountedTwice = some c ∧ Quiescent c ∧
      ∃ id ∈ c.shared.channel.sendWaiters.ids, c.shared.senders.Live id ∧
        c.shared.channel.buffer.length + c.shared.channel.recvFront.length <
          c.shared.channel.capacity := by
  have hend : (fibers.run (fiberStart 2) itemCountedTwice).any (fun c => Quiescent c ∧
      ∃ id ∈ c.shared.channel.sendWaiters.ids, c.shared.senders.Live id ∧
        c.shared.channel.buffer.length + c.shared.channel.recvFront.length <
          c.shared.channel.capacity) = true := by decide +kernel
  obtain ⟨c, hrun, hc⟩ := (Option.any_eq_true _ _).mp hend
  exact ⟨c, hrun, of_decide_eq_true hc⟩

/-- **Nobody waits twice.** However fibers interleave on an open channel, a promise is
parked at most once, no two fibers have the same one, and that of a parked sender that
lives is awaited. -/
theorem parked_once (capacity : Nat) (moves : List (Move FiberCall Empty))
    (c : FiberConf) (hrun : fibers.run (fiberStart capacity) moves = some c) :
    (c.shared.channel.recvWaiters ++ c.shared.channel.sendWaiters.ids).Nodup ∧
      (c.inHands Fiber.own).Nodup ∧ ∀ id ∈ c.shared.channel.sendWaiters.ids,
        c.shared.senders.Live id → ∃ p bounded, .awaitSend p bounded id ∈ c.running := by
  have h : Orderly c := Machine.run_invariant (fun _ _ h hf => h.step hf)
    (orderly_start capacity) (Machine.along_true moves _) hrun
  refine ⟨?_, h.own, fun id hid => h.awaited id (.inl hid)⟩
  rw [← Multiset.coe_nodup, ← Multiset.coe_add]
  exact Multiset.nodup_of_le (Multiset.le_add_right _ _) h.hands

theorem parked_once_retried :
    ∃ c, fibers.run (fiberStart 1) retriedAfterReceive = some c ∧
      (c.shared.channel.recvWaiters ++ c.shared.channel.sendWaiters.ids).Nodup := by
  have hend : (fibers.run (fiberStart 1) retriedAfterReceive).isSome = true := by decide +kernel
  obtain ⟨c, hrun⟩ := Option.isSome_iff_exists.mp hend
  exact ⟨c, hrun, (parked_once 1 _ c hrun).1⟩

end Quiescence

end OxPhp.Shared.Channel
