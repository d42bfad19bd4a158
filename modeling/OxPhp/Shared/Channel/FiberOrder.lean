import OxPhp.Shared.Channel.Custody
import OxPhp.Shared.Channel.Fibers
import OxPhp.Shared.Channel.Room

/-!
# Fibers and their promises

Each promise belongs to one fiber, which made it, and is on one waiter list or in
the hands of one operation.  A parked sender whose promise is live is suspended on
it.
-/

namespace OxPhp.Shared.Channel

open OxPhp.Async Interleave

/-! ## Fibers -/

def woken (s : State) (id : PromiseId) : Bool :=
  match s.senders.delivered.lookup id with
  | some (.value _ _) => true
  | _ => false

def Role.parksSend : Role → Bool
  | parkSend _ _ => true
  | _ => false

/-- The promise of a sender's registration, known to nobody else. -/
def Pc.fresh : Pc → List PromiseId
  | registerSend id => [id]
  | registerResolve id _ => [id]
  | _ => []

/-- The parked sender the operation is about to wake. -/
def Pc.waking : Pc → List PromiseId
  | wakeResolve _ id => [id]
  | _ => []

namespace Fiber

def hands : Fiber → Multiset PromiseId
  | op _ pc => pc.hands
  | _ => 0

def own : Fiber → Multiset PromiseId
  | op _ pc => pc.own
  | awaitSend _ _ id => {id}
  | awaitRecv _ id => {id}

def made (s : State) : Fiber → Multiset PromiseId
  | op _ pc => s.made pc
  | _ => 0

def fresh : Fiber → List PromiseId
  | op _ pc => pc.fresh
  | _ => []

def waking : Fiber → List PromiseId
  | op _ pc => pc.waking
  | _ => []

def onOpen : Fiber → Bool
  | op role pc => pc.onOpen && (!pc.registersSend || role.parksSend)
  | _ => true

def parking : Fiber → Bool
  | op _ pc => pc.parking
  | _ => false

end Fiber

/-! ## Steps of a fiber -/

section Cases

variable {s s' : State} {next : Next Fiber FiberAnswer}

theorem act_op_cases {role : Role} {pc : Pc} (h : (next, s') ∈ (Fiber.op role pc).act s) :
    (∃ pc', (.go pc', s') ∈ act pc s ∧ next = .go (.op role pc')) ∨
      ∃ answer, (.ret answer, s') ∈ act pc s ∧ next ∈ role.follow answer := by
  obtain ⟨⟨out, shared⟩, hout, hn⟩ := List.mem_flatMap.mp h
  cases out with
  | go pc' =>
    cases List.mem_singleton.mp hn
    exact .inl ⟨pc', hout, rfl⟩
  | ret answer =>
    obtain ⟨next', hf, heq⟩ := List.mem_map.mp hn
    cases heq
    exact .inr ⟨answer, hout, hf⟩

inductive Follows (role : Role) (answer : Answer) : Next Fiber FiberAnswer → Prop
  | ret (r : FiberAnswer) : Follows role answer (.ret r)
  | parkSend {p q : Payload} {bounded : Bool} (full : answer = .full q) :
      Follows role answer (.go (.op (.parkSend p bounded) .sendAlloc))
  | awaitSend {p : Payload} {bounded : Bool} {id : PromiseId} (at_park : role = .parkSend p bounded)
      (registered : answer = .sendRegistered id) :
      Follows role answer (.go (.awaitSend p bounded id))
  | parkRecv {bounded : Bool} : Follows role answer (.go (.op (.parkRecv bounded) .recvAlloc))
  | awaitRecv {bounded : Bool} {id : PromiseId} (registered : answer = .recvRegistered id) :
      Follows role answer (.go (.awaitRecv bounded id))

theorem follow_cases {role : Role} {answer : Answer} (h : next ∈ role.follow answer) :
    Follows role answer next := by
  unfold Role.follow at h
  split at h
  case h_3 =>
    rcases List.mem_cons.mp h with rfl | h
    · exact .parkSend rfl
    · split at h
      · cases List.mem_singleton.mp h
        exact .ret _
      · cases h
  case h_11 =>
    rcases List.mem_cons.mp h with rfl | h
    · exact .ret _
    · split at h
      · cases List.mem_singleton.mp h
        exact .ret _
      · cases h
  all_goals cases List.mem_singleton.mp h
  case h_4 => exact .awaitSend rfl rfl
  case h_7 => exact .parkRecv
  case h_8 => exact .awaitRecv rfl
  all_goals exact .ret _

/-- A suspended fiber is interrupted, or goes on with what it was woken with. -/
inductive Resumes (s : State) (fiber : Fiber) (id : PromiseId) (again : Fiber) :
    Next Fiber FiberAnswer → State → Prop
  | cancel (waits : s.senders.delivered.lookup id = none) :
      Resumes s fiber id again (.go fiber) (s.resolve id .cancelled)
  | torn (waits : s.senders.delivered.lookup id = none) : Resumes s fiber id again (.ret .torn)
      { s with senders := s.senders.dropReceiver id }
  | again (resolved : s.senders.delivered.lookup id ≠ none) :
      Resumes s fiber id again (.go again) s
  | ends (r : FiberAnswer) (resolved : s.senders.delivered.lookup id ≠ none)
      (not_woken : woken s id = true → ∃ bounded, fiber = .awaitRecv bounded id) :
      Resumes s fiber id again (.ret r) s

theorem act_awaitSend_cases {p : Payload} {bounded : Bool} {id : PromiseId}
    (h : (next, s') ∈ (Fiber.awaitSend p bounded id).act s) :
    Resumes s (.awaitSend p bounded id) id (.trySend p bounded) next s' := by
  dsimp only [Fiber.act] at h
  split at h
  · next hn =>
    rcases List.mem_cons.mp h with h | h
    · cases h
      exact .cancel hn
    · cases List.mem_singleton.mp h
      exact .torn hn
  · next hs =>
    cases List.mem_singleton.mp h
    exact .again (by simp [hs])
  · next hs =>
    cases List.mem_singleton.mp h
    exact .ends _ (by simp [hs]) (by simp [woken, hs])
  · next hs =>
    split at h
    · rcases List.mem_cons.mp h with h | h
      · cases h
        exact .ends _ (by simp [hs]) (by simp [woken, hs])
      · cases List.mem_singleton.mp h
        exact .again (by simp [hs])
    · cases List.mem_singleton.mp h
      exact .ends _ (by simp [hs]) (by simp [woken, hs])

theorem act_awaitRecv_cases {bounded : Bool} {id : PromiseId}
    (h : (next, s') ∈ (Fiber.awaitRecv bounded id).act s) :
    Resumes s (.awaitRecv bounded id) id (.op (.probe bounded) (.recvFront .tryRecv)) next s' := by
  dsimp only [Fiber.act] at h
  split at h
  · next hn =>
    rcases List.mem_cons.mp h with h | h
    · cases h
      exact .cancel hn
    · cases List.mem_singleton.mp h
      exact .torn hn
  · next hs =>
    cases List.mem_singleton.mp h
    exact .ends _ (by simp [hs]) fun _ => ⟨bounded, rfl⟩
  · next hs =>
    cases List.mem_singleton.mp h
    exact .ends _ (by simp [hs]) fun _ => ⟨bounded, rfl⟩
  · next hs =>
    cases List.mem_singleton.mp h
    exact .again (by simp [hs])

end Cases

/-- What a step of a fiber does to the promises. -/
inductive Touches (s : State) (f : Fiber) (s' : State) : Prop
  | same (senders : s'.senders = s.senders) (made : f.made s = 0)
  | resolve {id : PromiseId} {payload : PromisePayload (List SharedRef)}
      (mine : id ∈ f.hands ∨ id ∈ f.own) (senders : s'.senders = (s.senders.resolve id payload).2)
      (made : f.made s = 0)
  | drop {id : PromiseId} (mine : id ∈ f.own) (senders : s'.senders = s.senders.dropReceiver id)
      (made : f.made s = 0)
  | alloc (senders : s'.senders = s.senders.alloc.2) (made : f.made s = {s.senders.alloc.1})

section Touches

variable {s s' : State} {f : Fiber} {x : PromiseId}

theorem Touches.sound (h : Touches s f s') (hs : s.senders.Sound) : s'.senders.Sound := by
  cases h with
  | same senders made => exact senders ▸ hs
  | resolve mine senders made => exact senders ▸ hs.resolve
  | drop mine senders made => exact senders ▸ hs.dropReceiver
  | alloc senders made => exact senders ▸ hs.alloc

theorem Touches.nextId (h : Touches s f s') : s.senders.nextId ≤ s'.senders.nextId ∧
    ∀ id ∈ f.made s, id < s'.senders.nextId ∧ s.senders.nextId ≤ id := by
  cases h with
  | same senders made | drop mine senders made =>
    rw [senders, made]
    exact ⟨Int.le_refl _, nofun⟩
  | resolve mine senders made =>
    rw [senders, made, Senders.resolve_nextId]
    exact ⟨Int.le_refl _, nofun⟩
  | alloc senders made =>
    rw [senders, made]
    refine ⟨Int.le_of_lt (Int.lt_succ _), fun id hid => ?_⟩
    cases Multiset.mem_singleton.mp hid
    exact ⟨Int.lt_succ _, Int.le_refl _⟩

theorem Touches.live_before (h : Touches s f s') (hl : s'.senders.Live x) :
    s.senders.Live x ∨ x ∈ f.made s := by
  cases h with
  | same senders made => exact .inl (senders ▸ hl)
  | @resolve id payload mine senders made =>
    rw [senders] at hl
    have hne : x ≠ id := (Senders.unresolved_resolve.mp hl.unresolved).2
    exact .inl ((Senders.live_resolve hne).mp hl)
  | drop mine senders made =>
    rw [senders] at hl
    exact .inl (Senders.live_dropReceiver.mp hl).1
  | alloc senders made =>
    by_cases hnew : x = s.senders.alloc.1
    · exact .inr (made ▸ Multiset.mem_singleton.mpr hnew)
    · exact .inl ((Senders.live_alloc hnew).mp (senders ▸ hl))

theorem Touches.live_after (h : Touches s f s') (hs : s.senders.Sound)
    (hl : s.senders.Live x) (hh : x ∉ f.hands) (hown : x ∉ f.own) : s'.senders.Live x := by
  cases h with
  | same senders made => exact senders ▸ hl
  | resolve mine senders made =>
    refine senders ▸ (Senders.live_resolve ?_).mpr hl
    rintro rfl
    exact mine.elim hh hown
  | drop mine senders made =>
    refine senders ▸ Senders.live_dropReceiver.mpr ⟨hl, ?_⟩
    rintro rfl
    exact hown mine
  | alloc senders made =>
    refine senders ▸ (Senders.live_alloc ?_).mpr hl
    exact Int.ne_of_lt (hs.aged x hl.unresolved)

theorem Touches.woken_after (h : Touches s f s') (hs : s.senders.Sound)
    (hw : woken s x = true) : woken s' x = true := by
  suffices hl : s'.senders.delivered.lookup x = s.senders.delivered.lookup x by
    rwa [woken, hl]
  cases h with
  | same senders made => rw [senders]
  | @resolve id payload mine senders made =>
    rw [senders]
    by_cases hx : x = id
    · subst hx
      by_cases hli : s.senders.Live x
      · rw [woken, hs.lookup hli.unresolved] at hw
        cases hw
      · rw [Senders.delivered_resolve hli]
    · exact Senders.lookup_resolve_ne hx
  | drop mine senders made | alloc senders made => rw [senders]; rfl

end Touches

/-- What a step of a fiber does, the room it leaves apart. -/
structure FiberStep (s : State) (f : Fiber) (next : Next Fiber FiberAnswer) (s' : State) :
    Prop where
  closed : s'.channel.closed = false
  onOpen : ∀ f' ∈ next.pcs, f'.onOpen = true
  hands : s'.parked + next.holds Fiber.hands (fun _ => 0) ≤ s.parked + f.hands + f.made s
  own : next.holds Fiber.own (fun _ => 0) ≤ f.own + f.made s
  touches : Touches s f s'
  ids : ∀ id ∈ s'.channel.sendWaiters.ids, id ∈ s.channel.sendWaiters.ids ∨
    ∃ p bounded, next = .go (.awaitSend p bounded id)
  waking : ∀ f' ∈ next.pcs, ∀ id ∈ f'.waking, id ∈ s.channel.sendWaiters.ids
  fresh : ∀ f' ∈ next.pcs, ∀ id ∈ f'.fresh,
    (id ∈ f.fresh ∧ s'.senders = s.senders) ∨ s'.senders.Live id

section FiberSteps

variable {s s' : State} {f : Fiber} {next : Next Fiber FiberAnswer} {role : Role} {pc : Pc}
  {id : PromiseId}

theorem Handles.touches (h : Handles s pc s') : Touches s (.op role pc) s' := by
  cases h with
  | same senders made => exact .same senders made
  | resolve held senders made => exact .resolve (.inl held) senders made
  | alloc senders made => exact .alloc senders made

theorem fresh_of_act {pc' : Pc} (h : (.go pc', s') ∈ act pc s)
    (hreg : pc'.registersSend = true → pc.registersSend = true) (hid : id ∈ pc'.fresh) :
    (id ∈ pc.fresh ∧ s'.senders = s.senders) ∨ s'.senders.Live id := by
  have hr : pc'.registersSend = true := by
    cases pc' <;> first | rfl | cases hid
  cases pc with
  | sendAlloc =>
    cases List.mem_singleton.mp h
    cases List.mem_singleton.mp hid
    exact .inr Senders.live_alloc_self
  | registerSend id' =>
    have h := List.mem_singleton.mp h
    unfold ChannelInner.parkSender at h
    split at h
    · cases h
      exact .inl ⟨hid, rfl⟩
    · split at h
      · cases h
        exact .inl ⟨hid, rfl⟩
      · cases h
  | registerResolve id' payload => cases List.mem_singleton.mp h
  | _ => cases hreg hr

theorem awaits_of_park (ho : s.channel.closed = false)
    (hr : role.parksSend = true) (h : (next, s') ∈ (Fiber.op role (.registerSend id)).act s)
    (hp : id ∈ s'.channel.sendWaiters.ids) (hnew : id ∉ s.channel.sendWaiters.ids) :
    ∃ p bounded, next = .go (.awaitSend p bounded id) := by
  cases role with
  | parkSend p bounded =>
    refine ⟨p, bounded, ?_⟩
    obtain ⟨⟨out, shared⟩, hout, hn⟩ := List.mem_flatMap.mp h
    have hout := List.mem_singleton.mp hout
    unfold ChannelInner.parkSender at hout
    rw [if_neg (by simp [ho])] at hout
    split at hout
    · cases hout
      cases List.mem_singleton.mp hn
      exact absurd hp hnew
    · cases hout
      cases List.mem_singleton.mp hn
      rfl
  | _ => cases hr

theorem ids_of_op {out : Next Pc Answer} (ho : s.channel.closed = false)
    (hf : (Fiber.op role pc).onOpen = true) (hs : Supplies s pc out s')
    (h : (next, s') ∈ (Fiber.op role pc).act s) :
    ∀ id ∈ s'.channel.sendWaiters.ids, id ∈ s.channel.sendWaiters.ids ∨
      ∃ p bounded, next = .go (.awaitSend p bounded id) := by
  intro id hid
  by_cases hold : id ∈ s.channel.sendWaiters.ids
  · exact .inl hold
  · have hp := (hs.ids id hid).resolve_left hold
    subst hp
    refine .inr (awaits_of_park ho ?_ h hid hold)
    simpa [Fiber.onOpen, Pc.onOpen, Pc.registersSend] using hf

theorem fiberStep_op (ho : s.channel.closed = false)
    (hf : (Fiber.op role pc).onOpen = true) (h : (next, s') ∈ (Fiber.op role pc).act s) :
    FiberStep s (.op role pc) next s' := by
  have hpc : pc.onOpen = true := (Bool.and_eq_true_iff.mp hf).1
  rcases act_op_cases h with ⟨pc', hout, rfl⟩ | ⟨answer, hout, hfo⟩
  · have hc := custody_of_act hout
    have hs := supplies_of_act ho hpc hout
    obtain ⟨ho', -, hreg⟩ := hs.goesOn pc' (List.mem_singleton_self pc')
    refine ⟨hs.closed, ?_, hc.hands, hc.own.le, hc.handles.touches,
      ids_of_op ho hf hs h, ?_, ?_⟩
    · intro f' hf'
      cases List.mem_singleton.mp hf'
      have hro := (Bool.and_eq_true_iff.mp hf).2
      cases hr : pc'.registersSend with
      | false => simp [Fiber.onOpen, ho', hr]
      | true =>
        rw [hreg hr, Bool.not_true, Bool.false_or] at hro
        simp [Fiber.onOpen, ho', hro]
    · intro f' hf' id hid
      cases List.mem_singleton.mp hf'
      cases pc' with
      | wakeResolve k id' =>
        cases List.mem_singleton.mp hid
        exact hs.waking k id rfl
      | _ => cases hid
    · intro f' hf' id hid
      cases List.mem_singleton.mp hf'
      exact fresh_of_act hout hreg hid
  · have hc := custody_of_act hout
    have hs := supplies_of_act ho hpc hout
    have hids := ids_of_op ho hf hs h
    have hh : s'.parked + 0 ≤ s.parked + pc.hands + s.made pc := hc.hands
    have hown : answer.own ≤ pc.own + s.made pc := hc.own.le
    have ht : Touches s (.op role pc) s' := hc.handles.touches
    cases follow_cases hfo with
    | ret r =>
      exact ⟨hs.closed, Next.forall_pcs_ret r, hh, Multiset.zero_le _, ht, hids,
        Next.forall_pcs_ret r, Next.forall_pcs_ret r⟩
    | parkSend full =>
      refine ⟨hs.closed, ?_, hh, Multiset.zero_le _, ht, hids, ?_, ?_⟩
      all_goals simp [Fiber.onOpen, Pc.onOpen, Role.parksSend, Fiber.waking, Pc.waking, Fiber.fresh,
        Pc.fresh]
    | awaitSend at_park registered | awaitRecv registered =>
      subst registered
      refine ⟨hs.closed, ?_, hh, hown, ht, hids, ?_, ?_⟩
      all_goals simp [Fiber.onOpen, Fiber.waking, Fiber.fresh]
    | parkRecv =>
      refine ⟨hs.closed, ?_, hh, Multiset.zero_le _, ht, hids, ?_, ?_⟩
      all_goals simp [Fiber.onOpen, Pc.onOpen, Pc.registersSend, Fiber.waking, Pc.waking,
        Fiber.fresh, Pc.fresh]

theorem fiberStep_resumes {again : Fiber} (hopen : s.channel.closed = false)
    (hown : f.own = {id}) (hh : f.hands = 0) (hm : f.made s = 0) (ho : f.onOpen = true)
    (hw : f.waking = []) (hf : f.fresh = []) (ha : again.onOpen = true)
    (hag : again.hands = 0) (haga : again.own = 0) (hagai : again.waking = [])
    (hagainF : again.fresh = []) (h : Resumes s f id again next s') : FiberStep s f next s' := by
  have hmi : id ∈ f.own := hown ▸ Multiset.mem_singleton_self id
  cases h with
  | cancel waits =>
    refine ⟨hopen, ?_, ?_, ?_, .resolve (.inr hmi) rfl hm, fun _ hid => .inl hid, ?_, ?_⟩
    · simp [ho]
    · rw [hm, add_zero]
      exact le_rfl
    · rw [hm, add_zero]
      exact le_rfl
    · simp [hw]
    · simp [hf]
  | torn waits =>
    refine ⟨hopen, Next.forall_pcs_ret _, ?_, Multiset.zero_le _, .drop hmi rfl hm,
      fun _ hid => .inl hid, Next.forall_pcs_ret _, Next.forall_pcs_ret _⟩
    simp only [State.parked, Next.holds, hh, hm, add_zero, le_refl]
  | again resolved =>
    refine ⟨hopen, ?_, ?_, ?_, .same rfl hm, fun _ hid => .inl hid, ?_, ?_⟩
    · simp [ha]
    · simp only [Next.holds, hag, hh, hm, add_zero, le_refl]
    · simp only [Next.holds, haga]
      exact Multiset.zero_le _
    · simp [hagai]
    · simp [hagainF]
  | ends r resolved not_woken =>
    refine ⟨hopen, Next.forall_pcs_ret r, ?_, Multiset.zero_le _, .same rfl hm,
      fun _ hid => .inl hid, Next.forall_pcs_ret r, Next.forall_pcs_ret r⟩
    simp only [Next.holds, hh, hm, add_zero, le_refl]

/-- **Every step of a fiber.** -/
theorem fiberStep_of_act (ho : s.channel.closed = false) (hf : f.onOpen = true)
    (h : (next, s') ∈ f.act s) : FiberStep s f next s' := by
  cases f with
  | op role pc => exact fiberStep_op ho hf h
  | awaitSend p bounded id =>
    exact fiberStep_resumes ho rfl rfl rfl rfl rfl rfl rfl rfl rfl rfl rfl
      (act_awaitSend_cases h)
  | awaitRecv bounded id =>
    exact fiberStep_resumes ho rfl rfl rfl rfl rfl rfl rfl rfl rfl rfl rfl
      (act_awaitRecv_cases h)

end FiberSteps

/-! ## Order -/

/-- The invariant about promises: each belongs to one fiber, is on one list or in
one hand, and a live one of a parked sender has a fiber that waits on it. -/
structure Orderly (c : FiberConf) : Prop where
  closed : c.shared.channel.closed = false
  onOpen : ∀ f ∈ c.running, f.onOpen = true
  sound : c.shared.senders.Sound
  hands : (c.shared.parked + c.inHands Fiber.hands).Nodup
  own : (c.inHands Fiber.own).Nodup
  handsAged : ∀ id ∈ c.shared.parked + c.inHands Fiber.hands, id < c.shared.senders.nextId
  ownAged : ∀ id ∈ c.inHands Fiber.own, id < c.shared.senders.nextId
  fresh : ∀ f ∈ c.running, ∀ id ∈ f.fresh, c.shared.senders.Live id
  awaited : ∀ id, (id ∈ c.shared.channel.sendWaiters.ids ∨ ∃ f ∈ c.running, id ∈ f.waking) →
    c.shared.senders.Live id → ∃ p bounded, .awaitSend p bounded id ∈ c.running

section Order

variable {c c' : FiberConf} {ok : FiberConf → Fiber → Prop}

theorem nodup_add_made {old new made : Multiset PromiseId} {nextId : PromiseId}
    (hold : old.Nodup) (ha : ∀ id ∈ old, id < nextId) (hm : ∀ id ∈ made, nextId ≤ id)
    (ho : made.Nodup) (hle : new ≤ old + made) : new.Nodup := by
  refine Multiset.nodup_of_le hle ?_
  refine Multiset.nodup_add.mpr ⟨hold, ho, Multiset.disjoint_left.mpr fun {id} hid hnew => ?_⟩
  exact Int.not_lt.mpr (hm id hnew) (ha id hid)

variable {f : Fiber} {id : PromiseId}

theorem made_nodup {s s' : State} (h : Touches s f s') : (f.made s).Nodup := by
  cases h with
  | same senders made | resolve mine senders made | drop mine senders made =>
    exact made ▸ Multiset.nodup_zero
  | alloc senders made => exact made ▸ Multiset.nodup_singleton _

theorem Fiber.fresh_mem (h : id ∈ f.fresh) : id ∈ f.hands ∧ id ∈ f.own := by
  cases f with
  | op role pc =>
    cases pc with
    | registerSend id' | registerResolve id' payload =>
      cases List.mem_singleton.mp h
      exact ⟨Multiset.mem_singleton_self id, Multiset.mem_singleton_self id⟩
    | _ => cases h
  | awaitSend p bounded id' => cases h
  | awaitRecv bounded id' => cases h

theorem Fiber.waking_mem (h : id ∈ f.waking) : id ∈ f.hands := by
  cases f with
  | op role pc =>
    cases pc with
    | wakeResolve k id' => exact h
    | _ => cases h
  | awaitSend p bounded id' => cases h
  | awaitRecv bounded id' => cases h

theorem not_mem_of_nodup {held here others : Multiset PromiseId}
    (h : (here + (held + others)).Nodup) (hid : id ∈ others) : id ∉ held := by
  have hp : (held + others).Nodup := (Multiset.nodup_add.mp h).2.1
  exact fun hh => Multiset.disjoint_left.mp (Multiset.nodup_add.mp hp).2.2 hh hid

section Act

variable {before after : List Fiber} {next : Next Fiber FiberAnswer} {s' : State}

theorem hands_act (hrunning : c.running = before ++ f :: after)
    (hs : FiberStep c.shared f next s') :
    s'.parked + (next.holds Fiber.hands (fun _ => 0) + inOtherHands Fiber.hands before after) ≤
      (c.shared.parked + c.inHands Fiber.hands) + f.made c.shared := by
  have hle := add_le_add_left hs.hands (inOtherHands Fiber.hands before after)
  rw [Config.inHands_eq hrunning]
  calc _ = s'.parked + next.holds Fiber.hands (fun _ => 0) +
        inOtherHands Fiber.hands before after := by abel
    _ ≤ _ := hle
    _ = _ := by abel

theorem own_act (hrunning : c.running = before ++ f :: after) (hs : FiberStep c.shared f next s') :
    next.holds Fiber.own (fun _ => 0) + inOtherHands Fiber.own before after ≤
      c.inHands Fiber.own + f.made c.shared := by
  have hle := add_le_add_left hs.own (inOtherHands Fiber.own before after)
  rw [Config.inHands_eq hrunning]
  calc _ ≤ _ := hle
    _ = _ := by abel

theorem Orderly.fresh_act (h : Orderly c) (hrunning : c.running = before ++ f :: after)
    (hs : FiberStep c.shared f next s') :
    ∀ x ∈ before ++ next.pcs ++ after, ∀ id ∈ x.fresh, s'.senders.Live id := by
  intro x hx id hid
  have hmem : x ∈ before ++ after ∨ x ∈ next.pcs := by
    simp only [List.mem_append] at hx ⊢
    tauto
  have hh := h.hands
  have hown : (0 + c.inHands Fiber.own).Nodup := (zero_add (c.inHands Fiber.own)).symm ▸ h.own
  rw [Config.inHands_eq hrunning] at hh hown
  have hold : ∀ y ∈ c.running, ∀ id ∈ y.fresh, c.shared.senders.Live id := h.fresh
  rcases hmem with ho | hnew
  · have hl : c.shared.senders.Live id := by
      refine hold x ?_ id hid
      rw [hrunning]
      simp only [List.mem_append, List.mem_cons] at ho ⊢
      tauto
    obtain ⟨hin, hinO⟩ := Fiber.fresh_mem hid
    refine hs.touches.live_after h.sound hl ?_ ?_
    · exact not_mem_of_nodup hh (mem_inOtherHands.mpr ⟨x, ho, hin⟩)
    · exact not_mem_of_nodup hown (mem_inOtherHands.mpr ⟨x, ho, hinO⟩)
  · rcases hs.fresh x hnew id hid with ⟨hm, hsa⟩ | hl
    · refine hsa ▸ hold f ?_ id hm
      rw [hrunning]
      exact List.mem_append_right _ List.mem_cons_self
    · exact hl

theorem stays_awaiting (h : Orderly c) (hrunning : c.running = before ++ f :: after)
    (hout : (next, s') ∈ f.act c.shared) {p : Payload} {bounded : Bool} {id : PromiseId}
    (ha : .awaitSend p bounded id ∈ c.running) (hl : c.shared.senders.Live id)
    (hl' : s'.senders.Live id) : .awaitSend p bounded id ∈ before ++ next.pcs ++ after := by
  rw [hrunning] at ha
  simp only [List.mem_append, List.mem_cons] at ha ⊢
  rcases ha with hmem | rfl | hmem
  · exact .inl (.inl hmem)
  · cases act_awaitSend_cases hout with
    | cancel waits => exact .inl (.inr (List.mem_singleton_self _))
    | torn waits => exact absurd rfl (Senders.live_dropReceiver.mp hl').2
    | again resolved | ends r resolved not_woken =>
      exact absurd (h.sound.lookup hl.unresolved) resolved
  · exact .inr hmem

theorem Orderly.awaited_act (h : Orderly c) (hrunning : c.running = before ++ f :: after)
    (hout : (next, s') ∈ f.act c.shared) (hs : FiberStep c.shared f next s') (id : PromiseId)
    (hid : id ∈ s'.channel.sendWaiters.ids ∨ ∃ x ∈ before ++ next.pcs ++ after, id ∈ x.waking)
    (hl' : s'.senders.Live id) :
    ∃ p bounded, .awaitSend p bounded id ∈ before ++ next.pcs ++ after := by
  have hb : (id ∈ c.shared.channel.sendWaiters.ids ∨ ∃ x ∈ c.running, id ∈ x.waking) ∨
      ∃ p bounded, next = .go (.awaitSend p bounded id) := by
    rcases hid with hp | ⟨x, hx, hw⟩
    · exact (hs.ids id hp).imp_left .inl
    · simp only [List.mem_append] at hx
      rw [hrunning]
      rcases hx with (hx | hx) | hx
      · exact .inl (.inr ⟨x, List.mem_append_left _ hx, hw⟩)
      · exact .inl (.inl (hs.waking x hx id hw))
      · exact .inl (.inr ⟨x, List.mem_append_right _ (List.mem_cons_of_mem _ hx), hw⟩)
  rcases hb with hb | ⟨p, bounded, rfl⟩
  · have hh : id ∈ c.shared.parked + c.inHands Fiber.hands := by
      rcases hb with hp | ⟨x, hx, hw⟩
      · exact Multiset.mem_add.mpr (.inl (Multiset.mem_add.mpr (.inr hp)))
      · exact Multiset.mem_add.mpr (.inr (mem_sum_map.mpr ⟨x, hx, Fiber.waking_mem hw⟩))
    have hl : c.shared.senders.Live id := by
      refine (hs.touches.live_before hl').resolve_right fun hm => ?_
      exact Int.not_lt.mpr (hs.touches.nextId.2 id hm).2 (h.handsAged id hh)
    obtain ⟨p, bounded, ha⟩ := h.awaited id hb hl
    exact ⟨p, bounded, stays_awaiting h hrunning hout ha hl hl'⟩
  · refine ⟨p, bounded, ?_⟩
    simp only [List.mem_append]
    exact .inl (.inr (List.mem_singleton_self _))

theorem Orderly.act (h : Orderly c) (hrunning : c.running = before ++ f :: after)
    (hout : (next, s') ∈ f.act c.shared) (hs : FiberStep c.shared f next s')
    {returned : List FiberAnswer} : Orderly ⟨s', before ++ next.pcs ++ after, returned⟩ := by
  have hg := hs.touches.nextId
  have ho := made_nodup hs.touches
  have hm : ∀ id ∈ f.made c.shared, c.shared.senders.nextId ≤ id := fun id hid => (hg.2 id hid).2
  have ha : ∀ {old : Multiset PromiseId}, (∀ id ∈ old, id < c.shared.senders.nextId) →
      ∀ {new : Multiset PromiseId}, new ≤ old + f.made c.shared → ∀ id ∈ new,
        id < s'.senders.nextId := by
    intro old hold new hle id hid
    rcases Multiset.mem_add.mp (Multiset.mem_of_le hle hid) with hid | hid
    · exact Int.lt_of_lt_of_le (hold id hid) hg.1
    · exact (hg.2 id hid).1
  refine ⟨hs.closed, ?_, hs.touches.sound h.sound, ?_, ?_, ?_, ?_, h.fresh_act hrunning hs,
    h.awaited_act hrunning hout hs⟩
  · exact forall_running (hrunning ▸ h.onOpen) hs.onOpen
  · rw [Config.inHands_next]
    exact nodup_add_made h.hands h.handsAged hm ho (hands_act hrunning hs)
  · rw [Config.inHands_next]
    exact nodup_add_made h.own h.ownAged hm ho (own_act hrunning hs)
  · rw [Config.inHands_next]
    exact ha h.handsAged (hands_act hrunning hs)
  · rw [Config.inHands_next]
    exact ha h.ownAged (own_act hrunning hs)

end Act

theorem Orderly.call (h : Orderly c) (k : FiberCall) :
    Orderly { c with running := c.running ++ [k.entry] } := by
  have hh : k.entry.hands = 0 := by cases k <;> rfl
  have hown : k.entry.own = 0 := by cases k <;> rfl
  have hf : k.entry.fresh = [] := by cases k <;> rfl
  have hw : k.entry.waking = [] := by cases k <;> rfl
  have ho : k.entry.onOpen = true := by cases k <;> rfl
  have hsplit : ∀ {x : Fiber}, x ∈ c.running ++ [k.entry] → x ∈ c.running ∨ x = k.entry :=
    fun hx => (List.mem_append.mp hx).imp_right List.mem_singleton.mp
  refine ⟨h.closed, fun x hx => ?_, h.sound, ?_, ?_, ?_, ?_, fun x hx id hid => ?_,
    fun id hid hl => ?_⟩
  · exact forall_called h.onOpen ho x hx
  · rw [Config.inHands_called hh]
    exact h.hands
  · rw [Config.inHands_called hown]
    exact h.own
  · rw [Config.inHands_called hh]
    exact h.handsAged
  · rw [Config.inHands_called hown]
    exact h.ownAged
  · rcases hsplit hx with hx | rfl
    · exact h.fresh x hx id hid
    · rw [hf] at hid
      cases hid
  · obtain ⟨p, bounded, hmem⟩ := h.awaited id (hid.imp_right fun ⟨x, hx, hxid⟩ => by
      rcases hsplit hx with hx | rfl
      · exact ⟨x, hx, hxid⟩
      · rw [hw] at hxid
        cases hxid) hl
    exact ⟨p, bounded, List.mem_append_left _ hmem⟩

theorem Orderly.step (h : Orderly c) (hf : fibers.Fires ok c c') : Orderly c' := by
  cases hf with
  | call k => exact h.call k
  | env e => exact e.elim
  | @act before after f next shared hrunning hmet hout =>
    have hmem : f ∈ c.running := Config.mem_running hrunning
    exact h.act hrunning hout (fiberStep_of_act h.closed (h.onOpen f hmem) hout)

theorem orderly_start (capacity : Nat) : Orderly (fiberStart capacity) where
  closed := rfl
  onOpen := fun _ hf => absurd hf List.not_mem_nil
  sound := Senders.sound_empty
  hands := Multiset.nodup_zero
  own := Multiset.nodup_zero
  handsAged := fun _ hid => absurd hid (Multiset.notMem_zero _)
  ownAged := fun _ hid => absurd hid (Multiset.notMem_zero _)
  fresh := fun _ hf => absurd hf List.not_mem_nil
  awaited := fun _ _ hl => nomatch hl

end Order

end OxPhp.Shared.Channel
