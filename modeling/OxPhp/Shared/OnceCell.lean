import OxPhp.Lib.Lock
import OxPhp.Shared.Containers

/-!
# Once, step by step

`trySet`, `getOrInit` and `get` of `types/once.rs` under any interleaving.  The
state word, the value cell and the poison info are written in separate steps under
`set_lock`; readers do not take the lock.
-/

namespace OxPhp.Shared.OnceCell

open Interleave

/-- `OnceState`. -/
inductive Status where
  | uninit
  | pending
  | ready
  | poisoned
deriving DecidableEq

/-- The cell.  `stores` lists what has been handed to `OnceLock::set`. -/
structure Cell where
  status : Status
  value : Option SharedValue
  poison : Option PoisonInfo
  locked : Bool
  stores : List SharedValue

/-- `OnceLock::set`: the first value stays. -/
def Cell.setValue (s : Cell) (v : SharedValue) : Cell :=
  { s with value := s.value.or (some v), stores := s.stores ++ [v] }

/-- How the factory of a `getOrInit` comes out. -/
inductive Factory where
  | returns (v : SharedValue)
  | fails (e : OnceFactoryError)
  | unwinds

/-- The operations on a Once. -/
inductive Call where
  | trySet (v : SharedValue)
  | getOrInit (factory : Factory)
  | get

inductive Answer where
  | stored (b : Bool)
  | value (v : SharedValue)
  /-- `PoisonedException`, with the info it was made from. -/
  | poisoned (info : Option PoisonInfo)
  | uninitialized (pending : Bool)
  | failed (e : SharedError)
  | unwound
  /-- `expect("ready has value")`. -/
  | missing

/-- What follows the unlocking. -/
inductive After where
  | answer (a : Answer)
  | readPoison

/-- Where an operation stands. -/
inductive Pc where
  /-- The state is looked at twice before the lock, by the handler and by `try_set`. -/
  | trySetCheck (again : Bool) (v : SharedValue)
  | trySetLock (v : SharedValue)
  | trySetRecheck (v : SharedValue)
  | trySetValue (v : SharedValue)
  | trySetReady
  | initCheck (factory : Factory)
  | initLock (factory : Factory)
  | initRecheck (factory : Factory)
  | initPending (factory : Factory)
  | runFactory (factory : Factory)
  | initValue (v : SharedValue)
  | initReady (v : SharedValue)
  | initPoison (info : PoisonInfo) (e : SharedError)
  | initPoisoned (e : SharedError)
  | initReset (a : Answer)
  | readValueLocked
  | unlock (after : After)
  | readValue
  | readPoison
  | getCheck
  | getRecheck

def Call.entry : Call → Pc
  | trySet v => .trySetCheck true v
  | getOrInit factory => .initCheck factory
  | get => .getCheck

/-- The info a factory that made no storable value leaves. -/
def failure (mode : OnceFailureMode) (info : PoisonInfo) (e : SharedError) : Pc :=
  match mode with
  | .reset => .initReset (.failed e)
  | .poison => .initPoison info e

/-- What an initializer does with the outcome of its factory. -/
def afterFactory (mode : OnceFailureMode) : Factory → Pc
  | .returns v => .initValue v
  | .fails (.threw info) => failure mode info .generic
  | .fails .notSerialisable => failure mode OnceInner.notSerialisableInfo .type
  | .fails .invalid => .initReset (.failed .type)
  | .fails .bailout => .initReset (.failed .generic)
  -- `PendingResetGuard`
  | .unwinds => .initReset .unwound

/-- The value that `Ready` promises. -/
def Cell.read (s : Cell) : Answer :=
  match s.value with
  | some v => .value v
  | none => .missing

/-- One step of an operation; none while it waits for the lock. -/
def act (mode : OnceFailureMode) : Pc → Cell → List (Next Pc Answer × Cell)
  | .trySetCheck again v, s =>
    match s.status with
    | .poisoned => [(.go .readPoison, s)]
    | .ready => [(.ret (.stored false), s)]
    | .pending => [(.ret (.stored false), s)]
    | .uninit => [(.go (if again then .trySetCheck false v else .trySetLock v), s)]
  | .trySetLock v, s =>
    if s.locked then [] else [(.go (.trySetRecheck v), { s with locked := true })]
  | .trySetRecheck v, s =>
    match s.status with
    | .poisoned => [(.go (.unlock .readPoison), s)]
    | .ready => [(.go (.unlock (.answer (.stored false))), s)]
    | .pending => [(.go (.unlock (.answer (.stored false))), s)]
    | .uninit => [(.go (.trySetValue v), s)]
  | .trySetValue v, s => [(.go .trySetReady, s.setValue v)]
  | .trySetReady, s => [(.go (.unlock (.answer (.stored true))), { s with status := .ready })]
  | .initCheck factory, s =>
    match s.status with
    | .ready => [(.go .readValue, s)]
    | .poisoned => [(.go .readPoison, s)]
    | _ => [(.go (.initLock factory), s)]
  | .initLock factory, s =>
    if s.locked then [] else [(.go (.initRecheck factory), { s with locked := true })]
  | .initRecheck factory, s =>
    match s.status with
    | .ready => [(.go .readValueLocked, s)]
    | .poisoned => [(.go (.unlock .readPoison), s)]
    | _ => [(.go (.initPending factory), s)]
  | .initPending factory, s => [(.go (.runFactory factory), { s with status := .pending })]
  | .runFactory factory, s => [(.go (afterFactory mode factory), s)]
  | .initValue v, s => [(.go (.initReady v), s.setValue v)]
  | .initReady v, s => [(.go (.unlock (.answer (.value v))), { s with status := .ready })]
  | .initPoison info e, s => [(.go (.initPoisoned e), { s with poison := some info })]
  | .initPoisoned e, s => [(.go (.unlock (.answer (.failed e))), { s with status := .poisoned })]
  | .initReset a, s => [(.go (.unlock (.answer a)), { s with status := .uninit })]
  | .readValueLocked, s => [(.go (.unlock (.answer s.read)), s)]
  | .unlock (.answer a), s => [(.ret a, { s with locked := false })]
  | .unlock .readPoison, s => [(.go .readPoison, { s with locked := false })]
  | .readValue, s => [(.ret s.read, s)]
  | .readPoison, s => [(.ret (.poisoned s.poison), s)]
  | .getCheck, s =>
    match s.status with
    | .ready => [(.go .getRecheck, s)]
    | .poisoned => [(.go .readPoison, s)]
    | .pending => [(.ret (.uninitialized true), s)]
    | .uninit => [(.ret (.uninitialized false), s)]
  | .getRecheck, s =>
    if s.status = .ready then [(.go .readValue, s)] else [(.ret .missing, s)]

/-- The cell, and the operations in progress. -/
abbrev State := Config Cell Pc Answer

/-- The Once with its failure mode. -/
def machine (mode : OnceFailureMode) : Machine Cell Pc Call Answer Empty where
  entry := Call.entry
  act := act mode
  env := nofun

/-- A new Once. -/
def start : State := ⟨⟨.uninit, none, none, false, []⟩, [], []⟩

/-! ## The lock -/

/-- What holds of the cell at any time. -/
structure Consistent (s : Cell) : Prop where
  value : s.value = s.stores.head?
  once : s.stores.length ≤ 1
  ready : s.status = .ready → s.value.isSome
  poisoned : s.status = .poisoned → s.poison.isSome

/-- What holds of it while the lock is free. -/
structure Settled (s : Cell) : Prop where
  notPending : s.status ≠ .pending
  stored : s.value.isSome → s.status = .ready

/-- Nothing is stored. -/
def Vacant (status : Status) (s : Cell) : Prop := s.status = status ∧ s.value = none

/-- A value is stored, and the state does not say so yet. -/
def Filled (status : Status) (v : SharedValue) (s : Cell) : Prop :=
  s.status = status ∧ s.value = some v

/-- The operation has `set_lock`. -/
def Pc.holds : Pc → Bool
  | trySetRecheck _ => true
  | trySetValue _ => true
  | trySetReady => true
  | initRecheck _ => true
  | initPending _ => true
  | runFactory _ => true
  | initValue _ => true
  | initReady _ => true
  | initPoison _ _ => true
  | initPoisoned _ => true
  | initReset _ => true
  | readValueLocked => true
  | unlock _ => true
  | _ => false

/-- An initializer that has claimed the cell and not given it up. -/
def Pc.initializing : Pc → Bool
  | runFactory _ => true
  | initValue _ => true
  | initReady _ => true
  | initPoison _ _ => true
  | initPoisoned _ => true
  | initReset _ => true
  | _ => false

/-- An answer the cell bears out. -/
def Answered (s : Cell) : Answer → Prop
  | .value v => s.value = some v
  | .poisoned info => info.isSome
  | .stored true => s.value.isSome
  | .missing => False
  | _ => True

/-- What the holder of the lock knows of the cell. -/
def Inside (s : Cell) : Pc → Prop
  | .trySetRecheck _ => Settled s
  | .trySetValue _ => Vacant .uninit s
  | .trySetReady => ∃ v, Filled .uninit v s
  | .initRecheck _ => Settled s
  | .initPending _ => Vacant .uninit s
  | .runFactory _ => Vacant .pending s
  | .initValue _ => Vacant .pending s
  | .initReady v => Filled .pending v s
  | .initPoison _ _ => Vacant .pending s
  | .initPoisoned _ => Vacant .pending s ∧ s.poison.isSome
  | .initReset a => Vacant .pending s ∧ ∀ s', Answered s' a
  | .readValueLocked => Settled s ∧ s.status = .ready
  | .unlock (.answer a) => Settled s ∧ Answered s a
  | .unlock .readPoison => Settled s ∧ s.status = .poisoned
  | _ => False

/-- What an operation without the lock has seen, and may rely on. -/
def Outside (s : Cell) : Pc → Prop
  | .readValue => s.status = .ready
  | .readPoison => s.status = .poisoned
  | .getRecheck => s.status = .ready
  | _ => True

/-- Ready and poisoned are for good, and so is a stored value. -/
structure Grows (s s' : Cell) : Prop where
  ready : s.status = .ready → s'.status = .ready
  poisoned : s.status = .poisoned → s'.status = .poisoned
  value : ∀ v, s.value = some v → s'.value = some v

/-- `set_lock`, and what it protects. -/
def setLock : LockSpec Cell Pc Answer where
  locked := Cell.locked
  holds := Pc.holds
  always := Consistent
  free := Settled
  inside := Inside
  outside := Outside
  answered := Answered
  grows := Grows

section Steps

variable {mode : OnceFailureMode} {s s' : Cell} {pc : Pc} {next : Next Pc Answer}

theorem Grows.refl (s : Cell) : Grows s s := ⟨id, id, fun _ => id⟩

theorem Grows.trans {s₁ s₂ s₃ : Cell} (h₁ : Grows s₁ s₂) (h₂ : Grows s₂ s₃) : Grows s₁ s₃ :=
  ⟨h₂.ready ∘ h₁.ready, h₂.poisoned ∘ h₁.poisoned, fun v => h₂.value v ∘ h₁.value v⟩

variable {status : Status} {answer : Answer} {v : SharedValue}

/-- A state that is neither ready nor poisoned may go anywhere. -/
theorem Grows.of_open (hs : s.status = status)
    (ho : status = .uninit ∨ status = .pending) (hva : s.value = none ∨ s'.value = s.value) :
    Grows s s' := by
  refine ⟨?_, ?_, ?_⟩
  · intro hr
    rw [hs] at hr
    rcases ho with rfl | rfl <;> cases hr
  · intro hp
    rw [hs] at hp
    rcases ho with rfl | rfl <;> cases hp
  · intro v hv
    rcases hva with hn | hsa
    · rw [hn] at hv
      cases hv
    · exact hsa.trans hv

theorem Consistent.withStatus (h : Consistent s) (status : Status)
    (hr : status = .ready → s.value.isSome) (hp : status = .poisoned → s.poison.isSome) :
    Consistent { s with status } :=
  ⟨h.value, h.once, hr, hp⟩

theorem Settled.vacant (h : Settled s) (hs : s.status = .uninit) : Vacant .uninit s := by
  refine ⟨hs, Option.not_isSome_iff_eq_none.mp fun hso => ?_⟩
  have hr := h.stored hso
  rw [hs] at hr
  cases hr

theorem settled_of_none (hs : s.status ≠ .pending) (hv : s.value = none) : Settled s :=
  ⟨hs, fun hso => by rw [hv] at hso; cases hso⟩

/-- An answer stays true. -/
theorem answered_grows (h : Grows s s') (ha : Answered s answer) : Answered s' answer := by
  cases answer with
  | value v => exact h.value v ha
  | stored b =>
    cases b with
    | false => trivial
    | true =>
      obtain ⟨v, hv⟩ := Option.isSome_iff_exists.mp ha
      exact Option.isSome_iff_exists.mpr ⟨v, h.value v hv⟩
  | _ => exact ha

theorem outside_grows (h : Grows s s') (ho : Outside s pc) : Outside s' pc := by
  cases pc with
  | readValue | getRecheck => exact h.ready ho
  | readPoison => exact h.poisoned ho
  | _ => trivial

theorem afterFactory_inside (mode : OnceFailureMode) (factory : Factory) (h : Vacant .pending s) :
    (afterFactory mode factory).holds = true ∧ Inside s (afterFactory mode factory) := by
  have hf : ∀ info e, (failure mode info e).holds = true ∧ Inside s (failure mode info e) := by
    intro info e
    cases mode with
    | reset => exact ⟨rfl, h, fun _ => trivial⟩
    | poison => exact ⟨rfl, h⟩
  cases factory with
  | returns v => exact ⟨rfl, h⟩
  | unwinds => exact ⟨rfl, h, fun _ => trivial⟩
  | fails e =>
    cases e with
    | threw info => exact hf info .generic
    | notSerialisable => exact hf _ .type
    | invalid | bailout => exact ⟨rfl, h, fun _ => trivial⟩

theorem leaves_answer (h : Answered s answer) : setLock.Leaves s (.ret answer) :=
  ⟨Next.forall_pcs_ret _, fun _ ha => List.mem_singleton.mp ha ▸ h⟩

theorem leaves_go (h : Outside s pc := by exact trivial) (hh : pc.holds = false := by rfl) :
    setLock.Leaves s (.go pc) :=
  ⟨fun _ hpc => List.mem_singleton.mp hpc ▸ ⟨hh, h⟩, fun _ ha => absurd ha List.not_mem_nil⟩

theorem Consistent.read_answered (h : Consistent s) (hr : s.status = .ready) :
    Answered s s.read := by
  obtain ⟨v, hv⟩ := Option.isSome_iff_exists.mp (h.ready hr)
  rw [Cell.read, hv]
  exact hv

theorem takes (ha : Consistent s) (hf : ¬s.locked = true) (hh : pc.holds = true)
    (hin : ∀ s, Settled s → Inside s pc) :
    s.locked = false ∧ (Settled s → setLock.Stays { s with locked := true } (.go pc)) ∧
      Consistent { s with locked := true } ∧ Grows s { s with locked := true } := by
  refine ⟨Bool.eq_false_iff.mpr hf, fun hs => ?_, ?_, id, id, fun _ => id⟩
  · exact ⟨pc, rfl, rfl, hh, hin _ ⟨hs.notPending, hs.stored⟩⟩
  · exact ⟨ha.value, ha.once, ha.ready, ha.poisoned⟩

/-- An operation without the lock changes nothing, or takes it. -/
theorem waits (ha : Consistent s) (hpc : setLock.Waiting s pc)
    (hout : (next, s') ∈ act mode pc s) : (s' = s ∧ setLock.Leaves s next) ∨
      (s.locked = false ∧ (Settled s → setLock.Stays s' next) ∧ Consistent s' ∧ Grows s s') := by
  obtain ⟨hh, ho⟩ := hpc
  cases pc with
  | trySetCheck again v =>
    rw [act] at hout
    split at hout <;> cases sole_outcome hout
    · next hs => exact .inl ⟨rfl, leaves_go hs⟩
    · exact .inl ⟨rfl, leaves_answer trivial⟩
    · exact .inl ⟨rfl, leaves_answer trivial⟩
    · cases again <;> exact .inl ⟨rfl, leaves_go⟩
  | trySetLock v | initLock factory =>
    rw [act] at hout
    split at hout
    · cases hout
    · next hf =>
      cases sole_outcome hout
      exact .inr (takes ha hf rfl fun _ hse => hse)
  | initCheck factory =>
    rw [act] at hout
    split at hout <;> cases sole_outcome hout
    · next hs => exact .inl ⟨rfl, leaves_go hs⟩
    · next hs => exact .inl ⟨rfl, leaves_go hs⟩
    · exact .inl ⟨rfl, leaves_go⟩
  | readValue =>
    cases sole_outcome hout
    exact .inl ⟨rfl, leaves_answer (ha.read_answered ho)⟩
  | readPoison =>
    cases sole_outcome hout
    exact .inl ⟨rfl, leaves_answer (ha.poisoned ho)⟩
  | getCheck =>
    rw [act] at hout
    split at hout <;> cases sole_outcome hout
    · next hs => exact .inl ⟨rfl, leaves_go hs⟩
    · next hs => exact .inl ⟨rfl, leaves_go hs⟩
    · exact .inl ⟨rfl, leaves_answer trivial⟩
    · exact .inl ⟨rfl, leaves_answer trivial⟩
  | getRecheck =>
    -- a reader that saw `Ready` finds it again
    have hr : s.status = .ready := ho
    rw [act, if_pos hr] at hout
    cases sole_outcome hout
    exact .inl ⟨rfl, leaves_go hr⟩
  | _ => cases hh

/-! One lemma for each step under the lock. -/

/-- What may come of a step of the lock's holder: it stays, or leaves the cell settled. -/
def Keeps (s s' : Cell) (next : Next Pc Answer) : Prop :=
  Consistent s' ∧ Grows s s' ∧
    (setLock.Stays s' next ∨ (s'.locked = false ∧ Settled s' ∧ setLock.Leaves s' next))

/-- A state that is not final may change. -/
theorem Keeps.goes (ha : Consistent s') (hl : s'.locked = true) (hs : s.status = status)
    (hva : s.value = none ∨ s'.value = s.value) (hin : Inside s' pc)
    (ho : status = .uninit ∨ status = .pending := by decide) (hh : pc.holds = true := by rfl) :
    Keeps s s' (.go pc) :=
  ⟨ha, .of_open hs ho hva, .inl ⟨pc, rfl, hl, hh, hin⟩⟩

/-- The holder has only looked. -/
theorem Keeps.looked (ha : Consistent s) (hl : s.locked = true) (hin : Inside s pc)
    (hh : pc.holds = true := by rfl) : Keeps s s (.go pc) :=
  ⟨ha, .refl s, .inl ⟨pc, rfl, hl, hh, hin⟩⟩

theorem Vacant.setValue (h : Vacant status s)
    (ha : Consistent s) : Filled status v (s.setValue v) ∧ (s.setValue v).stores = [v] := by
  have hs : s.stores = [] := by
    have hv := ha.value
    rw [h.2] at hv
    exact List.head?_eq_none_iff.mp hv.symm
  refine ⟨⟨h.1, ?_⟩, ?_⟩
  · rw [Cell.setValue, h.2]
    rfl
  · rw [Cell.setValue, hs]
    rfl

theorem consistent_setValue (h : Vacant status s)
    (ha : Consistent s) (hr : status ≠ .ready) : Consistent (s.setValue v) := by
  obtain ⟨⟨hst, hv⟩, hsto⟩ : Filled status v (s.setValue v) ∧ _ := h.setValue ha
  refine ⟨?_, ?_, ?_, ha.poisoned⟩
  · rw [hv, hsto]
    rfl
  · rw [hsto]
    exact le_rfl
  · intro hs
    exact absurd (hst.symm.trans hs) hr

variable (ha : Consistent s) (hl : s.locked = true)

include ha hl

theorem keeps_trySetRecheck (hs : Settled s) (hout : (next, s') ∈ act mode (.trySetRecheck v) s) :
    Keeps s s' next := by
  rw [act] at hout
  split at hout <;> cases sole_outcome hout
  · next hst => exact .looked ha hl ⟨hs, hst⟩
  · exact .looked ha hl ⟨hs, trivial⟩
  · exact .looked ha hl ⟨hs, trivial⟩
  · next hst => exact .looked ha hl (hs.vacant hst)

theorem keeps_initRecheck {factory : Factory} (hs : Settled s)
    (hout : (next, s') ∈ act mode (.initRecheck factory) s) : Keeps s s' next := by
  rw [act] at hout
  split at hout <;> cases sole_outcome hout
  · next hst => exact .looked ha hl ⟨hs, hst⟩
  · next hst => exact .looked ha hl ⟨hs, hst⟩
  · next hr hp =>
    -- nobody is at work, so the cell is not pending either
    have hu : s.status = .uninit := by
      cases hst : s.status with
      | uninit => rfl
      | pending => exact absurd hst hs.notPending
      | ready => exact absurd hst hr
      | poisoned => exact absurd hst hp
    exact .looked ha hl (hs.vacant hu)

/-- The value is stored, before the state says so. -/
theorem keeps_setValue (hv : Vacant status s) (hin : Filled status v (s.setValue v) →
      Inside (s.setValue v) pc) (ho : status = .uninit ∨ status = .pending := by decide)
    (hr : status ≠ .ready := by decide) (hh : pc.holds = true := by rfl) :
    Keeps s (s.setValue v) (.go pc) :=
  .goes (consistent_setValue hv ha hr) hl hv.1 (.inl hv.2) (hin (hv.setValue ha).1) ho hh

/-- The state says that the value is there. -/
theorem keeps_ready (hf : Filled status v s) (han : Answered s answer)
    (ho : status = .uninit ∨ status = .pending := by decide) :
    Keeps s { s with status := .ready } (.go (.unlock (.answer answer))) := by
  have hso : s.value.isSome := by rw [hf.2]; rfl
  refine .goes (ha.withStatus .ready (fun _ => hso) nofun) hl hf.1 (.inr rfl)
    ⟨⟨nofun, fun _ => rfl⟩, ?_⟩ ho
  exact answered_grows (.of_open hf.1 ho (.inr rfl)) han

/-- The initializer gives the cell up without a value. -/
theorem keeps_givesUp (hv : Vacant .pending s) (han : ∀ s', Answered s' answer)
    (hne : status ≠ .pending) (hr : status ≠ .ready)
    (hp : status = .poisoned → s.poison.isSome) :
    Keeps s { s with status } (.go (.unlock (.answer answer))) :=
  .goes (ha.withStatus status (fun h => absurd h hr) hp) hl hv.1 (.inl hv.2)
    ⟨settled_of_none hne hv.2, han _⟩

omit hl in
theorem keeps_unlock {after : After} (hin : Inside s (.unlock after))
    (hout : (next, s') ∈ act mode (.unlock after) s) : Keeps s s' next := by
  have hg : Grows s { s with locked := false } := ⟨id, id, fun _ => id⟩
  have ha' : Consistent { s with locked := false } := ⟨ha.value, ha.once, ha.ready, ha.poisoned⟩
  cases after with
  | answer a =>
    obtain ⟨hs, han⟩ := hin
    cases sole_outcome hout
    exact ⟨ha', hg, .inr ⟨rfl, ⟨hs.notPending, hs.stored⟩, leaves_answer (answered_grows hg han)⟩⟩
  | readPoison =>
    obtain ⟨hs, hst⟩ := hin
    cases sole_outcome hout
    exact ⟨ha', hg, .inr ⟨rfl, ⟨hs.notPending, hs.stored⟩, leaves_go hst⟩⟩

/-- Every step under the lock keeps the cell consistent. -/
theorem works (hh : pc.holds = true) (hin : Inside s pc) (hout : (next, s') ∈ act mode pc s) :
    Keeps s s' next := by
  cases pc with
  | trySetRecheck v => exact keeps_trySetRecheck ha hl hin hout
  | initRecheck factory => exact keeps_initRecheck ha hl hin hout
  | unlock after => exact keeps_unlock ha hin hout
  | trySetValue v =>
    cases sole_outcome hout
    exact keeps_setValue ha hl hin fun hf => ⟨v, hf⟩
  | initValue v =>
    cases sole_outcome hout
    exact keeps_setValue ha hl hin id
  | trySetReady =>
    obtain ⟨v, hf⟩ := hin
    cases sole_outcome hout
    exact keeps_ready ha hl hf (by rw [Answered, hf.2]; rfl)
  | initReady v =>
    cases sole_outcome hout
    exact keeps_ready ha hl hin hin.2
  | initPending factory =>
    obtain ⟨hst, hv⟩ := hin
    cases sole_outcome hout
    exact .goes (ha.withStatus .pending nofun nofun) hl hst (.inl hv) ⟨rfl, hv⟩
  | runFactory factory =>
    cases sole_outcome hout
    obtain ⟨hh, hin⟩ := afterFactory_inside mode factory hin
    exact .looked ha hl hin hh
  | initPoison info e =>
    cases sole_outcome hout
    exact .goes ⟨ha.value, ha.once, ha.ready, fun _ => rfl⟩ hl hin.1 (.inl hin.2) ⟨hin, rfl⟩
  | initPoisoned e =>
    cases sole_outcome hout
    exact keeps_givesUp ha hl hin.1 (fun _ => trivial) nofun nofun fun _ => hin.2
  | initReset a =>
    cases sole_outcome hout
    exact keeps_givesUp ha hl hin.1 hin.2 nofun nofun nofun
  | readValueLocked =>
    cases sole_outcome hout
    exact .looked ha hl ⟨hin.1, ha.read_answered hin.2⟩
  | _ => cases hh

end Steps

/-- The operations keep to the lock. -/
theorem disciplined (mode : OnceFailureMode) : setLock.Disciplined (machine mode) where
  entry := by
    intro s k
    cases k with
    | trySet v | getOrInit factory | get => exact ⟨rfl, trivial⟩
  waits := fun _ _ _ _ ha hpc hout => waits ha hpc hout
  works := fun _ _ _ _ ha hl hh hin hout => works ha hl hh hin hout
  outside_grows := fun _ _ _ hg ho => outside_grows hg ho
  answered_grows := fun _ _ _ hg han => answered_grows hg han

/-! ## Runs -/

variable {mode : OnceFailureMode}

theorem invariant_start : setLock.Invariant start := by
  refine LockSpec.invariant_start rfl ?_ ?_
  · exact ⟨rfl, Nat.zero_le 1, nofun, nofun⟩
  · exact ⟨nofun, nofun⟩

/-- The invariant of the lock holds after every run. -/
theorem invariant_run {moves : List (Move Call Empty)} {c : State}
    (hrun : (machine mode).run start moves = some c) : setLock.Invariant c :=
  (disciplined mode).run invariant_start hrun

/-- A pending cell has an initializer. -/
theorem initializing_of_pending {c : State} (h : setLock.Invariant c)
    (hp : c.shared.status = .pending) : ∃ pc ∈ c.running, pc.initializing = true := by
  have hl : c.shared.locked = true := by
    cases hf : c.shared.locked with
    | true => rfl
    | false =>
      have hs : Settled c.shared := h.free hf
      exact absurd hp hs.notPending
  have hone : 0 < c.running.countP Pc.holds := by
    have hc : c.running.countP Pc.holds = c.shared.locked.toNat := h.one
    rw [hc, hl]
    exact Nat.one_pos
  obtain ⟨pc, hpc, hh⟩ := List.countP_pos_iff.mp hone
  have hin : Inside c.shared pc := h.inside pc hpc hh
  refine ⟨pc, hpc, ?_⟩
  cases pc with
  | trySetRecheck v | initRecheck factory => exact absurd hp hin.notPending
  | trySetValue v | initPending factory => exact absurd (hin.1.symm.trans hp) nofun
  | trySetReady =>
    obtain ⟨v, hst, -⟩ := hin
    exact absurd (hst.symm.trans hp) nofun
  | readValueLocked => exact absurd hp hin.1.notPending
  | unlock after =>
    cases after with
    | answer a | readPoison => exact absurd hp hin.1.notPending
  | runFactory factory | initValue v | initReady v | initPoison info e | initPoisoned e
  | initReset a => rfl
  | _ => cases hh

/-- **One value, once.** Whatever the interleaving: at most one value is handed
to the cell and it is the one the cell keeps; `Ready` comes with the value and
`Poisoned` with its info, and both are for good; every value read is that one
value; and a pending cell has its initializer still at work. -/
theorem one_value (mode : OnceFailureMode) (moves : List (Move Call Empty)) (c : State)
    (hrun : (machine mode).run start moves = some c) :
    (c.shared.stores.length ≤ 1 ∧ c.shared.value = c.shared.stores.head?) ∧
    (c.shared.status = .ready → c.shared.value.isSome) ∧
    (c.shared.status = .poisoned → c.shared.poison.isSome) ∧
    (∀ v, .value v ∈ c.returned → c.shared.value = some v) ∧
    (.missing ∉ c.returned ∧ .poisoned none ∉ c.returned) ∧
    (c.shared.status = .pending → ∃ pc ∈ c.running, pc.initializing = true) ∧
    ∀ later c', (machine mode).run c later = some c' →
      (c.shared.status = .ready → c'.shared.status = .ready) ∧
      (c.shared.status = .poisoned → c'.shared.status = .poisoned) := by
  have h : setLock.Invariant c := invariant_run hrun
  have ha : Consistent c.shared := h.always
  refine ⟨⟨ha.once, ha.value⟩, ha.ready, ha.poisoned,
    fun v hv => h.answers _ hv, ⟨fun hm => h.answers _ hm, fun hn => ?_⟩,
    initializing_of_pending h, fun later c' hl => ?_⟩
  · have hs : (none : Option PoisonInfo).isSome = true := h.answers _ hn
    cases hs
  · have hg : Grows c.shared c'.shared :=
      (disciplined mode).run_grows h Grows.refl Grows.trans hl
    exact ⟨hg.ready, hg.poisoned⟩

/-- A factory that unwinds and one that returns race with a `trySet`. -/
def race : List (Move Call Empty) :=
  [.call (.getOrInit .unwinds), .call (.getOrInit (.returns (.long 1))), .call (.trySet (.long 2)),
    .act 0 0, .act 1 0, .act 2 0, .act 2 0, .act 0 0, .act 0 0, .act 0 0, .act 0 0, .act 0 0,
    .act 0 0, .act 0 0, .act 0 0, .act 0 0, .act 0 0, .act 0 0, .act 0 0, .act 0 0, .act 0 0]

theorem one_value_race : ∃ c, (machine .poison).run start race = some c ∧
    c.shared.status = .ready ∧ c.shared.stores.length ≤ 1 := by
  have he : ((machine .poison).run start race).any
      (fun c => c.shared.status == .ready) = true := by decide +kernel
  obtain ⟨c, hrun, hr⟩ := (Option.any_eq_true _ _).mp he
  exact ⟨c, hrun, beq_iff_eq.mp hr, (one_value .poison race c hrun).1.1⟩

/-- **One initializer at a time.** While a factory runs, no other operation holds the
cell, and nothing is stored in it. -/
theorem one_initializer (mode : OnceFailureMode) (moves : List (Move Call Empty)) (c : State)
    (hrun : (machine mode).run start moves = some c) (factory : Factory)
    (hf : .runFactory factory ∈ c.running) : c.running.countP Pc.holds = 1 ∧
      c.shared.status = .pending ∧ c.shared.value = none := by
  have h : setLock.Invariant c := invariant_run hrun
  have hone : c.running.countP Pc.holds = c.shared.locked.toNat := h.one
  have hpos := List.countP_pos_iff.mpr ⟨_, hf, (rfl : (Pc.runFactory factory).holds = true)⟩
  have hle := Bool.toNat_le c.shared.locked
  exact ⟨by omega, h.inside _ hf rfl⟩

theorem one_initializer_race : ∃ c, (machine .poison).run start (race.take 10) = some c ∧
    c.running.length = 3 ∧ c.running.countP Pc.holds = 1 :=
  ⟨_, rfl, rfl, (one_initializer .poison (race.take 10) _ rfl .unwinds (.head _)).1⟩

end OxPhp.Shared.OnceCell
