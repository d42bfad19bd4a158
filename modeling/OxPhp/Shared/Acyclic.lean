import OxPhp.Shared.Channel.Alone

/-!
# Operations and the reference graph

Every operation that stores keeps the reference graph acyclic, and refuses what
would close a cycle, as long as no cycle it is asked to close needs a Once or a
Mutex.  A store into one of these asks no cycle check, and the walker does not
see through them.
-/

namespace OxPhp.Shared.Registry

open ByteStr OxPhp.Async Relation Digraph ExceptInv

variable {reg : Registry} {scan : Bytes → Option (List SharedRef)}

/-- Where an operation stores, and the references in what it stores. -/
def Op.stores (scan : Bytes → Option (List SharedRef)) (nextId : SharedId) :
    Op → Option (SharedId × List SharedRef)
  | createMutex initial => some (nextId, collectSharedRefs initial)
  | mapSet id _ value => some (id, collectSharedRefs value)
  | mapSwap id _ value => some (id, collectSharedRefs value)
  | mapSetIfAbsent id _ value => some (id, collectSharedRefs value)
  | mapCompareAndSet id _ _ new => new.map fun v => (id, collectSharedRefs v)
  | mapSetMany id batch => some (id, batch.flatMap fun kv => collectSharedRefs kv.2)
  | channelSend id bytes => (scan bytes).map fun roots => (id, roots)
  | onceTrySet id value => some (id, collectSharedRefs value)
  | onceGetOrInit id (.ok value) => some (id, collectSharedRefs value)
  | mutexWithLock id invoke => invoke.newState.map fun v => (id, collectSharedRefs v)
  | _ => none

/-- Where the operation would close a cycle, one without a Once or Mutex. -/
def OpTraceable (scan : Bytes → Option (List SharedRef)) (reg : Registry) (op : Op) : Prop :=
  ∀ target refs, op.stores scan reg.nextId = some (target, refs) → reg.Traceable target refs

/-- The operation stores a reference that leads back to where it stores. -/
def Closes (scan : Bytes → Option (List SharedRef)) (reg : Registry) (op : Op) : Prop :=
  ∃ target refs, op.stores scan reg.nextId = some (target, refs) ∧
    ∃ r ∈ refs, ReflTransGen reg.Edge r.id target

/-- What holds after storing `refs` into `target`. -/
structure Kept (reg : Registry) (target : SharedId) (refs : List SharedRef)
    (out : Except Failure Unit × Registry) : Prop where
  sound : out.2.Sound
  refused : (∃ r ∈ refs, ReflTransGen reg.Edge r.id target) → ∃ failure, out = (.error failure, reg)

theorem Sound.kept_error (h : reg.Sound) (target : SharedId) (refs : List SharedRef)
    (e : Failure) : reg.Kept target refs (.error e, reg) :=
  ⟨h, fun _ => ⟨e, rfl⟩⟩

variable {target : SharedId} {refs : List SharedRef} {inner : Inner} {op : Op}

theorem Kept.of_not_reach {out : Except Failure Unit × Registry} (hs : out.2.Sound)
    (hre : ∀ r ∈ refs, ¬ReflTransGen reg.Edge r.id target) : reg.Kept target refs out :=
  ⟨hs, fun ⟨r, hr, hb⟩ => absurd hb (hre r hr)⟩

theorem decode_eq_ok {v v' : SharedValue} (h : reg.decode v = .ok v') :
    v' = v ∧ ∀ r ∈ collectSharedRefs v, ∃ e, reg.entries r.id = some e := by
  unfold decode at h
  split at h
  · next hall =>
    cases h
    refine ⟨rfl, fun r hr => ?_⟩
    exact Option.isSome_iff_exists.mp (List.all_eq_true.mp hall r hr)
  · cases h

theorem put_self {id : SharedId} (h : reg.entries id = some inner) : reg.put id inner = reg := by
  rw [put, ← h, Function.update_eq_self]

/-! ## Maps -/

section Maps

variable {id : SharedId} {m : MapInner} {batch : List (MapKey × SharedValue)}

/-- **A checked store into a Map.** -/
theorem Sound.kept_put_map (h : reg.Sound) (hid : reg.entries id = some (.map m))
    {m' : MapInner} (ht : reg.Traceable id refs)
    (hva : ∀ v ∈ m'.values, v ∈ m.values ∨
      ∀ r ∈ collectSharedRefs v, r ∈ refs ∧ ∃ e, reg.entries r.id = some e)
    (hch : reg.mapCheck id refs = .ok ()) (answer : Except Failure Unit) :
    reg.Kept id refs (answer, reg.put id (.map m')) := by
  have hre := h.not_reach_of_check ht hch
  refine .of_not_reach (h.put hid ?_ hre fun c hc => nomatch hc) hre
  intro r hr
  obtain ⟨v, hv, hr⟩ := List.mem_flatMap.mp hr
  rcases hva v hv with hold | hnew
  · exact .inl (List.mem_flatMap.mpr ⟨v, hold, hr⟩)
  · exact .inr (hnew r hr)

theorem Sound.kept_onMap (h : reg.Sound) {f : MapInner → Except Failure MapInner}
    (ht : reg.Traceable id refs)
    (hf : ∀ m m', f m = .ok m' → reg.mapCheck id refs = .ok () ∧ ∀ v ∈ m'.values,
      v ∈ m.values ∨ ∀ r ∈ collectSharedRefs v, r ∈ refs ∧ ∃ e, reg.entries r.id = some e) :
    reg.Kept id refs (reg.onMap id f) := by
  unfold onMap
  split
  · next m hid =>
    split
    · next m' hok => exact h.kept_put_map hid ht (hf m m' hok).2 (hf m m' hok).1 _
    · exact h.kept_error ..
  · exact h.kept_error ..
  · exact h.kept_error ..

theorem Sound.kept_storeValue (h : reg.Sound) {value : SharedValue} {α : Type}
    {store : MapInner → SharedValue → Except Failure (α × MapInner)}
    (ht : reg.Traceable id (collectSharedRefs value))
    (hs : ∀ m prev m', store m value = .ok (prev, m') →
      reg.mapCheck id (collectSharedRefs value) = .ok () ∧
        ∀ v ∈ m'.values, v = value ∨ v ∈ m.values) :
    reg.Kept id (collectSharedRefs value) (reg.onMap id fun m => do
      let v ← reg.decode value
      return (← store m v).2) := by
  refine h.kept_onMap ht fun m m' hok => ?_
  obtain ⟨v, hv, hok⟩ := bind_eq_ok.mp hok
  obtain ⟨⟨prev, m''⟩, hset, hok⟩ := bind_eq_ok.mp hok
  cases hok
  obtain ⟨rfl, hl⟩ := decode_eq_ok hv
  obtain ⟨hc, hva⟩ := hs m prev m'' hset
  refine ⟨hc, fun w hw => (hva w hw).symm.imp_right ?_⟩
  rintro rfl r hr
  exact ⟨hr, hl r hr⟩

theorem decoded_option {value value' : Option SharedValue}
    (h : value.mapM reg.decode = .ok value') : value' = value ∧
      ∀ v, value = some v → ∀ r ∈ collectSharedRefs v, ∃ e, reg.entries r.id = some e := by
  cases value with
  | none =>
    cases h
    exact ⟨rfl, fun v hv => nomatch hv⟩
  | some v =>
    obtain ⟨v', hv', hs⟩ := map_eq_ok.mp h
    obtain ⟨rfl, hl⟩ := decode_eq_ok hv'
    cases hs
    exact ⟨rfl, fun w hw => Option.some.inj hw ▸ hl⟩

theorem decoded_batch {batch' : List (MapKey × SharedValue)}
    (h : batch.mapM (fun kv => (reg.decode kv.2).map fun v => (kv.1, v)) = .ok batch') :
    batch' = batch ∧
      ∀ kv ∈ batch, ∀ r ∈ collectSharedRefs kv.2, ∃ e, reg.entries r.id = some e := by
  induction batch generalizing batch' with
  | nil =>
    cases h
    exact ⟨rfl, by simp⟩
  | cons kv batch ih =>
    rw [List.mapM_cons] at h
    obtain ⟨kv', hkv, ht⟩ := bind_eq_ok.mp h
    obtain ⟨rest, hr, hw⟩ := bind_eq_ok.mp ht
    cases hw
    obtain ⟨v, hv, rfl⟩ := map_eq_ok.mp hkv
    obtain ⟨rfl, hl⟩ := decode_eq_ok hv
    obtain ⟨rfl, hli⟩ := ih hr
    exact ⟨rfl, List.forall_mem_cons.mpr ⟨hl, hli⟩⟩

theorem Sound.kept_compareAndSet (h : reg.Sound) {key : MapKey} {expected new : Option SharedValue}
    (hre : refs = new.elim [] collectSharedRefs) (ht : reg.Traceable id refs) :
    reg.Kept id refs (reg.exec scan (.mapCompareAndSet id key expected new)) := by
  refine h.kept_onMap ht fun m m' hok => ?_
  obtain ⟨_, -, hok⟩ := bind_eq_ok.mp hok
  obtain ⟨new', hnew, hok⟩ := bind_eq_ok.mp hok
  obtain ⟨⟨swapped, m''⟩, hset, hok⟩ := bind_eq_ok.mp hok
  cases hok
  obtain ⟨rfl, hl⟩ := decoded_option hnew
  obtain ⟨hc, hva⟩ := MapInner.compareAndSet_eq_ok hset
  constructor
  · subst hre
    cases new' with
    | none => rfl
    | some v => exact hc v rfl
  · intro v hv
    refine (hva v hv).symm.imp_right fun hv r hr => ⟨?_, hl v hv r hr⟩
    rw [hre, hv]
    exact hr

theorem Sound.kept_setMany (h : reg.Sound)
    (ht : reg.Traceable id (batch.flatMap fun kv => collectSharedRefs kv.2)) :
    reg.Kept id (batch.flatMap fun kv => collectSharedRefs kv.2)
      (reg.exec scan (.mapSetMany id batch)) := by
  dsimp only [exec]
  split
  · next m hid =>
    split
    · next batch' hb =>
      obtain ⟨rfl, hl⟩ := decoded_batch hb
      cases hc : reg.mapCheck id (batch'.flatMap fun kv => collectSharedRefs kv.2) with
      | error e =>
        have hre : m.setManyBatch (reg.mapCheck id) batch' = (.error (e, 0), m) := by
          rw [MapInner.setManyBatch, hc]
        rw [hre, put_self hid]
        exact h.kept_error ..
      | ok =>
        refine h.kept_put_map hid ht (fun v hv => ?_) hc _
        rcases MapInner.setManyBatch_values hc hv with ⟨kv, hkv, rfl⟩ | hold
        · refine .inr fun r hr => ⟨List.mem_flatMap.mpr ⟨kv, hkv, hr⟩, hl kv hkv r hr⟩
        · exact .inl hold
    · exact h.kept_error ..
  · exact h.kept_error ..
  · exact h.kept_error ..

end Maps

/-! ## Channels -/

section Channels

variable {id : SharedId}
  {f : ChannelInner → ChannelSenders → Except Failure Unit × ChannelInner × ChannelSenders}
  {bytes : Bytes}

theorem Sound.kept_onChannel (h : reg.Sound) (ht : reg.Traceable id refs)
    (hf : ∀ c, (∃ e, f c reg.senders = (.error e, c, reg.senders)) ∨
      (reg.channelCheck id refs = .ok () ∧ (c.Indexed → (f c reg.senders).2.1.Indexed) ∧
        ∀ p ∈ (f c reg.senders).2.1.held, p ∈ c.held ∨
          ∀ r ∈ p.keepalive, r ∈ refs ∧ ∃ e, reg.entries r.id = some e)) :
    reg.Kept id refs (reg.onChannel id f) := by
  unfold onChannel
  split
  · next c hid =>
    rcases hf c with ⟨e, he⟩ | ⟨hc, hin, hh⟩
    · rw [he, put_self hid]
      exact h.kept_error ..
    · have hre := h.not_reach_of_check ht hc
      have hput : (reg.put id (.channel (f c reg.senders).2.1)).Sound := by
        refine h.put hid (fun r hr => ?_) hre ?_
        · obtain ⟨p, hp, hr⟩ := List.mem_flatMap.mp hr
          rcases hh p hp with hold | hnew
          · exact .inl (List.mem_flatMap.mpr ⟨p, hold, hr⟩)
          · exact .inr (hnew r hr)
        · rintro c' ⟨⟩
          exact hin (h.indexed id c hid)
      exact .of_not_reach (hput.senders _) hre
  · exact h.kept_error ..
  · exact h.kept_error ..

theorem Sound.onChannel_alone (h : reg.Sound) (k : Channel.Call) (ho : k.offered = 0)
    (hf : ∀ c, ∃ answer, Channel.machine.Solo (.go k.entry) ⟨c, reg.senders, false⟩ answer
      ⟨(f c reg.senders).2.1, (f c reg.senders).2.2, false⟩) : (reg.onChannel id f).2.Sound := by
  refine (h.kept_onChannel (traceable_nil id) fun c => .inr ⟨rfl, ?_, fun p hp => ?_⟩).sound
  · exact Channel.indexed_of_solo (hf c).choose_spec
  · have hh := Channel.held_of_solo (hf c).choose_spec p hp
    rw [ho] at hh
    exact .inl (hh.resolve_right (Multiset.notMem_zero p))

theorem buildPayload_eq_ok {p : Payload}
    (hre : refs = (scan bytes).getD []) (h : reg.buildPayload scan id bytes = .ok p) :
    reg.channelCheck id refs = .ok () ∧
      ∀ r ∈ p.keepalive, r ∈ refs ∧ ∃ e, reg.entries r.id = some e := by
  unfold buildPayload at h
  subst hre
  split at h
  · next hs =>
    cases h
    rw [hs]
    exact ⟨rfl, by simp⟩
  · next roots hs =>
    rw [hs]
    split at h
    · cases h
    · next hc =>
      cases h
      refine ⟨hc, fun r hr => ?_⟩
      obtain ⟨hmem, hl⟩ := List.mem_filter.mp hr
      exact ⟨hmem, Option.isSome_iff_exists.mp hl⟩

theorem Sound.kept_channelSend (h : reg.Sound)
    (hr : refs = (scan bytes).getD []) (ht : reg.Traceable id refs) :
    reg.Kept id refs (reg.exec scan (.channelSend id bytes)) := by
  dsimp only [exec]
  refine h.kept_onChannel ht fun c => ?_
  cases hb : reg.buildPayload scan id bytes with
  | error e => exact .inl ⟨e, rfl⟩
  | ok p =>
    obtain ⟨hc, hk⟩ := buildPayload_eq_ok hr hb
    have hs := Channel.solo_trySend c reg.senders p
    refine .inr ⟨hc, Channel.indexed_of_solo (k := .trySend p) hs, fun q hq => ?_⟩
    refine (Channel.held_of_solo (k := .trySend p) hs q hq).imp_right fun hnew => ?_
    rw [Multiset.mem_singleton.mp hnew]
    exact hk

end Channels

/-! ## Once and Mutex -/

section Cells

variable {id : SharedId} {value : SharedValue}

theorem Sound.kept_put_cell (h : reg.Sound) {inner inner' : Inner}
    (hid : reg.entries id = some inner) (hc : inner.isCell = true)
    (hc' : inner'.isCell = true) (ht : reg.Traceable id refs)
    (hr : ∀ r ∈ inner'.refs, r ∈ inner.refs ∨ (r ∈ refs ∧ ∃ e, reg.entries r.id = some e))
    (answer : Except Failure Unit) : reg.Kept id refs (answer, reg.put id inner') := by
  have hre := ht.not_reach ⟨inner, hid, hc⟩
  refine .of_not_reach (h.put hid hr hre ?_) hre
  rintro c rfl
  cases hc'

theorem mem_refs_once {o : OnceInner} {r : SharedRef} :
    r ∈ (Inner.once o).refs ↔ ∃ v, o.state = .ready v ∧ r ∈ collectSharedRefs v := by
  cases hs : o.state <;> simp [Inner.refs, hs]

theorem Sound.kept_onOnce (h : reg.Sound) (ht : reg.Traceable id refs)
    {f : OnceInner → Except Failure Unit × OnceInner}
    (hf : ∀ o v, (f o).2.state = .ready v → o.state = .ready v ∨
      ∀ r ∈ collectSharedRefs v, r ∈ refs ∧ ∃ e, reg.entries r.id = some e) :
    reg.Kept id refs (reg.onOnce id f) := by
  unfold onOnce
  split
  · next o hid =>
    refine h.kept_put_cell hid rfl rfl ht (fun r hr => ?_) _
    obtain ⟨v, hv, hr⟩ := mem_refs_once.mp hr
    rcases hf o v hv with hold | hnew
    · exact .inl (mem_refs_once.mpr ⟨v, hold, hr⟩)
    · exact .inr (hnew r hr)
  · exact h.kept_error ..
  · exact h.kept_error ..

theorem Sound.kept_onceTrySet (h : reg.Sound) (ht : reg.Traceable id (collectSharedRefs value)) :
    reg.Kept id (collectSharedRefs value) (reg.exec scan (.onceTrySet id value)) := by
  dsimp only [exec]
  split
  · next v hv =>
    obtain ⟨rfl, hl⟩ := decode_eq_ok hv
    refine h.kept_onOnce ht fun o w hw => (o.trySet_state hw).imp_right ?_
    rintro rfl r hr
    exact ⟨hr, hl r hr⟩
  · exact h.kept_error ..

theorem Sound.kept_onceGetOrInit (h : reg.Sound) (ht : reg.Traceable id (collectSharedRefs value)) :
    reg.Kept id (collectSharedRefs value) (reg.exec scan (.onceGetOrInit id (.ok value))) := by
  refine h.kept_onOnce ht fun o w hw => (o.getOrInit_state hw).imp_right fun hm r hr => ?_
  obtain ⟨rfl, hl⟩ := decode_eq_ok (mapError_eq_ok.mp hm)
  exact ⟨hr, hl r hr⟩

theorem Sound.kept_mutexWithLock (h : reg.Sound) {invoke : Invoke}
    (hre : refs = invoke.newState.elim [] collectSharedRefs) (ht : reg.Traceable id refs) :
    reg.Kept id refs (reg.exec scan (.mutexWithLock id invoke)) := by
  dsimp only [exec, onMutex]
  split
  · next m hid =>
    refine h.kept_put_cell hid rfl rfl ht (fun r hr => ?_) _
    rcases m.withLock_state with hold | ⟨v, hnew, hd⟩
    · exact .inl (by rwa [Inner.refs, hold] at hr)
    · obtain ⟨hs, hl⟩ := decode_eq_ok hd
      rw [Inner.refs, hs] at hr
      rw [hre, hnew]
      exact .inr ⟨hr, hl r hr⟩
  · exact h.kept_error ..
  · exact h.kept_error ..

end Cells

/-! ## Runs -/

structure StepSound (scan : Bytes → Option (List SharedRef)) (reg : Registry) (op : Op) : Prop where
  sound : (reg.exec scan op).2.Sound
  refused : reg.Closes scan op → ∃ failure, reg.exec scan op = (.error failure, reg)

theorem Kept.step (h : reg.Kept target refs (reg.exec scan op))
    (hs : op.stores scan reg.nextId = some (target, refs)) : reg.StepSound scan op := by
  refine ⟨h.sound, ?_⟩
  rintro ⟨target', refs', hs', hb⟩
  cases hs.symm.trans hs'
  exact h.refused hb

theorem StepSound.of_stores_none (h : (reg.exec scan op).2.Sound)
    (hs : op.stores scan reg.nextId = none) : reg.StepSound scan op := by
  refine ⟨h, ?_⟩
  rintro ⟨target, refs, hs', -⟩
  cases hs.symm.trans hs'

theorem Sound.insert_empty (h : reg.Sound) (hr : inner.refs = [])
    (hin : ∀ c, inner = .channel c → c.Indexed) : (reg.insert inner).Sound :=
  h.insert (by simp [hr]) hin

theorem Sound.kept_createMutex (h : reg.Sound) {initial : SharedValue} :
    reg.Kept reg.nextId (collectSharedRefs initial) (reg.exec scan (.createMutex initial)) := by
  dsimp only [exec]
  split
  · next v hv =>
    obtain ⟨rfl, hl⟩ := decode_eq_ok hv
    refine .of_not_reach ?_ fun r hr => h.not_reach_next (hl r hr)
    exact h.insert hl fun c hc => nomatch hc
  · exact h.kept_error ..

/-- **One operation keeps the invariant** and refuses to close a cycle. -/
theorem Sound.exec (h : reg.Sound) (ht : reg.OpTraceable scan op) : reg.StepSound scan op := by
  cases op with
  | createScalar typeTag | createOnce failureMode | createMap maxEntries =>
    exact .of_stores_none (h.insert_empty rfl fun c hc => nomatch hc) rfl
  | createMutex initial => exact h.kept_createMutex.step rfl
  | createChannel capacity =>
    refine .of_stores_none (h.insert_empty rfl ?_) rfl
    rintro c ⟨⟩
    exact ChannelInner.indexed_new capacity
  | mapSet id key value | mapSwap id key value =>
    exact (h.kept_storeValue (ht _ _ rfl) fun m _ _ => MapInner.set_eq_ok).step rfl
  | mapSetIfAbsent id key value =>
    exact (h.kept_storeValue (ht _ _ rfl) fun m _ _ => MapInner.setIfAbsent_eq_ok).step rfl
  | mapCompareAndSet id key expected new =>
    cases new with
    | none => exact .of_stores_none (h.kept_compareAndSet rfl (traceable_nil id)).sound rfl
    | some v => exact (h.kept_compareAndSet rfl (ht _ _ rfl)).step rfl
  | mapSetMany id batch => exact (h.kept_setMany (ht _ _ rfl)).step rfl
  | mapPop id key =>
    refine .of_stores_none (h.kept_onMap (traceable_nil id) fun m m' hm => ?_).sound rfl
    cases hm
    exact ⟨rfl, fun v hv => .inl (MapInner.mem_values_erase hv)⟩
  | mapClear id =>
    refine .of_stores_none (h.kept_onMap (traceable_nil id) fun m m' hm => ?_).sound rfl
    cases hm
    exact ⟨rfl, fun v hv => nomatch hv⟩
  | channelSend id bytes =>
    cases hs : scan bytes with
    | none =>
      exact .of_stores_none (h.kept_channelSend (by simp [hs]) (traceable_nil id)).sound
        (by simp [Op.stores, hs])
    | some roots =>
      have hst : (Op.channelSend id bytes).stores scan reg.nextId = some (id, roots) := by
        simp [Op.stores, hs]
      exact (h.kept_channelSend (by simp [hs]) (ht _ _ hst)).step hst
  | channelRecv id =>
    exact .of_stores_none
      (h.onChannel_alone .tryRecv rfl fun c => ⟨_, Channel.solo_tryRecv c _⟩) rfl
  | channelClose id =>
    exact .of_stores_none (h.onChannel_alone .close rfl fun c => ⟨_, Channel.solo_close c _⟩) rfl
  | channelParkRecv id =>
    refine .of_stores_none (h.onChannel_alone .recvFiberRegister rfl fun c => ?_) rfl
    exact ⟨_, Channel.solo_recvFiberRegister c _⟩
  | channelParkSend id =>
    refine .of_stores_none (h.onChannel_alone .sendFiberRegister rfl fun c => ?_) rfl
    exact ⟨_, Channel.solo_sendFiberRegister c _⟩
  | cancelPromise promise | dropReceiver promise => exact .of_stores_none (h.senders _) rfl
  | onceTrySet id value => exact (h.kept_onceTrySet (ht _ _ rfl)).step rfl
  | onceGetOrInit id factory =>
    cases factory with
    | ok value => exact (h.kept_onceGetOrInit (ht _ _ rfl)).step rfl
    | error e =>
      refine .of_stores_none (h.kept_onOnce (traceable_nil id) fun o w hw => ?_).sound rfl
      exact (o.getOrInit_state hw).imp_right fun hma => nomatch hma
  | mutexWithLock id invoke =>
    cases hstate : invoke.newState with
    | none =>
      exact .of_stores_none (h.kept_mutexWithLock (by simp [hstate]) (traceable_nil id)).sound
        (by simp [Op.stores, hstate])
    | some v =>
      have hst : (Op.mutexWithLock id invoke).stores scan reg.nextId =
          some (id, collectSharedRefs v) := by
        simp [Op.stores, hstate]
      exact (h.kept_mutexWithLock (by simp [hstate]) (ht _ _ hst)).step hst
  | drop id => exact .of_stores_none (h.dropEntry id) rfl

def AllTraceable (scan : Bytes → Option (List SharedRef)) : Registry → List Op → Prop
  | _, [] => True
  | reg, op :: ops => reg.OpTraceable scan op ∧ AllTraceable scan (reg.exec scan op).2 ops

theorem Sound.run (h : reg.Sound) {ops : List Op} (ht : AllTraceable scan reg ops) :
    (reg.run scan ops).Sound := by
  induction ops generalizing reg with
  | nil => exact h
  | cons op ops ih => exact ih (h.exec ht.1).sound ht.2

/-- **The reference graph stays acyclic**, and the next operation is refused if
it would close a cycle. -/
theorem shared_graph_acyclic (scan : Bytes → Option (List SharedRef)) (config : SharedConfig)
    (seed : SharedId) (ops : List Op) (htrace : AllTraceable scan (empty config seed) ops) :
    Acyclic ((empty config seed).run scan ops).Edge ∧
      ∀ op, ((empty config seed).run scan ops).OpTraceable scan op →
        ((empty config seed).run scan ops).Closes scan op →
        ∃ failure, ((empty config seed).run scan ops).exec scan op =
          (.error failure, (empty config seed).run scan ops) := by
  have hs := (sound_empty config seed).run htrace
  exact ⟨hs.acyclic, fun op hop => (hs.exec hop).refused⟩

def onceOfMap : List Op :=
  [.createMap none, .createOnce .reset, .onceTrySet 2 (.shared ⟨1, .map⟩)]

theorem allTraceable_onceOfMap (config : SharedConfig) :
    AllTraceable (fun _ => none) (empty config 1) onceOfMap := by
  refine ⟨fun _ _ h => (nomatch h), fun _ _ h => (nomatch h), ?_, trivial⟩
  rintro target refs ⟨⟩ r hr hre
  cases List.mem_singleton.mp hr
  -- the Map is empty, so nothing leads from it to the Once
  have hs : Sink (((empty config 1).insert (.map (.new none))).insert
      (.once (.new .reset))).Edge 1 := by
    rintro b ⟨inner, hin, r, hr, -⟩
    cases hin
    cases hr
  cases hs.eq_of_reach hre

theorem shared_graph_acyclic_onceOfMap :
    Acyclic ((empty ⟨16, 10000⟩ 1).run (fun _ => none) onceOfMap).Edge ∧
      ∃ failure, ((empty ⟨16, 10000⟩ 1).run (fun _ => none) onceOfMap).exec (fun _ => none)
          (.mapSet 1 (.int 0) (.shared ⟨1, .map⟩)) =
        (.error failure, (empty ⟨16, 10000⟩ 1).run (fun _ => none) onceOfMap) := by
  have h := shared_graph_acyclic (fun _ => none) ⟨16, 10000⟩ 1 onceOfMap
    (allTraceable_onceOfMap _)
  refine ⟨h.1, h.2 _ ?_ ⟨1, _, rfl, ⟨1, .map⟩, List.mem_singleton_self _, .refl⟩⟩
  rintro target refs ⟨⟩ r hr -
  cases List.mem_singleton.mp hr
  refine ⟨?_, .refl⟩
  rintro ⟨inner, hin, hc⟩
  cases hin
  cases hc

/-- **A Once takes a reference to itself**: both operations succeed and the
graph has a cycle. -/
theorem once_holds_itself :
    ((empty ⟨16, 10000⟩ 1).exec (fun _ => none) (.createOnce .reset)).1 = .ok () ∧
    (((empty ⟨16, 10000⟩ 1).run (fun _ => none) [.createOnce .reset]).exec (fun _ => none)
      (.onceTrySet 1 (.shared ⟨1, .once⟩))).1 = .ok () ∧
    ¬Acyclic ((empty ⟨16, 10000⟩ 1).run (fun _ => none)
      [.createOnce .reset, .onceTrySet 1 (.shared ⟨1, .once⟩)]).Edge := by
  refine ⟨rfl, rfl, fun h => h 1 (.single ?_)⟩
  exact ⟨.once ⟨.ready (.shared ⟨1, .once⟩), .reset⟩, rfl, ⟨1, .once⟩,
    List.mem_singleton_self _, rfl⟩

end OxPhp.Shared.Registry
