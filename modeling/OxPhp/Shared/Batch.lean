import OxPhp.Shared.RefGraph

/-!
# Storing a batch

`set_many_batch` of `types/map.rs` checks all references of a batch before it
stores the first pair.  The check up front answers what the checks of storing pair
by pair would.
-/

namespace OxPhp.Shared.Registry

open Relation Digraph

/-- What goes when a value is replaced.  The entries that a reference still held
leads to stay. -/
structure Release where
  apply : List SharedRef → Registry → Registry
  config : ∀ held reg, (apply held reg).config = reg.config
  keeps : ∀ held reg, ∀ r ∈ held, ∀ x, ReflTransGen reg.Reported r.id x →
    (apply held reg).entries x = reg.entries x

open Classical in
/-- The most that can go. -/
noncomputable def Release.all : Release where
  apply held reg :=
    { reg with
      entries := fun x =>
        if ∃ r ∈ held, ReflTransGen reg.Reported r.id x then reg.entries x else none }
  config _ _ := rfl
  keeps _ _ r hr _ hx := if_pos ⟨r, hr, hx⟩

/-- Every reference of a batch; the pairs that are not stored yet hold theirs. -/
def batchRefs (batch : List (MapKey × SharedValue)) : List SharedRef :=
  batch.flatMap fun kv => collectSharedRefs kv.2

section OneByOne

variable (release : Release) (id : SharedId)

def setOneByOne (reg : Registry) (m : MapInner) : Nat → List (MapKey × SharedValue) →
    Except (Failure × Nat) Nat × MapInner
  | inserted, [] => (.ok inserted, m)
  | inserted, (key, value) :: rest =>
    match m.set (reg.mapCheck id) key value with
    | .ok (_, m') =>
      setOneByOne (release.apply (batchRefs rest) (reg.put id (.map m'))) m' (inserted + 1) rest
    | .error e => (.error (e, inserted), m)

/-- The cycle checks of storing pair by pair; a pair that is not stored for another
reason is passed over. -/
def checkOneByOne (reg : Registry) (m : MapInner) : List (MapKey × SharedValue) →
    Except Failure Unit
  | [] => .ok ()
  | (key, value) :: rest =>
    match reg.mapCheck id (collectSharedRefs value) with
    | .error e => .error e
    | .ok _ =>
      match m.setWithoutCycleCheck key value with
      | .ok (_, m') =>
        checkOneByOne (release.apply (batchRefs rest) (reg.put id (.map m'))) m' rest
      | .error _ => checkOneByOne reg m rest

end OneByOne

/-- A step of the walk towards `id`, which ends there. -/
def Towards (reg : Registry) (id a b : SharedId) : Prop := a ≠ id ∧ reg.Reported a b

/-- Walks from the held references towards `id` find the same in both. -/
structure Agree (id : SharedId) (held : List SharedRef) (reg reg' : Registry) : Prop where
  config : reg'.config = reg.config
  children : ∀ r ∈ held, ∀ x, ReflTransGen (reg.Towards id) r.id x → x ≠ id →
    reg'.childrenOf x = reg.childrenOf x

variable {reg reg' : Registry} {id : SharedId} {held held' roots : List SharedRef}
  {release : Release} {m m' : MapInner}

theorem Agree.refl : Agree id held reg reg := ⟨rfl, fun _ _ _ _ _ => rfl⟩

theorem Agree.mono (h : Agree id held reg reg') (hsub : ∀ r ∈ held', r ∈ held) :
    Agree id held' reg reg' :=
  ⟨h.config, fun r hr => h.children r (hsub r hr)⟩

variable {r : SharedRef} {x : SharedId} {batch : List (MapKey × SharedValue)} {inserted : Nat}

theorem Agree.wouldCreateCycle (h : Agree id held reg reg') (hr : r ∈ held)
    {maxDepth maxEdges : Nat} : wouldCreateCycle reg'.childrenOf r.id id maxDepth maxEdges =
      wouldCreateCycle reg.childrenOf r.id id maxDepth maxEdges := by
  have hc : ∀ x y, ReflTransGen (reg.Towards id) r.id x → x ≠ id →
      Leads reg.childrenOf x y → ReflTransGen (reg.Towards id) r.id y :=
    fun x y hx hne hxy => hx.tail ⟨hne, hxy⟩
  refine Walk.run_congr (h.children r hr) hc ?_
  intro q hq
  cases List.mem_singleton.mp hq
  exact .refl

theorem Agree.mapCheck (h : Agree id held reg reg') (hro : ∀ r ∈ roots, r ∈ held) :
    reg'.mapCheck id roots = reg.mapCheck id roots := by
  unfold Registry.mapCheck
  have hm : reg'.cycleMessage = reg.cycleMessage := by
    funext subject found e
    cases e <;> simp only [cycleMessage, h.config]
  rw [hm]
  generalize reg.cycleMessage _ _ = message
  induction roots with
  | nil => rfl
  | cons root rest ih =>
    have hroo : root ∈ held := hro root List.mem_cons_self
    rw [checkCycles, checkCycles, h.config, h.wouldCreateCycle hroo,
      ih fun r hr => hro r (List.mem_cons_of_mem _ hr)]

theorem childrenOf_put {inner : Inner} (hx : x ≠ id) :
    (reg.put id inner).childrenOf x = reg.childrenOf x := by
  simp only [childrenOf, put, Function.update_of_ne hx]

theorem Agree.reach (h : Agree id held reg reg') (inner : Inner) (hr : r ∈ held)
    (hx : ReflTransGen (reg.Towards id) r.id x) :
    ReflTransGen (reg'.put id inner).Reported r.id x := by
  induction hx with
  | refl => exact .refl
  | tail hy hs ih =>
    obtain ⟨hne, hre⟩ := hs
    refine ih.tail ?_
    unfold Reported at hre ⊢
    rw [childrenOf_put hne, h.children r hr _ hy hne]
    exact hre

theorem Agree.store (h : Agree id held reg reg') (hsub : ∀ r ∈ held', r ∈ held) :
    Agree id held' reg (release.apply held' (reg'.put id (.map m))) := by
  refine ⟨(release.config _ _).trans h.config, fun r hr x hx hne => ?_⟩
  have hk := release.keeps held' _ r hr x (h.reach (.map m) (hsub r hr) hx)
  rw [childrenOf, hk, ← childrenOf, childrenOf_put hne, h.children r (hsub r hr) x hx hne]

theorem mapCheck_append (xs ys : List SharedRef) : reg.mapCheck id (xs ++ ys) =
      match reg.mapCheck id xs with
      | .error e => .error e
      | .ok _ => reg.mapCheck id ys := by
  unfold mapCheck
  generalize reg.cycleMessage _ _ = message
  induction xs with
  | nil => rfl
  | cons x xs ih =>
    rw [List.cons_append, checkCycles, checkCycles]
    split
    · exact ih
    · rfl

theorem batchRefs_cons (key : MapKey) (value : SharedValue) (rest : List (MapKey × SharedValue)) :
    batchRefs ((key, value) :: rest) = collectSharedRefs value ++ batchRefs rest := rfl

theorem Agree.checkOneByOne (h : Agree id (batchRefs batch) reg reg') :
    checkOneByOne release id reg' m batch = reg.mapCheck id (batchRefs batch) := by
  induction batch generalizing reg' m with
  | nil => rfl
  | cons pair rest ih =>
    obtain ⟨key, value⟩ := pair
    have hre : ∀ r ∈ batchRefs rest, r ∈ batchRefs ((key, value) :: rest) :=
      fun r hr => List.mem_append_right _ hr
    rw [Registry.checkOneByOne, h.mapCheck (fun r hr => List.mem_append_left _ hr),
      batchRefs_cons, mapCheck_append]
    cases reg.mapCheck id (collectSharedRefs value) with
    | error e => rfl
    | ok _ =>
      dsimp only
      split
      · exact ih (h.store hre)
      · exact ih (h.mono hre)

theorem set_of_check {cycleCheck : List SharedRef → Except Failure Unit} {key : MapKey}
    {value : SharedValue} (h : cycleCheck (collectSharedRefs value) = .ok ()) :
    m.set cycleCheck key value = m.setWithoutCycleCheck key value := by
  unfold MapInner.set MapInner.setWithoutCycleCheck
  rw [h]
  cases MapInner.rejectUnstorable value <;> rfl

theorem Agree.setOneByOne
    (h : Agree id (batchRefs batch) reg reg') (hc : reg.mapCheck id (batchRefs batch) = .ok ()) :
    setOneByOne release id reg' m inserted batch = m.setEach inserted batch := by
  induction batch generalizing reg' m inserted with
  | nil => rfl
  | cons pair rest ih =>
    obtain ⟨key, value⟩ := pair
    rw [batchRefs_cons, mapCheck_append] at hc
    cases hv : reg.mapCheck id (collectSharedRefs value) with
    | error e =>
      rw [hv] at hc
      cases hc
    | ok _ =>
      rw [hv] at hc
      have hset : reg'.mapCheck id (collectSharedRefs value) = .ok () :=
        (h.mapCheck fun r hr => List.mem_append_left _ hr).trans hv
      rw [Registry.setOneByOne, MapInner.setEach, set_of_check hset]
      cases m.setWithoutCycleCheck key value with
      | error e => rfl
      | ok stored => exact ih (h.store fun r hr => List.mem_append_right _ hr) hc

theorem Agree.mapCheck_of_setOneByOne {n : Nat} (h : Agree id (batchRefs batch) reg reg')
    (hall : (Registry.setOneByOne release id reg' m inserted batch).1 = .ok n) :
    reg.mapCheck id (batchRefs batch) = .ok () := by
  induction batch generalizing reg' m inserted with
  | nil => rfl
  | cons pair rest ih =>
    obtain ⟨key, value⟩ := pair
    rw [Registry.setOneByOne] at hall
    split at hall
    · next prev m' hset =>
      have hv := (MapInner.set_eq_ok hset).1
      rw [h.mapCheck fun r hr => List.mem_append_left _ hr] at hv
      rw [batchRefs_cons, mapCheck_append, hv]
      exact ih (h.store fun r hr => List.mem_append_right _ hr) hall
    · cases hall

/-- **One check for the batch**: the check up front answers what the cycle checks of
storing pair by pair answer; the batch is accepted if and only if `set` accepts
every pair, one after the other; and then both leave the same Map. -/
theorem setManyBatch_one_by_one (release : Release) (reg : Registry) (id : SharedId)
    (m : MapInner) (batch : List (MapKey × SharedValue)) :
    reg.mapCheck id (batchRefs batch) = checkOneByOne release id reg m batch ∧
    ((∃ n, (m.setManyBatch (reg.mapCheck id) batch).1 = .ok n) ↔
      ∃ n, (setOneByOne release id reg m 0 batch).1 = .ok n) ∧
    (reg.mapCheck id (batchRefs batch) = .ok () →
      setOneByOne release id reg m 0 batch = m.setManyBatch (reg.mapCheck id) batch) := by
  have hs : reg.mapCheck id (batchRefs batch) = .ok () →
      setOneByOne release id reg m 0 batch = m.setManyBatch (reg.mapCheck id) batch := by
    intro hc
    rw [Agree.refl.setOneByOne hc, MapInner.setManyBatch, ← batchRefs, hc]
  refine ⟨Agree.refl.checkOneByOne.symm, ⟨?_, ?_⟩, hs⟩
  · rintro ⟨n, hn⟩
    have hc : reg.mapCheck id (batchRefs batch) = .ok () := by
      rw [MapInner.setManyBatch, ← batchRefs] at hn
      split at hn
      · cases hn
      · next hok => exact hok
    exact ⟨n, by rw [hs hc, hn]⟩
  · rintro ⟨n, hn⟩
    have hc := Agree.refl.mapCheck_of_setOneByOne hn
    exact ⟨n, by rw [← hs hc, hn]⟩

def replacing : MapInner := (MapInner.new none).insert (.int 7) (.shared ⟨3, .counter⟩)

def counters : Registry :=
  (((empty ⟨16, 10000⟩ 1).insert (.map replacing)).insert (.scalar .counter)).insert
    (.scalar .counter)

def twoCounters : List (MapKey × SharedValue) :=
  [(.int 7, .shared ⟨2, .counter⟩), (.int 8, .shared ⟨2, .counter⟩)]

theorem setManyBatch_one_by_one_twoCounters :
    (setOneByOne .all 1 counters replacing 0 twoCounters).1 = .ok 2 := by
  have hw : wouldCreateCycle counters.childrenOf 2 1 16 10000 = .ok () := by
    rw [wouldCreateCycle, Walk.run_expand rfl (by decide) (by decide) rfl, Walk.run_eq]
  have hc : counters.mapCheck 1 (batchRefs twoCounters) = .ok () := by
    have hr : batchRefs twoCounters = [⟨2, .counter⟩, ⟨2, .counter⟩] := by decide
    have hco : counters.config = ⟨16, 10000⟩ := rfl
    simp only [hr, mapCheck, checkCycles, hco, hw]
  rw [(setManyBatch_one_by_one .all counters 1 replacing twoCounters).2.2 hc,
    MapInner.setManyBatch, ← batchRefs, hc]
  rfl

end OxPhp.Shared.Registry
