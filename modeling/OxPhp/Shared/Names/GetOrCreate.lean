import Mathlib.Data.List.Chain
import OxPhp.Shared.Names.Gates

/-!
# Get-or-create, once

What the callers of one name see over a whole run: one creator at a time, one
result between two removals, hits on entries that were bound while the call was
in progress, and no wait without end on a gate whose creator is done with it.
-/

namespace OxPhp.Shared.Names

open ByteStr Interleave

section Runs

variable {s : System} {i j : Nat} {op : Op} {g : Guard}

/-! ## Hits -/

/-- The creator of the gate has bound the entry. -/
def BoundBy (s : System) (gate : GateId) (arc : SharedRef) : Prop :=
  ((s.index.gates gate).settled = true ∧ (s.index.gates gate).result = some arc) ∨
    ∃ j call, s.ops j = .running call (.settle gate arc)

variable {key : Bytes} {gate : GateId} {arc : SharedRef} {call : Call} {pc : Pc}
  {next : Next Pc Outcome} {index : Index} {moves : List Move} {m : Move} {s' : System}

theorem Inv.not_boundBy (h : Inv s)
    (hs : s.index.names key = some (.creating gate)) : ¬BoundBy s gate arc := by
  obtain ⟨i, g, hi, -, rfl⟩ := h.slot key gate hs
  rintro (⟨hse, -⟩ | ⟨j, call, hj⟩)
  · rw [(h.creator i g hi).2.1] at hse
    cases hse
  · have hg : (s.ops j).guard = some ⟨call.thread, call.key, g.gate⟩ := by rw [hj]; rfl
    cases h.unique i j g _ (Op.guard_of_creating hi) hg rfl
    rw [hj] at hi
    cases hi

theorem Inv.boundBy_acts (h : Inv s) (hi : s.ops i = .running call pc)
    (hact : Acts call s.index pc next index)
    (hb : BoundBy (System.setOp { s with index := index } i (.after call next)) gate arc) :
    BoundBy s gate arc ∨
      (pc.guards = some gate ∧ index.names call.key = some (.bound arc)) := by
  rcases hb with ⟨hs, hr⟩ | ⟨j, call', hj⟩
  · left
    cases hact with
    | opens slot =>
      by_cases hnew : gate = s.index.nextGate
      · simp only [System.setOp, Index.create, hnew, Function.update_self] at hs
        cases hs
      · simp only [System.setOp, Index.create, Function.update_of_ne hnew] at hs hr
        exact .inl ⟨hs, hr⟩
    | @settles gate' arc' =>
      by_cases hg : gate = gate'
      · simp only [System.setOp, Index.settle, hg, Function.update_self] at hr
        cases hr
        exact .inr ⟨i, call, hg ▸ hi⟩
      · simp only [System.setOp, Index.settle, Function.update_of_ne hg] at hs hr
        exact .inl ⟨hs, hr⟩
    | @settlesAborted gate' _ | @settlesDropped gate' =>
      by_cases hg : gate = gate'
      · simp only [System.setOp, Index.settle, hg, Function.update_self] at hr
        cases hr
      · simp only [System.setOp, Index.settle, Function.update_of_ne hg] at hs hr
        exact .inl ⟨hs, hr⟩
    | _ => exact .inl ⟨hs, hr⟩
  · rcases ops_setOp_cases hj with ⟨-, hnew⟩ | ⟨-, hold⟩
    · right
      cases hact with
      | @binds gate' own arc' slot =>
        cases hnew
        have hc : (s.ops i).creating = some ⟨call.thread, call.key, gate'⟩ := by rw [hi]; rfl
        cases (h.ownGate_eq hc).symm.trans slot
        exact ⟨rfl, Function.update_self ..⟩
      | _ => cases hnew
    · exact .inl (.inr ⟨j, call', hold⟩)

theorem BoundDuring.concat
    (h : BoundDuring moves i call arc) (m : Move) : BoundDuring (moves ++ [m]) i call arc := by
  obtain ⟨before, after, s, pc, rfl, hrun, hop, hb⟩ := h
  exact ⟨before, after ++ [m], s, pc, List.append_assoc .., hrun, hop, hb⟩

theorem BoundDuring.now
    (hrun : Runs.run Names.step moves start = some s) (hi : s.ops i = .running call pc)
    (hb : s.index.names call.key = some (.bound arc)) : BoundDuring moves i call arc :=
  ⟨moves, [], s, pc, (List.append_nil moves).symm, hrun, hi, hb⟩

/-- What a wait will find, and what was returned, was bound during the call. -/
structure Hits (moves : List Move) (s : System) : Prop where
  waiting : ∀ i call gate arc, s.ops i = .running call (.wait gate) → BoundBy s gate arc →
    BoundDuring moves i call arc
  ended : ∀ i call arc, s.ops i = .ended call (.hit arc) → BoundDuring moves i call arc

theorem hit_of_found {want : Option SharedType} {arc' : SharedRef}
    (h : found want arc = .hit arc') : arc = arc' := by
  unfold found at h
  split at h
  · cases h
    rfl
  · cases h

theorem Hits.acts (h : Hits moves s) (hinv : Inv s)
    (hrun : Runs.run Names.step moves start = some s) (hi : s.ops i = .running call pc)
    (hact : Acts call s.index pc next index) (hs : Names.step (.step i) s =
      some (System.setOp { s with index := index } i (.after call next))) :
    Hits (moves ++ [.step i]) (System.setOp { s with index := index } i (.after call next)) := by
  have hrun' := Runs.run_concat hrun hs
  constructor
  · intro j call' gate arc hj hb
    have hb' := hinv.boundBy_acts hi hact hb
    rcases ops_setOp_cases hj with ⟨rfl, hnew⟩ | ⟨hji, hold⟩
    · -- the gate was found under the key just now, before it was bound
      cases hact with
      | waits slot =>
        cases hnew
        rcases hb' with hb' | ⟨hg, -⟩
        · exact absurd hb' (hinv.not_boundBy slot)
        · cases hg
      | _ => cases hnew
    · rcases hb' with hb' | ⟨hg, hn⟩
      · exact (h.waiting j call' gate arc hold hb').concat _
      · have hkey : call.key = call'.key := by
          refine (hinv.waits j call'.key gate (by rw [hold]; rfl)).2 i
            ⟨call.thread, call.key, gate⟩ ?_ rfl
          rw [hi, Op.guard, hg]
          rfl
        refine .now hrun' hj ?_
        rw [← hkey]
        exact hn
  · intro j call' arc hj
    rcases ops_setOp_cases hj with ⟨rfl, hnew⟩ | ⟨-, hold⟩
    · cases hact with
      | found slot =>
        obtain ⟨rfl, hhit⟩ := Op.ended.inj hnew
        cases hit_of_found hhit
        exact (BoundDuring.now hrun hi slot).concat _
      | woken settled result =>
        obtain ⟨rfl, hhit⟩ := Op.ended.inj hnew
        cases hit_of_found hhit
        exact (h.waiting j call _ arc hi (.inl ⟨settled, result⟩)).concat _
      | _ => cases hnew
    · exact (h.ended j call' arc hold).concat _

theorem Hits.setOp (h : Hits moves s) (m : Move) (hw : ∀ call gate, op ≠ .running call (.wait gate))
    (hs : ∀ call gate arc, op ≠ .running call (.settle gate arc))
    (hhit : ∀ call arc, op ≠ .ended call (.hit arc)) : Hits (moves ++ [m]) (s.setOp i op) := by
  constructor
  · intro j call gate arc hj hb
    rcases ops_setOp_cases hj with ⟨-, hnew⟩ | ⟨-, hold⟩
    · exact absurd hnew (hw call gate)
    · refine (h.waiting j call gate arc hold ?_).concat m
      rcases hb with hb | ⟨k, call', hk⟩
      · exact .inl hb
      · rcases ops_setOp_cases hk with ⟨-, hnew⟩ | ⟨-, hold⟩
        · exact absurd hnew (hs call' gate arc)
        · exact .inr ⟨k, call', hold⟩
  · intro j call arc hj
    rcases ops_setOp_cases hj with ⟨-, hnew⟩ | ⟨-, hold⟩
    · exact absurd hnew (hhit call arc)
    · exact (h.ended j call arc hold).concat m

theorem Hits.remove (h : Hits moves s) (key : Bytes) :
    Hits (moves ++ [.remove key]) { s with index := s.index.remove key } := by
  have hg : (s.index.remove key).gates = s.index.gates := by
    unfold Index.remove
    split <;> rfl
  refine ⟨fun j call gate arc hj hb => ?_,
    fun j call arc hj => (h.ended j call arc hj).concat _⟩
  refine (h.waiting j call gate arc hj ?_).concat _
  simp only [BoundBy, hg] at hb
  exact hb

theorem Hits.step (h : Hits moves s) (hinv : Inv s)
    (hrun : Runs.run Names.step moves start = some s)
    (hs : Names.step m s = some s') : Hits (moves ++ [m]) s' := by
  cases m with
  | call i call =>
    simp only [Names.step] at hs
    split at hs
    · cases hs
      exact h.setOp _ (by simp) (by simp) (by simp)
    · cases hs
  | step i =>
    have hst' := hs
    simp only [Names.step] at hs
    split at hs
    · next call pc hi =>
      obtain ⟨⟨next, index⟩, hact, rfl⟩ := Option.map_eq_some_iff.mp hs
      exact h.acts hinv hrun hi (acts_of_act hact) hst'
    · cases hs
  | timeOut i =>
    simp only [Names.step] at hs
    split at hs
    · obtain ⟨-, hs'⟩ := Option.ite_none_left_eq_some.mp hs
      cases hs'
      exact h.setOp _ (by simp) (by simp) (by simp)
    · cases hs
  | remove key =>
    cases hs
    exact h.remove key

/-! ## Bindings and removals -/

/-- What a move means for one key: nothing, a binding where nothing was bound, or
a removal. -/
inductive Marks (key : Bytes) (s s' : System) : List Event → Prop
  | none (stays : ∀ arc, s.index.names key = some (.bound arc) →
      s'.index.names key = some (.bound arc)) : Marks key s s' []
  | bound {arc : SharedRef} (before : ∀ arc', s.index.names key ≠ some (.bound arc'))
      (after : s'.index.names key = some (.bound arc)) : Marks key s s' [.bound key arc]
  | removed : Marks key s s' [.removed key]

theorem marks_acts
    (hi : s.ops i = .running call pc) (hact : Acts call s.index pc next index) (key : Bytes) :
    Marks key s (System.setOp { s with index := index } i (.after call next))
      ((events (.step i) s).filter fun e => e.key = key) := by
  cases hact with
  | @binds gate own arc slot =>
    have he : events (.step i) s = [.bound call.key arc] := by simp [events, hi, slot]
    rw [he]
    by_cases hkey : call.key = key
    · subst hkey
      have hf : [Event.bound call.key arc].filter (fun e => e.key = call.key) =
          [.bound call.key arc] := by simp [Event.key]
      rw [hf]
      refine .bound (fun arc' hb => ?_) (Function.update_self ..)
      cases (Index.names_of_ownGate slot).symm.trans hb
    · have hf : [Event.bound call.key arc].filter (fun e => e.key = key) = [] := by
        simp [Event.key, hkey]
      rw [hf]
      refine .none fun arc' hb => ?_
      exact (Function.update_of_ne (Ne.symm hkey) ..).trans hb
  | refused slot =>
    have he : events (.step i) s = [] := by simp [events, hi, slot]
    rw [he]
    exact .none fun _ h => h
  | opens slot =>
    have he : events (.step i) s = [] := by simp [events, hi]
    rw [he]
    refine .none fun arc hb => ?_
    have hne : key ≠ call.key := by
      rintro rfl
      cases slot.symm.trans hb
    exact (Function.update_of_ne hne ..).trans hb
  | removes slot =>
    have he : events (.step i) s = [] := by simp [events, hi]
    rw [he]
    refine .none fun arc hb => ?_
    have hne : key ≠ call.key := by
      rintro rfl
      cases (Index.names_of_ownGate slot).symm.trans hb
    exact (Function.update_of_ne hne ..).trans hb
  | _ =>
    have he : events (.step i) s = [] := by simp [events, hi]
    rw [he]
    exact .none fun _ h => h

theorem marks_remove (key' key : Bytes) : Marks key s { s with index := s.index.remove key' }
    ((events (.remove key') s).filter fun e => e.key = key) := by
  cases hs : s.index.names key' with
  | none =>
    have he : events (.remove key') s = [] := by simp [events, hs]
    have hr : s.index.remove key' = s.index := by simp [Index.remove, hs]
    rw [he, hr]
    exact .none fun _ h => h
  | some slot =>
    cases slot with
    | creating gate =>
      have he : events (.remove key') s = [] := by simp [events, hs]
      have hr : s.index.remove key' = s.index := by simp [Index.remove, hs]
      rw [he, hr]
      exact .none fun _ h => h
    | bound arc =>
      have he : events (.remove key') s = [.removed key'] := by simp [events, hs]
      have hr : s.index.remove key' = s.index.setName key' none := by
        simp [Index.remove, hs]
      rw [he, hr]
      by_cases hkey : key' = key
      · have hf : [Event.removed key'].filter (fun e => e.key = key) = [.removed key] := by
          simp [Event.key, hkey]
        rw [hf]
        exact .removed
      · have hf : [Event.removed key'].filter (fun e => e.key = key) = [] := by
          simp [Event.key, hkey]
        rw [hf]
        refine .none fun arc' hb => ?_
        exact (Function.update_of_ne (Ne.symm hkey) ..).trans hb

theorem marks_step (hs : Names.step m s = some s') (key : Bytes) :
    Marks key s s' ((events m s).filter fun e => e.key = key) := by
  cases m with
  | call i call =>
    simp only [Names.step] at hs
    split at hs
    · cases hs
      exact .none fun _ h => h
    · cases hs
  | step i =>
    simp only [Names.step] at hs
    split at hs
    · next call pc hi =>
      obtain ⟨⟨next, index⟩, hact, rfl⟩ := Option.map_eq_some_iff.mp hs
      exact marks_acts hi (acts_of_act hact) key
    · cases hs
  | timeOut i =>
    simp only [Names.step] at hs
    split at hs
    · obtain ⟨-, hs'⟩ := Option.ite_none_left_eq_some.mp hs
      cases hs'
      exact .none fun _ h => h
    · cases hs
  | remove key' =>
    cases hs
    exact marks_remove key' key

/-- No binding follows a binding; the last event tells when the key is bound. -/
structure Alternates (key : Bytes) (events : List Event) (s : System) : Prop where
  chain : events.IsChain fun x y => ¬(x.isBound = true ∧ y.isBound = true)
  last : ∀ e, events.getLast? = some e → e.isBound = true →
    ∃ arc, s.index.names key = some (.bound arc)

theorem Alternates.marks {before marks : List Event}
    (h : Alternates key before s) (hm : Marks key s s' marks) :
    Alternates key (before ++ marks) s' := by
  cases hm with
  | none stays =>
    rw [List.append_nil]
    refine ⟨h.chain, fun e hlast hb => ?_⟩
    obtain ⟨arc, harc⟩ := h.last e hlast hb
    exact ⟨arc, stays arc harc⟩
  | @bound arc hbe after =>
    refine ⟨List.isChain_append.mpr ⟨h.chain, List.isChain_singleton _, ?_⟩,
      fun _ _ _ => ⟨arc, after⟩⟩
    rintro x hx y - ⟨hb, -⟩
    obtain ⟨arc', harc'⟩ := h.last x hx hb
    exact hbe arc' harc'
  | removed =>
    refine ⟨List.isChain_append.mpr ⟨h.chain, List.isChain_singleton _, ?_⟩,
      fun e hlast hb => ?_⟩
    · rintro x - y hy ⟨-, hb⟩
      cases hy
      cases hb
    · rw [List.getLast?_concat] at hlast
      cases hlast
      cases hb

/-! ## Runs -/

theorem history_concat (hrun : Runs.run Names.step moves start = some s)
    (m : Move) (key : Bytes) : history key (moves ++ [m]) =
      history key moves ++ (events m s).filter fun e => e.key = key := by
  rw [history, history, Runs.log_concat hrun, List.filter_append]

theorem run_all (hrun : Runs.run Names.step moves start = some s) :
    Inv s ∧ Hits moves s ∧ ∀ key, Alternates key (history key moves) s := by
  let P (moves : List Move) (s : System) : Prop :=
    Inv s ∧ Hits moves s ∧ ∀ key, Alternates key (history key moves) s
  have hh : Hits [] start := ⟨fun _ _ _ _ hj => (by cases hj), fun _ _ _ hj => (by cases hj)⟩
  have hs : P [] start := by
    refine ⟨start_inv, hh, fun key => ⟨.nil, fun e hlast => ?_⟩⟩
    cases hlast
  have hst : ∀ moves m s₁ s₂, Runs.run Names.step moves start = some s₁ → P moves s₁ →
      Names.step m s₁ = some s₂ → P (moves ++ [m]) s₂ := by
    rintro moves m s₁ s₂ hrun ⟨hinv, hh, ha⟩ hst
    refine ⟨hinv.step hst, hh.step hinv hrun hst, fun key => ?_⟩
    rw [history_concat hrun]
    exact (ha key).marks (marks_step hst key)
  exact Runs.run_history hs hst hrun

theorem creating_of_creates (hi : s.ops i = .running call pc)
    (hc : pc.creates = true) : ∃ g, (s.ops i).creating = some g ∧ g.key = call.key := by
  rw [hi]
  cases pc with
  | factory gate | bind gate arc | abort gate => exact ⟨⟨call.thread, call.key, gate⟩, rfl, rfl⟩
  | _ => cases hc

theorem running_of_guard (hi : (s.ops i).guard = some g) :
    ∃ call pc, s.ops i = .running call pc ∧ pc.guards = some g.gate := by
  cases hop : s.ops i with
  | unborn | ended call outcome =>
    rw [hop] at hi
    cases hi
  | running call pc =>
    rw [hop] at hi
    obtain ⟨gate, hg, rfl⟩ := Option.map_eq_some_iff.mp hi
    exact ⟨call, pc, rfl, hg⟩

end Runs

variable {s : System} {i : Nat} {call : Call} {gate : GateId}

theorem wakes (hi : s.ops i = .running call (.wait gate))
    (hs : (s.index.gates gate).settled = true) : (step (.step i) s).isSome = true := by
  simp only [step, hi, act, hs, if_true]
  split <;> rfl

theorem creator_goes_on {pc : Pc} (hi : s.ops i = .running call pc) (hg : pc.guards = some gate) :
    (step (.step i) s).isSome = true := by
  simp only [step, hi, Option.isSome_map]
  cases pc with
  | lookup | vacant | wait gate' => cases hg
  | factory gate' | bind gate' arc | abort gate' =>
    simp only [act]
    split <;> rfl
  | settle gate' arc | settleAborted removed gate' | settleDropped gate' => rfl

/-- **Get-or-create by name.**  In every state reached: no key has two creators; among the
bindings and removals of a key no binding follows a binding, so that one result at most is bound
between two removals; a hit returned an entry that was bound under the key at some moment of its
call; and a call that waits on a gate can go on, unless a call holds the guard of the gate, having
neither ended a bind nor dropped it, and can go on itself. -/
theorem get_or_create_once (moves : List Move) (s : System)
    (hrun : Runs.run step moves start = some s) :
    (∀ key i j, s.IsCreator i key → s.IsCreator j key → i = j) ∧
      (∀ key, (history key moves).IsChain fun x y => ¬(x.isBound = true ∧ y.isBound = true)) ∧
      (∀ i call arc, s.ops i = .ended call (.hit arc) → BoundDuring moves i call arc) ∧
      ∀ i call gate, s.ops i = .running call (.wait gate) → (step (.step i) s).isSome = true ∨
          ∃ j call' pc, s.ops j = .running call' pc ∧ pc.guards = some gate ∧
            (step (.step j) s).isSome = true := by
  obtain ⟨hinv, hh, ha⟩ := run_all hrun
  refine ⟨?_, fun key => (ha key).chain, hh.ended, ?_⟩
  · rintro key i j ⟨call, pc, hi, hkey, hc⟩ ⟨call', pc', hj, hkey', hc'⟩
    obtain ⟨g, hg, hgk⟩ := creating_of_creates hi hc
    obtain ⟨g', hg', hgk'⟩ := creating_of_creates hj hc'
    exact hinv.creator_eq hg hg' (by rw [hgk, hgk', hkey, hkey'])
  · intro i call gate hi
    by_cases hs : (s.index.gates gate).settled = true
    · exact .inl (wakes hi hs)
    · right
      have hlt := (hinv.waits i call.key gate (by rw [hi]; rfl)).1
      obtain ⟨j, g, hj, rfl⟩ := hinv.held gate hlt (Bool.eq_false_iff.mpr hs)
      obtain ⟨call', pc, hop, hgu⟩ := running_of_guard hj
      exact ⟨j, call', pc, hop, hgu, creator_goes_on hop hgu⟩

/-- The call of thread 1 creates the entry of the key `k`; thread 2 waits. -/
def creatorCall : Call where
  thread := 1
  key := [107]
  want := some .map
  factory := some ⟨7, .map⟩

def waiterCall : Call where
  thread := 2
  key := [107]
  want := none
  factory := none

/-- The name is removed after the creator has bound it and before the waiter wakes. -/
def removedBeforeWake : List Move :=
  [.call 0 creatorCall, .step 0, .step 0, .call 1 waiterCall, .step 1, .step 0, .step 0,
    .remove [107], .step 0, .step 1]

theorem get_or_create_once_removedBeforeWake : ∃ s, Runs.run step removedBeforeWake start = some s ∧
      s.ops 1 = .ended waiterCall (.hit ⟨7, .map⟩) ∧ s.index.names [107] = none ∧
      BoundDuring removedBeforeWake 1 waiterCall ⟨7, .map⟩ := by
  have hany : (Runs.run step removedBeforeWake start).any (fun s =>
      s.ops 1 = .ended waiterCall (.hit ⟨7, .map⟩) && s.index.names [107] = none) = true := by
    decide +kernel
  obtain ⟨s, hrun, hs⟩ := (Option.any_eq_true _ _).mp hany
  simp only [Bool.and_eq_true, decide_eq_true_eq] at hs
  obtain ⟨he, hn⟩ := hs
  refine ⟨s, hrun, he, hn, ?_⟩
  exact (get_or_create_once removedBeforeWake s hrun).2.2.1 1 waiterCall ⟨7, .map⟩ he

end OxPhp.Shared.Names
