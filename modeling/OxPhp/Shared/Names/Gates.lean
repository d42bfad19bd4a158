import OxPhp.Shared.Names.Index

/-!
# Guards and their gates

A creating slot of the names index belongs to one call, the creator, which holds
the guard of its gate.  A gate that is not settled has a guard.
-/

namespace OxPhp.Shared.Names

open ByteStr Interleave

/-- What the guard of a creator knows. -/
structure Guard where
  thread : ThreadId
  key : Bytes
  gate : GateId

namespace Op

def guard : Op → Option Guard
  | running call pc => pc.guards.map fun gate => ⟨call.thread, call.key, gate⟩
  | _ => none

/-- The guard of a call that is the creator of its key. -/
def creating : Op → Option Guard
  | running call pc => if pc.creates then (running call pc).guard else none
  | _ => none

def waiting : Op → Option (Bytes × GateId)
  | running call (.wait gate) => some (call.key, gate)
  | _ => none

theorem guard_of_creating {op : Op} {g : Guard} (h : op.creating = some g) : op.guard = some g := by
  cases op with
  | unborn => cases h
  | ended call outcome => cases h
  | running call pc => exact (Option.ite_none_right_eq_some.mp h).2

end Op

/-- A creating slot and the guard of its creator belong together; a gate that is
not settled has a guard; who waits on a gate waits for its own key. -/
structure Inv (s : System) : Prop where
  creator : ∀ i g, (s.ops i).creating = some g →
    s.index.names g.key = some (.creating g.gate) ∧
      (s.index.gates g.gate).settled = false ∧ (s.index.gates g.gate).creator = g.thread
  slot : ∀ key gate, s.index.names key = some (.creating gate) →
    ∃ i g, (s.ops i).creating = some g ∧ g.key = key ∧ g.gate = gate
  opened : ∀ i g, (s.ops i).guard = some g → g.gate < s.index.nextGate
  unique : ∀ i j g h, (s.ops i).guard = some g → (s.ops j).guard = some h → g.gate = h.gate → i = j
  held : ∀ gate, gate < s.index.nextGate → (s.index.gates gate).settled = false →
    ∃ i g, (s.ops i).guard = some g ∧ g.gate = gate
  waits : ∀ i key gate, (s.ops i).waiting = some (key, gate) →
    gate < s.index.nextGate ∧ ∀ j h, (s.ops j).guard = some h → h.gate = gate → h.key = key
  removes : ∀ i call removed gate,
    s.ops i = .running call (.settleAborted removed gate) → removed = gate

section Writes

variable {s : System} {i j : Nat} {op : Op} {g : Guard}

theorem System.setOp_self : (s.setOp i op).ops i = op := Function.update_self ..

theorem System.setOp_of_ne (h : j ≠ i) : (s.setOp i op).ops j = s.ops j :=
  Function.update_of_ne h ..

theorem setOp_cases {α : Type} {view : Op → α} {a : α} (h : view ((s.setOp i op).ops j) = a) :
    (j = i ∧ view op = a) ∨ (j ≠ i ∧ view (s.ops j) = a) := by
  by_cases hj : j = i
  · subst hj
    rw [System.setOp_self] at h
    exact .inl ⟨rfl, h⟩
  · rw [System.setOp_of_ne hj] at h
    exact .inr ⟨hj, h⟩

theorem view_setOp {α : Type} {view : Op → α} (h : view op = view (s.ops i)) (j : Nat) :
    view ((s.setOp i op).ops j) = view (s.ops j) := by
  by_cases hj : j = i
  · rw [hj, System.setOp_self, h]
  · rw [System.setOp_of_ne hj]

theorem ops_setOp_cases {op' : Op} (h : (s.setOp i op).ops j = op') :
    (j = i ∧ op = op') ∨ (j ≠ i ∧ s.ops j = op') :=
  @setOp_cases s i j op Op id op' h

theorem start_inv : Inv start where
  creator := nofun
  slot := nofun
  opened := nofun
  unique := nofun
  held := nofun
  waits := nofun
  removes := nofun

namespace Inv

theorem creator_eq (h : Inv s) {g' : Guard} (hi : (s.ops i).creating = some g)
    (hj : (s.ops j).creating = some g') (hkey : g.key = g'.key) : i = j := by
  have hg : g.gate = g'.gate := by
    have hs := (h.creator i g hi).1
    rw [hkey, (h.creator j g' hj).1] at hs
    exact (NameSlot.creating.inj (Option.some.inj hs)).symm
  exact h.unique i j g g' (Op.guard_of_creating hi) (Op.guard_of_creating hj) hg

theorem goOn (h : Inv s) (hgu : op.guard = (s.ops i).guard) (hcr : op.creating = (s.ops i).creating)
    (hw : ∀ key gate, op.waiting = some (key, gate) →
      s.index.names key = some (.creating gate))
    (hr : ∀ call removed gate, op ≠ .running call (.settleAborted removed gate)) :
    Inv (s.setOp i op) := by
  have hg := view_setOp hgu
  have hc := view_setOp hcr
  refine ⟨?_, ?_, ?_, ?_, ?_, ?_, ?_⟩
  · intro j g hj
    exact h.creator j g ((hc j).symm.trans hj)
  · intro key gate hs
    obtain ⟨j, g, hj, hre⟩ := h.slot key gate hs
    exact ⟨j, g, (hc j).trans hj, hre⟩
  · intro j g hj
    exact h.opened j g ((hg j).symm.trans hj)
  · intro j k g g' hj hk
    exact h.unique j k g g' ((hg j).symm.trans hj) ((hg k).symm.trans hk)
  · intro gate hlt hse
    obtain ⟨j, g, hj, hre⟩ := h.held gate hlt hse
    exact ⟨j, g, (hg j).trans hj, hre⟩
  · intro j key gate hj
    simp only [hg]
    rcases setOp_cases hj with ⟨-, hj⟩ | ⟨-, hj⟩
    · obtain ⟨k, g, hk, hkey, hga⟩ := h.slot key gate (hw key gate hj)
      have hgu := Op.guard_of_creating hk
      refine ⟨hga ▸ h.opened k g hgu, fun l g' hl hg' => ?_⟩
      cases h.unique k l g g' hgu hl (hga.trans hg'.symm)
      cases hgu.symm.trans hl
      exact hkey
    · exact h.waits j key gate hj
  · intro j call removed gate hj
    rcases ops_setOp_cases hj with ⟨-, hj⟩ | ⟨-, hj⟩
    · exact absurd hj (hr call removed gate)
    · exact h.removes j call removed gate hj

variable {call : Call} {pc : Pc} {next : Next Pc Outcome}

theorem create (h : Inv s) (hg : (s.ops i).guard = none) (hn : s.index.names call.key = none) :
    Inv (System.setOp { s with index := s.index.create call.key call.thread } i
      (.running call (.factory s.index.nextGate))) := by
  -- every gate and every other key is as before
  have hga : ∀ gate, gate < s.index.nextGate →
      (s.index.create call.key call.thread).gates gate = s.index.gates gate :=
    fun gate hlt => Function.update_of_ne (Nat.ne_of_lt hlt) ..
  have hna : ∀ key, key ≠ call.key →
      (s.index.create call.key call.thread).names key = s.index.names key :=
    fun key hne => Function.update_of_ne hne ..
  have hname : (s.index.create call.key call.thread).names call.key =
      some (.creating s.index.nextGate) := Function.update_self ..
  have hgate : (s.index.create call.key call.thread).gates s.index.nextGate =
      ⟨false, none, call.thread⟩ := Function.update_self ..
  refine ⟨?_, ?_, ?_, ?_, ?_, ?_, ?_⟩
  · intro j g hj
    rcases setOp_cases hj with ⟨-, hj⟩ | ⟨-, hj⟩
    · cases hj
      simp only [System.setOp, hname, hgate, and_self]
    · obtain ⟨hs, hr⟩ := h.creator j g hj
      have hne : g.key ≠ call.key := by
        intro heq
        rw [heq, hn] at hs
        cases hs
      have hlt := h.opened j g (Op.guard_of_creating hj)
      simp only [System.setOp, hna g.key hne, hga g.gate hlt]
      exact ⟨hs, hr⟩
  · intro key gate hs
    by_cases hkey : key = call.key
    · refine ⟨i, ⟨call.thread, call.key, s.index.nextGate⟩, ?_, hkey.symm, ?_⟩
      · rw [System.setOp_self]
        rfl
      · simp only [System.setOp, hkey, hname] at hs
        exact NameSlot.creating.inj (Option.some.inj hs)
    · simp only [System.setOp, hna key hkey] at hs
      obtain ⟨j, g, hj, hr⟩ := h.slot key gate hs
      have hji : j ≠ i := by
        rintro rfl
        cases hg.symm.trans (Op.guard_of_creating hj)
      exact ⟨j, g, (congrArg Op.creating (System.setOp_of_ne hji)).trans hj, hr⟩
  · intro j g hj
    rcases setOp_cases hj with ⟨-, hj⟩ | ⟨-, hj⟩
    · cases hj
      exact Nat.lt_succ_self _
    · exact Nat.lt_succ_of_lt (h.opened j g hj)
  · intro j k g g' hj hk heq
    rcases setOp_cases hj with ⟨hji, hj⟩ | ⟨-, hj⟩
    · rcases setOp_cases hk with ⟨hki, -⟩ | ⟨-, hk⟩
      · exact hji.trans hki.symm
      · cases hj
        exact absurd heq (Nat.ne_of_gt (h.opened k g' hk))
    · rcases setOp_cases hk with ⟨-, hk⟩ | ⟨-, hk⟩
      · cases hk
        exact absurd heq (Nat.ne_of_lt (h.opened j g hj))
      · exact h.unique j k g g' hj hk heq
  · intro gate hlt hse
    by_cases hnew : gate = s.index.nextGate
    · refine ⟨i, ⟨call.thread, call.key, s.index.nextGate⟩, ?_, hnew.symm⟩
      rw [System.setOp_self]
      rfl
    · have hlt : gate < s.index.nextGate := Nat.lt_of_le_of_ne (Nat.le_of_lt_succ hlt) hnew
      simp only [System.setOp, hga gate hlt] at hse
      obtain ⟨j, g, hj, hr⟩ := h.held gate hlt hse
      have hji : j ≠ i := by
        rintro rfl
        cases hg.symm.trans hj
      exact ⟨j, g, (congrArg Op.guard (System.setOp_of_ne hji)).trans hj, hr⟩
  · intro j key gate hj
    rcases setOp_cases hj with ⟨-, hj⟩ | ⟨-, hj⟩
    · cases hj
    · obtain ⟨hlt, hke⟩ := h.waits j key gate hj
      refine ⟨Nat.lt_succ_of_lt hlt, fun k g hk hg' => ?_⟩
      rcases setOp_cases hk with ⟨-, hk⟩ | ⟨-, hk⟩
      · cases hk
        exact absurd hg' (Nat.ne_of_gt hlt)
      · exact hke k g hk hg'
  · intro j call' removed gate hj
    rcases ops_setOp_cases hj with ⟨-, hj⟩ | ⟨-, hj⟩
    · cases hj
    · exact h.removes j call' removed gate hj

theorem leave (h : Inv s) (hi : (s.ops i).creating = some g) {slot : Option NameSlot}
    (hsl : ∀ gate, slot ≠ some (.creating gate)) (hgu : op.guard = some g)
    (hc : op.creating = none) (hw : op.waiting = none)
    (hr : ∀ call removed gate, op = .running call (.settleAborted removed gate) →
      removed = gate) : Inv (System.setOp { s with index := s.index.setName g.key slot } i op) := by
  have hg : ∀ j, ((System.setOp { s with index := s.index.setName g.key slot } i op).ops j).guard =
      (s.ops j).guard := by
    have hsa : op.guard = (s.ops i).guard := hgu.trans (Op.guard_of_creating hi).symm
    exact fun j => view_setOp hsa j
  have hn : ∀ key, key ≠ g.key → (s.index.setName g.key slot).names key = s.index.names key :=
    fun key hne => Function.update_of_ne hne ..
  have hna : (s.index.setName g.key slot).names g.key = slot := Function.update_self ..
  refine ⟨?_, ?_, ?_, ?_, ?_, ?_, ?_⟩
  · intro j g' hj
    rcases setOp_cases hj with ⟨-, hj⟩ | ⟨hji, hj⟩
    · cases hc.symm.trans hj
    · have hne : g'.key ≠ g.key := fun heq => hji (h.creator_eq hj hi heq)
      simp only [System.setOp, hn g'.key hne]
      exact h.creator j g' hj
  · intro key gate hkey
    have hne : key ≠ g.key := by
      rintro rfl
      exact hsl gate (hna.symm.trans hkey)
    simp only [System.setOp, hn key hne] at hkey
    obtain ⟨j, g', hj, heq, hga⟩ := h.slot key gate hkey
    have hji : j ≠ i := by
      rintro rfl
      cases hi.symm.trans hj
      exact hne heq.symm
    exact ⟨j, g', (congrArg Op.creating (System.setOp_of_ne hji)).trans hj, heq, hga⟩
  · intro j g' hj
    exact h.opened j g' ((hg j).symm.trans hj)
  · intro j k g' g'' hj hk
    exact h.unique j k g' g'' ((hg j).symm.trans hj) ((hg k).symm.trans hk)
  · intro gate hlt hs
    obtain ⟨j, g', hj, hre⟩ := h.held gate hlt hs
    exact ⟨j, g', (hg j).trans hj, hre⟩
  · intro j key gate hj
    simp only [hg]
    rcases setOp_cases hj with ⟨-, hj⟩ | ⟨-, hj⟩
    · cases hw.symm.trans hj
    · exact h.waits j key gate hj
  · intro j call removed gate hj
    rcases ops_setOp_cases hj with ⟨-, hj⟩ | ⟨-, hj⟩
    · exact hr call removed gate hj
    · exact h.removes j call removed gate hj

theorem settle (h : Inv s) (hi : (s.ops i).guard = some g) (hnot : (s.ops i).creating = none)
    (result : Option SharedRef) (hg : ∀ g', op.guard = some g' → g' = g)
    (hc : op.creating = none) (hw : op.waiting = none)
    (hr : ∀ call removed gate, op ≠ .running call (.settleAborted removed gate)) :
    Inv (System.setOp { s with index := s.index.settle g.gate result } i op) := by
  have hga : ∀ gate, gate ≠ g.gate → (s.index.settle g.gate result).gates gate =
      s.index.gates gate := fun gate hne => Function.update_of_ne hne ..
  have hgate : ((s.index.settle g.gate result).gates g.gate).settled = true := by
    simp only [Index.settle, Function.update_self]
  -- whoever has a guard had it before
  have hb : ∀ j g', ((System.setOp { s with index := s.index.settle g.gate result } i op).ops
      j).guard = some g' → (s.ops j).guard = some g' := by
    intro j g' hj
    rcases setOp_cases hj with ⟨hji, hj⟩ | ⟨-, hj⟩
    · rw [hg g' hj, hji]
      exact hi
    · exact hj
  refine ⟨?_, ?_, ?_, ?_, ?_, ?_, ?_⟩
  · intro j g' hj
    rcases setOp_cases hj with ⟨-, hj⟩ | ⟨hji, hj⟩
    · cases hc.symm.trans hj
    · have hne : g'.gate ≠ g.gate := fun heq =>
        hji (h.unique j i g' g (Op.guard_of_creating hj) hi heq)
      simp only [System.setOp, hga g'.gate hne]
      exact h.creator j g' hj
  · intro key gate hkey
    obtain ⟨j, g', hj, hre⟩ := h.slot key gate hkey
    have hji : j ≠ i := by
      rintro rfl
      cases hnot.symm.trans hj
    exact ⟨j, g', (congrArg Op.creating (System.setOp_of_ne hji)).trans hj, hre⟩
  · intro j g' hj
    exact h.opened j g' (hb j g' hj)
  · intro j k g' g'' hj hk
    exact h.unique j k g' g'' (hb j g' hj) (hb k g'' hk)
  · intro gate hlt hs
    have hne : gate ≠ g.gate := by
      rintro rfl
      cases hgate.symm.trans hs
    simp only [System.setOp, hga gate hne] at hs
    obtain ⟨j, g', hj, heq⟩ := h.held gate hlt hs
    have hji : j ≠ i := by
      rintro rfl
      cases hi.symm.trans hj
      exact hne heq.symm
    exact ⟨j, g', (congrArg Op.guard (System.setOp_of_ne hji)).trans hj, heq⟩
  · intro j key gate hj
    rcases setOp_cases hj with ⟨-, hj⟩ | ⟨-, hj⟩
    · cases hw.symm.trans hj
    · obtain ⟨hlt, hke⟩ := h.waits j key gate hj
      exact ⟨hlt, fun k g' hk => hke k g' (hb k g' hk)⟩
  · intro j call removed gate hj
    rcases ops_setOp_cases hj with ⟨-, hj⟩ | ⟨-, hj⟩
    · exact absurd hj (hr call removed gate)
    · exact h.removes j call removed gate hj

theorem remove (h : Inv s) (key : Bytes) : Inv { s with index := s.index.remove key } := by
  unfold Index.remove
  split
  · next arc hb =>
    have hn : ∀ key', key' ≠ key → (s.index.setName key none).names key' =
        s.index.names key' := fun key' hne => Function.update_of_ne hne ..
    have hna : (s.index.setName key none).names key = none := Function.update_self ..
    refine { h with creator := fun i g hi => ?_, slot := fun key' gate hkey => ?_ }
    · obtain ⟨hs, hr⟩ := h.creator i g hi
      have hne : g.key ≠ key := by
        intro heq
        rw [heq, hb] at hs
        cases hs
      exact ⟨(hn g.key hne).trans hs, hr⟩
    · have hne : key' ≠ key := by
        rintro rfl
        cases hna.symm.trans hkey
      exact h.slot key' gate ((hn key' hne).symm.trans hkey)
  · exact h

theorem ownGate_eq (h : Inv s) (hi : (s.ops i).creating = some g) :
    s.index.ownGate g.key g.thread = some g.gate := by
  obtain ⟨hs, -, hc⟩ := h.creator i g hi
  rw [Index.ownGate, hs]
  exact if_pos hc

theorem goOn_free (h : Inv s) (hi : s.ops i = .running call pc) (hg : pc.guards = none)
    (hn : ∀ pc' ∈ next.pcs, pc'.guards = none ∧
      ∀ gate, pc' = .wait gate → s.index.names call.key = some (.creating gate)) :
    Inv (s.setOp i (.after call next)) := by
  have hgu : (s.ops i).guard = none := by rw [hi, Op.guard, hg]; rfl
  have hcr : (s.ops i).creating = none := by
    cases hc : (s.ops i).creating with
    | none => rfl
    | some g => cases hgu.symm.trans (Op.guard_of_creating hc)
  cases next with
  | ret outcome => exact h.goOn hgu.symm hcr.symm nofun nofun
  | go pc' =>
    obtain ⟨hg', hw⟩ := hn pc' (List.mem_singleton_self pc')
    have hgu' : (Op.running call pc').guard = none := by rw [Op.guard, hg']; rfl
    refine h.goOn (hgu'.trans hgu.symm) ?_ ?_ ?_
    · rw [hcr, Op.after, Op.creating, hgu', ite_self]
    · intro key gate hwa
      cases pc' with
      | wait gate' =>
        cases hwa
        exact hw gate rfl
      | _ => cases hwa
    · rintro call' removed gate ⟨⟩
      cases hg'

theorem acts (h : Inv s) {index : Index}
    (hi : s.ops i = .running call pc) (hact : Acts call s.index pc next index) :
    Inv (System.setOp { s with index := index } i (.after call next)) := by
  cases hact with
  | found slot | reentrant | woken settled result => exact h.goOn_free hi rfl nofun
  | absent | again | lost => exact h.goOn_free hi rfl (by simp [Pc.guards])
  | @waits gate slot =>
    refine h.goOn_free hi rfl fun pc' hpc' => ?_
    cases List.mem_singleton.mp hpc'
    refine ⟨rfl, ?_⟩
    rintro gate' ⟨⟩
    exact slot
  | opens slot => exact h.create (by rw [hi]; rfl) slot
  | returns | fails | refused slot => exact h.goOn (by rw [hi]; rfl) (by rw [hi]; rfl) nofun nofun
  | @binds gate own arc slot =>
    have hc : (s.ops i).creating = some ⟨call.thread, call.key, gate⟩ := by rw [hi]; rfl
    cases (h.ownGate_eq hc).symm.trans slot
    exact h.leave hc nofun rfl rfl rfl nofun
  | @removes gate own slot =>
    have hc : (s.ops i).creating = some ⟨call.thread, call.key, gate⟩ := by rw [hi]; rfl
    cases (h.ownGate_eq hc).symm.trans slot
    refine h.leave hc nofun rfl rfl rfl ?_
    rintro call' removed gate' ⟨⟩
    rfl
  | @gone gate slot =>
    have hc : (s.ops i).creating = some ⟨call.thread, call.key, gate⟩ := by rw [hi]; rfl
    cases (h.ownGate_eq hc).symm.trans slot
  | @settles gate arc =>
    have hg : (s.ops i).guard = some ⟨call.thread, call.key, gate⟩ := by rw [hi]; rfl
    exact h.settle hg (by rw [hi]; rfl) (some arc) nofun rfl rfl nofun
  | @settlesAborted removed gate =>
    have hg : (s.ops i).guard = some ⟨call.thread, call.key, gate⟩ := by rw [hi]; rfl
    cases h.removes i call removed gate hi
    refine h.settle hg (by rw [hi]; rfl) none ?_ rfl rfl nofun
    rintro g' ⟨⟩
    rfl
  | @settlesDropped gate =>
    have hg : (s.ops i).guard = some ⟨call.thread, call.key, gate⟩ := by rw [hi]; rfl
    exact h.settle hg (by rw [hi]; rfl) none nofun rfl rfl nofun

theorem step (h : Inv s) {m : Move} {s' : System} (hs : step m s = some s') : Inv s' := by
  cases m with
  | call i call =>
    simp only [Names.step] at hs
    split at hs
    · next hu =>
      cases hs
      exact h.goOn (by rw [hu]; rfl) (by rw [hu]; rfl) nofun nofun
    · cases hs
  | step i =>
    simp only [Names.step] at hs
    split at hs
    · next call pc hi =>
      obtain ⟨⟨next, index⟩, hact, rfl⟩ := Option.map_eq_some_iff.mp hs
      exact h.acts hi (acts_of_act hact)
    · cases hs
  | timeOut i =>
    simp only [Names.step] at hs
    split at hs
    · next call gate hi =>
      obtain ⟨-, hs'⟩ := Option.ite_none_left_eq_some.mp hs
      cases hs'
      exact h.goOn (by rw [hi]; rfl) (by rw [hi]; rfl) nofun nofun
    · cases hs
  | remove key =>
    cases hs
    exact h.remove key

end Inv

end Writes

end OxPhp.Shared.Names
