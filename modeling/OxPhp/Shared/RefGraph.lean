import OxPhp.Shared.Registry

/-!
# The reference graph

Who keeps whom alive, and which of these edges the cycle walker sees.  Maps and
Channels report what they hold, so a way back that passes through these alone is
found; a Once and a Mutex report nothing.  Every change of the registry that
adds no way back keeps the graph acyclic.
-/

namespace OxPhp.Shared

open ByteStr OxPhp.Async Relation Digraph ExceptInv

theorem mem_distinctIds {seen : List SharedId} {refs : List SharedRef} {r : SharedRef}
    (h : r ∈ refs) (hs : r.id ∉ seen) : ∃ r' ∈ distinctIds seen refs, r'.id = r.id := by
  induction refs generalizing seen with
  | nil => cases h
  | cons x refs ih =>
    unfold distinctIds
    rcases List.mem_cons.mp h with rfl | h
    · rw [if_neg hs]
      exact ⟨r, List.mem_cons_self, rfl⟩
    · split
      · exact ih h hs
      · by_cases hx : r.id = x.id
        · exact ⟨x, List.mem_cons_self, hx.symm⟩
        · have hs' : r.id ∉ x.id :: seen := by simp [hx, hs]
          obtain ⟨r', hr', hid⟩ := ih h hs'
          exact ⟨r', List.mem_cons_of_mem _ hr', hid⟩

namespace Registry

/-! ## The graph -/

section Graph

variable (reg : Registry)

/-- One live entry keeps another alive. -/
def Edge (a b : SharedId) : Prop :=
  ∃ inner, reg.entries a = some inner ∧ ∃ r ∈ inner.refs, r.id = b

def Reported (a b : SharedId) : Prop := ∃ child ∈ reg.childrenOf a, child.id = b

def IsCell (id : SharedId) : Prop := ∃ inner, reg.entries id = some inner ∧ inner.isCell = true

/-- Where a stored reference leads back to the target, the target is no Once or
Mutex and one way back passes through none. -/
def Traceable (target : SharedId) (refs : List SharedRef) : Prop :=
  ∀ r ∈ refs, ReflTransGen reg.Edge r.id target →
    ¬reg.IsCell target ∧
      ReflTransGen (fun a b => ¬reg.IsCell a ∧ reg.Edge a b) r.id target

structure Sound : Prop where
  acyclic : Acyclic reg.Edge
  live : ∀ a b, reg.Edge a b → ∃ inner, reg.entries b = some inner
  below : ∀ a inner, reg.entries a = some inner → a < reg.nextId
  indexed : ∀ id c, reg.entries id = some (.channel c) → c.Indexed

end Graph

variable {reg : Registry}

theorem sound_empty (config : SharedConfig) (seed : SharedId) : (empty config seed).Sound := by
  have hn : ∀ a b, ¬(empty config seed).Edge a b := by
    rintro a b ⟨inner, hin, -⟩
    cases hin
  refine ⟨acyclic_of_no_edges hn, fun a b h => absurd h (hn a b), ?_, ?_⟩
  · rintro a inner ⟨⟩
  · rintro id c ⟨⟩

theorem Sound.senders (h : reg.Sound) (senders : ChannelSenders) :
    { reg with senders := senders }.Sound :=
  ⟨h.acyclic, h.live, h.below, h.indexed⟩

/-! ## Reported edges -/

variable {a b id : SharedId} {message : CycleError → Bytes} {roots : List SharedRef} {inner : Inner}

theorem Sound.reported (h : reg.Sound) (hc : ¬reg.IsCell a)
    (he : reg.Edge a b) : reg.Reported a b := by
  obtain ⟨inner, hin, r, hr, rfl⟩ := he
  unfold Reported childrenOf
  rw [hin]
  cases inner with
  | scalar => cases hr
  | once | mutex => exact absurd ⟨_, hin, rfl⟩ hc
  | map m => exact ⟨r, hr, rfl⟩
  | channel c =>
    have hindex : r ∈ c.inFlight := (h.indexed a c hin).mem_iff.mpr hr
    exact mem_distinctIds hindex (by simp)

theorem checkCycles_ok {selfId : SharedId} (h : reg.checkCycles message selfId roots = .ok ()) :
    ∀ r ∈ roots, ¬ReflTransGen reg.Reported r.id selfId := by
  induction roots with
  | nil => simp
  | cons root rest ih =>
    unfold checkCycles at h
    split at h
    · next hw =>
      intro r hr
      rcases List.mem_cons.mp hr with rfl | hr
      · exact wouldCreateCycle_ok hw
      · exact ih h r hr
    · cases h

/-- **A checked store closes no cycle.** -/
theorem Sound.not_reach_of_check (h : reg.Sound) (ht : reg.Traceable id roots)
    (hc : reg.checkCycles message id roots = .ok ()) :
    ∀ r ∈ roots, ¬ReflTransGen reg.Edge r.id id := by
  intro r hr hre
  obtain ⟨-, hway⟩ := ht r hr hre
  have hs : (fun a b => ¬reg.IsCell a ∧ reg.Edge a b) ≤ reg.Reported :=
    fun a b hab => h.reported hab.1 hab.2
  exact checkCycles_ok hc r hr (ReflTransGen.mono hs r.id id hway)

theorem Traceable.not_reach {refs : List SharedRef} (h : reg.Traceable id refs)
    (hid : reg.IsCell id) : ∀ r ∈ refs, ¬ReflTransGen reg.Edge r.id id :=
  fun r hr hre => (h r hr hre).1 hid

theorem traceable_nil (id : SharedId) : reg.Traceable id [] := by
  intro r hr
  cases hr

/-! ## What an operation may change -/

@[simp] theorem entries_put_self :
    (reg.put id inner).entries id = some inner := Function.update_self ..

theorem entries_put_of_ne (h : a ≠ id) :
    (reg.put id inner).entries a = reg.entries a := Function.update_of_ne h ..

theorem edge_put : (reg.put id inner).Edge a b ↔
      (a = id ∧ ∃ r ∈ inner.refs, r.id = b) ∨ (a ≠ id ∧ reg.Edge a b) := by
  by_cases ha : a = id
  · subst ha
    simp [Edge]
  · simp [Edge, entries_put_of_ne, ha]

theorem live_put (h : ∃ e, reg.entries b = some e) :
    ∃ e, (reg.put id inner).entries b = some e := by
  obtain ⟨e, he⟩ := h
  by_cases hb : b = id
  · exact ⟨inner, hb ▸ entries_put_self⟩
  · exact ⟨e, (entries_put_of_ne hb).trans he⟩

/-- **A store that reaches back to nothing keeps the invariant.** -/
theorem Sound.put (h : reg.Sound) {inner' : Inner} {new : List SharedRef}
    (hid : reg.entries id = some inner)
    (hre : ∀ r ∈ inner'.refs, r ∈ inner.refs ∨ (r ∈ new ∧ ∃ e, reg.entries r.id = some e))
    (hrea : ∀ r ∈ new, ¬ReflTransGen reg.Edge r.id id)
    (hin : ∀ c, inner' = .channel c → c.Indexed) : (reg.put id inner').Sound := by
  have hed : ∀ a b, (reg.put id inner').Edge a b →
      reg.Edge a b ∨ (a = id ∧ ∃ r ∈ new, r.id = b ∧ ∃ e, reg.entries b = some e) := by
    intro a b hab
    rcases edge_put.mp hab with ⟨rfl, r, hr, rfl⟩ | ⟨-, hab⟩
    · rcases hre r hr with hr | ⟨hr, hl⟩
      · exact .inl ⟨inner, hid, r, hr, rfl⟩
      · exact .inr ⟨rfl, r, hr, rfl, hl⟩
    · exact .inl hab
  refine ⟨h.acyclic.insert hed ?_, ?_, ?_, ?_⟩
  · rintro b ⟨r, hr, rfl, -⟩
    exact hrea r hr
  · intro a b hab
    rcases hed a b hab with hab | ⟨-, -, -, -, hl⟩
    · exact live_put (h.live a b hab)
    · exact live_put hl
  · intro a e he
    by_cases ha : a = id
    · exact ha ▸ h.below id inner hid
    · rw [entries_put_of_ne ha] at he
      exact h.below a e he
  · intro a c hc
    by_cases ha : a = id
    · subst ha
      rw [entries_put_self] at hc
      exact hin c (Option.some.inj hc)
    · rw [entries_put_of_ne ha] at hc
      exact h.indexed a c hc

/-! ## Entries that come and go -/

section Insert

theorem entries_insert_self : (reg.insert inner).entries reg.nextId = some inner :=
  Function.update_self ..

theorem entries_insert_of_ne {a : SharedId} (h : a ≠ reg.nextId) :
    (reg.insert inner).entries a = reg.entries a := Function.update_of_ne h ..

theorem edge_insert {a b : SharedId} (hab : (reg.insert inner).Edge a b) :
    reg.Edge a b ∨ (a = reg.nextId ∧ ∃ r ∈ inner.refs, r.id = b) := by
  obtain ⟨e, he, r, hr, rfl⟩ := hab
  by_cases ha : a = reg.nextId
  · subst ha
    cases entries_insert_self.symm.trans he
    exact .inr ⟨rfl, r, hr, rfl⟩
  · exact .inl ⟨e, (entries_insert_of_ne ha).symm.trans he, r, hr, rfl⟩

theorem Sound.entries_insert (h : reg.Sound) {a : SharedId} {e : Inner}
    (he : reg.entries a = some e) : (reg.insert inner).entries a = some e :=
  (entries_insert_of_ne (Nat.ne_of_lt (h.below a e he))).trans he

theorem Sound.no_edge_next (h : reg.Sound) (a : SharedId) : ¬reg.Edge a reg.nextId := by
  intro hed
  obtain ⟨e, he⟩ := h.live a _ hed
  exact Nat.lt_irrefl _ (h.below _ e he)

theorem Sound.not_reach_next (h : reg.Sound) {b : SharedId}
    (hb : ∃ e, reg.entries b = some e) : ¬ReflTransGen reg.Edge b reg.nextId := by
  intro hr
  rcases hr.cases_tail with hs | ⟨a, -, hed⟩
  · obtain ⟨e, he⟩ := hb
    exact Nat.ne_of_lt (h.below b e he) hs.symm
  · exact h.no_edge_next a hed

theorem Sound.insert (h : reg.Sound) (hl : ∀ r ∈ inner.refs, ∃ e, reg.entries r.id = some e)
    (hin : ∀ c, inner = .channel c → c.Indexed) : (reg.insert inner).Sound := by
  refine ⟨h.acyclic.insert (fun a b => edge_insert) ?_, ?_, ?_, ?_⟩
  · rintro b ⟨r, hr, rfl⟩
    exact h.not_reach_next (hl r hr)
  · intro a b hab
    obtain ⟨e, he⟩ : ∃ e, reg.entries b = some e := by
      rcases edge_insert hab with hab | ⟨-, r, hr, rfl⟩
      · exact h.live a b hab
      · exact hl r hr
    exact ⟨e, h.entries_insert he⟩
  · intro a e he
    by_cases ha : a = reg.nextId
    · exact ha ▸ Nat.lt_succ_self _
    · exact Nat.lt_succ_of_lt (h.below a e ((entries_insert_of_ne ha).symm.trans he))
  · intro a c hc
    by_cases ha : a = reg.nextId
    · subst ha
      exact hin c (Option.some.inj (entries_insert_self.symm.trans hc))
    · exact h.indexed a c ((entries_insert_of_ne ha).symm.trans hc)

end Insert

theorem Sound.erase (h : reg.Sound) (hf : ∀ a, ¬reg.Edge a id) (senders : ChannelSenders) :
    { reg with entries := Function.update reg.entries id none, senders := senders }.Sound := by
  let after : Registry :=
    { reg with entries := Function.update reg.entries id none, senders := senders }
  have hen : ∀ a e, after.entries a = some e → a ≠ id ∧ reg.entries a = some e := by
    intro a e he
    by_cases ha : a = id
    · subst ha
      cases (Function.update_self ..).symm.trans he
    · exact ⟨ha, (Function.update_of_ne ha ..).symm.trans he⟩
  have hed : ∀ a b, after.Edge a b → reg.Edge a b := by
    rintro a b ⟨e, he, hr⟩
    exact ⟨e, (hen a e he).2, hr⟩
  have hk : ∀ {a b e}, reg.Edge a b → reg.entries b = some e → after.entries b = some e := by
    intro a b e hab he
    have hb : b ≠ id := fun hb => hf a (hb ▸ hab)
    exact (Function.update_of_ne hb ..).trans he
  refine ⟨h.acyclic.mono hed, fun a b hab => ?_, fun a e he => ?_, fun a c hc => ?_⟩
  · obtain ⟨e, he⟩ := h.live a b (hed a b hab)
    exact ⟨e, hk (hed a b hab) he⟩
  · exact h.below a e (hen a e he).2
  · exact h.indexed a c (hen a _ hc).2

theorem Sound.no_edge_of_not_isReferenced (h : reg.Sound)
    (hf : reg.isReferenced id = false) (a : SharedId) : ¬reg.Edge a id := by
  rintro ⟨e, he, r, hr, rfl⟩
  have hra : a ∈ List.range reg.nextId := List.mem_range.mpr (h.below a e he)
  have := List.any_eq_false.mp hf a hra
  rw [he] at this
  simp only [Option.map_some, Option.any_some, Bool.not_eq_true, List.any_eq_false] at this
  exact Bool.false_ne_true ((this r hr).symm.trans (beq_self_eq_true r.id))

theorem Sound.dropEntry (h : reg.Sound) (id : SharedId) : (reg.dropEntry id).Sound := by
  unfold Registry.dropEntry
  split
  · exact h
  · next hf =>
    have hf := h.no_edge_of_not_isReferenced (Bool.not_eq_true _ ▸ hf)
    split
    · exact h.erase hf _
    · exact h.erase hf reg.senders

end Registry

end OxPhp.Shared
