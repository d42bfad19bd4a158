import OxPhp.Lib.Ledger

/-!
# The byte budget of the waiting set

Requests that wait for a worker hold their bodies, and a counter bounds the sum:
a machine word, exact as long as the bodies in memory are fewer bytes than a word
can count.  With a cap below `usize::MAX` it is exact whatever the sizes.
-/

namespace OxPhp.Executor.WaitingBytes

open Interleave

def usizeMax : UInt64 := 18446744073709551615

def saturatingAdd (a b : UInt64) : UInt64 :=
  if 2 ^ 64 ≤ a.toNat + b.toNat then usizeMax else a + b

/-- `BytesCharge`.  A charge without a budget charged nothing. -/
structure BytesCharge where
  budget : Bool
  bytes : UInt64
  nothing : budget = false → bytes = 0
deriving DecidableEq

def BytesCharge.empty : BytesCharge := ⟨false, 0, fun _ => rfl⟩

def BytesCharge.of (bytes : UInt64) : BytesCharge := ⟨true, bytes, nofun⟩

/-- The counter, and the charges that have not been dropped. -/
structure Budget where
  held : UInt64
  live : List BytesCharge

inductive Call where
  | tryParkBytes (bytes : UInt64)
  | drop (charge : BytesCharge)

inductive Pc where
  | empty
  | load (bytes : UInt64)
  | exchange (bytes held : UInt64)
  | drop (charge : BytesCharge)

inductive Answer where
  | parked (charge : BytesCharge)
  /-- `ShedReason::WaitingBytes`, and the bytes that were asked for. -/
  | refused (bytes : UInt64)
  | dropped (charge : BytesCharge)
deriving DecidableEq

def Call.entry : Call → Pc
  | tryParkBytes bytes => if bytes = 0 then .empty else .load bytes
  | drop charge => .drop charge

def act (cap : UInt64) : Pc → Budget → List (Next Pc Answer × Budget)
  | .empty, s => [(.ret (.parked .empty), { s with live := s.live ++ [.empty] })]
  | .load bytes, s => [(.go (.exchange bytes s.held), s)]
  | .exchange bytes held, s =>
    if cap < saturatingAdd held bytes then [(.ret (.refused bytes), s)]
    -- `compare_exchange_weak` may also fail when the counter is as it was seen
    else if s.held = held then
      [(.ret (.parked (.of bytes)), ⟨held + bytes, s.live ++ [.of bytes]⟩),
        (.go (.exchange bytes s.held), s)]
    else [(.go (.exchange bytes s.held), s)]
  | .drop charge, s =>
    -- a charge is dropped once: only a live one can be
    if charge ∈ s.live then
      [(.ret (.dropped charge),
        ⟨if charge.budget then s.held - charge.bytes else s.held, s.live.erase charge⟩)]
    else []

abbrev State := Config Budget Pc Answer

def machine (cap : UInt64) : Machine Budget Pc Call Answer Empty where
  entry := Call.entry
  act := act cap
  env := nofun

def start : State := ⟨⟨0, []⟩, [], []⟩

/-- The bytes of the live charges, summed without a bound. -/
def charged (live : List BytesCharge) : Nat := (live.map fun charge => charge.bytes.toNat).sum

/-- The counter is exact and within the cap, and no empty body has been refused. -/
structure Sound (cap : UInt64) (c : State) : Prop where
  exact : c.shared.held.toNat = charged c.shared.live
  within : c.shared.held ≤ cap
  empties : .refused 0 ∉ c.returned

/-! ## The counter -/

theorem charged_append (live : List BytesCharge) (charge : BytesCharge) :
    charged (live ++ [charge]) = charged live + charge.bytes.toNat := by
  rw [charged, charged, List.map_append, List.sum_append, List.map_singleton, List.sum_singleton]

theorem charged_erase {live : List BytesCharge} {charge : BytesCharge} (h : charge ∈ live) :
    charged live = charge.bytes.toNat + charged (live.erase charge) :=
  ((List.perm_cons_erase h).map _).sum_eq

theorem toNat_add_of_le {held bytes cap : UInt64}
    (hno : cap ≠ usizeMax ∨ held.toNat + bytes.toNat < 2 ^ 64)
    (h : ¬cap < saturatingAdd held bytes) :
    (held + bytes).toNat = held.toNat + bytes.toNat ∧ held + bytes ≤ cap := by
  have hle : saturatingAdd held bytes ≤ cap := UInt64.not_lt.mp h
  unfold saturatingAdd at hle
  split at hle
  · next hf =>
    rcases hno with hcap | hfit
    · -- a sum that saturates is over every smaller cap
      have hmax : cap ≤ usizeMax := UInt64.le_iff_toNat_le.mpr (Nat.le_of_lt_succ cap.toNat_lt)
      exact absurd (UInt64.le_antisymm hmax hle) hcap
    · exact absurd hfit (Nat.not_lt.mpr hf)
  · next hf =>
    refine ⟨?_, hle⟩
    rw [UInt64.toNat_add, Nat.mod_eq_of_lt (Nat.lt_of_not_le hf)]

/-- The length of the body a request asks to park. -/
def Pc.body : Pc → Nat
  | load bytes => bytes.toNat
  | exchange bytes _ => bytes.toNat
  | _ => 0

/-- An empty body is not asked for. -/
def Pc.Asks : Pc → Prop
  | load bytes => bytes ≠ 0
  | exchange bytes _ => bytes ≠ 0
  | _ => True

theorem Call.entry_asks (k : Call) : k.entry.Asks := by
  cases k with
  | drop charge => trivial
  | tryParkBytes bytes =>
    rw [Call.entry]
    split
    · trivial
    · next hb => exact hb

theorem act_cases {cap : UInt64} {pc : Pc} {s s' : Budget} {next : Next Pc Answer}
    (hout : (next, s') ∈ act cap pc s) :
    (s' = s ∧ (pc.Asks → (∀ pc' ∈ next.pcs, pc'.Asks) ∧ .refused 0 ∉ next.answers)) ∨
    (∃ charge, next = .ret (.parked charge) ∧ s'.live = s.live ++ [charge] ∧
      s'.held = s.held + charge.bytes ∧ charge.bytes.toNat = pc.body ∧
      (charge.bytes = 0 ∨ ¬cap < saturatingAdd s.held charge.bytes)) ∨
    (∃ charge ∈ s.live, next = .ret (.dropped charge) ∧ s'.live = s.live.erase charge ∧
      s'.held = s.held - charge.bytes) := by
  have ha : ∀ {bytes held : UInt64}, bytes ≠ 0 →
      ∀ pc' ∈ (.go (.exchange bytes held) : Next Pc Answer).pcs, pc'.Asks :=
    fun hb pc' hpc' => List.mem_singleton.mp hpc' ▸ hb
  cases pc with
  | empty =>
    cases sole_outcome hout
    exact .inr (.inl ⟨.empty, rfl, rfl, (UInt64.add_zero s.held).symm, rfl, .inl rfl⟩)
  | load bytes =>
    cases sole_outcome hout
    exact .inl ⟨rfl, fun hb => ⟨ha hb, List.not_mem_nil⟩⟩
  | exchange bytes held =>
    rw [act] at hout
    split at hout
    · cases sole_outcome hout
      refine .inl ⟨rfl, fun hb => ⟨Next.forall_pcs_ret _, fun hr => ?_⟩⟩
      exact hb (Answer.refused.inj (List.mem_singleton.mp hr)).symm
    · next hro =>
      split at hout
      · next hs =>
        rcases List.mem_cons.mp hout with hout | hout
        · obtain ⟨rfl, rfl⟩ := Prod.mk.inj hout
          subst hs
          exact .inr (.inl ⟨.of bytes, rfl, rfl, rfl, rfl, .inr hro⟩)
        · cases sole_outcome hout
          exact .inl ⟨rfl, fun hb => ⟨ha hb, List.not_mem_nil⟩⟩
      · cases sole_outcome hout
        exact .inl ⟨rfl, fun hb => ⟨ha hb, List.not_mem_nil⟩⟩
  | drop charge =>
    rw [act] at hout
    split at hout
    · next hl =>
      cases sole_outcome hout
      refine .inr (.inr ⟨charge, hl, rfl, rfl, ?_⟩)
      split
      · rfl
      · next hf =>
        rw [charge.nothing (Bool.eq_false_of_not_eq_true hf)]
        exact (UInt64.sub_zero s.held).symm
    · cases hout

/-! ## Every interleaving -/

structure Invariant (cap : UInt64) (c : State) : Prop extends Sound cap c where
  asks : ∀ pc ∈ c.running, pc.Asks

/-- The bodies of the live charges and of the request that acts are fewer bytes than a word
can count, as bodies that are in memory are. -/
def Fits (c : State) (pc : Pc) : Prop := charged c.shared.live + pc.body < 2 ^ 64

instance (c : State) (pc : Pc) : Decidable (Fits c pc) := inferInstanceAs (Decidable (_ < _))

theorem Invariant.step {cap : UInt64} {ok : State → Pc → Prop}
    (hok : ∀ c pc, ok c pc → cap ≠ usizeMax ∨ Fits c pc) {c c' : State}
    (h : Invariant cap c) (hf : (machine cap).Fires ok c c') : Invariant cap c' := by
  cases hf with
  | call k =>
    refine ⟨⟨h.exact, h.within, h.empties⟩, fun pc hpc => ?_⟩
    rcases List.mem_append.mp hpc with hpc | hpc
    · exact h.asks pc hpc
    · exact List.mem_singleton.mp hpc ▸ k.entry_asks
  | env e => cases e
  | @act before after pc next s hrunning hmet hout =>
    have hold : ∀ pc' ∈ before ++ pc :: after, pc'.Asks := hrunning ▸ h.asks
    have hpc : pc.Asks := hold pc (List.mem_append_right _ List.mem_cons_self)
    rcases act_cases hout with ⟨rfl, hn⟩ | ⟨charge, rfl, hl, hh, hbody, hro⟩ |
      ⟨charge, hmem, rfl, hl, hh⟩
    · obtain ⟨ha, hno⟩ := hn hpc
      exact ⟨⟨h.exact, h.within, fun hr =>
        (List.mem_append.mp hr).elim h.empties hno⟩, forall_running hold ha⟩
    · have hsum : s.held.toNat = c.shared.held.toNat + charge.bytes.toNat ∧ s.held ≤ cap := by
        rw [hh]
        rcases hro with hz | hro
        · rw [hz]
          exact ⟨congrArg UInt64.toNat (UInt64.add_zero _), UInt64.add_zero _ ▸ h.within⟩
        · refine toNat_add_of_le ((hok c pc hmet).imp_right fun hfits => ?_) hro
          rw [h.exact, hbody]
          exact hfits
      refine ⟨⟨?_, hsum.2, ?_⟩, forall_running hold (Next.forall_pcs_ret _)⟩
      · change s.held.toNat = charged s.live
        rw [hsum.1, hl, charged_append, h.exact]
      · intro hr
        rcases List.mem_append.mp hr with hr | hr
        · exact h.empties hr
        · cases List.mem_singleton.mp hr
    · -- a live charge is part of the counter, so giving it back does not wrap
      have hp := charged_erase hmem
      have hle : charge.bytes ≤ c.shared.held := by
        rw [UInt64.le_iff_toNat_le, h.exact, hp]
        exact Nat.le_add_right _ _
      have hsub : s.held.toNat = c.shared.held.toNat - charge.bytes.toNat := by
        rw [hh, UInt64.toNat_sub_of_le _ _ hle]
      refine ⟨⟨?_, ?_, ?_⟩, forall_running hold (Next.forall_pcs_ret _)⟩
      · change s.held.toNat = charged s.live
        rw [hsub, h.exact, hp, hl, Nat.add_sub_cancel_left]
      · have hw := UInt64.le_iff_toNat_le.mp h.within
        change s.held ≤ cap
        rw [UInt64.le_iff_toNat_le, hsub]
        omega
      · intro hr
        rcases List.mem_append.mp hr with hr | hr
        · exact h.empties hr
        · cases List.mem_singleton.mp hr

theorem invariant_start (cap : UInt64) : Invariant cap start :=
  ⟨⟨rfl, UInt64.zero_le, List.not_mem_nil⟩, fun _ hpc => absurd hpc List.not_mem_nil⟩

def fillsThenOneMore : List (Move Call Empty) :=
  [.call (.tryParkBytes usizeMax), .act 0 0, .act 0 0, .call (.tryParkBytes 1), .act 0 0,
    .act 0 0]

theorem fillsThenOneMore_wraps : ((machine usizeMax).run start fillsThenOneMore).any
      (fun c => c.shared.held == 0 && charged c.shared.live == 2 ^ 64) = true := by
  decide +kernel

theorem exists_wrapped : ∃ c, (machine usizeMax).run start fillsThenOneMore = some c ∧
    c.shared.held = 0 ∧ charged c.shared.live = 2 ^ 64 := by
  obtain ⟨c, hrun, he⟩ := (Option.any_eq_true _ _).mp fillsThenOneMore_wraps
  rw [Bool.and_eq_true, beq_iff_eq, beq_iff_eq] at he
  exact ⟨c, hrun, he⟩

theorem not_sound_of_wrapped {cap : UInt64} {c : State} (hh : c.shared.held = 0)
    (hc : charged c.shared.live = 2 ^ 64) : ¬Sound cap c := by
  intro h
  have he := h.exact
  rw [hh, hc] at he
  cases he

theorem refused_keeps {cap : UInt64} {pc : Pc} {s s' : Budget} {bytes : UInt64}
    (hout : (.ret (.refused bytes), s') ∈ act cap pc s) : s' = s := by
  rcases act_cases hout with ⟨hs, -⟩ | ⟨_, hp, -⟩ | ⟨_, -, hd, -⟩
  · exact hs
  · cases hp
  · cases hd

/-- Without a bound on the bodies the budget is exact for every cap but the largest word. -/
theorem sound_iff_cap_ne_usizeMax (cap : UInt64) :
    (∀ moves c, (machine cap).run start moves = some c →
      Sound cap c ∧ ∀ pc ∈ c.running, ∀ bytes s',
        (.ret (.refused bytes), s') ∈ act cap pc c.shared → s' = c.shared) ↔ cap ≠ usizeMax := by
  constructor
  · rintro h rfl
    obtain ⟨c, hrun, hh, hc⟩ := exists_wrapped
    exact not_sound_of_wrapped hh hc (h _ c hrun).1
  · intro hcap moves c hrun
    have hinv : Invariant cap c :=
      Machine.run_invariant (fun _ _ h => h.step fun _ _ _ => .inl hcap) (invariant_start cap)
        (Machine.along_true moves _) hrun
    exact ⟨hinv.toSound, fun _ _ _ _ hout => refused_keeps hout⟩

/-- **The budget is exact.** After every interleaving of parks and drops of bodies that
are in memory, the counter is the sum of the live charges and within the cap, whatever the
cap; a refusal changes nothing, and no empty body was refused. -/
theorem exact_while_bodies_fit (cap : UInt64) (moves : List (Move Call Empty)) (c : State)
    (hfit : (machine cap).Along Fits start moves) (hrun : (machine cap).run start moves = some c) :
    Sound cap c ∧ ∀ pc ∈ c.running, ∀ bytes s',
      (.ret (.refused bytes), s') ∈ act cap pc c.shared → s' = c.shared := by
  have hinv : Invariant cap c :=
    Machine.run_invariant (fun _ _ h => h.step fun _ _ hfits => .inr hfits) (invariant_start cap)
      hfit hrun
  exact ⟨hinv.toSound, fun _ _ _ _ hout => refused_keeps hout⟩

/-- Two requests race for the budget, one of them is refused and one drops its charge. -/
def raceAndRefusal : List (Move Call Empty) :=
  [.call (.tryParkBytes 700), .call (.tryParkBytes 300), .act 0 0, .act 1 0, .act 1 0,
    .act 0 0, .act 0 0, .call (.tryParkBytes 100), .act 0 0, .act 0 0,
    .call (.drop (.of 700)), .act 0 0]

theorem exact_while_bodies_fit_race : ∃ c, (machine 1024).run start raceAndRefusal = some c ∧
    c.returned = [.parked (.of 300), .parked (.of 700), .refused 100, .dropped (.of 700)] ∧
    c.shared.held = 300 ∧ Sound 1024 c :=
  ⟨_, rfl, by decide +kernel, by decide +kernel,
    (exact_while_bodies_fit 1024 raceAndRefusal _
      (Machine.along_of_check (fun c pc => of_decide_eq_true)
        (by decide +kernel : (machine 1024).checkAlong (fun c pc => decide (Fits c pc)) start
          raceAndRefusal = true)) rfl).1⟩

end OxPhp.Executor.WaitingBytes
