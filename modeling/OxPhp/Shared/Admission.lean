import OxPhp.Shared.Bookings

/-!
# Inserts and drops under the caps

Concurrent inserts reserve first and check afterwards, so the counters may
overshoot their caps.  What is live and what has passed its check never does.
-/

namespace OxPhp.Shared.Accounting

open ByteStr Interleave

/-- Inserts and drops, as opposed to operations on a Map. -/
def Call.admission : Call → Bool
  | insert _ => true
  | drop _ => true
  | onMap _ _ => false

def Pc.admission : Pc → Bool
  | .enter _ _ => false
  | .inside _ _ => false
  | _ => true

/-- An insert that has passed the check of the entry count. -/
def Pc.admitted : Pc → Nat
  | .reserveBytes _ => 1
  | .allocId _ => 1
  | .publish _ _ => 1
  | _ => 0

/-- The bytes of an insert that has passed both checks. -/
def Pc.admittedBytes : Pc → Nat
  | .allocId new => new.mem
  | .publish new _ => new.mem
  | _ => 0

/-- An entry as its insert and its drop report it. -/
abbrev Receipt := SharedId × Nat

def Entry.receipt (e : Entry) : Receipt := (e.id, e.memBytes)

def Pc.dropping : Pc → Multiset Receipt
  | .dropCount id mem => {(id, mem)}
  | .dropBytes id mem => {(id, mem)}
  | _ => 0

def Answer.insertedReceipt : Answer → Multiset Receipt
  | .inserted id mem => {(id, mem)}
  | _ => 0

def Answer.droppedReceipt : Answer → Multiset Receipt
  | .dropped id mem => {(id, mem)}
  | _ => 0

def liveReceipts (live : List Entry) : Multiset Receipt := ↑(live.map Entry.receipt)

def liveBytes (s : Accounts) : Nat := (s.live.map Entry.memBytes).sum

/-- Only inserts and drops are in progress, and what they let through is within
the caps. -/
structure Admits (S : Setting) (c : State) : Prop where
  only : ∀ pc ∈ c.running, pc.admission = true
  booked : Booked c
  entries : c.shared.live.length + c.inHands Pc.admitted ≤ S.maxEntries
  bytes : liveBytes c.shared + c.inHands Pc.admittedBytes ≤ S.maxBytes
  receipts : c.wentBack Answer.insertedReceipt =
    liveReceipts c.shared.live + c.inHands Pc.dropping + c.wentBack Answer.droppedReceipt

variable {S : Setting} {c : State} {pc : Pc}

theorem Pc.admission.target_eq (h : pc.admission = true) : pc.target = none := by
  cases pc with
  | inside id p => cases h
  | _ => rfl

theorem Pc.admission.not_overdraws (h : pc.admission = true) : overdraws c pc = false := by
  cases pc with
  | inside id p => cases h
  | _ => rfl

namespace Admits

theorem shares (h : Admits S c) :
    ((c.shared.live.map (share c)).sum : Int) = liveBytes c.shared := by
  have hs : ∀ e ∈ c.shared.live, share c e = (e.memBytes : Int) := by
    intro e _
    have hn : ∀ pc ∈ c.running, pc.Avoids e.id := fun pc hpc =>
      Pc.avoids_of_none (Pc.admission.target_eq (h.only pc hpc)) e.id
    rw [share, dues_eq_zero _ hn, sub_zero]
  rw [List.map_congr_left hs, liveBytes, Nat.cast_list_sum, List.map_map]
  rfl

theorem totals (h : Admits S c) :
    c.shared.totalEntries = c.shared.live.length + c.inHands Pc.slots ∧
      c.shared.totalBytes = liveBytes c.shared + c.inHands Pc.reserved := by
  refine ⟨h.booked.entries, ?_⟩
  have hb := h.booked.bytes
  rw [h.shares] at hb
  omega

theorem admitted_le (c : State) : c.inHands Pc.admitted ≤ c.inHands Pc.slots := by
  refine List.sum_le_sum fun pc _ => ?_
  cases pc <;> first | exact Nat.le_refl _ | exact Nat.zero_le _

theorem admittedBytes_le (c : State) : c.inHands Pc.admittedBytes ≤ c.inHands Pc.reserved := by
  refine List.sum_le_sum fun pc _ => ?_
  cases pc <;> first | exact Nat.le_refl _ | exact Nat.zero_le _

/-- What a step lets through: nothing new, or what the counter has room for. -/
structure Lets (S : Setting) (c : State) (pc : Pc) (next : Next Pc Answer) (s : Accounts) :
    Prop where
  only : ∀ pc' ∈ next.pcs, pc'.admission = true
  entries : ∃ new, s.live.length + (next.holds Pc.admitted fun _ => 0) ≤
      c.shared.live.length + pc.admitted + new ∧
    (new = 0 ∨ c.shared.totalEntries + new ≤ S.maxEntries)
  bytes : ∃ new, liveBytes s + (next.holds Pc.admittedBytes fun _ => 0) ≤
      liveBytes c.shared + pc.admittedBytes + new ∧
    (new = 0 ∨ c.shared.totalBytes + new ≤ S.maxBytes)
  receipts : next.holds (fun _ => 0) Answer.insertedReceipt + liveReceipts c.shared.live +
      pc.dropping =
    liveReceipts s.live + (next.holds Pc.dropping fun _ => 0) +
      next.holds (fun _ => 0) Answer.droppedReceipt

variable {before after : List Pc} {next : Next Pc Answer} {s : Accounts}

theorem step_of_lets (h : Admits S c) (hrunning : c.running = before ++ pc :: after)
    (hb : Booked ⟨s, before ++ next.pcs ++ after, c.returned ++ next.answers⟩)
    (hl : Lets S c pc next s) :
    Admits S ⟨s, before ++ next.pcs ++ after, c.returned ++ next.answers⟩ := by
  have hact {A : Type} [AddCommMonoid A] (hand : Pc → A) :=
    Config.inHands_act hrunning hand next s (c.returned ++ next.answers)
  have hpc : pc ∈ c.running := by
    rw [hrunning]
    exact List.mem_append_right _ List.mem_cons_self
  obtain ⟨he, hby⟩ := h.totals
  refine ⟨forall_running (hrunning ▸ h.only) hl.only, hb, ?_, ?_, ?_⟩
  · obtain ⟨new, hnew, hr⟩ := hl.entries
    have hh := hact Pc.admitted
    have hold := h.entries
    have hle := admitted_le c
    dsimp only
    rcases hr with rfl | hr
    · omega
    · omega
  · obtain ⟨new, hnew, hr⟩ := hl.bytes
    have hh := hact Pc.admittedBytes
    have hold := h.bytes
    have hle := admittedBytes_le c
    dsimp only
    rcases hr with rfl | hr
    · omega
    · omega
  · have hh := hact Pc.dropping
    rw [Config.wentBack_act, Config.wentBack_act, h.receipts]
    apply add_right_cancel (b := pc.dropping)
    calc _ = (next.holds (fun _ => 0) Answer.insertedReceipt + liveReceipts c.shared.live +
            pc.dropping) + (c.inHands Pc.dropping + c.wentBack Answer.droppedReceipt) := by abel
      _ = liveReceipts s.live + next.holds (fun _ => 0) Answer.droppedReceipt +
            c.wentBack Answer.droppedReceipt +
          (c.inHands Pc.dropping + next.holds Pc.dropping fun _ => 0) := by
        rw [hl.receipts]
        abel
      _ = _ := by
        rw [← hh]
        abel

theorem lets_same (hl : s.live = c.shared.live) (ho : ∀ pc' ∈ next.pcs, pc'.admission = true)
    (he : (next.holds Pc.admitted fun _ => 0) ≤ pc.admitted)
    (hb : (next.holds Pc.admittedBytes fun _ => 0) ≤ pc.admittedBytes)
    (hin : next.holds (fun _ => 0) Answer.insertedReceipt = 0)
    (hd : (next.holds Pc.dropping fun _ => 0) +
      next.holds (fun _ => 0) Answer.droppedReceipt = pc.dropping) : Lets S c pc next s := by
  refine ⟨ho, ⟨0, ?_, .inl rfl⟩, ⟨0, ?_, .inl rfl⟩, ?_⟩
  · rw [hl]
    omega
  · rw [liveBytes, liveBytes, hl]
    omega
  · rw [hl, hin, zero_add, ← hd]
    abel

theorem lets (h : Admits S c) (hpc : pc ∈ c.running)
    (hout : (next, s) ∈ act S pc c.shared) : Lets S c pc next s := by
  have hone : ∀ {pc : Pc}, pc.admission = true →
      ∀ pc' ∈ (.go pc : Next Pc Answer).pcs, pc'.admission = true :=
    fun h pc' hpc' => List.mem_singleton.mp hpc' ▸ h
  have ho := h.only pc hpc
  cases pc with
  | reserveEntry new =>
    cases sole_outcome hout
    split
    · exact lets_same rfl (hone rfl) le_rfl le_rfl rfl rfl
    · next hr =>
      refine ⟨hone rfl, ⟨1, le_rfl, .inr (Nat.not_lt.mp hr)⟩, ⟨0, le_rfl, .inl rfl⟩, ?_⟩
      simp [Next.holds, Pc.dropping]
  | rollbackEntry f =>
    cases sole_outcome hout
    exact lets_same rfl (Next.forall_pcs_ret _) le_rfl le_rfl rfl rfl
  | reserveBytes new =>
    cases sole_outcome hout
    split
    · exact lets_same rfl (hone rfl) (Nat.zero_le _) le_rfl rfl rfl
    · next hr =>
      refine ⟨hone rfl, ⟨0, le_rfl, .inl rfl⟩, ⟨new.mem, ?_, .inr (Nat.not_lt.mp hr)⟩, ?_⟩
      · exact le_rfl
      · simp [Next.holds, Pc.dropping]
  | rollbackBytes mem f | allocId new =>
    cases sole_outcome hout
    exact lets_same rfl (hone rfl) le_rfl le_rfl rfl rfl
  | publish new id =>
    cases sole_outcome hout
    refine ⟨Next.forall_pcs_ret _, ⟨0, ?_, .inl rfl⟩, ⟨0, ?_, .inl rfl⟩, ?_⟩
    · simp only [List.length_append, List.length_singleton, Next.holds, Pc.admitted]
      exact le_rfl
    · simp only [liveBytes, List.map_append, List.map_cons, List.map_nil, List.sum_append,
        List.sum_cons, List.sum_nil, Next.holds, Pc.admittedBytes]
      exact le_rfl
    · simp only [Next.holds, Answer.insertedReceipt, Answer.droppedReceipt, Pc.dropping, add_zero,
        liveReceipts, List.map_append, List.map_cons, List.map_nil, Entry.receipt,
        ← Multiset.coe_add, Multiset.coe_singleton]
      exact add_comm _ _
  | dropRemove id =>
    obtain ⟨e, kept, kept', rfl, hsplit, -, rfl, rfl⟩ := h.booked.dropRemove_inv hout
    refine ⟨hone rfl, ⟨0, ?_, .inl rfl⟩, ⟨0, ?_, .inl rfl⟩, ?_⟩
    · simp only [hsplit.eq, List.length_append, List.length_cons, Next.holds, Pc.admitted]
      omega
    · simp only [liveBytes, hsplit.eq, List.map_append, List.map_cons, List.sum_append,
        List.sum_cons, Next.holds, Pc.admittedBytes]
      omega
    · simp only [Next.holds, Pc.dropping, zero_add, add_zero, liveReceipts, hsplit.eq,
        List.map_append, List.map_cons, ← Multiset.coe_add, ← Multiset.cons_coe, Entry.receipt,
        ← Multiset.singleton_add]
      abel
  | dropCount id mem =>
    cases sole_outcome hout
    exact lets_same rfl (hone rfl) le_rfl le_rfl rfl (add_zero _)
  | dropBytes id mem =>
    cases sole_outcome hout
    exact lets_same rfl (Next.forall_pcs_ret _) le_rfl le_rfl rfl (zero_add _)
  | enter id op => cases ho
  | inside id p => cases ho

theorem call (h : Admits S c) {k : Call} (hk : k.admission = true) :
    Admits S { c with running := c.running ++ [k.entry] } := by
  have he : k.entry.admission = true ∧ k.entry.admitted = 0 ∧ k.entry.admittedBytes = 0 ∧
      k.entry.dropping = 0 := by
    cases k with
    | insert new | drop id => exact ⟨rfl, rfl, rfl, rfl⟩
    | onMap id op => cases hk
  obtain ⟨ho, ha, hb, hd⟩ := he
  refine ⟨forall_called h.only ho, h.booked.call k, ?_, ?_, ?_⟩
  · rw [Config.inHands_called ha]
    exact h.entries
  · rw [Config.inHands_called hb]
    exact h.bytes
  · rw [Config.inHands_called hd]
    exact h.receipts

theorem act (h : Admits S c) (hrunning : c.running = before ++ pc :: after)
    (hout : (next, s) ∈ (machine S).act pc c.shared) :
    Admits S ⟨s, before ++ next.pcs ++ after, c.returned ++ next.answers⟩ := by
  have hpc : pc ∈ c.running := Config.mem_running hrunning
  have hmet : overdraws c pc = false := Pc.admission.not_overdraws (h.only pc hpc)
  exact h.step_of_lets hrunning (h.booked.step (.act hrunning hmet hout)) (h.lets hpc hout)

/-- **The run rule for inserts and drops.** -/
theorem run {seed : SharedId} {moves : List (Move Call Empty)}
    (ho : ∀ k ∈ calls moves, k.admission = true)
    (hrun : (machine S).run (start seed) moves = some c) : Admits S c := by
  let P (c : State) (made : List Call) (_ : List Unit) : Prop :=
    (∀ k ∈ made, k.admission = true) → Admits S c
  have hs : P (start seed) [] [] := fun _ =>
    ⟨fun _ hpc => absurd hpc List.not_mem_nil, booked_start seed, Nat.zero_le _, Nat.zero_le _, rfl⟩
  have hst : ∀ c c' made noted made' noted', P c made noted →
      (machine S).Notes (fun _ _ _ => []) (fun _ _ => True) c c' made' noted' →
      P c' (made ++ made') (noted ++ noted') := by
    intro c c' made noted made' noted' h hn hall
    have hb : Admits S c := h fun k hk => hall k (List.mem_append_left _ hk)
    cases hn with
    | call k => exact hb.call (hall k (List.mem_append_right _ List.mem_cons_self))
    | env e => cases e
    | act hrunning _ hout => exact hb.act hrunning hout
  exact Machine.run_log hst hs (Machine.along_true moves _) hrun ho

end Admits

/-- **Inserts and drops conserve the totals.** Whatever the interleaving, what
is live is within the caps and the totals count it and the reservations in
progress, so that at the end they are those of the inserts that succeeded and
were not dropped: a refused insert leaves no trace. -/
theorem admissions_conserve (S : Setting) (seed : SharedId) (moves : List (Move Call Empty))
    (c : State) (honly : ∀ k ∈ calls moves, k.admission = true)
    (hrun : (machine S).run (start seed) moves = some c) :
    (c.shared.live.length ≤ S.maxEntries ∧ liveBytes c.shared ≤ S.maxBytes) ∧
    (c.shared.totalEntries = c.shared.live.length + c.inHands Pc.slots ∧
      c.shared.totalBytes = liveBytes c.shared + c.inHands Pc.reserved) ∧ (c.running = [] →
      (c.shared.totalEntries = c.shared.live.length ∧ c.shared.totalEntries ≤ S.maxEntries) ∧
      (c.shared.totalBytes = liveBytes c.shared ∧ c.shared.totalBytes ≤ S.maxBytes) ∧
      c.wentBack Answer.insertedReceipt =
        liveReceipts c.shared.live + c.wentBack Answer.droppedReceipt) := by
  have h : Admits S c := Admits.run honly hrun
  obtain ⟨he, hb⟩ := h.totals
  have hc := h.entries
  have hca := h.bytes
  refine ⟨⟨by omega, by omega⟩, ⟨he, hb⟩, fun hq => ?_⟩
  have hn : ∀ {A : Type} [AddCommMonoid A] (hand : Pc → A), c.inHands hand = 0 := by
    intro A _ hand
    rw [Config.inHands, hq, List.map_nil, List.sum_nil]
  rw [hn, add_zero] at he hb
  have hr := h.receipts
  rw [hn, add_zero] at hr
  exact ⟨⟨he, by omega⟩, ⟨hb, by omega⟩, hr⟩

/-- Two inserts race for the one slot, and one of them is refused. -/
theorem admissions_conserve_oneSlot :
    ∃ c, (machine { twoShards with maxEntries := 1 }).run (start 1)
        [.call (.insert (.other 8)), .call (.insert (.map none)), .act 0 0, .act 1 0, .act 1 0,
          .act 0 0, .act 0 0, .act 0 0] = some c ∧
      c.running = [] ∧ c.shared.totalEntries = c.shared.live.length := by
  have he : ((machine { twoShards with maxEntries := 1 }).run (start 1)
      [.call (.insert (.other 8)), .call (.insert (.map none)), .act 0 0, .act 1 0, .act 1 0,
        .act 0 0, .act 0 0, .act 0 0]).any (fun c => c.running.isEmpty) = true := by
    decide +kernel
  obtain ⟨c, hrun, hc⟩ := (Option.any_eq_true _ _).mp he
  have hq : c.running = [] := List.isEmpty_iff.mp hc
  have hco := admissions_conserve _ 1 _ c (by decide) hrun
  exact ⟨c, hrun, hq, (hco.2.2 hq).1.1⟩

end OxPhp.Shared.Accounting
