import OxPhp.Shared.Containers

/-!
# Sizes

What an entry's content counts as against the memory cap: `mem_bytes` of the
values and of a Map, and the cost of one member, by which a Map's size changes
when the member comes or goes.
-/

namespace OxPhp.Shared

/-- Booked for every entry on top of its content. -/
def entryFixedOverhead : Nat := 200

mutual

def SharedValue.memBytes : SharedValue → Nat
  | .null => 1
  | .bool _ => 1
  | .long _ => 8
  | .double _ => 8
  | .string s => s.length + 16
  | .bytes s => s.length + 16
  | .array intKeyed strKeyed => intsMemBytes intKeyed + strsMemBytes strKeyed + 64
  | .shared _ => 16

def intsMemBytes : List SharedValue → Nat
  | [] => 0
  | v :: rest => v.memBytes + intsMemBytes rest

def strsMemBytes : List (ByteStr.Bytes × SharedValue) → Nat
  | [] => 0
  | (k, v) :: rest => k.length + 16 + v.memBytes + strsMemBytes rest

end

def mapKeySize : MapKey → Nat
  | .int _ => 8
  | .str s => s.length

def mapEntryCostParts (keySize valueMem : Nat) : Nat := 64 + 16 + keySize + valueMem

def mapEntryCost (key : MapKey) (value : SharedValue) : Nat :=
  mapEntryCostParts (mapKeySize key) value.memBytes

namespace MapInner

variable (m : MapInner)

/-- The size of a Map whose counters add up to `count`. -/
def memBytesCounting (count : Nat) : Nat :=
  count * 64 + (m.entries.entries.map fun e => mapKeySize e.1 + 16 + e.2.memBytes).sum + 128

def memBytes : Nat := m.memBytesCounting m.count

def costs : Nat := (m.entries.entries.map fun e => mapEntryCost e.1 e.2).sum

def keep (test : MapKey → Bool) : MapInner :=
  { m with
    entries := ⟨m.entries.entries.filter fun e => test e.1,
      m.entries.nodupKeys.sublist List.filter_sublist⟩ }

variable {m} {key : MapKey} {value prev : SharedValue}

theorem count_eq (m : MapInner) : m.count = m.entries.entries.length := List.length_map _

theorem memBytes_eq : m.memBytes = m.costs + 128 := by
  have hc : ∀ l : List (Sigma fun _ : MapKey => SharedValue),
      l.length * 64 + (l.map fun e => mapKeySize e.1 + 16 + e.2.memBytes).sum =
        (l.map fun e => mapEntryCost e.1 e.2).sum := by
    intro l
    induction l with
    | nil => rfl
    | cons e l ih =>
      simp only [List.length_cons, List.map_cons, List.sum_cons, mapEntryCost,
        mapEntryCostParts] at ih ⊢
      omega
  rw [memBytes, memBytesCounting, count_eq, hc, costs]

theorem split_of_lookup (h : m.entries.lookup key = some prev) :
    ∃ before after, m.entries.entries = before ++ ⟨key, prev⟩ :: after ∧
      m.entries.entries.kerase key = before ++ after := by
  have hmem : key ∈ m.entries.entries.keys :=
    AList.lookup_isSome.mp (by rw [h]; rfl)
  obtain ⟨value, before, after, hb, heq, hk⟩ := List.exists_of_kerase hmem
  have hp : (⟨key, value⟩ : Sigma fun _ : MapKey => SharedValue) ∈ m.entries.entries := by
    rw [heq]
    exact List.mem_append_right _ List.mem_cons_self
  have hv : m.entries.lookup key = some value := AList.mem_lookup_iff.mpr hp
  obtain rfl : value = prev := Option.some.inj (hv.symm.trans h)
  exact ⟨before, after, heq, hk⟩

theorem costs_insert_new (h : m.entries.lookup key = none) :
    (m.insert key value).costs = m.costs + mapEntryCost key value ∧
      (m.insert key value).count = m.count + 1 := by
  have hnew : (m.insert key value).entries.entries = ⟨key, value⟩ :: m.entries.entries :=
    AList.entries_insert_of_notMem (AList.lookup_eq_none.mp h)
  rw [costs, count_eq, hnew, List.map_cons, List.sum_cons, List.length_cons, count_eq, costs]
  exact ⟨Nat.add_comm _ _, rfl⟩

theorem costs_insert_old (h : m.entries.lookup key = some prev) :
    (m.insert key value).costs + mapEntryCost key prev = m.costs + mapEntryCost key value ∧
      (m.insert key value).count = m.count := by
  obtain ⟨before, after, heq, hk⟩ := split_of_lookup h
  have hnew : (m.insert key value).entries.entries = ⟨key, value⟩ :: (before ++ after) := by
    rw [← hk]
    exact AList.entries_insert
  rw [costs, count_eq, hnew, count_eq, costs, heq]
  simp only [List.map_append, List.map_cons, List.sum_append, List.sum_cons, List.length_append,
    List.length_cons]
  omega

theorem costs_pop (h : m.entries.lookup key = some prev) :
    (m.pop key).2.costs + mapEntryCost key prev = m.costs ∧ (m.pop key).2.count + 1 = m.count := by
  obtain ⟨before, after, heq, hk⟩ := split_of_lookup h
  have hnew : (m.pop key).2.entries.entries = before ++ after := hk
  rw [costs, count_eq, hnew, count_eq, costs, heq]
  simp only [List.map_append, List.map_cons, List.sum_append, List.sum_cons, List.length_append,
    List.length_cons]
  omega

theorem costs_keep (test : MapKey → Bool) :
    (m.keep test).costs + (m.keep fun key => !test key).costs = m.costs ∧
      (m.keep test).count + (m.keep fun key => !test key).count = m.count := by
  rw [count_eq, count_eq, count_eq, costs, costs, costs, keep, keep]
  dsimp only
  induction m.entries.entries with
  | nil => exact ⟨rfl, rfl⟩
  | cons e l ih =>
    cases ht : test e.1 with
    | true =>
      simp only [List.filter_cons, ht, Bool.not_true, if_true, Bool.false_eq_true, if_false,
        List.map_cons, List.sum_cons, List.length_cons] at ih ⊢
      omega
    | false =>
      simp only [List.filter_cons, ht, Bool.not_false, if_true, Bool.false_eq_true, if_false,
        List.map_cons, List.sum_cons, List.length_cons] at ih ⊢
      omega

end MapInner

end OxPhp.Shared
