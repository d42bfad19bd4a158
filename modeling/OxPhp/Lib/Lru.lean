import Mathlib.Data.List.Nodup

/-!
# Bounded maps with least-recently-used eviction

A map of bounded size.  Storing a key makes it the most recent one and evicts
the least recent when the map is full; `peek` reads without changing the
order.
-/

/-- At most `capacity` entries, the most recent first, one for each key. -/
structure Lru (κ α : Type) where
  capacity : Nat
  entries : List (κ × α)
  nodup : (entries.map Prod.fst).Nodup
  length_le : entries.length ≤ capacity

namespace Lru

variable {κ α : Type} [DecidableEq κ]

def empty (capacity : Nat) : Lru κ α where
  capacity := capacity
  entries := []
  nodup := List.nodup_nil
  length_le := Nat.zero_le capacity

/-- The value of a key, without making it more recent. -/
def peek (c : Lru κ α) (k : κ) : Option α := c.entries.lookup k

def put (c : Lru κ α) (k : κ) (v : α) : Lru κ α where
  capacity := c.capacity
  entries := ((k, v) :: c.entries.filter (·.1 ≠ k)).take c.capacity
  nodup := by
    refine List.Nodup.sublist ((List.take_sublist ..).map _) ?_
    simp only [List.map_cons, List.nodup_cons, List.mem_map, List.mem_filter, not_exists, not_and]
    refine ⟨fun e he hk => by simp [hk] at he, ?_⟩
    exact c.nodup.sublist (List.filter_sublist.map _)
  length_le := List.length_take_le ..

def All (P : κ → α → Prop) (c : Lru κ α) : Prop := ∀ k v, (k, v) ∈ c.entries → P k v

omit [DecidableEq κ] in
theorem all_empty (P : κ → α → Prop) (capacity : Nat) : All P (empty capacity) := by
  intro k v h
  cases h

variable {P : κ → α → Prop} {c : Lru κ α} {k : κ} {v : α}

theorem All.put (h : c.All P) (hv : P k v) : (c.put k v).All P := by
  intro k' v' hmem
  rcases List.mem_cons.mp (List.mem_of_mem_take hmem) with heq | hmem
  · cases heq
    exact hv
  · exact h k' v' (List.mem_of_mem_filter hmem)

theorem All.peek (h : c.All P) (hp : c.peek k = some v) : P k v := by
  have hmem : ∀ entries : List (κ × α), entries.lookup k = some v → (k, v) ∈ entries := by
    intro entries
    induction entries with
    | nil => simp
    | cons e entries ih =>
      obtain ⟨k', v'⟩ := e
      rw [List.lookup_cons]
      split
      · next hk =>
        rintro ⟨⟩
        rw [beq_iff_eq.mp hk]
        exact List.mem_cons_self
      · exact fun hl => List.mem_cons_of_mem _ (ih hl)
  exact h k v (hmem c.entries hp)

end Lru
