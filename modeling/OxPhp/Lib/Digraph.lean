import Mathlib.Data.List.Chain

/-!
# Directed graphs

When a graph, given by its edge relation, may grow or shrink and stays without
cycles; and paths, as lists of nodes, against the levels a search assigns.
-/

namespace Digraph

open Relation

variable {α : Type} {r s : α → α → Prop}

def Acyclic (r : α → α → Prop) : Prop := ∀ a, ¬TransGen r a a

def Sink (r : α → α → Prop) (a : α) : Prop := ∀ b, ¬r a b

theorem Acyclic.mono (h : Acyclic r) (hsub : ∀ a b, s a b → r a b) : Acyclic s :=
  fun a hc => h a (TransGen.mono (fun x y hxy => hsub x y hxy) a a hc)

theorem acyclic_of_no_edges (h : ∀ a, Sink r a) : Acyclic r := by
  intro a hc
  obtain ⟨b, hab, -⟩ := TransGen.head'_iff.mp hc
  exact h a b hab

variable {a b hub : α} {ends : α → Prop}

theorem Sink.eq_of_reach (h : Sink r a) (hr : ReflTransGen r a b) : b = a :=
  (reflTransGen_iff_eq h).mp hr

/-- A walk that uses the new edges out of `hub` uses them once: it reaches `hub`
and goes on from the end of a new edge, all by old edges. -/
theorem transGen_insert (hnew : ∀ a b, s a b → r a b ∨ (a = hub ∧ ends b))
    (hen : ∀ b, ends b → ¬ReflTransGen r b hub) (h : TransGen s a b) :
    TransGen r a b ∨ (ReflTransGen r a hub ∧ ∃ c, ends c ∧ ReflTransGen r c b) := by
  induction h with
  | single hab =>
    rcases hnew _ _ hab with hold | ⟨rfl, hend⟩
    · exact .inl (.single hold)
    · exact .inr ⟨.refl, _, hend, .refl⟩
  | @tail b c _ hbc ih =>
    rcases hnew _ _ hbc with hold | ⟨rfl, hend⟩
    · rcases ih with hw | ⟨hhub, e, he, hw⟩
      · exact .inl (hw.tail hold)
      · exact .inr ⟨hhub, e, he, hw.tail hold⟩
    · rcases ih with hw | ⟨-, e, he, hw⟩
      · exact .inr ⟨hw.to_reflTransGen, c, hend, .refl⟩
      · exact absurd hw (hen e he)

/-- **Growing an acyclic relation**: new edges out of one node close no cycle
when none of their ends reaches it. -/
theorem Acyclic.insert (h : Acyclic r) (hnew : ∀ a b, s a b → r a b ∨ (a = hub ∧ ends b))
    (he : ∀ b, ends b → ¬ReflTransGen r b hub) : Acyclic s := by
  intro a hcy
  rcases transGen_insert hnew he hcy with hold | ⟨hhub, c, hc, hw⟩
  · exact h a hold
  · exact he c hc (hw.trans hhub)

theorem mem_of_reach (visited : α → Prop) (ha : visited a)
    (hc : ∀ x y, visited x → r x y → visited y) (h : ReflTransGen r a b) : visited b := by
  induction h with
  | refl => exact ha
  | tail _ hs ih => exact hc _ _ ih hs

/-! ## Cycles through a node -/

/-- The node lies on a cycle with another one. -/
def OnCycle (r : α → α → Prop) (a : α) : Prop := ∃ b, b ≠ a ∧ TransGen r a b ∧ TransGen r b a

theorem exists_last_other (hne : b ≠ a) (h : TransGen r b a) :
    ∃ c, c ≠ a ∧ ReflTransGen r b c ∧ r c a := by
  induction h using TransGen.head_induction_on with
  | single hs => exact ⟨_, hne, .refl, hs⟩
  | @head b b' hs hr ih =>
    by_cases hb : b' = a
    · subst hb
      exact ⟨b, hne, .refl, hs⟩
    · obtain ⟨c, hc, hre, hlast⟩ := ih hb
      exact ⟨c, hc, .head hs hre, hlast⟩

theorem onCycle_iff : OnCycle r a ↔ ∃ c, c ≠ a ∧ ReflTransGen r a c ∧ r c a := by
  constructor
  · rintro ⟨b, hne, hout, hb⟩
    obtain ⟨c, hc, hr, hlast⟩ := exists_last_other hne hb
    exact ⟨c, hc, hout.to_reflTransGen.trans hr, hlast⟩
  · rintro ⟨c, hc, hr, hlast⟩
    refine ⟨c, hc, ?_, .single hlast⟩
    rcases reflTransGen_iff_eq_or_transGen.mp hr with rfl | ht
    · exact absurd rfl hc
    · exact ht

/-! ## Paths -/

/-- The nodes of a walk from `a` to `b`, both included. -/
structure IsPath (r : α → α → Prop) (a b : α) (path : List α) : Prop where
  head : path.head? = some a
  last : path.getLast? = some b
  chain : path.IsChain r

/-- A path that no other path between its ends is shorter than. -/
structure IsShortest (r : α → α → Prop) (a b : α) (path : List α) : Prop extends
    IsPath r a b path where
  le_length : ∀ other, IsPath r a b other → path.length ≤ other.length

theorem isPath_singleton (a : α) : IsPath r a a [a] :=
  ⟨rfl, rfl, .singleton a⟩

theorem IsPath.concat {c : α} {path : List α} (h : IsPath r a b path) (hbc : r b c) :
    IsPath r a c (path ++ [c]) := by
  refine ⟨?_, List.getLast?_concat, ?_⟩
  · rw [List.head?_append, h.head]
    rfl
  · refine h.chain.append (.singleton c) fun x hx y hy => ?_
    obtain rfl : b = x := by simpa [h.last] using hx
    obtain rfl : c = y := by simpa using hy
    exact hbc

theorem exists_path (h : ReflTransGen r a b) : ∃ path, IsPath r a b path := by
  induction h with
  | refl => exact ⟨[a], isPath_singleton a⟩
  | tail _ hbc ih =>
    obtain ⟨path, hp⟩ := ih
    exact ⟨_, hp.concat hbc⟩

section Levels

variable {seen unfinished : α → Prop} {level : α → Nat}

/-- Where the finished nodes have their successors seen, one level down at most, a
path to a node that is not finished meets a node that is unfinished, no deeper
than the path is long. -/
theorem IsPath.exists_unfinished {a b : α} {path : List α} (h : IsPath r a b path)
    (hs : seen a) (hb : seen b → unfinished b)
    (hc : ∀ x y, seen x → ¬unfinished x → r x y → seen y ∧ level y ≤ level x + 1) :
    ∃ x, seen x ∧ unfinished x ∧ level x + 1 ≤ level a + path.length := by
  obtain ⟨hh, hlast, hch⟩ := h
  induction path generalizing a with
  | nil => cases hh
  | cons x rest ih =>
    obtain rfl : x = a := Option.some.inj hh
    by_cases ho : unfinished x
    · refine ⟨x, hs, ho, ?_⟩
      simp only [List.length_cons]
      omega
    · cases rest with
      | nil =>
        obtain rfl : x = b := Option.some.inj hlast
        exact absurd (hb hs) ho
      | cons y rest =>
        obtain ⟨hxy, hr⟩ := List.isChain_cons_cons.mp hch
        obtain ⟨hy, hl⟩ := hc x y hs ho hxy
        obtain ⟨z, hz, hzo, hle⟩ := ih hy rfl (by simpa using hlast) hr
        refine ⟨z, hz, hzo, ?_⟩
        simp only [List.length_cons] at hle ⊢
        omega

end Levels

end Digraph
