import Mathlib.Data.List.Nodup

/-!
# Lists with keys

Records found, changed and removed by their key.  When no key occurs twice, all
three act at one place of the list, and `Split` names it.
-/

namespace Keyed

variable {α κ : Type} (key : α → κ)

/-- The one place of a list where a key occurs. -/
structure Split (l : List α) (k : κ) (a : α) (before after : List α) : Prop where
  eq : l = before ++ a :: after
  here : key a = k
  elsewhere : ∀ x ∈ before ++ after, key x ≠ k

variable {key} {l before after : List α} {k : κ} {a : α}

theorem Split.mem (h : Split key l k a before after) : a ∈ l := by
  rw [h.eq]
  exact List.mem_append_right _ List.mem_cons_self

theorem Split.mem_iff (h : Split key l k a before after) {x : α} :
    x ∈ l ↔ x = a ∨ x ∈ before ++ after := by
  rw [h.eq, List.mem_append, List.mem_cons, List.mem_append]
  tauto

variable [DecidableEq κ] (key) in
def find (l : List α) (k : κ) : Option α := l.find? fun a => key a = k

variable [DecidableEq κ] (key) in
def modify (l : List α) (k : κ) (f : α → α) : List α := l.map fun a => if key a = k then f a else a

variable [DecidableEq κ] (key) in
def erase (l : List α) (k : κ) : List α := l.filter fun a => key a ≠ k

variable [DecidableEq κ]

theorem exists_split (hn : (l.map key).Nodup) (h : find key l k = some a) :
    ∃ before after, Split key l k a before after := by
  obtain ⟨hh, before, after, heq, -⟩ := List.find?_eq_some_iff_append.mp h
  have hkey : key a = k := of_decide_eq_true hh
  refine ⟨before, after, heq, hkey, fun x hx hxk => ?_⟩
  rw [heq, List.map_append, List.map_cons] at hn
  have hmem : key a ∈ (before ++ after).map key :=
    List.mem_map.mpr ⟨x, hx, hxk.trans hkey.symm⟩
  rw [List.map_append] at hmem
  exact (List.nodup_middle.mp hn).notMem hmem

namespace Split

variable (h : Split key l k a before after)

include h

theorem modify_eq (f : α → α) : modify key l k f = before ++ f a :: after := by
  have hs : ∀ {part : List α}, (∀ x ∈ part, key x ≠ k) →
      part.map (fun x => if key x = k then f x else x) = part := by
    intro part hp
    refine (List.map_congr_left fun x hx => ?_).trans (List.map_id part)
    rw [if_neg (hp x hx), id]
  rw [modify, h.eq, List.map_append, List.map_cons, if_pos h.here]
  rw [hs fun x hx => h.elsewhere x (List.mem_append_left _ hx)]
  rw [hs fun x hx => h.elsewhere x (List.mem_append_right _ hx)]

theorem erase_eq : erase key l k = before ++ after := by
  have hs : ∀ {part : List α}, (∀ x ∈ part, key x ≠ k) →
      part.filter (fun x => decide (key x ≠ k)) = part :=
    fun hp => List.filter_eq_self.mpr fun x hx => decide_eq_true (hp x hx)
  rw [erase, h.eq, List.filter_append, List.filter_cons_of_neg (by simp [h.here])]
  rw [hs fun x hx => h.elsewhere x (List.mem_append_left _ hx)]
  rw [hs fun x hx => h.elsewhere x (List.mem_append_right _ hx)]

end Split

end Keyed
