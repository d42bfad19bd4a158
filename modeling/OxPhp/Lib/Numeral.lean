import Mathlib.Tactic.IntervalCases
import OxPhp.Lib.ByteStr

/-!
# Numerals

Numbers written out in a base of at most sixteen, with lower-case digits and no
leading zero: what is written determines the number, and a separator that is no
digit ends it.
-/

namespace Numeral

open ByteStr

def digitByte (d : Nat) : UInt8 := UInt8.ofNat d.digitChar.toNat

def numeral (base n : Nat) : Bytes := (Nat.toDigits base n).map fun c => UInt8.ofNat c.toNat

def isDigitByte (b : UInt8) : Bool := isAsciiDigit b || (97 ≤ b && b ≤ 102)

theorem digitByte_injOn {d d' : Nat} (hd : d < 16) (hd' : d' < 16)
    (h : digitByte d = digitByte d') : d = d' := by
  have hall : ∀ d < 16, ∀ d' < 16, digitByte d = digitByte d' → d = d' := by decide
  exact hall d hd d' hd' h

theorem isDigitByte_digitByte {d : Nat} (hd : d < 16) : isDigitByte (digitByte d) = true := by
  interval_cases d <;> rfl

section Base

variable {base : Nat} (hbase : 1 < base)

include hbase

theorem numeral_eq (n : Nat) : numeral base n =
      if n < base then [digitByte n] else numeral base (n / base) ++ [digitByte (n % base)] := by
  unfold numeral
  rw [Nat.toDigits_eq_if hbase]
  split <;> simp [digitByte]

theorem numeral_ne_nil (n : Nat) : numeral base n ≠ [] := by
  rw [numeral_eq hbase]
  split <;> simp

variable (hbase' : base ≤ 16)

include hbase'

theorem isDigitByte_of_mem {n : Nat} {b : UInt8} (h : b ∈ numeral base n) :
    isDigitByte b = true := by
  induction n using Nat.strongRecOn with
  | ind n ih =>
    rw [numeral_eq hbase] at h
    split at h
    · next hn =>
      obtain rfl := List.mem_singleton.mp h
      exact isDigitByte_digitByte (by omega)
    · next hn =>
      rcases List.mem_append.mp h with h | h
      · exact ih (n / base) (Nat.div_lt_self (by omega) hbase) h
      · obtain rfl := List.mem_singleton.mp h
        have hlt := Nat.mod_lt n (show 0 < base by omega)
        exact isDigitByte_digitByte (by omega)

theorem numeral_injective : Function.Injective (numeral base) := by
  intro n
  induction n using Nat.strongRecOn with
  | ind n ih =>
    intro m h
    rw [numeral_eq hbase n, numeral_eq hbase m] at h
    have hn := Nat.mod_lt n (show 0 < base by omega)
    have hm := Nat.mod_lt m (show 0 < base by omega)
    split at h <;> split at h
    · simp only [List.cons.injEq, and_true] at h
      exact digitByte_injOn (by omega) (by omega) h
    · obtain ⟨hnil, -⟩ := List.append_inj' (List.nil_append _ |>.trans h) rfl
      exact absurd hnil.symm (numeral_ne_nil hbase _)
    · obtain ⟨hnil, -⟩ := List.append_inj' (h.trans (List.nil_append _).symm) rfl
      exact absurd hnil (numeral_ne_nil hbase _)
    · next hnlt _ =>
      obtain ⟨hin, hlast⟩ := List.append_inj' h rfl
      simp only [List.cons.injEq, and_true] at hlast
      have hdiv := ih (n / base) (Nat.div_lt_self (by omega) hbase) hin
      have hmod := digitByte_injOn (by omega) (by omega) hlast
      rw [← Nat.div_add_mod n base, ← Nat.div_add_mod m base, hdiv, hmod]

end Base

theorem numeral_pair_injective {b b' : Nat} (hb : 1 < b) (hb16 : b ≤ 16) (hb' : 1 < b')
    (hb'16 : b' ≤ 16) {sep : UInt8} (hsep : isDigitByte sep = false) {n n' m m' : Nat}
    (h : numeral b n ++ sep :: numeral b' m = numeral b n' ++ sep :: numeral b' m') :
    n = n' ∧ m = m' := by
  have hnot : ∀ {base k}, 1 < base → base ≤ 16 → sep ∉ numeral base k := by
    intro base k hbase hbase' hmem
    rw [isDigitByte_of_mem hbase hbase' hmem] at hsep
    cases hsep
  obtain ⟨hl, -, hr⟩ := (List.append_cons_inj_of_notMem (hnot hb hb16) (hnot hb' hb'16)).mp h
  exact ⟨numeral_injective hb hb16 hl, numeral_injective hb' hb'16 hr⟩

end Numeral
