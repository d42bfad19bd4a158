import OxPhp.Shared.RoundTrip

/-!
# Content equality against PHP's identity

`compareAndSet` compares stored forms.  Two short plain values have the same
stored form just if they differ in nothing but keys that are not stored: the
integer keys of arrays, and string keys that are not UTF-8.
-/

namespace OxPhp.Shared

open ByteStr Wire

/-! ## Values that differ in lost keys -/

/-- Two integer keys, or two string keys of which the same is stored. -/
def Key.alike : Key → Key → Bool
  | index _, index _ => true
  | string s, string t => readKey s == readKey t
  | _, _ => false

mutual

/-- The same value but for keys that are not stored. -/
def Zval.sameButKeys : Zval → Zval → Bool
  | .null, .null => true
  | .bool a, .bool b => a == b
  | .long a, .long b => a == b
  | .string a, .string b => a == b
  | .array a, .array b => sameButKeysTable a b
  | _, _ => false

def sameButKeysTable : List (Key × Zval) → List (Key × Zval) → Bool
  | [], [] => true
  | (k, v) :: a, (k', v') :: b => k.alike k' && v.sameButKeys v' && sameButKeysTable a b
  | _, _ => false

end

mutual

theorem kept_eq_kept_iff : ∀ v w : Zval, v.plain = true → w.plain = true →
    (v.kept = w.kept ↔ v.sameButKeys w = true)
  | .array a, w, hv, hw => by
    cases w with
    | array b =>
      rw [Zval.kept, Zval.kept, Zval.sameButKeys, Zval.array.injEq]
      exact keptTable_eq_keptTable_iff 0 a b (plain_array hv).2 (plain_array hw).2
    | _ => simp [Zval.kept, Zval.sameButKeys]
  | .null, w, _, _ => by cases w <;> simp [Zval.kept, Zval.sameButKeys]
  | .bool a, w, _, _ => by cases w <;> simp [Zval.kept, Zval.sameButKeys]
  | .long a, w, _, _ => by cases w <;> simp [Zval.kept, Zval.sameButKeys]
  | .string a, w, _, _ => by cases w <;> simp [Zval.kept, Zval.sameButKeys]
  | .double _, _, hv, _ => nomatch hv
  | .object _ _, _, hv, _ => nomatch hv
  | .resource, _, hv, _ => nomatch hv
  | .reference _, _, hv, _ => nomatch hv

theorem keptTable_eq_keptTable_iff (idx : Nat) : ∀ a b : List (Key × Zval), plainTable a = true →
    plainTable b = true → (keptTable idx a = keptTable idx b ↔ sameButKeysTable a b = true)
  | [], b, _, _ => by
    cases b with
    | nil => simp [sameButKeysTable]
    | cons member b =>
      obtain ⟨key, v⟩ := member
      cases key <;> simp [keptTable, sameButKeysTable]
  | (key, v) :: a, [], _, _ => by cases key <;> simp [keptTable, sameButKeysTable]
  | (key, v) :: a, (key', v') :: b, ha, hb => by
    obtain ⟨hv, ha⟩ := plainTable_cons ha
    obtain ⟨hv', hb⟩ := plainTable_cons hb
    have hva := kept_eq_kept_iff v v' hv hv'
    have ho := fun idx => keptTable_eq_keptTable_iff idx a b ha hb
    cases key <;> cases key' <;>
      simp [keptTable, sameButKeysTable, Key.alike, hva, ho, and_assoc]

end

mutual

theorem identical_iff : ∀ v w : Zval, v.plain = true → (v.identical w = true ↔ v = w)
  | .array a, w, hv => by
    cases w with
    | array b =>
      rw [Zval.identical, Zval.array.injEq]
      exact identicalTable_iff a b (plain_array hv).2
    | _ => simp [Zval.identical]
  | .null, w, _ => by cases w <;> simp [Zval.identical]
  | .bool a, w, _ => by cases w <;> simp [Zval.identical]
  | .long a, w, _ => by cases w <;> simp [Zval.identical]
  | .string a, w, _ => by cases w <;> simp [Zval.identical]
  | .double _, _, hv => nomatch hv
  | .object _ _, _, hv => nomatch hv
  | .resource, _, hv => nomatch hv
  | .reference _, _, hv => nomatch hv

theorem identicalTable_iff : ∀ a b : List (Key × Zval), plainTable a = true →
    (identicalTable a b = true ↔ a = b)
  | [], b, _ => by cases b <;> simp [identicalTable]
  | (key, v) :: a, [], _ => by simp [identicalTable]
  | (key, v) :: a, (key', v') :: b, ha => by
    obtain ⟨hv, ha⟩ := plainTable_cons ha
    simp [identicalTable, identical_iff v v' hv, identicalTable_iff a b ha]

end

/-! ## Stored forms -/

section Stored

variable {v w : Zval}

theorem leBytes_inj {m n : UInt64} (h : leBytes 8 m.toNat = leBytes 8 n.toNat) : m = n := by
  have hlt : ∀ k : UInt64, k.toNat < 256 ^ 8 := fun k => k.toNat_lt
  have hnum := congrArg leNat h
  rw [leNat_leBytes, leNat_leBytes, Nat.mod_eq_of_lt (hlt m), Nat.mod_eq_of_lt (hlt n)] at hnum
  exact UInt64.toNat_inj.mp hnum

theorem svContentEq_iff_wire {a b : SharedValue} (hd : ∀ bits, a ≠ .double bits)
    (hs : ∀ ref, a ≠ .shared ref) : svContentEq a b = true ↔ svToPortbuf a = svToPortbuf b := by
  unfold svContentEq
  split
  · exact ⟨fun _ => rfl, fun _ => rfl⟩
  · next x y =>
    cases x <;> cases y <;> simp [svToPortbuf]
  · next x y =>
    rw [beq_iff_eq]
    refine ⟨fun h => h ▸ rfl, fun h => ?_⟩
    have hb := congrArg UInt64.toInt64 (leBytes_inj (List.cons.inj h).2)
    rwa [x.toInt64_toUInt64, y.toInt64_toUInt64] at hb
  · next x y => exact absurd rfl (hd x)
  · next x y => exact absurd rfl (hs x)
  · exact beq_iff_eq

theorem stored_ne_double (v : Zval) (bits : UInt64) : v.stored ≠ .double bits := by
  cases v with
  | string s =>
    rw [Zval.stored]
    split <;> nofun
  | _ => nofun

theorem stored_ne_shared (v : Zval) (ref : SharedRef) : v.stored ≠ .shared ref := by
  cases v with
  | string s =>
    rw [Zval.stored]
    split <;> nofun
  | _ => nofun

theorem wire_eq_iff (hv : v.plain = true) (hw : w.plain = true) (hvs : v.short = true)
    (hws : w.short = true) : svToPortbuf v.stored = svToPortbuf w.stored ↔ v.kept = w.kept := by
  have hs := ser_kept v hv
  have hse := ser_kept w hw
  constructor
  · intro heq
    have hr : portableDeserialize (fun _ _ => none) _ = _ := portableDeserialize_of_reads
      (reads_back v.kept (kept_plain v hv) (kept_short v hvs) hs)
    have hre : portableDeserialize (fun _ _ => none) _ = _ := portableDeserialize_of_reads
      (reads_back w.kept (kept_plain w hw) (kept_short w hws) hse)
    rw [heq, hre] at hr
    exact (Option.some.inj hr).symm
  · intro heq
    rw [heq, hse] at hs
    exact (Option.some.inj hs).symm

theorem storedEq_iff (hv : v.plain = true) (hw : w.plain = true) (hvs : v.short = true)
    (hws : w.short = true) : storedEq v w = true ↔ v.sameButKeys w = true := by
  obtain ⟨wirev, hwi⟩ := serializes v hv
  obtain ⟨wirew, hwir⟩ := serializes w hw
  have hs := portbufToSv_of_reads (reads_stored v hv hvs hwi)
  have hst := portbufToSv_of_reads (reads_stored w hw hws hwir)
  have heq : storedEq v w = svContentEq v.stored w.stored := by
    rw [storedEq, hwi, hwir]
    dsimp only
    rw [hs, hst]
  rw [heq, svContentEq_iff_wire (stored_ne_double v) (stored_ne_shared v),
    wire_eq_iff hv hw hvs hws, kept_eq_kept_iff v w hv hw]

end Stored

theorem sameButKeys_self (v : Zval) (hv : v.plain = true) : v.sameButKeys v = true :=
  (kept_eq_kept_iff v v hv hv).mp rfl

/-- **`compareAndSet` takes two values for the same just when PHP does**, unless
they differ, and in nothing but integer keys and string keys that are not
UTF-8. -/
theorem storedEq_iff_identical_iff (v w : Zval) (hv : v.plain = true) (hw : w.plain = true)
    (hvshort : v.short = true) (hwshort : w.short = true) :
    (storedEq v w = true ↔ v.identical w = true) ↔ (v.sameButKeys w = true → v = w) := by
  rw [storedEq_iff hv hw hvshort hwshort, identical_iff v w hv]
  constructor
  · intro h
    exact h.mp
  · intro h
    refine ⟨h, ?_⟩
    rintro rfl
    exact sameButKeys_self v hv

theorem storedEq_iff_identical_iff_reordered :
    storedEq (.array [(.string (str "a"), .long 1), (.string (str "b"), .long 2)])
        (.array [(.string (str "b"), .long 2), (.string (str "a"), .long 1)]) = true ↔
      (Zval.array [(.string (str "a"), .long 1), (.string (str "b"), .long 2)]).identical
        (.array [(.string (str "b"), .long 2), (.string (str "a"), .long 1)]) = true :=
  (storedEq_iff_identical_iff (.array [(.string (str "a"), .long 1), (.string (str "b"), .long 2)])
    (.array [(.string (str "b"), .long 2), (.string (str "a"), .long 1)]) (by decide) (by decide)
    (by decide) (by decide)).mpr fun h => absurd h (by decide)

/-- **Arrays with different keys are taken for the same.** -/
theorem storedEq_of_different_keys :
    storedEq (.array [(.index 5, .string (str "a"))]) (.array [(.index 0, .string (str "a"))]) =
        true ∧ (Zval.array [(.index 5, .string (str "a"))]).identical
        (.array [(.index 0, .string (str "a"))]) = false ∧
      storedEq (.array [(.string [254], .null)]) (.array [(.string [255], .null)]) = true ∧
      (Zval.array [(.string [254], .null)]).identical (.array [(.string [255], .null)]) = false :=
  ⟨by decide +kernel, by decide, by decide +kernel, by decide⟩

end OxPhp.Shared
