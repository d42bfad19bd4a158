import OxPhp.Shared.Registry
import OxPhp.Shared.RoundTrip

/-!
# Owned values

`raw_to_owned` of `plugins/ox_shared/value.rs` turns what the reader has made of a
buffer into a value that can be stored: every reference is looked up and becomes a
strong one.  A stored value, written and read again, comes back as it was, except
that the wire has one tag for strings and byte strings.
-/

namespace OxPhp.Shared

open ByteStr Wire ExceptInv

def Inner.typeTag : Inner → SharedType
  | scalar typeTag => typeTag
  | once _ => .once
  | mutex _ => .mutex
  | channel _ => .channel
  | map _ => .map

namespace Registry

variable (reg : Registry)

/-- `lookup` and `from_arc`: the type is the one of the entry. -/
def lookup (id : SharedId) : Except SharedError SharedRef :=
  match reg.entries id with
  | some inner => .ok ⟨id, inner.typeTag⟩
  | none => .error .staleHandle

mutual

def rawToOwned : SharedValue → Except SharedError SharedValue
  | .null => return .null
  | .bool b => return .bool b
  | .long n => return .long n
  | .double bits => return .double bits
  | .string s => return .string s
  | .bytes s => return .bytes s
  | .array intKeyed strKeyed => do
    let ints ← intKeyedToOwned intKeyed
    let strs ← strKeyedToOwned strKeyed
    return .array ints strs
  | .shared r => do
    let owned ← reg.lookup r.id
    return .shared owned

def intKeyedToOwned : List SharedValue → Except SharedError (List SharedValue)
  | [] => return []
  | v :: rest => do
    let owned ← rawToOwned v
    let others ← intKeyedToOwned rest
    return owned :: others

def strKeyedToOwned : List (Bytes × SharedValue) → Except SharedError (List (Bytes × SharedValue))
  | [] => return []
  | (k, v) :: rest => do
    let owned ← rawToOwned v
    let others ← strKeyedToOwned rest
    return (k, owned) :: others

end

/-! ## The references of an owned value -/

abbrev lookups (refs : List SharedRef) : List (Except SharedError SharedRef) :=
  refs.map fun r => reg.lookup r.id

mutual

theorem lookups_of_rawToOwned : ∀ {v owned : SharedValue}, reg.rawToOwned v = .ok owned →
    reg.lookups (collectSharedRefs v) = (collectSharedRefs owned).map .ok
  | .null, owned, h => by
    cases h
    rfl
  | .bool b, owned, h => by
    cases h
    rfl
  | .long n, owned, h => by
    cases h
    rfl
  | .double bits, owned, h => by
    cases h
    rfl
  | .string s, owned, h => by
    cases h
    rfl
  | .bytes s, owned, h => by
    cases h
    rfl
  | .array intKeyed strKeyed, owned, h => by
    obtain ⟨ints, hin, h⟩ := bind_eq_ok.mp h
    obtain ⟨strs, hs, h⟩ := bind_eq_ok.mp h
    cases h
    simp only [collectSharedRefs, List.map_append]
    rw [← lookups_of_intKeyed hin, ← lookups_of_strKeyed hs]
  | .shared r, owned, h => by
    obtain ⟨r', hl, h⟩ := bind_eq_ok.mp h
    cases h
    exact congrArg (fun x => [x]) hl

theorem lookups_of_intKeyed : ∀ {vs owned : List SharedValue}, reg.intKeyedToOwned vs = .ok owned →
    reg.lookups (collectIntKeyed vs) = (collectIntKeyed owned).map .ok
  | [], owned, h => by
    cases h
    rfl
  | v :: vs, owned, h => by
    obtain ⟨v', hv, h⟩ := bind_eq_ok.mp h
    obtain ⟨vs', hvs, h⟩ := bind_eq_ok.mp h
    cases h
    simp only [collectIntKeyed, List.map_append]
    rw [← lookups_of_rawToOwned hv, ← lookups_of_intKeyed hvs]

theorem lookups_of_strKeyed : ∀ {vs owned : List (Bytes × SharedValue)},
    reg.strKeyedToOwned vs = .ok owned →
      reg.lookups (collectStrKeyed vs) = (collectStrKeyed owned).map .ok
  | [], owned, h => by
    cases h
    rfl
  | (k, v) :: vs, owned, h => by
    obtain ⟨v', hv, h⟩ := bind_eq_ok.mp h
    obtain ⟨vs', hvs, h⟩ := bind_eq_ok.mp h
    cases h
    simp only [collectStrKeyed, List.map_append]
    rw [← lookups_of_rawToOwned hv, ← lookups_of_strKeyed hvs]

end

/-! ## Values whose references are up to date -/

/-- The references name the types of the entries. -/
def Typed (refs : List SharedRef) : Prop :=
  ∀ r ∈ refs, ∀ inner, reg.entries r.id = some inner → inner.typeTag = r.typeTag

def live (refs : List SharedRef) : Bool := refs.all fun r => (reg.entries r.id).isSome

variable {reg}

theorem Typed.append {refs others : List SharedRef} (h : reg.Typed (refs ++ others)) :
    reg.Typed refs ∧ reg.Typed others :=
  ⟨fun r hr => h r (List.mem_append_left _ hr), fun r hr => h r (List.mem_append_right _ hr)⟩

theorem lookup_of_typed {r : SharedRef} (h : reg.Typed [r]) :
    reg.lookup r.id = if reg.live [r] then .ok r else .error .staleHandle := by
  unfold lookup
  cases he : reg.entries r.id with
  | none => simp [live, he]
  | some inner =>
    have htag := h r List.mem_cons_self inner he
    simp [live, he, htag]

theorem bind_live {α β γ : Type} {refs others : List SharedRef} {a : α} {b : β} {f : α → β → γ}
    {x : Except SharedError α} {y : Except SharedError β}
    (hx : x = if reg.live refs then .ok a else .error .staleHandle)
    (hy : y = if reg.live others then .ok b else .error .staleHandle) :
    (do let u ← x; let w ← y; return f u w) =
      if reg.live (refs ++ others) then .ok (f a b) else .error .staleHandle := by
  subst hx hy
  have ha : reg.live (refs ++ others) = (reg.live refs && reg.live others) := List.all_append
  cases hr : reg.live refs with
  | false => simp [ha, hr, bind, Except.bind]
  | true =>
    cases ho : reg.live others with
    | false => simp [ha, hr, ho, bind, Except.bind]
    | true => simp [ha, hr, ho, bind, Except.bind, pure, Except.pure]

mutual

theorem rawToOwned_of_typed : ∀ {v : SharedValue}, reg.Typed (collectSharedRefs v) →
    reg.rawToOwned v = if reg.live (collectSharedRefs v) then .ok v else .error .staleHandle
  | .null, _ => rfl
  | .bool b, _ => rfl
  | .long n, _ => rfl
  | .double bits, _ => rfl
  | .string s, _ => rfl
  | .bytes s, _ => rfl
  | .array intKeyed strKeyed, h => by
    obtain ⟨hin, hs⟩ := Typed.append h
    exact bind_live (intKeyed_of_typed hin) (strKeyed_of_typed hs)
  | .shared r, h => by
    rw [rawToOwned, lookup_of_typed h, collectSharedRefs]
    cases reg.live [r] with
    | false => rfl
    | true => rfl

theorem intKeyed_of_typed : ∀ {vs : List SharedValue}, reg.Typed (collectIntKeyed vs) →
    reg.intKeyedToOwned vs = if reg.live (collectIntKeyed vs) then .ok vs else .error .staleHandle
  | [], _ => rfl
  | v :: vs, h => by
    obtain ⟨hv, hvs⟩ := Typed.append h
    exact bind_live (rawToOwned_of_typed hv) (intKeyed_of_typed hvs)

theorem strKeyed_of_typed : ∀ {vs : List (Bytes × SharedValue)}, reg.Typed (collectStrKeyed vs) →
    reg.strKeyedToOwned vs = if reg.live (collectStrKeyed vs) then .ok vs else .error .staleHandle
  | [], _ => rfl
  | (k, v) :: vs, h => by
    obtain ⟨hv, hvs⟩ := Typed.append h
    exact bind_live (rawToOwned_of_typed hv) (strKeyed_of_typed hvs)

end

/-- On such values `raw_to_owned` is the check the containers' operations make. -/
theorem rawToOwned_eq_decode {v : SharedValue} (h : reg.Typed (collectSharedRefs v)) :
    reg.rawToOwned v = (reg.decode v).mapError Failure.error := by
  rw [rawToOwned_of_typed h, decode, live]
  split
  · rfl
  · rfl

end Registry

/-! ## Written and read again -/

mutual

/-- The value with the byte strings that are UTF-8 taken for strings. -/
def SharedValue.textual : SharedValue → SharedValue
  | .bytes s => if isUtf8 s then .string s else .bytes s
  | .array intKeyed strKeyed => .array (textualInts intKeyed) (textualStrs strKeyed)
  | v => v

def textualInts : List SharedValue → List SharedValue
  | [] => []
  | v :: rest => v.textual :: textualInts rest

def textualStrs : List (Bytes × SharedValue) → List (Bytes × SharedValue)
  | [] => []
  | (k, v) :: rest => (k, v.textual) :: textualStrs rest

end

mutual

/-- What the types of the source say: strings and keys are UTF-8, ids have 64 bits. -/
def SharedValue.wellTyped : SharedValue → Bool
  | .string s => isUtf8 s
  | .array intKeyed strKeyed => wellTypedInts intKeyed && wellTypedStrs strKeyed
  | .shared r => decide (r.id < 2 ^ 64)
  | _ => true

def wellTypedInts : List SharedValue → Bool
  | [] => true
  | v :: rest => v.wellTyped && wellTypedInts rest

def wellTypedStrs : List (Bytes × SharedValue) → Bool
  | [] => true
  | (k, v) :: rest => isUtf8 k && v.wellTyped && wellTypedStrs rest

end

mutual

/-- Strings, keys and arrays have lengths of 32 bits. -/
def SharedValue.short : SharedValue → Bool
  | .string s => fits s.length
  | .bytes s => fits s.length
  | .array intKeyed strKeyed =>
    fits (intKeyed.length + strKeyed.length) && shortInts intKeyed && shortStrs strKeyed
  | _ => true

def shortInts : List SharedValue → Bool
  | [] => true
  | v :: rest => v.short && shortInts rest

def shortStrs : List (Bytes × SharedValue) → Bool
  | [] => true
  | (k, v) :: rest => fits k.length && v.short && shortStrs rest

end

/-- A value as the containers have it: its references are strong, so their entries are in
the registry. -/
structure OwnedValue (reg : Registry) where
  value : SharedValue
  wellTyped : value.wellTyped = true
  strong : ∀ r ∈ collectSharedRefs value, reg.lookup r.id = .ok r

section Read

variable {rest : Bytes} {read : SvReader SharedValue}

theorem svReadStep_double (bits : UInt64) :
    svReadStep read ((4 :: leBytes 8 bits.toNat) ++ rest) = .ok (.double bits, rest) := by
  rw [svReadStep, List.cons_append, readU8, bind_ok (byte_cons _ _)]
  refine (bind_ok (le_uint64 bits rest)).trans ?_
  rw [UInt64.ofNat_toNat]
  rfl

theorem fromTag_tag (t : SharedType) : SharedType.fromTag t.tag = some t := by
  cases t <;> decide

theorem svReadStep_shared (r : SharedRef) (hid : r.id < 2 ^ 64) :
    svReadStep read ((7 :: r.typeTag.tag :: leBytes 8 r.id) ++ rest) = .ok (.shared r, rest) := by
  rw [svReadStep, List.cons_append, List.cons_append, readU8, bind_ok (byte_cons _ _)]
  refine (bind_ok (byte_cons _ _)).trans ?_
  refine (bind_ok (le_leBytes (Nat.lt_of_lt_of_eq hid rfl) rest)).trans ?_
  simp only [fromTag_tag]
  rfl

end Read

mutual

theorem reads_written : ∀ v : SharedValue, v.wellTyped = true → v.short = true →
    Reads svRead (svToPortbuf v) v.textual
  | .null, _, _ => .of_step fun _ _ _ => rfl
  | .bool true, _, _ => .of_step fun _ _ _ => rfl
  | .bool false, _, _ => .of_step fun _ _ _ => rfl
  | .long n, _, _ => .of_step fun depth rest _ => svReadStep_long n _ rest
  | .double bits, _, _ => .of_step fun depth rest _ => svReadStep_double bits
  | .string s, ht, hs => by
    refine .of_step fun depth rest _ => ?_
    rw [SharedValue.wellTyped] at ht
    have hr := svReadStep_string s hs (nested .generic svReadStep depth) rest
    rwa [if_pos ht] at hr
  | .bytes s, _, hs => .of_step fun depth rest _ => svReadStep_string s hs _ rest
  | .array intKeyed strKeyed, ht, hs => by
    rw [SharedValue.wellTyped, Bool.and_eq_true] at ht
    rw [SharedValue.short, Bool.and_eq_true, Bool.and_eq_true] at hs
    obtain ⟨⟨hlen, hsh⟩, hsho⟩ := hs
    have hst := reads_writtenStrs strKeyed ht.2 hsho
    have hm := reads_writtenInts intKeyed 0 ht.1 hsh hst
    rw [List.append_nil] at hm
    have hw : svToPortbuf (.array intKeyed strKeyed) =
        6 :: leBytes 4 (intKeyed.length + strKeyed.length) ++
          (writeIntKeyed 0 intKeyed ++ writeStrKeyed strKeyed) := by
      rw [svToPortbuf, List.append_assoc]
    rw [hw, SharedValue.textual]
    refine .of_step fun depth rest hd => svReadStep_array hlen (hm depth rest ?_)
    simp only [List.length_append, List.length_cons] at hd ⊢
    omega
  | .shared r, ht, _ => .of_step fun depth rest _ =>
    svReadStep_shared r (of_decide_eq_true ht)

theorem reads_writtenInts : ∀ (vs : List SharedValue) (idx : Nat) {count : Nat} {others : Bytes}
    {members : List SharedValue × List (Bytes × SharedValue)},
    wellTypedInts vs = true → shortInts vs = true →
    Reads (fun depth => svReadMembers (svRead depth) count) others members →
    Reads (fun depth => svReadMembers (svRead depth) (vs.length + count))
      (writeIntKeyed idx vs ++ others) (textualInts vs ++ members.1, members.2)
  | [], idx, count, others, members, _, _, ho => by
    simpa [writeIntKeyed, textualInts] using ho
  | v :: vs, idx, count, others, members, ht, hs, ho => by
    rw [wellTypedInts, Bool.and_eq_true] at ht
    rw [shortInts, Bool.and_eq_true] at hs
    have hv := reads_written v ht.1 hs.1
    have hvs := reads_writtenInts vs (idx + 1) ht.2 hs.2 ho
    have hc : (v :: vs).length + count = vs.length + count + 1 := by
      rw [List.length_cons]
      omega
    rw [hc, writeIntKeyed, ← portbufKey_index, textualInts]
    intro depth rest hd
    simp only [List.append_assoc, List.length_append] at hd ⊢
    have hval := hv depth (writeIntKeyed (idx + 1) vs ++ (others ++ rest))
      (by simp only [List.length_append]; omega)
    have hr := hvs depth rest (by simp only [List.length_append]; omega)
    rw [List.append_assoc] at hr
    exact svReadMembers_index hval hr

theorem reads_writtenStrs : ∀ vs : List (Bytes × SharedValue), wellTypedStrs vs = true →
    shortStrs vs = true →
    Reads (fun depth => svReadMembers (svRead depth) vs.length) (writeStrKeyed vs)
      ([], textualStrs vs)
  | [], _, _ => fun _ _ _ => rfl
  | (k, v) :: vs, ht, hs => by
    rw [wellTypedStrs, Bool.and_eq_true, Bool.and_eq_true] at ht
    rw [shortStrs, Bool.and_eq_true, Bool.and_eq_true] at hs
    have hv := reads_written v ht.1.2 hs.1.2
    have hvs := reads_writtenStrs vs ht.2 hs.2
    have hkey : readKey k = k := if_pos ht.1.1
    have hw : writeStrKeyed ((k, v) :: vs) =
        portbufKey (.string k) ++ svToPortbuf v ++ writeStrKeyed vs := by
      rw [writeStrKeyed, portbufKey]
    rw [hw, textualStrs]
    intro depth rest hd
    simp only [List.append_assoc, List.length_append] at hd ⊢
    have hval := hv depth (writeStrKeyed vs ++ rest) (by simp only [List.length_append]; omega)
    have hr := hvs depth rest (by simp only [List.length_append]; omega)
    have hre := svReadMembers_string hs.1.1 hval hr
    rwa [hkey] at hre

end

mutual

theorem collectSharedRefs_textual : ∀ v : SharedValue,
    collectSharedRefs v.textual = collectSharedRefs v
  | .null => rfl
  | .bool _ => rfl
  | .long _ => rfl
  | .double _ => rfl
  | .string _ => rfl
  | .bytes s => by
    rw [SharedValue.textual]
    split <;> rfl
  | .array intKeyed strKeyed => by
    rw [SharedValue.textual, collectSharedRefs, collectIntKeyed_textual, collectStrKeyed_textual,
      collectSharedRefs]
  | .shared _ => rfl

theorem collectIntKeyed_textual : ∀ vs : List SharedValue,
    collectIntKeyed (textualInts vs) = collectIntKeyed vs
  | [] => rfl
  | v :: vs => by
    rw [textualInts, collectIntKeyed, collectSharedRefs_textual, collectIntKeyed_textual,
      collectIntKeyed]

theorem collectStrKeyed_textual : ∀ vs : List (Bytes × SharedValue),
    collectStrKeyed (textualStrs vs) = collectStrKeyed vs
  | [] => rfl
  | (k, v) :: vs => by
    rw [textualStrs, collectStrKeyed, collectSharedRefs_textual, collectStrKeyed_textual,
      collectStrKeyed]

end

namespace OwnedValue

variable {reg : Registry} (v : OwnedValue reg)

theorem exists_entry {r : SharedRef} (hr : r ∈ collectSharedRefs v.value) :
    ∃ inner, reg.entries r.id = some inner ∧ inner.typeTag = r.typeTag := by
  have hl := v.strong r hr
  unfold Registry.lookup at hl
  split at hl
  · next inner he =>
    refine ⟨inner, he, ?_⟩
    rw [← Except.ok.inj hl]
  · cases hl

theorem typed : reg.Typed (collectSharedRefs v.value) := by
  intro r hr inner he
  obtain ⟨inner', he', htag⟩ := v.exists_entry hr
  cases he.symm.trans he'
  exact htag

theorem live : reg.live (collectSharedRefs v.value) = true := by
  refine List.all_eq_true.mpr fun r hr => ?_
  obtain ⟨inner, he, -⟩ := v.exists_entry hr
  rw [he]
  rfl

/-- **Written and read again.** The reader takes exactly the bytes that were written,
whatever follows them, and the owned form of what it read is the value, with the byte
strings that are UTF-8 as strings. -/
theorem rawToOwned_portbufToSv (reg : Registry) (v : OwnedValue reg)
    (hshort : v.value.short = true) : (∀ depth rest, (svToPortbuf v.value ++ rest).length < depth →
      svRead depth (svToPortbuf v.value ++ rest) = .ok (v.value.textual, rest)) ∧
      (portbufToSv (svToPortbuf v.value) >>= reg.rawToOwned) = .ok v.value.textual := by
  have hr := reads_written v.value v.wellTyped hshort
  refine ⟨hr, ?_⟩
  have ht := v.typed
  have hl := v.live
  rw [← collectSharedRefs_textual] at ht hl
  rw [portbufToSv_of_reads hr]
  have hd : reg.decode v.value.textual = .ok v.value.textual := if_pos hl
  exact (Registry.rawToOwned_eq_decode ht).trans (by rw [hd]; rfl)

/-- A reference, a byte string that is text and one that is not. -/
def mixed : OwnedValue ((Registry.empty ⟨10, 1000⟩ 1).insert (.scalar .counter)) where
  value := .array [.shared ⟨1, .counter⟩, .bytes (str "abc")] [(str "k", .bytes [255])]
  wellTyped := by decide
  strong := by
    intro r hr
    cases List.mem_singleton.mp hr
    rfl

theorem rawToOwned_portbufToSv_mixed : mixed.value.short = true ∧
    (portbufToSv (svToPortbuf mixed.value) >>=
      ((Registry.empty ⟨10, 1000⟩ 1).insert (.scalar .counter)).rawToOwned) =
      .ok (.array [.shared ⟨1, .counter⟩, .string (str "abc")] [(str "k", .bytes [255])]) :=
  ⟨by decide, (rawToOwned_portbufToSv _ mixed (by decide)).2⟩

end OwnedValue

end OxPhp.Shared
