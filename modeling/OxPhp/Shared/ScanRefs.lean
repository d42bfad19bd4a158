import OxPhp.Shared.Owned

/-!
# The references of a buffer

`scan_shared_refs` of `plugins/ox_shared/value.rs` looks for the references in a buffer
without reading the values in it.  It is a second reader of the wire format, with its
own primitives, and has to agree with the one that builds the value.
-/

namespace OxPhp.Shared

open ByteStr Wire

/-! ## The scanner -/

def rdU8 : SvReader UInt8 := byte .generic
def rdU32 : SvReader Nat := le .generic 4
def rdU64 : SvReader Nat := le .generic 8

def skip (n : Nat) : SvReader Unit := do
  let _ ← take .generic n
  return ()

def skipKey : SvReader Unit := do
  let keyType ← rdU8
  if keyType = 1 then
    let klen ← rdU32
    skip klen
  else skip 8

def scanMembers (scanOne : SvReader (List SharedRef)) : Nat → SvReader (List SharedRef)
  | 0 => pure []
  | count + 1 => do
    skipKey
    let refs ← scanOne
    let others ← scanMembers scanOne count
    return refs ++ others

def scanStep (scanOne : SvReader (List SharedRef)) : SvReader (List SharedRef) := do
  let tag ← rdU8
  match tag with
  | 0 | 1 | 2 => return []
  | 3 | 4 =>
    skip 8
    return []
  | 5 =>
    let n ← rdU32
    skip n
    return []
  | 6 =>
    let count ← rdU32
    scanMembers scanOne count
  | 7 =>
    let tt ← rdU8
    let id ← rdU64
    match SharedType.fromTag tt with
    | some typeTag => return [⟨id, typeTag⟩]
    | none => throw .type
  | _ => throw .type

/-- `scan_one`, with a bound on the nesting. -/
def scanOne : Nat → SvReader (List SharedRef) := nested .generic scanStep

def scanSharedRefs (buf : Bytes) : Except SharedError (List SharedRef) := do
  let (refs, _) ← scanOne (buf.length + 1) buf
  return refs

/-! ## The two readers -/

/-- The references are those of the value, in some order. -/
def RefsOf (refs : List SharedRef) (v : SharedValue) : Prop := refs.Perm (collectSharedRefs v)

def RefsOfMembers (refs : List SharedRef)
    (members : List SharedValue × List (Bytes × SharedValue)) : Prop :=
  refs.Perm (collectIntKeyed members.1 ++ collectStrKeyed members.2)

variable {n : Nat} {one : SvReader (List SharedRef)} {read : SvReader SharedValue}

theorem skip_matches_readBytes (k : Nat) :
    Matches n Malformed (fun _ _ => True) (skip k) (readBytes k) := by
  have hr : readBytes k = take .generic k >>= pure := (bind_pure _).symm
  rw [hr]
  exact (matches_take malformed_generic k).bind fun _ _ _ => .pure trivial

theorem skip_matches_readU64Le : Matches n Malformed (fun _ _ => True) (skip 8) readU64Le :=
  (matches_take malformed_generic 8).bind fun _ _ _ => .pure trivial

theorem skip_matches_readI64Le : Matches n Malformed (fun _ _ => True) (skip 8) readI64Le := by
  rw [← bind_pure (skip 8)]
  exact skip_matches_readU64Le.bind fun _ n _ => .pure trivial

theorem scanMembers_succ (one : SvReader (List SharedRef)) (count : Nat) :
    scanMembers one (count + 1) = rdU8 >>= fun keyType =>
      if keyType = 1 then rdU32 >>= fun klen => skip klen >>= fun _ => one >>= fun refs =>
        scanMembers one count >>= fun others => pure (refs ++ others)
      else skip 8 >>= fun _ => one >>= fun refs =>
        scanMembers one count >>= fun others => pure (refs ++ others) := by
  rw [scanMembers, skipKey, bind_assoc]
  congr 1
  funext keyType
  split
  · rw [bind_assoc]
  · rfl

theorem scanMembers_matches (h : Matches n Malformed RefsOf one read) (count : Nat) :
    Matches n Malformed RefsOfMembers (scanMembers one count) (svReadMembers read count) := by
  have hm := malformed_generic
  induction count with
  | zero => exact .pure .nil
  | succ count ih =>
    rw [scanMembers_succ]
    refine (Matches.byte hm fun keyType => ?_).mono (Nat.le_succ n)
    split
    · refine (matches_le hm 4).same fun klen => ?_
      refine (skip_matches_readBytes klen).bind fun _ kbytes _ => ?_
      refine h.bind fun refs val hval => ih.bind fun others members hms => .pure ?_
      -- the references of a string-keyed member come after the integer-keyed ones
      exact (hval.append hms).trans (List.perm_append_comm_assoc _ _ _)
    · refine skip_matches_readU64Le.bind fun _ idx _ => ?_
      refine h.bind fun refs val hval => ih.bind fun others members hms => .pure ?_
      rw [RefsOfMembers, collectIntKeyed, List.append_assoc]
      exact hval.append hms

theorem scanStep_matches (h : Matches n Malformed RefsOf one read) :
    Matches (n + 1) Malformed RefsOf (scanStep one) (svReadStep read) := by
  have hm := malformed_generic
  refine .byte hm fun tag => ?_
  split
  · exact .pure .nil
  · exact .pure .nil
  · exact .pure .nil
  · exact skip_matches_readI64Le.bind fun _ n _ => .pure .nil
  · exact skip_matches_readU64Le.bind fun _ bits _ => .pure .nil
  · refine (matches_le hm 4).same fun k => ?_
    refine (skip_matches_readBytes k).bind fun _ bytes _ => .pure ?_
    split <;> exact .nil
  · refine (matches_le hm 4).same fun count => ?_
    rw [← bind_pure (scanMembers one count)]
    exact (scanMembers_matches h count).bind fun refs members hms => .pure hms
  · refine (Matches.byte hm fun tt => (matches_le hm 8).same fun id => ?_).mono (Nat.le_succ n)
    cases SharedType.fromTag tt with
    | none => exact .throw (.inr rfl) rfl rfl
    | some typeTag => exact .pure (List.Perm.refl _)
  · exact .throw (.inr rfl) rfl (by grind)

/-- Scanner and reader agree, whatever the bounds on the nesting above the length. -/
theorem scanOne_matches (depth depth' : Nat) :
    Matches (min depth depth') Malformed RefsOf (scanOne depth) (svRead depth') :=
  matches_nested (fun _ _ _ h => scanStep_matches h) depth depth'

theorem scanSharedRefs_cases (buf : Bytes) :
    (∃ e, scanSharedRefs buf = .error e ∧ portbufToSv buf = .error e) ∨
      ∃ refs v, scanSharedRefs buf = .ok refs ∧ portbufToSv buf = .ok v ∧ RefsOf refs v := by
  rw [scanSharedRefs, portbufToSv]
  rcases scanOne_matches (buf.length + 1) (buf.length + 1) buf (by simp) with
    ⟨e, -, hs, hr⟩ | ⟨refs, v, rest, hs, hr, -, h⟩
  · rw [hs, hr]
    exact .inl ⟨e, rfl, rfl⟩
  · rw [hs, hr]
    exact .inr ⟨refs, v, rfl, rfl, h⟩

/-- **The scanner agrees with the reader.** It succeeds on the same buffers, fails with the
same error elsewhere, and finds each reference of the value as often as the value has it;
the references of the owned value are the entries they name. -/
theorem scanSharedRefs_portbufToSv (buf : Bytes) :
    ((∃ refs, scanSharedRefs buf = .ok refs) ↔ ∃ v, portbufToSv buf = .ok v) ∧
      (∀ e, scanSharedRefs buf = .error e ↔ portbufToSv buf = .error e) ∧
      ∀ refs v, scanSharedRefs buf = .ok refs → portbufToSv buf = .ok v →
        refs.Perm (collectSharedRefs v) ∧
          ∀ (reg : Registry) (owned : SharedValue), reg.rawToOwned v = .ok owned →
            (reg.lookups refs).Perm ((collectSharedRefs owned).map .ok) := by
  rcases scanSharedRefs_cases buf with ⟨e, hs, hr⟩ | ⟨refs, v, hs, hr, hre⟩
  · rw [hs, hr]
    simp
  · rw [hs, hr]
    refine ⟨by simp, by simp, ?_⟩
    rintro refs' v' hr' hv'
    cases hr'
    cases hv'
    refine ⟨hre, fun reg owned ho => ?_⟩
    rw [← reg.lookups_of_rawToOwned ho]
    exact hre.map _

def keysMixed : Bytes :=
  [6, 2, 0, 0, 0, 1, 1, 0, 0, 0, 107, 7, 20, 4, 0, 0, 0, 0, 0, 0, 0,
    0, 9, 0, 0, 0, 0, 0, 0, 0, 7, 12, 5, 0, 0, 0, 0, 0, 0, 0]

theorem scanSharedRefs_portbufToSv_keysMixed :
    scanSharedRefs keysMixed = .ok [⟨4, .map⟩, ⟨5, .once⟩] ∧
      [⟨4, .map⟩, ⟨5, .once⟩].Perm (collectSharedRefs
        (.array [.shared ⟨5, .once⟩] [(str "k", .shared ⟨4, .map⟩)])) :=
  ⟨by rfl, ((scanSharedRefs_portbufToSv keysMixed).2.2 _ _ (by rfl) (by rfl)).1⟩

end OxPhp.Shared
