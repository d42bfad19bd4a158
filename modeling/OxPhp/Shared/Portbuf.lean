import OxPhp.Lib.Percent
import OxPhp.Lib.Wire
import OxPhp.Shared.Value

/-!
# The portbuf codecs

The wire format between PHP and the containers has two implementations.  The C
bridge (`ext/bridge/oxphp_bridge.c`) writes PHP values and reads them back; the
containers (`plugins/ox_shared/value.rs`) read them into stored values and write
those.
-/

namespace OxPhp.Shared

open ByteStr Wire

/-! ## PHP values -/

/-- A key of a PHP array: `zend_ulong`, or a string. -/
inductive Key where
  | index (h : UInt64)
  | string (s : Bytes)
  deriving DecidableEq

/-- A PHP value.  An array is its table in iteration order; an object is its
handle, and a `Shared\*` wrapper the entry it stands for. -/
inductive Zval where
  | null
  | bool (b : Bool)
  | long (n : Int64)
  | double (bits : UInt64)
  | string (s : Bytes)
  | array (table : List (Key × Zval))
  | object (handle : Nat) (wraps : Option (UInt8 × SharedId))
  | resource
  | reference (v : Zval)

/-! ## The C writer -/

def portbufKey : Key → Bytes
  -- lengths are cast to 32 bits
  | .string s => 1 :: leBytes 4 s.length ++ s
  | .index h => 0 :: leBytes 8 h.toNat

mutual

/-- `portbuf_ser_zval`; anything but data and `Shared\*` wrappers is refused. -/
def portbufSerZval : Zval → Option Bytes
  | .null => some [0]
  | .bool true => some [1]
  | .bool false => some [2]
  | .long n => some (3 :: leBytes 8 n.toUInt64.toNat)
  | .double bits => some (4 :: leBytes 8 bits.toNat)
  | .string s => some (5 :: leBytes 4 s.length ++ s)
  | .array table => do
    let members ← portbufSerTable table
    return 6 :: leBytes 4 table.length ++ members
  | .reference v => portbufSerZval v
  | .object _ (some (typeTag, id)) => some (7 :: typeTag :: leBytes 8 id)
  | .object _ none => none
  | .resource => none

def portbufSerTable : List (Key × Zval) → Option Bytes
  | [] => some []
  | (key, v) :: table => do
    let member ← portbufSerZval v
    let members ← portbufSerTable table
    return portbufKey key ++ member ++ members

end

/-! ## The Rust reader -/

def SharedType.fromTag (tag : UInt8) : Option SharedType :=
  [counter, flag, once, atomic, map, channel, mutex, pool].find? fun t => t.tag == tag

abbrev SvReader := Reader SharedError

def readU8 : SvReader UInt8 := byte .generic
def readU32Le : SvReader Nat := le .generic 4
def readU64Le : SvReader Nat := le .generic 8
def readBytes (n : Nat) : SvReader Bytes := take .generic n

def readI64Le : SvReader Int64 := do
  let n ← readU64Le
  return (UInt64.ofNat n).toInt64

/-- The loop over the members of an array.  The integer keys are read over, and a
string key that is not UTF-8 becomes empty. -/
def svReadMembers (svRead : SvReader SharedValue) :
    Nat → SvReader (List SharedValue × List (Bytes × SharedValue))
  | 0 => pure ([], [])
  | count + 1 => do
    let keyType ← readU8
    if keyType = 1 then
      let klen ← readU32Le
      let kbytes ← readBytes klen
      let key := if isUtf8 kbytes then kbytes else []
      let val ← svRead
      let (intKeyed, strKeyed) ← svReadMembers svRead count
      return (intKeyed, (key, val) :: strKeyed)
    else
      let _idx ← readU64Le
      let val ← svRead
      let (intKeyed, strKeyed) ← svReadMembers svRead count
      return (val :: intKeyed, strKeyed)

def svReadStep (svRead : SvReader SharedValue) : SvReader SharedValue := do
  let tag ← readU8
  match tag with
  | 0 => return .null
  | 1 => return .bool true
  | 2 => return .bool false
  | 3 =>
    let n ← readI64Le
    return .long n
  | 4 =>
    let bits ← readU64Le
    return .double (UInt64.ofNat bits)
  | 5 =>
    let len ← readU32Le
    let bytes ← readBytes len
    return if isUtf8 bytes then .string bytes else .bytes bytes
  | 6 =>
    let count ← readU32Le
    let (intKeyed, strKeyed) ← svReadMembers svRead count
    return .array intKeyed strKeyed
  | 7 =>
    let ttByte ← readU8
    let id ← readU64Le
    match SharedType.fromTag ttByte with
    | some typeTag => return .shared ⟨id, typeTag⟩
    | none => throw .type
  | _ => throw .type

/-- `sv_read`, with a bound on the nesting. -/
def svRead : Nat → SvReader SharedValue := nested .generic svReadStep

/-- The first value of the buffer; what follows is ignored. -/
def portbufToSv (buf : Bytes) : Except SharedError SharedValue := do
  let (sv, _) ← svRead (buf.length + 1) buf
  return sv

/-! ## The C reader -/

abbrev PortReader := Reader Unit

def portrdU8 : PortReader UInt8 := byte ()
def portrdU32 : PortReader Nat := le () 4
def portrdU64 : PortReader Nat := le () 8
def portrdBytes (n : Nat) : PortReader Bytes := take () n

/-- The loop over the members of an array, each added as a new one. -/
def portrdMembers (deser : PortReader Zval) : Nat → PortReader (List (Key × Zval))
  | 0 => pure []
  | count + 1 => do
    let keyType ← portrdU8
    if keyType = 1 then
      let klen ← portrdU32
      let kdata ← portrdBytes klen
      let elem ← deser
      let table ← portrdMembers deser count
      return (.string kdata, elem) :: table
    else
      let idx ← portrdU64
      let elem ← deser
      let table ← portrdMembers deser count
      return (.index (UInt64.ofNat idx), elem) :: table

section Deserialize

-- the handle of a new wrapper object, if the entry is alive
variable (wrapperNew : UInt8 → SharedId → Option Nat)

def portrdStep (deser : PortReader Zval) : PortReader Zval := do
  let tag ← portrdU8
  match tag with
  | 0 => return .null
  | 1 => return .bool true
  | 2 => return .bool false
  | 3 =>
    let n ← portrdU64
    return .long (UInt64.ofNat n).toInt64
  | 4 =>
    let bits ← portrdU64
    return .double (UInt64.ofNat bits)
  | 5 =>
    let slen ← portrdU32
    let sdata ← portrdBytes slen
    return .string sdata
  | 6 =>
    let count ← portrdU32
    let table ← portrdMembers deser count
    return .array table
  | 7 =>
    let typeTag ← portrdU8
    let sharedId ← portrdU64
    match wrapperNew typeTag sharedId with
    | some handle => return .object handle (some (typeTag, sharedId))
    | none => return .null
  | 8 =>
    let v ← deser
    return .reference v
  | _ => return .null

/-- `portrd_deser_zval`, with a bound on the nesting. -/
def portrdDeserZval : Nat → PortReader Zval := nested () (portrdStep wrapperNew)

def portableDeserialize (buf : Bytes) : Option Zval :=
  match portrdDeserZval wrapperNew (buf.length + 1) buf with
  | .ok (v, _) => some v
  | .error () => none

/-- A PHP value, stored in a container and read back. -/
def roundTrip (v : Zval) : Option Zval := do
  let wire ← portbufSerZval v
  let sv ← (portbufToSv wire).toOption
  portableDeserialize wrapperNew (svToPortbuf sv)

end Deserialize

def storedEq (v w : Zval) : Bool :=
  match portbufSerZval v, portbufSerZval w with
  | some wire, some wire' =>
    match portbufToSv wire, portbufToSv wire' with
    | .ok a, .ok b => svContentEq a b
    | _, _ => false
  | _, _ => false

mutual

/-- PHP's `===` on values that are not references: arrays have the same keys and
identical values in the same order. -/
def Zval.identical : Zval → Zval → Bool
  | .null, .null => true
  | .bool a, .bool b => a == b
  | .long a, .long b => a == b
  | .double a, .double b => doubleEq a b
  | .string a, .string b => a == b
  | .array a, .array b => identicalTable a b
  | .object a _, .object b _ => a == b
  | _, _ => false

def identicalTable : List (Key × Zval) → List (Key × Zval) → Bool
  | [], [] => true
  | (k, v) :: a, (k', v') :: b => k == k' && v.identical v' && identicalTable a b
  | _, _ => false

end

/-! ## Errors, and the bounds on the nesting -/

section Depth

variable {n : Nat} {buf : Bytes} {depth depth' : Nat}

/-- The errors of the Rust reader. -/
def Malformed (e : SharedError) : Prop := e = .generic ∨ e = .type

theorem malformed_generic : Malformed .generic := .inl rfl

theorem svReadMembers_matches {x y : SvReader SharedValue} (h : Matches n Malformed Eq x y)
    (count : Nat) : Matches n Malformed Eq (svReadMembers x count) (svReadMembers y count) := by
  have hm := malformed_generic
  induction count with
  | zero => exact .pure rfl
  | succ count ih =>
    refine (Matches.byte hm fun keyType => ?_).mono (Nat.le_succ n)
    split
    · refine (matches_le hm 4).same fun klen => (matches_take hm klen).same fun kbytes => ?_
      exact h.bind fun v _ hv => ih.bind fun members _ hms => .pure (by rw [hv, hms])
    · refine (matches_le hm 8).same fun idx => ?_
      exact h.bind fun v _ hv => ih.bind fun members _ hms => .pure (by rw [hv, hms])

theorem svReadStep_matches {x y : SvReader SharedValue} (h : Matches n Malformed Eq x y) :
    Matches (n + 1) Malformed Eq (svReadStep x) (svReadStep y) := by
  have hm := malformed_generic
  refine .byte hm fun tag => ?_
  split
  · exact .pure rfl
  · exact .pure rfl
  · exact .pure rfl
  · exact ((matches_le hm 8).same fun n => .pure rfl).same fun n => .pure rfl
  · exact (matches_le hm 8).same fun bits => .pure rfl
  · exact (matches_le hm 4).same fun len => (matches_take hm len).same fun bytes => .pure rfl
  · exact (matches_le hm 4).same fun count =>
      (svReadMembers_matches h count).bind fun _ _ hms => .pure (by rw [hms])
  · refine (Matches.byte hm fun ttByte => (matches_le hm 8).same fun id => ?_).mono (Nat.le_succ n)
    split
    · exact .pure rfl
    · exact .throw (.inr rfl) rfl rfl
  · exact .throw (.inr rfl) rfl rfl

theorem svRead_matches (depth depth' : Nat) :
    Matches (min depth depth') Malformed Eq (svRead depth) (svRead depth') :=
  matches_nested (fun _ _ _ h => svReadStep_matches h) depth depth'

/-- A bound above the length of the buffer is never reached. -/
theorem svRead_depth (h : buf.length < depth) (h' : buf.length < depth') :
    svRead depth buf = svRead depth' buf :=
  (svRead_matches depth depth').eq (Nat.lt_min.mpr ⟨h, h'⟩)

theorem portbufToSv_malformed {e : SharedError} (h : portbufToSv buf = .error e) :
    Malformed e := by
  rw [portbufToSv] at h
  rcases svRead_matches (buf.length + 1) (buf.length + 1) buf (by simp) with
    ⟨e', he, hx, -⟩ | ⟨v, _, rest, hx, -⟩
  · rw [hx] at h
    cases h
    exact he
  · rw [hx] at h
    cases h

variable {wrapperNew : UInt8 → SharedId → Option Nat}

/-- The C reader has one error. -/
abbrev AnyError (_ : Unit) : Prop := True

theorem portrdMembers_matches {x y : PortReader Zval} (h : Matches n AnyError Eq x y)
    (count : Nat) : Matches n AnyError Eq (portrdMembers x count) (portrdMembers y count) := by
  induction count with
  | zero => exact .pure rfl
  | succ count ih =>
    refine (Matches.byte trivial fun keyType => ?_).mono (Nat.le_succ n)
    split
    · refine (matches_le trivial 4).same fun klen => ?_
      refine (matches_take trivial klen).same fun kdata => ?_
      exact h.bind fun v _ hv => ih.bind fun table _ ht => .pure (by rw [hv, ht])
    · refine (matches_le trivial 8).same fun idx => ?_
      exact h.bind fun v _ hv => ih.bind fun table _ ht => .pure (by rw [hv, ht])

theorem portrdStep_matches {x y : PortReader Zval} (h : Matches n AnyError Eq x y) :
    Matches (n + 1) AnyError Eq (portrdStep wrapperNew x) (portrdStep wrapperNew y) := by
  refine .byte trivial fun tag => ?_
  split
  · exact .pure rfl
  · exact .pure rfl
  · exact .pure rfl
  · exact (matches_le trivial 8).same fun n => .pure rfl
  · exact (matches_le trivial 8).same fun bits => .pure rfl
  · refine (matches_le trivial 4).same fun slen => ?_
    exact (matches_take trivial slen).same fun s => .pure rfl
  · exact (matches_le trivial 4).same fun count =>
      (portrdMembers_matches h count).bind fun _ _ ht => .pure (by rw [ht])
  · refine (Matches.byte trivial fun typeTag => (matches_le trivial 8).same fun id => ?_).mono
      (Nat.le_succ n)
    split <;> exact .pure rfl
  · exact h.bind fun v _ hv => .pure (by rw [hv])
  · exact .pure rfl

/-- A bound above the length of the buffer is never reached. -/
theorem portrdDeserZval_depth (h : buf.length < depth) (h' : buf.length < depth') :
    portrdDeserZval wrapperNew depth buf = portrdDeserZval wrapperNew depth' buf :=
  (matches_nested (fun _ _ _ h => portrdStep_matches h) depth depth').eq (Nat.lt_min.mpr ⟨h, h'⟩)

end Depth

end OxPhp.Shared
