import OxPhp.Shared.Portbuf

/-!
# Values over the wire

What is left of a plain PHP value once a container has stored it: the Rust
reader drops integer keys and empties string keys that are not UTF-8, and the
C writer cuts lengths to 32 bits.  Everything else comes back, and the stored
form tells apart what comes back different.
-/

namespace OxPhp.Shared

open ByteStr Wire

/-! ## Plain values -/

def Key.isIndex : Key → Bool
  | index _ => true
  | string _ => false

/-- The keys are all integers, or all strings. -/
def oneKind (table : List (Key × Zval)) : Bool :=
  (table.all fun member => member.1.isIndex) || table.all fun member => !member.1.isIndex

mutual

/-- Null, booleans, integers, strings, and arrays of them with keys of one
kind. -/
def Zval.plain : Zval → Bool
  | .null => true
  | .bool _ => true
  | .long _ => true
  | .string _ => true
  | .array table => oneKind table && plainTable table
  | _ => false

def plainTable : List (Key × Zval) → Bool
  | [] => true
  | (_, v) :: table => v.plain && plainTable table

end

def fits (n : Nat) : Bool := decide (n < 2 ^ 32)

def Key.short : Key → Bool
  | index _ => true
  | string s => fits s.length

mutual

def Zval.short : Zval → Bool
  | .string s => fits s.length
  | .array table => fits table.length && shortTable table
  | .reference v => v.short
  | _ => true

def shortTable : List (Key × Zval) → Bool
  | [] => true
  | (key, v) :: table => key.short && v.short && shortTable table

end

/-! ## What is stored and what comes back -/

def readKey (s : Bytes) : Bytes := if isUtf8 s then s else []

mutual

def Zval.stored : Zval → SharedValue
  | .bool b => .bool b
  | .long n => .long n
  | .string s => if isUtf8 s then .string s else .bytes s
  | .array table => .array (storedInts table) (storedStrs table)
  | _ => .null

def storedInts : List (Key × Zval) → List SharedValue
  | [] => []
  | (.index _, v) :: table => v.stored :: storedInts table
  | (.string _, _) :: table => storedInts table

def storedStrs : List (Key × Zval) → List (Bytes × SharedValue)
  | [] => []
  | (.index _, _) :: table => storedStrs table
  | (.string s, v) :: table => (readKey s, v.stored) :: storedStrs table

end

mutual

/-- What comes back of a plain value: integer keys are counted from zero. -/
def Zval.kept : Zval → Zval
  | .array table => .array (keptTable 0 table)
  | v => v

def keptTable (idx : Nat) : List (Key × Zval) → List (Key × Zval)
  | [] => []
  | (.index _, v) :: table => (.index (UInt64.ofNat idx), v.kept) :: keptTable (idx + 1) table
  | (.string s, v) :: table => (.string (readKey s), v.kept) :: keptTable idx table

end

mutual

/-- Integer keys count from zero, and string keys are UTF-8. -/
def Zval.keysKept : Zval → Bool
  | .array table => keysKeptFrom 0 table
  | _ => true

def keysKeptFrom (idx : Nat) : List (Key × Zval) → Bool
  | [] => true
  | (.index h, v) :: table => h == UInt64.ofNat idx && v.keysKept && keysKeptFrom (idx + 1) table
  | (.string s, v) :: table => isUtf8 s && v.keysKept && keysKeptFrom idx table

end

/-! ## Numbers -/

theorem leBytes_length (width n : Nat) : (leBytes width n).length = width := by
  induction width generalizing n with
  | zero => rfl
  | succ width ih => rw [leBytes, List.length_cons, ih]

theorem leNat_leBytes (width n : Nat) : leNat (leBytes width n) = n % 256 ^ width := by
  induction width generalizing n with
  | zero => rw [leBytes, leNat, Nat.pow_zero, Nat.mod_one]
  | succ width ih =>
    have hb : (UInt8.ofNat (n % 256)).toNat = n % 256 := by
      rw [UInt8.toNat_ofNat']
      exact Nat.mod_mod n 256
    rw [leBytes, leNat, ih, hb, Nat.pow_succ', Nat.mod_mul]

theorem leBytes_mod (width n : Nat) : leBytes width (n % 256 ^ width) = leBytes width n := by
  induction width generalizing n with
  | zero => rfl
  | succ width ih =>
    have hlow : n % 256 ^ (width + 1) % 256 = n % 256 :=
      Nat.mod_mod_of_dvd n ⟨256 ^ width, Nat.pow_succ'⟩
    have hh : n % 256 ^ (width + 1) / 256 = n / 256 % 256 ^ width := by
      rw [Nat.pow_succ', Nat.mod_mul_right_div_self]
    rw [leBytes, leBytes, hlow, hh, ih]

variable {ε : Type} {e : ε} {n : Nat} {key : Key} {v : Zval} {table : List (Key × Zval)}
  {members : Bytes}

theorem le_leBytes {width : Nat} (h : n < 256 ^ width) (rest : Bytes) :
    le e width (leBytes width n ++ rest) = .ok (n, rest) := by
  rw [le_append (leBytes_length width n), leNat_leBytes, Nat.mod_eq_of_lt h]

theorem le_of_fits (h : fits n = true) (rest : Bytes) :
    le e 4 (leBytes 4 n ++ rest) = .ok (n, rest) :=
  le_leBytes (Nat.lt_of_lt_of_eq (of_decide_eq_true h) rfl) rest

theorem le_uint64 (n : UInt64) (rest : Bytes) :
    le e 8 (leBytes 8 n.toNat ++ rest) = .ok (n.toNat, rest) :=
  le_leBytes n.toNat_lt rest

/-! ## Reading what was written -/

theorem serTable_cons (h : portbufSerTable ((key, v) :: table) = some members) :
    ∃ member others, portbufSerZval v = some member ∧ portbufSerTable table = some others ∧
      members = portbufKey key ++ member ++ others := by
  obtain ⟨member, hm, h⟩ := Option.bind_eq_some_iff.mp h
  obtain ⟨others, ho, h⟩ := Option.bind_eq_some_iff.mp h
  cases h
  exact ⟨member, others, hm, ho, rfl⟩

theorem serZval_array {wire : Bytes} (h : portbufSerZval (.array table) = some wire) :
    ∃ members, portbufSerTable table = some members ∧
      wire = 6 :: leBytes 4 table.length ++ members := by
  obtain ⟨members, hm, h⟩ := Option.bind_eq_some_iff.mp h
  cases h
  exact ⟨members, hm, rfl⟩

section Members

variable {count : Nat} {s mid mid' rest : Bytes} {val : SharedValue}
  {others : List SharedValue × List (Bytes × SharedValue)}

theorem svReadMembers_string {read : SvReader SharedValue} (hlen : fits s.length = true)
    (hval : read mid = .ok (val, mid')) (ho : svReadMembers read count mid' = .ok (others, rest)) :
    svReadMembers read (count + 1) (portbufKey (.string s) ++ mid) =
      .ok ((others.1, (readKey s, val) :: others.2), rest) := by
  rw [svReadMembers, portbufKey, List.cons_append, List.cons_append, List.append_assoc]
  rw [readU8, bind_ok (byte_cons _ _), if_pos rfl]
  rw [readU32Le, bind_ok (le_of_fits hlen _)]
  rw [readBytes, bind_ok (take_append rfl)]
  rw [bind_ok hval, bind_ok ho]
  rfl

theorem svReadMembers_index {read : SvReader SharedValue} {h : UInt64}
    (hval : read mid = .ok (val, mid'))
    (ho : svReadMembers read count mid' = .ok (others, rest)) :
    svReadMembers read (count + 1) (portbufKey (.index h) ++ mid) =
      .ok ((val :: others.1, others.2), rest) := by
  rw [svReadMembers, portbufKey, List.cons_append]
  rw [readU8, bind_ok (byte_cons _ _), if_neg (by decide)]
  rw [readU64Le, bind_ok (le_uint64 h _)]
  rw [bind_ok hval, bind_ok ho]
  rfl

theorem portrdMembers_key {read : PortReader Zval}
    (hlen : key.short = true) (hval : read mid = .ok (v, mid'))
    (ho : portrdMembers read count mid' = .ok (table, rest)) :
    portrdMembers read (count + 1) (portbufKey key ++ mid) = .ok ((key, v) :: table, rest) := by
  cases key with
  | string s =>
    rw [portrdMembers, portbufKey, List.cons_append, List.cons_append, List.append_assoc]
    rw [portrdU8, bind_ok (byte_cons _ _), if_pos rfl]
    rw [portrdU32, bind_ok (le_of_fits hlen _)]
    rw [portrdBytes, bind_ok (take_append rfl)]
    rw [bind_ok hval, bind_ok ho]
    rfl
  | index h =>
    rw [portrdMembers, portbufKey, List.cons_append]
    rw [portrdU8, bind_ok (byte_cons _ _), if_neg (by decide)]
    rw [portrdU64, bind_ok (le_uint64 h _)]
    rw [bind_ok hval, bind_ok ho, UInt64.ofNat_toNat]
    rfl

end Members

/-! ### The Rust reader after the C writer -/

theorem svReadStep_string (s : Bytes) (hlen : fits s.length = true) (read : SvReader SharedValue)
    (rest : Bytes) : svReadStep read ((5 :: leBytes 4 s.length ++ s) ++ rest) =
      .ok (if isUtf8 s then .string s else .bytes s, rest) := by
  rw [svReadStep, List.cons_append, List.cons_append, List.append_assoc]
  rw [readU8, bind_ok (byte_cons _ _)]
  refine (bind_ok (le_of_fits hlen _)).trans ?_
  exact bind_ok (take_append rfl)

theorem svReadStep_long (n : Int64) (read : SvReader SharedValue) (rest : Bytes) :
    svReadStep read ((3 :: leBytes 8 n.toUInt64.toNat) ++ rest) = .ok (.long n, rest) := by
  rw [svReadStep, List.cons_append, readU8, bind_ok (byte_cons _ _)]
  have hr : readI64Le (leBytes 8 n.toUInt64.toNat ++ rest) = .ok (n, rest) := by
    rw [readI64Le, readU64Le, bind_ok (le_uint64 _ _), UInt64.ofNat_toNat]
    exact congrArg (fun m => Except.ok (m, rest)) n.toInt64_toUInt64
  exact bind_ok hr

theorem svReadStep_array {rest : Bytes} {read : SvReader SharedValue}
    {array : List SharedValue × List (Bytes × SharedValue)} (hlen : fits n = true)
    (hm : svReadMembers read n (members ++ rest) = .ok (array, rest)) :
    svReadStep read ((6 :: leBytes 4 n ++ members) ++ rest) =
      .ok (.array array.1 array.2, rest) := by
  rw [svReadStep, List.cons_append, List.cons_append, List.append_assoc]
  rw [readU8, bind_ok (byte_cons _ _)]
  refine (bind_ok (le_of_fits hlen _)).trans ?_
  exact bind_ok hm

theorem plain_array (h : (Zval.array table).plain = true) :
    oneKind table = true ∧ plainTable table = true := by
  rw [Zval.plain] at h
  exact Bool.and_eq_true_iff.mp h

theorem short_array (h : (Zval.array table).short = true) :
    fits table.length = true ∧ shortTable table = true := by
  rw [Zval.short] at h
  exact Bool.and_eq_true_iff.mp h

theorem plainTable_cons
    (h : plainTable ((key, v) :: table) = true) : v.plain = true ∧ plainTable table = true := by
  rw [plainTable] at h
  exact Bool.and_eq_true_iff.mp h

theorem shortTable_cons (h : shortTable ((key, v) :: table) = true) :
    key.short = true ∧ v.short = true ∧ shortTable table = true := by
  rw [shortTable, Bool.and_eq_true, Bool.and_eq_true] at h
  exact ⟨h.1.1, h.1.2, h.2⟩

mutual

theorem reads_stored : ∀ (v : Zval) {wire : Bytes}, v.plain = true → v.short = true →
    portbufSerZval v = some wire → Reads svRead wire v.stored
  | .null, wire, _, _, hw => by
    cases hw
    exact .of_step fun _ _ _ => rfl
  | .bool true, wire, _, _, hw => by
    cases hw
    exact .of_step fun _ _ _ => rfl
  | .bool false, wire, _, _, hw => by
    cases hw
    exact .of_step fun _ _ _ => rfl
  | .long n, wire, _, _, hw => by
    cases hw
    exact .of_step fun depth rest _ => svReadStep_long n _ rest
  | .string s, wire, _, hs, hw => by
    cases hw
    exact .of_step fun depth rest _ => svReadStep_string s hs _ rest
  | .array table, wire, hp, hs, hw => by
    obtain ⟨members, hm, rfl⟩ := serZval_array hw
    obtain ⟨hlen, hs⟩ := short_array hs
    have hr := reads_storedTable table (plain_array hp).2 hs hm
    refine .of_step fun depth rest hd => svReadStep_array hlen (hr depth rest ?_)
    simp only [List.length_append, List.length_cons] at hd ⊢
    omega
  | .double _, _, hp, _, _ => nomatch hp
  | .object _ _, _, hp, _, _ => nomatch hp
  | .resource, _, hp, _, _ => nomatch hp
  | .reference _, _, hp, _, _ => nomatch hp

theorem reads_storedTable : ∀ (table : List (Key × Zval)) {members : Bytes},
    plainTable table = true → shortTable table = true → portbufSerTable table = some members →
      Reads (fun depth => svReadMembers (svRead depth) table.length) members
        (storedInts table, storedStrs table)
  | [], members, _, _, hw => by
    cases hw
    exact fun _ _ _ => rfl
  | (key, v) :: table, members, hp, hs, hw => by
    obtain ⟨member, others, hm, ho, rfl⟩ := serTable_cons hw
    obtain ⟨hp, hpl⟩ := plainTable_cons hp
    obtain ⟨hkey, hs, hsh⟩ := shortTable_cons hs
    intro depth rest hd
    simp only [List.append_assoc, List.length_append] at hd ⊢
    have hval := reads_stored v hp hs hm depth (others ++ rest)
      (by simp only [List.length_append]; omega)
    have hr := reads_storedTable table hpl hsh ho depth rest
      (by simp only [List.length_append]; omega)
    cases key with
    | index h => exact svReadMembers_index hval hr
    | string s => exact svReadMembers_string hkey hval hr

end

/-! ### The C reader after the C writer -/

section Deserialize

variable {wrapperNew : UInt8 → SharedId → Option Nat}

theorem portrdStep_string (s : Bytes) (hlen : fits s.length = true) (deser : PortReader Zval)
    (rest : Bytes) : portrdStep wrapperNew deser ((5 :: leBytes 4 s.length ++ s) ++ rest) =
      .ok (.string s, rest) := by
  rw [portrdStep, List.cons_append, List.cons_append, List.append_assoc]
  rw [portrdU8, bind_ok (byte_cons _ _)]
  refine (bind_ok (le_of_fits hlen _)).trans ?_
  exact bind_ok (take_append rfl)

theorem portrdStep_long (n : Int64) (deser : PortReader Zval) (rest : Bytes) :
    portrdStep wrapperNew deser ((3 :: leBytes 8 n.toUInt64.toNat) ++ rest) =
      .ok (.long n, rest) := by
  rw [portrdStep, List.cons_append, portrdU8, bind_ok (byte_cons _ _)]
  refine (bind_ok (le_uint64 _ _)).trans ?_
  rw [UInt64.ofNat_toNat]
  exact congrArg (fun m => Except.ok (Zval.long m, rest)) n.toInt64_toUInt64

theorem portrdStep_array {n : Nat} {members rest : Bytes} {deser : PortReader Zval}
    {table : List (Key × Zval)} (hlen : fits n = true)
    (hm : portrdMembers deser n (members ++ rest) = .ok (table, rest)) :
    portrdStep wrapperNew deser ((6 :: leBytes 4 n ++ members) ++ rest) =
      .ok (.array table, rest) := by
  rw [portrdStep, List.cons_append, List.cons_append, List.append_assoc]
  rw [portrdU8, bind_ok (byte_cons _ _)]
  refine (bind_ok (le_of_fits hlen _)).trans ?_
  exact bind_ok hm

mutual

theorem reads_back : ∀ (v : Zval) {wire : Bytes}, v.plain = true → v.short = true →
    portbufSerZval v = some wire → Reads (portrdDeserZval wrapperNew) wire v
  | .null, wire, _, _, hw => by
    cases hw
    exact .of_step fun _ _ _ => rfl
  | .bool true, wire, _, _, hw => by
    cases hw
    exact .of_step fun _ _ _ => rfl
  | .bool false, wire, _, _, hw => by
    cases hw
    exact .of_step fun _ _ _ => rfl
  | .long n, wire, _, _, hw => by
    cases hw
    exact .of_step fun depth rest _ => portrdStep_long n _ rest
  | .string s, wire, _, hs, hw => by
    cases hw
    exact .of_step fun depth rest _ => portrdStep_string s hs _ rest
  | .array table, wire, hp, hs, hw => by
    obtain ⟨members, hm, rfl⟩ := serZval_array hw
    obtain ⟨hlen, hs⟩ := short_array hs
    have hr := readsTable_back table (plain_array hp).2 hs hm
    refine .of_step fun depth rest hd => portrdStep_array hlen (hr depth rest ?_)
    simp only [List.length_append, List.length_cons] at hd ⊢
    omega
  | .double _, _, hp, _, _ => nomatch hp
  | .object _ _, _, hp, _, _ => nomatch hp
  | .resource, _, hp, _, _ => nomatch hp
  | .reference _, _, hp, _, _ => nomatch hp

theorem readsTable_back : ∀ (table : List (Key × Zval)) {members : Bytes},
    plainTable table = true → shortTable table = true → portbufSerTable table = some members →
      Reads (fun depth => portrdMembers (portrdDeserZval wrapperNew depth) table.length) members
        table
  | [], members, _, _, hw => by
    cases hw
    exact fun _ _ _ => rfl
  | (key, v) :: table, members, hp, hs, hw => by
    obtain ⟨member, others, hm, ho, rfl⟩ := serTable_cons hw
    obtain ⟨hp, hpl⟩ := plainTable_cons hp
    obtain ⟨hkey, hs, hsh⟩ := shortTable_cons hs
    intro depth rest hd
    simp only [List.append_assoc, List.length_append] at hd ⊢
    have hval := reads_back v hp hs hm depth (others ++ rest)
      (by simp only [List.length_append]; omega)
    have hr := readsTable_back table hpl hsh ho depth rest
      (by simp only [List.length_append]; omega)
    exact portrdMembers_key hkey hval hr

end

end Deserialize

/-! ### The Rust writer -/

section Writer

theorem keptTable_length (idx : Nat) (table : List (Key × Zval)) :
    (keptTable idx table).length = table.length := by
  induction table generalizing idx with
  | nil => rfl
  | cons member table ih =>
    obtain ⟨key, v⟩ := member
    cases key with
    | index h | string s => rw [keptTable, List.length_cons, List.length_cons, ih]

theorem all_index_cons {key : Key} {v : Zval}
    (h : ((key, v) :: table).all (fun member => member.1.isIndex) = true) :
    (∃ n, key = .index n) ∧ table.all (fun member => member.1.isIndex) = true := by
  rw [List.all_cons, Bool.and_eq_true] at h
  cases key with
  | index n => exact ⟨⟨n, rfl⟩, h.2⟩
  | string s => cases h.1

theorem all_string_cons {key : Key} {v : Zval}
    (h : ((key, v) :: table).all (fun member => !member.1.isIndex) = true) :
    (∃ s, key = .string s) ∧ table.all (fun member => !member.1.isIndex) = true := by
  rw [List.all_cons, Bool.and_eq_true] at h
  cases key with
  | index n => cases h.1
  | string s => exact ⟨⟨s, rfl⟩, h.2⟩

theorem stored_of_index (h : table.all (fun member => member.1.isIndex) = true) :
    storedStrs table = [] ∧ (storedInts table).length = table.length := by
  induction table with
  | nil => exact ⟨rfl, rfl⟩
  | cons member table ih =>
    obtain ⟨⟨n, hkey⟩, ht⟩ := all_index_cons h
    obtain ⟨hs, hin⟩ := ih ht
    obtain ⟨key, v⟩ := member
    cases hkey
    rw [storedStrs, storedInts, List.length_cons, List.length_cons, hin]
    exact ⟨hs, rfl⟩

theorem stored_of_string (h : table.all (fun member => !member.1.isIndex) = true) :
    storedInts table = [] ∧ (storedStrs table).length = table.length := by
  induction table with
  | nil => exact ⟨rfl, rfl⟩
  | cons member table ih =>
    obtain ⟨⟨s, hkey⟩, ht⟩ := all_string_cons h
    obtain ⟨hin, hs⟩ := ih ht
    obtain ⟨key, v⟩ := member
    cases hkey
    rw [storedStrs, storedInts, List.length_cons, List.length_cons, hs]
    exact ⟨hin, rfl⟩

theorem portbufKey_index (idx : Nat) :
    portbufKey (.index (UInt64.ofNat idx)) = 0 :: leBytes 8 idx := by
  have hpow : 2 ^ 64 = 256 ^ 8 := by decide
  rw [portbufKey, UInt64.toNat_ofNat', hpow, ← leBytes_mod 8 idx]

end Writer

theorem serTable_eq {member : Bytes}
    (hm : portbufSerZval v = some member) (hme : portbufSerTable table = some members) :
    portbufSerTable ((key, v) :: table) = some (portbufKey key ++ member ++ members) := by
  rw [portbufSerTable, hm, hme]
  rfl

mutual

/-- **Byte for byte compatible**: the Rust writer writes the stored form as the C
writer writes what comes back. -/
theorem ser_kept : ∀ v : Zval, v.plain = true → portbufSerZval v.kept = some (svToPortbuf v.stored)
  | .null, _ => rfl
  | .bool true, _ => rfl
  | .bool false, _ => rfl
  | .long n, _ => rfl
  | .string s, _ => by
    rw [Zval.stored]
    split <;> rfl
  | .array table, hp => by
    obtain ⟨hkind, hp⟩ := plain_array hp
    rw [Zval.kept, portbufSerZval, Zval.stored, svToPortbuf, keptTable_length]
    rcases Bool.or_eq_true_iff.mp hkind with hindex | hs
    · obtain ⟨hst, hin⟩ := stored_of_index hindex
      rw [serTable_index table 0 hindex hp, hst, hin, writeStrKeyed, List.append_nil]
      rfl
    · obtain ⟨hin, hst⟩ := stored_of_string hs
      rw [serTable_string table 0 hs hp, hin, hst, writeIntKeyed, List.append_nil,
        List.length_nil, Nat.zero_add]
      rfl
  | .double _, hp => nomatch hp
  | .object _ _, hp => nomatch hp
  | .resource, hp => nomatch hp
  | .reference _, hp => nomatch hp

theorem serTable_index : ∀ (table : List (Key × Zval)) (idx : Nat),
    table.all (fun member => member.1.isIndex) = true → plainTable table = true →
      portbufSerTable (keptTable idx table) = some (writeIntKeyed idx (storedInts table))
  | [], _, _, _ => rfl
  | (key, v) :: table, idx, hindex, hp => by
    obtain ⟨⟨n, rfl⟩, hindex⟩ := all_index_cons hindex
    obtain ⟨hp, hpl⟩ := plainTable_cons hp
    rw [keptTable, storedInts, writeIntKeyed]
    rw [serTable_eq (ser_kept v hp) (serTable_index table (idx + 1) hindex hpl),
      portbufKey_index]

theorem serTable_string : ∀ (table : List (Key × Zval)) (idx : Nat),
    table.all (fun member => !member.1.isIndex) = true → plainTable table = true →
      portbufSerTable (keptTable idx table) = some (writeStrKeyed (storedStrs table))
  | [], _, _, _ => rfl
  | (key, v) :: table, idx, hs, hp => by
    obtain ⟨⟨s, rfl⟩, hs⟩ := all_string_cons hs
    obtain ⟨hp, hpl⟩ := plainTable_cons hp
    rw [keptTable, storedStrs, writeStrKeyed]
    rw [serTable_eq (ser_kept v hp) (serTable_string table idx hs hpl)]
    rfl

end

/-! ### What comes back is plain -/

mutual

theorem serializes : ∀ v : Zval, v.plain = true → ∃ wire, portbufSerZval v = some wire
  | .null, _ => ⟨_, rfl⟩
  | .bool true, _ => ⟨_, rfl⟩
  | .bool false, _ => ⟨_, rfl⟩
  | .long _, _ => ⟨_, rfl⟩
  | .string _, _ => ⟨_, rfl⟩
  | .array table, hp => by
    obtain ⟨members, hm⟩ := serializesTable table (plain_array hp).2
    rw [portbufSerZval, hm]
    exact ⟨_, rfl⟩
  | .double _, hp => nomatch hp
  | .object _ _, hp => nomatch hp
  | .resource, hp => nomatch hp
  | .reference _, hp => nomatch hp

theorem serializesTable : ∀ table : List (Key × Zval), plainTable table = true →
    ∃ members, portbufSerTable table = some members
  | [], _ => ⟨_, rfl⟩
  | (key, v) :: table, hp => by
    obtain ⟨hp, hpl⟩ := plainTable_cons hp
    obtain ⟨member, hm⟩ := serializes v hp
    obtain ⟨members, hme⟩ := serializesTable table hpl
    exact ⟨_, serTable_eq hm hme⟩

end

theorem readKey_length (s : Bytes) : (readKey s).length ≤ s.length := by
  unfold readKey
  split
  · exact Nat.le_refl _
  · exact Nat.zero_le _

theorem all_keptTable (test : Bool → Bool) (idx : Nat) (table : List (Key × Zval)) :
    (keptTable idx table).all (fun member => test member.1.isIndex) =
      table.all fun member => test member.1.isIndex := by
  induction table generalizing idx with
  | nil => rfl
  | cons member table ih =>
    obtain ⟨key, v⟩ := member
    cases key with
    | index h | string s => rw [keptTable, List.all_cons, List.all_cons, ih]; rfl

theorem oneKind_keptTable (idx : Nat) (table : List (Key × Zval)) :
    oneKind (keptTable idx table) = oneKind table :=
  congrArg₂ (· || ·) (all_keptTable (fun b => b) idx table) (all_keptTable (! ·) idx table)

mutual

theorem kept_plain : ∀ v : Zval, v.plain = true → v.kept.plain = true
  | .array table, hp => by
    obtain ⟨hkind, hp⟩ := plain_array hp
    rw [Zval.kept, Zval.plain, oneKind_keptTable, hkind, keptTable_plain 0 table hp]
    rfl
  | .null, _ => rfl
  | .bool _, _ => rfl
  | .long _, _ => rfl
  | .string _, _ => rfl
  | .double _, hp => nomatch hp
  | .object _ _, hp => nomatch hp
  | .resource, hp => nomatch hp
  | .reference _, hp => nomatch hp

theorem keptTable_plain (idx : Nat) : ∀ table : List (Key × Zval), plainTable table = true →
    plainTable (keptTable idx table) = true
  | [], _ => rfl
  | (.index h, v) :: table, hp => by
    obtain ⟨hp, hpl⟩ := plainTable_cons hp
    rw [keptTable, plainTable, kept_plain v hp, keptTable_plain (idx + 1) table hpl]
    rfl
  | (.string s, v) :: table, hp => by
    obtain ⟨hp, hpl⟩ := plainTable_cons hp
    rw [keptTable, plainTable, kept_plain v hp, keptTable_plain idx table hpl]
    rfl

end

mutual

theorem kept_short : ∀ v : Zval, v.short = true → v.kept.short = true
  | .array table, hs => by
    obtain ⟨hlen, hs⟩ := short_array hs
    rw [Zval.kept, Zval.short, keptTable_length, hlen, keptTable_short 0 table hs]
    rfl
  | .null, _ => rfl
  | .bool _, _ => rfl
  | .long _, _ => rfl
  | .double _, _ => rfl
  | .string _, hs => hs
  | .object _ _, _ => rfl
  | .resource, _ => rfl
  | .reference _, hs => hs

theorem keptTable_short (idx : Nat) : ∀ table : List (Key × Zval), shortTable table = true →
    shortTable (keptTable idx table) = true
  | [], _ => rfl
  | (.index h, v) :: table, hs => by
    obtain ⟨-, hs, hsh⟩ := shortTable_cons hs
    rw [keptTable, shortTable, kept_short v hs, keptTable_short (idx + 1) table hsh]
    rfl
  | (.string s, v) :: table, hs => by
    obtain ⟨hkey, hs, hsh⟩ := shortTable_cons hs
    have hr : (Key.string (readKey s)).short = true :=
      decide_eq_true (Nat.lt_of_le_of_lt (readKey_length s) (of_decide_eq_true hkey))
    rw [keptTable, shortTable, hr, kept_short v hs, keptTable_short idx table hsh]
    rfl

end

mutual

theorem kept_eq_iff : ∀ v : Zval, v.kept = v ↔ v.keysKept = true
  | .array table => by
    rw [Zval.kept, Zval.keysKept, Zval.array.injEq]
    exact keptTable_eq_iff 0 table
  | .null => ⟨fun _ => rfl, fun _ => rfl⟩
  | .bool _ => ⟨fun _ => rfl, fun _ => rfl⟩
  | .long _ => ⟨fun _ => rfl, fun _ => rfl⟩
  | .double _ => ⟨fun _ => rfl, fun _ => rfl⟩
  | .string _ => ⟨fun _ => rfl, fun _ => rfl⟩
  | .object _ _ => ⟨fun _ => rfl, fun _ => rfl⟩
  | .resource => ⟨fun _ => rfl, fun _ => rfl⟩
  | .reference _ => ⟨fun _ => rfl, fun _ => rfl⟩

theorem keptTable_eq_iff (idx : Nat) : ∀ table : List (Key × Zval),
    keptTable idx table = table ↔ keysKeptFrom idx table = true
  | [] => ⟨fun _ => rfl, fun _ => rfl⟩
  | (.index h, v) :: table => by
    rw [keptTable, keysKeptFrom, List.cons.injEq, Prod.mk.injEq, Key.index.injEq, kept_eq_iff v,
      keptTable_eq_iff (idx + 1) table, Bool.and_eq_true, Bool.and_eq_true, beq_iff_eq,
      eq_comm (a := h)]
  | (.string s, v) :: table => by
    have hkey : readKey s = s ↔ isUtf8 s = true := by
      unfold readKey
      split
      · next h => simp [h]
      · next h =>
        -- the empty string is UTF-8
        refine ⟨fun hs => ?_, fun hs => absurd hs h⟩
        subst hs
        exact absurd rfl h
    rw [keptTable, keysKeptFrom, List.cons.injEq, Prod.mk.injEq, Key.string.injEq, hkey,
      kept_eq_iff v, keptTable_eq_iff idx table, Bool.and_eq_true, Bool.and_eq_true]

end

/-! ## Lengths that were read -/

section Lengths

variable {wrapperNew : UInt8 → SharedId → Option Nat} {deser : PortReader Zval} {s rest : Bytes}

theorem fits_of_le {e : Unit} {n : Nat} (h : le e 4 s = .ok (n, rest)) : fits n = true :=
  decide_eq_true (Nat.lt_of_lt_of_eq (le_inv h) rfl)

theorem portrdMembers_short (hd : ∀ s v rest, deser s = .ok (v, rest) → v.short = true)
    {count : Nat} (h : portrdMembers deser count s = .ok (table, rest)) :
    table.length = count ∧ shortTable table = true := by
  induction count generalizing s table rest with
  | zero =>
    obtain ⟨rfl, -⟩ := pure_inv h
    exact ⟨rfl, rfl⟩
  | succ count ih =>
    obtain ⟨keyType, s₁, -, h⟩ := bind_inv h
    split at h
    · obtain ⟨klen, s₂, hk, h⟩ := bind_inv h
      obtain ⟨kdata, s₃, hkd, h⟩ := bind_inv h
      obtain ⟨elem, s₄, he, h⟩ := bind_inv h
      obtain ⟨others, s₅, ho, h⟩ := bind_inv h
      obtain ⟨rfl, -⟩ := pure_inv h
      obtain ⟨hlen, hs⟩ := ih ho
      have hkey : (Key.string kdata).short = true := by
        rw [Key.short, (take_inv hkd).1]
        exact fits_of_le hk
      rw [List.length_cons, hlen, shortTable, hkey, hd _ _ _ he, hs]
      exact ⟨rfl, rfl⟩
    · obtain ⟨idx, s₂, -, h⟩ := bind_inv h
      obtain ⟨elem, s₃, he, h⟩ := bind_inv h
      obtain ⟨others, s₄, ho, h⟩ := bind_inv h
      obtain ⟨rfl, -⟩ := pure_inv h
      obtain ⟨hlen, hs⟩ := ih ho
      rw [List.length_cons, hlen, shortTable, hd _ _ _ he, hs]
      exact ⟨rfl, rfl⟩

theorem portrdDeserZval_short {depth : Nat} {v : Zval}
    (h : portrdDeserZval wrapperNew depth s = .ok (v, rest)) : v.short = true := by
  induction depth generalizing s v rest with
  | zero => cases h
  | succ depth ih =>
    obtain ⟨tag, s₁, -, h⟩ := bind_inv h
    split at h
    · obtain ⟨rfl, -⟩ := pure_inv h
      rfl
    · obtain ⟨rfl, -⟩ := pure_inv h
      rfl
    · obtain ⟨rfl, -⟩ := pure_inv h
      rfl
    · obtain ⟨n, s₂, -, h⟩ := bind_inv h
      obtain ⟨rfl, -⟩ := pure_inv h
      rfl
    · obtain ⟨bits, s₂, -, h⟩ := bind_inv h
      obtain ⟨rfl, -⟩ := pure_inv h
      rfl
    · obtain ⟨slen, s₂, hsl, h⟩ := bind_inv h
      obtain ⟨sdata, s₃, hs, h⟩ := bind_inv h
      obtain ⟨rfl, -⟩ := pure_inv h
      rw [Zval.short, (take_inv hs).1]
      exact fits_of_le hsl
    · obtain ⟨count, s₂, hc, h⟩ := bind_inv h
      obtain ⟨table, s₃, ht, h⟩ := bind_inv h
      obtain ⟨rfl, -⟩ := pure_inv h
      obtain ⟨hlen, hsh⟩ := portrdMembers_short (fun _ _ _ hv => ih hv) ht
      rw [Zval.short, hlen, fits_of_le hc, hsh]
      rfl
    · obtain ⟨typeTag, s₂, -, h⟩ := bind_inv h
      obtain ⟨sharedId, s₃, -, h⟩ := bind_inv h
      cases hnew : wrapperNew typeTag sharedId with
      | some handle | none =>
        rw [hnew] at h
        obtain ⟨rfl, -⟩ := pure_inv h
        rfl
    · obtain ⟨v, s₂, hv, h⟩ := bind_inv h
      obtain ⟨rfl, -⟩ := pure_inv h
      rw [Zval.short]
      exact ih hv
    · obtain ⟨rfl, -⟩ := pure_inv h
      rfl

end Lengths

/-! ## The round trip -/

section RoundTrip

variable {wrapperNew : UInt8 → SharedId → Option Nat} {wire : Bytes}

theorem portbufToSv_of_reads {sv : SharedValue} (h : Reads svRead wire sv) :
    portbufToSv wire = .ok sv := by
  have hr := h (wire.length + 1) [] (by simp)
  rw [List.append_nil] at hr
  rw [portbufToSv, hr]
  rfl

theorem portableDeserialize_of_reads (h : Reads (portrdDeserZval wrapperNew) wire v) :
    portableDeserialize wrapperNew wire = some v := by
  have hr := h (wire.length + 1) [] (by simp)
  rw [List.append_nil] at hr
  rw [portableDeserialize, hr]

theorem roundTrip_eq (hp : v.plain = true) (hs : v.short = true) :
    roundTrip wrapperNew v = some v.kept := by
  obtain ⟨wire, hw⟩ := serializes v hp
  have hst := portbufToSv_of_reads (reads_stored v hp hs hw)
  have hb : Reads (portrdDeserZval wrapperNew) (svToPortbuf v.stored) v.kept :=
    reads_back v.kept (kept_plain v hp) (kept_short v hs) (ser_kept v hp)
  rw [roundTrip, hw]
  change ((portbufToSv wire).toOption.bind _) = _
  rw [hst]
  exact portableDeserialize_of_reads hb

theorem short_of_roundTrip {v' : Zval} (h : roundTrip wrapperNew v = some v') :
    v'.short = true := by
  obtain ⟨wire, -, h⟩ := Option.bind_eq_some_iff.mp h
  obtain ⟨sv, -, h⟩ := Option.bind_eq_some_iff.mp h
  unfold portableDeserialize at h
  split at h
  · next v rest hr =>
    cases h
    exact portrdDeserZval_short hr
  · cases h

/-- **A plain value comes back from a container as it was** just if its lengths
have 32 bits, its integer keys count from zero and its string keys are
UTF-8. -/
theorem roundTrip_eq_self_iff (wrapperNew : UInt8 → SharedId → Option Nat) (v : Zval)
    (hplain : v.plain = true) :
    roundTrip wrapperNew v = some v ↔ v.short = true ∧ v.keysKept = true := by
  constructor
  · intro h
    have hs := short_of_roundTrip h
    rw [roundTrip_eq hplain hs, Option.some.injEq] at h
    exact ⟨hs, (kept_eq_iff v).mp h⟩
  · rintro ⟨hs, hk⟩
    rw [roundTrip_eq hplain hs, (kept_eq_iff v).mpr hk]

def listUnderKey : Zval :=
  .array [(.string (str "k"), .array [(.index 0, .string [255]), (.index 1, .long (-1))])]

theorem roundTrip_eq_self_iff_listUnderKey :
    listUnderKey.plain = true ∧ roundTrip (fun _ _ => none) listUnderKey = some listUnderKey :=
  ⟨by decide, (roundTrip_eq_self_iff (fun _ _ => none) listUnderKey (by decide)).mpr (by decide)⟩

/-- **Keys are lost**: an integer key that is not its position, and a string key
that is not UTF-8. -/
theorem roundTrip_loses_keys : (Zval.array [(.index 5, .string (str "a"))]).plain = true ∧
      roundTrip (fun _ _ => none) (.array [(.index 5, .string (str "a"))]) =
        some (.array [(.index 0, .string (str "a"))]) ∧
      (Zval.array [(.string [255], .null)]).plain = true ∧
      roundTrip (fun _ _ => none) (.array [(.string [255], .null)]) =
        some (.array [(.string [], .null)]) :=
  ⟨by decide, rfl, by decide, rfl⟩

/-- **Wire forms delimit themselves**: whatever follows, only one plain value can have
been written first. -/
theorem wire_unique {v' : Zval} {wire' rest rest' : Bytes} (hp : v.plain = true)
    (hs : v.short = true) (hp' : v'.plain = true) (hs' : v'.short = true)
    (hw : portbufSerZval v = some wire) (hw' : portbufSerZval v' = some wire')
    (heq : wire ++ rest = wire' ++ rest') : v = v' ∧ rest = rest' := by
  have hr := @reads_back (fun _ _ => none) v wire hp hs hw _ rest (Nat.lt_succ_self _)
  have hr' := @reads_back (fun _ _ => none) v' wire' hp' hs' hw' _ rest' (Nat.lt_succ_self _)
  rw [heq, hr'] at hr
  cases hr
  exact ⟨rfl, rfl⟩

theorem wire_unique_listUnderKey : listUnderKey = listUnderKey ∧ ([7] : Bytes) = [7] :=
  wire_unique (by decide) (by decide) (by decide) (by decide) rfl rfl rfl

end RoundTrip

end OxPhp.Shared
