import OxPhp.Lib.ByteStr

/-!
# Shared values

`plugins/ox_shared/value.rs`: what a `Shared\*` container stores.  A value is a
scalar, an array with its integer-keyed and string-keyed members in separate
runs, or a reference to another entry of the registry, which it keeps alive.
-/

namespace OxPhp.Shared

open ByteStr

/-- Registry ids grow and are never reused. -/
abbrev SharedId := Nat

inductive SharedType where
  | counter
  | flag
  | once
  | atomic
  | map
  | channel
  | mutex
  | pool
  deriving DecidableEq

def SharedType.tag : SharedType → UInt8
  | counter => 10
  | flag => 11
  | once => 12
  | atomic => 13
  | map => 20
  | channel => 31
  | mutex => 40
  | pool => 50

structure SharedRef where
  id : SharedId
  typeTag : SharedType
  deriving DecidableEq

inductive SharedValue where
  | null
  | bool (b : Bool)
  | long (n : Int64)
  | double (bits : UInt64)
  | string (s : Bytes)
  | bytes (s : Bytes)
  | array (intKeyed : List SharedValue) (strKeyed : List (Bytes × SharedValue))
  | shared (ref : SharedRef)

/-! ## References -/

mutual

def collectSharedRefs : SharedValue → List SharedRef
  | .shared ref => [ref]
  | .array intKeyed strKeyed => collectIntKeyed intKeyed ++ collectStrKeyed strKeyed
  | _ => []

def collectIntKeyed : List SharedValue → List SharedRef
  | [] => []
  | v :: rest => collectSharedRefs v ++ collectIntKeyed rest

def collectStrKeyed : List (Bytes × SharedValue) → List SharedRef
  | [] => []
  | (_, v) :: rest => collectSharedRefs v ++ collectStrKeyed rest

end

example : (collectSharedRefs (.array [.shared ⟨4, .map⟩, .long 7]
    [(str "k", .array [.shared ⟨9, .once⟩] [])])).map SharedRef.id = [4, 9] := by decide

/-! ## The wire format -/

def leBytes : Nat → Nat → Bytes
  | 0, _ => []
  | width + 1, n => UInt8.ofNat (n % 256) :: leBytes width (n / 256)

mutual

def svToPortbuf : SharedValue → Bytes
  | .null => [0]
  | .bool true => [1]
  | .bool false => [2]
  | .long n => 3 :: leBytes 8 n.toUInt64.toNat
  | .double bits => 4 :: leBytes 8 bits.toNat
  -- strings and byte strings share a tag
  | .string s => 5 :: leBytes 4 s.length ++ s
  | .bytes s => 5 :: leBytes 4 s.length ++ s
  | .array intKeyed strKeyed =>
    6 :: leBytes 4 (intKeyed.length + strKeyed.length) ++ writeIntKeyed 0 intKeyed ++
      writeStrKeyed strKeyed
  | .shared ref => 7 :: ref.typeTag.tag :: leBytes 8 ref.id

def writeIntKeyed (idx : Nat) : List SharedValue → Bytes
  | [] => []
  | v :: rest => 0 :: leBytes 8 idx ++ svToPortbuf v ++ writeIntKeyed (idx + 1) rest

def writeStrKeyed : List (Bytes × SharedValue) → Bytes
  | [] => []
  | (k, v) :: rest => 1 :: leBytes 4 k.length ++ k ++ svToPortbuf v ++ writeStrKeyed rest

end

example : svToPortbuf (.array [.bool true] [(str "k", .null)]) =
    [6, 2, 0, 0, 0, 0, 0, 0, 0, 0, 0, 0, 0, 0, 1, 1, 1, 0, 0, 0, 107, 0] := by decide

/-! ## Content equality -/

/-- Equality of doubles: no NaN equals anything, and the two zeros are equal. -/
def doubleEq (x y : UInt64) : Bool :=
  let magnitude (b : UInt64) := b.toNat % 2 ^ 63
  let isNan (b : UInt64) := decide (magnitude b > 0x7FF0000000000000)
  !isNan x && !isNan y && (x == y || (magnitude x == 0 && magnitude y == 0))

/-- When `compareAndSet` takes two values for the same. -/
def svContentEq : SharedValue → SharedValue → Bool
  | .null, .null => true
  | .bool x, .bool y => x == y
  | .long x, .long y => x == y
  | .double x, .double y => doubleEq x y
  | .shared x, .shared y => x.id == y.id
  | a, b => svToPortbuf a == svToPortbuf b

/-! ## Errors -/

inductive SharedError where
  | generic
  | staleHandle
  | type
  | capacityExceeded
  | poisoned
  | closed
  | timeout
  | deadlock
  | cycle
  | uninitialized
  | valueTooLarge
  | cancelled
  | panicked
  deriving DecidableEq

/-- An error with the text left in the thread's last-error slot. -/
structure Failure where
  error : SharedError
  message : Bytes
  deriving DecidableEq

end OxPhp.Shared
