import OxPhp.Lib.ByteStr

/-!
# Requests and responses

The parts of an HTTP message that static serving and compression read and write.
A field that may come in several lines is the list of them, in order; a field
that is read with `get` is its first line.
-/

namespace OxPhp.Server

open ByteStr

inductive Method where
  | get
  | head
  | other
  deriving DecidableEq

structure RequestHeaders where
  range : List Bytes
  ifRange : Option Bytes
  ifNoneMatch : Option Bytes
  ifModifiedSince : Option Bytes
  acceptEncoding : List Bytes
  deriving DecidableEq

def toStr (value : Bytes) : Option Bytes :=
  if value.all fun b => (32 ≤ b && b < 127) || b == 9 then some value else none

/-- `ResponseBody`: bytes held whole, or a stream and what it has yielded so far. -/
inductive Body where
  | full (bytes : Bytes)
  | stream (yielded : Bytes)
  deriving DecidableEq

namespace Body

def exact : Body → Option Nat
  | full bytes => some bytes.length
  | stream _ => none

def bytes : Body → Bytes
  | full bytes => bytes
  | stream yielded => yielded

@[simp] theorem bytes_full (bytes : Bytes) : (full bytes).bytes = bytes := rfl
@[simp] theorem bytes_stream (yielded : Bytes) : (stream yielded).bytes = yielded := rfl

end Body

structure Response where
  status : Nat
  contentType : Option Bytes := none
  contentLength : Option Nat := none
  contentRange : Option Bytes := none
  acceptRanges : Option Bytes := none
  vary : List Bytes := []
  etag : Option Bytes := none
  lastModified : Option Bytes := none
  cacheControl : Option Bytes := none
  contentEncoding : Option Bytes := none
  body : Body
  deriving DecidableEq

def plainText (status : Nat) (text : String) : Response :=
  { status, contentType := some (str "text/plain; charset=utf-8"), body := .full (str text) }

end OxPhp.Server
