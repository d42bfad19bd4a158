import OxPhp.Lib.ByteStr

/-!
# Client addresses behind trusted proxies

`handlers/trusted_proxy.rs` with the trust tests of `config/proxy.rs`.  Addresses
are an arbitrary type, a network is a predicate on them, and parsing an address is
an arbitrary partial function.
-/

namespace OxPhp.Handlers

open ByteStr

/-! ## Headers -/

/-- Header lines in the order received, names in lower case. -/
abbrev HeaderMap := List (Bytes × Bytes)

def HeaderMap.getAll (headers : HeaderMap) (name : Bytes) : List Bytes :=
  headers.filterMap fun line => if line.1 = name then some line.2 else none

def HeaderMap.get (headers : HeaderMap) (name : Bytes) : Option Bytes :=
  (headers.getAll name).head?

/-- A header value is readable as text when it is visible ASCII or tabs. -/
def isReadable (value : Bytes) : Bool := value.all fun b => (32 ≤ b && b < 127) || b == 9

def toStr (value : Bytes) : Option Bytes := if isReadable value then some value else none

/-! ## Trust -/

variable {Ip : Type}

structure TrustedProxyConfig (Ip : Type) where
  networks : List (Ip → Bool)
  cloudflare : List (Ip → Bool)

namespace TrustedProxyConfig

variable (config : TrustedProxyConfig Ip)

def isCloudflare (ip : Ip) : Bool := config.cloudflare.any (· ip)

def isTrusted (ip : Ip) : Bool := config.networks.any (· ip) || config.isCloudflare ip

/-- One of the operator's own proxies: trusted, and not a Cloudflare edge. -/
def isOwnProxy (ip : Ip) : Bool := !config.isCloudflare ip && config.networks.any (· ip)

end TrustedProxyConfig

/-! ## Reading the chain -/

/-- An address with the source port, where the node carried one. -/
abbrev Hop (Ip : Type) := Ip × Option Nat

def parsePort (s : Bytes) : Option Nat := (parseUnsigned 16 s).filter (0 < ·)

section Parse

variable (parseIp : Bytes → Option Ip)

/-- One `for=` node or `X-Forwarded-For` entry: `[ipv6]:port`, `[ipv6]`, a bare
address or `ipv4:port`. -/
def parseForwardedFor (val : Bytes) : Option (Hop Ip) :=
  match trim (trimMatches (· == 34) val) with
  | 91 :: rest => do
    let (ipPart, after) ← splitOnce 93 rest
    let ip ← parseIp ipPart
    let port := match after with
      | 58 :: p => parsePort p
      | _ => none
    return (ip, port)
  | val =>
    match parseIp val with
    | some ip => some (ip, none)
    | none => do
      let (ipPart, portPart) ← rsplitOnce 58 val
      let ip ← parseIp ipPart
      return (ip, parsePort portPart)

structure ForwardedEntry (Ip : Type) where
  forwardedFor : Option Ip := none
  forwardedForPort : Option Nat := none
  proto : Option Bytes := none
  host : Option Bytes := none

def ForwardedEntry.readPair (entry : ForwardedEntry Ip) (pair : Bytes) : ForwardedEntry Ip :=
  match splitOnce 61 (trim pair) with
  | none => entry
  | some (key, val) =>
    let key := (trim key).map toAsciiLower
    let val := trim val
    if key = str "for" then
      match parseForwardedFor parseIp val with
      | some (ip, port) => { entry with forwardedFor := some ip, forwardedForPort := port }
      | none => entry
    else if key = str "proto" then { entry with proto := some val }
    else if key = str "host" then { entry with host := some val }
    else entry

def parseElement (element : Bytes) : ForwardedEntry Ip :=
  (element.splitOn 59).foldl (ForwardedEntry.readPair parseIp) {}

def parseForwarded (value : Bytes) : List (ForwardedEntry Ip) :=
  (value.splitOn comma).map (parseElement parseIp)

def ForwardedEntry.hop (entry : ForwardedEntry Ip) : Option (Hop Ip) :=
  entry.forwardedFor.map fun ip => (ip, entry.forwardedForPort)

def lineText (value : Bytes) : Bytes := (toStr value).getD []

def forwardedCombined (headers : HeaderMap) : Option Bytes :=
  let values := (headers.getAll (str "forwarded")).map lineText
  if values.isEmpty then none else some ((str ", ").intercalate values)

def xForwardedForHops (headers : HeaderMap) : List (Option (Hop Ip)) :=
  ((headers.getAll (str "x-forwarded-for")).flatMap fun v => (lineText v).splitOn comma).map
    fun s => parseForwardedFor parseIp (trim s)

end Parse

/-- A forwarding chain: the hops right of the last one without an address. -/
structure Chain (Ip : Type) where
  hops : List (Hop Ip)

/-- A hop with an address is pushed, one without empties the chain. -/
def Chain.push (chain : Chain Ip) : Option (Hop Ip) → Chain Ip
  | some hop => { hops := chain.hops ++ [hop] }
  | none => { hops := [] }

def Chain.fromHops (hops : List (Option (Hop Ip))) : Chain Ip :=
  hops.foldl Chain.push { hops := [] }

/-! ## The handler -/

structure RequestReceived (Ip : Type) where
  remoteAddr : Ip × Nat
  headers : HeaderMap
  metadata : List (Bytes × Bytes)

namespace TrustedProxyConfig

variable (config : TrustedProxyConfig Ip)

/-- Whether the first hop outside the operator's own proxies, walking left from
the peer, is a Cloudflare edge. -/
def cameThroughCloudflare (peer : Ip) (hops : List (Hop Ip)) : Bool :=
  match (peer :: hops.reverse.map Prod.fst).find? fun ip => !config.isOwnProxy ip with
  | some ip => config.isCloudflare ip
  | none => false

/-- The rightmost hop that is not trusted, and the leftmost one when all are. -/
def extractClientIp (hops : List (Hop Ip)) : Option (Hop Ip) :=
  match hops.reverse.find? fun hop => !config.isTrusted hop.1 with
  | some hop => some hop
  | none => hops.head?

end TrustedProxyConfig

section Handle

variable (parseIp : Bytes → Option Ip)

/-- The `CF-Connecting-IP` address, when there is exactly one such line. -/
def cfConnectingIp (headers : HeaderMap) : Option Ip :=
  match headers.getAll (str "cf-connecting-ip") with
  | [value] => (toStr value).bind fun text => parseIp (trim text)
  | _ => none

/-- The client's address, or `none` to leave the peer in place. -/
def resolveClient (config : TrustedProxyConfig Ip) (peer : Ip) (headers : HeaderMap)
    (chain : Chain Ip) : Option (Hop Ip) :=
  let cloudflare :=
    if config.cameThroughCloudflare peer chain.hops then cfConnectingIp parseIp headers else none
  match cloudflare with
  | some ip => some (ip, none)
  | none => config.extractClientIp chain.hops

def requestChain (headers : HeaderMap) : Chain Ip :=
  match forwardedCombined headers with
  | some value => .fromHops ((parseForwarded parseIp value).map ForwardedEntry.hop)
  | none => .fromHops (xForwardedForHops parseIp headers)

def requestMetadata (headers : HeaderMap) : List (Bytes × Bytes) :=
  let pushed (key : Bytes) (value : Option Bytes) := (value.map fun v => (key, v)).toList
  match forwardedCombined headers with
  | some value =>
    let first := (parseForwarded parseIp value).head?
    pushed (str "forwarded_proto") (first.bind ForwardedEntry.proto) ++
      pushed (str "forwarded_host") (first.bind ForwardedEntry.host)
  | none =>
    let text (name : Bytes) := ((headers.get name).bind toStr).map trim
    pushed (str "forwarded_proto") (text (str "x-forwarded-proto")) ++
      pushed (str "forwarded_host") (text (str "x-forwarded-host")) ++
      pushed (str "forwarded_port")
        ((text (str "x-forwarded-port")).filter fun s => (parsePort s).isSome)

/-- Handle a request: behind a trusted peer, take the client's address and the
metadata from the forwarding headers. -/
def handle (config : TrustedProxyConfig Ip) (event : RequestReceived Ip) : RequestReceived Ip :=
  let peer := event.remoteAddr.1
  if !config.isTrusted peer then event
  else
    let chain := requestChain parseIp event.headers
    { event with
      metadata := event.metadata ++ requestMetadata parseIp event.headers
      remoteAddr := (resolveClient parseIp config peer event.headers chain).elim event.remoteAddr
        fun client => (client.1, client.2.getD 0) }

end Handle

end OxPhp.Handlers
