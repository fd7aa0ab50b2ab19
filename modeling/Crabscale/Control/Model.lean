import Crabscale.Policy.Routes
import Crabscale.Policy.Ssh

/-!
# Domain model of the control plane

The stored entities, the errors with their texts, and as fields of `Externals`, of which nothing is
assumed here, the third-party parts: RFC 3339 timestamps, hashes of key secrets and the encoding of
frames. Row and node ids are natural numbers, timestamps whole Unix seconds. At the end the
configuration, with the DNS settings and address ranges that are derived from it.
-/

namespace Crabscale.Control

open Rust Proto Policy

/-! ## Entities -/

structure User where
  id : Nat
  loginName : String
  displayName : String
  createdAt : String
  deriving DecidableEq

/-- A way in which a user signs in. -/
structure Login where
  id : Nat
  userId : Nat
  provider : String
  loginName : String
  createdAt : String
  deriving DecidableEq

structure Node where
  id : Nat
  stableId : String
  name : String
  userId : Option Nat
  nodeKey : NodeKey
  machineKey : MachineKey
  discoKey : DiscoKey
  addresses : List String
  allowedIps : Option (List String)
  endpoints : List String
  endpointTypes : List Nat
  homeDerp : Nat
  hostinfo : Option Hostinfo
  created : String
  cap : Nat
  tags : Option (List String)
  advertisedRoutes : List String
  approvedRoutes : List String
  machineAuthorized : Bool
  ephemeral : Bool
  lastSeen : Option String
  keyExpiry : Option String
  deriving DecidableEq

def Node.toProto (node : Node) : WireNode :=
  { id := node.id
    stableId := node.stableId
    name := node.name
    user := node.userId.getD 0
    key := node.nodeKey
    machine := node.machineKey
    discoKey := node.discoKey
    addresses := node.addresses
    allowedIps := node.allowedIps
    endpoints := node.endpoints
    homeDerp := node.homeDerp
    hostinfo := node.hostinfo
    created := node.created
    cap := node.cap
    tags := node.tags
    lastSeen := node.lastSeen
    machineAuthorized := node.machineAuthorized }

structure PreAuthKey where
  id : Nat
  keyPrefix : String
  secretHash : String
  reusable : Bool
  ephemeral : Bool
  expiration : Option String
  revoked : Bool
  used : Bool
  tags : Option (List String)
  userId : Nat
  createdAt : String
  deriving DecidableEq

/-- The state of an interactive registration. -/
inductive PendingVerdict where
  | pending
  | approved (userId : Nat) (tags : Option (List String))
  | rejected
  deriving DecidableEq

structure PendingRegistration where
  authId : String
  machineKey : MachineKey
  nodeKey : NodeKey
  hostinfo : Option Hostinfo
  expiry : String
  version : Nat
  ephemeral : Bool
  createdAt : String
  expiresAt : String
  verdict : PendingVerdict
  deriving DecidableEq

inductive SshVerdict where
  | pending
  | accepted (lastAuthAt : String)
  | rejected
  deriving DecidableEq

structure SshAuth where
  authId : String
  srcNodeId : Nat
  dstNodeId : Nat
  sshUser : String
  localUser : String
  machineKey : MachineKey
  createdAt : String
  expiresAt : String
  verdict : SshVerdict
  deriving DecidableEq

/-- A user as an OpenID Connect provider describes them. -/
structure OidcProfile where
  subject : String
  email : String
  displayName : String
  deriving DecidableEq

/-! ## Errors -/

inductive StoreError where
  | notFound
  | sqlite (message : String)
  deriving DecidableEq

def StoreError.display : StoreError → String
  | .notFound => "entity not found"
  | .sqlite message => "sqlite error: " ++ message

inductive ControlError where
  | notFound
  | unsupportedVersion (version : Nat)
  | store (message : String)
  | ipAllocation
  | json
  | frame
  | zstd
  | invalidAuthKey (message : String)
  | invalidEndpointTypes
  | policy (message : String)
  | unauthorizedTags (tags : List String)
  | invalidRoute (route : String)
  | unauthorized
  | sshBinding (authId : String)
  | timeout
  deriving DecidableEq

def ControlError.display : ControlError → String
  | .notFound => "node not found or machine key mismatch"
  | .unsupportedVersion version => "unsupported capability version " ++ toString version
  | .store message => "store error: " ++ message
  | .ipAllocation => "no free tailnet IP available"
  | .json => "failed to serialize JSON"
  | .frame => "failed to frame MapResponse"
  | .zstd => "failed to compress MapResponse"
  | .invalidAuthKey message => "invalid auth key: " ++ message
  | .invalidEndpointTypes => "endpoint_types length does not match endpoints length"
  | .policy message => "policy error: " ++ message
  | .unauthorizedTags tags => "requested tags are not permitted: " ++ ", ".intercalate tags
  | .invalidRoute route => "invalid route `" ++ route ++ "`: expected an IP or CIDR"
  | .unauthorized => "unauthorized: machine key mismatch"
  | .sshBinding authId => "SSH auth binding mismatch for `" ++ authId ++ "`"
  | .timeout => "timed out waiting for an SSH approval"

/-! ## Third-party code -/

/-- The third-party functions the control plane calls: `chrono` formatting and parsing of RFC 3339
timestamps in whole Unix seconds, the BLAKE2b-512 digest, whether a response fails to encode (JSON,
compression, framing), and, if an OpenID Connect provider is configured, its authorization URL for a
state and a nonce. -/
structure Externals where
  formatRfc3339 : Int → String
  parseFromRfc3339 : String → Option Int
  blake2b512 : List UInt8 → List UInt8
  encodeError : MapResponse → (compress : Bool) → Option ControlError
  oidc : Option ((state nonce : String) → Option String) := none

namespace Externals

variable (ext : Externals)

def parseRfc3339 (s : String) : Option Int := ext.parseFromRfc3339 (trim s)

/-- Whether a timestamp lies before another; malformed ones do not. -/
def isPast (ts now : String) : Bool :=
  match ext.parseRfc3339 ts, ext.parseRfc3339 now with
  | some a, some b => a < b
  | _, _ => false

/-- Whether a timestamp lies after another; malformed ones do not. -/
def isFuture (ts now : String) : Bool :=
  match ext.parseRfc3339 ts, ext.parseRfc3339 now with
  | some a, some b => a > b
  | _, _ => false

end Externals

/-! ## Pre-auth keys -/

def authKeyPrefix : String := "hskey-auth-"

def formatAuthKey (keyPrefix secret : String) : String :=
  authKeyPrefix ++ keyPrefix ++ "-" ++ secret

def parseAuthKey (key : String) : Option (String × String) := do
  let rest ← stripPrefix authKeyPrefix key
  let (keyPrefix, secret) ← splitOnce '-' rest
  if keyPrefix = "" || secret = "" then none else some (keyPrefix, secret)

/-- Two lower-case hexadecimal digits per byte. -/
def hexEncode (bytes : List UInt8) : String :=
  String.ofList (bytes.flatMap fun b =>
    [Nat.digitChar (b.toNat / 16), Nat.digitChar (b.toNat % 16)])

/-- Read bytes written as two hexadecimal digits each. -/
def hexDecode (s : String) : Option (List UInt8) :=
  go s.toList
where
  go : List Char → Option (List UInt8)
    | [] => some []
    | [_] => none
    | hi :: lo :: rest => do
        let hi ← toDigit 16 hi
        let lo ← toDigit 16 lo
        let bytes ← go rest
        some (UInt8.ofNat (hi * 16 + lo) :: bytes)

def asBytes (s : String) : List UInt8 := s.toList.flatMap String.utf8EncodeChar

def hashSecret (ext : Externals) (salt : List UInt8) (secret : String) : String :=
  hexEncode salt ++ "$" ++ hexEncode (ext.blake2b512 (salt ++ asBytes secret))

def verifySecret (ext : Externals) (secret stored : String) : Bool :=
  match splitOnce '$' stored with
  | none => false
  | some (saltHex, hashHex) =>
    match hexDecode saltHex with
    | none => false
    | some salt => hexEncode (ext.blake2b512 (salt ++ asBytes secret)) == hashHex

/-! ## Small helpers of the control plane -/

def controlTime : String := "2026-08-20T00:00:00Z"

def requestedTags (hostinfo : Option Hostinfo) : List String :=
  (hostinfo.bind Hostinfo.requestTags).getD []

/-- The routes a client advertises, in canonical form. -/
def routeList (hostinfo : Option Hostinfo) : List String :=
  sortDedup (((hostinfo.bind Hostinfo.routableIps).getD []).filterMap canonicalRoute)

def authIdFromFollowup (followup : String) : Option String := do
  let id ← afterLast "/register/" followup
  if id = "" then none else some id

/-! ## Configuration -/

/-- DNS settings; whether extra records are read from a file does not matter here, since loading
them is one of the changes made from outside. -/
structure DnsSettings where
  magicDns : Bool := true
  magicDnsIpv4 : Option Ipv4Addr := none
  magicDnsIpv6 : Option Ipv6Addr := none
  searchDomains : List String := []
  splitDns : BTreeMap String (List String) := ∅

/-- The default IPv4 prefix `100.64.0.0`. -/
def defaultIpv4Prefix : Ipv4Addr := ⟨0x64400000⟩

/-- The default IPv6 prefix `fd7a:115c:a1e0::`. -/
def defaultIpv6Prefix : Ipv6Addr := ⟨0xfd7a115ca1e000000000000000000000⟩

structure ControlConfig where
  authKey : String := "hskey-auth-test-secret"
  tailnetDomain : String := "tailnet.example"
  derpMap : DerpMap
  policy : Policy := {}
  userId : Nat := 1
  loginId : Nat := 1
  userLoginName : String := "owner@example.com"
  userDisplayName : String := "Owner"
  ipv4Prefix : Ipv4Addr := defaultIpv4Prefix
  ipv4PrefixLen : Nat := 10
  ipv6Prefix : Ipv6Addr := defaultIpv6Prefix
  ipv6PrefixLen : Nat := 48
  serverUrl : String := "https://tailnet.example"
  pendingTtlSeconds : Int := 15 * 60
  pendingCacheLimit : Nat := 1024
  reconnectGraceSeconds : Int := 10
  dns : DnsSettings := {}
  changeBatchMax : Nat := 64

/-! ## DNS -/

/-- The default MagicDNS resolver `100.100.100.100`. -/
def defaultMagicDnsIpv4 : Ipv4Addr := ⟨0x64646464⟩

/-- The default MagicDNS resolver `fd7a:115c:a1e0::100`. -/
def defaultMagicDnsIpv6 : Ipv6Addr := ⟨0xfd7a115ca1e000000000000000000100⟩

def defaultExtraRecordTtl : Nat := 300

/-- Whether a prefix contains an address, for words of `w` bits. -/
def prefixContains {w : Nat} (network : BitVec w) (len : Nat) (ip : BitVec w) : Bool :=
  if len = 0 then true
  else if len > w then false
  else (network &&& mask w len) == (ip &&& mask w len)

def ipv4LastHost (network : Ipv4Addr) (len : Nat) : Ipv4Addr :=
  if len = 0 || len ≥ 31 then network
  else ⟨(network.bits &&& mask 32 len) + (1 <<< (32 - len)) - 2⟩

def ipv6LastHost (network : Ipv6Addr) (len : Nat) : Ipv6Addr :=
  if len = 0 || len ≥ 128 then network
  else ⟨(network.bits &&& mask 128 len) + (1 <<< (128 - len)) - 1⟩

def deriveMagicDnsIpv4 (network : Ipv4Addr) (len : Nat) : Ipv4Addr :=
  if prefixContains network.bits len defaultMagicDnsIpv4.bits then defaultMagicDnsIpv4
  else ipv4LastHost network len

def deriveMagicDnsIpv6 (network : Ipv6Addr) (len : Nat) : Ipv6Addr :=
  if prefixContains network.bits len defaultMagicDnsIpv6.bits then defaultMagicDnsIpv6
  else ipv6LastHost network len

def nodeName (node : WireNode) : String :=
  if node.name = "" then node.name
  else if node.name.toList.getLast? = some '.' then node.name
  else node.name ++ "."

def splitAddress (address : String) : Option (String × String) := do
  let ipLiteral ← (split '/' address).head?
  let ip ← parseIp ipLiteral
  some (ipLiteral, if ip.isIpv4 then "A" else "AAAA")

def nodeRecord (node : WireNode) (address : String) : Option DnsRecord := do
  let (ip, family) ← splitAddress address
  some { name := nodeName node, recType := family, recClass := 1, ttl := defaultExtraRecordTtl,
         value := ip }

namespace DnsSettings

def domains (dns : DnsSettings) (tailnetDomain : String) : List String :=
  dns.searchDomains.foldl
    (fun domains domain => if domain ∈ domains then domains else domains ++ [domain])
    (if dns.magicDns then [tailnetDomain] else [])

def build (dns : DnsSettings) (tailnetDomain : String) (magicDnsIpv4 : Ipv4Addr)
    (magicDnsIpv6 : Ipv6Addr) (nodes : List WireNode) (extraRecords : List DnsRecord) : DnsConfig :=
  let suffix := tailnetDomain ++ "."
  let routes : BTreeMap String (List DnsResolver) :=
    dns.splitDns.map fun _ addrs => addrs.map fun addr => { addr }
  let domains := dns.domains tailnetDomain
  if dns.magicDns then
    let resolvers : List DnsResolver :=
      [{ addr := magicDnsIpv4.display }, { addr := magicDnsIpv6.display }]
    { routes := routes.alter suffix fun route => some (route.getD [] ++ resolvers)
      domains
      searchDomains := domains
      resolvers
      proxied := true
      magicDnsSuffix := suffix
      extraRecords :=
        (nodes.flatMap fun node => node.addresses.filterMap (nodeRecord node)) ++ extraRecords }
  else { routes, domains, searchDomains := domains }

end DnsSettings

/-! ## Address ranges -/

/-- The first address and the number of addresses to draw from an IPv4 prefix: all but the network
and the broadcast address. -/
def ipv4HostRange (network : Ipv4Addr) (len : Nat) : Option (Nat × Nat) :=
  if len = 0 || len > 32 then none
  else
    let hostBits := 32 - len
    if hostBits < 2 then none
    else some ((network.bits &&& mask 32 len).toNat + 1, 2 ^ hostBits - 2)

/-- The first address and the number of addresses to draw from an IPv6 prefix: all but the first. -/
def ipv6HostRange (network : Ipv6Addr) (len : Nat) : Option (Nat × Nat) :=
  if len = 0 || len > 128 then none
  else
    let hostBits := 128 - len
    if hostBits < 1 then none
    else some ((network.bits &&& mask 128 len).toNat + 1, 2 ^ hostBits - 1)

end Crabscale.Control
