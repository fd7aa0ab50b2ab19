import Crabscale.Rust.Collections

/-!
# Wire types of the control protocol

JSON values, and the requests, responses and nested objects of the protocol. A record keeps the
fields that the control plane reads, writes or compares; a group of fields that it only hands on is
one JSON value (`Hostinfo.other`, `NetInfo.other`, the regions of a DERP map).
-/

namespace Crabscale.Proto

open Rust

inductive JsonValue where
  | null
  | bool (value : Bool)
  | number (literal : String)
  | string (value : String)
  | array (items : List JsonValue)
  | object (fields : List (String × JsonValue))

namespace JsonValue

-- The derive handler does not reach through the nested lists, so equality is decided by hand.
mutual

def decEq : (a b : JsonValue) → Decidable (a = b)
  | null, null => isTrue rfl
  | bool a, bool b => decidable_of_iff (a = b) (by simp)
  | number a, number b => decidable_of_iff (a = b) (by simp)
  | string a, string b => decidable_of_iff (a = b) (by simp)
  | array a, array b => @decidable_of_iff _ (a = b) (by simp) (decEqItems a b)
  | object a, object b => @decidable_of_iff _ (a = b) (by simp) (decEqFields a b)
  | null, bool _ | null, number _ | null, string _ | null, array _ | null, object _
  | bool _, null | bool _, number _ | bool _, string _ | bool _, array _ | bool _, object _
  | number _, null | number _, bool _ | number _, string _ | number _, array _
  | number _, object _ | string _, null | string _, bool _ | string _, number _
  | string _, array _ | string _, object _ | array _, null | array _, bool _
  | array _, number _ | array _, string _ | array _, object _ | object _, null
  | object _, bool _ | object _, number _ | object _, string _ | object _, array _ =>
    isFalse (by simp)

def decEqItems : (a b : List JsonValue) → Decidable (a = b)
  | [], [] => isTrue rfl
  | [], _ :: _ => isFalse (by simp)
  | _ :: _, [] => isFalse (by simp)
  | a :: as, b :: bs =>
    match decEq a b with
    | isFalse h => isFalse (by simp [h])
    | isTrue h => @decidable_of_iff _ (as = bs) (by simp [h]) (decEqItems as bs)

def decEqFields : (a b : List (String × JsonValue)) → Decidable (a = b)
  | [], [] => isTrue rfl
  | [], _ :: _ => isFalse (by simp)
  | _ :: _, [] => isFalse (by simp)
  | (k, a) :: as, (l, b) :: bs =>
    if hk : k = l then
      match decEq a b with
      | isFalse h => isFalse (by simp [h])
      | isTrue h => @decidable_of_iff _ (as = bs) (by simp [hk, h]) (decEqFields as bs)
    else isFalse (by simp [hk])

end

instance : DecidableEq JsonValue := decEq

end JsonValue

/-! ## Keys -/

structure NodeKey where
  bytes : BitVec 256
  deriving DecidableEq, Inhabited

structure MachineKey where
  bytes : BitVec 256
  deriving DecidableEq, Inhabited

structure DiscoKey where
  bytes : BitVec 256
  deriving DecidableEq, Inhabited

/-! ## Host information -/

/-- Network state reported by a client. -/
structure NetInfo where
  preferredDerp : Nat := 0
  other : JsonValue := .null
  deriving DecidableEq

/-- Host state reported by a client. -/
structure Hostinfo where
  hostname : String := ""
  routableIps : Option (List String) := none
  requestTags : Option (List String) := none
  netInfo : Option NetInfo := none
  other : JsonValue := .null
  deriving DecidableEq

/-! ## DNS, DERP and SSH objects -/

structure DnsResolver where
  addr : String := ""
  bootstrapResolution : List String := []
  deriving DecidableEq

/-- A static DNS record. The model names its `class` field `recClass`. -/
structure DnsRecord where
  name : String := ""
  recType : String := ""
  recClass : Nat := 0
  ttl : Nat := 0
  value : String := ""
  deriving DecidableEq

structure DnsConfig where
  resolvers : List DnsResolver := []
  routes : BTreeMap String (List DnsResolver) := ∅
  searchDomains : List String := []
  domains : List String := []
  proxied : Bool := false
  magicDnsSuffix : String := ""
  extraRecords : List DnsRecord := []
  deriving DecidableEq

/-- The relay servers of the network. -/
structure DerpMap where
  regions : BTreeMap String JsonValue := ∅
  omitDefaultRegions : Bool := false
  deriving DecidableEq

structure SshPrincipal where
  node : String := ""
  userLogin : String := ""
  any : Bool := false
  deriving DecidableEq

structure SshAction where
  message : String := ""
  reject : Bool := false
  accept : Bool := false
  holdAndDelegate : String := ""
  allowAgentForwarding : Bool := false
  allowLocalPortForwarding : Bool := false
  allowRemotePortForwarding : Bool := false
  deriving DecidableEq

structure WireSshRule where
  principals : List SshPrincipal := []
  sshUsers : BTreeMap String String := ∅
  action : Option SshAction := none
  deriving DecidableEq

structure SshPolicy where
  rules : List WireSshRule := []
  deriving DecidableEq

/-! ## Packet filters -/

structure NetPortRange where
  first : Nat
  last : Nat
  deriving DecidableEq

structure CapGrant where
  dsts : List String := []
  capMap : BTreeMap String (List JsonValue) := ∅
  deriving DecidableEq

structure FilterRule where
  srcIps : List String := []
  dstPorts : List NetPortRange := []
  srcBits : Option (List Int) := none
  ipProto : Option (List Int) := none
  capGrant : List CapGrant := []
  deriving DecidableEq

/-! ## The network map -/

/-- A node as sent to clients (`Node` of the wire, `WireNode` in the control plane). -/
structure WireNode where
  id : Nat := 0
  stableId : String := ""
  name : String := ""
  user : Nat := 0
  key : NodeKey := default
  machine : MachineKey := default
  discoKey : DiscoKey := default
  addresses : List String := []
  allowedIps : Option (List String) := none
  endpoints : List String := []
  homeDerp : Nat := 0
  hostinfo : Option Hostinfo := none
  created : String := ""
  cap : Nat := 0
  tags : Option (List String) := none
  primaryRoutes : List String := []
  lastSeen : Option String := none
  online : Option Bool := none
  machineAuthorized : Bool := false
  capabilities : List String := []
  capMap : BTreeMap String (List JsonValue) := ∅
  deriving DecidableEq

structure PeerChange where
  nodeId : Nat := 0
  derpRegion : Option Nat := none
  endpoints : Option (List String) := none
  key : Option NodeKey := none
  discoKey : Option DiscoKey := none
  online : Option Bool := none
  lastSeen : Option String := none
  keyExpiry : Option String := none
  cap : Option Nat := none
  deriving DecidableEq

structure UserProfile where
  id : Nat := 0
  loginName : String := ""
  displayName : String := ""
  profilePicUrl : String := ""
  groups : List String := []
  deriving DecidableEq

structure MapRequest where
  version : Nat := 0
  compress : String := ""
  keepAlive : Bool := false
  nodeKey : NodeKey := default
  discoKey : DiscoKey := default
  stream : Bool := false
  hostinfo : Option Hostinfo := none
  endpoints : List String := []
  endpointTypes : List Nat := []
  omitPeers : Bool := false
  readOnly : Bool := false
  deriving DecidableEq

/-- A full network map or an update to one; an omitted field means unchanged. -/
structure MapResponse where
  keepAlive : Bool := false
  node : Option WireNode := none
  derpMap : Option DerpMap := none
  domain : String := ""
  dns : Option DnsConfig := none
  peers : Option (List WireNode) := none
  peersChanged : Option (List WireNode) := none
  peersRemoved : Option (List Nat) := none
  peersChangedPatch : Option (List PeerChange) := none
  peerSeenChange : Option (BTreeMap Nat Bool) := none
  onlineChange : Option (BTreeMap Nat Bool) := none
  packetFilter : Option (List FilterRule) := none
  packetFilters : Option (BTreeMap String (List FilterRule)) := none
  userProfiles : List UserProfile := []
  sshPolicy : Option SshPolicy := none
  controlTime : String := ""
  deriving DecidableEq

/-! ## Registration -/

structure RegisterAuth where
  authKey : String := ""
  deriving DecidableEq

structure RegisterRequest where
  version : Nat := 0
  nodeKey : NodeKey := default
  auth : Option RegisterAuth := none
  expiry : String := ""
  followup : String := ""
  hostinfo : Option Hostinfo := none
  ephemeral : Bool := false
  deriving DecidableEq

structure RegisterResponse where
  user : Nat := 0
  login : Nat := 0
  nodeKeyExpired : Bool := false
  machineAuthorized : Bool := false
  authUrl : String := ""
  error : String := ""
  deriving DecidableEq

/-! ## Capability versions -/

/-- The lowest capability version that the control plane serves. -/
def minSupportedCapver : Nat := 113

def streamingReadOnlyCapver : Nat := 68

/-- Clients prefer the incremental packet filter map from this version on. -/
def packetFiltersCapver : Nat := 81

/-- An absent allowed-IP list means "same as the addresses" from this version on. -/
def allowedIpsNullCapver : Nat := 112

def streamingReadOnly (version : Nat) : Bool := version ≥ streamingReadOnlyCapver

def prefersIncrementalPacketFilters (version : Nat) : Bool := version ≥ packetFiltersCapver

def allowedIpsNullMeansAddresses (version : Nat) : Bool := version ≥ allowedIpsNullCapver

end Crabscale.Proto
