import Crabscale.Policy.Cidr

/-!
# The address of a client behind a proxy

A trusted proxy appends the address of its own peer to `X-Forwarded-For`; what stands before that
was written by the client. The client cannot change its address (`client_ip_fixed_iff`) as long as
what the proxy appended is an address. An appended text that is none is skipped, and a byte
outside visible ASCII has the whole header ignored (`client_ip_spoofed`).
-/

namespace Crabscale.Server

open Rust Policy

/-! ## Headers -/

abbrev HeaderValue : Type := List UInt8

/-- `HeaderMap`: a name may occur more than once. -/
abbrev HeaderMap : Type := List (String × HeaderValue)

def HeaderMap.getAll (headers : HeaderMap) (name : String) : List HeaderValue :=
  (headers.filter (·.1 = name)).map Prod.snd

def HeaderMap.get (headers : HeaderMap) (name : String) : Option HeaderValue :=
  (headers.getAll name).head?

def isVisibleAscii (byte : UInt8) : Bool := 32 ≤ byte && byte < 127 || byte = 9

abbrev HeaderValue.Legible (value : HeaderValue) : Prop := value.all isVisibleAscii = true

/-- The characters of a header value, one for each byte. -/
def HeaderValue.chars (value : HeaderValue) : List Char := value.map fun b => Char.ofNat b.toNat

/-- `HeaderValue::to_str`. -/
def HeaderValue.toStr (value : HeaderValue) : Option String :=
  if value.Legible then some (String.ofList value.chars) else none

def xForwardedFor : String := "x-forwarded-for"

def xRealIp : String := "x-real-ip"

/-! ## Trusted proxies -/

/-- A network of the `ipnet` crate. -/
structure IpNet where
  addr : IpAddr
  prefixLen : Nat
  valid : prefixLen ≤ maxBits addr

def IpNet.contains (net : IpNet) (ip : IpAddr) : Bool :=
  ip.isIpv4 = net.addr.isIpv4 && maskAddr ip net.prefixLen = maskAddr net.addr net.prefixLen

structure TrustedProxies where
  networks : List IpNet := []

namespace TrustedProxies

def trusts (proxies : TrustedProxies) (ip : IpAddr) : Bool :=
  proxies.networks.any (·.contains ip)

def isEmpty (proxies : TrustedProxies) : Bool := proxies.networks.isEmpty

end TrustedProxies

/-- The addresses in the text of one header; what is no address is left out. -/
def readAddrs (value : String) : List IpAddr :=
  (split ',' value).filterMap fun part => parseIp (trim part)

def forwardedChain (headers : HeaderMap) : List IpAddr :=
  ((headers.getAll xForwardedFor).filterMap HeaderValue.toStr).flatMap readAddrs

def realIp (headers : HeaderMap) : Option IpAddr :=
  ((headers.get xRealIp).bind HeaderValue.toStr).bind fun value => parseIp (trim value)

namespace TrustedProxies

def resolveClientIp (proxies : TrustedProxies) (peer : IpAddr) (headers : HeaderMap) : IpAddr :=
  if proxies.isEmpty || !proxies.trusts peer then peer
  else
    let chain := forwardedChain headers
    match chain.reverse.find? (!proxies.trusts ·) with
    | some found => found
    -- Everybody in the chain is trusted: its first address, `X-Real-IP`, or the peer.
    | none => (chain.head?.or (realIp headers)).getD peer

end TrustedProxies

/-! ## What the client writes and what the proxy appends -/

/-- The elements of a client, each with its comma, and the one that the proxy appended. -/
def forwardedFor (before : List HeaderValue) (last : HeaderValue) : HeaderValue :=
  before.foldr (fun element rest => element ++ 44 :: rest) last

/-- The address that one element stands for. -/
def HeaderValue.addr (value : HeaderValue) : Option IpAddr :=
  parseIp (trim (String.ofList value.chars))

variable {last : HeaderValue} {before : List HeaderValue}

theorem legible_forwarded_for (hbefore : ∀ element ∈ before, element.Legible) :
    (forwardedFor before last).Legible ↔ last.Legible := by
  induction before with
  | nil => exact Iff.rfl
  | cons element before ih =>
    have helement := hbefore element List.mem_cons_self
    have hcomma : isVisibleAscii 44 = true := by decide
    rw [← ih fun other hother => hbefore other (List.mem_cons_of_mem _ hother)]
    unfold HeaderValue.Legible at helement ⊢
    rw [forwardedFor, List.foldr_cons, List.all_append, List.all_cons, helement, hcomma]
    rfl

theorem read_addrs_append (front back : List Char) :
    readAddrs (String.ofList (front ++ ',' :: back)) =
      readAddrs (String.ofList front) ++ readAddrs (String.ofList back) := by
  simp only [readAddrs, split, String.toList_ofList]
  rw [split_list_append, List.map_append, List.filterMap_append]

/-- The chain ends with what the last element stands for. -/
theorem read_addrs_forwarded_for (before : List HeaderValue) (hlast : ',' ∉ last.chars) :
    readAddrs (String.ofList (forwardedFor before last).chars) =
      before.flatMap (fun element => readAddrs (String.ofList element.chars)) ++
        last.addr.toList := by
  induction before with
  | nil =>
    rw [forwardedFor, List.foldr_nil, readAddrs, split, String.toList_ofList,
      split_list_plain hlast, List.flatMap_nil, List.nil_append]
    unfold HeaderValue.addr
    cases h : parseIp (trim (String.ofList last.chars)) <;> simp [h]
  | cons element before ih =>
    have hchars : (forwardedFor (element :: before) last).chars =
        element.chars ++ ',' :: (forwardedFor before last).chars := by
      simp [forwardedFor, HeaderValue.chars]
    rw [hchars, read_addrs_append, ih, List.flatMap_cons, List.append_assoc]

/-- The headers of a request that came through a proxy. -/
def proxied (before : List HeaderValue) (last : HeaderValue) (others : HeaderMap) : HeaderMap :=
  (xForwardedFor, forwardedFor before last) :: others

variable {others : HeaderMap}

theorem forwarded_chain_proxied (hbefore : ∀ element ∈ before, element.Legible)
    (hlast : ',' ∉ last.chars) (hothers : ∀ header ∈ others, header.1 ≠ xForwardedFor) :
    forwardedChain (proxied before last others) =
      if last.Legible then
        before.flatMap (fun element => readAddrs (String.ofList element.chars)) ++
          last.addr.toList
      else [] := by
  have hvalues : (proxied before last others).getAll xForwardedFor =
      [forwardedFor before last] := by
    rw [HeaderMap.getAll, proxied, List.filter_cons_of_pos (by simp),
      List.filter_eq_nil_iff.mpr (by simpa using hothers)]
    rfl
  have hlegible : (forwardedFor before last).Legible ↔ last.Legible :=
    legible_forwarded_for hbefore
  rw [forwardedChain, hvalues, List.filterMap_cons, HeaderValue.toStr]
  by_cases h : last.Legible
  · rw [if_pos (hlegible.mpr h), if_pos h, ← read_addrs_forwarded_for before hlast]
    simp
  · rw [if_neg (mt hlegible.mp h), if_neg h]
    rfl

theorem real_ip_proxied (before : List HeaderValue) (last : HeaderValue) (others : HeaderMap) :
    realIp (proxied before last others) = realIp others := by
  have hvalues : (proxied before last others).getAll xRealIp = others.getAll xRealIp := by
    have hname : ¬xForwardedFor = xRealIp := by decide
    rw [HeaderMap.getAll, proxied, List.filter_cons_of_neg (by simpa using hname)]
    rfl
  rw [realIp, HeaderMap.get, hvalues]
  rfl

namespace TrustedProxies

variable {proxies : TrustedProxies} {peer : IpAddr}

theorem resolve_trusted (hpeer : proxies.trusts peer = true) (headers : HeaderMap) :
    proxies.resolveClientIp peer headers =
      ((forwardedChain headers).reverse.find? (!proxies.trusts ·)).getD
        (((forwardedChain headers).head?.or (realIp headers)).getD peer) := by
  have hsome : proxies.isEmpty = false := by
    obtain ⟨net, hnet, -⟩ := List.any_eq_true.mp hpeer
    exact List.isEmpty_eq_false_iff.mpr (List.ne_nil_of_mem hnet)
  rw [resolveClientIp, hsome, hpeer, if_neg (by decide)]
  dsimp only
  cases (forwardedChain headers).reverse.find? (!proxies.trusts ·) <;> rfl

/-- The only address of a chain is the answer, trusted or not. -/
theorem resolve_single (hpeer : proxies.trusts peer = true) {headers : HeaderMap} {ip : IpAddr}
    (hchain : forwardedChain headers = [ip]) : proxies.resolveClientIp peer headers = ip := by
  rw [resolve_trusted hpeer, hchain, List.reverse_singleton, List.find?_singleton]
  split <;> rfl

end TrustedProxies

/-- The client cannot change its address, whatever legible elements it sends, just if what the proxy
appends is an address or illegible itself. -/
theorem client_ip_fixed_iff (proxies : TrustedProxies) (peer : IpAddr)
    (hpeer : proxies.trusts peer = true) (last : HeaderValue) (hlast : ',' ∉ last.chars)
    (huntrusted : ∀ ip, last.addr = some ip → proxies.trusts ip = false) (others : HeaderMap)
    (hothers : ∀ header ∈ others, header.1 ≠ xForwardedFor) :
    (∀ before before' : List HeaderValue, (∀ element ∈ before, element.Legible) →
      (∀ element ∈ before', element.Legible) →
      proxies.resolveClientIp peer (proxied before last others) =
        proxies.resolveClientIp peer (proxied before' last others)) ↔
    (last.Legible → last.addr.isSome = true) := by
  constructor
  · intro hfixed hlegible
    rw [Option.isSome_iff_ne_none]
    intro hnone
    -- Two addresses that the client makes up, and that are answered in turn.
    let made (digit : UInt8) : HeaderValue := [digit, 46, digit, 46, digit, 46, digit]
    have hmade (digit : UInt8) (ip : IpAddr) (hvisible : (made digit).Legible)
        (haddrs : readAddrs (String.ofList (made digit).chars) = [ip]) :
        proxies.resolveClientIp peer (proxied [made digit] last others) = ip := by
      refine TrustedProxies.resolve_single hpeer ?_
      rw [forwarded_chain_proxied (by simpa using hvisible) hlast hothers, if_pos hlegible, hnone,
        List.flatMap_singleton, haddrs]
      rfl
    have hone := hmade 49 (.v4 ⟨0x01010101⟩) (by decide) (by decide)
    have htwo := hmade 50 (.v4 ⟨0x02020202⟩) (by decide) (by decide)
    have hsame := hfixed [made 49] [made 50]
      (by decide) (by decide)
    rw [hone, htwo] at hsame
    exact absurd hsame (by decide)
  · intro haddr before before' hbefore hbefore'
    have hanswer (elements : List HeaderValue) (helements : ∀ element ∈ elements, element.Legible) :
        proxies.resolveClientIp peer (proxied elements last others) =
          if last.Legible then last.addr.getD peer
          else (realIp others).getD peer := by
      rw [TrustedProxies.resolve_trusted hpeer, forwarded_chain_proxied helements hlast hothers,
        real_ip_proxied]
      split
      case isTrue hlegible =>
        obtain ⟨ip, hip⟩ := Option.isSome_iff_exists.mp (haddr hlegible)
        rw [hip, Option.toList_some, List.reverse_append, List.reverse_singleton,
          List.singleton_append, List.find?_cons_of_pos (by rw [huntrusted ip hip]; rfl)]
        rfl
      case isFalse => rfl
    rw [hanswer before hbefore, hanswer before' hbefore']

/-- A server that trusts the proxies of one private network. -/
def officeProxies : TrustedProxies :=
  { networks := [{ addr := .v4 ⟨0x0a000000⟩, prefixLen := 8, valid := by decide }] }

def officeProxy : IpAddr := .v4 ⟨0x0a000001⟩

/-- The bytes of an ASCII text. -/
def headerText (text : String) : HeaderValue := text.toList.map fun c => c.toNat.toUInt8

theorem client_ip_fixed_iff_office :
    officeProxies.resolveClientIp officeProxy (proxied [headerText "1.1.1.1"]
        (headerText "198.51.100.7") []) =
      officeProxies.resolveClientIp officeProxy (proxied [headerText "x", headerText "10.0.0.9"]
        (headerText "198.51.100.7") []) := by
  refine (client_ip_fixed_iff officeProxies officeProxy (by decide) (headerText "198.51.100.7")
    (by decide) ?_ [] (by decide)).mpr (fun _ => by decide) _ _ ?_ ?_
  · intro ip hip
    obtain rfl : IpAddr.v4 ⟨0xc6336407⟩ = ip :=
      Option.some.inj (Eq.trans (by decide) hip)
    decide
  · decide
  · decide

/-- A proxy that appends no address lets the client choose one; and a byte outside ASCII hides the
address that the proxy appended. -/
theorem client_ip_spoofed :
    officeProxies.resolveClientIp officeProxy (proxied [headerText "1.1.1.1"]
        (headerText "unknown") []) = .v4 ⟨0x01010101⟩ ∧
      officeProxies.resolveClientIp officeProxy (proxied [headerText "2.2.2.2"]
        (headerText "unknown") []) = .v4 ⟨0x02020202⟩ ∧
      officeProxies.resolveClientIp officeProxy (proxied [headerText "1.1.1.1"]
        (headerText "198.51.100.7") []) = .v4 ⟨0xc6336407⟩ ∧
      officeProxies.resolveClientIp officeProxy (proxied [[0x80]]
        (headerText "198.51.100.7") []) = officeProxy := by
  decide

end Crabscale.Server
