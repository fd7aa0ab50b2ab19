import Crabscale.Rust.NetText

/-!
# Addresses and networks written as strings

Parsing of `addr` and `addr/bits`, the masks, and membership of an address in a network:
`addr_in_cidr_iff` is agreement on the leading bits, and rewriting a network keeps its addresses
(`lies_in_normalize`, `lies_in_canonical`).
-/

namespace Crabscale.Policy

open Rust

def maxBits (ip : IpAddr) : Nat := if ip.isIpv4 then 32 else 128

/-- An address or network string as an address and a number of leading bits. -/
def parseCidr (s : String) : Option (IpAddr × Nat) :=
  match parseIp s with
  | some ip => some (ip, maxBits ip)
  | none => do
      let (addr, bits) ← splitOnce '/' s
      let ip ← parseIp addr
      let bits ← parseU8 bits
      if bits > maxBits ip then none else some (ip, bits)

/-- The mask of the `bits` leading bits of a `w`-bit word, as `mask_u32` and `mask_u128`. -/
def mask (w bits : Nat) : BitVec w :=
  if bits = 0 then 0 else BitVec.allOnes w <<< (w - bits)

/-- Whether the address string `addr` falls inside the network string `net`. -/
def addrInCidr (addr net : String) : Bool :=
  match parseCidr addr with
  | none => false
  | some (addrIp, _) =>
    match parseCidr net with
    | none => false
    | some (netIp, bits) =>
      match addrIp, netIp with
      | .v4 a, .v4 n => (a.bits &&& mask 32 (min bits 32)) == (n.bits &&& mask 32 (min bits 32))
      | .v6 a, .v6 n =>
        (a.bits &&& mask 128 (min bits 128)) == (n.bits &&& mask 128 (min bits 128))
      | _, _ => false

/-- Whether `s` is an address or a network string. -/
def isIpOrCidrStr (s : String) : Bool :=
  if (parseIp s).isSome then true
  else
    match splitOnce '/' s with
    | none => false
    | some (addr, bits) =>
      match parseIp addr with
      | none => false
      | some ip =>
        match parseU8 bits with
        | none => false
        | some bits => bits ≤ maxBits ip

/-- Write a bare address as a network of one host. -/
def normalizeCidr (s : String) : String :=
  match parseIp s with
  | some ip => ip.display ++ "/" ++ toString (maxBits ip)
  | none => s

def maskAddr (ip : IpAddr) (bits : Nat) : IpAddr :=
  match ip with
  | .v4 a => .v4 ⟨a.bits &&& mask 32 bits⟩
  | .v6 a => .v6 ⟨a.bits &&& mask 128 bits⟩

def canonicalRoute (s : String) : Option String := do
  let (ip, bits) ← parseCidr s
  some ((maskAddr ip bits).display ++ "/" ++ toString bits)

/-! ## Networks as sets of addresses -/

/-- Two addresses of one family agree on their first `bits` bits. -/
def SameNetwork (bits : Nat) : IpAddr → IpAddr → Prop
  | .v4 a, .v4 b => ∀ i < bits, a.bits.getMsbD i = b.bits.getMsbD i
  | .v6 a, .v6 b => ∀ i < bits, a.bits.getMsbD i = b.bits.getMsbD i
  | _, _ => False

/-- The address written by `addr` lies in the network written by `net`. -/
def LiesIn (addr net : String) : Prop :=
  ∃ ip addrBits network bits, parseCidr addr = some (ip, addrBits) ∧
    parseCidr net = some (network, bits) ∧ SameNetwork bits ip network

/-- `addr` is written as a single host: an address with all of its bits. -/
def IsHost (addr : String) : Prop := ∃ ip, parseCidr addr = some (ip, maxBits ip)

instance (addr : String) : Decidable (IsHost addr) :=
  decidable_of_iff ((parseCidr addr).any fun parsed => parsed.2 == maxBits parsed.1) (by
    cases h : parseCidr addr with
    | none => simp [IsHost, h]
    | some parsed =>
      obtain ⟨ip, bits⟩ := parsed
      simp [IsHost, h])

variable {bits : Nat}

theorem get_msb_mask {w i : Nat} (hbits : bits ≤ w) :
    (mask w bits).getMsbD i = decide (i < bits) := by
  unfold mask
  split
  case isTrue hzero => simp [hzero]
  case isFalse hpos =>
    rw [BitVec.getMsbD_shiftLeft, BitVec.getMsbD_allOnes]
    exact decide_eq_decide.mpr (by omega)

theorem and_mask_eq_iff {w : Nat} (hbits : bits ≤ w) (a b : BitVec w) :
    a &&& mask w bits = b &&& mask w bits ↔ ∀ i < bits, a.getMsbD i = b.getMsbD i := by
  constructor
  · intro h i hi
    have hbit := congrArg (fun v : BitVec w => v.getMsbD i) h
    simpa only [BitVec.getMsbD_and, get_msb_mask hbits, decide_eq_true hi, Bool.and_true]
      using hbit
  · intro h
    apply BitVec.eq_of_getMsbD_eq
    intro i _
    rw [BitVec.getMsbD_and, BitVec.getMsbD_and, get_msb_mask hbits]
    by_cases hi : i < bits
    · rw [h i hi]
    · simp [hi]

variable {s : String}

theorem parse_cidr_bits_le {ip : IpAddr}
    (h : parseCidr s = some (ip, bits)) : bits ≤ maxBits ip := by
  unfold parseCidr at h
  split at h
  · simp only [Option.some.injEq, Prod.mk.injEq] at h
    obtain ⟨rfl, rfl⟩ := h
    exact le_rfl
  · simp only [Option.bind_eq_bind, Option.bind_eq_some_iff, Option.ite_none_left_eq_some,
      Option.some.injEq, Prod.mk.injEq] at h
    obtain ⟨parts, -, ip', -, bits', -, hle, rfl, rfl⟩ := h
    omega

theorem addr_in_cidr_iff {addr net : String} : addrInCidr addr net = true ↔ LiesIn addr net := by
  unfold addrInCidr LiesIn
  cases haddr : parseCidr addr with
  | none => simp
  | some host =>
    cases hnet : parseCidr net with
    | none => simp
    | some network =>
      obtain ⟨ip, addrBits⟩ := host
      obtain ⟨netIp, bits⟩ := network
      have hbits := parse_cidr_bits_le hnet
      cases ip <;> cases netIp <;> simp only [maxBits, IpAddr.isIpv4, SameNetwork,
          beq_iff_eq, Bool.false_eq_true, if_true, if_false] at hbits ⊢ <;>
        simp [and_mask_eq_iff, hbits]

theorem same_network_max_bits {a b : IpAddr} (h : SameNetwork (maxBits b) a b) : a = b := by
  cases a <;> cases b <;> simp only [SameNetwork, maxBits, IpAddr.isIpv4, if_true] at h <;>
    first
    | exact h.elim
    | (congr 1
       rename_i a b
       cases a; cases b
       simp only at h
       congr 1
       exact BitVec.eq_of_getMsbD_eq fun i hi => h i hi)

theorem same_network_refl (bits : Nat) (a : IpAddr) : SameNetwork bits a a := by
  cases a <;> exact fun _ _ => rfl

/-- Words that agree with one word on some leading bits agree with another one on some leading bits
if and only if the two do, and these are not more bits. -/
theorem forall_agree_iff {w shared : Nat} (hshared : shared ≤ w) (hbits : bits ≤ w)
    (a b : BitVec w) :
    (∀ x : BitVec w, (∀ i < shared, x.getMsbD i = a.getMsbD i) →
      ∀ i < bits, x.getMsbD i = b.getMsbD i) ↔
    (∀ i < bits, a.getMsbD i = b.getMsbD i) ∧ bits ≤ shared := by
  constructor
  · intro h
    have hagree := h a fun _ _ => rfl
    refine ⟨hagree, Nat.le_of_not_lt fun hlt => ?_⟩
    -- The word with the next bit flipped agrees with the first word and not with the second.
    have hflip (i : Nat) (hi : i < w) : (a ^^^ BitVec.twoPow w (w - 1 - shared)).getMsbD i =
        (a.getMsbD i ^^ decide (i = shared)) := by
      rw [BitVec.getMsbD_xor, BitVec.getMsbD_twoPow, ← Bool.decide_and]
      congr 1
      exact decide_eq_decide.mpr (by omega)
    have hother := h (a ^^^ BitVec.twoPow w (w - 1 - shared)) (fun i hi => ?_) shared hlt
    · rw [hflip shared (by omega), decide_eq_true rfl, Bool.xor_true, hagree shared hlt] at hother
      exact Bool.not_ne_self _ hother
    · rw [hflip i (by omega), decide_eq_false (Nat.ne_of_lt hi), Bool.xor_false]
  · rintro ⟨hagree, hle⟩ x hx i hi
    exact (hx i (Nat.lt_of_lt_of_le hi hle)).trans (hagree i hi)

theorem same_network_subset_iff {a b : IpAddr} {shared : Nat} (hshared : shared ≤ maxBits a)
    (hbits : bits ≤ maxBits b) :
    (∀ ip, SameNetwork shared ip a → SameNetwork bits ip b) ↔
      SameNetwork bits a b ∧ bits ≤ shared := by
  cases a with
  | v4 a =>
    cases b with
    | v4 b =>
      refine Iff.trans ⟨fun h x hx => h (.v4 ⟨x⟩) hx, fun h ip hip => ?_⟩
        (forall_agree_iff hshared hbits a.bits b.bits)
      cases ip with
      | v4 ip => exact h ip.bits hip
      | v6 ip => exact hip.elim
    | v6 b => exact iff_of_false (fun h => h _ (same_network_refl shared _)) fun h => h.1
  | v6 a =>
    cases b with
    | v4 b => exact iff_of_false (fun h => h _ (same_network_refl shared _)) fun h => h.1
    | v6 b =>
      refine Iff.trans ⟨fun h x hx => h (.v6 ⟨x⟩) hx, fun h ip hip => ?_⟩
        (forall_agree_iff hshared hbits a.bits b.bits)
      cases ip with
      | v4 ip => exact hip.elim
      | v6 ip => exact h ip.bits hip

/-! ## Written forms -/

theorem is_ip_or_cidr_iff : isIpOrCidrStr s = true ↔ (parseCidr s).isSome = true := by
  unfold isIpOrCidrStr parseCidr
  cases hip : parseIp s with
  | some ip => simp
  | none =>
    cases hsplit : splitOnce '/' s with
    | none => simp
    | some parts =>
      obtain ⟨addr, bits⟩ := parts
      cases haddr : parseIp addr with
      | none => simp [haddr]
      | some ip => cases hbits : parseU8 bits <;> simp [haddr, hbits]

theorem parse_cidr_display {ip : IpAddr} (hbits : bits ≤ maxBits ip) :
    parseCidr (ip.display ++ "/" ++ toString bits) = some (ip, bits) := by
  have hslash : AddressEnds ("/" ++ toString bits).toList := by
    intro c hc
    obtain rfl : '/' = c := by simpa using hc
    decide
  have hip : parseIp (ip.display ++ ("/" ++ toString bits)) = none := by
    rw [parse_ip_display_append ip _ hslash, if_neg]
    intro h
    simpa using congrArg String.toList h
  have hsplit : splitOnce '/' (ip.display ++ ("/" ++ toString bits)) =
      some (ip.display, toString bits) := by
    refine split_once_eq_some.mpr ⟨by simp, ?_⟩
    intro hmem
    exact absurd (parse_ip_chars (parse_ip_display ip) '/' hmem) (by decide)
  have hnumber : parseU8 (toString bits) = some bits := by
    have hall : ∀ bits ≤ 128, parseU8 (toString bits) = some bits := by decide +kernel
    have hmax : maxBits ip ≤ 128 := by cases ip <;> simp [maxBits, IpAddr.isIpv4]
    exact hall bits (hbits.trans hmax)
  rw [String.append_assoc, parseCidr, hip, hsplit]
  simp only [Option.bind_eq_bind, Option.bind_some, parse_ip_display, hnumber]
  rw [if_neg (by omega)]

theorem parse_cidr_normalize (s : String) : parseCidr (normalizeCidr s) = parseCidr s := by
  unfold normalizeCidr
  cases hip : parseIp s with
  | none => rfl
  | some ip =>
    dsimp only
    rw [parse_cidr_display le_rfl, parseCidr, hip]

theorem lies_in_normalize {addr net : String} : LiesIn addr (normalizeCidr net) ↔
    LiesIn addr net := by
  simp only [LiesIn, parse_cidr_normalize]

theorem same_network_mask {ip network : IpAddr} (hbits : bits ≤ maxBits network) :
    SameNetwork bits ip (maskAddr network bits) ↔ SameNetwork bits ip network := by
  have hmask {w : Nat} (hw : bits ≤ w) (v : BitVec w) (i : Nat) (hi : i < bits) :
      (v &&& mask w bits).getMsbD i = v.getMsbD i := by
    rw [BitVec.getMsbD_and, get_msb_mask hw, decide_eq_true hi, Bool.and_true]
  cases ip <;> cases network <;>
    simp only [SameNetwork, maskAddr, maxBits, IpAddr.isIpv4, Bool.false_eq_true, if_true, if_false]
      at hbits ⊢
  all_goals exact forall₂_congr fun i hi => by rw [hmask hbits _ i hi]

theorem lies_in_canonical {addr net canonical : String} (h : canonicalRoute net = some canonical) :
    LiesIn addr canonical ↔ LiesIn addr net := by
  simp only [canonicalRoute, Option.bind_eq_bind, Option.bind_eq_some_iff, Prod.exists,
    Option.some.injEq] at h
  obtain ⟨network, bits, hnet, rfl⟩ := h
  have hbits := parse_cidr_bits_le hnet
  have hmax : maxBits (maskAddr network bits) = maxBits network := by cases network <;> rfl
  have hcanonical : parseCidr ((maskAddr network bits).display ++ "/" ++ toString bits) =
      some (maskAddr network bits, bits) := parse_cidr_display (hmax ▸ hbits)
  simp only [LiesIn, hcanonical, hnet, Option.some.injEq, Prod.mk.injEq]
  constructor
  · rintro ⟨ip, addrBits, _, _, haddr, ⟨rfl, rfl⟩, hsame⟩
    exact ⟨ip, addrBits, network, bits, haddr, ⟨rfl, rfl⟩, (same_network_mask hbits).mp hsame⟩
  · rintro ⟨ip, addrBits, _, _, haddr, ⟨rfl, rfl⟩, hsame⟩
    exact ⟨ip, addrBits, _, bits, haddr, ⟨rfl, rfl⟩, (same_network_mask hbits).mpr hsame⟩

/-! ## Networks by their masked address -/

def networkOf (s : String) : Option (IpAddr × Nat) :=
  (parseCidr s).map fun parsed => (maskAddr parsed.1 parsed.2, parsed.2)

def showNetwork (network : IpAddr × Nat) : String :=
  network.1.display ++ "/" ++ toString network.2

theorem canonical_route_eq (s : String) : canonicalRoute s = (networkOf s).map showNetwork := by
  unfold canonicalRoute networkOf
  cases parseCidr s <;> rfl

theorem mask_addr_mask (ip : IpAddr) (bits : Nat) :
    maskAddr (maskAddr ip bits) bits = maskAddr ip bits := by
  cases ip <;> simp only [maskAddr, BitVec.and_assoc, BitVec.and_self]

theorem network_of_show {network : IpAddr × Nat} (h : networkOf s = some network) :
    networkOf (showNetwork network) = some network := by
  obtain ⟨⟨ip, bits⟩, hparsed, rfl⟩ := Option.map_eq_some_iff.mp h
  have hmax : maxBits (maskAddr ip bits) = maxBits ip := by cases ip <;> rfl
  have hbits : bits ≤ maxBits (maskAddr ip bits) := hmax ▸ parse_cidr_bits_le hparsed
  rw [networkOf, showNetwork, parse_cidr_display hbits, Option.map_some, mask_addr_mask]

theorem canonical_route_canonical {route : String} (h : canonicalRoute s = some route) :
    canonicalRoute route = some route := by
  rw [canonical_route_eq] at h
  obtain ⟨network, hnetwork, rfl⟩ := Option.map_eq_some_iff.mp h
  rw [canonical_route_eq, network_of_show hnetwork, Option.map_some]

theorem show_network_inj {t : String} {a b : IpAddr × Nat} (ha : networkOf s = some a)
    (hb : networkOf t = some b) (h : showNetwork a = showNetwork b) : a = b := by
  have hsame := network_of_show ha
  rw [h, network_of_show hb] at hsame
  exact (Option.some.inj hsame).symm

def isNetworkChar (c : Char) : Bool := isAddressChar c || c == '/' || c == '+'

theorem parse_cidr_chars (h : (parseCidr s).isSome = true) :
    ∀ c ∈ s.toList, isNetworkChar c = true := by
  have haddress {s : String} {ip : IpAddr} (hip : parseIp s = some ip) :
      ∀ c ∈ s.toList, isNetworkChar c = true :=
    fun c hc => by simp [isNetworkChar, parse_ip_chars hip c hc]
  have hnumber {s : String} {n : Nat} (hn : parseU8 s = some n) :
      ∀ c ∈ s.toList, isNetworkChar c = true := by
    intro c hc
    rcases chars_of_parse_unsigned hn c hc with hdigit | rfl
    · simp [isNetworkChar, isAddressChar, to_digit_mono (by omega : 10 ≤ 16) hdigit]
    · decide
  unfold parseCidr at h
  cases hip : parseIp s with
  | some ip => exact haddress hip
  | none =>
    rw [hip] at h
    simp only [Option.bind_eq_bind, Option.isSome_bind, Option.any_eq_true] at h
    obtain ⟨⟨addr, bits⟩, hsplit, ip, haddr, n, hbits, -⟩ := h
    rw [(split_once_eq_some.mp hsplit).1]
    intro c hc
    rcases List.mem_append.mp hc with hc | hc
    · exact haddress haddr c hc
    · rcases List.mem_cons.mp hc with rfl | hc
      · decide
      · exact hnumber hbits c hc

end Crabscale.Policy
