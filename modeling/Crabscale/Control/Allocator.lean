import Crabscale.Control.Convergence
import Crabscale.Control.Operations

/-!
# The addresses that the allocator gives out

`allocate` draws one address of each family: a host address of its prefix that is not in use
(`allocate_spec`). The MagicDNS resolver gets addresses in the same prefixes, of which the allocator
knows nothing; `allocate_spares_resolver_iff` says for which prefixes the two never meet.
-/

namespace Crabscale.Control

open Rust Proto Policy Interaction Interaction.Program ControlPlane

/-! ## Addresses of a prefix -/

section Masks

variable {w len : Nat}

theorem and_mask_eq_shift (hpos : 0 < len) (x : BitVec w) :
    x &&& mask w len = (x >>> (w - len)) <<< (w - len) := by
  rw [mask, if_neg (Nat.ne_of_gt hpos)]
  ext i hi
  simp only [BitVec.getElem_and, BitVec.getElem_shiftLeft, BitVec.getElem_allOnes]
  by_cases h : i < w - len
  · simp [h]
  · simp [h]
    rw [Nat.add_sub_cancel' (Nat.le_of_not_lt h), BitVec.getLsbD_eq_getElem hi]

theorem to_nat_and_mask (hpos : 0 < len) (x : BitVec w) :
    (x &&& mask w len).toNat = x.toNat / 2 ^ (w - len) * 2 ^ (w - len) := by
  rw [and_mask_eq_shift hpos, BitVec.toNat_shiftLeft, BitVec.toNat_ushiftRight,
    Nat.shiftRight_eq_div_pow, Nat.shiftLeft_eq]
  exact Nat.mod_eq_of_lt (Nat.lt_of_le_of_lt (Nat.div_mul_le_self _ _) x.isLt)

theorem to_nat_mask (hpos : 0 < len) (hlen : len ≤ w) :
    (mask w len).toNat = 2 ^ w - 2 ^ (w - len) := by
  have hpow : 2 ^ w = 2 ^ (w - len) * 2 ^ len := by rw [← Nat.pow_add, Nat.sub_add_cancel hlen]
  have h := to_nat_and_mask hpos (BitVec.allOnes w)
  rw [BitVec.allOnes_and, BitVec.toNat_allOnes, hpow,
    Nat.mul_sub_div 0 _ _ (Nat.mul_pos (Nat.two_pow_pos _) (Nat.two_pow_pos _)), Nat.zero_div,
    Nat.zero_add, Nat.sub_one_mul, Nat.mul_comm (2 ^ len)] at h
  rw [h, hpow]

def networkAddress (network : BitVec w) (len : Nat) : BitVec w := network &&& mask w len

def broadcastAddress (network : BitVec w) (len : Nat) : BitVec w := network ||| ~~~mask w len

theorem to_nat_broadcast (hpos : 0 < len) (hlen : len ≤ w) (network : BitVec w) :
    (broadcastAddress network len).toNat =
      (networkAddress network len).toNat + (2 ^ (w - len) - 1) := by
  have hsplit : broadcastAddress network len = (network &&& mask w len) ||| ~~~mask w len := by
    unfold broadcastAddress
    ext i hi
    simp only [BitVec.getElem_or, BitVec.getElem_and, BitVec.getElem_not]
    cases network[i] <;> cases (mask w len)[i] <;> rfl
  have hzero : (network &&& mask w len) &&& ~~~mask w len = 0#w := by
    ext i hi
    simp only [BitVec.getElem_and, BitVec.getElem_not, BitVec.getElem_zero]
    cases network[i] <;> cases (mask w len)[i] <;> rfl
  have hle : 2 ^ (w - len) ≤ 2 ^ w := Nat.pow_le_pow_right Nat.zero_lt_two (Nat.sub_le w len)
  rw [hsplit, ← BitVec.add_eq_or_of_and_eq_zero _ _ hzero, BitVec.toNat_add_of_and_eq_zero hzero,
    BitVec.toNat_not, to_nat_mask hpos hlen, networkAddress]
  omega

/-- The addresses of a prefix are the first one and those that follow it, one for each setting of
the host bits. -/
theorem prefix_contains_iff (hpos : 0 < len) (hlen : len ≤ w) (network ip : BitVec w) :
    prefixContains network len ip = true ↔
      ∃ k < 2 ^ (w - len), ip.toNat = (networkAddress network len).toNat + k := by
  have hhosts := Nat.two_pow_pos (w - len)
  rw [prefixContains, if_neg (Nat.ne_of_gt hpos), if_neg (Nat.not_lt.mpr hlen), beq_iff_eq,
    ← BitVec.toNat_inj, networkAddress, to_nat_and_mask hpos, to_nat_and_mask hpos]
  constructor
  · intro hsame
    refine ⟨ip.toNat % 2 ^ (w - len), Nat.mod_lt _ hhosts, ?_⟩
    rw [hsame, Nat.mul_comm, Nat.div_add_mod]
  · rintro ⟨k, hk, hip⟩
    rw [hip, Nat.mul_comm (network.toNat / _), Nat.mul_add_div hhosts, Nat.div_eq_of_lt hk,
      Nat.add_zero, Nat.mul_comm]

theorem network_add_le (hpos : 0 < len) (hlen : len ≤ w) (network : BitVec w) :
    (networkAddress network len).toNat + 2 ^ (w - len) ≤ 2 ^ w := by
  have hlast := (broadcastAddress network len).isLt
  rw [to_nat_broadcast hpos hlen] at hlast
  have hhosts := Nat.two_pow_pos (w - len)
  omega

theorem to_nat_of_nat_network (hpos : 0 < len) (hlen : len ≤ w) (network : BitVec w) {k : Nat}
    (hk : k < 2 ^ (w - len)) :
    (BitVec.ofNat w ((networkAddress network len).toNat + k)).toNat =
      (networkAddress network len).toNat + k := by
  have hend := network_add_le hpos hlen network
  rw [BitVec.toNat_ofNat]
  exact Nat.mod_eq_of_lt (by omega)

end Masks

/-! ## Host addresses -/

structure Ipv4Host (network : Ipv4Addr) (len : Nat) (ip : Ipv4Addr) : Prop where
  inside : prefixContains network.bits len ip.bits = true
  notNetwork : ip.bits ≠ networkAddress network.bits len
  notBroadcast : ip.bits ≠ broadcastAddress network.bits len

structure Ipv6Host (network : Ipv6Addr) (len : Nat) (ip : Ipv6Addr) : Prop where
  inside : prefixContains network.bits len ip.bits = true
  notNetwork : ip.bits ≠ networkAddress network.bits len

variable {len : Nat}

theorem ipv4_host_range_eq_some {network : Ipv4Addr} {first count : Nat} :
    ipv4HostRange network len = some (first, count) ↔
      0 < len ∧ len ≤ 30 ∧ first = (networkAddress network.bits len).toNat + 1 ∧
        count = 2 ^ (32 - len) - 2 := by
  unfold ipv4HostRange networkAddress
  by_cases hzero : len = 0
  · simp [hzero]
  by_cases hlong : 30 < len
  · have : 32 < len ∨ 32 - len < 2 := by omega
    grind
  · have : ¬32 < len := by omega
    have : ¬32 - len < 2 := by omega
    grind

variable {network : Ipv6Addr}

theorem ipv6_host_range_eq_some {first count : Nat} :
    ipv6HostRange network len = some (first, count) ↔
      0 < len ∧ len ≤ 127 ∧ first = (networkAddress network.bits len).toNat + 1 ∧
        count = 2 ^ (128 - len) - 1 := by
  unfold ipv6HostRange networkAddress
  by_cases hzero : len = 0
  · simp [hzero]
  by_cases hlong : 127 < len
  · have : 128 < len ∨ 128 - len < 1 := by omega
    grind
  · have : ¬128 < len := by omega
    have : ¬128 - len < 1 := by omega
    grind

theorem ipv4_host_iff {network ip : Ipv4Addr} (hpos : 0 < len) (hlen : len ≤ 32) :
    Ipv4Host network len ip ↔ ∃ k, 0 < k ∧ k < 2 ^ (32 - len) - 1 ∧
      ip.bits.toNat = (networkAddress network.bits len).toNat + k := by
  constructor
  · rintro ⟨hinside, hnetwork, hbroadcast⟩
    obtain ⟨k, hk, hip⟩ := (prefix_contains_iff hpos hlen _ _).mp hinside
    rw [Ne, ← BitVec.toNat_inj] at hnetwork hbroadcast
    rw [to_nat_broadcast hpos hlen] at hbroadcast
    exact ⟨k, by omega, by omega, hip⟩
  · rintro ⟨k, hk, hlast, hip⟩
    refine ⟨(prefix_contains_iff hpos hlen _ _).mpr ⟨k, by omega, hip⟩, ?_, ?_⟩
    · rw [Ne, ← BitVec.toNat_inj]
      omega
    · rw [Ne, ← BitVec.toNat_inj, to_nat_broadcast hpos hlen]
      omega

theorem ipv6_host_iff {ip : Ipv6Addr} (hpos : 0 < len) (hlen : len ≤ 128) :
    Ipv6Host network len ip ↔ ∃ k, 0 < k ∧ k < 2 ^ (128 - len) ∧
      ip.bits.toNat = (networkAddress network.bits len).toNat + k := by
  constructor
  · rintro ⟨hinside, hnetwork⟩
    obtain ⟨k, hk, hip⟩ := (prefix_contains_iff hpos hlen _ _).mp hinside
    rw [Ne, ← BitVec.toNat_inj] at hnetwork
    exact ⟨k, by omega, hk, hip⟩
  · rintro ⟨k, hk, hlast, hip⟩
    refine ⟨(prefix_contains_iff hpos hlen _ _).mpr ⟨k, hlast, hip⟩, ?_⟩
    rw [Ne, ← BitVec.toNat_inj]
    omega

theorem ipv4_host_last {network : Ipv4Addr} (hpos : 0 < len) (hlen : len ≤ 30) :
    Ipv4Host network len (ipv4LastHost network len) := by
  rw [ipv4_host_iff hpos (by omega)]
  have hhosts : 2 ^ 2 ≤ 2 ^ (32 - len) := Nat.pow_le_pow_right Nat.zero_lt_two (by omega)
  have hend := network_add_le hpos (by omega) network.bits
  refine ⟨2 ^ (32 - len) - 2, by omega, by omega, ?_⟩
  have hlast : ipv4LastHost network len =
      ⟨networkAddress network.bits len + BitVec.ofNat 32 (1 <<< (32 - len)) - 2#32⟩ := by
    rw [ipv4LastHost, if_neg (by simp; omega), networkAddress]
    rfl
  rw [hlast, BitVec.toNat_sub, BitVec.toNat_add, BitVec.toNat_ofNat, BitVec.toNat_ofNat,
    Nat.shiftLeft_eq]
  omega

theorem ipv6_host_last (hpos : 0 < len) (hlen : len ≤ 127) :
    Ipv6Host network len (ipv6LastHost network len) := by
  rw [ipv6_host_iff hpos (by omega)]
  have hhosts : 2 ^ 1 ≤ 2 ^ (128 - len) := Nat.pow_le_pow_right Nat.zero_lt_two (by omega)
  have hend := network_add_le hpos (by omega) network.bits
  refine ⟨2 ^ (128 - len) - 1, by omega, by omega, ?_⟩
  have hlast : ipv6LastHost network len =
      ⟨networkAddress network.bits len + BitVec.ofNat 128 (1 <<< (128 - len)) - 1#128⟩ := by
    rw [ipv6LastHost, if_neg (by simp; omega), networkAddress]
    rfl
  rw [hlast, BitVec.toNat_sub, BitVec.toNat_add, BitVec.toNat_ofNat, BitVec.toNat_ofNat,
    Nat.shiftLeft_eq]
  omega

theorem ipv4_host_range_iff {network ip : Ipv4Addr} {first count : Nat}
    (hrange : ipv4HostRange network len = some (first, count)) :
    (∃ offset < count, ip = ⟨BitVec.ofNat 32 (first + offset)⟩) ↔ Ipv4Host network len ip := by
  obtain ⟨hpos, hlen, rfl, rfl⟩ := ipv4_host_range_eq_some.mp hrange
  have hlen : len ≤ 32 := by omega
  rw [ipv4_host_iff hpos hlen]
  constructor
  · rintro ⟨offset, hoffset, rfl⟩
    refine ⟨offset + 1, by omega, by omega, ?_⟩
    rw [Nat.add_assoc, Nat.add_comm 1, to_nat_of_nat_network hpos hlen _ (by omega)]
  · rintro ⟨k, hk, hlast, hip⟩
    refine ⟨k - 1, by omega, ?_⟩
    have hsum : (networkAddress network.bits len).toNat + 1 + (k - 1) = ip.bits.toNat := by omega
    rw [hsum, BitVec.ofNat_toNat, BitVec.setWidth_eq]

theorem ipv6_host_range_iff {ip : Ipv6Addr} {first count : Nat}
    (hrange : ipv6HostRange network len = some (first, count)) :
    (∃ offset < count, ip = ⟨BitVec.ofNat 128 (first + offset)⟩) ↔ Ipv6Host network len ip := by
  obtain ⟨hpos, hlen, rfl, rfl⟩ := ipv6_host_range_eq_some.mp hrange
  have hlen : len ≤ 128 := by omega
  rw [ipv6_host_iff hpos hlen]
  constructor
  · rintro ⟨offset, hoffset, rfl⟩
    refine ⟨offset + 1, by omega, by omega, ?_⟩
    rw [Nat.add_assoc, Nat.add_comm 1, to_nat_of_nat_network hpos hlen _ (by omega)]
  · rintro ⟨k, hk, hlast, hip⟩
    refine ⟨k - 1, by omega, ?_⟩
    have hsum : (networkAddress network.bits len).toNat + 1 + (k - 1) = ip.bits.toNat := by omega
    rw [hsum, BitVec.ofNat_toNat, BitVec.setWidth_eq]

/-! ## Allocation -/

/-- Draw a free address of each family. -/
def ControlPlane.allocate (cp : ControlPlane) (usedIpv4 : List Ipv4Addr)
    (usedIpv6 : List Ipv6Addr) :
    ControlM (Ipv4Addr × Ipv6Addr) := do
  let ipv4 ← cp.allocateIpv4 usedIpv4
  let ipv6 ← cp.allocateIpv6 usedIpv6
  return (ipv4, ipv6)

variable {cp : ControlPlane}

theorem create_node_allocates (machineKey : MachineKey) (request : RegisterRequest) (userId : Nat)
    (tags : Option (List String)) (ephemeral : Bool) (now : String) :
    cp.createNodeFromRequest machineKey request userId tags ephemeral now = (do
      let nodes ← store .listNodes
      let (ipv4, ipv6) ←
        cp.allocate (ControlPlane.usedIpv4 nodes) (ControlPlane.usedIpv6 nodes)
      return cp.newNode machineKey request userId tags ephemeral now ipv4 ipv6) := by
  simp only [createNodeFromRequest, allocate, bind_assoc, pure_bind]

/-- Addresses that the allocator may give out. -/
structure Allotted (cp : ControlPlane) (usedIpv4 : List Ipv4Addr) (usedIpv6 : List Ipv6Addr)
    (ipv4 : Ipv4Addr) (ipv6 : Ipv6Addr) : Prop where
  lengthIpv4 : 0 < cp.config.ipv4PrefixLen ∧ cp.config.ipv4PrefixLen ≤ 30
  lengthIpv6 : 0 < cp.config.ipv6PrefixLen ∧ cp.config.ipv6PrefixLen ≤ 127
  hostIpv4 : Ipv4Host cp.config.ipv4Prefix cp.config.ipv4PrefixLen ipv4
  freeIpv4 : ipv4 ∉ usedIpv4
  hostIpv6 : Ipv6Host cp.config.ipv6Prefix cp.config.ipv6PrefixLen ipv6
  freeIpv6 : ipv6 ∉ usedIpv6

variable {G : World → Call → Prop}

theorem draw_free_in_range {α : Type} [DecidableEq α] (hG : AllowsQuiet G)
    (ofNat : Nat → α) {first count : Nat} (hcount : 0 < count) (used : List α) (attempts : Nat)
    (R : Db → Prop) :
    Triple handler G (fun w => R w.db) (ControlPlane.drawFree ofNat first count used attempts)
      (fun value w => R w.db ∧ (∃ offset < count, value = ofNat (first + offset)) ∧ value ∉ used)
      (fun error _ => error = .ipAllocation) := by
  induction attempts with
  | zero => exact triple_throw fun _ _ => rfl
  | succ attempts ih =>
    refine Triple.bind (M := fun offset w => R w.db ∧ offset < count)
      (triple_perform (fun w _ => hG w _ trivial) fun _ h => ⟨h, Nat.mod_lt _ hcount⟩)
      fun offset => ?_
    dsimp only
    split
    · exact ih.pre fun _ h => h.1
    case isFalse hfree =>
      exact triple_pure fun _ h => ⟨h.1, ⟨offset, h.2, rfl⟩, hfree⟩

theorem allocate_ipv4_host (hG : AllowsQuiet G) (used : List Ipv4Addr) (R : Db → Prop) :
    Triple handler G (fun w => R w.db) (cp.allocateIpv4 used)
      (fun ip w => R w.db ∧ (0 < cp.config.ipv4PrefixLen ∧ cp.config.ipv4PrefixLen ≤ 30) ∧
        Ipv4Host cp.config.ipv4Prefix cp.config.ipv4PrefixLen ip ∧ ip ∉ used)
      (fun error _ => error = .ipAllocation) := by
  unfold allocateIpv4
  cases hrange : ipv4HostRange cp.config.ipv4Prefix cp.config.ipv4PrefixLen with
  | none => exact triple_throw fun _ _ => rfl
  | some range =>
    obtain ⟨first, count⟩ := range
    obtain ⟨hpos, hlen, -, hcount⟩ := ipv4_host_range_eq_some.mp hrange
    have hhosts : 2 ^ 2 ≤ 2 ^ (32 - cp.config.ipv4PrefixLen) :=
      Nat.pow_le_pow_right Nat.zero_lt_two (by omega)
    refine (draw_free_in_range hG _ (by omega) used _ R).weaken (fun _ h => h) ?_ fun _ _ h => h
    rintro ip w ⟨hR, hdrawn, hfree⟩
    exact ⟨hR, ⟨hpos, hlen⟩, (ipv4_host_range_iff hrange).mp hdrawn, hfree⟩

theorem allocate_ipv6_host (hG : AllowsQuiet G) (used : List Ipv6Addr) (R : Db → Prop) :
    Triple handler G (fun w => R w.db) (cp.allocateIpv6 used)
      (fun ip w => R w.db ∧ (0 < cp.config.ipv6PrefixLen ∧ cp.config.ipv6PrefixLen ≤ 127) ∧
        Ipv6Host cp.config.ipv6Prefix cp.config.ipv6PrefixLen ip ∧ ip ∉ used)
      (fun error _ => error = .ipAllocation) := by
  unfold allocateIpv6
  cases hrange : ipv6HostRange cp.config.ipv6Prefix cp.config.ipv6PrefixLen with
  | none => exact triple_throw fun _ _ => rfl
  | some range =>
    obtain ⟨first, count⟩ := range
    obtain ⟨hpos, hlen, -, hcount⟩ := ipv6_host_range_eq_some.mp hrange
    have hhosts : 2 ^ 1 ≤ 2 ^ (128 - cp.config.ipv6PrefixLen) :=
      Nat.pow_le_pow_right Nat.zero_lt_two (by omega)
    refine (draw_free_in_range hG _ (by omega) used _ R).weaken (fun _ h => h) ?_ fun _ _ h => h
    rintro ip w ⟨hR, hdrawn, hfree⟩
    exact ⟨hR, ⟨hpos, hlen⟩, (ipv6_host_range_iff hrange).mp hdrawn, hfree⟩

theorem allocate_spec (hG : AllowsQuiet G) (usedIpv4 : List Ipv4Addr)
    (usedIpv6 : List Ipv6Addr) (R : Db → Prop) :
    Triple handler G (fun w => R w.db) (cp.allocate usedIpv4 usedIpv6)
      (fun pair w => R w.db ∧ Allotted cp usedIpv4 usedIpv6 pair.1 pair.2)
      (fun error _ => error = .ipAllocation) := by
  refine (allocate_ipv4_host hG usedIpv4 R).bind fun ipv4 => ?_
  refine Triple.assume (fun _ h => h.2) fun hipv4 => ?_
  refine ((allocate_ipv6_host hG usedIpv6 R).pre fun _ h => h.1).bind fun ipv6 => ?_
  obtain ⟨hlen4, hhost4, hfree4⟩ := hipv4
  exact triple_pure fun _ h => ⟨h.1, hlen4, h.2.1, hhost4, hfree4, h.2.2.1, h.2.2.2⟩

theorem create_node_spec (hG : AllowsQuiet G) (machineKey : MachineKey)
    (request : RegisterRequest) (userId : Nat) (tags : Option (List String)) (ephemeral : Bool)
    (now : String) (R : Db → Prop) :
    Triple handler G (fun w => R w.db)
      (cp.createNodeFromRequest machineKey request userId tags ephemeral now)
      (fun node w => ∃ ipv4 ipv6, R w.db ∧
        Allotted cp (ControlPlane.usedIpv4 w.db.nodes) (ControlPlane.usedIpv6 w.db.nodes) ipv4
          ipv6 ∧
        node = cp.newNode machineKey request userId tags ephemeral now ipv4 ipv6)
      (fun error _ => error = .ipAllocation) := by
  rw [create_node_allocates]
  refine triple_bind_read hG reads_list_nodes (calls_store trivial) fun nodes => ?_
  refine (allocate_spec hG _ _ fun db => R db ∧ db.nodes = nodes).bind fun pair => ?_
  refine triple_pure fun w hw => ⟨pair.1, pair.2, hw.1.1, ?_, rfl⟩
  rw [hw.1.2]
  exact hw.2

theorem draw_free_first {α : Type} [DecidableEq α] (ofNat : Nat → α) (first count attempts : Nat)
    (w : World) :
    (ControlPlane.drawFree ofNat first count [] (attempts + 1)).run handler w =
      (.ok (ofNat (first + w.env.draws w.env.position % count)), w.tick) := by
  have hdraw : (environment (.genRange count)).run handler w =
      (.ok (w.env.draws w.env.position % count), w.tick) := rfl
  rw [drawFree, run_bind_ok handler hdraw, if_neg List.not_mem_nil]
  rfl

theorem allocate_reaches {ipv4 : Ipv4Addr} {ipv6 : Ipv6Addr}
    (hlen4 : 0 < cp.config.ipv4PrefixLen ∧ cp.config.ipv4PrefixLen ≤ 30)
    (hlen6 : 0 < cp.config.ipv6PrefixLen ∧ cp.config.ipv6PrefixLen ≤ 127)
    (hipv4 : Ipv4Host cp.config.ipv4Prefix cp.config.ipv4PrefixLen ipv4)
    (hipv6 : Ipv6Host cp.config.ipv6Prefix cp.config.ipv6PrefixLen ipv6) (db : Db) :
    ∃ env w', exec (cp.allocate [] []) (cp.withStore db env) = (.ok (ipv4, ipv6), w') := by
  have hrange4 : ipv4HostRange cp.config.ipv4Prefix cp.config.ipv4PrefixLen = some (_, _) :=
    ipv4_host_range_eq_some.mpr ⟨hlen4.1, hlen4.2, rfl, rfl⟩
  have hrange6 : ipv6HostRange cp.config.ipv6Prefix cp.config.ipv6PrefixLen = some (_, _) :=
    ipv6_host_range_eq_some.mpr ⟨hlen6.1, hlen6.2, rfl, rfl⟩
  obtain ⟨offset4, hoffset4, hdrawn4⟩ := (ipv4_host_range_iff hrange4).mpr hipv4
  obtain ⟨offset6, hoffset6, hdrawn6⟩ := (ipv6_host_range_iff hrange6).mpr hipv6
  refine ⟨{ clock := fun _ => 0, secrets := fun _ => "", salts := fun _ => []
            draws := fun i => if i = 0 then offset4 else offset6 }, ?_⟩
  generalize hstart : cp.withStore db _ = w
  have hfirst : w.env.draws w.env.position = offset4 := by
    rw [← hstart]
    rfl
  have hsecond : w.tick.env.draws w.tick.env.position = offset6 := by
    rw [← hstart]
    rfl
  refine ⟨w.tick.tick, ?_⟩
  have hdraw4 : (cp.allocateIpv4 []).run handler w = (.ok ipv4, w.tick) := by
    unfold allocateIpv4
    rw [hrange4, hdrawn4]
    refine (draw_free_first _ _ _ 1023 w).trans ?_
    rw [hfirst, Nat.mod_eq_of_lt hoffset4]
  have hdraw6 : (cp.allocateIpv6 []).run handler w.tick = (.ok ipv6, w.tick.tick) := by
    unfold allocateIpv6
    rw [hrange6, hdrawn6]
    refine (draw_free_first _ _ _ 1023 w.tick).trans ?_
    rw [hsecond, Nat.mod_eq_of_lt hoffset6]
  rw [allocate, exec, run_bind_ok handler hdraw4, run_bind_ok handler hdraw6]
  rfl

/-! ## The resolver -/

/-- A node could have the IPv4 address of the resolver, unless that is one of the two addresses that
are never given out. -/
theorem resolver_ipv4_host_iff {network : Ipv4Addr} (hpos : 0 < len) (hlen : len ≤ 30) :
    Ipv4Host network len (deriveMagicDnsIpv4 network len) ↔
      ¬(prefixContains network.bits len defaultMagicDnsIpv4.bits = true ∧
        (defaultMagicDnsIpv4.bits = networkAddress network.bits len ∨
          defaultMagicDnsIpv4.bits = broadcastAddress network.bits len)) := by
  unfold deriveMagicDnsIpv4
  split
  case isTrue hinside =>
    refine ⟨fun hhost hedge => hedge.2.elim hhost.notNetwork hhost.notBroadcast, fun hnot => ?_⟩
    exact ⟨hinside, fun h => hnot ⟨hinside, .inl h⟩, fun h => hnot ⟨hinside, .inr h⟩⟩
  case isFalse houtside =>
    exact iff_of_true (ipv4_host_last hpos hlen) fun hedge => houtside hedge.1

theorem resolver_ipv6_host_iff (hpos : 0 < len) (hlen : len ≤ 127) :
    Ipv6Host network len (deriveMagicDnsIpv6 network len) ↔
      ¬(prefixContains network.bits len defaultMagicDnsIpv6.bits = true ∧
        defaultMagicDnsIpv6.bits = networkAddress network.bits len) := by
  unfold deriveMagicDnsIpv6
  split
  case isTrue hinside =>
    refine ⟨fun hhost hedge => hhost.notNetwork hedge.2, fun hnot => ?_⟩
    exact ⟨hinside, fun h => hnot ⟨hinside, h⟩⟩
  case isFalse houtside =>
    exact iff_of_true (ipv6_host_last hpos hlen) fun hedge => houtside hedge.1

def ControlPlane.ResolverIpv4Reserved (cp : ControlPlane) : Prop :=
  prefixContains cp.config.ipv4Prefix.bits cp.config.ipv4PrefixLen defaultMagicDnsIpv4.bits = true ∧
    (defaultMagicDnsIpv4.bits =
        networkAddress cp.config.ipv4Prefix.bits cp.config.ipv4PrefixLen ∨
      defaultMagicDnsIpv4.bits =
        broadcastAddress cp.config.ipv4Prefix.bits cp.config.ipv4PrefixLen)

def ControlPlane.ResolverIpv6Reserved (cp : ControlPlane) : Prop :=
  prefixContains cp.config.ipv6Prefix.bits cp.config.ipv6PrefixLen defaultMagicDnsIpv6.bits = true ∧
    defaultMagicDnsIpv6.bits = networkAddress cp.config.ipv6Prefix.bits cp.config.ipv6PrefixLen

def ControlPlane.NothingToAllocate (cp : ControlPlane) : Prop :=
  cp.config.ipv4PrefixLen = 0 ∨ 30 < cp.config.ipv4PrefixLen ∨
    cp.config.ipv6PrefixLen = 0 ∨ 127 < cp.config.ipv6PrefixLen

theorem Allotted.something_to_allocate {usedIpv4 : List Ipv4Addr} {usedIpv6 : List Ipv6Addr}
    {ipv4 : Ipv4Addr} {ipv6 : Ipv6Addr} (h : Allotted cp usedIpv4 usedIpv6 ipv4 ipv6) :
    ¬cp.NothingToAllocate := by
  have hipv4 := h.lengthIpv4
  have hipv6 := h.lengthIpv6
  unfold ControlPlane.NothingToAllocate
  omega

/-- Draws that hit the resolver's IPv4 address in the default prefix `100.64.0.0/10`. -/
def resolverDraws : Env :=
  { stillEnv with draws := fun _ => 0x64646464 - 0x64400001 }

section Fits

variable {w : Nat}

/-- The shift and the sum that give the last host address fit into their word, if they are
computed: unless the resolver is in the prefix, or the length is `0` or at least `limit`. -/
def DerivationFits (resolver network : BitVec w) (len limit : Nat) : Prop :=
  prefixContains network len resolver = true ∨ len = 0 ∨ limit ≤ len ∨
    w - len < w ∧ BitVec.uaddOverflow (networkAddress network len) (1#w <<< (w - len)) = false

theorem derivation_fits_iff {resolver network : BitVec w} {limit : Nat} (hlimit : limit ≤ w) :
    DerivationFits resolver network len limit ↔ prefixContains network len resolver = true ∨
      len = 0 ∨ limit ≤ len ∨ networkAddress network len ≠ mask w len := by
  refine or_congr_right ?_
  by_cases hzero : len = 0
  · simp [hzero]
  by_cases hlong : limit ≤ len
  · simp [hlong]
  have hpos := Nat.pos_of_ne_zero hzero
  have hend := network_add_le hpos (by omega) network
  have hcount : (1#w <<< (w - len)).toNat = 2 ^ (w - len) :=
    BitVec.toNat_twoPow_of_lt (by omega)
  simp only [hzero, hlong, false_or, BitVec.uaddOverflow, hcount, ne_eq, ← BitVec.toNat_inj,
    to_nat_mask hpos (by omega : len ≤ w), decide_eq_false_iff_not]
  omega

theorem prefix_contains_self {network : BitVec w} (hlen : len ≤ w) :
    prefixContains network len network = true := by
  rw [prefixContains, if_neg (Nat.not_lt.mpr hlen)]
  simp

end Fits

theorem contains_derive_ipv4 {network : Ipv4Addr} (hlen : len ≤ 32) :
    prefixContains network.bits len (deriveMagicDnsIpv4 network len).bits = true := by
  unfold deriveMagicDnsIpv4
  split
  case isTrue hinside => exact hinside
  case isFalse =>
    by_cases hhosts : 0 < len ∧ len ≤ 30
    · exact (ipv4_host_last hhosts.1 hhosts.2).inside
    · rw [ipv4LastHost, if_pos (by simp; omega)]
      exact prefix_contains_self hlen

theorem contains_derive_ipv6 (hlen : len ≤ 128) :
    prefixContains network.bits len (deriveMagicDnsIpv6 network len).bits = true := by
  unfold deriveMagicDnsIpv6
  split
  case isTrue hinside => exact hinside
  case isFalse =>
    by_cases hhosts : 0 < len ∧ len ≤ 127
    · exact (ipv6_host_last hhosts.1 hhosts.2).inside
    · rw [ipv6LastHost, if_pos (by simp; omega)]
      exact prefix_contains_self hlen

/-- The addresses of the resolver are always in the prefixes, and are computed without overflow if
and only if no prefix is made of ones from which a last host address is taken. -/
theorem magic_dns_derivation_iff (ipv4 : Ipv4Addr) (ipv6 : Ipv6Addr) (len4 : Fin 33)
    (len6 : Fin 129) :
    ((DerivationFits defaultMagicDnsIpv4.bits ipv4.bits len4 31 ∧
        prefixContains ipv4.bits len4 (deriveMagicDnsIpv4 ipv4 len4).bits = true) ∧
      DerivationFits defaultMagicDnsIpv6.bits ipv6.bits len6 128 ∧
        prefixContains ipv6.bits len6 (deriveMagicDnsIpv6 ipv6 len6).bits = true) ↔
    (prefixContains ipv4.bits len4 defaultMagicDnsIpv4.bits = true ∨ len4.val = 0 ∨
        31 ≤ len4.val ∨ networkAddress ipv4.bits len4 ≠ mask 32 len4) ∧
      (prefixContains ipv6.bits len6 defaultMagicDnsIpv6.bits = true ∨ len6.val = 0 ∨
        128 ≤ len6.val ∨ networkAddress ipv6.bits len6 ≠ mask 128 len6) := by
  rw [derivation_fits_iff (by decide), derivation_fits_iff (by decide),
    contains_derive_ipv4 (by omega), contains_derive_ipv6 (by omega)]
  simp only [and_true]

/-- `255.255.255.0/24`: the number of addresses does not fit after the first one. -/
theorem magic_dns_derivation_overflows :
    ¬DerivationFits defaultMagicDnsIpv4.bits 0xffffff00#32 24 31 := by
  unfold DerivationFits
  decide

/-! ## Exhaustion

The allocator draws 1024 addresses and reports the prefix as exhausted when each of them is in use
(`draw_free_error_iff`). So the report can be wrong for some draws as soon as one host address is in
use and another one is free: `allocation_complete_iff`. -/

def ExhaustedIpv4 (cp : ControlPlane) (used : List Ipv4Addr) (w : World) : Prop :=
  (ipv4HostRange cp.config.ipv4Prefix cp.config.ipv4PrefixLen).isSome = true ∧
    (exec (cp.allocateIpv4 used) w).1 = .error .ipAllocation

def ExhaustedIpv6 (cp : ControlPlane) (used : List Ipv6Addr) (w : World) : Prop :=
  (ipv6HostRange cp.config.ipv6Prefix cp.config.ipv6PrefixLen).isSome = true ∧
    (exec (cp.allocateIpv6 used) w).1 = .error .ipAllocation

section Draws

variable {α : Type} [DecidableEq α] {ofNat : Nat → α} {first count : Nat} {used : List α}

theorem draw_free_error_iff (attempts : Nat) (w : World) :
    ((ControlPlane.drawFree ofNat first count used attempts).run handler w).1 =
        .error .ipAllocation ↔
      ∀ i < attempts, ofNat (first + w.env.draws (w.env.position + i) % count) ∈ used := by
  induction attempts generalizing w with
  | zero => exact iff_of_true rfl fun i hi => absurd hi (Nat.not_lt_zero i)
  | succ attempts ih =>
    have hdraw : (environment (.genRange count)).run handler w =
        (.ok (w.env.draws w.env.position % count), w.tick) := rfl
    rw [drawFree, run_bind_ok handler hdraw, Nat.forall_lt_succ_left]
    dsimp only
    split
    case isTrue hused =>
      rw [ih w.tick, Nat.add_zero, and_iff_right hused]
      refine forall₂_congr fun i _ => ?_
      have hposition : w.tick.env.position + i = w.env.position + (i + 1) :=
        Nat.add_right_comm w.env.position 1 i
      rw [hposition]
      rfl
    case isFalse hfree =>
      refine iff_of_false (fun h => ?_) fun h => hfree h.1
      cases h

def sameDraws (offset : Nat) : Env where
  clock _ := 0
  secrets _ := ""
  salts _ := []
  draws _ := offset

/-- Failed draws show for every sequence of draws that all addresses are in use, if and only if none
or all of them are. -/
theorem draws_complete_iff (cp : ControlPlane) {attempts : Nat} (hattempts : 0 < attempts) :
    (∀ w, ((ControlPlane.drawFree ofNat first count used attempts).run handler w).1 =
        .error .ipAllocation → ∀ offset < count, ofNat (first + offset) ∈ used) ↔
      (∀ offset < count, ofNat (first + offset) ∉ used) ∨
        ∀ offset < count, ofNat (first + offset) ∈ used := by
  simp only [draw_free_error_iff]
  constructor
  · intro hcomplete
    refine or_iff_not_imp_left.mpr fun hsome => ?_
    push Not at hsome
    obtain ⟨offset, hoffset, hused⟩ := hsome
    refine hcomplete (cp.withStore Db.empty (sameDraws offset)) fun i _ => ?_
    show ofNat (first + offset % count) ∈ used
    rw [Nat.mod_eq_of_lt hoffset]
    exact hused
  · rintro (hnone | hall) w hdrawn
    · intro offset hoffset
      exact absurd (hdrawn 0 hattempts) (hnone _ (Nat.mod_lt _ (Nat.zero_lt_of_lt hoffset)))
    · exact hall

end Draws

theorem forall_host_iff {α : Type} {Host : α → Prop} (ofNat : Nat → α) {first count : Nat}
    (hrange : ∀ ip, (∃ offset < count, ip = ofNat (first + offset)) ↔ Host ip) (P : α → Prop) :
    (∀ ip, Host ip → P ip) ↔ ∀ offset < count, P (ofNat (first + offset)) := by
  refine ⟨fun h offset hoffset => h _ ((hrange _).mp ⟨offset, hoffset, rfl⟩), ?_⟩
  intro h ip hhost
  obtain ⟨offset, hoffset, rfl⟩ := (hrange ip).mpr hhost
  exact h offset hoffset

/-- An exhausted prefix has no free host address, for every sequence of draws, if and only if none
or all of its host addresses are in use. -/
theorem allocation_complete_iff (cp : ControlPlane) (usedIpv4 : List Ipv4Addr)
    (usedIpv6 : List Ipv6Addr) :
    ((∀ w, ExhaustedIpv4 cp usedIpv4 w → ∀ ip,
        Ipv4Host cp.config.ipv4Prefix cp.config.ipv4PrefixLen ip → ip ∈ usedIpv4) ↔
      ipv4HostRange cp.config.ipv4Prefix cp.config.ipv4PrefixLen = none ∨
        (∀ ip, Ipv4Host cp.config.ipv4Prefix cp.config.ipv4PrefixLen ip → ip ∉ usedIpv4) ∨
        ∀ ip, Ipv4Host cp.config.ipv4Prefix cp.config.ipv4PrefixLen ip → ip ∈ usedIpv4) ∧
    ((∀ w, ExhaustedIpv6 cp usedIpv6 w → ∀ ip,
        Ipv6Host cp.config.ipv6Prefix cp.config.ipv6PrefixLen ip → ip ∈ usedIpv6) ↔
      ipv6HostRange cp.config.ipv6Prefix cp.config.ipv6PrefixLen = none ∨
        (∀ ip, Ipv6Host cp.config.ipv6Prefix cp.config.ipv6PrefixLen ip → ip ∉ usedIpv6) ∨
        ∀ ip, Ipv6Host cp.config.ipv6Prefix cp.config.ipv6PrefixLen ip → ip ∈ usedIpv6) := by
  have hattempts : 0 < allocationAttempts := by decide
  constructor
  · unfold ExhaustedIpv4 exec allocateIpv4
    cases hrange : ipv4HostRange cp.config.ipv4Prefix cp.config.ipv4PrefixLen with
    | none => simp
    | some range =>
      obtain ⟨first, count⟩ := range
      have hhosts := forall_host_iff (fun n => (⟨BitVec.ofNat 32 n⟩ : Ipv4Addr))
        fun ip => ipv4_host_range_iff hrange
      simp only [hhosts, reduceCtorEq, false_or, Option.isSome_some, true_and]
      exact draws_complete_iff cp hattempts
  · unfold ExhaustedIpv6 exec allocateIpv6
    cases hrange : ipv6HostRange cp.config.ipv6Prefix cp.config.ipv6PrefixLen with
    | none => simp
    | some range =>
      obtain ⟨first, count⟩ := range
      have hhosts := forall_host_iff (fun n => (⟨BitVec.ofNat 128 n⟩ : Ipv6Addr))
        fun ip => ipv6_host_range_iff hrange
      simp only [hhosts, reduceCtorEq, false_or, Option.isSome_some, true_and]
      exact draws_complete_iff cp hattempts

/-- One of the four million addresses of the default prefix is in use, all draws hit it, and the
prefix is reported as exhausted. -/
theorem allocation_gives_up :
    ExhaustedIpv4 openServer [⟨0x64400001#32⟩] (openServer.withStore Db.empty (sameDraws 0)) ∧
    Ipv4Host openServer.config.ipv4Prefix openServer.config.ipv4PrefixLen ⟨0x64400002#32⟩ ∧
    (⟨0x64400002#32⟩ : Ipv4Addr) ∉ [(⟨0x64400001#32⟩ : Ipv4Addr)] := by
  have hrange : ipv4HostRange openServer.config.ipv4Prefix openServer.config.ipv4PrefixLen =
      some (0x64400001, 2 ^ 22 - 2) := by decide
  refine ⟨⟨by decide, ?_⟩, ⟨by decide, by decide, by decide⟩, by decide⟩
  unfold exec allocateIpv4
  rw [hrange]
  refine (draw_free_error_iff allocationAttempts _).mpr fun i _ => ?_
  show (⟨BitVec.ofNat 32 (0x64400001 + 0 % (2 ^ 22 - 2))⟩ : Ipv4Addr) ∈ [⟨0x64400001#32⟩]
  decide

end Crabscale.Control
