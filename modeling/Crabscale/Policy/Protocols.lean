import Crabscale.Policy.Exact
import Crabscale.Policy.Validate

/-!
# Written protocols

The validator accepts any text as the protocol of a network rule, and the compiler takes one that it
does not understand for no protocol at all, which admits every one. `protocols_fail_closed_iff` says
for which texts the filters keep the restriction.
-/

namespace Crabscale.Policy

open Rust Proto

/-- The compiler emits the filter for a network rule: into the base filter, or into that of a
node. -/
def Emits (policy : Policy) (nodes : List CompileNode) (rule : Acl) (filter : FilterRule) :
    Prop :=
  filter ∈ (compileAcl policy nodes {} rule).compiled.globalFilter ∨
    ∃ id, filter ∈ (compileAcl policy nodes {} rule).compiled.filtersOf id

def protoName (text : String) : String := ((split ':' text).head?).getD text

/-- The compiler understands the text: its name is a number of 32 bits or one of the known names. -/
def Understood (text : String) : Prop :=
  (parseI32 (protoName text)).isSome = true ∨
    toAsciiLowercase (protoName text) ∈
      ["icmp", "icmpv4", "tcp", "udp", "gre", "icmpv6", "icmp6"]

section Protocols

variable {policy : Policy} {nodes srcNodes : List CompileNode} {srcIps : List String}
  {ipProto : Option (List Int)} {rule : Acl} {filter : FilterRule} {text : String}

theorem proto_number_is_some {name : String} : (protoNumber name).isSome = true ↔
    name ∈ ["icmp", "icmpv4", "tcp", "udp", "gre", "icmpv6", "icmp6"] := by
  unfold protoNumber
  simp only [Bool.or_eq_true, decide_eq_true_eq, List.mem_cons, List.not_mem_nil, or_false]
  split_ifs <;> simp <;> tauto

def readProto (text : String) : Option Int :=
  (parseI32 (protoName text)).or (protoNumber (toAsciiLowercase (protoName text)))

theorem parse_ip_proto_eq (htext : text ≠ "") :
    parseIpProto (some text) = (readProto text).map fun num => [num] := by
  unfold parseIpProto readProto protoName
  simp only [Option.bind_eq_bind, Option.bind_some, if_neg htext]
  cases parseI32 ((split ':' text).head?.getD text) <;> rfl

theorem understood_iff : Understood text ↔ (readProto text).isSome = true := by
  rw [readProto, Option.isSome_or, Bool.or_eq_true, proto_number_is_some, Understood]

theorem parse_dst_is_some (target : String) : (parseDst policy target).isSome = true := by
  unfold parseDst
  split
  · rfl
  · split
    · rfl
    · split <;> rfl

theorem mem_push_dedup {rules : List FilterRule} {other : FilterRule} :
    filter ∈ pushDedup rules other ↔ filter ∈ rules ∨ filter = other := by
  unfold pushDedup
  split
  case isTrue hmem => exact ⟨.inl, fun h => h.elim id fun heq => heq ▸ hmem⟩
  case isFalse => rw [List.mem_append, List.mem_singleton]

def dstRule (policy : Policy) (srcIps : List String) (ipProto : Option (List Int)) (dst : String) :
    List FilterRule :=
  (parseDst policy dst).toList.map fun target => { srcIps, dstPorts := target.ports, ipProto }

theorem mem_global_compile_dst {state : CompileState} {dst : String} :
    filter ∈ (compileDst policy nodes srcNodes srcIps ipProto state dst).compiled.globalFilter ↔
      filter ∈ state.compiled.globalFilter ∨ filter ∈ dstRule policy srcIps ipProto dst := by
  unfold compileDst dstRule
  cases parseDst policy dst with
  | none => simp
  | some target => simp [mem_push_dedup]

def aclRules (policy : Policy) (nodes : List CompileNode) (rule : Acl) : List FilterRule :=
  let srcIps := (resolve policy rule.src).toSrcIps nodes
  if srcIps = [] then []
  else rule.dst.flatMap (dstRule policy srcIps (parseIpProto rule.proto))

theorem mem_global_compile_acl {state : CompileState} :
    filter ∈ (compileAcl policy nodes state rule).compiled.globalFilter ↔
      filter ∈ state.compiled.globalFilter ∨ filter ∈ aclRules policy nodes rule := by
  unfold compileAcl aclRules
  dsimp only
  split
  · simp
  · rw [foldl_iff_exists (P := fun state : CompileState => filter ∈ state.compiled.globalFilter)
      (Q := fun dst => filter ∈ dstRule policy _ (parseIpProto rule.proto) dst)
      (fun _ _ => mem_global_compile_dst), List.mem_flatMap]

theorem emits_iff : Emits policy nodes rule filter ↔ filter ∈ aclRules policy nodes rule := by
  unfold Emits
  rw [mem_global_compile_acl, or_iff_right (a := filter ∈ _) List.not_mem_nil]
  refine or_iff_left_of_imp ?_
  rintro ⟨id, hfilter⟩
  rw [filters_of_compile_acl, CompiledPolicy.filtersOf, entries_at_empty, List.nil_append,
    mem_acl_filters] at hfilter
  obtain ⟨target, ⟨dst, hdst, htarget⟩, -, hsources, rfl⟩ := hfilter
  rw [aclRules, if_neg hsources]
  refine List.mem_flatMap.mpr ⟨dst, hdst, ?_⟩
  rw [dstRule, htarget]
  exact List.mem_singleton_self _

theorem ip_proto_of_mem (h : filter ∈ aclRules policy nodes rule) :
    filter.ipProto = parseIpProto rule.proto := by
  unfold aclRules at h
  dsimp only at h
  split at h
  · cases h
  · obtain ⟨dst, -, hfilter⟩ := List.mem_flatMap.mp h
    obtain ⟨target, -, rfl⟩ := List.mem_map.mp hfilter
    rfl

theorem exists_mem_acl_rules (hsources : (resolve policy rule.src).toSrcIps nodes ≠ [])
    (hdst : rule.dst ≠ []) : ∃ filter, filter ∈ aclRules policy nodes rule := by
  obtain ⟨dst, hdst⟩ := List.exists_mem_of_ne_nil _ hdst
  have hparsed : (parseDst policy dst).isSome = true := parse_dst_is_some dst
  obtain ⟨target, htarget⟩ := Option.isSome_iff_exists.mp hparsed
  refine ⟨{ srcIps := (resolve policy rule.src).toSrcIps nodes
            dstPorts := target.ports
            ipProto := parseIpProto rule.proto }, ?_⟩
  rw [aclRules, if_neg hsources]
  refine List.mem_flatMap.mpr ⟨dst, hdst, ?_⟩
  rw [dstRule, htarget]
  exact List.mem_singleton_self _

end Protocols

/-- For a rule of an accepted policy with a protocol, every emitted filter is for some protocols if
and only if the text of the protocol is understood, or the sources of the rule stand for nothing. -/
theorem protocols_fail_closed_iff (policy : Policy) (haccepted : Accepted policy) (rule : Acl)
    (hrule : rule ∈ policy.acls) (text : String) (hproto : rule.proto = some text)
    (htext : text ≠ "") (nodes : List CompileNode) :
    (∀ filter, Emits policy nodes rule filter →
        ∃ protos, filter.ipProto = some protos ∧ protos ≠ []) ↔
      Understood text ∨ (resolve policy rule.src).toSrcIps nodes = [] := by
  have hread := parse_ip_proto_eq htext
  constructor
  · intro hclosed
    refine or_iff_not_imp_right.mpr fun hsources => ?_
    have hdst := ((accepted_iff.mp haccepted).acls rule hrule).2.dst_ne
    obtain ⟨filter, hfilter⟩ := exists_mem_acl_rules hsources hdst
    obtain ⟨protos, hprotos, -⟩ := hclosed filter (emits_iff.mpr hfilter)
    rw [ip_proto_of_mem hfilter, hproto, hread] at hprotos
    obtain ⟨num, hnum, -⟩ := Option.map_eq_some_iff.mp hprotos
    rw [understood_iff, hnum]
    rfl
  · rintro (hunderstood | hsources) filter hemits
    · obtain ⟨num, hnum⟩ := Option.isSome_iff_exists.mp (understood_iff.mp hunderstood)
      rw [ip_proto_of_mem (emits_iff.mp hemits), hproto, hread, hnum]
      exact ⟨[num], rfl, List.cons_ne_nil _ _⟩
    · rw [emits_iff, aclRules, if_pos hsources] at hemits
      cases hemits

def protoPolicy (text : String) : Policy :=
  { acls := [{ action := "accept", src := ["*"], dst := ["*"], proto := some text }] }

/-- The filter of a rule for TCP is for TCP, whatever the case of the name. -/
theorem protocols_fail_closed_tcp :
    Accepted (protoPolicy "TCP:443") ∧
      ∀ filter, Emits (protoPolicy "TCP:443") [{ id := 1 }]
          { action := "accept", src := ["*"], dst := ["*"], proto := some "TCP:443" } filter →
        ∃ protos, filter.ipProto = some protos ∧ protos ≠ [] := by
  have haccepted : Accepted (protoPolicy "TCP:443") := ⟨"", by decide +kernel⟩
  exact ⟨haccepted, (protocols_fail_closed_iff (protoPolicy "TCP:443") haccepted _
    (List.mem_singleton_self _) "TCP:443" rfl (by decide) [{ id := 1 }]).mpr
      (.inl (.inr (by decide +kernel)))⟩

/-- A rule for SCTP is accepted, and its filter admits every protocol. -/
theorem protocol_forgotten :
    Accepted (protoPolicy "sctp") ∧
      ∃ filter, Emits (protoPolicy "sctp") [{ id := 1 }]
          { action := "accept", src := ["*"], dst := ["*"], proto := some "sctp" } filter ∧
        filter.ipProto = none ∧ ∀ proto, ProtoIn proto filter.ipProto := by
  refine ⟨⟨"", by decide +kernel⟩,
    { srcIps := ["*"], dstPorts := allPorts, ipProto := none }, .inl ?_, rfl, fun _ _ h => ?_⟩
  · decide +kernel
  · cases h

end Crabscale.Policy
