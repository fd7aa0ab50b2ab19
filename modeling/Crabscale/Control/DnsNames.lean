import Crabscale.Control.Addresses

/-!
# MagicDNS names

A node is named after the host name of its client, and nothing looks at the names that are taken. As
long as every new node brings a name of its own, the records of a name are the addresses of its node
(`names_unambiguous`); two clients with one host name share a name (`hostname_shared`).
-/

namespace Crabscale.Control

open Rust Proto Policy Interaction Interaction.Program ControlPlane

/-! ## Names of new nodes -/

def hostnameOf : Option Hostinfo → String
  | some hostinfo => if hostinfo.hostname = "" then "node" else hostinfo.hostname
  | none => "node"

def ControlPlane.nameOf (cp : ControlPlane) (hostinfo : Option Hostinfo) : String :=
  hostnameOf hostinfo ++ "." ++ cp.config.tailnetDomain ++ "."

variable {cp : ControlPlane} {op : Op} {w₀ w : World}

theorem new_node_name (machineKey : MachineKey) (request : RegisterRequest) (userId : Nat)
    (tags : Option (List String)) (ephemeral : Bool) (now : String) (ipv4 : Ipv4Addr)
    (ipv6 : Ipv6Addr) :
    (cp.newNode machineKey request userId tags ephemeral now ipv4 ipv6).name =
      cp.nameOf request.hostinfo := by
  unfold newNode nameOf hostnameOf
  cases request.hostinfo <;> rfl

/-- An operation that creates a node brings a name that no other node has: a registration of a new
node key with a valid pre-auth key, or the followup of an approved registration. -/
structure BringsNewName (cp : ControlPlane) (w : World) (op : Op) : Prop where
  enroll : ∀ machineKey request key, KeyPresented cp op w machineKey request key →
    w.db.getNodeByNodeKey request.nodeKey = none →
      ∀ row ∈ w.db.nodes, row.name ≠ cp.nameOf request.hostinfo
  complete : ∀ machineKey entry userId tags, FollowupApproved cp op w machineKey entry userId tags →
    ∀ row ∈ w.db.nodes, row.nodeKey ≠ entry.nodeKey → row.name ≠ cp.nameOf entry.hostinfo

/-! ## The column of names -/

/-- The names of the rows: they are absolute, and no two are the same. -/
abbrev NameColumn : Db → Prop :=
  Column Node.name (fun name => name.toList.getLast? = some '.') (· ≠ ·)

theorem name_of_absolute (hostinfo : Option Hostinfo) :
    (cp.nameOf hostinfo).toList.getLast? = some '.' := by
  have htext : (cp.nameOf hostinfo).toList =
      (hostnameOf hostinfo ++ "." ++ cp.config.tailnetDomain).toList ++ ['.'] := by
    rw [nameOf, String.toList_append]
    rfl
  rw [htext, List.getLast?_concat]

theorem fits_name {node : Node} (hbrings : BringsNewName cp w₀ op) (hact : NodeAct cp op w₀ w node)
    (hplaced : Placed cp w.db.nodes node) :
    Fits Node.name (fun name => name.toList.getLast? = some '.') (· ≠ ·) w.db node := by
  cases hplaced with
  | kept hrow hkey _ hname _ => exact .inl ⟨_, hrow, hkey, hname⟩
  | new hid _ _ _ _ =>
    cases hact with
    | edit _ hrow hedit =>
      -- An edited row has an id.
      have hpos := w.db.valid.nodeIdsPos _ hrow
      rw [← hedit.same.id, hid] at hpos
      exact absurd hpos (Nat.lt_irrefl 0)
    | reauthorize _ hrow _ _ _ _ hnode =>
      subst hnode
      have hpos := w.db.valid.nodeIdsPos _ hrow
      rw [show (_ : Node).id = 0 from hid] at hpos
      exact absurd hpos (Nat.lt_irrefl 0)
    | enroll hkey _ hnodes hnew hnode =>
      subst hnode
      have hmissing := Db.get_node_by_node_key_eq_none.mpr (hnodes ▸ hnew)
      refine .inr ⟨?_, fun row hrow _ => ?_⟩
      · rw [new_node_name]
        exact name_of_absolute _
      · rw [new_node_name]
        exact (hbrings.enroll _ _ _ hkey hmissing row (hnodes ▸ hrow)).symm
    | complete happroved _ hnodes _ _ hnode =>
      subst hnode
      refine .inr ⟨?_, fun row hrow hother => ?_⟩
      · rw [new_node_name]
        exact name_of_absolute _
      · rw [new_node_name]
        exact (hbrings.complete _ _ _ _ happroved row (hnodes ▸ hrow) hother).symm

theorem NameColumn.step (hbrings : BringsNewName cp w op) (h : NameColumn w.db) :
    NameColumn (op.exec cp w).db := by
  refine (op.deeds w rfl).1.invariant (I := fun w => NameColumn w.db) (fun w' c hw' hc => ?_) h
  refine hw'.call (fun _ _ _ => rfl) (fun _ _ => Ne.symm) fun node hnode => ?_
  subst hnode
  exact fits_name hbrings hc.acts hc.places

/-! ## Records -/

def generatedRecords (rows : List Node) : List DnsRecord :=
  rows.flatMap fun row => row.toProto.addresses.filterMap (nodeRecord row.toProto)

def recordsOf (name : String) (ipv4 : Ipv4Addr) (ipv6 : Ipv6Addr) : List DnsRecord :=
  [{ name, recType := "A", recClass := 1, ttl := defaultExtraRecordTtl, value := ipv4.display },
    { name, recType := "AAAA", recClass := 1, ttl := defaultExtraRecordTtl, value := ipv6.display }]

theorem split_address_display (ip : IpAddr) {rest : String} {tail : List Char}
    (hrest : rest.toList = '/' :: tail) :
    splitAddress (ip.display ++ rest) = some (ip.display, if ip.isIpv4 then "A" else "AAAA") := by
  rw [splitAddress, head_split (slash_not_mem_display ip) hrest, Option.bind_eq_bind,
    Option.bind_some, parse_ip_display]
  rfl

theorem records_of_row {row : Node} {ipv4 : Ipv4Addr} {ipv6 : Ipv6Addr}
    (hname : row.name.toList.getLast? = some '.')
    (haddresses : row.addresses = [ipv4.display ++ "/32", ipv6.display ++ "/128"]) :
    row.toProto.addresses.filterMap (nodeRecord row.toProto) = recordsOf row.name ipv4 ipv6 := by
  have hnode : nodeName row.toProto = row.name := by
    unfold nodeName
    split
    · rfl
    · exact if_pos hname
  have hipv4 : splitAddress (ipv4.display ++ "/32") = some (ipv4.display, "A") :=
    split_address_display (.v4 ipv4) rfl
  have hipv6 : splitAddress (ipv6.display ++ "/128") = some (ipv6.display, "AAAA") :=
    split_address_display (.v6 ipv6) rfl
  have hwire : row.toProto.addresses = row.addresses := rfl
  rw [hwire, haddresses]
  simp [nodeRecord, hipv4, hipv6, hnode, recordsOf]

theorem filter_records_of (name other : String) (ipv4 : Ipv4Addr) (ipv6 : Ipv6Addr) :
    (recordsOf other ipv4 ipv6).filter (·.name = name) =
      if other = name then recordsOf other ipv4 ipv6 else [] := by
  split
  case isTrue h => simp [recordsOf, h]
  case isFalse h => simp [recordsOf, h]

theorem generated_records_of_name {rows : List Node} {row : Node} {ipv4 : Ipv4Addr}
    {ipv6 : Ipv6Addr} (hnames : ∀ other ∈ rows, other.name.toList.getLast? = some '.')
    (haddresses : ∀ other ∈ rows, ∃ (ipv4 : Ipv4Addr) (ipv6 : Ipv6Addr),
      other.addresses = [ipv4.display ++ "/32", ipv6.display ++ "/128"])
    (hunique : (rows.map Node.name).Nodup) (hrow : row ∈ rows)
    (hown : row.addresses = [ipv4.display ++ "/32", ipv6.display ++ "/128"]) :
    (generatedRecords rows).filter (·.name = row.name) = recordsOf row.name ipv4 ipv6 := by
  have hfiltered (name : String) {other : Node} (hother : other ∈ rows) :
      (other.toProto.addresses.filterMap (nodeRecord other.toProto)).filter (·.name = name) =
        if other.name = name then other.toProto.addresses.filterMap (nodeRecord other.toProto)
        else [] := by
    obtain ⟨other4, other6, htext⟩ := haddresses other hother
    rw [records_of_row (hnames other hother) htext, filter_records_of]
  rw [generatedRecords, List.filter_flatMap, flatMap_eq_of_nodup Node.name hunique hrow]
  · rw [hfiltered _ hrow, if_pos rfl, records_of_row (hnames row hrow) hown]
  · -- No other row has the name.
    intro other hother hne
    rw [hfiltered _ hother, if_neg hne]

/-- In every run from an empty store in which new nodes bring new names, names are unique, and the
records that are generated for a node's name are one for each of its addresses. -/
theorem names_unambiguous {env : Env} {w : World}
    (hrun : Runs cp (BringsNewName cp) (fun _ => True) (cp.withStore Db.empty env) w) :
    (∀ a ∈ w.db.nodes, ∀ b ∈ w.db.nodes, a ≠ b → a.name ≠ b.name) ∧
      (cp.config.dns.magicDns = true → ∃ config generated,
        exec cp.buildDnsConfig w = (.ok (some config), w) ∧
        config.extraRecords = generated ++ w.extraRecords ∧
        ∀ row ∈ w.db.nodes, ∃ (ipv4 : Ipv4Addr) (ipv6 : Ipv6Addr),
          row.addresses = [ipv4.display ++ "/32", ipv6.display ++ "/128"] ∧
          generated.filter (·.name = row.name) = recordsOf row.name ipv4 ipv6) := by
  have hcolumns : AddressColumn cp w.db ∧ NameColumn w.db := by
    induction hrun with
    | refl _ => exact ⟨Column.empty, Column.empty⟩
    | step _ hbrings _ ih => exact ⟨ih.1.step, ih.2.step hbrings⟩
  obtain ⟨haddresses, hnames⟩ := hcolumns
  have hdistinct (a : Node) (ha : a ∈ w.db.nodes) (b : Node) (hb : b ∈ w.db.nodes) (hne : a ≠ b) :
      a.name ≠ b.name :=
    hnames.pairs a ha b hb fun hkey =>
      hne (List.inj_on_of_nodup_map w.db.valid.nodeKeys ha hb hkey)
  refine ⟨hdistinct, fun hmagic => ?_⟩
  have hunique : (w.db.nodes.map Node.name).Nodup := by
    refine List.Nodup.map_on (fun a ha b hb hsame => ?_) (List.Nodup.of_map _ w.db.valid.nodeKeys)
    exact not_not.mp fun hne => hdistinct a ha b hb hne hsame
  have hconfigured : cp.dnsConfigured w = true := by simp [dnsConfigured, hmagic]
  obtain ⟨config, hconfig⟩ : ∃ config, cp.dnsOf w = some config :=
    ⟨_, by rw [dnsOf, if_pos hconfigured]⟩
  have hbuilds : exec cp.buildDnsConfig w = (.ok (some config), w) := by
    rw [← hconfig]
    exact reads_build_dns_config cp w
  refine ⟨config, generatedRecords w.db.nodes, hbuilds, ?_, fun row hrow => ?_⟩
  · rw [dnsOf, if_pos hconfigured] at hconfig
    cases hconfig
    simp [DnsSettings.build, hmagic, generatedRecords, List.flatMap_map]
  · have htexts (other : Node) (hother : other ∈ w.db.nodes) :
        ∃ (ipv4 : Ipv4Addr) (ipv6 : Ipv6Addr), other.addresses =
          [ipv4.display ++ "/32", ipv6.display ++ "/128"] := by
      obtain ⟨ipv4, ipv6, hhas⟩ := haddresses.each other hother
      exact ⟨ipv4, ipv6, hhas.text⟩
    obtain ⟨ipv4, ipv6, hown⟩ := htexts row hrow
    exact ⟨ipv4, ipv6, hown, generated_records_of_name hnames.each htexts hunique hrow hown⟩

def registerNamed (key : Nat) (hostname : String) : Op :=
  .register ⟨key⟩ { registerRequest key with hostinfo := some { hostname } }

theorem brings_new_name {key : Nat} {hostname : String}
    (h : ∀ row ∈ w.db.nodes, row.name ≠ cp.nameOf (some { hostname })) :
    BringsNewName cp w (registerNamed key hostname) := by
  constructor
  · intro machineKey request preAuthKey hkey _
    cases hkey.op
    exact h
  · intro machineKey entry userId tags happroved
    obtain ⟨request, authId, hop, hauth, -⟩ := happroved.op
    cases hop
    exact absurd rfl (auth_id_from_followup_ne_empty hauth)

def twoNamed : World :=
  (registerNamed 2 "phone").exec openServer
    ((registerNamed 1 "laptop").exec openServer (openServer.withStore Db.empty stillEnv))

theorem names_two_named :
    twoNamed.db.nodes.length = 2 ∧
      (∀ a ∈ twoNamed.db.nodes, ∀ b ∈ twoNamed.db.nodes, a ≠ b → a.name ≠ b.name) ∧
      ∃ config generated, exec openServer.buildDnsConfig twoNamed = (.ok (some config), twoNamed) ∧
        config.extraRecords = generated ++ twoNamed.extraRecords ∧
        ∀ row ∈ twoNamed.db.nodes, ∃ (ipv4 : Ipv4Addr) (ipv6 : Ipv6Addr),
          row.addresses = [ipv4.display ++ "/32", ipv6.display ++ "/128"] ∧
          generated.filter (·.name = row.name) = recordsOf row.name ipv4 ipv6 := by
  have hrun : Runs openServer (BringsNewName openServer) (fun _ => True)
      (openServer.withStore Db.empty stillEnv) twoNamed := by
    refine .step (.step (.refl trivial) (brings_new_name ?_) trivial) (brings_new_name ?_) trivial
    · exact fun row hrow => absurd hrow List.not_mem_nil
    · decide +kernel
  obtain ⟨hdistinct, hrecords⟩ := names_unambiguous hrun
  exact ⟨by decide +kernel, hdistinct, hrecords rfl⟩

def twoUnnamed : World :=
  runOps openServer [registerFirst, .register ⟨2⟩ (registerRequest 2)]
    (openServer.withStore Db.empty stillEnv)

/-- Both nodes are called `node`, and the name has the addresses of both. -/
theorem hostname_shared :
    twoUnnamed.db.nodes.map (fun row => (row.id, row.name)) =
        [(1, "node.tailnet.example."), (2, "node.tailnet.example.")] ∧
      (generatedRecords twoUnnamed.db.nodes).map (fun record => (record.name, record.recType)) =
        [("node.tailnet.example.", "A"), ("node.tailnet.example.", "AAAA"),
          ("node.tailnet.example.", "A"), ("node.tailnet.example.", "AAAA")] := by
  decide +kernel

end Crabscale.Control
