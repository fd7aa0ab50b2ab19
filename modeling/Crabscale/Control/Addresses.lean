import Crabscale.Control.Reauthentication

/-!
# The addresses of the stored nodes

A row gets its addresses from the allocator when its node is created, and every other write keeps
them (`Op.places`). `Column` is what a column of the node rows keeps: a property of each entry and
one of each two. `addresses_valid_and_unique` is the column of addresses over whole runs.
-/

namespace Crabscale.Control

open Rust Proto Policy Interaction Interaction.Program ControlPlane

/-! ## Columns of the node rows -/

section Column

variable {α : Type} {f : Node → α} {P : α → Prop} {R : α → α → Prop} {db : Db} {node : Node}

/-- Every entry of a column has a property, and every two entries of different rows are related. -/
structure Column (f : Node → α) (P : α → Prop) (R : α → α → Prop) (db : Db) : Prop where
  each : ∀ row ∈ db.nodes, P (f row)
  pairs : ∀ a ∈ db.nodes, ∀ b ∈ db.nodes, a.nodeKey ≠ b.nodeKey → R (f a) (f b)

/-- The column does not depend on the ids that the store gives to a row. -/
def NoId (f : Node → α) : Prop := ∀ (node : Node) id stableId, f { node with id, stableId } = f node

/-- The entry of a written node is that of its row, or it fits in with those of the other rows. -/
def Fits (f : Node → α) (P : α → Prop) (R : α → α → Prop) (db : Db) (node : Node) : Prop :=
  (∃ row ∈ db.nodes, row.nodeKey = node.nodeKey ∧ f row = f node) ∨
    P (f node) ∧ ∀ row ∈ db.nodes, row.nodeKey ≠ node.nodeKey → R (f node) (f row)

theorem Column.mono {db' : Db} (h : Column f P R db) (hsub : db'.nodes ⊆ db.nodes) :
    Column f P R db' :=
  ⟨fun row hrow => h.each row (hsub hrow), fun a ha b hb => h.pairs a (hsub ha) b (hsub hb)⟩

theorem entry_upsert (hf : NoId f) {row : Node} (h : row ∈ (db.upsertNode node).2.nodes) :
    (∃ stored ∈ db.nodes, stored.nodeKey = row.nodeKey ∧ f row = f stored) ∨
      row.nodeKey = node.nodeKey ∧ f row = f node := by
  obtain ⟨stored, hstored, stableId, rfl⟩ | ⟨stored, -, -, stableId, rfl⟩ | ⟨-, stableId, rfl⟩ :=
    Db.mem_upsert_cases h
  · exact .inl ⟨stored, hstored, rfl, hf stored stored.id stableId⟩
  · exact .inr ⟨rfl, hf node stored.id stableId⟩
  · exact .inr ⟨rfl, hf node _ stableId⟩

theorem Column.upsert (hf : NoId f) (hR : ∀ x y, R x y → R y x) (h : Column f P R db)
    (hfits : Fits f P R db node) : Column f P R (db.upsertNode node).2 := by
  obtain ⟨row, hrow, hkey, hentry⟩ | ⟨hnode, hothers⟩ := hfits
  · -- The node has the entry of its row, so every entry is one from before.
    have hbefore {after : Node} (hafter : after ∈ (db.upsertNode node).2.nodes) :
        ∃ stored ∈ db.nodes, stored.nodeKey = after.nodeKey ∧ f after = f stored := by
      obtain hstored | ⟨hsame, hnode⟩ := entry_upsert hf hafter
      · exact hstored
      · exact ⟨row, hrow, hkey.trans hsame.symm, hnode.trans hentry.symm⟩
    refine ⟨fun a ha => ?_, fun a ha b hb hne => ?_⟩
    · obtain ⟨stored, hstored, -, hsame⟩ := hbefore ha
      exact hsame ▸ h.each stored hstored
    · obtain ⟨storedA, hstoredA, hkeyA, hsameA⟩ := hbefore ha
      obtain ⟨storedB, hstoredB, hkeyB, hsameB⟩ := hbefore hb
      rw [hsameA, hsameB]
      exact h.pairs storedA hstoredA storedB hstoredB (by rwa [hkeyA, hkeyB])
  · refine ⟨fun a ha => ?_, fun a ha b hb hne => ?_⟩
    · obtain ⟨stored, hstored, -, hsame⟩ | ⟨-, hsame⟩ := entry_upsert hf ha
      · exact hsame ▸ h.each stored hstored
      · exact hsame ▸ hnode
    · obtain ⟨storedA, hstoredA, hkeyA, hsameA⟩ | ⟨hkeyA, hsameA⟩ := entry_upsert hf ha
      all_goals obtain ⟨storedB, hstoredB, hkeyB, hsameB⟩ | ⟨hkeyB, hsameB⟩ := entry_upsert hf hb
      · rw [hsameA, hsameB]
        exact h.pairs storedA hstoredA storedB hstoredB (by rwa [hkeyA, hkeyB])
      · rw [hsameA, hsameB]
        exact hR _ _ (hothers storedA hstoredA (by rwa [hkeyA, ← hkeyB]))
      · rw [hsameA, hsameB]
        exact hothers storedB hstoredB (by rw [hkeyB, ← hkeyA]; exact hne.symm)
      · exact absurd (hkeyA.trans hkeyB.symm) hne

theorem Column.call (hf : NoId f) (hR : ∀ x y, R x y → R y x) {w : World} {c : Call}
    (h : Column f P R w.db) (hfits : ∀ node, c = .store (.upsertNode node) → Fits f P R w.db node) :
    Column f P R (handler c w).2.db := by
  obtain hsame | ⟨nodeKey, rfl⟩ | ⟨node, rfl⟩ := c.nodes_cases w
  · exact h.mono (hsame ▸ List.Subset.refl _)
  · exact h.mono (Db.nodes_delete w.db nodeKey)
  · exact h.upsert hf hR (hfits node rfl)

end Column

variable {cp : ControlPlane}

theorem Op.places (op : Op) (w₀ : World) : (op.program cp).Safe handler (Places cp) w₀ :=
  (op.deeds w₀ rfl).1.mono fun _ _ hc => hc.places

/-! ## The column of addresses -/

structure HasAddresses (cp : ControlPlane) (addresses : List String) (ipv4 : Ipv4Addr)
    (ipv6 : Ipv6Addr) : Prop where
  text : addresses = [ipv4.display ++ "/32", ipv6.display ++ "/128"]
  hostIpv4 : Ipv4Host cp.config.ipv4Prefix cp.config.ipv4PrefixLen ipv4
  hostIpv6 : Ipv6Host cp.config.ipv6Prefix cp.config.ipv6PrefixLen ipv6

theorem Column.empty {α : Type} {f : Node → α} {P : α → Prop} {R : α → α → Prop} :
    Column f P R Db.empty :=
  ⟨fun _ hrow => absurd hrow List.not_mem_nil, fun _ ha => absurd ha List.not_mem_nil⟩

abbrev AddressColumn (cp : ControlPlane) : Db → Prop :=
  Column Node.addresses (fun addresses => ∃ ipv4 ipv6, HasAddresses cp addresses ipv4 ipv6)
    List.Disjoint

theorem host_part_ipv6 (ip : Ipv6Addr) : hostPart (ip.display ++ "/128") = ip.display :=
  host_part_display (.v6 ip) rfl

theorem parse_ipv6_display (ip : Ipv6Addr) :
    parseIpv4 ip.display = none ∧ parseIpv6 ip.display = some ip := by
  have hparse : parseIp ip.display = some (.v6 ip) := parse_ip_display (.v6 ip)
  unfold parseIp at hparse
  cases hread : readIpv4Addr ip.display.toList with
  | some result =>
    obtain ⟨v4, rest⟩ := result
    rw [hread] at hparse
    cases rest <;> cases hparse
  | none =>
    rw [hread] at hparse
    obtain ⟨⟨v6, rest⟩, hrest, hsame⟩ := Option.map_eq_some_iff.mp (at_end_eq_some.mp hparse)
    cases hsame
    refine ⟨?_, ?_⟩
    · simp [parseIpv4, hread, atEnd]
    · rw [parseIpv6, hrest]
      rfl

theorem fresh_ipv6 {nodes : List Node} {row : Node} {ip : Ipv6Addr}
    (h : ip ∉ usedIpv6 nodes) (hrow : row ∈ nodes) : ip.display ++ "/128" ∉ row.addresses := by
  intro hmem
  refine h (List.mem_filterMap.mpr
    ⟨ip.display ++ "/128", List.mem_flatMap.mpr ⟨row, hrow, hmem⟩, ?_⟩)
  rw [host_part_ipv6, (parse_ipv6_display ip).1, (parse_ipv6_display ip).2]
  rfl

theorem Placed.fits_addresses {db : Db} {node : Node} (h : Placed cp db.nodes node) :
    Fits Node.addresses (fun addresses => ∃ ipv4 ipv6, HasAddresses cp addresses ipv4 ipv6)
      List.Disjoint db node := by
  cases h with
  | kept hrow hkey haddresses _ _ => exact .inl ⟨_, hrow, hkey, haddresses⟩
  | new _ haddresses hallotted _ _ =>
    refine .inr ⟨⟨_, _, haddresses, hallotted.hostIpv4, hallotted.hostIpv6⟩, fun row hrow _ => ?_⟩
    rw [haddresses, List.disjoint_cons_left, List.disjoint_cons_left]
    exact ⟨fresh_ipv4 hallotted.freeIpv4 hrow, fresh_ipv6 hallotted.freeIpv6 hrow,
      List.disjoint_nil_left _⟩

theorem AddressColumn.step {op : Op} {w : World} (h : AddressColumn cp w.db) :
    AddressColumn cp (op.exec cp w).db := by
  refine (op.places w).invariant (I := fun w => AddressColumn cp w.db) (fun w' c hw' hc => ?_) h
  refine hw'.call (fun _ _ _ => rfl) (fun _ _ => List.Disjoint.symm) fun node hnode => ?_
  subst hnode
  exact Placed.fits_addresses hc

/-- In every run from an empty store, every node has an address of each family that is a host
address of its prefix, and no two nodes share an address. -/
theorem addresses_valid_and_unique {env : Env} {w : World}
    (hrun : Runs cp (fun _ _ => True) (fun _ => True) (cp.withStore Db.empty env) w) :
    (∀ row ∈ w.db.nodes, ∃ ipv4 ipv6, HasAddresses cp row.addresses ipv4 ipv6) ∧
      ∀ a ∈ w.db.nodes, ∀ b ∈ w.db.nodes, a ≠ b → a.addresses.Disjoint b.addresses := by
  have hcolumn : AddressColumn cp w.db := by
    induction hrun with
    | refl _ => exact Column.empty
    | step _ _ _ ih => exact ih.step
  refine ⟨hcolumn.each, fun a ha b hb hne => hcolumn.pairs a ha b hb fun hkey => hne ?_⟩
  exact List.inj_on_of_nodup_map w.db.valid.nodeKeys ha hb hkey

theorem runs_ops (cp : ControlPlane) (env : Env) (ops : List Op) :
    Runs cp (fun _ _ => True) (fun _ => True) (cp.withStore Db.empty env)
      (runOps cp ops (cp.withStore Db.empty env)) := by
  have hrun (w : World) (hw : Runs cp (fun _ _ => True) (fun _ => True)
      (cp.withStore Db.empty env) w) :
      Runs cp (fun _ _ => True) (fun _ => True) (cp.withStore Db.empty env) (runOps cp ops w) := by
    induction ops generalizing w with
    | nil => exact hw
    | cons op ops ih => exact ih _ (.step hw trivial trivial)
  exact hrun _ (.refl trivial)

def twoRegistered : World :=
  runOps openServer [registerFirst, .register ⟨2⟩ (registerRequest 2)]
    (openServer.withStore Db.empty stillEnv)

theorem addresses_two_registered :
    (twoRegistered.db.nodes.map Node.nodeKey = [⟨1⟩, ⟨2⟩]) ∧
      (∀ row ∈ twoRegistered.db.nodes,
        ∃ ipv4 ipv6, HasAddresses openServer row.addresses ipv4 ipv6) ∧
      ∀ a ∈ twoRegistered.db.nodes, ∀ b ∈ twoRegistered.db.nodes, a ≠ b →
        a.addresses.Disjoint b.addresses :=
  ⟨by decide +kernel, addresses_valid_and_unique (runs_ops openServer stillEnv _)⟩

end Crabscale.Control
