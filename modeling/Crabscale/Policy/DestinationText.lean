import Crabscale.Policy.Principals

/-!
# The text of a destination

`written` takes a destination apart as the validator understands it, `compiled` as the compiler
does; the two split the text at colons and brackets by different rules. `compiled_eq_written` says
for which of the accepted texts they give the same parts.
-/

namespace Crabscale.Policy

open Rust Proto

/-! ## What a destination says -/

structure DstText where
  principal : String
  ports : Option String
  deriving DecidableEq

def namedPrefixes : List String := ["autogroup:", "group:", "tag:"]

def namedForm (dst : String) : Option (String × String) :=
  namedPrefixes.findSome? fun pre => (stripPrefix pre dst).map fun rest => (pre, rest)

/-- A destination as it is written. Brackets are not part of the principal. The ports of a named
principal follow the last colon of its name, those of a login the last colon of its host. -/
def written (dst : String) : DstText :=
  if dst = "*" then ⟨dst, none⟩
  else
    match splitBracketedPorts dst with
    | some (host, ports) => ⟨host, some ports⟩
    | none =>
      match bracketed dst with
      | some host => ⟨host, none⟩
      | none =>
        match namedForm dst with
        | some (pre, rest) =>
          match rsplitOnce ':' rest with
          | some (name, ports) =>
            if ports = "" then ⟨dst, none⟩ else ⟨pre ++ name, some ports⟩
          | none => ⟨dst, none⟩
        | none =>
          match splitOnce '@' dst with
          | some (user, host) =>
            match rsplitOnce ':' host with
            | some (name, ports) =>
              if name = "" || ports = "" then ⟨dst, none⟩
              else ⟨user ++ "@" ++ name, some ports⟩
            | none => ⟨dst, none⟩
          | none =>
            match splitPorts dst with
            | some (host, ports) => ⟨host, some ports⟩
            | none => ⟨dst, none⟩

def ItemWrites (item : String) (port : Nat) : Prop :=
  match splitOnce '-' item with
  | some (lo, hi) => ∃ first ∈ parseU16 lo, ∃ last ∈ parseU16 hi, first ≤ port ∧ port ≤ last
  | none => parseU16 item = some port

def PortWritten (ports : String) (port : Nat) : Prop :=
  if ports = "*" then port ≤ 65535 else ∃ item ∈ split ',' ports, ItemWrites (trim item) port

/-- Port ranges are those of a destination: all ports without a port list, and otherwise at least
one range and exactly the ports that are written. -/
def PortsAgree (ranges : List NetPortRange) : Option String → Prop
  | none => ∀ port, PortIn port ranges ↔ port ≤ 65535
  | some ports => ranges ≠ [] ∧ ∀ port, PortIn port ranges ↔ PortWritten ports port

/-- The compiled destination is the written one. -/
def DstAgrees (policy : Policy) (dst : String) : Prop :=
  ∃ target, parseDst policy dst = some target ∧
    (∀ node, target.matchesNode node = true ↔
      (resolveSingle policy (written dst).principal).matchesNode node = true) ∧
    PortsAgree target.ports (written dst).ports

/-! ## What the compiler reads -/

def compiled (dst : String) : DstText :=
  if dst = "*" then ⟨dst, none⟩
  else
    match splitBracketedPorts dst with
    | some (host, ports) => ⟨host, some ports⟩
    | none =>
      match splitPortsLiteral dst with
      | some (host, ports) => ⟨host, some ports⟩
      | none => ⟨dst, none⟩

variable {dst : String}

theorem parse_dst_compiled {policy : Policy} :
    ∃ target, parseDst policy dst = some target ∧
      (∀ node, target.matchesNode node =
        (resolveBare policy (compiled dst).principal).matchesNode node) ∧
      target.ports = (compiled dst).ports.elim allPorts parsePorts := by
  unfold parseDst compiled
  split_ifs with hstar
  · refine ⟨_, rfl, fun node => ?_, rfl⟩
    simp [DstTarget.matchesNode, resolveBare, hstar, ResolvedTarget.matchesNode]
  · cases splitBracketedPorts dst with
    | some parts => exact ⟨_, rfl, fun node => by simp [DstTarget.matchesNode], rfl⟩
    | none =>
      cases splitPortsLiteral dst with
      | some parts => exact ⟨_, rfl, fun node => by simp [DstTarget.matchesNode], rfl⟩
      | none => exact ⟨_, rfl, fun node => by simp [DstTarget.matchesNode], rfl⟩

theorem dst_agrees_iff {policy : Policy} :
    DstAgrees policy dst ↔
      (∀ node, (resolveBare policy (compiled dst).principal).matchesNode node = true ↔
        (resolveSingle policy (written dst).principal).matchesNode node = true) ∧
      PortsAgree ((compiled dst).ports.elim allPorts parsePorts) (written dst).ports := by
  obtain ⟨target, hparse, hmatches, hports⟩ := @parse_dst_compiled dst policy
  rw [DstAgrees, hparse]
  simp [hmatches, hports]

/-! ### Ports -/

theorem port_in_all_ports {port : Nat} : PortIn port allPorts ↔ port ≤ 65535 := by
  simp [PortIn, allPorts]

theorem port_in_item {item : String} {port : Nat} :
    PortIn port (parsePortItem item) ↔ ItemWrites (trim item) port := by
  unfold parsePortItem ItemWrites
  dsimp only
  split_ifs with hempty
  · rw [hempty]
    simp [PortIn, splitOnce, splitOnceList, parseU16, parseUnsigned, parseDigits]
  · cases splitOnce '-' (trim item) with
    | none =>
      dsimp only
      cases parseU16 (trim item) with
      | none => simp [PortIn]
      | some n => simp [PortIn]; omega
    | some bounds =>
      obtain ⟨lo, hi⟩ := bounds
      dsimp only
      cases parseU16 lo with
      | none => simp [PortIn]
      | some first =>
        cases parseU16 hi with
        | none => simp [PortIn]
        | some last =>
          by_cases hle : first ≤ last
          · simp [PortIn, hle]
          · simp [PortIn, hle]
            omega

variable {ports : String}

theorem port_in_parse_ports {port : Nat} :
    PortIn port (parsePorts ports) ↔ PortWritten ports port := by
  unfold parsePorts PortWritten
  split_ifs with hall
  · exact port_in_all_ports
  · simp only [← port_in_item]
    constructor
    · rintro ⟨range, hrange, hport⟩
      obtain ⟨item, hitem, hrange⟩ := List.mem_flatMap.mp hrange
      exact ⟨item, hitem, range, hrange, hport⟩
    · rintro ⟨item, hitem, range, hrange, hport⟩
      exact ⟨range, List.mem_flatMap.mpr ⟨item, hitem, hrange⟩, hport⟩

theorem ports_agree_parse_ports :
    PortsAgree (parsePorts ports) (some ports) ↔ ∃ port, PortWritten ports port := by
  constructor
  · rintro ⟨hne, hports⟩
    obtain ⟨range, hrange⟩ := List.exists_mem_of_ne_nil _ hne
    have hle := first_le_last_of_parse_ports hrange
    exact ⟨range.first, (hports range.first).mp ⟨range, hrange, le_rfl, hle⟩⟩
  · rintro ⟨port, hport⟩
    obtain ⟨range, hrange, -⟩ := port_in_parse_ports.mpr hport
    exact ⟨List.ne_nil_of_mem hrange, fun port => port_in_parse_ports⟩

/-! ### Principals -/

variable {s : String}

theorem trim_start_matches_of_not {pat : String} (h : startsWith pat s = false) :
    trimStartMatches pat s = s := by
  have hgo : trimStartMatches.go pat s.toList.length s.toList = s.toList := by
    cases s.toList.length with
    | zero => rfl
    | succ n =>
      have hno : pat.toList.isPrefixOf s.toList = false := h
      rw [trimStartMatches.go, hno, Bool.and_false, if_neg Bool.false_ne_true]
  rw [trimStartMatches, hgo, String.ofList_toList]

/-- A destination without ports matches what the same text matches as a source, unless it is a
group whose name starts with `group:` once more. -/
theorem matches_bare_iff {policy : Policy} {principal : String} {node : CompileNode}
    (h : startsWith "group:group:" principal = false) :
    (resolveBare policy principal).matchesNode node = true ↔
      (resolveSingle policy principal).matchesNode node = true := by
  cases hgroup : stripPrefix "group:" principal with
  | some group =>
    obtain rfl := strip_prefix_eq_some.mp hgroup
    have hname : startsWith "group:" group = false := by
      by_contra hnested
      obtain ⟨rest, rfl⟩ := starts_with_iff.mp (Bool.not_eq_false _ ▸ hnested)
      exact absurd (starts_with_iff.mpr ⟨rest, by rw [← String.append_assoc]; rfl⟩)
        (Bool.eq_false_iff.mp h)
    rw [matches_bare_group_iff, matches_group_iff, trim_start_matches_of_not hname]
  | none =>
    have hstarts := strip_prefix_eq_none.mp hgroup
    rw [resolveSingle, resolveSingleWithin, resolveBare, hgroup]
    simp only [hstarts, Bool.false_eq_true, if_false]

/-! ## Reading the text -/

/-- A destination without brackets and without the prefix of a named principal. -/
structure PlainDst (dst : String) : Prop where
  any : dst ≠ "*"
  bracketedPorts : splitBracketedPorts dst = none
  bracketed : bracketed dst = none
  named : namedForm dst = none

variable {host : String}

theorem split_bracketed_ports_eq_some
    (h : splitBracketedPorts dst = some (host, ports)) : startsWith "[" dst = true := by
  simp only [splitBracketedPorts, Option.bind_eq_bind, Option.bind_eq_some_iff, Prod.exists] at h
  obtain ⟨front, back, hsplit, inner, hinner, -⟩ := h
  rw [split_once_str_eq_some hsplit, strip_prefix_eq_some.mp hinner, String.append_assoc]
  exact starts_with_append ..

theorem bracketed_eq_some {inner : String} (h : bracketed s = some inner) :
    s.toList = '[' :: (inner.toList ++ [']']) := by
  unfold bracketed at h
  split at h
  case h_1 rest hrest =>
    split_ifs at h with hlast
    rw [Option.some_inj] at h
    rw [hrest, ← h, String.toList_ofList, List.dropLast_append_getLast? ']' hlast]
  case h_2 => cases h

variable {pre rest : String}

theorem named_form_eq_some (h : namedForm dst = some (pre, rest)) :
    pre ∈ namedPrefixes ∧ dst = pre ++ rest := by
  obtain ⟨pre', hpre, hstrip⟩ := List.exists_of_findSome?_eq_some h
  obtain ⟨rest', hrest, hpair⟩ := Option.map_eq_some_iff.mp hstrip
  cases hpair
  exact ⟨hpre, strip_prefix_eq_some.mp hrest⟩

theorem named_form_eq_none :
    namedForm dst = none ↔ ∀ pre ∈ namedPrefixes, startsWith pre dst = false := by
  simp [namedForm, List.findSome?_eq_none_iff]

structure PrefixHost (pre host : String) : Prop where
  text : pre = host ++ ":"
  ident : isHostIdent host = true
  char : ∃ c ∈ host.toList, isNetworkChar c = false
  any : host ≠ "*"
  trim : trim host ≠ ""
  named : ∀ pre ∈ namedPrefixes, startsWith pre host = false

theorem named_prefix (h : pre ∈ namedPrefixes) : ∃ host, PrefixHost pre host := by
  simp only [namedPrefixes, List.mem_cons, List.not_mem_nil, or_false] at h
  rcases h with rfl | rfl | rfl
  · exact ⟨"autogroup", by decide, by decide, ⟨'u', by decide⟩, by decide, by decide, by decide⟩
  · exact ⟨"group", by decide, by decide, ⟨'g', by decide⟩, by decide, by decide, by decide⟩
  · exact ⟨"tag", by decide, by decide, ⟨'t', by decide⟩, by decide, by decide, by decide⟩

def splittable (host : String) : Bool :=
  host = "*" || isIpOrCidrStr host || isHostIdent host || startsWith "tag:" host ||
    startsWith "group:" host || startsWith "autogroup:" host || isUserIdent host

theorem split_ports_literal_eq :
    splitPortsLiteral dst = (rsplitOnce ':' dst).filter fun parts =>
      parts.1 ≠ "" && parts.2 ≠ "" && !isBareIpv6 parts.1 && splittable parts.1 := by
  unfold splitPortsLiteral
  cases hsplit : rsplitOnce ':' dst with
  | none => rfl
  | some parts =>
    obtain ⟨host, ports⟩ := parts
    simp only [Option.bind_eq_bind, Option.bind_some, Option.filter_some]
    by_cases hempty : (host = "" || ports = "") = true
    · rw [if_pos hempty, if_neg]
      simp only [Bool.or_eq_true, decide_eq_true_eq] at hempty
      rcases hempty with h | h <;> simp [h]
    · rw [if_neg hempty]
      simp only [Bool.or_eq_true, decide_eq_true_eq, not_or] at hempty
      cases hbare : isBareIpv6 host with
      | true => simp
      | false =>
        cases hhost : splittable host with
        | true => simp_all [splittable]
        | false => simp_all [splittable]

theorem splittable_iff :
    splittable host = true ↔ host = "*" ∨ isIpOrCidrStr host = true ∨ isHostIdent host = true ∨
      (∃ pre ∈ namedPrefixes, startsWith pre host = true) ∨ isUserIdent host = true := by
  simp only [splittable, Bool.or_eq_true, decide_eq_true_eq, namedPrefixes, List.mem_cons,
    List.not_mem_nil, or_false, exists_eq_or_imp, exists_eq_left]
  tauto

theorem not_bare_of_mem {c : Char} (hc : c ∈ s.toList) (hchar : isAddressChar c = false) :
    isBareIpv6 s = false := by
  by_contra h
  have hbare : isBareIpv6 s = true := Bool.not_eq_false _ ▸ h
  simp only [isBareIpv6, Bool.and_eq_true, Option.isSome_iff_exists] at hbare
  obtain ⟨-, v6, hv6⟩ := hbare
  simp [parse_ipv6_chars hv6 c hc] at hchar

theorem not_bare_of_no_colon (h : ':' ∉ s.toList) : isBareIpv6 s = false := by
  simp [isBareIpv6, h]

theorem not_host_ident_of_mem {c : Char} (hc : c ∈ s.toList)
    (hchar : (isAsciiAlphanumeric c || c == '-' || c == '.' || c == '_') = false) :
    isHostIdent s = false := by
  by_contra h
  have hident : isHostIdent s = true := Bool.not_eq_false _ ▸ h
  simp only [isHostIdent, Bool.and_eq_true, List.all_eq_true] at hident
  simp [hident.2 c hc] at hchar

/-- A text with an `@` can only be a login or a named principal. -/
theorem splittable_of_at (hat : '@' ∈ s.toList) :
    splittable s = true ↔
      (∃ pre ∈ namedPrefixes, startsWith pre s = true) ∨ isUserIdent s = true := by
  have hany : s ≠ "*" := by
    rintro rfl
    exact absurd hat (by decide)
  simp [splittable_iff, hany, not_network_of_mem hat (by decide),
    not_host_ident_of_mem hat (by decide)]

/-! ### Named principals -/

theorem named_not_bracket (hpre : pre ∈ namedPrefixes) : startsWith "[" (pre ++ rest) = false := by
  simp only [namedPrefixes, List.mem_cons, List.not_mem_nil, or_false] at hpre
  rcases hpre with rfl | rfl | rfl <;> simp [startsWith, List.isPrefixOf]

theorem named_form_append (hpre : pre ∈ namedPrefixes) :
    namedForm (pre ++ rest) = some (pre, rest) := by
  have hstrip (pre rest : String) : stripPrefix pre (pre ++ rest) = some rest :=
    strip_prefix_eq_some.mpr rfl
  have hgroup : stripPrefix "autogroup:" ("group:" ++ rest) = none :=
    strip_prefix_eq_none.mpr group_not_autogroup
  have htag : stripPrefix "autogroup:" ("tag:" ++ rest) = none :=
    strip_prefix_eq_none.mpr tag_not_autogroup
  have htag' : stripPrefix "group:" ("tag:" ++ rest) = none := strip_prefix_eq_none.mpr tag_not_group
  simp only [namedPrefixes, List.mem_cons, List.not_mem_nil, or_false] at hpre
  rcases hpre with rfl | rfl | rfl
  · simp [namedForm, namedPrefixes, hstrip]
  · simp only [namedForm, namedPrefixes, List.findSome?_cons, hgroup, hstrip, Option.map_none,
      Option.map_some]
  · simp only [namedForm, namedPrefixes, List.findSome?_cons, htag, htag', hstrip, Option.map_none,
      Option.map_some]

theorem split_bracketed_ports_none {dst : String} (h : startsWith "[" dst = false) :
    splitBracketedPorts dst = none := by
  rw [Option.eq_none_iff_forall_ne_some]
  rintro ⟨host, ports⟩ hsplit
  simp [split_bracketed_ports_eq_some hsplit] at h

theorem bracketed_none {dst : String} (h : startsWith "[" dst = false) : bracketed dst = none := by
  rw [Option.eq_none_iff_forall_ne_some]
  intro inner hinner
  simp [startsWith, bracketed_eq_some hinner, List.isPrefixOf] at h

theorem named_ne_any (hpre : pre ∈ namedPrefixes) : pre ++ rest ≠ "*" := by
  obtain ⟨host, hhost⟩ := named_prefix hpre
  intro h
  rw [hhost.text] at h
  have hcolon : ':' ∈ "*".toList := by
    rw [← h]
    simp
  exact absurd hcolon (by decide)

theorem written_named (hpre : pre ∈ namedPrefixes) :
    written (pre ++ rest) = match rsplitOnce ':' rest with
      | some (name, ports) =>
        if ports = "" then ⟨pre ++ rest, none⟩ else ⟨pre ++ name, some ports⟩
      | none => ⟨pre ++ rest, none⟩ := by
  have hbracket : startsWith "[" (pre ++ rest) = false := named_not_bracket hpre
  rw [written, if_neg (named_ne_any hpre), split_bracketed_ports_none hbracket,
    bracketed_none hbracket, named_form_append hpre]

theorem compiled_named (hpre : pre ∈ namedPrefixes) :
    compiled (pre ++ rest) = match splitPortsLiteral (pre ++ rest) with
      | some (host, ports) => ⟨host, some ports⟩
      | none => ⟨pre ++ rest, none⟩ := by
  have hbracket : startsWith "[" (pre ++ rest) = false := named_not_bracket hpre
  rw [compiled, if_neg (named_ne_any hpre), split_bracketed_ports_none hbracket]

theorem compiled_named_ports (hpre : pre ∈ namedPrefixes)
    (hcolon : ':' ∈ rest.toList) : compiled (pre ++ rest) = written (pre ++ rest) := by
  obtain ⟨⟨name, ports⟩, hsplit⟩ : ∃ parts, rsplitOnce ':' rest = some parts := by
    rw [← Option.isSome_iff_exists, Option.isSome_iff_ne_none]
    exact fun h => rsplit_once_eq_none.mp h hcolon
  have hwhole : rsplitOnce ':' (pre ++ rest) = some (pre ++ name, ports) := by
    obtain ⟨hrest, hports⟩ := rsplit_once_eq_some.mp hsplit
    exact rsplit_once_eq_some.mpr ⟨by simp [hrest], hports⟩
  obtain ⟨host, hhost⟩ := named_prefix hpre
  obtain ⟨c, hc, hchar⟩ := hhost.char
  have hmem : c ∈ (pre ++ name).toList := by simp [hhost.text, hc]
  have hbare : isBareIpv6 (pre ++ name) = false := by
    simp only [isNetworkChar, Bool.or_eq_false_iff] at hchar
    exact not_bare_of_mem hmem hchar.1.1
  have hsplittable : splittable (pre ++ name) = true :=
    splittable_iff.mpr (.inr (.inr (.inr (.inl ⟨pre, hpre, starts_with_append ..⟩))))
  have hne : pre ++ name ≠ "" := by
    intro h
    simp [h] at hmem
  rw [compiled_named hpre, written_named hpre, split_ports_literal_eq, hwhole, hsplit,
    Option.filter_some]
  by_cases hports : ports = ""
  · simp [hports]
  · simp [hports, hne, hbare, hsplittable]

theorem compiled_named_bare (hpre : pre ∈ namedPrefixes) (hrest : rest ≠ "")
    (hcolon : ':' ∉ rest.toList) :
    written (pre ++ rest) = ⟨pre ++ rest, none⟩ ∧
      ∃ host, PrefixHost pre host ∧ compiled (pre ++ rest) = ⟨host, some rest⟩ := by
  obtain ⟨host, hhost⟩ := named_prefix hpre
  have hwhole : rsplitOnce ':' (pre ++ rest) = some (host, rest) :=
    rsplit_once_eq_some.mpr ⟨by simp [hhost.text], hcolon⟩
  have hbare : isBareIpv6 host = false := by
    refine not_bare_of_no_colon fun hmem => ?_
    have hident := hhost.ident
    rw [not_host_ident_of_mem hmem (by decide)] at hident
    cases hident
  have hne : host ≠ "" := by
    rintro rfl
    exact absurd hhost.ident (by decide)
  refine ⟨?_, host, hhost, ?_⟩
  · rw [written_named hpre, rsplit_once_eq_none.mpr hcolon]
  · rw [compiled_named hpre, split_ports_literal_eq, hwhole, Option.filter_some]
    simp [hne, hrest, hbare, splittable_iff.mpr (.inr (.inr (.inl hhost.ident)))]

/-! ### Logins -/

theorem compiled_plain (hplain : PlainDst dst) :
    compiled dst = match splitPortsLiteral dst with
      | some (host, ports) => ⟨host, some ports⟩
      | none => ⟨dst, none⟩ := by
  rw [compiled, if_neg hplain.any, hplain.bracketedPorts]

theorem not_named_of_append {front : String} (hplain : PlainDst dst) (back : String)
    (h : dst = front ++ back) : ¬∃ pre ∈ namedPrefixes, startsWith pre front = true := by
  rintro ⟨pre, hpre, hstarts⟩
  obtain ⟨rest, rfl⟩ := starts_with_iff.mp hstarts
  have hdst : startsWith pre dst = true :=
    starts_with_iff.mpr ⟨rest ++ back, by rw [h, String.append_assoc]⟩
  simp [named_form_eq_none.mp hplain.named pre hpre] at hdst

/-- What the compiler takes for a host before a colon within the user of a login. -/
def HostLike (s : String) : Prop :=
  isBareIpv6 s = false ∧ (s = "*" ∨ isIpOrCidrStr s = true ∨ isHostIdent s = true)

theorem HostLike.ne_empty (h : HostLike s) : s ≠ "" := by
  rintro rfl
  rcases h.2 with h | h | h
  · exact absurd h (by decide)
  · exact absurd h (by decide)
  · exact absurd h (by decide)

section Login

variable {dst user host : String} (hplain : PlainDst dst)
  (hlogin : splitOnce '@' dst = some (user, host))

include hplain hlogin

theorem written_login :
    written dst = match rsplitOnce ':' host with
      | some (name, ports) =>
        if name = "" || ports = "" then ⟨dst, none⟩ else ⟨user ++ "@" ++ name, some ports⟩
      | none => ⟨dst, none⟩ := by
  rw [written, if_neg hplain.any, hplain.bracketedPorts, hplain.bracketed, hplain.named, hlogin]

/-- The host of a login has a colon: the compiler splits there, if there is something on both sides
and the user has no blanks. -/
theorem compiled_login_host {name : String} (hsplit : rsplitOnce ':' host = some (name, ports))
    (huser : user ≠ "") :
    compiled dst = if name ≠ "" ∧ ports ≠ "" ∧ user.toList.all (!isWhitespace ·) = true then
      ⟨user ++ "@" ++ name, some ports⟩ else ⟨dst, none⟩ := by
  obtain ⟨hdst, hat⟩ := split_once_eq_some.mp hlogin
  obtain ⟨hhost, hports⟩ := rsplit_once_eq_some.mp hsplit
  have hwhole : rsplitOnce ':' dst = some (user ++ "@" ++ name, ports) :=
    rsplit_once_eq_some.mpr ⟨by simp [hdst, hhost], hports⟩
  have hfront : splitOnce '@' (user ++ "@" ++ name) = some (user, name) :=
    split_once_eq_some.mpr ⟨by simp, hat⟩
  have hmem : '@' ∈ (user ++ "@" ++ name).toList := by simp
  have hnamed : ¬∃ pre ∈ namedPrefixes, startsWith pre (user ++ "@" ++ name) = true :=
    not_named_of_append hplain (":" ++ ports)
      (String.toList_inj.mp (by simp [hdst, hhost]))
  have hne : user ++ "@" ++ name ≠ "" := by
    intro h
    simp [h] at hmem
  have hsplittable : splittable (user ++ "@" ++ name) = true ↔
      name ≠ "" ∧ user.toList.all (!isWhitespace ·) = true := by
    rw [splittable_of_at hmem, or_iff_right hnamed, isUserIdent, hfront]
    simp [huser]
  rw [compiled_plain hplain, split_ports_literal_eq, hwhole, Option.filter_some]
  simp only [ne_eq, hne, not_false_eq_true, decide_true, not_bare_of_mem hmem (by decide),
    Bool.true_and, Bool.not_false, Bool.and_true]
  by_cases hempty : ports = ""
  · simp [hempty]
  · by_cases hok : splittable (user ++ "@" ++ name) = true
    · obtain ⟨hname, hblank⟩ := hsplittable.mp hok
      rw [if_pos (by simp [hempty, hok]), if_pos ⟨hname, hempty, hblank⟩]
    · rw [if_neg (by simp [hempty, hok]), if_neg]
      rintro ⟨hname, -, hblank⟩
      exact hok (hsplittable.mpr ⟨hname, hblank⟩)

/-- The host of a login has no colon: the compiler splits at the last one of the user, if a host
stands before it. -/
theorem compiled_login_user (hcolon : ':' ∉ host.toList) :
    written dst = ⟨dst, none⟩ ∧
      ((compiled dst = ⟨dst, none⟩ ∧
          ∀ before after, rsplitOnce ':' user = some (before, after) → ¬HostLike before) ∨
        ∃ before after, rsplitOnce ':' user = some (before, after) ∧ HostLike before ∧
          compiled dst = ⟨before, some (after ++ "@" ++ host)⟩) := by
  obtain ⟨hdst, hat⟩ := split_once_eq_some.mp hlogin
  refine ⟨by rw [written_login hplain hlogin, rsplit_once_eq_none.mpr hcolon], ?_⟩
  rw [compiled_plain hplain, split_ports_literal_eq]
  cases huser : rsplitOnce ':' user with
  | none =>
    have hwhole : rsplitOnce ':' dst = none := by
      rw [rsplit_once_eq_none, hdst]
      simp [rsplit_once_eq_none.mp huser, hcolon]
    rw [hwhole]
    exact .inl ⟨rfl, by simp⟩
  | some parts =>
    obtain ⟨before, after⟩ := parts
    obtain ⟨huserText, hafter⟩ := rsplit_once_eq_some.mp huser
    have hwhole : rsplitOnce ':' dst = some (before, after ++ "@" ++ host) :=
      rsplit_once_eq_some.mpr ⟨by simp [hdst, huserText], by simp [hafter, hcolon]⟩
    have hnot : '@' ∉ before.toList := fun h => hat (by rw [huserText]; simp [h])
    have hident : isUserIdent before = false := by
      by_contra h
      exact hnot (at_mem_of_is_user_ident (Bool.not_eq_false _ ▸ h))
    have hnamed : ¬∃ pre ∈ namedPrefixes, startsWith pre before = true :=
      not_named_of_append hplain (":" ++ after ++ "@" ++ host)
        (String.toList_inj.mp (by simp [hdst, huserText]))
    have hne : after ++ "@" ++ host ≠ "" := by
      intro h
      simpa using congrArg String.toList h
    have hsplittable : isBareIpv6 before = false ∧ splittable before = true ↔
      HostLike before := by
      rw [HostLike, splittable_iff]
      simp [hnamed, hident]
    rw [hwhole, Option.filter_some]
    by_cases hhost : HostLike before
    · obtain ⟨hbare, hok⟩ := hsplittable.mpr hhost
      refine .inr ⟨before, after, rfl, hhost, ?_⟩
      rw [if_pos (by simp [hhost.ne_empty, hne, hbare, hok])]
    · refine .inl ⟨?_, ?_⟩
      · rw [if_neg]
        simp only [Bool.and_eq_true, Bool.not_eq_true']
        exact fun h => hhost (hsplittable.mp ⟨h.1.2, h.2⟩)
      · rintro before' after' h
        cases h
        exact hhost

end Login

/-! ### Hosts and addresses -/

def validHost (host : String) : Bool := host = "*" || isIpOrCidrStr host || isHostIdent host

theorem valid_host_chars {c : Char} (h : validHost host = true)
    (hany : c ≠ '*') (hnet : isNetworkChar c = false)
    (hident : (isAsciiAlphanumeric c || c == '-' || c == '.' || c == '_') = false) :
    c ∉ host.toList := by
  intro hc
  simp only [validHost, Bool.or_eq_true, decide_eq_true_eq, not_network_of_mem hc hnet,
    not_host_ident_of_mem hc hident, Bool.false_eq_true, or_false] at h
  subst h
  exact hany (by simpa using hc)

theorem valid_host_ne_empty (h : validHost host = true) : host ≠ "" := by
  rintro rfl
  exact absurd h (by decide)

theorem split_ports_eq_some (h : splitPorts dst = some (host, ports)) :
    rsplitOnce ':' dst = some (host, ports) ∧ host ≠ "" ∧ ports ≠ "" ∧
      (startsWith "[" host = true ∨
        (isPlainIpv4OrCidr host || host = "*" || isHostIdent host) = true) := by
  unfold splitPorts at h
  split at h
  · cases h
  case h_2 host' ports' hsplit =>
    split_ifs at h with hempty hhost
    cases h
    simp only [Bool.or_eq_true, decide_eq_true_eq, not_or] at hempty hhost ⊢
    exact ⟨hsplit, hempty.1, hempty.2, by tauto⟩

theorem split_bracketed_ports_of_host {inner : String}
    (hsplit : rsplitOnce ':' dst = some (host, ports)) (hports : ports ≠ "")
    (hinner : bracketed host = some inner) (hvalid : validHost inner = true) :
    splitBracketedPorts dst = some (inner, ports) := by
  have hclosed : ']' ∉ inner.toList :=
    valid_host_chars hvalid (by decide) (by decide) (by decide)
  have htext : dst.toList = ('[' :: inner.toList) ++ [']', ':'] ++ ports.toList := by
    rw [(rsplit_once_eq_some.mp hsplit).1, bracketed_eq_some hinner]
    simp
  have hpair : splitOnceStr "]:" dst = some ("[" ++ inner, ports) := by
    have hlist : splitOnceStrList [']', ':'] ('[' :: inner.toList ++ [']', ':'] ++ ports.toList) =
        some ('[' :: inner.toList, ports.toList) := split_once_str_list_append (by simp [hclosed])
    rw [splitOnceStr, htext, show "]:".toList = [']', ':'] from rfl, hlist]
    simp only [Option.map_some, Option.some.injEq, Prod.mk.injEq, String.ofList_toList, and_true]
    exact String.toList_inj.mp (by simp)
  rw [splitBracketedPorts, hpair]
  simp [strip_prefix_eq_some.mpr rfl, valid_host_ne_empty hvalid, hports]

theorem not_bracket_of_split_ports
    (hbracketed : splitBracketedPorts dst = none) (hsplit : splitPorts dst = some (host, ports))
    (hvalid : validHost (stripBrackets host) = true) : startsWith "[" host = false := by
  obtain ⟨hwhole, -, hports, -⟩ := split_ports_eq_some hsplit
  rw [Bool.eq_false_iff]
  intro hstarts
  cases hinner : bracketed host with
  | some inner =>
    rw [stripBrackets, hinner, Option.getD_some] at hvalid
    simp [split_bracketed_ports_of_host hwhole hports hinner hvalid] at hbracketed
  | none =>
    rw [stripBrackets, hinner, Option.getD_none] at hvalid
    exact valid_host_chars hvalid (by decide) (by decide) (by decide)
      (mem_of_starts_with hstarts (by decide : '[' ∈ "[".toList))

/-- Within an address or a host name, no network ends before the last colon but a bare IPv6
address. -/
theorem not_network_before_colon {dst host ports : String}
    (hwhole : rsplitOnce ':' dst = some (host, ports))
    (hvalid : isIpOrCidrStr dst = true ∨ isHostIdent dst = true) (hbare : isBareIpv6 host = false)
    (hbracket : startsWith "[" host = false) (hplain : isPlainIpv4OrCidr host = false) :
    ¬isIpOrCidrStr host = true := by
  intro hnet
  obtain ⟨hdst, -⟩ := rsplit_once_eq_some.mp hwhole
  have hcolon : ':' ∈ dst.toList := by simp [hdst]
  have hvalid : isIpOrCidrStr dst = true := by
    rcases hvalid with h | h
    · exact h
    · simp [not_host_ident_of_mem hcolon (by decide)] at h
  cases hip : parseIp host with
  | some ip =>
    rcases parse_ip_family hip with ⟨hno, hdot⟩ | ⟨hcolon, hv6⟩
    · simp [isPlainIpv4OrCidr, hno, hdot, hnet] at hplain
    · simp [isBareIpv6, hcolon, hbracket, hv6] at hbare
  | none =>
    -- The host has a slash, so the bits of the whole network would hold a colon.
    rw [isIpOrCidrStr, hip] at hnet
    cases hslash : splitOnce '/' host with
    | none => simp [hslash] at hnet
    | some parts =>
      obtain ⟨addr, bits⟩ := parts
      obtain ⟨hhost, haddr⟩ := split_once_eq_some.mp hslash
      have hwholeSlash : splitOnce '/' dst = some (addr, bits ++ ":" ++ ports) :=
        split_once_eq_some.mpr ⟨by simp [hdst, hhost], haddr⟩
      have hmem : '/' ∈ dst.toList := by simp [hdst, hhost]
      have hnone : parseIp dst = none := by
        cases hparse : parseIp dst with
        | none => rfl
        | some ip => exact absurd (parse_ip_chars hparse '/' hmem) (by decide)
      rw [isIpOrCidrStr, hnone, hwholeSlash] at hvalid
      cases hbits : parseU8 (bits ++ ":" ++ ports) with
      | none =>
        cases hparse : parseIp addr <;> simp [hbits, hparse] at hvalid
      | some n =>
        have hchar := chars_of_parse_unsigned hbits ':' (by simp)
        exact absurd hchar (by decide)

section Host

variable {dst : String} (hplain : PlainDst dst) (hat : '@' ∉ dst.toList)

include hplain hat

theorem written_host :
    written dst = match splitPorts dst with
      | some (host, ports) => ⟨host, some ports⟩
      | none => ⟨dst, none⟩ := by
  rw [written, if_neg hplain.any, hplain.bracketedPorts, hplain.bracketed, hplain.named,
    split_once_eq_none.mpr hat]

theorem compiled_host_ports (hsplit : splitPorts dst = some (host, ports))
    (hvalid : validHost (stripBrackets host) = true) : compiled dst = written dst := by
  obtain ⟨hwhole, hne, hports, hhost⟩ := split_ports_eq_some hsplit
  have hbracket := not_bracket_of_split_ports hplain.bracketedPorts hsplit hvalid
  rw [hbracket, or_iff_right Bool.false_ne_true] at hhost
  simp only [isPlainIpv4OrCidr, Bool.or_eq_true, Bool.and_eq_true, Bool.not_eq_true',
    decide_eq_true_eq] at hhost
  have hcolon : ':' ∉ host.toList := by
    rcases hhost with (hipv4 | hstar) | hident
    · simpa using hipv4.1.1
    · rw [hstar]
      decide
    · intro hmem
      simp [not_host_ident_of_mem hmem (by decide)] at hident
  have hsplittable : splittable host = true := by
    rw [splittable_iff]
    rcases hhost with (hipv4 | hstar) | hident
    · exact .inr (.inl hipv4.2)
    · exact .inl hstar
    · exact .inr (.inr (.inl hident))
  rw [compiled_plain hplain, written_host hplain hat, split_ports_literal_eq, hwhole, hsplit,
    Option.filter_some, if_pos (by simp [hne, hports, not_bare_of_no_colon hcolon, hsplittable])]

theorem compiled_host (hsplit : splitPorts dst = none)
    (hvalid : isIpOrCidrStr dst = true ∨ isHostIdent dst = true) : compiled dst = written dst := by
  have hnone : splitPortsLiteral dst = none := by
    rw [split_ports_literal_eq, Option.filter_eq_none_iff]
    rintro ⟨host, ports⟩ hwhole hok
    simp only [Bool.and_eq_true, Bool.not_eq_true', decide_eq_true_eq, ne_eq] at hok
    obtain ⟨⟨⟨hne, hports⟩, hbare⟩, hsplittable⟩ := hok
    have hdst := (rsplit_once_eq_some.mp hwhole).1
    have hnot : startsWith "[" host = false ∧ isPlainIpv4OrCidr host = false ∧ host ≠ "*" ∧
        isHostIdent host = false := by
      simp only [splitPorts, hwhole, hne, hports, decide_false, Bool.or_false,
        Bool.false_eq_true, if_false, ite_eq_right_iff, reduceCtorEq, imp_false, Bool.or_eq_true,
        decide_eq_true_eq, not_or, Bool.not_eq_true] at hsplit
      tauto
    rcases splittable_iff.mp hsplittable with hstar | hnet | hident | hnamed | huser
    · exact hnot.2.2.1 hstar
    · exact not_network_before_colon hwhole hvalid hbare hnot.1 hnot.2.1 hnet
    · simp [hnot.2.2.2] at hident
    · exact not_named_of_append hplain (":" ++ ports)
        (String.toList_inj.mp (by simp [hdst])) hnamed
    · refine hat ?_
      rw [hdst]
      exact List.mem_append_left _ (at_mem_of_is_user_ident huser)
  rw [compiled_plain hplain, written_host hplain hat, hnone, hsplit]

end Host

/-! ### The forms of a destination -/

/-- What a text that the validator accepts as a destination can be. -/
inductive DstForm (dst : String) : Prop where
  | any (h : dst = "*")
  | bracketedPorts (host ports : String) (h : splitBracketedPorts dst = some (host, ports))
  | brackets (inner : String) (hports : splitBracketedPorts dst = none)
      (h : bracketed dst = some inner) (hinner : isIpOrCidrStr inner = true ∨ '@' ∈ inner.toList)
  | named (pre rest : String) (hpre : pre ∈ namedPrefixes) (h : dst = pre ++ rest)
    (hrest : rest ≠ "")
  | login (user host : String) (hplain : PlainDst dst)
      (h : splitOnce '@' dst = some (user, host)) (huser : user ≠ "")
  | hostPorts (host ports : String) (hplain : PlainDst dst) (hat : '@' ∉ dst.toList)
      (h : splitPorts dst = some (host, ports)) (hvalid : validHost (stripBrackets host) = true)
  | host (hplain : PlainDst dst) (hat : '@' ∉ dst.toList) (h : splitPorts dst = none)
      (hvalid : isIpOrCidrStr dst = true ∨ isHostIdent dst = true)

/-- The validator on a destination that is neither `*` nor a named principal. -/
theorem is_dst_unnamed (hany : dst ≠ "*") (hnamed : namedForm dst = none) :
    isDst dst = match splitOnce '@' dst with
      | some (user, host) => user ≠ "" && host ≠ ""
      | none =>
        match splitPorts dst with
        | some (host, ports) => validHost (stripBrackets host) && validPortlist ports
        | none =>
          match bracketed dst with
          | some host => isIpOrCidrStr host
          | none => isIpOrCidrStr dst || isHostIdent dst := by
  have hstrip {pre : String} (hpre : pre ∈ namedPrefixes) : stripPrefix pre dst = none :=
    strip_prefix_eq_none.mpr (named_form_eq_none.mp hnamed pre hpre)
  rw [isDst, if_neg hany, hstrip (by decide), hstrip (by decide), hstrip (by decide)]
  rfl

theorem is_dst_named (hpre : pre ∈ namedPrefixes) (h : isDst (pre ++ rest) = true) : rest ≠ "" := by
  rintro rfl
  have hall : ∀ pre ∈ namedPrefixes, isDst (pre ++ "") = false := by decide
  rw [hall pre hpre] at h
  cases h

theorem at_mem_bracketed {inner : String} (h : bracketed dst = some inner)
    (hat : '@' ∈ dst.toList) : '@' ∈ inner.toList := by
  rw [bracketed_eq_some h] at hat
  simpa using hat

theorem bracket_of_split {inner : String} (h : bracketed dst = some inner)
    (hsplit : rsplitOnce ':' dst = some (host, ports)) (hne : host ≠ "") :
    startsWith "[" host = true := by
  have htext := (rsplit_once_eq_some.mp hsplit).1
  rw [bracketed_eq_some h] at htext
  cases hhost : host.toList with
  | nil => exact absurd (String.toList_inj.mp (hhost.trans String.toList_empty.symm)) hne
  | cons c cs =>
    rw [hhost, List.cons_append, List.cons.injEq] at htext
    simp [startsWith, hhost, ← htext.1, List.isPrefixOf]

theorem dst_form (h : isDst dst = true) : DstForm dst := by
  by_cases hany : dst = "*"
  · exact .any hany
  cases hports : splitBracketedPorts dst with
  | some parts => exact .bracketedPorts parts.1 parts.2 hports
  | none =>
    cases hnamed : namedForm dst with
    | some parts =>
      obtain ⟨hpre, rfl⟩ := named_form_eq_some hnamed
      exact .named _ _ hpre rfl (is_dst_named hpre h)
    | none =>
      rw [is_dst_unnamed hany hnamed] at h
      cases hinner : bracketed dst with
      | some inner =>
        refine .brackets inner hports hinner ?_
        by_cases hat : '@' ∈ dst.toList
        · exact .inr (at_mem_bracketed hinner hat)
        rw [split_once_eq_none.mpr hat, hinner] at h
        cases hsplit : splitPorts dst with
        | none =>
          rw [hsplit] at h
          exact .inl h
        | some parts =>
          obtain ⟨host, ports⟩ := parts
          rw [hsplit] at h
          have hvalid := (Bool.and_eq_true_iff.mp h).1
          have hstarts := not_bracket_of_split_ports hports hsplit hvalid
          obtain ⟨hwhole, hne, -⟩ := split_ports_eq_some hsplit
          simp [bracket_of_split hinner hwhole hne] at hstarts
      | none =>
        have hplain : PlainDst dst := ⟨hany, hports, hinner, hnamed⟩
        cases hlogin : splitOnce '@' dst with
        | some parts =>
          rw [hlogin] at h
          simp only [Bool.and_eq_true, decide_eq_true_eq] at h
          exact .login parts.1 parts.2 hplain hlogin h.1
        | none =>
          have hat := split_once_eq_none.mp hlogin
          rw [hlogin, hinner] at h
          cases hsplit : splitPorts dst with
          | some parts =>
            rw [hsplit] at h
            exact .hostPorts parts.1 parts.2 hplain hat hsplit
              (Bool.and_eq_true_iff.mp h).1
          | none =>
            rw [hsplit] at h
            exact .host hplain hat hsplit (Bool.or_eq_true_iff.mp h)

structure ReadAsWritten (dst : String) : Prop where
  /-- The name of a group, a tag or an autogroup is followed by a port list. -/
  named : ∀ pre rest, namedForm dst = some (pre, rest) → ':' ∈ rest.toList
  /-- Brackets are followed by a port list. -/
  brackets : splitBracketedPorts dst = none → bracketed dst = none
  /-- The user of a login with a port list has no blanks. -/
  loginPorts : PlainDst dst → ∀ user host, splitOnce '@' dst = some (user, host) →
    (written dst).ports ≠ none → ∀ c ∈ user.toList, isWhitespace c = false
  /-- In a login without a colon in its host, no host stands before the last colon of the user. -/
  loginUser : PlainDst dst → ∀ user host, splitOnce '@' dst = some (user, host) →
    ':' ∉ host.toList → ∀ before after, rsplitOnce ':' user = some (before, after) →
      ¬HostLike before

theorem compiled_eq_written (hdst : isDst dst = true) (h : ReadAsWritten dst) :
    compiled dst = written dst := by
  cases dst_form hdst with
  | any hany => simp [compiled, written, hany]
  | bracketedPorts host ports hports =>
    by_cases hany : dst = "*"
    · simp [compiled, written, hany]
    · simp [compiled, written, hany, hports]
  | brackets inner hports hinner => simp [h.brackets hports] at hinner
  | named pre rest hpre hnamed =>
    subst hnamed
    exact compiled_named_ports hpre (h.named pre rest (named_form_append hpre))
  | login user host hplain hlogin huser =>
    cases hsplit : rsplitOnce ':' host with
    | none =>
      have hcolon := rsplit_once_eq_none.mp hsplit
      obtain ⟨hwritten, ⟨hcompiled, -⟩ | ⟨before, after, hbefore, hhost, -⟩⟩ :=
        compiled_login_user hplain hlogin hcolon
      · rw [hcompiled, hwritten]
      · exact absurd hhost (h.loginUser hplain user host hlogin hcolon before after hbefore)
    | some parts =>
      obtain ⟨name, ports⟩ := parts
      have hblank := h.loginPorts hplain user host hlogin
      have hwritten := written_login hplain hlogin
      rw [hsplit] at hwritten
      rw [compiled_login_host hplain hlogin hsplit huser]
      rw [hwritten] at hblank ⊢
      by_cases hempty : name = "" ∨ ports = ""
      · rcases hempty with rfl | rfl <;> simp
      · simp only [not_or] at hempty
        simp [hempty.1, hempty.2] at hblank ⊢
        exact hblank
  | hostPorts host ports hplain hat hsplit hvalid =>
    exact compiled_host_ports hplain hat hsplit hvalid
  | host hplain hat hsplit hvalid => exact compiled_host hplain hat hsplit hvalid

end Crabscale.Policy
