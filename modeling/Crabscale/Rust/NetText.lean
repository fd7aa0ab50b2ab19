import Crabscale.Rust.Net

/-!
# Addresses as text

The text of an address holds hexadecimal digits, dots and colons only (`parse_ip_chars`), and an
address that is printed and parsed is itself, for both families and every abbreviation
(`parse_ip_display`).
-/

namespace Crabscale.Rust

/-! ## Characters -/

def isIpv4Char (c : Char) : Bool := (toDigit 10 c).isSome || c == '.'

def isAddressChar (c : Char) : Bool := (toDigit 16 c).isSome || c == '.' || c == ':'

/-- A reader went from `cs` to `rest` over characters that are `ok`. -/
def ReadsTo (ok : Char → Bool) (cs rest : List Char) : Prop :=
  ∃ consumed, cs = consumed ++ rest ∧ ∀ c ∈ consumed, ok c = true

section Reads

variable {ok : Char → Bool} {cs rest : List Char}

theorem ReadsTo.refl (cs : List Char) : ReadsTo ok cs cs := ⟨[], rfl, by simp⟩

theorem ReadsTo.trans {middle : List Char} (h : ReadsTo ok cs middle)
    (h' : ReadsTo ok middle rest) : ReadsTo ok cs rest := by
  obtain ⟨front, rfl, hfront⟩ := h
  obtain ⟨back, rfl, hback⟩ := h'
  refine ⟨front ++ back, (List.append_assoc _ _ _).symm, ?_⟩
  intro c hc
  rcases List.mem_append.mp hc with hc | hc
  · exact hfront c hc
  · exact hback c hc

theorem ReadsTo.mono {ok' : Char → Bool} (h : ReadsTo ok cs rest)
    (hok : ∀ c, ok c = true → ok' c = true) : ReadsTo ok' cs rest := by
  obtain ⟨consumed, rfl, hconsumed⟩ := h
  exact ⟨consumed, rfl, fun c hc => hok c (hconsumed c hc)⟩

theorem ReadsTo.all (h : ReadsTo ok cs []) : ∀ c ∈ cs, ok c = true := by
  obtain ⟨consumed, hcs, hconsumed⟩ := h
  rw [hcs, List.append_nil]
  exact hconsumed

theorem to_digit_mono {radix radix' : Nat} (hle : radix ≤ radix') {c : Char}
    (h : (toDigit radix c).isSome = true) : (toDigit radix' c).isSome = true := by
  unfold toDigit at h ⊢
  simp only [Option.isSome_filter, Option.any_eq_true, decide_eq_true_eq] at h ⊢
  obtain ⟨value, hvalue, hlt⟩ := h
  exact ⟨value, hvalue, lt_of_lt_of_le hlt hle⟩

theorem to_digit_ten_none {c : Char} (h : toDigit 16 c = none) : toDigit 10 c = none := by
  rw [← Option.isSome_eq_false_iff.trans Option.isNone_iff_eq_none] at h ⊢
  by_contra hsome
  rw [to_digit_mono (by omega : 10 ≤ 16) (Bool.not_eq_false _ ▸ hsome)] at h
  cases h

theorem drop_length_take_while {α : Type} (p : α → Bool) (xs : List α) :
    xs.drop (xs.takeWhile p).length = xs.dropWhile p := by
  have hsplit := List.takeWhile_append_dropWhile (p := p) (l := xs)
  calc xs.drop (xs.takeWhile p).length
      = (xs.takeWhile p ++ xs.dropWhile p).drop (xs.takeWhile p).length := by rw [hsplit]
    _ = xs.dropWhile p := List.drop_left

theorem read_number_reads {radix maxDigits limit value : Nat} {allowZero : Bool}
    (hok : ∀ c, (toDigit radix c).isSome = true → ok c = true)
    (h : readNumber radix maxDigits limit allowZero cs = some (value, rest)) :
    ReadsTo ok cs rest := by
  simp only [readNumber, Option.ite_none_left_eq_some, Option.some.injEq, Prod.mk.injEq] at h
  obtain ⟨-, -, rfl⟩ := h
  refine ⟨cs.takeWhile fun c => (toDigit radix c).isSome, ?_, ?_⟩
  · rw [drop_length_take_while]
    exact List.takeWhile_append_dropWhile.symm
  · intro c hc
    exact hok c (List.all_eq_true.mp List.all_takeWhile c hc)

theorem read_given_char_reads {target : Char} (htarget : ok target = true)
    (h : readGivenChar target cs = some rest) : ReadsTo ok cs rest := by
  cases cs with
  | nil => cases h
  | cons c cs =>
    simp only [readGivenChar, Option.ite_none_right_eq_some, Option.some.injEq] at h
    obtain ⟨rfl, rfl⟩ := h
    exact ⟨[c], rfl, by simpa using htarget⟩

theorem read_separator_reads {α : Type} {sep : Char} {first : Bool}
    {inner : List Char → Option (α × List Char)} {value : α} (hsep : ok sep = true)
    (hinner : ∀ cs value rest, inner cs = some (value, rest) → ReadsTo ok cs rest)
    (h : readSeparator sep first inner cs = some (value, rest)) : ReadsTo ok cs rest := by
  unfold readSeparator at h
  split at h
  case isTrue => exact hinner cs value rest h
  case isFalse =>
    obtain ⟨cs', hchar, hvalue⟩ := Option.bind_eq_some_iff.mp h
    exact (read_given_char_reads hsep hchar).trans (hinner cs' value rest hvalue)

theorem read_ipv4_addr_reads {value : Ipv4Addr} (h : readIpv4Addr cs = some (value, rest)) :
    ReadsTo isIpv4Char cs rest := by
  have hoctet : ∀ cs value rest, readNumber 10 3 255 false cs = some (value, rest) →
      ReadsTo isIpv4Char cs rest :=
    fun _ _ _ => read_number_reads fun c hc => by simp [isIpv4Char, hc]
  have hdot : isIpv4Char '.' = true := by decide
  simp only [readIpv4Addr, Option.bind_eq_bind, Option.bind_eq_some_iff, Option.pure_def,
    Option.some.injEq, Prod.mk.injEq, Prod.exists] at h
  obtain ⟨_, _, ha, _, _, hb, _, _, hc, _, _, hd, -, rfl⟩ := h
  exact (((hoctet _ _ _ ha).trans (read_separator_reads hdot hoctet hb)).trans
    (read_separator_reads hdot hoctet hc)).trans (read_separator_reads hdot hoctet hd)

theorem is_address_char_of_ipv4 (c : Char) (h : isIpv4Char c = true) : isAddressChar c = true := by
  rcases Bool.or_eq_true_iff.mp h with hdigit | hdot
  · simp [isAddressChar, to_digit_mono (by omega : 10 ≤ 16) hdigit]
  · simp [isAddressChar, hdot]

theorem read_group_reads {value : Nat} (h : readNumber 16 4 65535 true cs = some (value, rest)) :
    ReadsTo isAddressChar cs rest :=
  read_number_reads (fun c hc => by simp [isAddressChar, hc]) h

theorem read_groups_reads (left : Nat) (first : Bool) (cs : List Char) :
    ReadsTo isAddressChar cs (readGroups left first cs).2.2 := by
  have hcolon : isAddressChar ':' = true := by decide
  induction left generalizing first cs with
  | zero => exact .refl cs
  | succ left ih =>
    unfold readGroups
    split
    case h_1 _ v4 rest hv4 =>
      split at hv4
      · exact read_separator_reads hcolon
          (fun _ _ _ h => (read_ipv4_addr_reads h).mono is_address_char_of_ipv4) hv4
      · cases hv4
    case h_2 =>
      split
      case h_1 _ group rest hgroup =>
        exact (read_separator_reads hcolon (fun _ _ _ => read_group_reads) hgroup).trans
          (ih false rest)
      case h_2 => exact .refl cs

theorem read_ipv6_addr_reads {value : Ipv6Addr} (h : readIpv6Addr cs = some (value, rest)) :
    ReadsTo isAddressChar cs rest := by
  have hcolon : isAddressChar ':' = true := by decide
  have hhead := read_groups_reads 8 true cs
  unfold readIpv6Addr at h
  split at h
  case h_1 head headIpv4 middle hgroups =>
    rw [hgroups] at hhead
    split_ifs at h
    · simp only [Option.some.injEq, Prod.mk.injEq] at h
      exact h.2 ▸ hhead
    · simp only [Option.bind_eq_bind, Option.bind_eq_some_iff, Option.pure_def, Option.some.injEq,
        Prod.mk.injEq] at h
      obtain ⟨_, hfirst, tail, hsecond, -, rfl⟩ := h
      exact ((hhead.trans (read_given_char_reads hcolon hfirst)).trans
        (read_given_char_reads hcolon hsecond)).trans (read_groups_reads _ true tail)

end Reads

theorem at_end_eq_some {α : Type} {result : Option (α × List Char)} {value : α} :
    atEnd result = some value ↔ result = some (value, []) := by
  rcases result with _ | ⟨v, _ | ⟨c, rest⟩⟩ <;> simp [atEnd]

theorem parse_ip_eq_some {s : String} {ip : IpAddr} (h : parseIp s = some ip) :
    (∃ v4, ip = .v4 v4 ∧ readIpv4Addr s.toList = some (v4, [])) ∨
      ∃ v6, ip = .v6 v6 ∧ readIpv6Addr s.toList = some (v6, []) := by
  unfold parseIp at h
  split at h
  case h_1 _ v4 rest hv4 =>
    obtain ⟨rfl, rfl⟩ : IpAddr.v4 v4 = ip ∧ rest = [] := by simpa [at_end_eq_some] using h
    exact .inl ⟨v4, rfl, hv4⟩
  case h_2 =>
    obtain ⟨⟨v6, rest⟩, hv6, hip⟩ := Option.map_eq_some_iff.mp (at_end_eq_some.mp h)
    cases hip
    exact .inr ⟨v6, rfl, hv6⟩

theorem parse_ip_chars {s : String} {ip : IpAddr} (h : parseIp s = some ip) :
    ∀ c ∈ s.toList, isAddressChar c = true := by
  rcases parse_ip_eq_some h with ⟨v4, -, hv4⟩ | ⟨v6, -, hv6⟩
  · exact ((read_ipv4_addr_reads hv4).mono is_address_char_of_ipv4).all
  · exact (read_ipv6_addr_reads hv6).all

theorem parse_ipv6_chars {s : String} {v6 : Ipv6Addr} (h : parseIpv6 s = some v6) :
    ∀ c ∈ s.toList, isAddressChar c = true :=
  (read_ipv6_addr_reads (at_end_eq_some.mp h)).all

/-! ## Separators -/

variable {cs rest : List Char}

theorem separator_mem {α : Type} {sep : Char} {inner : List Char → Option (α × List Char)}
    {value : α} (h : readSeparator sep false inner cs = some (value, rest)) : sep ∈ cs := by
  unfold readSeparator at h
  cases cs with
  | nil => cases h
  | cons c cs =>
    by_cases hc : c = sep
    · simp [hc]
    · simp [readGivenChar, hc] at h

theorem dot_mem_of_read_ipv4 {value : Ipv4Addr}
    (h : readIpv4Addr cs = some (value, rest)) : '.' ∈ cs := by
  simp only [readIpv4Addr, Option.bind_eq_bind, Option.bind_eq_some_iff, Prod.exists] at h
  obtain ⟨_, cs', hfirst, _, _, hsecond, -⟩ := h
  have hreads : ReadsTo (fun _ => true) cs cs' := read_number_reads (fun _ _ => rfl) hfirst
  obtain ⟨consumed, rfl, -⟩ := hreads
  exact List.mem_append_right _ (separator_mem hsecond)

theorem colon_mem_of_read_more (left : Nat) (h : (readGroups left false cs).1 ≠ []) : ':' ∈ cs := by
  cases left with
  | zero => exact absurd rfl h
  | succ left =>
    unfold readGroups at h
    split at h
    case h_1 _ v4 rest hv4 =>
      split at hv4
      · exact separator_mem hv4
      · cases hv4
    case h_2 =>
      split at h
      case h_1 _ group rest hgroup => exact separator_mem hgroup
      case h_2 => exact absurd rfl h

theorem colon_mem_of_read_groups (left : Nat)
    (h : 2 < (readGroups left true cs).1.length) : ':' ∈ cs := by
  cases left with
  | zero => simp [readGroups] at h
  | succ left =>
    unfold readGroups at h
    split at h
    case h_1 _ v4 rest hv4 => simp at h
    case h_2 =>
      split at h
      case h_1 _ group rest hgroup =>
        obtain ⟨consumed, rfl, -⟩ := read_separator_reads (by decide)
          (fun _ _ _ => read_group_reads) hgroup
        refine List.mem_append_right _ (colon_mem_of_read_more left ?_)
        intro hnil
        simp [hnil] at h
      case h_2 => simp at h

theorem colon_mem_of_read_ipv6 {value : Ipv6Addr}
    (h : readIpv6Addr cs = some (value, rest)) : ':' ∈ cs := by
  have hreads := read_groups_reads 8 true cs
  unfold readIpv6Addr at h
  split at h
  case h_1 head headIpv4 middle hgroups =>
    split_ifs at h with hlength
    · exact colon_mem_of_read_groups 8 (by rw [hgroups, hlength]; omega)
    · simp only [Option.bind_eq_bind, Option.bind_eq_some_iff] at h
      obtain ⟨after, hcolon, -⟩ := h
      rw [hgroups] at hreads
      obtain ⟨consumed, rfl, -⟩ := hreads
      have hseparator : readSeparator ':' false (fun cs => some ((), cs)) middle =
          some ((), after) := by
        rw [readSeparator, if_neg Bool.false_ne_true, hcolon]
        rfl
      exact List.mem_append_right _ (separator_mem hseparator)

theorem parse_ip_family {s : String} {ip : IpAddr} (h : parseIp s = some ip) :
    (':' ∉ s.toList ∧ '.' ∈ s.toList) ∨ (':' ∈ s.toList ∧ (parseIpv6 s).isSome = true) := by
  rcases parse_ip_eq_some h with ⟨v4, -, hv4⟩ | ⟨v6, -, hv6⟩
  · refine .inl ⟨fun hcolon => ?_, dot_mem_of_read_ipv4 hv4⟩
    exact absurd ((read_ipv4_addr_reads hv4).all ':' hcolon) (by decide)
  · exact .inr ⟨colon_mem_of_read_ipv6 hv6, by simp [parseIpv6, at_end_eq_some.mpr hv6]⟩

/-! ## Numbers -/

theorem to_digit_digit_char {radix d : Nat} (hradix : radix ≤ 16) (hd : d < radix) :
    toDigit radix d.digitChar = some d := by
  have hall : ∀ radix ≤ 16, ∀ d < radix, toDigit radix d.digitChar = some d := by decide
  exact hall radix hradix d hd

section Digits

variable {radix : Nat} (hradix : 1 < radix) (hradix16 : radix ≤ 16)

include hradix hradix16

theorem to_digit_of_mem_to_digits {n : Nat} {c : Char} (hc : c ∈ radix.toDigits n) :
    (toDigit radix c).isSome = true := by
  induction n using Nat.strongRecOn with
  | _ n ih =>
    rw [Nat.toDigits_eq_if hradix] at hc
    split at hc
    case isTrue hn =>
      rw [List.mem_singleton.mp hc, to_digit_digit_char hradix16 hn]
      rfl
    case isFalse hn =>
      rcases List.mem_append.mp hc with hc | hc
      · exact ih (n / radix) (Nat.div_lt_self (by omega) hradix) hc
      · rw [List.mem_singleton.mp hc, to_digit_digit_char hradix16 (Nat.mod_lt _ (by omega))]
        rfl

theorem value_to_digits (n : Nat) :
    (radix.toDigits n).foldl (fun n c => n * radix + (toDigit radix c).getD 0) 0 = n := by
  induction n using Nat.strongRecOn with
  | _ n ih =>
    rw [Nat.toDigits_eq_if hradix]
    split
    case isTrue hn => simp [to_digit_digit_char hradix16 hn]
    case isFalse hn =>
      rw [List.foldl_append, ih (n / radix) (Nat.div_lt_self (by omega) hradix), List.foldl_cons,
        List.foldl_nil, to_digit_digit_char hradix16 (Nat.mod_lt _ (by omega)), Option.getD_some,
        Nat.div_add_mod']

omit hradix16 in
theorem eq_zero_of_head_to_digits {n : Nat} (h : (radix.toDigits n).head? = some '0') : n = 0 := by
  induction n using Nat.strongRecOn with
  | _ n ih =>
    rw [Nat.toDigits_eq_if hradix] at h
    split at h
    case isTrue hn => simpa using h
    case isFalse hn =>
      rw [List.head?_append_of_ne_nil _ Nat.toDigits_ne_nil] at h
      have hzero := ih (n / radix) (Nat.div_lt_self (by omega) hradix) h
      have hpos := Nat.div_pos (by omega : radix ≤ n) (by omega)
      omega

theorem read_number_to_digits {maxDigits limit n : Nat} {allowZero : Bool}
    (hdigits : 0 < maxDigits) (hlen : n < radix ^ maxDigits) (hlimit : n ≤ limit)
    (hrest : ∀ c ∈ rest.head?, toDigit radix c = none) :
    readNumber radix maxDigits limit allowZero (radix.toDigits n ++ rest) = some (n, rest) := by
  have htake : (radix.toDigits n ++ rest).takeWhile (fun c => (toDigit radix c).isSome) =
      radix.toDigits n := by
    rw [List.takeWhile_append_of_pos fun c hc => to_digit_of_mem_to_digits hradix hradix16 hc]
    cases rest with
    | nil => simp
    | cons c rest => simp [hrest c rfl]
  have hzero : ¬((radix.toDigits n).head? = some '0' ∧ 1 < (radix.toDigits n).length) := by
    rintro ⟨hhead, hlong⟩
    rw [eq_zero_of_head_to_digits hradix hhead, Nat.toDigits_zero] at hlong
    simp at hlong
  have hlength := (Nat.length_toDigits_le_iff hradix hdigits).mpr hlen
  unfold readNumber
  rw [htake]
  dsimp only
  rw [value_to_digits hradix hradix16, List.drop_left, if_neg]
  simp only [Bool.or_eq_true, List.isEmpty_iff, decide_eq_true_eq, Bool.and_eq_true,
    Bool.not_eq_true',
    beq_iff_eq]
  rintro (((hnil | hlong) | hlarge) | ⟨⟨-, hhead⟩, hlong⟩)
  · exact Nat.toDigits_ne_nil hnil
  · omega
  · omega
  · exact hzero ⟨hhead, hlong⟩

end Digits

/-! ## IPv4 -/

theorem read_octet {n : Nat} (hn : n < 256) (hrest : ∀ c ∈ rest.head?, toDigit 10 c = none) :
    readNumber 10 3 255 false (Nat.toDigits 10 n ++ rest) = some (n, rest) :=
  read_number_to_digits (by omega) (by omega) (by omega) (by omega) (by omega) hrest

theorem to_list_ipv4_display (a : Ipv4Addr) :
    a.display.toList =
      Nat.toDigits 10 (a.bits.toNat / 2 ^ 24 % 256) ++ '.' ::
        (Nat.toDigits 10 (a.bits.toNat / 2 ^ 16 % 256) ++ '.' ::
          (Nat.toDigits 10 (a.bits.toNat / 2 ^ 8 % 256) ++ '.' ::
            Nat.toDigits 10 (a.bits.toNat % 256))) := by
  simp [Ipv4Addr.display, Ipv4Addr.octets, Nat.repr_eq_ofList_toDigits]

theorem read_ipv4_display (a : Ipv4Addr) (hrest : ∀ c ∈ rest.head?, toDigit 10 c = none) :
    readIpv4Addr (a.display.toList ++ rest) = some (a, rest) := by
  have hdot : ∀ cs : List Char, ∀ c ∈ ('.' :: cs).head?, toDigit 10 c = none := by
    intro cs c hc
    obtain rfl : '.' = c := by simpa using hc
    decide
  have hbits : (((a.bits.toNat / 2 ^ 24 % 256) * 256 + a.bits.toNat / 2 ^ 16 % 256) * 256 +
      a.bits.toNat / 2 ^ 8 % 256) * 256 + a.bits.toNat % 256 = a.bits.toNat := by
    have := a.bits.isLt
    omega
  have htext : a.display.toList ++ rest =
      Nat.toDigits 10 (a.bits.toNat / 2 ^ 24 % 256) ++ '.' ::
        (Nat.toDigits 10 (a.bits.toNat / 2 ^ 16 % 256) ++ '.' ::
          (Nat.toDigits 10 (a.bits.toNat / 2 ^ 8 % 256) ++ '.' ::
            (Nat.toDigits 10 (a.bits.toNat % 256) ++ rest))) := by
    simp only [to_list_ipv4_display, List.append_assoc, List.cons_append]
  rw [htext, readIpv4Addr]
  simp only [read_octet (Nat.mod_lt _ (by omega)) (hdot _), Option.bind_eq_bind, Option.bind_some,
    readSeparator, readGivenChar, Bool.false_eq_true, if_false, if_true,
    read_octet (Nat.mod_lt _ (by omega)) hrest, hbits]
  simp

theorem length_ipv4_display_le (a : Ipv4Addr) : a.display.toList.length ≤ 15 := by
  have hoctet (n : Nat) : (Nat.toDigits 10 (n % 256)).length ≤ 3 := by
    have hall : ∀ octet < 256, (Nat.toDigits 10 octet).length ≤ 3 := by decide +kernel
    exact hall _ (Nat.mod_lt _ (by omega))
  have h₁ := hoctet (a.bits.toNat / 2 ^ 24)
  have h₂ := hoctet (a.bits.toNat / 2 ^ 16)
  have h₃ := hoctet (a.bits.toNat / 2 ^ 8)
  have h₄ := hoctet a.bits.toNat
  simp only [to_list_ipv4_display, List.length_append, List.length_cons]
  omega

theorem parse_ipv4_display (a : Ipv4Addr) : parseIpv4 a.display = some a := by
  have hread : readIpv4Addr (a.display.toList ++ []) = some (a, []) :=
    read_ipv4_display a fun c hc => by cases hc
  rw [List.append_nil] at hread
  rw [parseIpv4, if_neg (Nat.not_lt.mpr (length_ipv4_display_le a)), hread]
  rfl

/-! ## IPv6 -/

theorem read_ipv4_none (h : ∀ c ∈ (cs.dropWhile fun c => (toDigit 10 c).isSome).head?, c ≠ '.') :
    readIpv4Addr cs = none := by
  unfold readIpv4Addr
  cases hfirst : readNumber 10 3 255 false cs with
  | none => rfl
  | some result =>
    obtain ⟨value, rest⟩ := result
    have hrest : rest = cs.dropWhile fun c => (toDigit 10 c).isSome := by
      simp only [readNumber, Option.ite_none_left_eq_some, Option.some.injEq,
        Prod.mk.injEq] at hfirst
      rw [← hfirst.2.2, drop_length_take_while]
    have hdot : readSeparator '.' false (readNumber 10 3 255 false) rest = none := by
      rw [readSeparator, if_neg Bool.false_ne_true, hrest]
      cases hhead : cs.dropWhile fun c => (toDigit 10 c).isSome with
      | nil => rfl
      | cons c _ => simp [readGivenChar, h c (by rw [hhead]; rfl)]
    simp [hdot]

/-- A text that goes on with neither a hexadecimal digit nor a dot. -/
def GroupEnds (rest : List Char) : Prop := ∀ c ∈ rest.head?, toDigit 16 c = none ∧ c ≠ '.'

def GroupsEnd (rest : List Char) : Prop :=
  GroupEnds rest ∧ ∀ rest', rest = ':' :: rest' → GroupEnds rest'

theorem not_dot_after_digits (digits : List Char) (hdots : ∀ c ∈ digits, c ≠ '.')
    (hrest : GroupEnds rest) :
    ∀ c ∈ ((digits ++ rest).dropWhile fun c => (toDigit 10 c).isSome).head?, c ≠ '.' := by
  induction digits with
  | nil =>
    cases rest with
    | nil => simp
    | cons c rest =>
      have hdec := to_digit_ten_none (hrest c rfl).1
      intro c' hc'
      rw [List.nil_append, List.dropWhile_cons_of_neg (by simp [hdec])] at hc'
      obtain rfl : c = c' := by simpa using hc'
      exact (hrest c rfl).2
  | cons digit digits ih =>
    rw [List.cons_append, List.dropWhile_cons]
    split
    · exact ih fun c hc => hdots c (List.mem_cons_of_mem _ hc)
    · intro c hc
      obtain rfl : digit = c := by simpa using hc
      exact hdots digit List.mem_cons_self

theorem read_ipv4_end (h : GroupEnds rest) : readIpv4Addr rest = none :=
  read_ipv4_none (not_dot_after_digits [] (by simp) h)

theorem read_ipv4_group {group : Nat} (h : GroupEnds rest) :
    readIpv4Addr (Nat.toDigits 16 group ++ rest) = none := by
  refine read_ipv4_none (not_dot_after_digits _ ?_ h)
  rintro c hc rfl
  have hdigit := to_digit_of_mem_to_digits (by omega) (by omega) hc
  revert hdigit
  decide

theorem read_number_end (h : GroupEnds rest) : readNumber 16 4 65535 true rest = none := by
  cases rest with
  | nil => rfl
  | cons c rest => simp [readNumber, (h c rfl).1]

theorem read_separator_end {α : Type} {inner : List Char → Option (α × List Char)}
    (hrest : GroupsEnd rest) (hinner : ∀ rest, GroupEnds rest → inner rest = none) :
    readSeparator ':' false inner rest = none := by
  rw [readSeparator, if_neg Bool.false_ne_true]
  cases rest with
  | nil => rfl
  | cons c rest =>
    by_cases hc : c = ':'
    · subst hc
      simp [readGivenChar, hinner rest (hrest.2 rest rfl)]
    · simp [readGivenChar, hc]

def moreGroups (groups : List Nat) : List Char :=
  groups.flatMap fun group => ':' :: Nat.toDigits 16 group

theorem group_ends_more_groups (groups : List Nat) (hrest : GroupEnds rest) :
    GroupEnds (moreGroups groups ++ rest) := by
  cases groups with
  | nil => exact hrest
  | cons group groups =>
    intro c hc
    obtain rfl : ':' = c := by simpa [moreGroups] using hc
    decide

variable {groups : List Nat}

theorem read_more_groups {left : Nat}
    (hgroups : ∀ group ∈ groups, group < 65536) (hleft : groups.length ≤ left)
    (hrest : GroupsEnd rest) :
    readGroups left false (moreGroups groups ++ rest) = (groups, false, rest) := by
  induction groups generalizing left with
  | nil =>
    cases left with
    | zero => rfl
    | succ left =>
      have hv4 : readSeparator ':' false readIpv4Addr rest = none :=
        read_separator_end hrest fun rest' h => read_ipv4_end h
      have hnumber : readSeparator ':' false (readNumber 16 4 65535 true) rest = none :=
        read_separator_end hrest fun rest' h => read_number_end h
      simp [moreGroups, readGroups, hv4, hnumber]
  | cons group groups ih =>
    obtain ⟨left, rfl⟩ : ∃ n, left = n + 1 :=
      ⟨left - 1, by rw [List.length_cons] at hleft; omega⟩
    have hends := group_ends_more_groups groups hrest.1
    have hgroup := hgroups group (by simp)
    have htext : moreGroups (group :: groups) ++ rest =
        ':' :: (Nat.toDigits 16 group ++ (moreGroups groups ++ rest)) := by
      simp [moreGroups]
    have hv4 : readSeparator ':' false readIpv4Addr (moreGroups (group :: groups) ++ rest) =
        none := by
      simp [htext, readSeparator, readGivenChar, read_ipv4_group hends]
    have hnumber : readSeparator ':' false (readNumber 16 4 65535 true)
        (moreGroups (group :: groups) ++ rest) = some (group, moreGroups groups ++ rest) := by
      simp only [htext, readSeparator, readGivenChar, Bool.false_eq_true, if_false, if_true,
        Option.bind_some]
      exact read_number_to_digits (by omega) (by omega) (by omega) (by omega) (by omega)
        fun c hc => (hends c hc).1
    rw [readGroups, hv4, ite_self, hnumber]
    dsimp only
    rw [ih (fun g hg => hgroups g (by simp [hg])) (by rw [List.length_cons] at hleft; omega)]

theorem format_groups_cons (group : Nat) (groups : List Nat) :
    (formatGroups (group :: groups)).toList = Nat.toDigits 16 group ++ moreGroups groups := by
  induction groups generalizing group with
  | nil => simp [formatGroups, formatHex, moreGroups]
  | cons next groups ih =>
    have htail := ih next
    simp only [formatGroups, List.map_cons, String.toList_intercalate] at htail ⊢
    rw [List.intercalate_cons_cons, htail]
    simp [formatHex, moreGroups]

theorem read_ipv4_format_groups (hrest : GroupEnds rest) :
    readIpv4Addr ((formatGroups groups).toList ++ rest) = none := by
  cases groups with
  | nil => exact read_ipv4_end hrest
  | cons group groups =>
    rw [format_groups_cons, List.append_assoc]
    exact read_ipv4_group (group_ends_more_groups _ hrest)

theorem read_format_groups {left : Nat}
    (hgroups : ∀ group ∈ groups, group < 65536) (hleft : groups.length ≤ left)
    (hrest : GroupsEnd rest) :
    readGroups left true ((formatGroups groups).toList ++ rest) = (groups, false, rest) := by
  cases groups with
  | nil =>
    cases left with
    | zero => rfl
    | succ left =>
      simp [formatGroups, readGroups, readSeparator, read_ipv4_end hrest.1,
        read_number_end hrest.1]
  | cons group groups =>
    obtain ⟨left, rfl⟩ : ∃ n, left = n + 1 :=
      ⟨left - 1, by rw [List.length_cons] at hleft; omega⟩
    have hends := group_ends_more_groups groups hrest.1
    have hgroup := hgroups group (by simp)
    rw [format_groups_cons, List.append_assoc, readGroups]
    simp only [readSeparator, if_true, read_ipv4_group hends, ite_self]
    rw [read_number_to_digits (by omega) (by omega) (by omega) (by omega) (by omega)
      fun c hc => (hends c hc).1]
    dsimp only
    rw [read_more_groups (fun g hg => hgroups g (by simp [hg]))
      (by rw [List.length_cons] at hleft; omega) hrest]

def Span.Zero (groups : List Nat) (span : Span) : Prop :=
  ∀ i, span.start ≤ i → i < span.start + span.len → groups[i]? = some 0

theorem zero_longest_zeroes (done : List Nat) {longest current : Span}
    (hlongest : longest.Zero (done ++ groups)) (hcurrent : current.Zero (done ++ groups))
    (hends : current.len = 0 ∨ current.start + current.len = done.length) :
    (longestZeroes groups done.length longest current).Zero (done ++ groups) := by
  induction groups generalizing done longest current with
  | nil => exact hlongest
  | cons group groups ih =>
    have hassoc : done ++ group :: groups = (done ++ [group]) ++ groups := by simp
    have hnext : done.length + 1 = (done ++ [group]).length := by simp
    rw [longestZeroes, hnext]
    split
    case isTrue hzero =>
      have hextended : Span.Zero (done ++ group :: groups)
          ⟨if current.len = 0 then done.length else current.start, current.len + 1⟩ := by
        intro i hstart hend
        by_cases hi : i = done.length
        · simp [hi, hzero]
        · dsimp only at hstart hend
          split at hstart
          case isTrue hempty => simp only [hempty, if_true] at hend; omega
          case isFalse hempty =>
            rw [if_neg hempty] at hend
            exact hcurrent i hstart (by omega)
      rw [hassoc] at hlongest hextended ⊢
      refine ih _ ?_ hextended (.inr ?_)
      · dsimp only
        by_cases hlonger : longest.len < current.len + 1
        · rw [if_pos hlonger]
          exact hextended
        · rw [if_neg hlonger]
          exact hlongest
      · dsimp only
        split <;> simp <;> omega
    case isFalse =>
      rw [hassoc] at hlongest ⊢
      refine ih _ hlongest ?_ (.inl rfl)
      intro i hstart hend
      dsimp only at hend
      omega

theorem Span.Zero.fill {span : Span} (h : span.Zero groups) (hlen : 0 < span.len) :
    span.start + span.len ≤ groups.length ∧
      groups.take span.start ++ List.replicate span.len 0 ++ groups.drop (span.start + span.len) =
        groups := by
  have hbound : span.start + span.len ≤ groups.length := by
    have hlast := h (span.start + span.len - 1) (by omega) (by omega)
    have := (List.getElem?_eq_some_iff.mp hlast).1
    omega
  refine ⟨hbound, List.ext_getElem? fun i => ?_⟩
  rcases lt_or_ge i span.start with hi | hi
  · rw [List.append_assoc, List.getElem?_append_left (by rw [List.length_take]; omega),
      List.getElem?_take_of_lt hi]
  rcases lt_or_ge i (span.start + span.len) with hi' | hi'
  · rw [List.getElem?_append_left (by simp; omega), List.getElem?_append_right (by simp; omega),
      h i hi hi', List.getElem?_replicate, if_pos (by simp; omega)]
  · rw [List.getElem?_append_right (by simp; omega), List.getElem?_drop]
    congr 1
    simp
    omega

theorem segments_lt (a : Ipv6Addr) : ∀ group ∈ a.segments, group < 65536 := by
  intro group hgroup
  obtain ⟨i, -, rfl⟩ := List.mem_map.mp hgroup
  exact Nat.mod_lt _ (by omega)

theorem of_segments_segments (a : Ipv6Addr) : Ipv6Addr.ofSegments a.segments = a := by
  have hlt := a.bits.isLt
  -- A group put after the bits above it gives the bits from that group on.
  have hgroup (k : Nat) : a.bits.toNat / 2 ^ (k + 16) * 65536 + a.bits.toNat / 2 ^ k % 65536 =
      a.bits.toNat / 2 ^ k := by
    rw [Nat.pow_add, ← Nat.div_div_eq_div_mul]
    exact Nat.div_add_mod' _ _
  have htop : a.bits.toNat / 2 ^ 112 % 65536 = a.bits.toNat / 2 ^ 112 :=
    Nat.mod_eq_of_lt (by omega)
  have hvalue : a.segments.foldl (fun n group => n * 65536 + group) 0 = a.bits.toNat := by
    simp only [Ipv6Addr.segments, List.range_eq_range', List.range', List.map_cons, List.map_nil,
      List.foldl_cons, List.foldl_nil]
    rw [Nat.zero_mul, Nat.zero_add, htop, hgroup 96, hgroup 80, hgroup 64, hgroup 48, hgroup 32,
      hgroup 16, hgroup 0, Nat.pow_zero, Nat.div_one]
  obtain ⟨bits⟩ := a
  rw [Ipv6Addr.ofSegments, hvalue, BitVec.ofNat_toNat, BitVec.setWidth_eq]

theorem length_segments (a : Ipv6Addr) : a.segments.length = 8 := by simp [Ipv6Addr.segments]

def AddressEnds (rest : List Char) : Prop := ∀ c ∈ rest.head?, isAddressChar c = false

theorem AddressEnds.groups_end (h : AddressEnds rest) : GroupsEnd rest := by
  constructor
  · intro c hc
    have := h c hc
    simp only [isAddressChar, Bool.or_eq_false_iff, Option.isSome_eq_false_iff,
      Option.isNone_iff_eq_none,
      beq_eq_false_iff_ne] at this
    exact this.1
  · rintro rest' rfl
    exact absurd (h ':' rfl) (by decide)

theorem groups_end_colons (rest : List Char) : GroupsEnd (':' :: ':' :: rest) := by
  have hcolon (rest : List Char) : GroupEnds (':' :: rest) := by
    intro c hc
    obtain rfl : ':' = c := by simpa using hc
    decide
  exact ⟨hcolon _, fun rest' h => by cases h; exact hcolon rest⟩

theorem read_groups_colons {left : Nat} (rest : List Char) :
    readGroups left true (':' :: ':' :: rest) = ([], false, ':' :: ':' :: rest) := by
  have hread : readGroups left true ((formatGroups []).toList ++ ':' :: ':' :: rest) =
      ([], false, ':' :: ':' :: rest) :=
    read_format_groups (by simp) (by simp) (groups_end_colons rest)
  exact hread

/-- An address around `::` is read as its two halves and the zeros between them. -/
theorem read_ipv6_around {head tail : List Nat}
    (hhead : ∀ group ∈ head, group < 65536) (htail : ∀ group ∈ tail, group < 65536)
    (hlength : head.length + tail.length < 8) (hrest : GroupsEnd rest) :
    readIpv6Addr ((formatGroups head).toList ++ ':' :: ':' ::
        ((formatGroups tail).toList ++ rest)) =
      some (Ipv6Addr.ofSegments
        (head ++ List.replicate (8 - head.length - tail.length) 0 ++ tail), rest) := by
  rw [readIpv6Addr, read_format_groups hhead (by omega) (groups_end_colons _)]
  dsimp only
  rw [if_neg (by omega), if_neg Bool.false_ne_true]
  simp only [readGivenChar, if_true, Option.bind_eq_bind, Option.bind_some]
  rw [read_format_groups htail (by omega) hrest]
  rfl

theorem read_ipv6_mapped (v4 : Ipv4Addr) (hrest : ∀ c ∈ rest.head?, toDigit 10 c = none) :
    readIpv6Addr ("::ffff:".toList ++ (v4.display.toList ++ rest)) =
      some (Ipv6Addr.ofSegments
        [0, 0, 0, 0, 0, 0xffff, v4.bits.toNat / 65536, v4.bits.toNat % 65536], rest) := by
  have htext : "::ffff:".toList ++ (v4.display.toList ++ rest) =
      ':' :: ':' :: (Nat.toDigits 16 0xffff ++ ':' :: (v4.display.toList ++ rest)) := by
    have hgroup : Nat.toDigits 16 0xffff = ['f', 'f', 'f', 'f'] := by decide
    have hmapped : "::ffff:".toList = [':', ':', 'f', 'f', 'f', 'f', ':'] := by decide
    simp only [hgroup, hmapped, List.cons_append, List.nil_append]
  have hends : GroupEnds (':' :: (v4.display.toList ++ rest)) := by
    intro c hc
    obtain rfl : ':' = c := by simpa using hc
    decide
  rw [htext, readIpv6Addr, read_groups_colons]
  simp only [List.length_nil, readGivenChar, if_true, Option.bind_eq_bind, Option.bind_some,
    Nat.reduceEqDiff, if_false, Bool.false_eq_true, Nat.zero_add, Nat.reduceSub]
  have hlast : readGroups 6 false (':' :: (v4.display.toList ++ rest)) =
      ([v4.bits.toNat / 65536, v4.bits.toNat % 65536], true, rest) := by
    simp [readGroups, readSeparator, readGivenChar, read_ipv4_display v4 hrest]
  have htail : readGroups 7 true
      (Nat.toDigits 16 0xffff ++ ':' :: (v4.display.toList ++ rest)) =
        ([0xffff, v4.bits.toNat / 65536, v4.bits.toNat % 65536], true, rest) := by
    rw [readGroups]
    simp only [readSeparator, if_true, read_ipv4_group hends, ite_self]
    rw [read_number_to_digits (by omega) (by omega) (by omega) (by omega) (by omega)
      fun c hc => (hends c hc).1]
    dsimp only
    rw [hlast]
  rw [htail]
  rfl

theorem segments_eq_mapped {a : Ipv6Addr} (h : a.segments.take 6 = [0, 0, 0, 0, 0, 0xffff]) :
    a.segments = [0, 0, 0, 0, 0, 0xffff, a.bits.toNat % 2 ^ 32 / 65536,
      a.bits.toNat % 2 ^ 32 % 65536] := by
  have hdrop : a.segments.drop 6 =
      [a.bits.toNat / 2 ^ 16 % 65536, a.bits.toNat / 2 ^ 0 % 65536] := rfl
  rw [← List.take_append_drop 6 a.segments, h, hdrop]
  simp only [List.cons_append, List.nil_append, List.cons.injEq, true_and, and_true]
  omega

theorem read_ipv6_display (a : Ipv6Addr) (hrest : AddressEnds rest) :
    readIpv4Addr (a.display.toList ++ rest) = none ∧
      readIpv6Addr (a.display.toList ++ rest) = some (a, rest) := by
  have hlength := length_segments a
  have hlt := segments_lt a
  have hends := hrest.groups_end
  rw [Ipv6Addr.display]
  dsimp only
  split
  case isTrue hmapped =>
    have hdec : ∀ c ∈ rest.head?, toDigit 10 c = none :=
      fun c hc => to_digit_ten_none (hends.1 c hc).1
    rw [String.toList_append, List.append_assoc]
    constructor
    · exact read_ipv4_end (groups_end_colons _).1
    · rw [read_ipv6_mapped _ hdec]
      dsimp only
      rw [BitVec.toNat_ofNat, Nat.mod_mod, ← segments_eq_mapped hmapped, of_segments_segments]
  case isFalse =>
    split
    case isTrue hlong =>
      have hzero : (longestZeroes a.segments 0 ⟨0, 0⟩ ⟨0, 0⟩).Zero a.segments :=
        zero_longest_zeroes [] (fun i _ h => absurd h (by dsimp only; omega))
          (fun i _ h => absurd h (by dsimp only; omega)) (.inl rfl)
      generalize longestZeroes a.segments 0 ⟨0, 0⟩ ⟨0, 0⟩ = zeroes at hlong hzero
      obtain ⟨hbound, hfill⟩ := hzero.fill (by omega)
      have htake (g : Nat) (hg : g ∈ a.segments.take zeroes.start) : g < 65536 :=
        hlt g (List.mem_of_mem_take hg)
      have hdrop (g : Nat) (hg : g ∈ a.segments.drop (zeroes.start + zeroes.len)) : g < 65536 :=
        hlt g (List.mem_of_mem_drop hg)
      have htext : (formatGroups (a.segments.take zeroes.start) ++ "::" ++
            formatGroups (a.segments.drop (zeroes.start + zeroes.len))).toList ++ rest =
          (formatGroups (a.segments.take zeroes.start)).toList ++ ':' :: ':' ::
            ((formatGroups (a.segments.drop (zeroes.start + zeroes.len))).toList ++ rest) := by
        simp
      rw [htext]
      constructor
      · exact read_ipv4_format_groups (groups_end_colons _).1
      · rw [read_ipv6_around htake hdrop (by simp; omega) hends]
        have hcount : 8 - (a.segments.take zeroes.start).length -
            (a.segments.drop (zeroes.start + zeroes.len)).length = zeroes.len := by
          simp
          omega
        rw [hcount, hfill, of_segments_segments]
    case isFalse =>
      constructor
      · exact read_ipv4_format_groups hends.1
      · rw [readIpv6Addr, read_format_groups hlt (by omega) hends]
        dsimp only
        rw [if_pos hlength, of_segments_segments]

/-! ## Printing then parsing -/

/-- An address that is printed and parsed is itself; with anything after it that is not part of an
address it is no address. -/
theorem parse_ip_display_append (ip : IpAddr) (rest : String) (hrest : AddressEnds rest.toList) :
    parseIp (ip.display ++ rest) = if rest = "" then some ip else none := by
  have hend {α : Type} (value : α) :
      atEnd (some (value, rest.toList)) = if rest = "" then some value else none := by
    cases hlist : rest.toList with
    | nil => simp [String.toList_inj.mp (hlist.trans String.toList_empty.symm), atEnd]
    | cons c cs =>
      rw [if_neg (by rintro rfl; simp at hlist)]
      rfl
  unfold parseIp
  rw [String.toList_append]
  cases ip with
  | v4 a =>
    rw [IpAddr.display, read_ipv4_display a fun c hc =>
      to_digit_ten_none (hrest.groups_end.1 c hc).1]
    exact hend _
  | v6 a =>
    obtain ⟨hv4, hv6⟩ := read_ipv6_display a hrest
    rw [IpAddr.display, hv4, hv6]
    exact hend _

theorem parse_ip_display (ip : IpAddr) : parseIp ip.display = some ip := by
  have h := parse_ip_display_append ip "" (by simp [AddressEnds])
  rwa [String.append_empty, if_pos rfl] at h

end Crabscale.Rust
