import Crabscale.Rust.Str

/-!
# IP addresses of the Rust standard library

`Ipv4Addr`, `Ipv6Addr` and `IpAddr` with their text forms. The parsers follow the recursive descent
reader behind `FromStr`: octal-looking IPv4 parts are refused, an IPv6 address may end in a dotted
IPv4 address, and `::` stands for at least one zero group. `toString` follows `Display`, which
compresses the first longest run of at least two zero groups.
-/

namespace Crabscale.Rust

/-- An IPv4 address as the big-endian integer of its four octets. -/
structure Ipv4Addr where
  bits : BitVec 32
  deriving DecidableEq, Repr

/-- An IPv6 address as the big-endian integer of its eight groups. -/
structure Ipv6Addr where
  bits : BitVec 128
  deriving DecidableEq, Repr

/-- An address of either family. -/
inductive IpAddr where
  | v4 (addr : Ipv4Addr)
  | v6 (addr : Ipv6Addr)
  deriving DecidableEq, Repr

/-! ## Reading -/

/-- Read a number of at most `maxDigits` digits and at most `limit`. -/
def readNumber (radix maxDigits limit : Nat) (allowZeroPrefix : Bool) (cs : List Char) :
    Option (Nat × List Char) :=
  let digits := cs.takeWhile fun c => (toDigit radix c).isSome
  let value := digits.foldl (fun n c => n * radix + (toDigit radix c).getD 0) 0
  if digits.isEmpty || maxDigits < digits.length || limit < value ||
      (!allowZeroPrefix && digits.head? == some '0' && 1 < digits.length) then none
  else some (value, cs.drop digits.length)

def readGivenChar (target : Char) : List Char → Option (List Char)
  | [] => none
  | c :: cs => if c = target then some cs else none

def readSeparator {α : Type} (sep : Char) (first : Bool)
    (inner : List Char → Option (α × List Char)) (cs : List Char) : Option (α × List Char) :=
  if first then inner cs else (readGivenChar sep cs).bind inner

def readIpv4Addr (cs : List Char) : Option (Ipv4Addr × List Char) := do
  let (a, cs) ← readNumber 10 3 255 false cs
  let (b, cs) ← readSeparator '.' false (readNumber 10 3 255 false) cs
  let (c, cs) ← readSeparator '.' false (readNumber 10 3 255 false) cs
  let (d, cs) ← readSeparator '.' false (readNumber 10 3 255 false) cs
  pure (⟨BitVec.ofNat 32 (((a * 256 + b) * 256 + c) * 256 + d)⟩, cs)

/-- Read up to `left` colon-separated groups. A dotted IPv4 address counts as two groups and
ends the chunk, which the flag reports. -/
def readGroups : (left : Nat) → (first : Bool) → List Char → List Nat × Bool × List Char
  | 0, _, cs => ([], false, cs)
  | left + 1, first, cs =>
    -- At least two groups must be left for an embedded IPv4 address.
    match if 1 ≤ left then readSeparator ':' first readIpv4Addr cs else none with
    | some (v4, rest) => ([v4.bits.toNat / 65536, v4.bits.toNat % 65536], true, rest)
    | none =>
      match readSeparator ':' first (readNumber 16 4 65535 true) cs with
      | some (group, rest) =>
        let (groups, ipv4, rest) := readGroups left false rest
        (group :: groups, ipv4, rest)
      | none => ([], false, cs)

def Ipv6Addr.ofSegments (groups : List Nat) : Ipv6Addr :=
  ⟨BitVec.ofNat 128 (groups.foldl (fun n group => n * 65536 + group) 0)⟩

/-- Read an IPv6 address, whole or around one `::`. -/
def readIpv6Addr (cs : List Char) : Option (Ipv6Addr × List Char) :=
  match readGroups 8 true cs with
  | (head, headIpv4, rest) =>
    if head.length = 8 then some (Ipv6Addr.ofSegments head, rest)
    else if headIpv4 then none
    else do
      let rest ← readGivenChar ':' rest
      let rest ← readGivenChar ':' rest
      let (tail, _, rest) := readGroups (8 - (head.length + 1)) true rest
      pure (Ipv6Addr.ofSegments
        (head ++ List.replicate (8 - head.length - tail.length) 0 ++ tail), rest)

/-- Keep a reading that consumed the whole input. -/
def atEnd {α : Type} : Option (α × List Char) → Option α
  | some (value, []) => some value
  | _ => none

/-- `Ipv4Addr::from_str`. Text longer than the longest address is refused unread. -/
def parseIpv4 (s : String) : Option Ipv4Addr :=
  if 15 < s.toList.length then none else atEnd (readIpv4Addr s.toList)

/-- `Ipv6Addr::from_str`. -/
def parseIpv6 (s : String) : Option Ipv6Addr := atEnd (readIpv6Addr s.toList)

/-- `IpAddr::from_str`: an IPv4 reading is preferred. -/
def parseIp (s : String) : Option IpAddr :=
  match readIpv4Addr s.toList with
  | some (v4, rest) => atEnd (some (.v4 v4, rest))
  | none => atEnd ((readIpv6Addr s.toList).map fun (v6, rest) => (.v6 v6, rest))

/-! ## Display -/

def Ipv4Addr.octets (a : Ipv4Addr) : List Nat :=
  [a.bits.toNat / 2 ^ 24 % 256, a.bits.toNat / 2 ^ 16 % 256, a.bits.toNat / 2 ^ 8 % 256,
    a.bits.toNat % 256]

/-- The eight groups of an address, most significant first. -/
def Ipv6Addr.segments (a : Ipv6Addr) : List Nat :=
  (List.range 8).map fun i => a.bits.toNat / 2 ^ (16 * (7 - i)) % 65536

/-- `Ipv4Addr` as text. -/
def Ipv4Addr.display (a : Ipv4Addr) : String := ".".intercalate (a.octets.map Nat.repr)

/-- A run of zero groups. -/
structure Span where
  start : Nat
  len : Nat
  deriving DecidableEq, Repr

/-- The first longest run of zero groups: `longest` and `current` are the accumulators of the
scan, `i` the index of the next group. -/
def longestZeroes : (groups : List Nat) → (i : Nat) → (longest current : Span) → Span
  | [], _, longest, _ => longest
  | group :: groups, i, longest, current =>
    if group = 0 then
      let current := ⟨if current.len = 0 then i else current.start, current.len + 1⟩
      longestZeroes groups (i + 1) (if longest.len < current.len then current else longest)
        current
    else longestZeroes groups (i + 1) longest ⟨0, 0⟩

def formatGroups (groups : List Nat) : String := ":".intercalate (groups.map formatHex)

/-- `Ipv6Addr` as text. -/
def Ipv6Addr.display (a : Ipv6Addr) : String :=
  let segments := a.segments
  if segments.take 6 = [0, 0, 0, 0, 0, 0xffff] then
    "::ffff:" ++ (Ipv4Addr.mk (BitVec.ofNat 32 (a.bits.toNat % 2 ^ 32))).display
  else
    let zeroes := longestZeroes segments 0 ⟨0, 0⟩ ⟨0, 0⟩
    if 1 < zeroes.len then
      formatGroups (segments.take zeroes.start) ++ "::" ++
        formatGroups (segments.drop (zeroes.start + zeroes.len))
    else formatGroups segments

/-- `IpAddr` as text. -/
def IpAddr.display : IpAddr → String
  | .v4 a => a.display
  | .v6 a => a.display

/-- `IpAddr::is_ipv4`. -/
def IpAddr.isIpv4 : IpAddr → Bool
  | .v4 _ => true
  | .v6 _ => false

/-- Printing then parsing, on an address of each shape the display distinguishes. -/
example : ["100.64.0.1", "fd7a:115c:a1e0::1", "::", "1::", "::ffff:1.2.3.4",
    "1:0:2:3:4:5:6:7"].all fun s => (parseIp s).map IpAddr.display == some s := by
  decide +kernel

end Crabscale.Rust
