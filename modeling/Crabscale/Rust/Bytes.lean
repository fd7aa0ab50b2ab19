import Mathlib.Data.List.Basic

/-!
# Byte arrays of the Rust standard library

`Bytes n` is `[u8; n]`, a slice is a list of bytes. A message of fixed layout is the concatenation
of its fields, and `copy_from_of_eq` finds a field at the place where it was written.
-/

namespace Crabscale.Rust

/-- The array type `[u8; n]`. -/
abbrev Bytes (n : Nat) : Type := { bytes : List UInt8 // bytes.length = n }

namespace Bytes

variable {m n : Nat}

/-- `copy_from_slice` of the `n` bytes of a slice that start at a position. -/
def copyFrom (n : Nat) (buf : List UInt8) (start : Nat) (h : start + n ≤ buf.length) : Bytes n :=
  ⟨(buf.drop start).take n, by
    rw [List.length_take, List.length_drop]
    omega⟩

/-- One array after another. -/
def append (a : Bytes m) (b : Bytes n) : Bytes (m + n) :=
  ⟨a.val ++ b.val, by rw [List.length_append, a.property, b.property]⟩

def empty : Bytes 0 := ⟨[], rfl⟩

theorem copy_from_of_eq {buf : List UInt8} {start : Nat} (before : List UInt8) (field : Bytes n)
    (after : List UInt8) (hbuf : buf = before ++ (field.val ++ after))
    (hstart : start = before.length) (h : start + n ≤ buf.length) :
    copyFrom n buf start h = field := by
  subst hbuf hstart
  obtain ⟨bytes, rfl⟩ := field
  apply Subtype.ext
  show ((before ++ (bytes ++ after)).drop before.length).take bytes.length = bytes
  rw [List.drop_left, List.take_left]

end Bytes

/-! ## Chunks of a slice -/

section Chunks

variable {α : Type}

def chunksFrom (n : Nat) : (fuel : Nat) → List α → List (List α)
  | 0, _ => []
  | _ + 1, [] => []
  | fuel + 1, x :: xs => (x :: xs).take n :: chunksFrom n fuel ((x :: xs).drop n)

/-- `slice::chunks`. Each chunk takes at least one item, so there are no more chunks than items. -/
def chunks (n : Nat) (items : List α) : List (List α) := chunksFrom n items.length items

theorem flatten_chunks_from {n : Nat} (hn : 0 < n) {fuel : Nat} {items : List α}
    (hfuel : items.length ≤ fuel) : (chunksFrom n fuel items).flatten = items := by
  induction fuel generalizing items with
  | zero =>
    rw [List.length_eq_zero_iff.mp (Nat.le_zero.mp hfuel)]
    rfl
  | succ fuel ih =>
    cases items with
    | nil => rfl
    | cons x xs =>
      have hrest : ((x :: xs).drop n).length ≤ fuel := by
        rw [List.length_drop, List.length_cons]
        rw [List.length_cons] at hfuel
        omega
      rw [chunksFrom, List.flatten_cons, ih hrest, List.take_append_drop]

theorem flatten_chunks {n : Nat} (hn : 0 < n) (items : List α) : (chunks n items).flatten = items :=
  flatten_chunks_from hn (Nat.le_refl _)

theorem mem_chunks_from {n : Nat} (hn : 0 < n) {fuel : Nat} {items chunk : List α}
    (h : chunk ∈ chunksFrom n fuel items) : chunk ≠ [] ∧ chunk.length ≤ n := by
  induction fuel generalizing items with
  | zero => cases h
  | succ fuel ih =>
    cases items with
    | nil => cases h
    | cons x xs =>
      obtain rfl | h := List.mem_cons.mp h
      · refine ⟨?_, List.length_take_le ..⟩
        obtain ⟨m, rfl⟩ := Nat.exists_eq_succ_of_ne_zero (Nat.ne_of_gt hn)
        exact List.cons_ne_nil _ _
      · exact ih h

theorem mem_chunks {n : Nat} (hn : 0 < n) {items chunk : List α} (h : chunk ∈ chunks n items) :
    chunk ≠ [] ∧ chunk.length ≤ n :=
  mem_chunks_from hn h

end Chunks

/-! ## Integers in network byte order -/

/-- `u16::to_be_bytes`. -/
def toBeBytes16 (value : UInt16) : Bytes 2 :=
  ⟨[UInt8.ofNat (value.toNat / 256), UInt8.ofNat value.toNat], rfl⟩

/-- `u16::from_be_bytes`. -/
def fromBeBytes16 (high low : UInt8) : UInt16 := UInt16.ofNat (high.toNat * 256 + low.toNat)

theorem from_be_bytes16_to_be_bytes16 (value : UInt16) :
    fromBeBytes16 (UInt8.ofNat (value.toNat / 256)) (UInt8.ofNat value.toNat) = value := by
  have hlt := value.toNat_lt
  have hhigh : value.toNat / 256 % 2 ^ 8 = value.toNat / 256 := Nat.mod_eq_of_lt (by omega)
  rw [fromBeBytes16, UInt8.toNat_ofNat', UInt8.toNat_ofNat', hhigh, Nat.div_add_mod']
  exact UInt16.ofNat_toNat

/-- `u64::to_be_bytes`. -/
def toBeBytes64 (value : Nat) : Bytes 8 :=
  ⟨[UInt8.ofNat (value / 72057594037927936), UInt8.ofNat (value / 281474976710656),
    UInt8.ofNat (value / 1099511627776), UInt8.ofNat (value / 4294967296),
    UInt8.ofNat (value / 16777216), UInt8.ofNat (value / 65536), UInt8.ofNat (value / 256),
    UInt8.ofNat value], rfl⟩

/-- Different numbers below `2 ^ 64` have different bytes. -/
theorem to_be_bytes64_inj {m n : Nat} (hm : m < 18446744073709551616)
    (hn : n < 18446744073709551616) (h : toBeBytes64 m = toBeBytes64 n) : m = n := by
  have hbytes := congrArg (fun bytes : Bytes 8 => bytes.val.map UInt8.toNat) h
  simp only [toBeBytes64, List.map_cons, List.map_nil, UInt8.toNat_ofNat',
    List.cons.injEq] at hbytes
  omega

/-! ## Integers with the lowest byte first -/

/-- `u32::to_le_bytes`. -/
def toLeBytes32 (value : Nat) : Bytes 4 :=
  ⟨[UInt8.ofNat value, UInt8.ofNat (value / 256), UInt8.ofNat (value / 65536),
    UInt8.ofNat (value / 16777216)], rfl⟩

/-- `u32::from_le_bytes`. -/
def fromLeBytes32 (bytes : Bytes 4) : Nat :=
  bytes.val.foldr (fun byte value => byte.toNat + 256 * value) 0

theorem from_le_bytes32_to_le_bytes32 {value : Nat} (h : value < 4294967296) :
    fromLeBytes32 (toLeBytes32 value) = value := by
  simp only [fromLeBytes32, toLeBytes32, List.foldr_cons, List.foldr_nil, UInt8.toNat_ofNat']
  omega

end Crabscale.Rust
