import Mathlib.Data.List.Basic
import Mathlib.Data.String.Basic

/-!
# The string operations of the Rust standard library

The parts of `str` and of the integer parsers that the source calls. Each operation works on the
list of characters, so that it reduces by structural recursion. `rfind` is the text after the last
match, which is all its callers use.
-/

namespace Crabscale.Rust

/-! ## Splitting lists of characters -/

/-- Split at the first occurrence of `sep`, dropping it. -/
def splitOnceList (sep : Char) : List Char → Option (List Char × List Char)
  | [] => none
  | c :: cs =>
    if c = sep then some ([], cs)
    else (splitOnceList sep cs).map fun (before, after) => (c :: before, after)

/-- Split at the last occurrence of `sep`, dropping it. -/
def rsplitOnceList (sep : Char) : List Char → Option (List Char × List Char)
  | [] => none
  | c :: cs =>
    match rsplitOnceList sep cs with
    | some (before, after) => some (c :: before, after)
    | none => if c = sep then some ([], cs) else none

/-- The pieces between the occurrences of `sep`. There is always at least one. -/
def splitList (sep : Char) : List Char → List (List Char)
  | [] => [[]]
  | c :: cs =>
    if c = sep then [] :: splitList sep cs
    else
      match splitList sep cs with
      | [] => [[c]]
      | piece :: pieces => (c :: piece) :: pieces

/-- Split at the first occurrence of the text `pat`, dropping it. -/
def splitOnceStrList (pat : List Char) : List Char → Option (List Char × List Char)
  | [] => if pat.isEmpty then some ([], []) else none
  | c :: cs =>
    if pat.isPrefixOf (c :: cs) then some ([], (c :: cs).drop pat.length)
    else (splitOnceStrList pat cs).map fun (before, after) => (c :: before, after)

/-- The text after the last occurrence of `pat`. -/
def afterLastList (pat : List Char) : List Char → Option (List Char)
  | [] => if pat.isEmpty then some [] else none
  | c :: cs =>
    match afterLastList pat cs with
    | some rest => some rest
    | none => if pat.isPrefixOf (c :: cs) then some ((c :: cs).drop pat.length) else none

/-! ## `str` methods -/

/-- `str::starts_with`. -/
def startsWith (pat s : String) : Bool := pat.toList.isPrefixOf s.toList

/-- `str::strip_prefix`. -/
def stripPrefix (pat s : String) : Option String :=
  if startsWith pat s then some (String.ofList (s.toList.drop pat.toList.length)) else none

/-- `str::trim_start_matches`: drop `pat` from the front as often as it matches. The fuel is the
length of the text, which every round shortens. -/
def trimStartMatches (pat s : String) : String :=
  String.ofList (go s.toList.length s.toList)
where
  go : Nat → List Char → List Char
    | 0, cs => cs
    | fuel + 1, cs =>
      if !pat.toList.isEmpty && pat.toList.isPrefixOf cs then
        go fuel (cs.drop pat.toList.length)
      else cs

/-- `str::split_once` with a character. -/
def splitOnce (sep : Char) (s : String) : Option (String × String) :=
  (splitOnceList sep s.toList).map fun (before, after) =>
    (String.ofList before, String.ofList after)

/-- `str::rsplit_once` with a character. -/
def rsplitOnce (sep : Char) (s : String) : Option (String × String) :=
  (rsplitOnceList sep s.toList).map fun (before, after) =>
    (String.ofList before, String.ofList after)

/-- `str::split_once` with a string. -/
def splitOnceStr (pat s : String) : Option (String × String) :=
  (splitOnceStrList pat.toList s.toList).map fun (before, after) =>
    (String.ofList before, String.ofList after)

/-- The text after the last match of `pat`, the slice its callers cut at `str::rfind`. -/
def afterLast (pat s : String) : Option String :=
  (afterLastList pat.toList s.toList).map String.ofList

/-- `str::split` with a character. -/
def split (sep : Char) (s : String) : List String :=
  (splitList sep s.toList).map String.ofList

/-- `str::contains` with a string. -/
def containsStr (pat s : String) : Bool := (splitOnceStrList pat.toList s.toList).isSome

/-- `str::lines`: the pieces between line feeds, each without the carriage return before its line
feed; an empty piece at the end is no line. -/
def lines (s : String) : List String :=
  (go (splitList '\n' s.toList)).map String.ofList
where
  go : List (List Char) → List (List Char)
    | [] => []
    | [last] => if last.isEmpty then [] else [last]
    | line :: rest => (if line.getLast? = some '\r' then line.dropLast else line) :: go rest

/-- `char::is_whitespace`: the Unicode `White_Space` property. -/
def isWhitespace (c : Char) : Bool :=
  let n := c.toNat
  (0x09 ≤ n && n ≤ 0x0d) || n == 0x20 || n == 0x85 || n == 0xa0 || n == 0x1680 ||
    (0x2000 ≤ n && n ≤ 0x200a) || n == 0x2028 || n == 0x2029 || n == 0x202f || n == 0x205f ||
    n == 0x3000

/-- `str::trim_end_matches` for a character. -/
def trimEndMatches (c : Char) (s : String) : String :=
  String.ofList (s.toList.reverse.dropWhile (· == c)).reverse

/-- `str::trim`. -/
def trim (s : String) : String :=
  String.ofList ((s.toList.dropWhile isWhitespace).reverse.dropWhile isWhitespace).reverse

/-- `char::is_ascii_digit`. -/
def isAsciiDigit (c : Char) : Bool := '0' ≤ c && c ≤ '9'

/-- `char::is_ascii_alphanumeric`. -/
def isAsciiAlphanumeric (c : Char) : Bool :=
  isAsciiDigit c || ('a' ≤ c && c ≤ 'z') || ('A' ≤ c && c ≤ 'Z')

/-- `str::to_ascii_lowercase`. -/
def toAsciiLowercase (s : String) : String :=
  String.ofList (s.toList.map fun c =>
    if 'A' ≤ c && c ≤ 'Z' then Char.ofNat (c.toNat + 32) else c)

/-! ## Integers -/

/-- The value of a digit in a radix of at most 36, `char::to_digit`. -/
def toDigit (radix : Nat) (c : Char) : Option Nat :=
  let value :=
    if '0' ≤ c && c ≤ '9' then some (c.toNat - '0'.toNat)
    else if 'a' ≤ c && c ≤ 'z' then some (c.toNat - 'a'.toNat + 10)
    else if 'A' ≤ c && c ≤ 'Z' then some (c.toNat - 'A'.toNat + 10)
    else none
  value.filter (· < radix)

def parseDigits : List Char → Option Nat
  | [] => none
  | cs => cs.foldl (fun acc c => acc.bind fun n => (toDigit 10 c).map (n * 10 + ·)) (some 0)

/-- `str::parse` at an unsigned integer type with largest value `max`. A leading `+` is
accepted. -/
def parseUnsigned (max : Nat) (s : String) : Option Nat :=
  (match s.toList with
    | '+' :: cs => parseDigits cs
    | cs => parseDigits cs).filter (· ≤ max)

/-- `str::parse::<u8>`. -/
def parseU8 (s : String) : Option Nat := parseUnsigned 255 s

/-- `str::parse::<u16>`. -/
def parseU16 (s : String) : Option Nat := parseUnsigned 65535 s

/-- `str::parse::<i32>`. A leading `+` or `-` is accepted. -/
def parseI32 (s : String) : Option Int :=
  (match s.toList with
    | '-' :: cs => (parseDigits cs).map fun n => -(n : Int)
    | '+' :: cs => (parseDigits cs).map fun n => (n : Int)
    | cs => (parseDigits cs).map fun n => (n : Int)).filter
      fun n => -2147483648 ≤ n && n ≤ 2147483647

/-- Decimal text padded with zeros on the left, the format `{n:0width}`. -/
def formatPadded (width n : Nat) : String :=
  let digits := (Nat.repr n).toList
  String.ofList (List.replicate (width - digits.length) '0' ++ digits)

/-- Lowercase hexadecimal text, the format `{n:x}`. -/
def formatHex (n : Nat) : String := String.ofList (Nat.toDigits 16 n)

/-! ## Laws -/

variable {pat s : String}

@[simp] theorem strip_prefix_eq_none : stripPrefix pat s = none ↔ startsWith pat s = false := by
  simp [stripPrefix]

theorem starts_with_iff : startsWith pat s = true ↔ ∃ rest, s = pat ++ rest := by
  rw [startsWith, List.isPrefixOf_iff_prefix]
  constructor
  · rintro ⟨rest, hrest⟩
    refine ⟨String.ofList rest, String.toList_inj.mp ?_⟩
    simpa using hrest.symm
  · rintro ⟨rest, rfl⟩
    exact ⟨rest.toList, by simp⟩

@[simp] theorem starts_with_append (pat rest : String) : startsWith pat (pat ++ rest) = true :=
  starts_with_iff.mpr ⟨rest, rfl⟩

theorem strip_prefix_eq_some {rest : String} : stripPrefix pat s = some rest ↔ s = pat ++ rest := by
  have happend (rest : String) : stripPrefix pat (pat ++ rest) = some rest := by
    rw [stripPrefix, if_pos (starts_with_append pat rest)]
    simp
  constructor
  · intro h
    cases hstarts : startsWith pat s with
    | false => simp [strip_prefix_eq_none.mpr hstarts] at h
    | true =>
      obtain ⟨rest', rfl⟩ := starts_with_iff.mp hstarts
      rw [happend, Option.some_inj] at h
      rw [h]
  · rintro rfl
    exact happend rest

variable {sep : Char} {cs : List Char}

theorem split_once_list_eq_some {before after : List Char} :
    splitOnceList sep cs = some (before, after) ↔ cs = before ++ sep :: after ∧ sep ∉ before := by
  induction cs generalizing before with
  | nil => simp [splitOnceList]
  | cons c cs ih =>
    by_cases hc : c = sep
    · subst hc
      cases before <;> simp [splitOnceList]
      grind
    · rw [splitOnceList, if_neg hc, Option.map_eq_some_iff]
      cases before with
      | nil => simp [hc]
      | cons b before =>
        simp only [Prod.exists, Prod.mk.injEq, List.cons.injEq, List.cons_append, List.mem_cons]
        constructor
        · rintro ⟨front, back, hsplit, ⟨rfl, rfl⟩, rfl⟩
          obtain ⟨rfl, hfront⟩ := ih.mp hsplit
          exact ⟨⟨rfl, rfl⟩, by rintro (h | h); exacts [hc h.symm, hfront h]⟩
        · rintro ⟨⟨rfl, rfl⟩, hnot⟩
          exact ⟨before, after, ih.mpr ⟨rfl, fun h => hnot (.inr h)⟩, ⟨rfl, rfl⟩, rfl⟩

theorem split_list_ne_nil (cs : List Char) : splitList sep cs ≠ [] := by
  unfold splitList
  split
  · simp
  · split
    · simp
    · split <;> simp

theorem split_list_plain (h : sep ∉ cs) : splitList sep cs = [cs] := by
  induction cs with
  | nil => rfl
  | cons c cs ih =>
    obtain ⟨hne, hrest⟩ := not_or.mp (fun hmem => h (List.mem_cons.mpr hmem))
    rw [splitList, if_neg (Ne.symm hne), ih hrest]

theorem split_list_append (front back : List Char) :
    splitList sep (front ++ sep :: back) = splitList sep front ++ splitList sep back := by
  induction front with
  | nil => simp [splitList]
  | cons c front ih =>
    rw [List.cons_append, splitList, splitList, ih]
    split
    · rfl
    · cases hpieces : splitList sep front with
      | nil => exact absurd hpieces (split_list_ne_nil front)
      | cons piece pieces => rfl

theorem head_split_list {before : List Char} (h : sep ∉ before) (after : List Char) :
    (splitList sep (before ++ sep :: after)).head? = some before := by
  rw [split_list_append, split_list_plain h]
  rfl

theorem head_split {rest : String} {tail : List Char} (h : sep ∉ s.toList)
    (hrest : rest.toList = sep :: tail) : (split sep (s ++ rest)).head? = some s := by
  rw [split, List.head?_map, String.toList_append, hrest, head_split_list h, Option.map_some,
    String.ofList_toList]

theorem rsplit_once_list_eq_none : rsplitOnceList sep cs = none ↔ sep ∉ cs := by
  induction cs with
  | nil => simp [rsplitOnceList]
  | cons c cs ih =>
    rw [rsplitOnceList]
    cases hrest : rsplitOnceList sep cs with
    | none => simp [ih.mp hrest, eq_comm]
    | some parts =>
      have hmem : sep ∈ cs := by
        by_contra hnot
        simp [ih.mpr hnot] at hrest
      simp [hmem]

theorem rsplit_once_list_eq_some {before after : List Char} :
    rsplitOnceList sep cs = some (before, after) ↔ cs = before ++ sep :: after ∧ sep ∉ after := by
  induction cs generalizing before with
  | nil => simp [rsplitOnceList]
  | cons c cs ih =>
    rw [rsplitOnceList]
    cases hrest : rsplitOnceList sep cs with
    | none =>
      have hnot := rsplit_once_list_eq_none.mp hrest
      cases before with
      | nil =>
        by_cases hc : c = sep
        · simp only [hc, if_true, Option.some.injEq, Prod.mk.injEq, true_and, List.nil_append,
            List.cons.injEq]
          exact ⟨fun h => ⟨h, h ▸ hnot⟩, And.left⟩
        · simp [hc]
      | cons b before =>
        have hne : cs ≠ before ++ sep :: after := by
          rintro rfl
          simp at hnot
        simp [hne]
    | some parts =>
      obtain ⟨front, back⟩ := parts
      rw [hrest] at ih
      cases before with
      | nil =>
        have hmem : sep ∈ cs := by
          by_contra hnot
          simp [rsplit_once_list_eq_none.mpr hnot] at hrest
        simp
        rintro - rfl
        exact hmem
      | cons b before =>
        have hstep := @ih before
        simp only [Option.some.injEq, Prod.mk.injEq] at hstep
        simp only [Option.some.injEq, Prod.mk.injEq, List.cons.injEq, List.cons_append]
        tauto

theorem split_once_eq_some {before after : String} :
    splitOnce sep s = some (before, after) ↔
      s.toList = before.toList ++ sep :: after.toList ∧ sep ∉ before.toList := by
  rw [← split_once_list_eq_some, splitOnce, Option.map_eq_some_iff]
  constructor
  · rintro ⟨⟨front, back⟩, hsplit, hparts⟩
    cases hparts
    simpa using hsplit
  · intro h
    exact ⟨_, h, by simp⟩

theorem rsplit_once_eq_some {before after : String} :
    rsplitOnce sep s = some (before, after) ↔
      s.toList = before.toList ++ sep :: after.toList ∧ sep ∉ after.toList := by
  rw [← rsplit_once_list_eq_some, rsplitOnce, Option.map_eq_some_iff]
  constructor
  · rintro ⟨⟨front, back⟩, hsplit, hparts⟩
    cases hparts
    simpa using hsplit
  · intro h
    exact ⟨_, h, by simp⟩

theorem rsplit_once_eq_none : rsplitOnce sep s = none ↔ sep ∉ s.toList := by
  rw [rsplitOnce, Option.map_eq_none_iff, rsplit_once_list_eq_none]

theorem split_once_eq_none : splitOnce sep s = none ↔ sep ∉ s.toList := by
  rw [splitOnce, Option.map_eq_none_iff]
  generalize s.toList = cs
  induction cs with
  | nil => simp [splitOnceList]
  | cons c cs ih =>
    by_cases hc : c = sep
    · simp [splitOnceList, hc]
    · simp [splitOnceList, hc, ih, Ne.symm hc]

theorem split_once_str_eq_some {before after : String}
    (h : splitOnceStr pat s = some (before, after)) : s = before ++ (pat ++ after) := by
  have hlists : ∀ (cs front back : List Char),
      splitOnceStrList pat.toList cs = some (front, back) → cs = front ++ (pat.toList ++ back) := by
    intro cs
    induction cs with
    | nil =>
      intro front back hsplit
      simp only [splitOnceStrList, Option.ite_none_right_eq_some, List.isEmpty_iff,
        Option.some.injEq, Prod.mk.injEq] at hsplit
      obtain ⟨hpat, rfl, rfl⟩ := hsplit
      simp [hpat]
    | cons c cs ih =>
      intro front back hsplit
      rw [splitOnceStrList] at hsplit
      split at hsplit
      case isTrue hprefix =>
        obtain ⟨rest, hrest⟩ := List.isPrefixOf_iff_prefix.mp hprefix
        simp only [← hrest, List.drop_left, Option.some.injEq, Prod.mk.injEq] at hsplit
        obtain ⟨rfl, rfl⟩ := hsplit
        rw [hrest.symm, List.nil_append]
      case isFalse =>
        obtain ⟨⟨front', back'⟩, hrest, hparts⟩ := Option.map_eq_some_iff.mp hsplit
        cases hparts
        rw [ih front' back hrest, List.cons_append]
  obtain ⟨⟨front, back⟩, hsplit, hparts⟩ := Option.map_eq_some_iff.mp h
  cases hparts
  apply String.toList_inj.mp
  simpa using hlists s.toList front back hsplit

/-- A text is split at the first occurrence of a pattern whose first character does not occur
before. -/
theorem split_once_str_list_append {c : Char} {pat front back : List Char} (hfront : c ∉ front) :
    splitOnceStrList (c :: pat) (front ++ (c :: pat) ++ back) = some (front, back) := by
  induction front with
  | nil => simp [splitOnceStrList]
  | cons f front ih =>
    have hne : ¬f = c := fun h => hfront (h ▸ List.mem_cons_self)
    have hno : (c :: pat).isPrefixOf (f :: (front ++ (c :: pat) ++ back)) = false := by
      simp [List.isPrefixOf, Ne.symm hne]
    rw [List.cons_append, List.cons_append, splitOnceStrList, hno, if_neg Bool.false_ne_true,
      ih fun h => hfront (List.mem_cons_of_mem _ h)]
    rfl

theorem length_trim_start_matches_le (pat s : String) :
    (trimStartMatches pat s).toList.length ≤ s.toList.length := by
  have hgo : ∀ (fuel : Nat) (cs : List Char),
    (trimStartMatches.go pat fuel cs).length ≤ cs.length := by
    intro fuel
    induction fuel with
    | zero => exact fun _ => le_rfl
    | succ fuel ih =>
      intro cs
      rw [trimStartMatches.go]
      split
      · exact (ih _).trans (by simp)
      · exact le_rfl
  rw [trimStartMatches, String.toList_ofList]
  exact hgo _ _

theorem trim_ne_empty {c : Char} (hc : c ∈ s.toList) (hblank : isWhitespace c = false) :
    trim s ≠ "" := by
  have hkeep {cs : List Char} (hc : c ∈ cs) : c ∈ cs.dropWhile isWhitespace := by
    rw [← List.takeWhile_append_dropWhile (p := isWhitespace) (l := cs)] at hc
    rcases List.mem_append.mp hc with hc | hc
    · simp [List.all_eq_true.mp List.all_takeWhile c hc] at hblank
    · exact hc
  intro h
  have hmem := hkeep (List.mem_reverse.mpr (hkeep hc))
  have hnil := congrArg String.toList h
  rw [trim, String.toList_ofList, String.toList_empty, List.reverse_eq_nil_iff] at hnil
  simp [hnil] at hmem

theorem not_whitespace_alphanumeric {c : Char} (h : isAsciiAlphanumeric c = true) :
    isWhitespace c = false := by
  have hle (a b : Char) : a ≤ b ↔ a.toNat ≤ b.toNat := by
    rw [Char.le_def, UInt32.le_iff_toNat_le]
    rfl
  simp only [isAsciiAlphanumeric, isAsciiDigit, Bool.or_eq_true, Bool.and_eq_true,
    decide_eq_true_eq, hle] at h
  have hbounds : '0'.toNat = 48 ∧ '9'.toNat = 57 ∧ 'a'.toNat = 97 ∧ 'z'.toNat = 122 ∧
      'A'.toNat = 65 ∧ 'Z'.toNat = 90 := by decide
  simp only [isWhitespace, Bool.or_eq_false_iff, Bool.and_eq_false_iff, decide_eq_false_iff_not,
    beq_eq_false_iff_ne]
  omega

theorem to_digit_of_parse_digits {n : Nat} (h : parseDigits cs = some n) :
    ∀ c ∈ cs, (toDigit 10 c).isSome = true := by
  have hfold : ∀ (acc : Option Nat),
      cs.foldl (fun acc c => acc.bind fun n => (toDigit 10 c).map (n * 10 + ·)) acc = some n →
        acc.isSome = true ∧ ∀ c ∈ cs, (toDigit 10 c).isSome = true := by
    clear h
    induction cs with
    | nil => intro acc h; simp at h; simp [h]
    | cons c cs ih =>
      intro acc h
      obtain ⟨hacc, hcs⟩ := ih _ h
      cases acc with
      | none => simp at hacc
      | some m =>
        refine ⟨rfl, ?_⟩
        rintro c' (_ | ⟨_, hc'⟩)
        · simpa using hacc
        · exact hcs c' hc'
  cases cs with
  | nil => cases h
  | cons c cs => exact (hfold (some 0) h).2

theorem chars_of_parse_unsigned {max n : Nat} (h : parseUnsigned max s = some n) :
    ∀ c ∈ s.toList, (toDigit 10 c).isSome = true ∨ c = '+' := by
  have hparsed := (Option.filter_eq_some_iff.mp h).1
  split at hparsed
  case h_1 cs hcs =>
    rw [hcs]
    intro c hc
    rcases List.mem_cons.mp hc with rfl | hc
    · exact .inr rfl
    · exact .inl (to_digit_of_parse_digits hparsed c hc)
  case h_2 => exact fun c hc => .inl (to_digit_of_parse_digits hparsed c hc)

/-- The fuel of `trimStartMatches` is enough when it is the length of the text. -/
theorem trimStartMatches.go_eq {n m : Nat} (hn : cs.length ≤ n)
    (hm : cs.length ≤ m) : go pat n cs = go pat m cs := by
  induction n generalizing m cs with
  | zero =>
    obtain rfl := List.length_eq_zero_iff.mp (Nat.le_zero.mp hn)
    cases m with
    | zero => rfl
    | succ m => cases hpat : pat.toList <;> simp [go, hpat]
  | succ n ih =>
    cases m with
    | zero =>
      obtain rfl := List.length_eq_zero_iff.mp (Nat.le_zero.mp hm)
      cases hpat : pat.toList <;> simp [go, hpat]
    | succ m =>
      rw [go, go]
      split
      case isFalse => rfl
      case isTrue hmatch =>
        have hpat : pat.toList.length ≠ 0 := by
          intro h
          simp [List.length_eq_zero_iff.mp h] at hmatch
        apply ih <;> rw [List.length_drop] <;> omega

theorem trim_start_matches_append (hpat : pat ≠ "") :
    trimStartMatches pat (pat ++ s) = trimStartMatches pat s := by
  have hne : pat.toList ≠ [] := fun h => hpat (String.toList_inj.mp h)
  have hlen := List.length_pos_iff.mpr hne
  obtain ⟨fuel, hfuel⟩ : ∃ fuel, (pat ++ s).toList.length = fuel + 1 :=
    ⟨(pat ++ s).toList.length - 1, by rw [String.toList_append, List.length_append]; omega⟩
  have hmatch : (!pat.toList.isEmpty && pat.toList.isPrefixOf (pat ++ s).toList) = true := by
    simp [hne]
  rw [trimStartMatches, hfuel, trimStartMatches.go, if_pos hmatch, trimStartMatches,
    String.toList_append, List.drop_left]
  congr 1
  apply trimStartMatches.go_eq
  · rw [String.toList_append, List.length_append] at hfuel
    omega
  · exact le_rfl

theorem format_padded_injective (width : Nat) : Function.Injective (formatPadded width) := by
  intro a b hab
  have hvalue : ∀ n, Nat.ofDigitChars 10 (formatPadded width n).toList 0 = n := by
    intro n
    simp [formatPadded, Nat.ofDigitChars_append, Nat.ofDigitChars_ten_toDigits]
  rw [← hvalue a, hab, hvalue b]

/-! ## UTF-8 -/

/-- The ranges of the bytes that follow the first byte of a character. -/
def utf8Following (first : UInt8) : List (UInt8 × UInt8) :=
  if 0xC2 ≤ first && first ≤ 0xDF then [(0x80, 0xBF)]
  else if first = 0xE0 then [(0xA0, 0xBF), (0x80, 0xBF)]
  else if first = 0xED then [(0x80, 0x9F), (0x80, 0xBF)]
  else if 0xE1 ≤ first && first ≤ 0xEF then [(0x80, 0xBF), (0x80, 0xBF)]
  else if first = 0xF0 then [(0x90, 0xBF), (0x80, 0xBF), (0x80, 0xBF)]
  else if 0xF1 ≤ first && first ≤ 0xF3 then [(0x80, 0xBF), (0x80, 0xBF), (0x80, 0xBF)]
  else if first = 0xF4 then [(0x80, 0x8F), (0x80, 0xBF), (0x80, 0xBF)]
  else []

/-- How many bytes one replacement character stands for. -/
def utf8ErrorLen : List UInt8 → Nat
  | [] => 0
  | first :: rest =>
    1 + (((utf8Following first).zip rest).takeWhile fun (range, byte) =>
      range.1 ≤ byte && byte ≤ range.2).length

def lossyChars : (fuel : Nat) → List UInt8 → List Char
  | 0, _ | _, [] => []
  | fuel + 1, bytes =>
    match bytes.toByteArray.utf8DecodeChar? 0 with
    | some c => c :: lossyChars fuel (bytes.drop c.utf8Size)
    | none => Char.ofNat 0xFFFD :: lossyChars fuel (bytes.drop (utf8ErrorLen bytes))

/-- `String::from_utf8_lossy`. -/
def fromUtf8Lossy (bytes : List UInt8) : String :=
  match bytes.toByteArray.utf8Decode? with
  | some cs => String.ofList cs.toList
  | none => String.ofList (lossyChars bytes.length bytes)

example : fromUtf8Lossy [0x61, 0xE2, 0x82, 0xE2, 0x82, 0xAC, 0xFF] = "a\ufffd€\ufffd" := by
  decide +kernel

theorem from_utf8_lossy_encode (s : String) :
    fromUtf8Lossy (s.toList.flatMap String.utf8EncodeChar) = s := by
  change (match s.toList.utf8Encode.utf8Decode? with
    | some cs => String.ofList cs.toList
    | none => _) = s
  rw [List.utf8Decode?_utf8Encode]
  exact String.ofList_toList

end Crabscale.Rust
