import Crabscale.Control.Ssh
import Crabscale.Control.Convergence

/-!
# Query strings

The router reads the query part of a request into a map of decoded keys and values. It reads back
what the control plane wrote into the URL of an SSH action. The HTTP server looks one parameter up,
and misses it behind a component without a value (`query_param_hidden`).
-/

namespace Crabscale.Server

open Rust Control

/-! ## Decoding -/

def hexValue (byte : UInt8) : Option UInt8 :=
  if '0'.toUInt8 ≤ byte && byte ≤ '9'.toUInt8 then some (byte - '0'.toUInt8)
  else if 'a'.toUInt8 ≤ byte && byte ≤ 'f'.toUInt8 then some (byte - 'a'.toUInt8 + 10)
  else if 'A'.toUInt8 ≤ byte && byte ≤ 'F'.toUInt8 then some (byte - 'A'.toUInt8 + 10)
  else none

/-- The byte that three bytes stand for, if they are an escape. -/
def decodeEscape (percent hi lo : UInt8) : Option UInt8 :=
  if percent = '%'.toUInt8 then do
    let hi ← hexValue hi
    let lo ← hexValue lo
    some (hi <<< 4 ||| lo)
  else none

def plusToSpace (byte : UInt8) : UInt8 := if byte = '+'.toUInt8 then ' '.toUInt8 else byte

/-- The loop of `percent_decode`. -/
def percentDecodeBytes : List UInt8 → List UInt8
  | byte :: hi :: lo :: rest =>
    match decodeEscape byte hi lo with
    | some decoded => decoded :: percentDecodeBytes rest
    | none => plusToSpace byte :: percentDecodeBytes (hi :: lo :: rest)
  | byte :: rest => plusToSpace byte :: percentDecodeBytes rest
  | [] => []

def percentDecode (input : String) : String := fromUtf8Lossy (percentDecodeBytes (asBytes input))

def insertPair (map : BTreeMap String String) (pair : String) : BTreeMap String String :=
  if pair = "" then map
  else
    let (key, value) := (splitOnce '=' pair).getD (pair, "")
    map.insert (percentDecode key) (percentDecode value)

def parseQuery (query : String) : BTreeMap String String := (split '&' query).foldl insertPair ∅

/-! ## Decoding what was escaped -/

/-- The bytes are one byte that is kept or an escape, and stand for the given one. -/
def standFor (byte : UInt8) : List UInt8 → Bool
  | [plain] => plain ≠ '%'.toUInt8 && plusToSpace plain = byte
  | [percent, hi, lo] => decodeEscape percent hi lo = some byte
  | _ => false

theorem percent_decode_plain {byte : UInt8} (h : byte ≠ '%'.toUInt8) (rest : List UInt8) :
    percentDecodeBytes (byte :: rest) = plusToSpace byte :: percentDecodeBytes rest := by
  rcases rest with _ | ⟨hi, _ | ⟨lo, rest⟩⟩
  · rfl
  · rfl
  · rw [percentDecodeBytes, decodeEscape, if_neg h]

theorem percent_decode_append {byte : UInt8} {bytes : List UInt8} (h : standFor byte bytes = true)
    (rest : List UInt8) : percentDecodeBytes (bytes ++ rest) = byte :: percentDecodeBytes rest := by
  unfold standFor at h
  split at h
  · obtain ⟨hplain, hbyte⟩ := Bool.and_eq_true_iff.mp h
    rw [List.singleton_append, percent_decode_plain (of_decide_eq_true hplain),
      of_decide_eq_true hbyte]
  · change percentDecodeBytes (_ :: _ :: _ :: rest) = _
    rw [percentDecodeBytes, of_decide_eq_true h]
  · cases h

/-- A character that separates neither pairs nor keys from values. -/
def inComponent (c : Char) : Bool := c ≠ '&' && c ≠ '='

/-- Checked for each of the 256 bytes. -/
theorem escape_byte_spec (byte : UInt8) :
    standFor byte ((escapeByte byte).flatMap String.utf8EncodeChar) = true ∧
      (escapeByte byte).all inComponent = true := by
  have hall : ∀ n : Fin 256,
      standFor (UInt8.ofNat n) ((escapeByte (UInt8.ofNat n)).flatMap String.utf8EncodeChar) = true ∧
        (escapeByte (UInt8.ofNat n)).all inComponent = true := by
    decide +kernel
  have hbyte := hall ⟨byte.toNat, byte.toNat_lt⟩
  rwa [UInt8.ofNat_toNat] at hbyte

theorem percent_decode_escape (s : String) : percentDecode (urlQueryEscape s) = s := by
  have hbytes (bytes : List UInt8) : percentDecodeBytes
      ((bytes.flatMap escapeByte).flatMap String.utf8EncodeChar) = bytes := by
    induction bytes with
    | nil => rfl
    | cons byte bytes ih =>
      rw [List.flatMap_cons, List.flatMap_append,
        percent_decode_append (escape_byte_spec byte).1, ih]
  rw [percentDecode, urlQueryEscape, asBytes, String.toList_ofList, hbytes]
  exact from_utf8_lossy_encode s

theorem escape_in_component {s : String} {c : Char} (h : c ∈ (urlQueryEscape s).toList) :
    c ≠ '&' ∧ c ≠ '=' := by
  rw [urlQueryEscape, String.toList_ofList] at h
  obtain ⟨byte, -, hc⟩ := List.mem_flatMap.mp h
  simpa [inComponent] using List.all_eq_true.mp (escape_byte_spec byte).2 c hc

def hexDigits : List Char := "0123456789abcdefABCDEF".toList

/-- Hexadecimal digits are not escaped. -/
theorem escape_hex {s : String} (h : s.toList ⊆ hexDigits) : urlQueryEscape s = s := by
  have hdigits : ∀ c ∈ hexDigits, (String.utf8EncodeChar c).flatMap escapeByte = [c] :=
    List.map_inj_left.mp (by decide +kernel)
  rw [urlQueryEscape, asBytes, List.flatMap_assoc,
    List.flatMap_congr fun c hc => hdigits c (h hc), List.flatMap_singleton', String.ofList_toList]

/-! ## SSH actions -/

theorem insert_pair_eq (key : String) {value : String} (hkey : '=' ∉ key.toList)
    (map : BTreeMap String String) :
    insertPair map (key ++ "=" ++ value) =
      map.insert (percentDecode key) (percentDecode value) := by
  have hsplit : splitOnce '=' (key ++ "=" ++ value) = some (key, value) :=
    split_once_eq_some.mpr ⟨by simp, hkey⟩
  have hne : key ++ "=" ++ value ≠ "" := by
    intro h
    rw [h] at hsplit
    cases hsplit
  rw [insertPair, if_neg hne, hsplit]
  rfl

theorem split_pairs {first second third : String} (hfirst : '&' ∉ first.toList)
    (hsecond : '&' ∉ second.toList) (hthird : '&' ∉ third.toList) :
    split '&' (first ++ "&" ++ second ++ "&" ++ third) = [first, second, third] := by
  have hlist : (first ++ "&" ++ second ++ "&" ++ third).toList =
      first.toList ++ '&' :: (second.toList ++ '&' :: third.toList) := by simp
  rw [split, hlist, split_list_append, split_list_append, split_list_plain hfirst,
    split_list_plain hsecond, split_list_plain hthird]
  simp

theorem mem_trim_end_matches {c trimmed : Char} {s : String}
    (h : c ∈ (trimEndMatches trimmed s).toList) : c ∈ s.toList := by
  rw [trimEndMatches, String.toList_ofList, List.mem_reverse] at h
  exact List.mem_reverse.mp ((List.dropWhile_sublist _).subset h)

theorem question_mark_not_mem_to_string (n : Nat) : '?' ∉ (toString n).toList := by
  intro h
  have hdigit := Nat.isDigit_of_mem_toDigits (by decide) (by decide)
    (show '?' ∈ Nat.toDigits 10 n by simpa using h)
  cases hdigit

/-- The router reads the auth id and the two users back from the URL of an SSH action. -/
theorem ssh_action_url_round_trips (cp : ControlPlane) (binding : SshBinding) (authId : String)
    (hserver : '?' ∉ cp.config.serverUrl.toList) (hauth : authId.toList ⊆ hexDigits) :
    (splitOnce '?' (cp.buildSshActionUrl binding authId)).map (fun parts => parseQuery parts.2) =
      some (.from [("auth_id", authId), ("ssh_user", binding.sshUser),
        ("local_user", binding.localUser)]) := by
  generalize hpath : trimEndMatches '/' cp.config.serverUrl ++ "/machine/ssh/action/" ++
    toString binding.srcNodeId ++ "/to/" ++ toString binding.dstNodeId = path
  have hsplit : splitOnce '?' (cp.buildSshActionUrl binding authId) =
      some (path, "auth_id" ++ "=" ++ urlQueryEscape authId ++ "&" ++
        ("ssh_user" ++ "=" ++ urlQueryEscape binding.sshUser) ++ "&" ++
        ("local_user" ++ "=" ++ urlQueryEscape binding.localUser)) := by
    rw [split_once_eq_some, ControlPlane.buildSshActionUrl, hpath, escape_hex hauth]
    refine ⟨by simp, ?_⟩
    subst hpath
    simp only [String.toList_append, List.mem_append, not_or]
    exact ⟨⟨⟨⟨fun hmem => hserver (mem_trim_end_matches hmem), by decide +kernel⟩,
      question_mark_not_mem_to_string _⟩, by decide +kernel⟩, question_mark_not_mem_to_string _⟩
  have hpair (key s : String) (hkey : '&' ∉ key.toList) :
      '&' ∉ (key ++ "=" ++ urlQueryEscape s).toList := by
    simp only [String.toList_append, List.mem_append, not_or]
    exact ⟨⟨hkey, by decide⟩, fun hmem => (escape_in_component hmem).1 rfl⟩
  have hkeys : percentDecode "auth_id" = "auth_id" ∧ percentDecode "ssh_user" = "ssh_user" ∧
      percentDecode "local_user" = "local_user" := by
    decide +kernel
  rw [hsplit, Option.map_some, parseQuery, split_pairs (hpair _ _ (by decide +kernel))
    (hpair _ _ (by decide +kernel)) (hpair _ _ (by decide +kernel))]
  simp only [List.foldl_cons, List.foldl_nil, insert_pair_eq "auth_id" (by decide +kernel),
    insert_pair_eq "ssh_user" (by decide +kernel),
    insert_pair_eq "local_user" (by decide +kernel), percent_decode_escape, hkeys]
  rfl

theorem ssh_action_url_round_trips_root :
    (splitOnce '?' (openServer.buildSshActionUrl ⟨1, 2, "a&b=ü", "root +%"⟩ "0a1B")).map
        (fun parts => parseQuery parts.2) =
      some (.from [("auth_id", "0a1B"), ("ssh_user", "a&b=ü"), ("local_user", "root +%")]) :=
  ssh_action_url_round_trips openServer ⟨1, 2, "a&b=ü", "root +%"⟩ "0a1B" (by decide +kernel)
    (by decide +kernel)

/-! ## One parameter -/

/-- The loop of `query_param`, which ends at a component without a value. -/
def queryParamIn (name : String) : List String → Option String
  | [] => none
  | pair :: pairs =>
    match splitOnce '=' pair with
    | none => none
    | some (key, value) => if key = name then some value else queryParamIn name pairs

def queryParam (query : Option String) (name : String) : Option String :=
  query.bind fun query => queryParamIn name (split '&' query)

/-- The value of a component of the form `name=value`. -/
def valueOf (name pair : String) : Option String :=
  (splitOnce '=' pair).bind fun (key, value) => if key = name then some value else none

/-- The components before the first one with the name have values. -/
def Reaches (name : String) (pairs : List String) : Prop :=
  ∀ pair ∈ pairs.takeWhile fun pair => (valueOf name pair).isNone, '=' ∈ pair.toList

theorem query_param_in_iff (name : String) (pairs : List String) :
    queryParamIn name pairs = pairs.findSome? (valueOf name) ↔
      pairs.findSome? (valueOf name) = none ∨ Reaches name pairs := by
  induction pairs with
  | nil => exact iff_of_true rfl (.inl rfl)
  | cons pair pairs ih =>
    unfold Reaches at ih ⊢
    rw [queryParamIn, List.findSome?_cons, List.takeWhile_cons]
    cases hsplit : splitOnce '=' pair with
    | none =>
      have hvalue : valueOf name pair = none := by rw [valueOf, hsplit]; rfl
      have hplain : '=' ∉ pair.toList := split_once_eq_none.mp hsplit
      simp [hvalue, hplain, eq_comm]
    | some parts =>
      obtain ⟨key, value⟩ := parts
      have hmem : '=' ∈ pair.toList := by
        rw [(split_once_eq_some.mp hsplit).1]
        exact List.mem_append_right _ List.mem_cons_self
      by_cases hkey : key = name
      · have hvalue : valueOf name pair = some value := by rw [valueOf, hsplit]; exact if_pos hkey
        simp [hvalue, hkey]
      · have hvalue : valueOf name pair = none := by rw [valueOf, hsplit]; exact if_neg hkey
        simp [hvalue, hkey, hmem, ih]

/-- `query_param` answers with the first component of the form `name=value`, or that there is none,
if and only if there is none or no component before it is without a value. -/
theorem query_param_first_iff (query name : String) :
    queryParam (some query) name = (split '&' query).findSome? (valueOf name) ↔
      (split '&' query).findSome? (valueOf name) = none ∨ Reaches name (split '&' query) :=
  query_param_in_iff name (split '&' query)

/-- A component without a value hides the one after it. -/
theorem query_param_hidden :
    queryParam (some "debug&v=130") "v" = none ∧
      (split '&' "debug&v=130").findSome? (valueOf "v") = some "130" := by
  decide +kernel

end Crabscale.Server
