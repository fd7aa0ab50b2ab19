import Crabscale.Transport.Messages

/-!
# The Noise IK handshake

The two sides of `Noise_IK_25519_ChaChaPoly_BLAKE2s`. The primitives are parameters, and
`Primitives.Lawful` is what the handshake relies on: Diffie-Hellman commutes and opening inverts
sealing. `handshake_agrees` follows both sides through the two messages: every Diffie-Hellman step
gives the same state (`mix_dh_comm`), and what one side seals the other opens, with the same
transcript afterwards (`open_bytes_seal_bytes`).
-/

namespace Crabscale.Transport

open Rust

/-! ## Primitives -/

/-- The cryptographic functions of the handshake: the public key of a secret and the shared secret
of X25519, the digest of BLAKE2s, the two keys that HKDF expands from a chaining key and key
material, and the sealing and opening of ChaCha20-Poly1305 with a detached tag. -/
structure Primitives where
  publicKey : Bytes 32 → Bytes 32
  diffieHellman : (secret point : Bytes 32) → Bytes 32
  digest : List UInt8 → Bytes 32
  hkdf : (salt : Bytes 32) → (keyMaterial : List UInt8) → Bytes 32 × Bytes 32
  encrypt : (key : Bytes 32) → (nonce : Bytes 12) → (aad : List UInt8) → {n : Nat} → Bytes n →
    Bytes n × Bytes aeadTagLen
  decrypt : (key : Bytes 32) → (nonce : Bytes 12) → (aad : List UInt8) → {n : Nat} → Bytes n →
    Bytes aeadTagLen → Option (Bytes n)

/-- What the handshake relies on. -/
structure Primitives.Lawful (P : Primitives) : Prop where
  diffieHellman_comm : ∀ a b : Bytes 32,
    P.diffieHellman a (P.publicKey b) = P.diffieHellman b (P.publicKey a)
  decrypt_encrypt : ∀ (key : Bytes 32) (nonce : Bytes 12) (aad : List UInt8) {n : Nat}
    (cleartext : Bytes n),
    P.decrypt key nonce aad (P.encrypt key nonce aad cleartext).1
      (P.encrypt key nonce aad cleartext).2 = some cleartext

/-! ## Handshake state -/

def protocolName : List UInt8 := "Noise_IK_25519_ChaChaPoly_BLAKE2s".toUTF8.toList

/-- The side of a handshake. -/
inductive Role where
  | initiator
  | responder
  deriving DecidableEq

/-- The keys that a handshake produces. -/
structure Session where
  initiatorToResponder : Bytes 32
  responderToInitiator : Bytes 32
  role : Role
  deriving DecidableEq

/-- The transcript hash and the chaining key. -/
structure State where
  hash : Bytes 32
  chainingKey : Bytes 32
  deriving DecidableEq

structure StateWithAead where
  state : State
  aead : Bytes 32
  deriving DecidableEq

def defaultNonce : Bytes 12 := ⟨List.replicate 12 0, rfl⟩

namespace State

variable (P : Primitives)

def new (name : List UInt8) : State := { hash := P.digest name, chainingKey := P.digest name }

def mixHash (state : State) (data : List UInt8) : State :=
  { state with hash := P.digest (state.hash.val ++ data) }

def mixHashGather (state : State) (pieces : List (List UInt8)) : State :=
  { state with hash := P.digest (state.hash.val ++ pieces.flatten) }

def mixDh (state : State) (secret point : Bytes 32) : StateWithAead :=
  let (chainingKey, key) := P.hkdf state.chainingKey (P.diffieHellman secret point).val
  { state := { state with chainingKey }, aead := key }

def finish (state : State) (role : Role) : Session :=
  let (initiatorToResponder, responderToInitiator) := P.hkdf state.chainingKey []
  { initiatorToResponder, responderToInitiator, role }

end State

namespace StateWithAead

variable (P : Primitives) {n : Nat}

def mixDh (sealer : StateWithAead) (secret point : Bytes 32) : StateWithAead :=
  sealer.state.mixDh P secret point

def sealBytes (sealer : StateWithAead) (cleartext : Bytes n) :
    Bytes n × Bytes aeadTagLen × State :=
  let (ciphertext, tag) := P.encrypt sealer.aead defaultNonce sealer.state.hash.val cleartext
  (ciphertext, tag, sealer.state.mixHashGather P [ciphertext.val, tag.val])

def openBytes (sealer : StateWithAead) (ciphertext : Bytes n) (tag : Bytes aeadTagLen) :
    Option (Bytes n × State) :=
  let state := sealer.state.mixHashGather P [ciphertext.val, tag.val]
  (P.decrypt sealer.aead defaultNonce sealer.state.hash.val ciphertext tag).map fun cleartext =>
    (cleartext, state)

end StateWithAead

/-! ## The responder -/

/-- The server's side, with its long-term key pair. -/
structure NoiseResponder where
  staticPrivate : Bytes 32
  staticPublic : Bytes 32
  deriving DecidableEq

structure ResponderOutput where
  response : Bytes responseMessageLen
  session : Session
  peerStaticPublic : Bytes 32
  deriving DecidableEq

/-- `Option::ok_or`. -/
def okOr {ε α : Type} (error : ε) : Option α → Except ε α
  | some value => .ok value
  | none => .error error

namespace NoiseResponder

variable (P : Primitives)

def fromBytes (secret : Bytes 32) : NoiseResponder :=
  { staticPrivate := secret, staticPublic := P.publicKey secret }

def respondWithEphemeral (server : NoiseResponder) (init : InitMessage) (prologue : List UInt8)
    (serverEphemeral : Bytes 32) : Except TransportError ResponderOutput := do
  if init.version < minSupportedCapver then throw (.unsupportedCapabilityVersion init.version)
  let opener := State.new P protocolName
    |>.mixHash P prologue
    |>.mixHash P server.staticPublic.val
    |>.mixHash P init.clientEphemeral.val
    |>.mixDh P server.staticPrivate init.clientEphemeral
  let ciphertext := Bytes.copyFrom 32 init.clientStaticCiphertext.val 0
    (by rw [init.clientStaticCiphertext.property]; decide)
  let staticTag := Bytes.copyFrom aeadTagLen init.clientStaticCiphertext.val 32
    (by rw [init.clientStaticCiphertext.property]; decide)
  let (clientStatic, state) ← okOr .handshakeFailed (opener.openBytes P ciphertext staticTag)
  let (_, state) ← okOr .handshakeFailed
    ((state.mixDh P server.staticPrivate clientStatic).openBytes P Bytes.empty init.payloadTag)
  let ephemeralPublic := P.publicKey serverEphemeral
  let (_, authTag, state) := state
    |>.mixHash P ephemeralPublic.val
    |>.mixDh P serverEphemeral init.clientEphemeral
    |>.mixDh P serverEphemeral clientStatic
    |>.sealBytes P Bytes.empty
  return { response := writeResponseMessage ephemeralPublic authTag
           session := state.finish P .responder
           peerStaticPublic := clientStatic }

end NoiseResponder

/-! ## The initiator -/

/-- The client's side between the two messages. -/
structure NoiseInitiator where
  staticPrivate : Bytes 32
  state : State
  ephemeralPrivate : Bytes 32
  deriving DecidableEq

namespace NoiseInitiator

variable (P : Primitives)

def initializeWithEphemeral (clientStatic ephemeral serverPublic : Bytes 32)
    (prologue : List UInt8) (version : UInt16) : NoiseInitiator × Bytes initMessageLen :=
  let ephemeralPublic := P.publicKey ephemeral
  let (ciphertext, staticTag, state) := State.new P protocolName
    |>.mixHash P prologue
    |>.mixHash P serverPublic.val
    |>.mixHash P ephemeralPublic.val
    |>.mixDh P ephemeral serverPublic
    |>.sealBytes P (P.publicKey clientStatic)
  let (_, payloadTag, state) := (state.mixDh P clientStatic serverPublic).sealBytes P Bytes.empty
  ({ staticPrivate := clientStatic, state, ephemeralPrivate := ephemeral },
    writeInitMessage
      { version
        clientEphemeral := ephemeralPublic
        clientStaticCiphertext := ciphertext.append staticTag
        payloadTag })

def finish (initiator : NoiseInitiator) (response : Bytes responseMessageLen) :
    Except TransportError Session := do
  let parsed ← parseResponseMessage response.val
  let (_, state) ← okOr .handshakeFailed
    (initiator.state
      |>.mixHash P parsed.serverEphemeral.val
      |>.mixDh P initiator.ephemeralPrivate parsed.serverEphemeral
      |>.mixDh P initiator.staticPrivate parsed.serverEphemeral
      |>.openBytes P Bytes.empty parsed.authTag)
  return state.finish P .initiator

end NoiseInitiator

/-! ## Streams -/

structure NoiseStream where
  readKey : Bytes 32
  writeKey : Bytes 32
  deriving DecidableEq

def clientStream (session : Session) : NoiseStream :=
  { readKey := session.responderToInitiator, writeKey := session.initiatorToResponder }

def serverStream (session : Session) : NoiseStream :=
  { readKey := session.initiatorToResponder, writeKey := session.responderToInitiator }

/-! ## Agreement -/

section Agreement

variable {P : Primitives}

theorem mix_dh_comm (laws : P.Lawful) (state : State) (a b : Bytes 32) :
    state.mixDh P a (P.publicKey b) = state.mixDh P b (P.publicKey a) := by
  rw [State.mixDh, State.mixDh, laws.diffieHellman_comm]

theorem open_bytes_seal_bytes (laws : P.Lawful) (sealer : StateWithAead) {n : Nat}
    (cleartext : Bytes n) :
    sealer.openBytes P (sealer.sealBytes P cleartext).1 (sealer.sealBytes P cleartext).2.1 =
      some (cleartext, (sealer.sealBytes P cleartext).2.2) := by
  unfold StateWithAead.openBytes StateWithAead.sealBytes
  dsimp only
  rw [laws.decrypt_encrypt]
  rfl

def greeting (P : Primitives) (ephemeral serverPublic : Bytes 32) (prologue : List UInt8) :
    StateWithAead :=
  State.new P protocolName
    |>.mixHash P prologue
    |>.mixHash P serverPublic.val
    |>.mixHash P (P.publicKey ephemeral).val
    |>.mixDh P ephemeral serverPublic

def answering (P : Primitives) (state : State)
    (clientStatic clientEphemeral serverEphemeral : Bytes 32) : StateWithAead :=
  state
    |>.mixHash P (P.publicKey serverEphemeral).val
    |>.mixDh P serverEphemeral (P.publicKey clientEphemeral)
    |>.mixDh P serverEphemeral (P.publicKey clientStatic)

theorem respond_greeting (laws : P.Lawful)
    (clientStatic clientEphemeral serverStatic serverEphemeral : Bytes 32) (prologue : List UInt8)
    {init : InitMessage} {ciphertext : Bytes 32} {staticTag payloadTag : Bytes aeadTagLen}
    {afterStatic state : State} {empty answer : Bytes 0} {authTag : Bytes aeadTagLen}
    {final : State} (hversion : minSupportedCapver ≤ init.version)
    (hephemeral : init.clientEphemeral = P.publicKey clientEphemeral)
    (hfield : init.clientStaticCiphertext.val = ciphertext.val ++ staticTag.val)
    (hpayload : init.payloadTag = payloadTag)
    (hstatic : (greeting P clientEphemeral (P.publicKey serverStatic) prologue).sealBytes P
      (P.publicKey clientStatic) = (ciphertext, staticTag, afterStatic))
    (hempty : (afterStatic.mixDh P clientStatic (P.publicKey serverStatic)).sealBytes P
    Bytes.empty =
      (empty, payloadTag, state))
    (hanswer : (answering P state clientStatic clientEphemeral serverEphemeral).sealBytes P
      Bytes.empty = (answer, authTag, final)) :
    (NoiseResponder.fromBytes P serverStatic).respondWithEphemeral P init prologue serverEphemeral =
      .ok { response := writeResponseMessage (P.publicKey serverEphemeral) authTag
            session := final.finish P .responder
            peerStaticPublic := P.publicKey clientStatic } := by
  have hcopied : Bytes.copyFrom 32 init.clientStaticCiphertext.val 0
      (by rw [init.clientStaticCiphertext.property]; decide) = ciphertext :=
    Bytes.copy_from_of_eq [] ciphertext staticTag.val hfield rfl _
  have htag : Bytes.copyFrom aeadTagLen init.clientStaticCiphertext.val 32
      (by rw [init.clientStaticCiphertext.property]; decide) = staticTag :=
    Bytes.copy_from_of_eq ciphertext.val staticTag [] (by rw [List.append_nil, hfield])
      ciphertext.property.symm _
  have hopened := open_bytes_seal_bytes laws
    (greeting P clientEphemeral (P.publicKey serverStatic) prologue) (P.publicKey clientStatic)
  have hopenedEmpty := open_bytes_seal_bytes laws
    (afterStatic.mixDh P clientStatic (P.publicKey serverStatic)) Bytes.empty
  rw [hstatic, greeting, mix_dh_comm laws] at hopened
  have hnil : empty = Bytes.empty := Subtype.ext (List.eq_nil_of_length_eq_zero empty.property)
  rw [hempty, hnil, mix_dh_comm laws] at hopenedEmpty
  unfold answering at hanswer
  unfold NoiseResponder.respondWithEphemeral
  rw [if_neg (UInt16.not_lt.mpr hversion)]
  dsimp only [NoiseResponder.fromBytes]
  rw [hcopied, htag, hpayload, hephemeral, hopened]
  dsimp only [okOr, Bind.bind, Except.bind]
  rw [hopenedEmpty]
  dsimp only [okOr]
  rw [hanswer]
  rfl

theorem finish_answer (laws : P.Lawful) (serverEphemeral : Bytes 32) (initiator : NoiseInitiator)
    {answer : Bytes 0} {authTag : Bytes aeadTagLen} {final : State}
    (hanswer : (answering P initiator.state initiator.staticPrivate initiator.ephemeralPrivate
      serverEphemeral).sealBytes P Bytes.empty = (answer, authTag, final)) :
    initiator.finish P (writeResponseMessage (P.publicKey serverEphemeral) authTag) =
      .ok (final.finish P .initiator) := by
  have hopened := open_bytes_seal_bytes laws
    (answering P initiator.state initiator.staticPrivate initiator.ephemeralPrivate serverEphemeral)
    Bytes.empty
  have hnil : answer = Bytes.empty := Subtype.ext (List.eq_nil_of_length_eq_zero answer.property)
  rw [hanswer, hnil, answering, StateWithAead.mixDh,
    mix_dh_comm laws _ serverEphemeral initiator.staticPrivate,
    mix_dh_comm laws _ serverEphemeral initiator.ephemeralPrivate] at hopened
  unfold NoiseInitiator.finish
  rw [parse_response_message_write]
  dsimp only [Bind.bind, Except.bind, StateWithAead.mixDh]
  rw [hopened]
  rfl

/-- After a handshake both sides have the same keys, and the responder knows the client. -/
theorem handshake_agrees (laws : P.Lawful)
    (clientStatic clientEphemeral serverStatic serverEphemeral : Bytes 32) (prologue : List UInt8)
    (version : UInt16) (hversion : 113 ≤ version) :
    let server := NoiseResponder.fromBytes P serverStatic
    let initiated := NoiseInitiator.initializeWithEphemeral P clientStatic clientEphemeral
      server.staticPublic prologue version
    ∃ init output session,
      parseInitMessage initiated.2.val = .ok init ∧
      server.respondWithEphemeral P init prologue serverEphemeral = .ok output ∧
      initiated.1.finish P output.response = .ok session ∧
      output.peerStaticPublic = P.publicKey clientStatic ∧
      session.role = .initiator ∧ output.session.role = .responder ∧
      session.initiatorToResponder = output.session.initiatorToResponder ∧
      session.responderToInitiator = output.session.responderToInitiator ∧
      (clientStream session).writeKey = (serverStream output.session).readKey ∧
      (clientStream session).readKey = (serverStream output.session).writeKey := by
  intro server initiated
  exact ⟨_, _, _, parse_init_message_write _,
    respond_greeting laws clientStatic clientEphemeral serverStatic serverEphemeral prologue
      hversion
      rfl rfl rfl rfl rfl rfl,
    finish_answer laws serverEphemeral initiated.1 rfl, rfl, rfl, rfl, rfl, rfl, rfl, rfl⟩

end Agreement

/-! ## A handshake -/

def sumDigest (n : Nat) (data : List UInt8) : Bytes n :=
  ⟨List.replicate n (data.foldl (· + ·) 0), List.length_replicate⟩

def masked (key : Bytes 32) {n : Nat} (text : Bytes n) : Bytes n :=
  ⟨text.val.map (· ^^^ key.val.headD 0), by rw [List.length_map, text.property]⟩

theorem masked_masked (key : Bytes 32) {n : Nat} (text : Bytes n) :
    masked key (masked key text) = text := by
  apply Subtype.ext
  show (text.val.map (· ^^^ key.val.headD 0)).map (· ^^^ key.val.headD 0) = text.val
  rw [List.map_map]
  conv => rhs; rw [← List.map_id text.val]
  congr 1
  funext byte
  simp only [Function.comp_apply, UInt8.xor_assoc, UInt8.xor_self, UInt8.xor_zero, id_eq]

def plainPrimitives : Primitives where
  publicKey secret := secret
  diffieHellman secret point :=
    ⟨List.zipWith (· ^^^ ·) secret.val point.val, by
      rw [List.length_zipWith, secret.property, point.property, Nat.min_self]⟩
  digest data := sumDigest 32 data
  hkdf salt keyMaterial :=
    (sumDigest 32 (1 :: salt.val ++ keyMaterial), sumDigest 32 (2 :: salt.val ++ keyMaterial))
  encrypt key nonce aad _ cleartext :=
    (masked key cleartext,
      sumDigest aeadTagLen (key.val ++ nonce.val ++ aad ++ (masked key cleartext).val))
  decrypt key nonce aad _ ciphertext tag :=
    if tag = sumDigest aeadTagLen (key.val ++ nonce.val ++ aad ++ ciphertext.val) then
      some (masked key ciphertext)
    else none

theorem plain_primitives_lawful : plainPrimitives.Lawful where
  diffieHellman_comm a b := by
    apply Subtype.ext
    exact List.zipWith_comm_of_comm (fun x y => UInt8.xor_comm x y)
  decrypt_encrypt key nonce aad _ cleartext := by
    show (if _ = _ then some (masked key (masked key cleartext)) else none) = some cleartext
    rw [masked_masked]
    exact if_pos rfl

def keyOf (byte : UInt8) : Bytes 32 := ⟨List.replicate 32 byte, List.length_replicate⟩

/-- A client of version 113 completes the handshake. -/
theorem handshake_agrees_plain :
    plainPrimitives.Lawful ∧ (113 : UInt16) ≤ 113 ∧
    ∃ init output session,
      parseInitMessage (NoiseInitiator.initializeWithEphemeral plainPrimitives (keyOf 1) (keyOf 2)
        (keyOf 3) [] 113).2.val = .ok init ∧
      (NoiseResponder.fromBytes plainPrimitives (keyOf 3)).respondWithEphemeral plainPrimitives init
        [] (keyOf 4) = .ok output ∧
      (NoiseInitiator.initializeWithEphemeral plainPrimitives (keyOf 1) (keyOf 2) (keyOf 3) []
        113).1.finish plainPrimitives output.response = .ok session ∧
      output.peerStaticPublic = keyOf 1 ∧
      session.role = .initiator ∧ output.session.role = .responder ∧
      session.initiatorToResponder = output.session.initiatorToResponder ∧
      session.responderToInitiator = output.session.responderToInitiator ∧
      (clientStream session).writeKey = (serverStream output.session).readKey ∧
      (clientStream session).readKey = (serverStream output.session).writeKey :=
  ⟨plain_primitives_lawful, by decide,
    handshake_agrees plain_primitives_lawful (keyOf 1) (keyOf 2) (keyOf 3) (keyOf 4) [] 113
      (by decide)⟩

end Crabscale.Transport
