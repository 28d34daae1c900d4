import ManagedSecurity.Lib.Transition
import ManagedSecurity.Platform
import Mathlib.Logic.Function.Basic

/-! # The handshake (`ShieldSession`)

Two parties run `PerformHandshakeAsync` over a connection: each writes its own
handshake message, then reads the message of the other, and then sends whatever it
likes. A step is one write or one read of one party; how many bytes it moves is
part of its label, so that the runs are all interleavings and all segmentations.

`ECDiffieHellman` and `HKDF` are not part of the repository; they are the fields of
`KeyAgreement`, and what is assumed of them is stated where it is used.

* `Wrote`, `Stands`: what a party has sent, and where it stands in the message of
  the other;
* `handshake_agreement`: whole runs.
-/

namespace ManagedSecurity

open Bytes Transition

/-- `ECDiffieHellman` on one curve, and `HKDF.DeriveKey` with SHA-256. A public key
that cannot be imported, and a secret that cannot be derived, make them throw. -/
structure KeyAgreement where
  PrivateKey : Type
  PublicKey : Type
  publicKey : PrivateKey → PublicKey
  exportSubjectPublicKeyInfo : PublicKey → Bytes
  importSubjectPublicKeyInfo : Bytes → Option PublicKey
  deriveRawSecretAgreement : PrivateKey → PublicKey → Option Bytes
  hkdfDeriveKey : Bytes → ℕ → Bytes → Bytes

/-- What the handshake relies on. -/
structure KeyAgreement.Honest (K : KeyAgreement) : Prop where
  symmetric : ∀ a b, K.deriveRawSecretAgreement a (K.publicKey b) =
    K.deriveRawSecretAgreement b (K.publicKey a)
  imports : ∀ p, K.importSubjectPublicKeyInfo (K.exportSubjectPublicKeyInfo p) = some p
  short : ∀ p, (K.exportSubjectPublicKeyInfo p).length < 65536

/-- `HandshakeMagic`, `"SHLD"u8`. -/
def handshakeMagic : Bytes := [83, 72, 76, 68]

/-- `HandshakeVersion`. -/
def handshakeVersion : UInt8 := 1

/-- `"ManagedSecurity_Session_V1"u8`. -/
def sessionInfo : Bytes :=
  [77, 97, 110, 97, 103, 101, 100, 83, 101, 99, 117, 114, 105, 116, 121, 95, 83, 101, 115, 115, 105,
    111, 110, 95, 86, 49]

namespace ShieldSession

variable (K : KeyAgreement)

/-- `_publicKey`. -/
def publicKey (own : K.PrivateKey) : Bytes := K.exportSubjectPublicKeyInfo (K.publicKey own)

/-- The message a party sends: magic, version, the length of the key in 16 bits, and
the key. -/
def outgoing (own : K.PrivateKey) : Bytes :=
  handshakeMagic ++ (handshakeVersion :: (beBytes 2 (publicKey K own).length ++ publicKey K own))

/-- The checks of the header; the length of the key that follows. -/
def peerKeyLen (header : Bytes) : Except Exn ℕ :=
  if slice header 0 4 ≠ handshakeMagic then
    .error (.cryptographic "Invalid handshake magic.")
  else if header.getD 4 0 ≠ handshakeVersion then
    .error (.notSupported s!"Unsupported handshake version: {header.getD 4 0}")
  else
    .ok (beNat (slice header 5 2))

/-- The session key, from the key of the peer. -/
def deriveKey (own : K.PrivateKey) (peerKey : Bytes) : Except Exn Bytes :=
  match K.importSubjectPublicKeyInfo peerKey with
  | none => .error (.cryptographic "")
  | some peerPublic =>
    match K.deriveRawSecretAgreement own peerPublic with
    | none => .error (.cryptographic "")
    | some sharedSecret => .ok (K.hkdfDeriveKey sharedSecret 32 sessionInfo)

/-- Where `PerformHandshakeAsync` stands: what is still to be written; what has been
read of the header, and of a key of the given length; how it has ended. -/
inductive Phase where
  | writing (rest : Bytes)
  | readingHeader (header : Bytes)
  | readingKey (length : ℕ) (peerKey : Bytes)
  | returned (key : Bytes)
  | thrown (e : Exn)
deriving DecidableEq, Repr

/-- The key is there: `PerformHandshakeAsync` ends. -/
def finish (own : K.PrivateKey) (peerKey : Bytes) : Phase :=
  match deriveKey K own peerKey with
  | .ok key => .returned key
  | .error e => .thrown e

/-- `ReadExactAsync` for the key has this much of it. -/
def readKey (own : K.PrivateKey) (length : ℕ) (peerKey : Bytes) : Phase :=
  if peerKey.length < length then .readingKey length peerKey else finish K own peerKey

/-- `ReadExactAsync` for the header has this much of it. -/
def readHeader (own : K.PrivateKey) (header : Bytes) : Phase :=
  if header.length < 7 then
    .readingHeader header
  else
    match peerKeyLen header with
    | .ok length => readKey K own length []
    | .error e => .thrown e

/-- A party: its key, where it stands, what it has sent, how much of the data it has
received it has read, and what it has sent behind its handshake. -/
structure Party where
  own : K.PrivateKey
  phase : Phase
  sent : Bytes
  consumed : ℕ
  payload : Bytes
  closed : Bool

/-- The two ends of the connection. -/
inductive Side where
  | camera
  | hub
deriving DecidableEq, Repr

/-- The other end. -/
def Side.peer : Side → Side
  | .camera => .hub
  | .hub => .camera

/-- What a party does. -/
inductive Action where
  /-- Some bytes of the handshake message go out. -/
  | write (count : ℕ)
  /-- `ReadAsync` returns that many bytes. -/
  | read (count : ℕ)
  /-- `ReadAsync` returns 0. -/
  | readEnd
  /-- Bytes are sent behind the handshake. -/
  | send (bytes : Bytes)
  /-- The connection is shut down in one direction. -/
  | close
deriving DecidableEq, Repr

variable {K}

/-- What the party `p` does, while the other one is `q`. -/
def act (p q : Party K) : Action → Option (Party K)
  | .write count =>
    match p.phase with
    | .writing rest =>
      if 0 < count ∧ count ≤ rest.length then
        some { p with
          sent := p.sent ++ rest.take count
          phase := if rest.drop count = [] then readHeader K p.own [] else .writing (rest.drop count) }
      else none
    | _ => none
  | .read count =>
    let bytes := slice q.sent p.consumed count
    match p.phase with
    | .readingHeader header =>
      if 0 < count ∧ header.length + count ≤ 7 ∧ p.consumed + count ≤ q.sent.length then
        some { p with phase := readHeader K p.own (header ++ bytes), consumed := p.consumed + count }
      else none
    | .readingKey length peerKey =>
      if 0 < count ∧ peerKey.length + count ≤ length ∧ p.consumed + count ≤ q.sent.length then
        some { p with
          phase := readKey K p.own length (peerKey ++ bytes)
          consumed := p.consumed + count }
      else none
    | _ => none
  | .readEnd =>
    if q.closed = true ∧ q.sent.length ≤ p.consumed then
      match p.phase with
      | .readingHeader _ => some { p with phase := .thrown (.endOfStream "Handshake truncated.") }
      | .readingKey _ _ => some { p with phase := .thrown (.endOfStream "Handshake truncated.") }
      | _ => none
    else none
  | .send bytes =>
    match p.phase with
    | .returned _ => if p.closed then none else some { p with
        sent := p.sent ++ bytes
        payload := p.payload ++ bytes }
    | _ => none
  | .close =>
    match p.phase with
    | .returned _ => some { p with closed := true }
    | .thrown _ => some { p with closed := true }
    | _ => none

/-- The two parties. -/
abbrev Session (K : KeyAgreement) := Side → Party K

/-- Both parties are about to write their handshake. -/
def initial (keys : Side → K.PrivateKey) : Session K := fun side =>
  ⟨keys side, .writing (outgoing K (keys side)), [], 0, [], false⟩

/-- One step of one party. -/
def step (s : Session K) (i : Side × Action) : Option (Session K) :=
  (act (s i.1) (s i.1.peer) i.2).map fun p => Function.update s i.1 p

/-! ## What the parties know -/

/-- What is still to be written of the handshake. -/
def Phase.unwritten : Phase → Bytes
  | .writing rest => rest
  | _ => []

/-- What has been sent is the handshake, as far as it is written, and then the
payload. -/
def Wrote (p : Party K) : Prop :=
  p.sent ++ p.phase.unwritten = outgoing K p.own ++ p.payload

/-- A party that has consumed that much is in this phase of reading the handshake of
`peer`. -/
def Stands (own peer : K.PrivateKey) (consumed : ℕ) : Phase → Prop
  | .writing _ => consumed = 0
  | .readingHeader header => header = (outgoing K peer).take header.length ∧ header.length < 7 ∧
      consumed = header.length
  | .readingKey length peerKey => length = (publicKey K peer).length ∧
      peerKey = (publicKey K peer).take peerKey.length ∧ peerKey.length < length ∧
      consumed = 7 + peerKey.length
  | .returned key => consumed = 7 + (publicKey K peer).length ∧
      deriveKey K own (publicKey K peer) = .ok key
  | .thrown _ => True

section

variable {own peer : K.PrivateKey}

/-- The header of a handshake message. -/
def header (K : KeyAgreement) (own : K.PrivateKey) : Bytes :=
  handshakeMagic ++ (handshakeVersion :: beBytes 2 (publicKey K own).length)

theorem outgoing_eq (own : K.PrivateKey) : outgoing K own = header K own ++ publicKey K own := by
  simp [outgoing, header]

@[simp] theorem length_header (own : K.PrivateKey) : (header K own).length = 7 := by
  simp [header, handshakeMagic]

theorem length_outgoing (own : K.PrivateKey) :
    (outgoing K own).length = 7 + (publicKey K own).length := by
  rw [outgoing_eq, List.length_append, length_header]

/-- The checks accept the header of a handshake. -/
theorem peerKeyLen_header (hK : K.Honest) (peer : K.PrivateKey) :
    peerKeyLen (header K peer) = .ok (publicKey K peer).length := by
  have hmagic : slice (header K peer) 0 4 = handshakeMagic := rfl
  have hversion : (header K peer).getD 4 0 = handshakeVersion := rfl
  have hlength : slice (header K peer) 5 2 = beBytes 2 (publicKey K peer).length := rfl
  have hshort : (publicKey K peer).length < 256 ^ 2 := hK.short _
  rw [peerKeyLen, if_neg (not_not.mpr hmagic), if_neg (not_not.mpr hversion), hlength, beNat_beBytes,
    Nat.mod_eq_of_lt hshort]

@[simp] theorem unwritten_readKey (own : K.PrivateKey) (length : ℕ) (peerKey : Bytes) :
    (readKey K own length peerKey).unwritten = [] := by
  unfold readKey finish
  split_ifs
  · rfl
  · split <;> rfl

@[simp] theorem unwritten_readHeader (own : K.PrivateKey) (bytes : Bytes) :
    (readHeader K own bytes).unwritten = [] := by
  unfold readHeader
  split_ifs
  · rfl
  · split
    · exact unwritten_readKey own _ _
    · rfl

/-- Some of the key is there. -/
theorem stands_readKey {peerKey : Bytes} (hkey : peerKey = (publicKey K peer).take peerKey.length)
    (hle : peerKey.length ≤ (publicKey K peer).length) :
    Stands own peer (7 + peerKey.length) (readKey K own (publicKey K peer).length peerKey) := by
  by_cases hlt : peerKey.length < (publicKey K peer).length
  · rw [readKey, if_pos hlt]
    exact ⟨rfl, hkey, hlt, rfl⟩
  · have hall : peerKey = publicKey K peer := by
      rw [hkey, List.take_of_length_le (by omega)]
    rw [readKey, if_neg hlt, hall, finish]
    cases hderive : deriveKey K own (publicKey K peer) with
    | ok key => exact ⟨rfl, hderive⟩
    | error e => trivial

/-- Some of the header is there. -/
theorem stands_readHeader (hK : K.Honest) {bytes : Bytes}
    (hbytes : bytes = (outgoing K peer).take bytes.length) (hle : bytes.length ≤ 7) :
    Stands own peer bytes.length (readHeader K own bytes) := by
  by_cases hlt : bytes.length < 7
  · rw [readHeader, if_pos hlt]
    exact ⟨hbytes, hlt, rfl⟩
  · have hall : bytes = header K peer := by
      rw [hbytes, outgoing_eq]
      exact List.take_left' (by rw [length_header]; omega)
    have hseven : bytes.length = 7 + ([] : Bytes).length := by
      rw [List.length_nil]
      omega
    rw [readHeader, if_neg hlt, hseven, hall, peerKeyLen_header hK]
    exact stands_readKey rfl (Nat.zero_le _)

end

section

variable {p q p' : Party K}

/-- What is read from the other party, within its handshake. -/
theorem Wrote.slice (hq : Wrote q) {off count : ℕ} (hsent : off + count ≤ q.sent.length)
    (hhand : off + count ≤ (outgoing K q.own).length) :
    Bytes.slice q.sent off count = Bytes.slice (outgoing K q.own) off count := by
  have hcut := congrArg (fun xs => Bytes.slice xs off count) hq
  simp only [slice_append_left hsent, slice_append_left hhand] at hcut
  exact hcut

/-- The next bytes of the handshake extend what was read of it. -/
theorem take_append_slice {xs bytes : Bytes} {count : ℕ} (hfront : bytes = xs.take bytes.length)
    (hle : bytes.length + count ≤ xs.length) :
    bytes ++ Bytes.slice xs bytes.length count =
      xs.take (bytes ++ Bytes.slice xs bytes.length count).length := by
  have hlen : (bytes ++ Bytes.slice xs bytes.length count).length = bytes.length + count := by
    rw [List.length_append, length_slice_of_le hle]
  rw [hlen, take_add_slice, ← hfront]

/-- The phase changes, and nothing is sent. -/
theorem Wrote.of_phase (hp : Wrote p) {phase : Phase} {consumed : ℕ}
    (hsame : phase.unwritten = p.phase.unwritten) : Wrote { p with phase, consumed } := by
  show p.sent ++ phase.unwritten = _
  rw [hsame]
  exact hp

/-- Writing the handshake. -/
theorem act_write (hK : K.Honest) {count : ℕ} (hp : Wrote p)
    (hstands : Stands p.own q.own p.consumed p.phase) (hact : act p q (.write count) = some p') :
    p'.own = p.own ∧ Wrote p' ∧ Stands p.own q.own p'.consumed p'.phase := by
  simp only [act] at hact
  split at hact
  case h_2 => cases hact
  rename_i rest hphase
  rw [Wrote, hphase] at hp
  rw [hphase] at hstands
  -- what is written moves from the rest to what was sent
  have hsent : (p.sent ++ rest.take count) ++ rest.drop count = outgoing K p.own ++ p.payload := by
    rw [List.append_assoc, List.take_append_drop]
    exact hp
  split_ifs at hact with hcount hlast
  · obtain rfl := Option.some.inj hact
    rw [hlast] at hsent
    refine ⟨rfl, ?_, ?_⟩
    · show (p.sent ++ rest.take count) ++ (readHeader K p.own []).unwritten = _
      rw [unwritten_readHeader]
      exact hsent
    · show Stands p.own q.own p.consumed (readHeader K p.own [])
      rw [show p.consumed = ([] : Bytes).length from hstands]
      exact stands_readHeader hK rfl (Nat.zero_le _)
  · obtain rfl := Option.some.inj hact
    exact ⟨rfl, hsent, hstands⟩

/-- Reading the handshake of the other party. -/
theorem act_read (hK : K.Honest) {count : ℕ} (hp : Wrote p)
    (hstands : Stands p.own q.own p.consumed p.phase) (hq : Wrote q)
    (hact : act p q (.read count) = some p') :
    p'.own = p.own ∧ Wrote p' ∧ Stands p.own q.own p'.consumed p'.phase := by
  have hlen := length_outgoing q.own
  simp only [act] at hact
  split at hact
  case h_3 => cases hact
  · rename_i bytes hphase
    split_ifs at hact with hcount
    obtain rfl := Option.some.inj hact
    rw [hphase] at hstands
    rcases hstands with ⟨hfront, -, hconsumed⟩
    have hpiece : slice q.sent p.consumed count = slice (outgoing K q.own) bytes.length count := by
      rw [← hconsumed]
      exact hq.slice hcount.2.2 (by omega)
    have hmore : (bytes ++ slice (outgoing K q.own) bytes.length count).length =
        p.consumed + count := by
      rw [List.length_append, length_slice_of_le (by omega), hconsumed]
    refine ⟨rfl, hp.of_phase (by rw [hphase]; exact unwritten_readHeader _ _), ?_⟩
    show Stands p.own q.own (p.consumed + count) (readHeader K p.own (bytes ++ slice q.sent _ count))
    rw [hpiece, ← hmore]
    exact stands_readHeader hK (take_append_slice hfront (by omega)) (by omega)
  · rename_i length bytes hphase
    split_ifs at hact with hcount
    obtain rfl := Option.some.inj hact
    rw [hphase] at hstands
    rcases hstands with ⟨rfl, hfront, -, hconsumed⟩
    -- the key begins behind the seven bytes of the header
    have hpiece : slice q.sent p.consumed count = slice (publicKey K q.own) bytes.length count := by
      rw [hq.slice hcount.2.2 (by omega), hconsumed, outgoing_eq, ← length_header q.own]
      exact slice_append_right _ _ _ _
    have hmore : 7 + (bytes ++ slice (publicKey K q.own) bytes.length count).length =
        p.consumed + count := by
      rw [List.length_append, length_slice_of_le (by omega), hconsumed]
      omega
    refine ⟨rfl, hp.of_phase (by rw [hphase]; exact unwritten_readKey _ _ _), ?_⟩
    show Stands p.own q.own (p.consumed + count)
      (readKey K p.own (publicKey K q.own).length (bytes ++ slice q.sent _ count))
    rw [hpiece, ← hmore]
    apply stands_readKey (take_append_slice hfront (by omega))
    omega

/-- One step of a party keeps what is known of it. -/
theorem act_stands (hK : K.Honest) {action : Action} (hp : Wrote p)
    (hstands : Stands p.own q.own p.consumed p.phase) (hq : Wrote q)
    (hact : act p q action = some p') :
    p'.own = p.own ∧ Wrote p' ∧ Stands p.own q.own p'.consumed p'.phase := by
  cases action with
  | write count => exact act_write hK hp hstands hact
  | read count => exact act_read hK hp hstands hq hact
  -- the peer hung up inside the handshake: the party gives up
  | readEnd =>
    simp only [act] at hact
    split_ifs at hact
    split at hact
    case h_3 => cases hact
    all_goals
      rename_i hphase
      obtain rfl := Option.some.inj hact
      exact ⟨rfl, hp.of_phase (by rw [hphase]; rfl), trivial⟩
  -- only what the party has said grows
  | send bytes =>
    simp only [act] at hact
    split at hact
    case h_2 => cases hact
    rename_i key hphase
    split_ifs at hact
    obtain rfl := Option.some.inj hact
    refine ⟨rfl, ?_, hstands⟩
    rw [Wrote, hphase] at hp
    show (p.sent ++ bytes) ++ p.phase.unwritten = outgoing K p.own ++ (p.payload ++ bytes)
    rw [hphase, ← List.append_assoc, ← hp]
    simp only [Phase.unwritten, List.append_nil]
  | close =>
    simp only [act] at hact
    split at hact
    case h_3 => cases hact
    all_goals
      obtain rfl := Option.some.inj hact
      exact ⟨rfl, hp, hstands⟩

end

/-! ## Runs -/

/-- What is known of the party with the key `a`, whose peer has the key `b`. -/
structure Known (a b : K.PrivateKey) (p : Party K) : Prop where
  own : p.own = a
  wrote : Wrote p
  stands : Stands a b p.consumed p.phase

/-- What is known of both parties. -/
def Inv (keys : Side → K.PrivateKey) (s : Session K) : Prop :=
  ∀ side, Known (keys side) (keys side.peer) (s side)

theorem inv_initial (keys : Side → K.PrivateKey) : Inv keys (initial keys) := by
  intro side
  refine ⟨rfl, ?_, rfl⟩
  show [] ++ outgoing K (keys side) = outgoing K (keys side) ++ []
  rw [List.append_nil, List.nil_append]

theorem Inv.step {keys : Side → K.PrivateKey} {s t : Session K} {i : Side × Action} (hK : K.Honest)
    (hs : Inv keys s) (hstep : step s i = some t) : Inv keys t := by
  rcases i with ⟨side, action⟩
  rcases Option.map_eq_some_iff.mp hstep with ⟨p, hact, rfl⟩
  have hstands := (hs side).stands
  rw [← (hs side).own, ← (hs side.peer).own] at hstands
  obtain ⟨hown, hwrote, hstands'⟩ :=
    act_stands hK (hs side).wrote hstands (hs side.peer).wrote hact
  rw [(hs side).own] at hown hstands'
  rw [(hs side.peer).own] at hstands'
  intro other
  by_cases hother : other = side
  · subst hother
    rw [Function.update_self]
    exact ⟨hown, hwrote, hstands'⟩
  · rw [Function.update_of_ne hother]
    exact hs other

/-- Both parties come to the same session key. -/
theorem deriveKey_symmetric (hK : K.Honest) (a b : K.PrivateKey) :
    deriveKey K a (publicKey K b) = deriveKey K b (publicKey K a) := by
  simp only [deriveKey, publicKey, hK.imports, hK.symmetric a b]

/-- Two parties in any interleaving of their steps and with any segmentation of
their reads. If both handshakes return, the keys are the same, and each party has
consumed the handshake of the other and nothing else: what it reads next is what
the other one has sent behind it. -/
theorem handshake_agreement (K : KeyAgreement) (hK : K.Honest) (keys : Side → K.PrivateKey)
    (actions : List (Side × Action)) (s : Session K)
    (hrun : run step (initial keys) actions = some s) (key : Side → Bytes)
    (hreturned : ∀ side, (s side).phase = .returned (key side)) :
    key .camera = key .hub ∧
      ∀ side, (s side).consumed = 7 + (publicKey K (keys side.peer)).length ∧
        (s side.peer).sent = outgoing K (keys side.peer) ++ (s side.peer).payload ∧
        (s side.peer).sent.drop (s side).consumed = (s side.peer).payload := by
  have hs : Inv keys s := run_invariant (fun s i t hs hstep => hs.step hK hstep) actions _ s
    (inv_initial keys) hrun
  -- a party that returned has read the other's whole message and nothing else
  have hend : ∀ side, (s side).consumed = 7 + (publicKey K (keys side.peer)).length ∧
      deriveKey K (keys side) (publicKey K (keys side.peer)) = .ok (key side) := by
    intro side
    have hstands := (hs side).stands
    rw [hreturned side] at hstands
    exact hstands
  constructor
  · have hcamera : deriveKey K (keys .camera) (publicKey K (keys .hub)) = .ok (key .camera) :=
      (hend .camera).2
    have hhub : deriveKey K (keys .hub) (publicKey K (keys .camera)) = .ok (key .hub) :=
      (hend .hub).2
    rw [deriveKey_symmetric hK, hhub] at hcamera
    exact (Except.ok.inj hcamera).symm
  · intro side
    have hsent : (s side.peer).sent = outgoing K (keys side.peer) ++ (s side.peer).payload := by
      have hwrote := (hs side.peer).wrote
      rw [Wrote, hreturned side.peer, (hs side.peer).own] at hwrote
      rw [← hwrote]
      exact (List.append_nil _).symm
    refine ⟨(hend side).1, hsent, ?_⟩
    rw [hsent, (hend side).1, ← length_outgoing]
    exact List.drop_left

/-- A public key of one byte. -/
def smallImport : Bytes → Option (Fin 251)
  | [b] => if h : b.toNat < 251 then some ⟨b.toNat, h⟩ else none
  | _ => none

/-- Exponentiation modulo 251, with keys of one byte. -/
def smallAgreement : KeyAgreement where
  PrivateKey := ℕ
  PublicKey := Fin 251
  publicKey a := Fin.ofNat 251 (6 ^ a)
  exportSubjectPublicKeyInfo p := [UInt8.ofNat p]
  importSubjectPublicKeyInfo := smallImport
  deriveRawSecretAgreement a p := some (beBytes 1 (p.val ^ a % 251))
  hkdfDeriveKey secret n info := (secret ++ info ++ List.replicate n 0).take n

theorem smallAgreement_honest : smallAgreement.Honest where
  symmetric := by
    intro (a : ℕ) (b : ℕ)
    show some (beBytes 1 ((6 ^ b % 251) ^ a % 251)) = some (beBytes 1 ((6 ^ a % 251) ^ b % 251))
    rw [← Nat.pow_mod, ← Nat.pow_mod, ← pow_mul, ← pow_mul, Nat.mul_comm]
  imports := by
    intro (p : Fin 251)
    have hp : (UInt8.ofNat p.val).toNat = p.val := by
      rw [UInt8.toNat_ofNat']
      omega
    show smallImport [UInt8.ofNat p.val] = some p
    rw [smallImport, dif_pos (by omega)]
    exact congrArg some (Fin.ext hp)
  short := by
    intro (p : Fin 251)
    show [UInt8.ofNat p.val].length < 65536
    rw [List.length_singleton]
    omega

/-- The hub writes in two parts and has sent its first bytes while the camera is
still reading. -/
def smallHandshake : List (Side × Action) :=
  [(.camera, .write 8), (.hub, .write 5), (.hub, .write 3), (.hub, .read 4), (.hub, .read 3),
    (.hub, .read 1), (.hub, .send [9, 9]), (.camera, .read 7), (.camera, .read 1)]

/-- The keys of the two parties. -/
def smallKeys : Side → smallAgreement.PrivateKey
  | .camera => (3 : ℕ)
  | .hub => (4 : ℕ)

/-- The session key they derive. -/
def smallSession : Bytes := [147] ++ sessionInfo ++ List.replicate 5 0

/-- Both handshakes return, and the next byte of the camera is the first of the hub. -/
theorem handshake_agreement_small :
    ∃ (s : Session smallAgreement) (key : Side → Bytes),
      run step (initial smallKeys) smallHandshake = some s ∧
      (∀ side, (s side).phase = .returned (key side)) ∧ key .camera = key .hub ∧
      (s .hub).sent.drop (s .camera).consumed = [9, 9] := by
  have hrun : (run step (initial smallKeys) smallHandshake).map
      (fun s => ((s .camera).phase, (s .hub).phase, (s .hub).payload)) =
        some (.returned smallSession, .returned smallSession, [9, 9]) := by
    decide +kernel
  rcases Option.map_eq_some_iff.mp hrun with ⟨s, hs, hend⟩
  simp only [Prod.mk.injEq] at hend
  have hreturned : ∀ side, (s side).phase = .returned smallSession := by
    intro side
    cases side with
    | camera => exact hend.1
    | hub => exact hend.2.1
  obtain ⟨hkeys, hsides⟩ := handshake_agreement smallAgreement smallAgreement_honest smallKeys
    smallHandshake s hs (fun _ => smallSession) hreturned
  exact ⟨s, fun _ => smallSession, hs, hreturned, hkeys, (hsides .camera).2.2.trans hend.2.2⟩

end ShieldSession

end ManagedSecurity
