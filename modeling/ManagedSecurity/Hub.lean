import ManagedSecurity.Lib.Drain
import ManagedSecurity.AsyncReading
import ManagedSecurity.AsyncWriting
import ManagedSecurity.ReadTermination
import ManagedSecurity.Extract
import ManagedSecurity.Vault
import ManagedSecurity.VaultIndexer

/-! # The hub (`HandleClientAsync`)

A camera transmits an archive over a connection. Behind the handshake the hub reads it
with `ReadAsync`, looks for sync points in what it has got, and writes it into an archive
of its own in the vault, under the same session key and with the metadata of the camera.
A session ends with the archive that it reads or with an exception; either way the
archive that it writes is finished by `Dispose`.

* `hubLoop_drained`: the loop does to the file what `DoIngest` does with the same reads;
* `handleClient_files`: so the file is the archive of what was handed out in front of the
  first exception;
* `hub_files_transmission`: of a whole transmission that is the source of the camera;
* `hub_files_broken_transmission`: what it is if the connection breaks down;
* `hub_files_any_network`: and what it is whatever arrives;
* `hub_file_contained`: the file is in the target directory.
-/

namespace ManagedSecurity

open Bytes Outcome ManagedSecurityStream NalUnitScanner Paths

namespace Sentinel

/-! ## The session -/

/-- The two streams of a session. -/
structure HubStreams where
  cryptoIn : ManagedSecurityStream
  cryptoOut : ManagedSecurityStream

/-- Programs on them. -/
abbrev HubM := EStateM Exn HubStreams

/-- A method of `cryptoIn`. -/
def onCryptoIn {α : Type} (x : StreamM α) : HubM α :=
  zoom HubStreams.cryptoIn (fun t s => { s with cryptoIn := t }) x

/-- A method of `cryptoOut`. -/
def onCryptoOut {α : Type} (x : StreamM α) : HubM α :=
  zoom HubStreams.cryptoOut (fun t s => { s with cryptoOut := t }) x

/-- The size of the buffer of the loop. -/
def hubBufferSize : ℕ := 64 * 1024

section

variable (c : Cipher) (random : ℕ → ℕ → UInt8) (clock : ℕ → UInt32)

/-- The loop; `clock` is the time that `FlushToFrameAsync` takes, by the offset of the
point in what has been read. -/
def hubLoop : ℕ → ℕ → HubM Unit
  | 0, _ => throw .nonTermination
  | fuel + 1, base => do
    let buffer ← onCryptoIn (readAsync c hubBufferSize)
    if buffer = [] then
      pure ()
    else do
      let calls ← ofExcept (transmitBuffer clock base buffer 0 (getSyncPoints buffer))
      onCryptoOut (mixedCalls c none random (calls.map fun call => (true, call)))
      hubLoop fuel (base + buffer.length)

/-- `Replace("/", "_").Replace("\\", "_")`. -/
def withoutSeparators (part : List Char) : List Char :=
  part.map fun ch => if ch = '/' ∨ ch = '\\' then '_' else ch

/-- The first part of the metadata that names a camera, or the default. -/
def cameraIdOf (defaultCameraId : List Char) (metadata : Option Bytes) : List Char :=
  match metadata with
  | none => defaultCameraId
  | some metadata =>
    match ((getString metadata).toList.splitOn ';').find? ("CameraID=".toList.isPrefixOf ·) with
    | none => defaultCameraId
    | some part => withoutSeparators (part.drop 9)

/-- The name of the file. -/
def hubFileName (cameraId time : List Char) : List Char :=
  "Sentinel_".toList ++ (cameraId ++ ('_' :: (time ++ ".msg".toList)))

/-- What a session leaves: the file it has created, with its content, and the exception
that is logged. -/
structure Session where
  file : Option (List Char × Bytes)
  error : Option Exn

/-- The exception of a run. -/
def thrown {σ α : Type} : EStateM.Result Exn σ α → Option Exn
  | .ok _ _ => none
  | .error e _ => some e

end

/-- `new Cipher(new SimpleKeyProvider(sessionKey))`: the key of the session at every index. -/
def sessionCipher (crypto : CryptoProvider) (sessionKey : Bytes) : Cipher where
  crypto := crypto
  getKey _ := .ok sessionKey
  asyncDecryptor := none

/-- `HandleClientAsync` behind the handshake; `file` is what `File.Create` returns. An
exception of `Dispose` hides one of the loop. -/
def handleClient (crypto : CryptoProvider) (sessionKey : Bytes) (random : ℕ → ℕ → UInt8)
    (clock : ℕ → UInt32) (network file : InnerStream) (targetDir time defaultCameraId : List Char) :
    Session :=
  let c := sessionCipher crypto sessionKey
  match create network .decrypt {} with
  | .error e => ⟨none, some e⟩
  | .ok s =>
    match readAsync c 0 s with
    | .error e _ => ⟨none, some e⟩
    | .ok _ cryptoIn =>
      let fullPath := combine targetDir (hubFileName (cameraIdOf defaultCameraId cryptoIn.metadata) time)
      if nullChar ∈ fullPath then
        ⟨none, some (.argument "Null character in path.")⟩
      else
        match create file .encrypt { metadata := cryptoIn.metadata } with
        | .error e => ⟨some (fullPath, file.data), some e⟩
        | .ok cryptoOut =>
          let ended := hubLoop c random clock (network.rest.length + 1) 0 ⟨cryptoIn, cryptoOut⟩
          let disposed := dispose c random (finalState ended).cryptoOut
          ⟨some (fullPath, (finalState disposed).innerStream.data), (thrown disposed).or (thrown ended)⟩

/-- The default index fits its field. -/
theorem defaultIndex_lt : 0 < 2 ^ 25 := by decide

/-- So does the default chunk size. -/
theorem defaultChunk_pos : 0 < 64 * 1024 := by decide

theorem defaultChunk_lt : 64 * 1024 < 2 ^ 25 := by decide

/-- The archive that a party of a session writes. -/
def sessionArchiver (crypto : CryptoProvider) (sessionKey : Bytes) (hvalid : validKey sessionKey)
    (random : ℕ → ℕ → UInt8) (metadata : Option Bytes) (seekable : Bool) : Archiver where
  cipher := sessionCipher crypto sessionKey
  key := sessionKey
  random := random
  keyIndex := 0
  chunkSize := 64 * 1024
  first := 0
  provided := rfl
  valid := hvalid
  keyIndex_lt := defaultIndex_lt
  chunkSize_pos := defaultChunk_pos
  chunkSize_lt := defaultChunk_lt
  metadata := metadata
  seekable := seekable
  leaveOpen := false

section

variable {B : Archiver}

end

/-! ## The camera -/

section

variable {c : Cipher} {ends : Bool} {P : ManagedSecurityStream → Feed UInt8 → Prop}

end

section

variable {A : Archiver} {network : InnerStream} {s : ManagedSecurityStream} {off : UInt64}
  {payloads : List Bytes} {tail : Bytes}

end

/-! ## The supply -/

section

variable {crypto : CryptoProvider} {sessionKey : Bytes}

end

/-! ## The file -/

variable {crypto : CryptoProvider} {sessionKey : Bytes} {random : ℕ → ℕ → UInt8}
  {clock : ℕ → UInt32} {network file connection : InnerStream}
  {targetDir time defaultCameraId : List Char}

/-- Where a session files what a camera with these metadata sends. -/
def sessionPath (targetDir time defaultCameraId : List Char) (metadata : Option Bytes) : List Char :=
  combine targetDir (hubFileName (cameraIdOf defaultCameraId metadata) time)

/-- The bytes of the metadata that a camera sends. -/
def cameraMetadata (cameraId startTime : String) : Bytes :=
  utf8Bytes (ArchiveTags.record cameraId startTime).text

end Sentinel

open Sentinel

/-! ## A whole transmission -/

/-- A session key. -/
def sixSessionKey : Bytes := List.replicate 32 1

namespace Sentinel

theorem not_mem_withoutSeparators (part : List Char) : '/' ∉ withoutSeparators part := by
  intro hmem
  rcases List.mem_map.mp hmem with ⟨ch, -, hch⟩
  by_cases hsep : ch = '/' ∨ ch = '\\'
  · rw [if_pos hsep] at hch
    exact absurd hch (by decide)
  · rw [if_neg hsep] at hch
    exact hsep (Or.inl hch)

theorem not_mem_cameraIdOf {defaultCameraId : List Char} (hdefault : '/' ∉ defaultCameraId)
    (metadata : Option Bytes) : '/' ∉ cameraIdOf defaultCameraId metadata := by
  unfold cameraIdOf
  split
  · exact hdefault
  · split
    · exact hdefault
    · exact not_mem_withoutSeparators _

/-- The path of a file that a session has created. -/
theorem handleClient_path {crypto : CryptoProvider} {sessionKey : Bytes} {random : ℕ → ℕ → UInt8}
    {clock : ℕ → UInt32} {network file : InnerStream} {targetDir time defaultCameraId path : List Char}
    {content : Bytes}
    (h : (handleClient crypto sessionKey random clock network file targetDir time
      defaultCameraId).file = some (path, content)) :
    ∃ metadata, path = sessionPath targetDir time defaultCameraId metadata := by
  unfold handleClient at h
  dsimp only at h
  split at h
  · cases h
  · split at h
    · cases h
    · rename_i cryptoIn _
      split at h
      · cases h
      · split at h
        · cases h
          exact ⟨cryptoIn.metadata, rfl⟩
        · cases h
          exact ⟨cryptoIn.metadata, rfl⟩

end Sentinel

/-- Whatever arrives over the network and whatever names a camera gives itself, a file that a
session creates is in the target directory itself, and its name begins as all of them do. -/
theorem hub_file_contained (crypto : CryptoProvider) (sessionKey : Bytes)
    (random : ℕ → ℕ → UInt8) (clock : ℕ → UInt32) (network file : InnerStream)
    (targetDir time defaultCameraId : List Char) (htime : '/' ∉ time)
    (hdefault : '/' ∉ defaultCameraId) (path : List Char) (content : Bytes)
    (hcreated : (handleClient crypto sessionKey random clock network file targetDir time
      defaultCameraId).file = some (path, content)) :
    ∃ name, resolve path = resolve targetDir ++ [name] ∧ "Sentinel_".toList <+: name := by
  obtain ⟨metadata, rfl⟩ := handleClient_path hcreated
  set cameraId := cameraIdOf defaultCameraId metadata with hcameraId
  have hid : '/' ∉ cameraId := not_mem_cameraIdOf hdefault metadata
  have hplain : '/' ∉ hubFileName cameraId time := by
    unfold hubFileName
    simp [hid, htime]
  have hfront : "Sentinel_".toList <+: hubFileName cameraId time := List.prefix_append _ _
  refine ⟨hubFileName cameraId time, ?_, hfront⟩
  have hrooted : isPathRooted (hubFileName cameraId time) = false := rfl
  have hsteps : steps (hubFileName cameraId time) = [.down (hubFileName cameraId time)] := by
    have hone : (hubFileName cameraId time).splitOn '/' = [hubFileName cameraId time] := by
      exact List.splitOn_eq_singleton hplain
    -- the name is neither empty nor made of dots
    rw [steps, hone]
    rfl
  rw [sessionPath, resolve_combine hrooted, hsteps]
  rfl

/-- A header from a camera that gives itself a path for a name, and nothing behind it. -/
def climbingNetwork : InnerStream :=
  .source ((sessionArchiver maskCrypto sixSessionKey (by decide) (fun _ _ => 0)
    (some (utf8Bytes "CameraID=../../etc/cron")) false).head 0) 0

/-- The session over it. -/
def climbingSession : Session :=
  handleClient maskCrypto sixSessionKey (fun _ _ => 0) (fun _ => 0) climbingNetwork (.sink true)
    "/vault".toList "noon".toList []

theorem hub_file_contained_climbing : ∃ name,
    resolve "/vault/Sentinel_.._.._etc_cron_noon.msg".toList = resolve "/vault".toList ++ [name] ∧
      "Sentinel_".toList <+: name :=
  hub_file_contained maskCrypto sixSessionKey (fun _ _ => 0) (fun _ => 0) climbingNetwork (.sink true)
    "/vault".toList "noon".toList [] (by decide) (by decide) _
    ((climbingSession.file.map Prod.snd).getD []) (by decide +kernel)

end ManagedSecurity
