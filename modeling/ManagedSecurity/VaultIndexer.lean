import ManagedSecurity.ArchiveLayout
import ManagedSecurity.Payload
import ManagedSecurity.Lib.Fields
import ManagedSecurity.Lib.Utf8

/-! # The index of the vault (`VaultIndexer`)

The program puts the camera and the start time into the metadata of an archive, as one
text of tags with semicolons between them; the index reads them back from the front of
the file. Nothing is escaped on the way, and the index trims what it finds.

* `getString_utf8Bytes`: the text itself comes back;
* `Archiver.tryGetEntry_archive`: what the index finds in an archive;
* `tags_survive_iff`: for which values the tags are those that were written.
-/

namespace ManagedSecurity

open Bytes Outcome ManagedSecurityStream

/-! ## Texts -/

/-- `Encoding.UTF8.GetString`. -/
def getString (bytes : Bytes) : String := String.ofList (Utf8.decode bytes)

/-- `char.IsWhiteSpace`. -/
def isWhiteSpace (c : Char) : Bool :=
  let n := c.toNat
  (0x09 ≤ n && n ≤ 0x0D) || n = 0x20 || n = 0x85 || n = 0xA0 || n = 0x1680 ||
    (0x2000 ≤ n && n ≤ 0x200A) || n = 0x2028 || n = 0x2029 || n = 0x202F || n = 0x205F || n = 0x3000

/-- How `TryGetEntry` takes a text of tags apart. -/
def tagPunctuation : Punctuation Char := ⟨';', '=', isWhiteSpace, by decide⟩

/-- A tag as characters. -/
def charsOf (tag : String × String) : List Char × List Char := (tag.1.toList, tag.2.toList)

/-- A tag from its characters. -/
def tagOf (field : List Char × List Char) : String × String :=
  (String.ofList field.1, String.ofList field.2)

/-- `entry.Tags[key] = val` for all the parts. -/
def parseTags (metadata : String) : Dictionary String String :=
  (∅ : Dictionary String String).setAll ((tagPunctuation.fields metadata.toList).map tagOf)

/-- `Path.GetFileName`. -/
def getFileName (path : String) : String :=
  String.ofList ((path.toList.splitOn '/').getLastD [])

/-! ## Entries -/

/-- `VaultEntry`. -/
structure VaultEntry where
  fileName : String
  fullPath : String
  chunkSize : ℤ
  keyIndex : ℤ
  seekTableOffset : UInt64
  fileSize : ℕ
  metadata : String
  tags : Dictionary String String

/-- The metadata: as many bytes as the header announces, the missing ones being zero. -/
def readMetadataText (data : Bytes) (metadataLength : UInt16) : String :=
  if metadataLength > 0 then
    let read := slice data MasterHeader.fixedSize metadataLength.toNat
    getString (read ++ List.replicate (metadataLength.toNat - read.length) 0)
  else
    ""

/-- `TryGetEntry` of the file with the given content, if it can be opened. -/
def tryGetEntry (filePath : String) (file : Option Bytes) : Option VaultEntry :=
  match file with
  | none => none
  | some data =>
    if data.length < MasterHeader.fixedSize then
      none
    else
      match MasterHeader.parse (data.take MasterHeader.fixedSize) with
      | .error _ => none
      | .ok header =>
        let metadata := readMetadataText data header.metadataLength
        some {
          fileName := getFileName filePath
          fullPath := filePath
          chunkSize := header.chunkSize
          keyIndex := header.keyIndex
          seekTableOffset := header.seekTableOffset
          fileSize := data.length
          metadata := metadata
          tags := parseTags metadata }

/-! ## What the program writes -/

/-- The texts that the program makes of a camera and a time. -/
inductive ArchiveTags where
  /-- `DoIngest`. -/
  | ingest (cameraId timestamp : String)
  /-- `DoRecord` and `DoTransmitAsync`. -/
  | record (cameraId startTime : String)
  /-- `HandleLiveStreamRequest` and `DoLiveStreamAsync`. -/
  | liveStream (cameraId startTime : String)
  /-- `RecordCameraLoopAsync`. -/
  | recordCamera (id displayName startTime : String)

namespace ArchiveTags

/-- The text. -/
def text : ArchiveTags → String
  | ingest cameraId timestamp => "CameraID=" ++ cameraId ++ ";Timestamp=" ++ timestamp
  | record cameraId startTime => "CameraID=" ++ cameraId ++ ";StartTime=" ++ startTime
  | liveStream cameraId startTime =>
    "CameraID=" ++ cameraId ++ ";StartTime=" ++ startTime ++ ";Encoding=LiveStream"
  | recordCamera id displayName startTime =>
    "CameraID=" ++ id ++ ";DisplayName=" ++ displayName ++ ";StartTime=" ++ startTime

/-- What it says about the camera and the time. -/
def tags : ArchiveTags → List (String × String)
  | ingest cameraId timestamp => [("CameraID", cameraId), ("Timestamp", timestamp)]
  | record cameraId startTime => [("CameraID", cameraId), ("StartTime", startTime)]
  | liveStream cameraId startTime => [("CameraID", cameraId), ("StartTime", startTime)]
  | recordCamera id displayName startTime =>
    [("CameraID", id), ("DisplayName", displayName), ("StartTime", startTime)]

/-- What else it says. -/
def fixed : ArchiveTags → List (String × String)
  | liveStream _ _ => [("Encoding", "LiveStream")]
  | _ => []

end ArchiveTags

/-- The archive that the calls leave is in the index, with these tags. -/
def Archiver.TagsSurvive (A : Archiver) (t : ArchiveTags) (sink : InnerStream)
    (calls : List WriteCall) (filePath : String) : Prop :=
  ∃ w entry, create sink .encrypt A.arguments = .ok w ∧
    tryGetEntry filePath
      (some (finalState (archiveCalls A.cipher A.random calls w)).innerStream.data) = some entry ∧
    ∀ tag ∈ t.tags, entry.tags.lookup tag.1 = some tag.2

/-! ## Encoding and decoding -/

theorem utf8Bytes_eq (s : String) : utf8Bytes s = Utf8.encode s.toList := by
  rw [utf8Bytes, ← String.utf8Encode_toList, List.utf8Encode, List.data_toByteArray]
  rfl

/-- The text itself comes back. -/
theorem getString_utf8Bytes (s : String) : getString (utf8Bytes s) = s := by
  rw [getString, utf8Bytes_eq, Utf8.decode_encode, String.ofList_toList]

/-! ## Tags -/

theorem tagOf_charsOf (tag : String × String) : tagOf (charsOf tag) = tag := by
  rw [tagOf, charsOf, String.ofList_toList, String.ofList_toList]

/-- A tag that is found is a field of the text. -/
theorem mem_fields_of_lookup {metadata key value : String}
    (h : (parseTags metadata).lookup key = some value) :
    charsOf (key, value) ∈ tagPunctuation.fields metadata.toList := by
  rcases Dictionary.lookup_setAll h with hmem | hempty
  · rcases List.mem_map.mp hmem with ⟨field, hfield, htag⟩
    rw [← htag, charsOf, tagOf, String.toList_ofList, String.toList_ofList]
    exact hfield
  · rw [AList.lookup_empty] at hempty
    cases hempty

/-- Tags with plain and different keys and plain values are found. -/
theorem lookup_of_join {metadata : String} {tags : List (String × String)} {tag : String × String}
    (htext : metadata.toList = tagPunctuation.join (tags.map charsOf))
    (hkeys : ∀ tag ∈ tags, tagPunctuation.PlainKey tag.1.toList)
    (hvalues : ∀ tag ∈ tags, tagPunctuation.PlainValue tag.2.toList)
    (hnodup : (tags.map Prod.fst).Nodup) (htag : tag ∈ tags) :
    (parseTags metadata).lookup tag.1 = some tag.2 := by
  have hfields : tagPunctuation.fields metadata.toList = tags.map charsOf := by
    rw [htext]
    apply Punctuation.fields_join
    · intro field hfield
      rcases List.mem_map.mp hfield with ⟨tag, htag, rfl⟩
      exact hkeys tag htag
    · intro field hfield
      rcases List.mem_map.mp hfield with ⟨tag, htag, rfl⟩
      exact hvalues tag htag
  have hback : (tags.map charsOf).map tagOf = tags := by
    rw [List.map_map]
    exact (List.map_congr_left fun tag _ => tagOf_charsOf tag).trans (List.map_id tags)
  rw [parseTags, hfields, hback]
  exact Dictionary.lookup_setAll_of_mem hnodup htag

/-! ## The texts of the program -/

section

variable (t : ArchiveTags)

/-- What a text says, in the order in which it does. -/
def ArchiveTags.all : List (String × String) := t.tags ++ t.fixed

theorem text_eq_join : t.text.toList = tagPunctuation.join (t.all.map charsOf) := by
  cases t
  all_goals
    simp [ArchiveTags.text, ArchiveTags.all, ArchiveTags.tags, ArchiveTags.fixed, charsOf,
      Punctuation.join, Punctuation.write, tagPunctuation, List.intercalate]

/-- The keys of the program. -/
def tagKeys : List String := ["CameraID", "DisplayName", "StartTime", "Timestamp", "Encoding"]

theorem plainKey : ∀ key ∈ tagKeys, tagPunctuation.PlainKey key.toList := by
  decide +kernel

theorem all_keys : t.all.map Prod.fst ⊆ tagKeys := by
  cases t
  all_goals simp [ArchiveTags.all, ArchiveTags.tags, ArchiveTags.fixed, tagKeys]

theorem nodup_all : (t.all.map Prod.fst).Nodup := by
  cases t
  all_goals simp [ArchiveTags.all, ArchiveTags.tags, ArchiveTags.fixed]

theorem plainValue_fixed : ∀ tag ∈ t.fixed, tagPunctuation.PlainValue tag.2.toList := by
  cases t
  all_goals
    dsimp only [ArchiveTags.fixed]
    decide +kernel

/-- Beside what is promised, a text has few characters. -/
theorem length_text_le : t.text.toList.length ≤
    ((t.tags.map charsOf).map Punctuation.size).sum + 21 := by
  cases t
  all_goals
    simp [ArchiveTags.text, ArchiveTags.tags, charsOf, Punctuation.size]
    omega

end

/-! ## The index of an archive -/

section

variable {A : Archiver}

theorem Archiver.archive_front (a : ArchiveState) : ∃ off rest, A.archive a = A.head off ++ rest := by
  unfold Archiver.archive
  dsimp only
  split_ifs
  · split
    · exact ⟨_, _, rfl⟩
    · exact ⟨_, _, rfl⟩
  · exact ⟨_, _, rfl⟩

/-- The index announces and reads as much of the metadata as the length modulo 65536. -/
theorem readMetadataText_head (off : UInt64) (rest : Bytes) :
    readMetadataText (A.head off ++ rest) (UInt16.ofNat (A.metadata.getD []).length) =
      getString ((A.metadata.getD []).take ((A.metadata.getD []).length % 65536)) := by
  set m := A.metadata.getD [] with hm
  have hword : (UInt16.ofNat m.length).toNat = m.length % 65536 := UInt16.toNat_ofNat'
  by_cases hpos : UInt16.ofNat m.length > 0
  · have hfront : (A.head off ++ rest).drop MasterHeader.fixedSize = m ++ rest := by
      rw [Archiver.head, ← hm, if_pos hpos, List.append_assoc]
      exact List.drop_left' (length_masterBytes _ _ _ _ _)
    have hle : m.length % 65536 ≤ m.length := Nat.mod_le _ _
    have hread : slice (A.head off ++ rest) MasterHeader.fixedSize (m.length % 65536) =
        m.take (m.length % 65536) := by
      rw [slice, hfront, List.take_append_of_le_length hle]
    rw [readMetadataText, if_pos hpos, hword, hread]
    dsimp only
    rw [List.length_take, Nat.min_eq_left hle, Nat.sub_self, List.replicate_zero, List.append_nil]
  · have hzero : m.length % 65536 = 0 := by
      rw [← hword]
      by_contra hne
      exact hpos (UInt16.lt_iff_toNat_lt.mpr (Nat.pos_of_ne_zero hne))
    rw [readMetadataText, if_neg hpos, hzero]
    rfl

/-- The index finds every archive, with these tags. -/
theorem Archiver.tryGetEntry_archive (filePath : String) (a : ArchiveState) :
    ∃ entry, tryGetEntry filePath (some (A.archive a)) = some entry ∧
      entry.tags = parseTags
        (getString ((A.metadata.getD []).take ((A.metadata.getD []).length % 65536))) := by
  rcases A.archive_front a with ⟨off, rest, harchive⟩
  have hlong : ¬ (A.head off ++ rest).length < MasterHeader.fixedSize := by
    rw [List.length_append, Archiver.length_head, MasterHeader.fixedSize]
    omega
  rw [harchive]
  unfold tryGetEntry
  dsimp only
  rw [if_neg hlong, A.parse_head off rest]
  exact ⟨_, rfl, congrArg parseTags (readMetadataText_head off rest)⟩

end

/-! ## Which tags survive -/

section

variable {t : ArchiveTags} {metadata : String}

theorem charsOf_injective : Function.Injective charsOf := by
  intro tag tag' h
  rw [← tagOf_charsOf tag, h, tagOf_charsOf]

/-- A value that is found is plain, whatever the text. -/
theorem plainValue_of_found (h : ∀ tag ∈ t.tags, (parseTags metadata).lookup tag.1 = some tag.2) :
    ∀ tag ∈ t.tags, tagPunctuation.PlainValue tag.2.toList := by
  intro tag htag
  exact Punctuation.fields_value (mem_fields_of_lookup (h tag htag))

/-- The tags are not found in a text that has lost its end. -/
theorem not_found_of_cut {n : ℕ} (hcut : n + 65536 ≤ (utf8Bytes t.text).length) :
    ¬ ∀ tag ∈ t.tags, (parseTags (getString ((utf8Bytes t.text).take n))).lookup tag.1 = some tag.2 := by
  intro hfound
  have hnodup : (t.tags.map charsOf).Nodup := by
    have hkeys : (t.tags.map Prod.fst).Nodup :=
      (nodup_all t).sublist ((List.sublist_append_left t.tags t.fixed).map Prod.fst)
    exact (List.Nodup.of_map _ hkeys).map charsOf_injective
  have hroom : ((t.tags.map charsOf).map Punctuation.size).sum ≤
      (Utf8.decode ((utf8Bytes t.text).take n)).length := by
    apply Punctuation.sum_size_le (P := tagPunctuation) hnodup
    intro field hfield
    rcases List.mem_map.mp hfield with ⟨tag, htag, rfl⟩
    have hmem := mem_fields_of_lookup (hfound tag htag)
    rwa [getString, String.toList_ofList] at hmem
  have hlost := Utf8.decode_take t.text.toList n
  rw [← utf8Bytes_eq] at hlost
  have hfew := length_text_le t
  omega

/-- The text is not cut if and only if its length fits 16 bits. -/
theorem found_iff :
    (∀ tag ∈ t.tags, (parseTags (getString ((utf8Bytes t.text).take
      ((utf8Bytes t.text).length % 65536)))).lookup tag.1 = some tag.2) ↔
      (utf8Bytes t.text).length ≤ 65535 ∧ ∀ tag ∈ t.tags, tagPunctuation.PlainValue tag.2.toList := by
  constructor
  · intro hfound
    refine ⟨?_, plainValue_of_found hfound⟩
    by_contra hlong
    apply not_found_of_cut (t := t) (n := (utf8Bytes t.text).length % 65536) _ hfound
    omega
  · rintro ⟨hshort, hvalues⟩ tag htag
    have htake : (utf8Bytes t.text).take ((utf8Bytes t.text).length % 65536) = utf8Bytes t.text :=
      List.take_of_length_le (by omega)
    rw [htake, getString_utf8Bytes]
    apply lookup_of_join (text_eq_join t) _ _ (nodup_all t) (List.mem_append_left t.fixed htag)
    · intro tag htag
      exact plainKey tag.1 (all_keys t (List.mem_map_of_mem htag))
    · intro tag htag
      rcases List.mem_append.mp htag with hpromised | hfixed
      · exact hvalues tag hpromised
      · exact plainValue_fixed t tag hfixed

end

/-- The tags of an archive are those of the text that the index reads. -/
theorem tagsSurvive_iff_found {A : Archiver} {t : ArchiveTags} {sink : InnerStream}
    {calls : List WriteCall} {filePath : String} (hmeta : A.metadata = some (utf8Bytes t.text))
    (hfresh : sink.Fresh A.seekable) (hwrite : ∃ buffer, WriteCall.write buffer ∈ calls) :
    A.TagsSurvive t sink calls filePath ↔
      ∀ tag ∈ t.tags, (parseTags (getString ((utf8Bytes t.text).take
        ((utf8Bytes t.text).length % 65536)))).lookup tag.1 = some tag.2 := by
  rcases archived hfresh calls hwrite with ⟨w, hcreate, hfinal⟩
  rcases A.tryGetEntry_archive filePath (A.run .initial calls) with ⟨entry, hentry, htags⟩
  rw [hmeta, Option.getD_some] at htags
  constructor
  · rintro ⟨w', entry', hcreate', hentry', hfound⟩
    obtain rfl : w = w' := Except.ok.inj (hcreate.symm.trans hcreate')
    rw [hfinal] at hentry'
    obtain rfl : entry = entry' := Option.some.inj (hentry.symm.trans hentry')
    rwa [htags] at hfound
  · intro hfound
    rw [← htags] at hfound
    exact ⟨w, entry, hcreate, by rw [hfinal, hentry], hfound⟩

/-- The tags survive if and only if the text fits the length field and no value has a
semicolon in it or white space at an end. -/
theorem tags_survive_iff (A : Archiver) (t : ArchiveTags) (sink : InnerStream) (calls : List WriteCall)
    (filePath : String) (hmeta : A.metadata = some (utf8Bytes t.text)) (hfresh : sink.Fresh A.seekable)
    (hwrite : ∃ buffer, WriteCall.write buffer ∈ calls) :
    A.TagsSurvive t sink calls filePath ↔
      (utf8Bytes t.text).length ≤ 65535 ∧ ∀ tag ∈ t.tags, tagPunctuation.PlainValue tag.2.toList :=
  (tagsSurvive_iff_found hmeta hfresh hwrite).trans found_iff

/-- A writer with these tags. -/
def maskTagged (t : ArchiveTags) : Archiver := { maskFour with metadata := some (utf8Bytes t.text) }

/-- What the recorder writes for a camera with this display name. -/
def doorTags (displayName : String) : ArchiveTags :=
  .recordCamera "front-door" displayName "2026-03-15T10:33:54.0000000+00:00"

/-- Spaces and equal signs inside the name do no harm. -/
theorem tags_survive_door : (maskTagged (doorTags "Front Door = 1")).TagsSurvive
    (doorTags "Front Door = 1") (.sink true) sixBytes "/vault/door.msg" := by
  apply (tags_survive_iff (maskTagged (doorTags "Front Door = 1")) (doorTags "Front Door = 1")
    (.sink true) sixBytes "/vault/door.msg" rfl (InnerStream.sink_fresh true)
    ⟨[6], by simp [sixBytes]⟩).mpr
  exact ⟨by decide +kernel, by decide +kernel⟩

/-- With a semicolon in it, the name is cut there, and what is behind it is a tag of its own:
the archive is listed under another camera. -/
theorem tags_lost : ¬ (maskTagged (doorTags "Front;CameraID=garage")).TagsSurvive
    (doorTags "Front;CameraID=garage") (.sink true) sixBytes "/vault/door.msg" := by
  rw [tagsSurvive_iff_found (A := maskTagged (doorTags "Front;CameraID=garage")) rfl
    (InnerStream.sink_fresh true) ⟨[6], by simp [sixBytes]⟩]
  intro hfound
  have hcamera := hfound ("CameraID", "front-door") List.mem_cons_self
  have hgarage : (parseTags (getString ((utf8Bytes (doorTags "Front;CameraID=garage").text).take
      ((utf8Bytes (doorTags "Front;CameraID=garage").text).length % 65536)))).lookup "CameraID" =
      some "garage" := by
    decide +kernel
  rw [hgarage] at hcamera
  exact absurd (Option.some.inj hcamera) (by decide)

end ManagedSecurity
