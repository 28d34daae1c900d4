import ManagedSecurity.Platform
import ManagedSecurity.Lib.Paths
import Mathlib.Tactic

/-! # The vault of the Governor API (`/api/vault/fetch/`)

The branch takes the file name from the path of the request, decodes it, combines it
with the vault directory and sends the file that it finds there. Paths are those of a
Unix system, as characters; a place is the list of the names on the way to it.

* `resolve_combine`: where the combined path leads;
* `vault_fetch_contained`: which names stay inside the vault.
-/

namespace ManagedSecurity

open Paths

/-! ## Decoding (`Uri.UnescapeDataString`) -/

/-- The value of a hexadecimal digit. -/
def hexValue (c : Char) : Option ℕ :=
  if '0' ≤ c ∧ c ≤ '9' then some (c.toNat - 48)
  else if 'A' ≤ c ∧ c ≤ 'F' then some (c.toNat - 55)
  else if 'a' ≤ c ∧ c ≤ 'f' then some (c.toNat - 87)
  else none

/-- The byte that an escape at the front stands for. -/
def escapedByte : List Char → Option ℕ
  | '%' :: high :: low :: _ => do
    let h ← hexValue high
    let l ← hexValue low
    pure (16 * h + l)
  | _ => none

/-- The next `n` escapes, as continuation bytes of a character that has begun. -/
def continuation (value : ℕ) : ℕ → List Char → Option ℕ
  | 0, _ => some value
  | n + 1, cs =>
    match escapedByte cs with
    | none => none
    | some byte =>
      if 0x80 ≤ byte ∧ byte < 0xC0 then
        continuation (64 * value + (byte - 0x80)) n (cs.drop 3)
      else
        none

/-- The character that the escapes at the front stand for, and their length: UTF-8
without overlong forms and surrogates. -/
def escapedChar (cs : List Char) : Option (Char × ℕ) :=
  match escapedByte cs with
  | none => none
  | some byte =>
    let form : Option (ℕ × ℕ × ℕ) :=
      if byte < 0x80 then some (byte, 0, 0)
      else if 0xC0 ≤ byte ∧ byte < 0xE0 then some (byte - 0xC0, 1, 0x80)
      else if 0xE0 ≤ byte ∧ byte < 0xF0 then some (byte - 0xE0, 2, 0x800)
      else if 0xF0 ≤ byte ∧ byte < 0xF8 then some (byte - 0xF0, 3, 0x10000)
      else none
    match form with
    | none => none
    | some (first, n, least) =>
      match continuation first n (cs.drop 3) with
      | none => none
      | some value =>
        if least ≤ value ∧ value.isValidChar then some (Char.ofNat value, 3 * (n + 1)) else none

/-- `UnescapeDataString` behind the first `skip` characters; escapes that stand for
no character remain. -/
def unescapeFrom : ℕ → List Char → List Char
  | _, [] => []
  | skip + 1, _ :: cs => unescapeFrom skip cs
  | 0, c :: cs =>
    match escapedChar (c :: cs) with
    | some (char, length) => char :: unescapeFrom (length - 1) cs
    | none => c :: unescapeFrom 0 cs

/-- `Uri.UnescapeDataString`. -/
def unescapeDataString (cs : List Char) : List Char := unescapeFrom 0 cs

/-! ## Paths (`System.IO.Path`, `System.IO.File`) -/

/-- The names on the way to a file or directory. -/
abbrev Place := List (List Char)

/-- A name between two separators. -/
def segment (name : List Char) : Step (List Char) :=
  if name = [] ∨ name = ['.'] then .stay
  else if name = ['.', '.'] then .up
  else .down name

/-- The steps of a path. -/
def steps (path : List Char) : List (Step (List Char)) := (path.splitOn '/').map segment

/-- Where a path leads from the root. -/
def resolve (path : List Char) : Place := walk [] (steps path)

/-- `Path.IsPathRooted`. -/
def isPathRooted (path : List Char) : Bool := path.head? = some '/'

/-- The path ends with a separator. -/
def endsInSeparator (path : List Char) : Bool := path.getLast? = some '/'

/-- `Path.Combine`. -/
def combine (path1 path2 : List Char) : List Char :=
  if path2 = [] then path1
  else if path1 = [] then path2
  else if isPathRooted path2 then path2
  else if endsInSeparator path1 then path1 ++ path2
  else path1 ++ '/' :: path2

/-- The character that no path may contain. -/
def nullChar : Char := Char.ofNat 0

/-- `Path.GetFullPath`, of a rooted path. -/
def getFullPath (path : List Char) : Except Exn (List Char) :=
  if nullChar ∈ path then
    .error (.argument "Null character in path.")
  else
    let names := '/' :: ['/'].intercalate (resolve path)
    .ok (if endsInSeparator path ∧ resolve path ≠ [] then names ++ ['/'] else names)

/-- The files of a file system; the root is a directory. -/
structure FileSystem where
  content : Place → Option Bytes
  root : content [] = none

/-- `File.Exists` and `File.OpenRead`: the file that a path leads to. -/
def FileSystem.fileAt (fs : FileSystem) (path : List Char) : Option (Place × Bytes) :=
  if nullChar ∈ path ∨ endsInSeparator path then none
  else (fs.content (resolve path)).map fun content => (resolve path, content)

/-! ## The branch -/

/-- The request comes to the branch. -/
def ReachesVaultFetch (httpMethod : String) (url : List Char) : Prop :=
  (url.take 17).map Char.toUpper = "/API/VAULT/FETCH/".toList ∧ httpMethod = "GET"

/-- The vault directory: the configured location, or that name under the runtime data,
whose path is a full one. -/
def vaultDirectory (runtimeData vaultLocation : List Char) : Except Exn (List Char) :=
  if isPathRooted vaultLocation then
    .ok vaultLocation
  else
    getFullPath (combine runtimeData vaultLocation)

/-- The branch: the file that is sent, or nothing (404). -/
def vaultFetch (fs : FileSystem) (runtimeData vaultLocation url : List Char) :
    Except Exn (Option (Place × Bytes)) := do
  let fileName := unescapeDataString (url.drop 17)
  let vaultDir ← vaultDirectory runtimeData vaultLocation
  pure (fs.fileAt (combine vaultDir fileName))

/-- Every file that the branch may send is inside the vault. -/
def Contained (runtimeData vaultLocation url vaultDir : List Char) : Prop :=
  ∀ fs place content, vaultFetch fs runtimeData vaultLocation url = .ok (some (place, content)) →
    resolve vaultDir <+: place

/-- No file system has a file there. -/
def NeverAFile (path : List Char) : Prop :=
  nullChar ∈ path ∨ endsInSeparator path = true ∨ resolve path = []

/-- A rooted name that leads into the vault, or one that goes down again into the vault
what it climbs out of it. -/
def StaysInside (vaultDir fileName : List Char) : Prop :=
  if isPathRooted fileName then
    resolve vaultDir <+: resolve fileName
  else
    (resolve vaultDir).drop ((resolve vaultDir).length - (relative (steps fileName)).1) <+:
      (relative (steps fileName)).2

instance (vaultDir fileName : List Char) : Decidable (StaysInside vaultDir fileName) :=
  inferInstanceAs (Decidable (if isPathRooted fileName = true then
    resolve vaultDir <+: resolve fileName else _ <+: (relative (steps fileName)).2))

/-! ## Where the combined path leads -/

theorem steps_append (path path' : List Char) :
    steps (path ++ '/' :: path') = steps path ++ steps path' := by
  have hsplit : (path ++ '/' :: path').splitOn '/' = path.splitOn '/' ++ path'.splitOn '/' := by
    rw [List.splitOn_eq_splitOnP, List.splitOn_eq_splitOnP, List.splitOn_eq_splitOnP]
    exact List.splitOnP_append_cons path path' (by simp)
  rw [steps, hsplit, List.map_append]
  rfl

theorem resolve_append (path path' : List Char) :
    resolve (path ++ '/' :: path') = walk (resolve path) (steps path') := by
  rw [resolve, steps_append, walk_append]
  rfl

theorem walk_empty (place : Place) : walk place (steps []) = place := rfl

/-- A name that is not rooted leads on from the directory. -/
theorem resolve_combine {vaultDir fileName : List Char} (hrooted : isPathRooted fileName = false) :
    resolve (combine vaultDir fileName) = walk (resolve vaultDir) (steps fileName) := by
  unfold combine
  split_ifs with hname hdir hroot hsep
  · rw [hname, walk_empty]
  · rw [hdir]
    rfl
  · rw [hroot] at hrooted
    cases hrooted
  · -- the directory already ends with the separator
    have hlast : vaultDir = vaultDir.dropLast ++ ['/'] :=
      (List.dropLast_append_getLast? '/' (of_decide_eq_true hsep)).symm
    have hbefore : resolve vaultDir = resolve vaultDir.dropLast := by
      rw [hlast, List.dropLast_concat, resolve_append, walk_empty]
    rw [hbefore, ← resolve_append]
    conv_lhs => rw [hlast, List.append_assoc, List.singleton_append]
  · exact resolve_append vaultDir fileName

/-- A rooted name is all there is of the path. -/
theorem combine_rooted {vaultDir fileName : List Char} (hrooted : isPathRooted fileName = true) :
    combine vaultDir fileName = fileName := by
  have hname : fileName ≠ [] := by
    rintro rfl
    cases hrooted
  unfold combine
  rw [if_neg hname, if_pos hrooted]
  split_ifs <;> rfl

/-- The name stays inside exactly if the combined path leads into the vault. -/
theorem staysInside_iff (vaultDir fileName : List Char) :
    StaysInside vaultDir fileName ↔ resolve vaultDir <+: resolve (combine vaultDir fileName) := by
  unfold StaysInside
  by_cases hrooted : isPathRooted fileName = true
  · rw [if_pos hrooted, combine_rooted hrooted]
  · rw [if_neg hrooted, resolve_combine (Bool.eq_false_iff.mpr hrooted)]
    exact (prefix_walk_iff _ _).symm

/-! ## What is sent -/

theorem FileSystem.fileAt_eq_some {fs : FileSystem} {path : List Char} {place : Place}
    {content : Bytes} (h : fs.fileAt path = some (place, content)) :
    place = resolve path ∧ ¬ NeverAFile path := by
  unfold FileSystem.fileAt at h
  split_ifs at h with hbad
  rcases Option.map_eq_some_iff.mp h with ⟨found, hfound, hpair⟩
  refine ⟨(Prod.mk.inj hpair).1.symm, ?_⟩
  rintro (hnull | hsep | hroot)
  · exact hbad (Or.inl hnull)
  · exact hbad (Or.inr hsep)
  · rw [hroot, fs.root] at hfound
    cases hfound

/-- A file system with one file. -/
def FileSystem.single (place : Place) (hplace : place ≠ []) (content : Bytes) : FileSystem where
  content other := if other = place then some content else none
  root := if_neg (Ne.symm hplace)

theorem FileSystem.fileAt_single {path : List Char} (h : ¬ NeverAFile path)
    (hplace : resolve path ≠ []) (content : Bytes) :
    (FileSystem.single (resolve path) hplace content).fileAt path = some (resolve path, content) := by
  have hgood : ¬ (nullChar ∈ path ∨ endsInSeparator path = true) := by
    rintro (hnull | hsep)
    · exact h (Or.inl hnull)
    · exact h (Or.inr (Or.inl hsep))
  have hcontent : (FileSystem.single (resolve path) hplace content).content (resolve path) =
      some content := if_pos rfl
  rw [FileSystem.fileAt, if_neg hgood, hcontent]
  rfl

/-- What the branch may send is inside the vault exactly if no file can be there, or the
decoded name goes down into the vault again what it climbs out of it. -/
theorem vault_fetch_contained (runtimeData vaultLocation url vaultDir : List Char)
    (hdir : vaultDirectory runtimeData vaultLocation = .ok vaultDir) :
    Contained runtimeData vaultLocation url vaultDir ↔
      NeverAFile (combine vaultDir (unescapeDataString (url.drop 17))) ∨
        StaysInside vaultDir (unescapeDataString (url.drop 17)) := by
  rw [staysInside_iff]
  set fileName := unescapeDataString (url.drop 17) with hname
  have hfetch : ∀ fs : FileSystem, vaultFetch fs runtimeData vaultLocation url =
      .ok (fs.fileAt (combine vaultDir fileName)) := by
    intro fs
    rw [vaultFetch, hdir]
    rfl
  constructor
  · intro hcontained
    by_cases hnever : NeverAFile (combine vaultDir fileName)
    · exact Or.inl hnever
    · right
      -- the file may be the only one there is
      have hplace : resolve (combine vaultDir fileName) ≠ [] := fun h => hnever (Or.inr (Or.inr h))
      apply hcontained (FileSystem.single _ hplace []) _ []
      rw [hfetch, FileSystem.fileAt_single hnever hplace]
  · intro h fs place content hsent
    rw [hfetch] at hsent
    rcases FileSystem.fileAt_eq_some (Except.ok.inj hsent) with ⟨rfl, hmay⟩
    exact h.resolve_left hmay

/-- A name of the index, with a blank in it. -/
theorem vault_fetch_contained_entry :
    ReachesVaultFetch "GET" "/api/vault/fetch/Sentinel_cam%201.msg".toList ∧
      Contained [] "/srv/vault".toList "/api/vault/fetch/Sentinel_cam%201.msg".toList
        "/srv/vault".toList := by
  refine ⟨⟨by decide, rfl⟩, ?_⟩
  refine (vault_fetch_contained _ _ _ _ (by decide)).mpr (Or.inr ?_)
  decide

/-- An encoded separator behind two dots leads out of the vault, and so does a name
that begins with a separator. -/
theorem vault_fetch_escapes :
    (ReachesVaultFetch "GET" "/api/vault/fetch/..%2Fsecret.txt".toList ∧
      ¬ Contained [] "/srv/vault".toList "/api/vault/fetch/..%2Fsecret.txt".toList
        "/srv/vault".toList) ∧
    ReachesVaultFetch "GET" "/api/vault/fetch//etc/passwd".toList ∧
      ¬ Contained [] "/srv/vault".toList "/api/vault/fetch//etc/passwd".toList
        "/srv/vault".toList := by
  refine ⟨⟨⟨by decide, rfl⟩, ?_⟩, ⟨by decide, rfl⟩, ?_⟩
  · intro hcontained
    have hinside := hcontained (FileSystem.single ["srv".toList, "secret.txt".toList] (by decide) [42])
      ["srv".toList, "secret.txt".toList] [42] (by decide)
    revert hinside
    decide
  · intro hcontained
    have hinside := hcontained (FileSystem.single ["etc".toList, "passwd".toList] (by decide) [42])
      ["etc".toList, "passwd".toList] [42] (by decide)
    revert hinside
    decide

end ManagedSecurity
