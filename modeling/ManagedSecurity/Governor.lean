import ManagedSecurity.Escaping
import ManagedSecurity.Hub

/-! # The Governor API: requests and the vault (`StartGovernorApiAsync`)

A request goes to the first branch that its method and path fit. The list of the vault gives
each archive an address, and a request for that address gets the archive.

* `dispatch`: the branches;
* `vault_entries_served`: every listed archive is served under its address;
* `search_eq_filter`: what a search finds.
-/

namespace ManagedSecurity

open Bytes Paths Sentinel

/-! ## Branches -/

/-- `string.Equals(_, _, StringComparison.OrdinalIgnoreCase)`, where one of the two is part of
the path of a request, which is escaped and so in ASCII. -/
def equalsIgnoreCase (text text' : List Char) : Bool := text.map Char.toUpper = text'.map Char.toUpper

/-- `url.StartsWith(front, StringComparison.OrdinalIgnoreCase)`. -/
def startsWithIgnoreCase (url front : List Char) : Bool := equalsIgnoreCase (url.take front.length) front

/-- `text.TrimEnd('/')`. -/
def trimEndSlashes (text : List Char) : List Char := text.rdropWhile (· = '/')

/-- What a request asks for. -/
inductive ApiCall where
  | preflight
  | discovery
  | agents
  | configure
  | scan
  | vaultEntries
  | vaultFetch
  | storage
  | snapshot (cameraId : List Char)
  | stream (cameraId : List Char)
  | telemetry (cameraId : List Char)
  | notFound
deriving DecidableEq, Repr

/-- The branch of a request; `url` is its absolute path. -/
def dispatch (httpMethod : String) (url : List Char) : ApiCall :=
  if httpMethod = "OPTIONS" then .preflight
  else if equalsIgnoreCase url "/api/discovery".toList ∧ httpMethod = "GET" then .discovery
  else if equalsIgnoreCase url "/api/agents".toList ∧ httpMethod = "GET" then .agents
  else if url = "/api/config/configure".toList ∧ httpMethod = "POST" then .configure
  else if equalsIgnoreCase url "/api/scan".toList ∧ httpMethod = "POST" then .scan
  else if equalsIgnoreCase url "/api/vault/entries".toList ∧ httpMethod = "GET" then .vaultEntries
  else if startsWithIgnoreCase url "/api/vault/fetch/".toList ∧ httpMethod = "GET" then .vaultFetch
  else if equalsIgnoreCase url "/api/system/storage".toList ∧ httpMethod = "GET" then .storage
  else if startsWithIgnoreCase url "/api/snapshot/".toList ∧ httpMethod = "GET" then
    .snapshot (trimEndSlashes (url.drop 14))
  else if startsWithIgnoreCase url "/stream/".toList ∧ httpMethod = "GET" then
    .stream (trimEndSlashes (url.drop 8))
  else if startsWithIgnoreCase url "/api/telemetry/".toList ∧ httpMethod = "GET" then
    .telemetry (trimEndSlashes (url.drop 15))
  else .notFound

/-- Two texts that differ in front are different ones. -/
theorem equalsIgnoreCase_of_front {text text' : List Char} (n : ℕ)
    (h : equalsIgnoreCase (text.take n) (text'.take n) = false) : equalsIgnoreCase text text' = false := by
  refine decide_eq_false fun heq => ?_
  have hfront := congrArg (List.take n) heq
  rw [← List.map_take, ← List.map_take] at hfront
  rw [equalsIgnoreCase, decide_eq_false_iff_not] at h
  exact h hfront

/-! ## The list of the vault -/

/-- A name of a file. -/
structure IsFileName (name : List Char) : Prop where
  nonempty : name ≠ []
  dot : name ≠ ['.']
  dots : name ≠ ['.', '.']
  separator : '/' ∉ name
  null : nullChar ∉ name

/-- `ScanDirectory` of a directory with files of these names. -/
def scanDirectory (fs : FileSystem) (path : List Char) (names : List (List Char)) : List VaultEntry :=
  let files := names.filter (".msg".toList.isSuffixOf ·) ++ names.filter (".bin".toList.isSuffixOf ·)
  files.filterMap fun name =>
    let file := combine path name
    tryGetEntry (String.ofList file) ((fs.fileAt file).map Prod.snd)

/-- The branch `/api/vault/entries`; `governor` is the address of the API. -/
def vaultEntries (fs : FileSystem) (governor : String) (vaultDir : List Char)
    (names : List (List Char)) : List VaultEntry :=
  (scanDirectory fs vaultDir names).map fun e =>
    { e with
      fullPath := governor ++ "/api/vault/fetch/" ++ String.ofList (escapeDataString e.fileName.toList) }

section

variable {fs : FileSystem} {vaultDir name : List Char} {names : List (List Char)}

theorem IsFileName.rooted (h : IsFileName name) : isPathRooted name = false := by
  refine decide_eq_false fun hhead => h.separator ?_
  exact List.mem_of_mem_head? hhead

theorem IsFileName.step (h : IsFileName name) : steps name = [.down name] := by
  rw [steps, List.splitOn_eq_singleton h.separator, List.map_singleton, segment,
    if_neg (by rintro (hnil | hdot); exacts [h.nonempty hnil, h.dot hdot]), if_neg h.dots]

/-- The file is in the directory. -/
theorem IsFileName.place (h : IsFileName name) (vaultDir : List Char) :
    resolve (combine vaultDir name) = resolve vaultDir ++ [name] := by
  rw [resolve_combine h.rooted, h.step]
  rfl

/-- The path ends with the name. -/
theorem IsFileName.path (h : IsFileName name) (vaultDir : List Char) :
    ∃ front, combine vaultDir name = front ++ name ∧ (front = [] ∨ front.getLast? = some '/') ∧
      ∀ c ∈ front, c = '/' ∨ c ∈ vaultDir := by
  unfold combine
  rw [if_neg h.nonempty]
  split_ifs with hdir hrooted hsep
  · exact ⟨[], rfl, Or.inl rfl, by simp⟩
  · rw [h.rooted] at hrooted
    cases hrooted
  · exact ⟨vaultDir, rfl, Or.inr (of_decide_eq_true hsep), fun c hc => Or.inr hc⟩
  · refine ⟨vaultDir ++ ['/'], by rw [List.append_assoc, List.singleton_append], Or.inr ?_, ?_⟩
    · exact List.getLast?_concat
    · intro c hc
      rcases List.mem_append.mp hc with hc | hc
      · exact Or.inr hc
      · exact Or.inl (List.mem_singleton.mp hc)

/-- The last part of the path is the name. -/
theorem IsFileName.last (h : IsFileName name) (vaultDir : List Char) :
    (getFileName (String.ofList (combine vaultDir name))).toList = name := by
  rcases h.path vaultDir with ⟨front, hfront, hsep, -⟩
  rw [getFileName, String.toList_ofList, String.toList_ofList, hfront]
  rcases hsep with rfl | hsep
  · rw [List.nil_append, List.splitOn_eq_singleton h.separator]
    rfl
  · have hsplit : front = front.dropLast ++ ['/'] := (List.dropLast_append_getLast? '/' hsep).symm
    have hparts : (front ++ name).splitOn '/' = front.dropLast.splitOn '/' ++ name.splitOn '/' := by
      conv_lhs => rw [hsplit, List.append_assoc, List.singleton_append]
      rw [List.splitOn_eq_splitOnP, List.splitOn_eq_splitOnP, List.splitOn_eq_splitOnP]
      exact List.splitOnP_append_cons _ _ (by simp)
    rw [hparts, List.splitOn_eq_singleton h.separator, List.getLastD_concat]

/-- A file of the directory can be opened. -/
theorem IsFileName.file (h : IsFileName name) (hdir : nullChar ∉ vaultDir) :
    fs.fileAt (combine vaultDir name) =
      (fs.content (resolve vaultDir ++ [name])).map fun content => (resolve vaultDir ++ [name], content) := by
  rcases h.path vaultDir with ⟨front, hfront, -, hchars⟩
  have hnull : nullChar ∉ combine vaultDir name := by
    rw [hfront, List.mem_append, not_or]
    refine ⟨fun hmem => ?_, h.null⟩
    rcases hchars nullChar hmem with hslash | hmem
    · exact absurd hslash (by decide)
    · exact hdir hmem
  have hend : endsInSeparator (combine vaultDir name) = false := by
    refine decide_eq_false fun hlast => h.separator ?_
    rw [hfront, List.getLast?_append_of_ne_nil _ h.nonempty] at hlast
    exact List.mem_of_getLast? hlast
  unfold FileSystem.fileAt
  rw [hend, if_neg (by rintro (hmem | hsep); exacts [hnull hmem, Bool.noConfusion hsep]), h.place]

/-- The branch for the address of a file. -/
theorem dispatch_fetch (name : List Char) :
    dispatch "GET" ("/api/vault/fetch/".toList ++ name) = .vaultFetch := by
  have hother : ∀ text : List Char,
      equalsIgnoreCase ("/api/vault/fetch/".toList) (text.take 17) = false →
      equalsIgnoreCase ("/api/vault/fetch/".toList ++ name) text = false := by
    intro text htext
    refine equalsIgnoreCase_of_front 17 ?_
    rw [List.take_left' (by rfl)]
    exact htext
  have hfront : startsWithIgnoreCase ("/api/vault/fetch/".toList ++ name) "/api/vault/fetch/".toList =
      true := by
    unfold startsWithIgnoreCase
    rw [List.take_left]
    decide
  unfold dispatch
  rw [if_neg (by decide), if_neg (by rw [hother _ (by decide)]; simp),
    if_neg (by rw [hother _ (by decide)]; simp), if_neg (by simp),
    if_neg (by rw [hother _ (by decide)]; simp), if_neg (by rw [hother _ (by decide)]; simp),
    if_pos ⟨hfront, rfl⟩]

theorem fileName_of_tryGetEntry {filePath : String} {file : Option Bytes} {entry : VaultEntry}
    (h : tryGetEntry filePath file = some entry) : entry.fileName = getFileName filePath := by
  unfold tryGetEntry at h
  split at h
  · cases h
  · split_ifs at h
    split at h
    · cases h
    · rw [← Option.some.inj h]

/-- An entry of the list comes from a file of the directory, and a request for its address
opens that file. -/
theorem entry_served {governor : String} {runtimeData vaultLocation : List Char} {entry : VaultEntry}
    (hdir : vaultDirectory runtimeData vaultLocation = .ok vaultDir)
    (hnames : ∀ name ∈ names, IsFileName name) (hentry : entry ∈ vaultEntries fs governor vaultDir names) :
    ∃ name ∈ names, ∃ url content listed, entry.fileName.toList = name ∧
      fs.content (resolve vaultDir ++ [name]) = some content ∧
      tryGetEntry (String.ofList (combine vaultDir name)) (some content) = some listed ∧
      entry = { listed with fullPath := governor ++ String.ofList url } ∧
      dispatch "GET" url = .vaultFetch ∧
      vaultFetch fs runtimeData vaultLocation url = .ok (some (resolve vaultDir ++ [name], content)) := by
  rcases List.mem_map.mp hentry with ⟨listed, hlisted, rfl⟩
  rcases List.mem_filterMap.mp hlisted with ⟨name, hfile, hget⟩
  have hname : name ∈ names := by
    rcases List.mem_append.mp hfile with hmem | hmem
    · exact List.mem_of_mem_filter hmem
    · exact List.mem_of_mem_filter hmem
  have hisName := hnames name hname
  dsimp only at hget
  cases hopen : fs.fileAt (combine vaultDir name) with
  | none =>
    rw [hopen] at hget
    cases hget
  | some opened =>
    rw [hopen, Option.map_some] at hget
    rcases FileSystem.fileAt_eq_some hopen with ⟨hplace, -⟩
    rw [hisName.place] at hplace
    have hfileName : listed.fileName.toList = name := by
      rw [fileName_of_tryGetEntry hget]
      exact hisName.last vaultDir
    have hcontent : fs.content (resolve vaultDir ++ [name]) = some opened.2 := by
      unfold FileSystem.fileAt at hopen
      split_ifs at hopen
      rw [hisName.place] at hopen
      rcases Option.map_eq_some_iff.mp hopen with ⟨content, hcontent, rfl⟩
      exact hcontent
    refine ⟨name, hname, "/api/vault/fetch/".toList ++ escapeDataString name, opened.2, listed,
      hfileName, hcontent, hget, ?_, dispatch_fetch _, ?_⟩
    · rw [hfileName, String.ofList_append, ← String.append_assoc]
      rfl
    · have hdrop : ("/api/vault/fetch/".toList ++ escapeDataString name).drop 17 = escapeDataString name :=
        List.drop_left' rfl
      rw [vaultFetch, hdrop, unescape_escape, hdir]
      show Except.ok (fs.fileAt (combine vaultDir name)) = _
      rw [hopen, ← hplace]

end

/-- Every entry of `/api/vault/entries` is served: a request for its address comes to the
branch that sends files, and gets the file of the vault that the entry was made of, whatever
characters are in its name. -/
theorem vault_entries_served (fs : FileSystem) (governor : String)
    (runtimeData vaultLocation vaultDir : List Char) (names : List (List Char))
    (hdir : vaultDirectory runtimeData vaultLocation = .ok vaultDir)
    (hnames : ∀ name ∈ names, IsFileName name) :
    ∀ entry ∈ vaultEntries fs governor vaultDir names, ∃ url content,
      entry.fullPath = governor ++ String.ofList url ∧ dispatch "GET" url = .vaultFetch ∧
      entry.fileName.toList ∈ names ∧
      vaultFetch fs runtimeData vaultLocation url =
        .ok (some (resolve vaultDir ++ [entry.fileName.toList], content)) ∧
      ∃ listed, tryGetEntry (String.ofList (combine vaultDir entry.fileName.toList)) (some content) =
        some listed ∧ entry = { listed with fullPath := entry.fullPath } := by
  intro entry hentry
  rcases entry_served hdir hnames hentry with
    ⟨name, hname, url, content, listed, hfileName, -, hget, heq, hdispatch, hfetch⟩
  rw [hfileName]
  refine ⟨url, content, by rw [heq], hdispatch, hname, hfetch, listed, hget, ?_⟩
  rw [heq]

/-- A name with a blank in it. -/
def doorArchiveName : List Char := "Sentinel_door_12 30.msg".toList

theorem doorArchive_name : IsFileName doorArchiveName :=
  ⟨by decide, by decide, by decide, by decide, by decide⟩

/-- A vault with one file of this name. -/
def doorVault (content : Bytes) : FileSystem :=
  .single ["vault".toList, doorArchiveName] (List.cons_ne_nil _ _) content

theorem valid_sixSessionKey : validKey sixSessionKey := by decide

/-- The archive of the hub for the camera at the door. -/
def doorSessionArchiver : Archiver :=
  sessionArchiver maskCrypto sixSessionKey valid_sixSessionKey (fun _ _ => 0)
    (some (cameraMetadata "door" "now")) true

/-- A master header. -/
def doorHeader : Bytes := doorSessionArchiver.head 0

/-- The blank in the name does not keep the file from being served. -/
theorem vault_entries_served_door :
    ∃ entry ∈ vaultEntries (doorVault doorHeader) "http://localhost:5000" "/vault".toList [doorArchiveName],
      ∃ url content, entry.fullPath = "http://localhost:5000" ++ String.ofList url ∧
        vaultFetch (doorVault doorHeader) [] "/vault".toList url =
          .ok (some (["vault".toList, entry.fileName.toList], content)) := by
  have hlisted : vaultEntries (doorVault doorHeader) "http://localhost:5000" "/vault".toList
      [doorArchiveName] ≠ [] := by
    rw [Ne, ← List.length_eq_zero_iff]
    decide +kernel
  rcases List.exists_mem_of_ne_nil _ hlisted with ⟨entry, hentry⟩
  rcases vault_entries_served (doorVault doorHeader) "http://localhost:5000" [] "/vault".toList
      "/vault".toList [doorArchiveName] (by decide) (by simpa using doorArchive_name) entry hentry with
    ⟨url, content, hpath, -, -, hfetch, -⟩
  exact ⟨entry, hentry, url, content, hpath, hfetch⟩

/-- `text.ToLowerInvariant().Contains(q)`. -/
def containsLower (toLower : Char → Char) (q text : List Char) : Bool :=
  decide (q <:+: text.map toLower)

/-- The loop over the tags of an entry. -/
def searchTags (toLower : Char → Char) (q : List Char) (entry : VaultEntry) :
    List (Sigma fun _ : String => String) → List VaultEntry
  | [] => []
  | tag :: tags =>
    if containsLower toLower q tag.1.toList || containsLower toLower q tag.2.toList then [entry]
    else searchTags toLower q entry tags

/-- `Search`; `toLower` is what `ToLowerInvariant` makes of a character. -/
def search (toLower : Char → Char) (entries : List VaultEntry) (query : List Char) : List VaultEntry :=
  let q := query.map toLower
  entries.flatMap fun entry =>
    if containsLower toLower q entry.fileName.toList || containsLower toLower q entry.metadata.toList then
      [entry]
    else
      searchTags toLower q entry entry.tags.entries

section

variable {toLower : Char → Char} {q : List Char} {entry : VaultEntry}

theorem containsLower_of_part {text text' : List Char} (h : text <:+: text')
    (hcontains : containsLower toLower q text = true) : containsLower toLower q text' = true :=
  decide_eq_true ((of_decide_eq_true hcontains).trans (h.map toLower))

/-- Without a tag that contains the query the loop yields nothing. -/
theorem searchTags_eq_nil {tags : List (Sigma fun _ : String => String)}
    (h : ∀ tag ∈ tags, containsLower toLower q tag.1.toList = false ∧
      containsLower toLower q tag.2.toList = false) : searchTags toLower q entry tags = [] := by
  induction tags with
  | nil => rfl
  | cons tag tags ih =>
    rcases h tag List.mem_cons_self with ⟨hkey, hvalue⟩
    rw [searchTags, hkey, hvalue, Bool.or_self, if_neg Bool.noConfusion]
    exact ih fun tag' hmem => h tag' (List.mem_cons_of_mem tag hmem)

/-- The keys and values of a listed entry are parts of its metadata. -/
theorem tags_part {filePath : String} {file : Option Bytes}
    (h : tryGetEntry filePath file = some entry) {tag : Sigma fun _ : String => String}
    (htag : tag ∈ entry.tags.entries) :
    tag.1.toList <:+: entry.metadata.toList ∧ tag.2.toList <:+: entry.metadata.toList := by
  have htags : entry.tags = parseTags entry.metadata := by
    unfold tryGetEntry at h
    split at h
    · cases h
    · split_ifs at h
      split at h
      · cases h
      · rw [← Option.some.inj h]
  have hlookup : (parseTags entry.metadata).lookup tag.1 = some tag.2 := by
    rw [← htags]
    exact AList.mem_lookup_iff.mpr htag
  exact Punctuation.fields_part (mem_fields_of_lookup hlookup)

end

/-- A search in what the index lists finds exactly the entries whose name or metadata contain
the query, each of them once and in the order of the list: the tags of an entry are parts of
its metadata, and the loop over them never finds one more. -/
theorem search_eq_filter (toLower : Char → Char) (fs : FileSystem) (path : List Char)
    (names : List (List Char)) (query : List Char) :
    search toLower (scanDirectory fs path names) query =
      (scanDirectory fs path names).filter fun entry =>
        containsLower toLower (query.map toLower) entry.fileName.toList ||
          containsLower toLower (query.map toLower) entry.metadata.toList := by
  have heach : ∀ entry ∈ scanDirectory fs path names,
      (if containsLower toLower (query.map toLower) entry.fileName.toList ||
          containsLower toLower (query.map toLower) entry.metadata.toList then [entry]
        else searchTags toLower (query.map toLower) entry entry.tags.entries) =
      if containsLower toLower (query.map toLower) entry.fileName.toList ||
          containsLower toLower (query.map toLower) entry.metadata.toList then [entry] else [] := by
    intro entry hentry
    rcases List.mem_filterMap.mp hentry with ⟨name, -, hget⟩
    split_ifs with hfound
    · rfl
    refine searchTags_eq_nil fun tag htag => ?_
    rw [Bool.not_eq_true, Bool.or_eq_false_iff] at hfound
    rcases tags_part hget htag with ⟨hkey, hvalue⟩
    constructor
    · rw [← Bool.not_eq_true]
      intro hcontains
      rw [containsLower_of_part hkey hcontains] at hfound
      exact Bool.noConfusion hfound.2
    · rw [← Bool.not_eq_true]
      intro hcontains
      rw [containsLower_of_part hvalue hcontains] at hfound
      exact Bool.noConfusion hfound.2
  unfold search
  dsimp only
  generalize scanDirectory fs path names = entries at heach ⊢
  induction entries with
  | nil => rfl
  | cons entry entries ih =>
    rw [List.flatMap_cons, heach entry List.mem_cons_self,
      ih fun entry' hmem => heach entry' (List.mem_cons_of_mem entry hmem), List.filter_cons]
    split_ifs <;> rfl

end ManagedSecurity
