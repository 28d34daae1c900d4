import ManagedSecurity.Commander
import ManagedSecurity.CipherInversion

/-! # The guardian (`GuardianBehavior`)

The server answers a request for a snapshot with the picture in encrypted form. A guardian
polls the snapshots of its cameras, each in a loop of its own, and compares every picture
with the one before it. The feed of a loop removes the encryption, if there is one; the loop
then tries the same for all routes but one.

* `decrypt_encryptArray`, `decrypt_jpeg`: an answer can be decrypted, a plain picture cannot;
* `nextFrame_picture`: the feed yields the picture whichever of the two the answer is;
* `round_analyses_iff`: the loop analyses it on the light route, and there only;
* `knows_run`: on that route a guardian knows what somebody who watches the cameras has seen;
* `guardian_sees`: both, for every state and every run.
-/

namespace ManagedSecurity

open Bytes Outcome

/-! ## The snapshot endpoint -/

/-- `Encrypt(plaintext, keyIndex, highSecurity)`, into a new array. -/
def Cipher.encryptArray (c : Cipher) (random : ℕ → UInt8) (plaintext : Bytes) (keyIndex : ℤ)
    (highSecurity : Bool) : Except Exn Bytes :=
  let profile : ℤ := if highSecurity then 1 else 0
  match getRequiredSize plaintext.length keyIndex profile with
  | .error e => .error e
  | .ok size =>
    match newByteArray size with
    | .error e => .error e
    | .ok buffer =>
      match c.encrypt random (.own plaintext) keyIndex profile 0 buffer with
      | .ok _ buffer => .ok buffer
      | .error e _ => .error e

/-- The picture of a snapshot. `captured` is what the camera yields and whether the capture
succeeded, `fallback` the test picture. -/
def rawJpeg (captured : Bool × Bytes) (fallback : Bytes) : Bytes :=
  if captured.1 = false ∨ captured.2.length = 0 then fallback else captured.2

/-- `HandleSnapshotRequest`: the body of the response, if there is one. -/
def handleSnapshotRequest (c : Cipher) (random : ℕ → UInt8) (captured : Bool × Bytes)
    (fallback : Bytes) : Option Bytes :=
  match c.encryptArray random (rawJpeg captured fallback) 0 false with
  | .ok encrypted => some encrypted
  | .error _ => none

/-! ## Feeds and loops -/

/-- `PollingSnapshotFeedStrategy`. -/
structure PollingSnapshotFeedStrategy where
  camera : DiscoveryResult
  cipher : Option Cipher

/-- `GetNextFrameAsync`; there are no image bytes where the timer has stopped or the request
has failed. What cannot be decrypted is taken for a plain picture. -/
def PollingSnapshotFeedStrategy.getNextFrame (feed : PollingSnapshotFeedStrategy)
    (imageBytes : Option Bytes) : Option Bytes :=
  match imageBytes with
  | none => none
  | some bytes =>
    match feed.cipher with
    | none => some bytes
    | some c =>
      if bytes.length > 0 then
        match c.decrypt bytes with
        | .ok plaintext => some plaintext
        | .error _ => some bytes
      else
        some bytes

/-- The state of `GuardianBehavior`. `feedLoops` lists the loops that have been started, with the URL
of the assignment: to overwrite its entry in the dictionary would not end a loop. `firstFrame` is
what goes to the file for verification, `compared` what has been given to `ComputeSaliency`, with
the camera. -/
structure GuardianBehavior where
  commanderBaseUrl : String
  cipher : Option Cipher
  activeTasks : Dictionary String DiscoveryResult
  feedLoops : List (String × PollingSnapshotFeedStrategy)
  lastFrames : Dictionary String Bytes
  firstFrame : Option Bytes
  compared : List (String × Bytes × Bytes)

namespace GuardianBehavior

/-- A new guardian. -/
def initial (commanderBaseUrl : String) (cipher : Option Cipher) : GuardianBehavior :=
  ⟨commanderBaseUrl, cipher, ∅, [], ∅, none, []⟩

/-- `s.TrimEnd('/')`. -/
def trimEndSlash (s : String) : String :=
  String.ofList (s.toList.reverse.dropWhile (· = '/')).reverse

/-- The camera of an assignment. -/
def cameraOf (commanderBaseUrl : String) (assignment : TaskAssignment) : DiscoveryResult :=
  let snapshotUrl := assignment.snapshotUrl.getD ("/api/snapshot/" ++ assignment.id)
  { ipAddress := assignment.ipAddress
    port := assignment.port
    path := assignment.path
    vendor := none
    model := none
    requiresAuth := false
    displayName := none
    isConfigured := false
    id := assignment.id
    isMvEnabled := true
    mvRoute := assignment.mvRoute
    snapshotUrlField := some
      (if snapshotUrl.startsWith "/" then trimEndSlash commanderBaseUrl ++ snapshotUrl
       else snapshotUrl) }

/-- `AcceptAssignment`. -/
def acceptAssignment (g : GuardianBehavior) (assignment : TaskAssignment) : GuardianBehavior :=
  let camera := cameraOf g.commanderBaseUrl assignment
  if assignment.cameraUrl ∈ g.activeTasks then
    g
  else
    let feedStrategy : PollingSnapshotFeedStrategy :=
      if assignment.mvRoute = .lightPlain then
        ⟨camera, g.cipher⟩
      else
        -- the place of a strategy for the heavy routes
        ⟨camera, g.cipher⟩
    { g with
      activeTasks := g.activeTasks.set assignment.cameraUrl camera
      feedLoops := g.feedLoops ++ [(assignment.cameraUrl, feedStrategy)] }

/-- The frame that `BroadPhaseLoopAsync` goes on with, if any. -/
def currentFrame (g : GuardianBehavior) (camera : DiscoveryResult) (rawData : Bytes) : Option Bytes :=
  match g.cipher with
  | none => some rawData
  | some c =>
    if (camera.mvRoute == .lightPlain) = false then
      match c.decrypt rawData with
      | .ok plaintext => some plaintext
      | .error _ => none
    else
      some rawData

/-- `ComputeSaliency` of a frame and the one before it, where there is one; then the frame
is the last one. -/
def analyse (g : GuardianBehavior) (camera : DiscoveryResult) (frame : Bytes) : GuardianBehavior :=
  { g with
    compared := g.compared ++
      ((g.lastFrames.lookup camera.url).toList.map fun lastFrame => (camera.url, lastFrame, frame))
    lastFrames := g.lastFrames.set camera.url frame }

/-- One round of `BroadPhaseLoopAsync`. -/
def broadPhaseRound (g : GuardianBehavior) (feed : PollingSnapshotFeedStrategy)
    (imageBytes : Option Bytes) : GuardianBehavior :=
  match feed.getNextFrame imageBytes with
  | none => g
  | some rawData =>
    let g := { g with firstFrame := some (g.firstFrame.getD rawData) }
    match g.currentFrame feed.camera rawData with
    | none => g
    | some frame => g.analyse feed.camera frame

/-- What can happen: an assignment arrives, or the k-th loop makes a round. -/
inductive Label where
  | accept (assignment : TaskAssignment)
  | poll (k : ℕ) (imageBytes : Option Bytes)

/-- One step of the guardian. -/
def step (g : GuardianBehavior) : Label → Option GuardianBehavior
  | .accept assignment => some (g.acceptAssignment assignment)
  | .poll k imageBytes => g.feedLoops[k]?.map fun loop => g.broadPhaseRound loop.2 imageBytes

end GuardianBehavior

/-! ## What a guardian is for -/

/-- A byte string that begins as a JPEG file does. -/
def IsJpeg (j : Bytes) : Prop := ∃ rest, j = 0xFF :: 0xD8 :: rest

/-- The server answers with the picture, encrypted or as it is. -/
def AnswersWith (c : Cipher) (j response : Bytes) : Prop :=
  response = j ∨ ∃ random captured fallback,
    rawJpeg captured fallback = j ∧ handleSnapshotRequest c random captured fallback = some response

/-- What somebody who watches the cameras has seen: the pictures of every camera, by its
URL. `cameras` lists the assignments with their cameras. -/
structure Watch where
  cameras : List (String × String)
  seen : String → List Bytes

/-- What happens to the cameras: one is watched, or the k-th shows a picture, or none. -/
inductive Watch.Event where
  | accept (assignment : TaskAssignment)
  | look (k : ℕ) (picture : Option Bytes)

/-- Nothing has been seen. -/
def Watch.initial : Watch := ⟨[], fun _ => []⟩

/-- The URL of the camera of an assignment. -/
def TaskAssignment.url (assignment : TaskAssignment) : String :=
  "rtsp://" ++ assignment.ipAddress ++ ":" ++ toString assignment.port ++ assignment.path.getD "/"

/-- One more picture of a camera. -/
def Watch.see (w : Watch) (url : String) (picture : Bytes) : Watch :=
  { w with seen := Function.update w.seen url (w.seen url ++ [picture]) }

/-- One more camera, if it is not there. -/
def Watch.watch (w : Watch) (assignment : TaskAssignment) : Watch :=
  if assignment.cameraUrl ∈ w.cameras.map Prod.fst then w
  else { w with cameras := w.cameras ++ [(assignment.cameraUrl, assignment.url)] }

/-- One step of the watch. -/
def Watch.step (w : Watch) : Watch.Event → Option Watch
  | .accept assignment => some (w.watch assignment)
  | .look _ none => some w
  | .look k (some picture) => w.cameras[k]?.map fun camera => w.see camera.2 picture

/-- Each element with the one behind it. -/
def consecutive {α : Type} (xs : List α) : List (α × α) := xs.zip xs.tail

/-- The guardian knows what the watch has seen: the last frames are the last pictures, and
the frames that have been compared are pictures that followed each other. -/
structure GuardianBehavior.Knows (g : GuardianBehavior) (w : Watch) : Prop where
  tasks : ∀ cameraUrl, cameraUrl ∈ g.activeTasks ↔ cameraUrl ∈ w.cameras.map Prod.fst
  loops : g.feedLoops.map (fun loop => (loop.1, loop.2.camera.url)) = w.cameras
  last : ∀ url, g.lastFrames.lookup url = (w.seen url).getLast?
  compared : ∀ url, (g.compared.filter fun entry => entry.1 = url).map Prod.snd =
    consecutive (w.seen url)

/-- The round has compared the picture with the frame before it, if there is one, and made
it the last frame. -/
structure GuardianBehavior.Analyses (g : GuardianBehavior) (camera : DiscoveryResult) (j : Bytes)
    (g' : GuardianBehavior) : Prop where
  last : g'.lastFrames.lookup camera.url = some j
  compared : g'.compared = g.compared ++
    ((g.lastFrames.lookup camera.url).toList.map fun lastFrame => (camera.url, lastFrame, j))

/-! ## Answers and pictures -/

section

variable {c : Cipher} {j response : Bytes}

/-- An encryption into a new array succeeds with a key, and into an array of the size that
was calculated. -/
theorem encryptArray_inv {random : ℕ → UInt8} (hj : j.length < 2 ^ 25)
    (h : c.encryptArray random j 0 false = .ok response) :
    ∃ call buffer, buffer.length = requiredSize j.length 0 0 ∧
      c.encrypt random (.own j) 0 0 0 buffer = .ok call response := by
  have hzero : (0 : ℕ) < 2 ^ 25 := Nat.two_pow_pos 25
  have hsize : getRequiredSize j.length 0 0 = .ok (requiredSize j.length 0 0 : ℤ) :=
    getRequiredSize_eq (K := 0) 0 hj hzero
  generalize requiredSize j.length 0 0 = size at hsize ⊢
  unfold Cipher.encryptArray at h
  rw [if_neg Bool.false_ne_true] at h
  dsimp only at h
  rw [hsize] at h
  dsimp only at h
  split at h
  · cases h
  · rename_i buffer hbuffer
    split at h
    · rename_i call d hrun
      obtain rfl := Except.ok.inj h
      refine ⟨call, buffer, ?_, hrun⟩
      rw [(newByteArray_eq_ok.mp hbuffer).2, List.length_replicate, Int.toNat_natCast]
    · cases h

/-- It can be undone. -/
theorem decrypt_encryptArray {random : ℕ → UInt8} (hinv : c.crypto.Inverts) (hj : j.length < 2 ^ 25)
    (h : c.encryptArray random j 0 false = .ok response) : c.decrypt response = .ok j := by
  rcases encryptArray_inv hj h with ⟨call, buffer, hlen, hrun⟩
  have hzero : c.encryptS0 random (.own j) 0 buffer = .ok call response := hrun
  rcases Cipher.encryptS0_inv hzero with ⟨-, -, hkey, hvalid, -⟩
  -- it had a key, with which the round trip is that of the cipher
  rcases encrypt_message 0 random hinv hkey hvalid hj (Nat.two_pow_pos 25) (Nat.zero_le 2) with
    ⟨call', message, hmessage, hwrite, hread, -⟩
  rcases EStateM.Result.ok.inj ((hwrite buffer (le_of_eq hlen.symm)).symm.trans hrun) with ⟨-, rfl⟩
  exact hread _

/-- The two bytes of a picture stand for a version that the header parser does not know. -/
theorem decrypt_jpeg (c : Cipher) (hj : IsJpeg j) : ∃ e, c.decrypt j = .error e := by
  cases hdecrypt : c.decrypt j with
  | error e => exact ⟨e, rfl⟩
  | ok plaintext =>
    exfalso
    rcases Cipher.decrypt_eq_ok.mp hdecrypt with ⟨h, -, hparse, -⟩
    rcases parse_eq_ok.mp hparse with ⟨p, haccepts, -⟩
    have hversion := haccepts.version
    have hword := haccepts.word
    rcases hj with ⟨rest, rfl⟩
    match rest, hword with
    | b₂ :: b₃ :: rest, _ =>
      rw [headerWord_eq] at hversion
      have h₂ := b₂.toNat_lt
      have h₃ := b₃.toNat_lt
      simp only [beNat_cons, beNat_nil, List.length_cons, List.length_nil] at hversion
      have hFF : (0xFF : UInt8).toNat = 255 := rfl
      have hD8 : (0xD8 : UInt8).toNat = 216 := rfl
      omega

/-- The feed yields the picture, whichever of the two the answer is. -/
theorem nextFrame_picture {feed : PollingSnapshotFeedStrategy} (hfeed : feed.cipher = some c)
    (hinv : c.crypto.Inverts) (hjpeg : IsJpeg j) (hj : j.length < 2 ^ 25)
    (hanswer : AnswersWith c j response) : feed.getNextFrame (some response) = some j := by
  rcases hanswer with rfl | ⟨random, captured, fallback, rfl, hrequest⟩
  · rcases decrypt_jpeg c hjpeg with ⟨e, he⟩
    simp only [PollingSnapshotFeedStrategy.getNextFrame, hfeed, he, ite_self]
  · have hok : c.encryptArray random (rawJpeg captured fallback) 0 false = .ok response := by
      unfold handleSnapshotRequest at hrequest
      cases hrun : c.encryptArray random (rawJpeg captured fallback) 0 false with
      | error e =>
        rw [hrun] at hrequest
        cases hrequest
      | ok encrypted =>
        rw [hrun] at hrequest
        rw [Option.some.inj hrequest]
    have hplain := decrypt_encryptArray hinv hj hok
    -- an empty answer would not have been decrypted
    have hpos : response.length > 0 := by
      rcases Cipher.decrypt_eq_ok.mp hplain with ⟨h, -, hparse, -⟩
      rcases parse_eq_ok.mp hparse with ⟨p, haccepts, -⟩
      have hword := haccepts.word
      omega
    simp only [PollingSnapshotFeedStrategy.getNextFrame, hfeed, if_pos hpos, hplain]

end

/-! ## A round -/

section

variable {g g' : GuardianBehavior} {feed : PollingSnapshotFeedStrategy} {camera : DiscoveryResult}
  {c : Cipher} {j response : Bytes}

theorem currentFrame_light (hroute : camera.mvRoute = .lightPlain) :
    g.currentFrame camera j = some j := by
  unfold GuardianBehavior.currentFrame
  cases g.cipher with
  | none => rfl
  | some c =>
    simp only [hroute, beq_self_eq_true, Bool.true_eq_false, if_false]

/-- On the other routes the loop takes the picture, which is a plain one, for an encrypted one. -/
theorem currentFrame_heavy (hcipher : g.cipher = some c) (hroute : camera.mvRoute ≠ .lightPlain)
    (hjpeg : IsJpeg j) : g.currentFrame camera j = none := by
  rcases decrypt_jpeg c hjpeg with ⟨e, he⟩
  have hother : (camera.mvRoute == .lightPlain) = false := beq_eq_false_iff_ne.mpr hroute
  simp only [GuardianBehavior.currentFrame, hcipher, hother, if_true, he]

/-- On the light route a round analyses the picture; on the others it drops it. -/
theorem round_eq (hcipher : g.cipher = some c) (hfeed : feed.cipher = some c)
    (hinv : c.crypto.Inverts) (hjpeg : IsJpeg j) (hj : j.length < 2 ^ 25)
    (hanswer : AnswersWith c j response) :
    g.broadPhaseRound feed (some response) =
      if feed.camera.mvRoute = .lightPlain then
        { g with firstFrame := some (g.firstFrame.getD j) }.analyse feed.camera j
      else
        { g with firstFrame := some (g.firstFrame.getD j) } := by
  unfold GuardianBehavior.broadPhaseRound
  rw [nextFrame_picture hfeed hinv hjpeg hj hanswer]
  dsimp only
  split_ifs with hroute
  · rw [currentFrame_light hroute]
  · have hdropped : { g with firstFrame := some (g.firstFrame.getD j) }.currentFrame feed.camera j = none :=
      currentFrame_heavy hcipher hroute hjpeg
    rw [hdropped]

theorem analyses_analyse (firstFrame : Option Bytes) :
    g.Analyses camera j ({ g with firstFrame := firstFrame }.analyse camera j) where
  last := Dictionary.lookup_set_self
  compared := rfl

/-- A round that changes nothing here has not analysed the picture: it would have made it
the last frame, or compared it with the one that was. -/
theorem not_analyses_same (hlast : g'.lastFrames = g.lastFrames) (hcompared : g'.compared = g.compared) :
    ¬ g.Analyses camera j g' := by
  rintro ⟨hstored, hlogged⟩
  rw [hlast] at hstored
  rw [hcompared, hstored] at hlogged
  have hlength := congrArg List.length hlogged
  simp only [Option.toList_some, List.map_cons, List.map_nil, List.length_append, List.length_cons,
    List.length_nil] at hlength
  omega

theorem round_analyses_iff (hcipher : g.cipher = some c) (hfeed : feed.cipher = some c)
    (hinv : c.crypto.Inverts) (hjpeg : IsJpeg j) (hj : j.length < 2 ^ 25)
    (hanswer : AnswersWith c j response) :
    g.Analyses feed.camera j (g.broadPhaseRound feed (some response)) ↔
      feed.camera.mvRoute = .lightPlain := by
  rw [round_eq hcipher hfeed hinv hjpeg hj hanswer]
  split_ifs with hroute
  · exact iff_of_true (analyses_analyse _) hroute
  · exact iff_of_false (not_analyses_same rfl rfl) hroute

end

/-! ## What holds in every state -/

/-- The guardian and all its feeds have this cipher. -/
structure GuardianBehavior.Shares (c : Cipher) (g : GuardianBehavior) : Prop where
  guardian : g.cipher = some c
  feeds : ∀ loop ∈ g.feedLoops, loop.2.cipher = some c

section

variable {c : Cipher} {base : String} {g g' : GuardianBehavior} {labels : List GuardianBehavior.Label}

theorem shares_initial : (GuardianBehavior.initial base (some c)).Shares c where
  guardian := rfl
  feeds _ hloop := absurd hloop List.not_mem_nil

theorem shares_accept (hshares : g.Shares c) (assignment : TaskAssignment) :
    (g.acceptAssignment assignment).Shares c := by
  unfold GuardianBehavior.acceptAssignment
  dsimp only
  split_ifs
  · exact hshares
  all_goals
    refine ⟨hshares.guardian, ?_⟩
    intro loop hloop
    rcases List.mem_append.mp hloop with hold | hnew
    · exact hshares.feeds loop hold
    · rw [List.mem_singleton.mp hnew]
      exact hshares.guardian

/-- A round changes neither the cipher nor the feeds, nor the tasks. -/
theorem round_frame (feed : PollingSnapshotFeedStrategy) (imageBytes : Option Bytes) :
    (g.broadPhaseRound feed imageBytes).cipher = g.cipher ∧
      (g.broadPhaseRound feed imageBytes).feedLoops = g.feedLoops ∧
      (g.broadPhaseRound feed imageBytes).activeTasks = g.activeTasks := by
  unfold GuardianBehavior.broadPhaseRound
  split
  · exact ⟨rfl, rfl, rfl⟩
  · dsimp only
    split
    · exact ⟨rfl, rfl, rfl⟩
    · exact ⟨rfl, rfl, rfl⟩

theorem shares_step (label : GuardianBehavior.Label) (hshares : g.Shares c)
    (hstep : g.step label = some g') : g'.Shares c := by
  cases label with
  | accept assignment =>
    obtain rfl := Option.some.inj hstep
    exact shares_accept hshares assignment
  | poll k imageBytes =>
    rcases Option.map_eq_some_iff.mp hstep with ⟨loop, -, rfl⟩
    rcases round_frame loop.2 imageBytes with ⟨hcipher, hfeeds, -⟩
    refine ⟨hcipher.trans hshares.guardian, ?_⟩
    rw [hfeeds]
    exact hshares.feeds

theorem shares_run
    (hrun : Transition.run GuardianBehavior.step (.initial base (some c)) labels = some g) :
    g.Shares c :=
  Transition.run_invariant (fun _ label _ hshares hstep => shares_step label hshares hstep) labels _ g
    shares_initial hrun

end

/-! ## Runs -/

/-- What happens at the cameras, and what the guardian gets of it. -/
inductive Carries (c : Cipher) : GuardianBehavior.Label → Watch.Event → Prop where
  | accept (assignment : TaskAssignment) : Carries c (.accept assignment) (.accept assignment)
  | nothing (k : ℕ) : Carries c (.poll k none) (.look k none)
  | picture (k : ℕ) {j response : Bytes} (hjpeg : IsJpeg j) (hj : j.length < 2 ^ 25)
      (hanswer : AnswersWith c j response) :
      Carries c (.poll k (some response)) (.look k (some j))

/-- The cameras that are polled are on the light route. -/
def GuardianBehavior.Light (g : GuardianBehavior) : GuardianBehavior.Label → Prop
  | .accept _ => True
  | .poll k _ => ∀ loop, g.feedLoops[k]? = some loop → loop.2.camera.mvRoute = .lightPlain

theorem consecutive_cons_cons {α : Type} (a b : α) (xs : List α) :
    consecutive (a :: b :: xs) = (a, b) :: consecutive (b :: xs) := rfl

theorem consecutive_snoc {α : Type} (xs : List α) (x : α) :
    consecutive (xs ++ [x]) = consecutive xs ++ xs.getLast?.toList.map fun last => (last, x) := by
  induction xs with
  | nil => rfl
  | cons a xs ih =>
    cases xs with
    | nil => rfl
    | cons b xs =>
      rw [List.cons_append, List.cons_append, consecutive_cons_cons, ← List.cons_append, ih,
        consecutive_cons_cons, List.getLast?_cons_cons, List.cons_append]

section

variable {c : Cipher} {base : String} {g g' : GuardianBehavior} {w : Watch}

theorem knows_initial : (GuardianBehavior.initial base (some c)).Knows .initial where
  tasks cameraUrl := by simp [GuardianBehavior.initial, Watch.initial]
  loops := rfl
  last _ := rfl
  compared _ := rfl

theorem knows_accept (hknows : g.Knows w) (assignment : TaskAssignment) :
    (g.acceptAssignment assignment).Knows (w.watch assignment) := by
  by_cases hmem : assignment.cameraUrl ∈ g.activeTasks
  · have hcamera := (hknows.tasks assignment.cameraUrl).mp hmem
    rw [GuardianBehavior.acceptAssignment, Watch.watch, if_pos hcamera]
    dsimp only
    rw [if_pos hmem]
    exact hknows
  · have hcamera := fun h => hmem ((hknows.tasks assignment.cameraUrl).mpr h)
    rw [GuardianBehavior.acceptAssignment, Watch.watch, if_neg hcamera]
    dsimp only
    rw [if_neg hmem, ite_self]
    refine ⟨?_, ?_, hknows.last, hknows.compared⟩
    · intro cameraUrl
      rw [Dictionary.mem_set, hknows.tasks cameraUrl, List.map_append, List.mem_append,
        List.map_singleton, List.mem_singleton, or_comm]
    · rw [List.map_append, hknows.loops]
      rfl

@[simp] theorem seen_see_self (url : String) (j : Bytes) : (w.see url j).seen url = w.seen url ++ [j] := by
  simp [Watch.see]

theorem seen_see_ne {url url' : String} (h : url' ≠ url) (j : Bytes) :
    (w.see url j).seen url' = w.seen url' := by
  simp [Watch.see, h]

/-- A picture that is analysed is one that has been seen. -/
theorem knows_analyse (hknows : g.Knows w) (camera : DiscoveryResult) (j : Bytes) :
    (g.analyse camera j).Knows (w.see camera.url j) where
  tasks := hknows.tasks
  loops := hknows.loops
  last := by
    intro url
    by_cases hurl : url = camera.url
    · rw [hurl, GuardianBehavior.analyse, Dictionary.lookup_set_self, seen_see_self, List.getLast?_concat]
    · rw [GuardianBehavior.analyse, Dictionary.lookup_set_ne hurl, seen_see_ne hurl]
      exact hknows.last url
  compared := by
    intro url
    rw [GuardianBehavior.analyse, List.filter_append, List.map_append, hknows.compared url,
      hknows.last camera.url]
    by_cases hurl : url = camera.url
    · rw [hurl, seen_see_self, consecutive_snoc]
      cases (w.seen camera.url).getLast? with
      | none => rfl
      | some lastFrame => simp
    · have hnot : ¬ camera.url = url := fun h => hurl h.symm
      rw [seen_see_ne hurl]
      cases (w.seen camera.url).getLast? with
      | none => simp
      | some lastFrame => simp [hnot]

theorem knows_firstFrame (hknows : g.Knows w) (firstFrame : Option Bytes) :
    { g with firstFrame := firstFrame }.Knows w :=
  ⟨hknows.tasks, hknows.loops, hknows.last, hknows.compared⟩

theorem knows_step {label : GuardianBehavior.Label} {event : Watch.Event} (hshares : g.Shares c)
    (hinv : c.crypto.Inverts) (hknows : g.Knows w) (hcarries : Carries c label event)
    (hlight : g.Light label) (hstep : g.step label = some g') :
    ∃ w', w.step event = some w' ∧ g'.Knows w' := by
  cases hcarries with
  | accept assignment =>
    obtain rfl := Option.some.inj hstep
    exact ⟨_, rfl, knows_accept hknows assignment⟩
  | nothing k =>
    rcases Option.map_eq_some_iff.mp hstep with ⟨loop, -, rfl⟩
    exact ⟨w, rfl, hknows⟩
  | @picture k j response hjpeg hj hanswer =>
    rcases Option.map_eq_some_iff.mp hstep with ⟨loop, hloop, rfl⟩
    have hfeed := hshares.feeds loop (List.mem_of_getElem? hloop)
    have hcamera : w.cameras[k]? = some (loop.1, loop.2.camera.url) := by
      rw [← hknows.loops, List.getElem?_map, hloop, Option.map_some]
    refine ⟨w.see loop.2.camera.url j, ?_, ?_⟩
    · rw [Watch.step, hcamera, Option.map_some]
    · rw [round_eq hshares.guardian hfeed hinv hjpeg hj hanswer, if_pos (hlight loop hloop)]
      exact knows_analyse (knows_firstFrame hknows _) loop.2.camera j

/-- Runs of the guardian are runs of the watch. -/
theorem knows_run {labels : List GuardianBehavior.Label} {events : List Watch.Event}
    (hinv : c.crypto.Inverts) (hcarries : List.Forall₂ (Carries c) labels events) :
    ∀ {g g' : GuardianBehavior} {w : Watch}, g.Shares c → g.Knows w →
      Transition.AtEach GuardianBehavior.step GuardianBehavior.Light g labels →
      Transition.run GuardianBehavior.step g labels = some g' →
      ∃ w', Transition.run Watch.step w events = some w' ∧ g'.Knows w' := by
  induction hcarries with
  | nil =>
    intro g g' w _ hknows _ hrun
    obtain rfl := Option.some.inj hrun
    exact ⟨w, rfl, hknows⟩
  | cons hcarries _ ih =>
    rintro g g' w hshares hknows ⟨hlight, hrest⟩ hrun
    rcases Transition.run_cons.mp hrun with ⟨g₁, hstep, hrun⟩
    rcases knows_step hshares hinv hknows hcarries hlight hstep with ⟨w₁, hw₁, hknows₁⟩
    rcases ih (shares_step _ hshares hstep) hknows₁ (hrest g₁ hstep) hrun with ⟨w', hw', hknows'⟩
    exact ⟨w', Transition.run_cons.mpr ⟨w₁, hw₁, hw'⟩, hknows'⟩

end

/-! ## A front door -/

/-- The assignment of a camera at a front door. -/
def frontDoor (mvRoute : MachineVisionRoute) : TaskAssignment where
  cameraUrl := "rtsp://10.0.0.7:554/"
  id := "front-door"
  ipAddress := "10.0.0.7"
  port := 554
  path := none
  snapshotUrl := none
  leaseDuration := leaseDuration
  mvRoute := mvRoute

/-- The answer to a request for its picture. -/
def frontDoorResponse : Option Bytes :=
  handleSnapshotRequest maskCipher (fun i => UInt8.ofNat i) (true, [0xFF, 0xD8]) []

/-- It is assigned to a guardian, which polls it once. -/
def frontDoorLabels (mvRoute : MachineVisionRoute) : List GuardianBehavior.Label :=
  [.accept (frontDoor mvRoute), .poll 0 frontDoorResponse]

/-- The guardian then. -/
def frontDoorGuardian (mvRoute : MachineVisionRoute) : Option GuardianBehavior :=
  Transition.run GuardianBehavior.step (.initial "http://localhost:5000" (some maskCipher))
    (frontDoorLabels mvRoute)

/-- On a heavy route the picture arrives, but the loop tries to decrypt it once more and drops
it: there is no last frame, and nothing to compare the next one with. -/
theorem guardian_misses :
    ∃ g, frontDoorGuardian .heavyPlain = some g ∧ g.firstFrame = some [0xFF, 0xD8] ∧
      g.lastFrames.lookup (frontDoor .heavyPlain).url = none ∧ g.compared = [] :=
  ⟨(frontDoorGuardian .heavyPlain).get (by decide +kernel), (Option.some_get _).symm,
    by decide +kernel, by decide +kernel, by decide +kernel⟩

/-- In every state that a guardian reaches, a round that is answered with a picture analyses
the picture if and only if the camera is on the light route; and while the cameras that
are polled are, the guardian knows what somebody who watches them has seen. -/
theorem guardian_sees (c : Cipher) (hinv : c.crypto.Inverts) (base : String)
    (labels : List GuardianBehavior.Label) (g : GuardianBehavior)
    (hrun : Transition.run GuardianBehavior.step (.initial base (some c)) labels = some g) :
    (∀ loop ∈ g.feedLoops, ∀ j response, IsJpeg j → j.length < 2 ^ 25 → AnswersWith c j response →
      (g.Analyses loop.2.camera j (g.broadPhaseRound loop.2 (some response)) ↔
        loop.2.camera.mvRoute = .lightPlain)) ∧
    ∀ events, List.Forall₂ (Carries c) labels events →
      Transition.AtEach GuardianBehavior.step GuardianBehavior.Light (.initial base (some c)) labels →
      ∃ w, Transition.run Watch.step .initial events = some w ∧ g.Knows w := by
  have hshares := shares_run hrun
  constructor
  · intro loop hloop j response hjpeg hj hanswer
    exact round_analyses_iff hshares.guardian (hshares.feeds loop hloop) hinv hjpeg hj hanswer
  · intro events hcarries hlight
    exact knows_run hinv hcarries shares_initial knows_initial hlight hrun

/-- What happened at the door. -/
def frontDoorEvents : List Watch.Event :=
  [.accept (frontDoor .lightPlain), .look 0 (some [0xFF, 0xD8])]

theorem frontDoor_carries :
    List.Forall₂ (Carries maskCipher) (frontDoorLabels .lightPlain) frontDoorEvents := by
  rcases Option.isSome_iff_exists.mp (by decide +kernel : frontDoorResponse.isSome = true) with
    ⟨response, hresponse⟩
  rw [frontDoorLabels, hresponse]
  refine .cons (.accept _) (.cons (.picture _ ⟨[], rfl⟩ (by decide) (Or.inr ?_)) .nil)
  exact ⟨_, _, _, rfl, hresponse⟩

theorem frontDoor_light :
    Transition.AtEach GuardianBehavior.step GuardianBehavior.Light
      (.initial "http://localhost:5000" (some maskCipher)) (frontDoorLabels .lightPlain) := by
  refine ⟨trivial, ?_⟩
  rintro g hstep
  obtain rfl := Option.some.inj hstep
  refine ⟨?_, fun _ _ => trivial⟩
  intro loop hloop
  have hroute : ((GuardianBehavior.initial "http://localhost:5000" (some maskCipher)).acceptAssignment
      (frontDoor .lightPlain)).feedLoops[0]?.map (fun loop => loop.2.camera.mvRoute) =
        some .lightPlain := by
    decide +kernel
  rw [hloop] at hroute
  exact Option.some.inj hroute

/-- On the light route the guardian has seen what somebody who watches the door has. -/
theorem guardian_sees_light :
    ∃ g, frontDoorGuardian .lightPlain = some g ∧
      g.lastFrames.lookup (frontDoor .lightPlain).url = some [0xFF, 0xD8] := by
  have hrun : frontDoorGuardian .lightPlain =
      some ((frontDoorGuardian .lightPlain).get (by decide +kernel)) := (Option.some_get _).symm
  rcases (guardian_sees maskCipher maskCrypto_inverts "http://localhost:5000"
      (frontDoorLabels .lightPlain) _ hrun).2 frontDoorEvents frontDoor_carries frontDoor_light with
    ⟨w, hw, hknows⟩
  refine ⟨_, hrun, (hknows.last _).trans ?_⟩
  have hseen : (Transition.run Watch.step .initial frontDoorEvents).map
      (fun w => (w.seen (frontDoor .lightPlain).url).getLast?) = some (some [0xFF, 0xD8]) := by
    decide +kernel
  rw [hw] at hseen
  exact Option.some.inj hseen

end ManagedSecurity
