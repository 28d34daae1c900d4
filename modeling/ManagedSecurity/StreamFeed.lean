import ManagedSecurity.Splicing
import ManagedSecurity.Lib.Channel
import ManagedSecurity.Lib.Transition

/-! # The frames of a decrypted stream (`DecryptedStreamFeedStrategy`)

Whoever reads the stream makes it decrypt frames; the handler of the strategy puts them into a
channel for two frames, from which the inference takes them at its own pace. Reads, calls of the
handler and of `GetNextFrameAsync` come in any order, but a read does not begin before the handler
has been called for all frames of the one in front.

* `read_appends`: a read adds to the frames that were decrypted, however it ends;
* `Inv.step`: what the inference has got and may still get;
* `stream_feed_in_order`: whole runs, over any inner stream.
-/

namespace ManagedSecurity

open Outcome Transition

/-! ## What a read decrypts -/

namespace ManagedSecurityStream

theorem tryReadNextFrame_appends (c : Cipher) : Appends framesDecrypted (tryReadNextFrame c) := by
  have hfill : ∀ {α : Type} (x : FillM α), Appends framesDecrypted (onFill x) :=
    fun x => appends_zoom fun _ _ => rfl
  refine appends_get fun s => ?_
  split_ifs with hend
  · exact appends_pure _
  refine appends_bind (hfill _) fun more => ?_
  split_ifs with hmore
  · exact appends_pure _
  refine appends_get fun s => appends_bind (hfill _) fun _ => ?_
  refine appends_get fun s => appends_bind appends_ofExcept fun h => ?_
  refine appends_bind (hfill _) fun _ => ?_
  have hdecrypt : Appends framesDecrypted (decryptFrameSync c h) :=
    appends_get fun s => appends_bind appends_ofExcept fun message =>
      appends_bind appends_ensure fun _ => appends_zoom fun _ _ => rfl
  have hvalidate : Appends framesDecrypted (validateFrameAndSetBuffer h) :=
    appends_get fun s => appends_bind appends_ofExcept fun sequence =>
      appends_bind appends_ensure fun _ => appends_bind appends_ensure fun _ =>
        appends_modify fun _ => List.prefix_append _ _
  exact appends_bind hdecrypt fun _ => appends_bind hvalidate fun _ => appends_pure _

theorem readLoop_appends (c : Cipher) (count : ℕ) :
    ∀ (fuel : ℕ) (out : Bytes),
      Appends framesDecrypted (readLoop (tryReadNextFrame c) count fuel out) := by
  intro fuel
  induction fuel with
  | zero =>
    intro out
    exact appends_throw _
  | succ fuel ih =>
    intro out
    rw [readLoop]
    by_cases hfull : out.length < count
    swap
    · rw [if_neg hfull]
      exact appends_pure _
    rw [if_pos hfull]
    refine appends_get fun s => ?_
    by_cases hbuffered : 0 < s.readBufferCount
    · rw [if_pos hbuffered]
      refine appends_bind appends_ofExcept fun piece => ?_
      exact appends_bind (appends_modify fun _ => List.prefix_rfl) fun _ => ih _
    · rw [if_neg hbuffered]
      refine appends_bind (tryReadNextFrame_appends c) fun more => ?_
      split_ifs with hnone hsome
      · exact appends_pure _
      · exact appends_pure _
      · exact ih out

theorem readProtocolHeader_appends : Appends framesDecrypted readProtocolHeader := by
  have harray : ∀ {α : Type} (x : InnerM α), Appends framesDecrypted (onInner x) :=
    fun x => appends_zoom fun _ _ => rfl
  refine appends_bind (harray _) fun masterData => appends_bind appends_ofExcept fun master => ?_
  refine appends_bind (appends_modify fun _ => List.prefix_rfl) fun _ => ?_
  refine appends_bind appends_ensure fun _ => appends_runIf ?_
  exact appends_bind (harray _) fun metadata => appends_modify fun _ => List.prefix_rfl

/-- A read, however it ends. -/
theorem read_appends (c : Cipher) (count : ℕ) : Appends framesDecrypted (read c count) := by
  refine appends_get fun s => appends_bind appends_ensure fun _ => ?_
  refine appends_bind (appends_runIf ?_) fun _ => appends_get fun s => readLoop_appends c count _ _
  exact appends_bind readProtocolHeader_appends fun _ => appends_modify fun _ => List.prefix_rfl

end ManagedSecurityStream

/-! ## The strategy -/

/-- A strategy. `hooked` is whether its handler is still there, `announced` for how many of the
frames handlers have been called, and `frames` what `GetNextFrameAsync` has returned. -/
structure DecryptedStreamFeedStrategy where
  sourceStream : ManagedSecurityStream
  frameChannel : Channel Bytes
  hooked : Bool
  announced : ℕ
  frames : List Bytes

namespace DecryptedStreamFeedStrategy

/-- The constructor. -/
def create (sourceStream : ManagedSecurityStream) : DecryptedStreamFeedStrategy :=
  ⟨sourceStream, .createBounded 2, true, sourceStream.framesDecrypted.length, []⟩

/-- `HandleFrameDecrypted`. -/
def handleFrameDecrypted (f : DecryptedStreamFeedStrategy) (frameData : Bytes) :
    DecryptedStreamFeedStrategy :=
  { f with frameChannel := f.frameChannel.tryWrite frameData }

/-- `GetNextFrameAsync`: without a frame it waits until it is cancelled or the channel is closed,
and returns nothing. -/
def getNextFrame (f : DecryptedStreamFeedStrategy) : Option Bytes × DecryptedStreamFeedStrategy :=
  match f.frameChannel.tryRead with
  | none => (none, f)
  | some (buffer, channel) => (some buffer, { f with frameChannel := channel })

/-- `Dispose`. -/
def dispose (f : DecryptedStreamFeedStrategy) : DecryptedStreamFeedStrategy :=
  { f with hooked := false, frameChannel := f.frameChannel.complete }

/-- What can happen: somebody reads the stream, a frame that was decrypted is announced, the
inference asks for a frame, or the strategy is disposed of. -/
inductive Event where
  | read (count : ℕ)
  | frameDecrypted
  | getNextFrame
  | dispose
deriving DecidableEq, Repr

/-- The handlers are called for one more frame. -/
def announce (f : DecryptedStreamFeedStrategy) (frameData : Bytes) : DecryptedStreamFeedStrategy :=
  if f.hooked then
    { f.handleFrameDecrypted frameData with announced := f.announced + 1 }
  else
    { f with announced := f.announced + 1 }

/-- One step. -/
def step (c : Cipher) (f : DecryptedStreamFeedStrategy) : Event → Option DecryptedStreamFeedStrategy
  | .read count =>
    if f.announced = f.sourceStream.framesDecrypted.length then
      some { f with sourceStream := finalState (ManagedSecurityStream.read c count f.sourceStream) }
    else
      none
  | .frameDecrypted => f.sourceStream.framesDecrypted[f.announced]?.map f.announce
  | .getNextFrame =>
    some { f.getNextFrame.2 with frames := f.frames ++ f.getNextFrame.1.toList }
  | .dispose => some f.dispose

/-! ## What the inference gets -/

/-- The frames of a stream from number `start` to `n`. -/
def framesFrom (s : ManagedSecurityStream) (start n : ℕ) : List Bytes :=
  (s.framesDecrypted.take n).drop start

/-- What a strategy that was built behind `start` frames has written to its channel: the frames up
to now, or up to the one in front of which it was disposed of. -/
structure Inv (start : ℕ) (f : DecryptedStreamFeedStrategy) : Prop where
  announced_le : f.announced ≤ f.sourceStream.framesDecrypted.length
  capacity : f.frameChannel.capacity = 2
  opened : f.hooked = true → f.frameChannel.completed = false
  carries : ∃ n, start ≤ n ∧ n ≤ f.announced ∧ (f.hooked = true → n = f.announced) ∧
    f.frameChannel.Carries (framesFrom f.sourceStream start n) f.frames

/-- When a frame is announced, there is room for it. -/
def Room (f : DecryptedStreamFeedStrategy) (event : Event) : Prop :=
  event = .frameDecrypted → f.hooked = true ∧ f.frameChannel.items.length < 2

instance (f : DecryptedStreamFeedStrategy) (event : Event) : Decidable (f.Room event) :=
  inferInstanceAs (Decidable (_ → _))

/-- Nothing has been lost. -/
def Complete (start : ℕ) (f : DecryptedStreamFeedStrategy) : Prop :=
  f.frameChannel.Keeps (framesFrom f.sourceStream start f.announced) f.frames

section

variable {c : Cipher} {s s' : ManagedSecurityStream} {f g : DecryptedStreamFeedStrategy}
  {frameData : Bytes} {event : Event} {start n : ℕ}

/-- The frames in front are the same after a read. -/
theorem framesFrom_grows (hgrows : s.framesDecrypted <+: s'.framesDecrypted)
    (hn : n ≤ s.framesDecrypted.length) : framesFrom s' start n = framesFrom s start n := by
  rcases hgrows with ⟨more, hmore⟩
  rw [framesFrom, framesFrom, ← hmore, List.take_append_of_le_length hn]

/-- One more frame. -/
theorem framesFrom_succ (hget : s.framesDecrypted[n]? = some frameData) (hstart : start ≤ n) :
    framesFrom s start (n + 1) = framesFrom s start n ++ [frameData] := by
  have hlt := (List.getElem?_eq_some_iff.mp hget).1
  have hlength : start ≤ (s.framesDecrypted.take n).length := by
    rw [List.length_take]
    omega
  rw [framesFrom, framesFrom, List.take_add_one, hget, Option.toList_some,
    List.drop_append_of_le_length hlength]

theorem read_grows (c : Cipher) (count : ℕ) (s : ManagedSecurityStream) :
    s.framesDecrypted <+: (finalState (ManagedSecurityStream.read c count s)).framesDecrypted := by
  have hread := (ManagedSecurityStream.read_appends c count).sat s
  cases hrun : ManagedSecurityStream.read c count s with
  | ok bytes s' => exact hread.of_ok hrun
  | error e s' => exact hread.of_error hrun

/-- A request takes the frame that has waited longest, or finds none. -/
theorem getNextFrame_cases (f : DecryptedStreamFeedStrategy) :
    f.getNextFrame = (none, f) ∨ ∃ buffer channel, f.frameChannel.tryRead = some (buffer, channel) ∧
      f.getNextFrame = (some buffer, { f with frameChannel := channel }) := by
  unfold getNextFrame
  cases hread : f.frameChannel.tryRead with
  | none => exact Or.inl rfl
  | some pair => exact Or.inr ⟨pair.1, pair.2, rfl, rfl⟩

theorem inv_create (s : ManagedSecurityStream) : (create s).Inv s.framesDecrypted.length := by
  refine ⟨le_rfl, rfl, fun _ => rfl, s.framesDecrypted.length, le_rfl, le_rfl, fun _ => rfl, ?_⟩
  have hnone : framesFrom s s.framesDecrypted.length s.framesDecrypted.length = [] := by
    rw [framesFrom, List.take_length, List.drop_length]
  show (Channel.createBounded 2).Carries (framesFrom s _ _) []
  rw [hnone]
  exact Channel.carries_createBounded 2

theorem complete_create (s : ManagedSecurityStream) : (create s).Complete s.framesDecrypted.length := by
  show [] = framesFrom s s.framesDecrypted.length s.framesDecrypted.length
  rw [framesFrom, List.take_length, List.drop_length]

theorem Inv.step (h : f.Inv start) (hstep : f.step c event = some g) : g.Inv start := by
  obtain ⟨n, hstart, hn, hhooked, hcarries⟩ := h.carries
  cases event with
  | read count =>
    simp only [DecryptedStreamFeedStrategy.step] at hstep
    split_ifs at hstep with hall
    obtain rfl := Option.some.inj hstep
    have hgrows := read_grows c count f.sourceStream
    refine ⟨h.announced_le.trans hgrows.length_le, h.capacity, h.opened, n, hstart, hn, hhooked, ?_⟩
    show f.frameChannel.Carries (framesFrom (finalState _) start n) f.frames
    rw [framesFrom_grows hgrows (hn.trans h.announced_le)]
    exact hcarries
  | frameDecrypted =>
    rcases Option.map_eq_some_iff.mp hstep with ⟨frameData, hget, rfl⟩
    have hlt := (List.getElem?_eq_some_iff.mp hget).1
    unfold announce
    split_ifs with hhook
    · obtain rfl := hhooked hhook
      have hopen := h.opened hhook
      refine ⟨hlt, ?_, ?_, f.announced + 1, hstart.trans (Nat.le_succ _), le_rfl, fun _ => rfl, ?_⟩
      · exact Channel.capacity_tryWrite.trans h.capacity
      · intro _
        exact Channel.completed_tryWrite.trans hopen
      · show (f.frameChannel.tryWrite frameData).Carries (framesFrom f.sourceStream start _) f.frames
        rw [framesFrom_succ hget hstart]
        exact hcarries.tryWrite hopen (h.capacity ▸ Nat.zero_lt_two) frameData
    · -- nobody listens any more
      exact ⟨hlt, h.capacity, h.opened, n, hstart, hn.trans (Nat.le_succ _),
        fun hagain => absurd hagain hhook, hcarries⟩
  | getNextFrame =>
    obtain rfl := Option.some.inj hstep
    rcases f.getNextFrame_cases with hnext | ⟨buffer, channel, hread, hnext⟩
    · rw [hnext]
      refine ⟨h.announced_le, h.capacity, h.opened, n, hstart, hn, hhooked, ?_⟩
      show f.frameChannel.Carries _ (f.frames ++ [])
      rw [List.append_nil]
      exact hcarries
    · rw [hnext]
      obtain ⟨-, hcapacity, hcompleted⟩ := Channel.tryRead_eq_some hread
      exact ⟨h.announced_le, hcapacity.trans h.capacity, fun hhook => hcompleted.trans (h.opened hhook),
        n, hstart, hn, hhooked, hcarries.tryRead hread⟩
  | dispose =>
    obtain rfl := Option.some.inj hstep
    exact ⟨h.announced_le, h.capacity, fun hhook => absurd hhook Bool.false_ne_true, n, hstart, hn,
      fun hhook => absurd hhook Bool.false_ne_true, hcarries.bounded, hcarries.latest, hcarries.inOrder⟩

/-- With room for every frame nothing is lost. -/
theorem Complete.step (h : f.Complete start) (hinv : f.Inv start) (hroom : f.Room event)
    (hstep : f.step c event = some g) : g.Complete start := by
  obtain ⟨n, hstart, hn, -, -⟩ := hinv.carries
  cases event with
  | read count =>
    simp only [DecryptedStreamFeedStrategy.step] at hstep
    split_ifs at hstep with hall
    obtain rfl := Option.some.inj hstep
    show f.frameChannel.Keeps (framesFrom (finalState _) start f.announced) f.frames
    rw [framesFrom_grows (read_grows c count f.sourceStream) hinv.announced_le]
    exact h
  | frameDecrypted =>
    rcases Option.map_eq_some_iff.mp hstep with ⟨frameData, hget, rfl⟩
    rcases hroom rfl with ⟨hhook, hfree⟩
    unfold announce
    rw [if_pos hhook]
    show (f.frameChannel.tryWrite frameData).Keeps (framesFrom f.sourceStream start _) f.frames
    rw [framesFrom_succ hget (hstart.trans hn)]
    exact Channel.Keeps.tryWrite h (hinv.opened hhook) (hinv.capacity ▸ hfree) frameData
  | getNextFrame =>
    obtain rfl := Option.some.inj hstep
    rcases f.getNextFrame_cases with hnext | ⟨buffer, channel, hread, hnext⟩
    · rw [hnext]
      show f.frameChannel.Keeps _ (f.frames ++ [])
      rw [List.append_nil]
      exact h
    · rw [hnext]
      exact Channel.Keeps.tryRead h hread
  | dispose =>
    obtain rfl := Option.some.inj hstep
    exact h

/-- Nothing but a read touches the stream. -/
theorem step_sourceStream (hstep : f.step c event = some g) :
    g.sourceStream = f.sourceStream ∨
      ∃ count, g.sourceStream = finalState (ManagedSecurityStream.read c count f.sourceStream) := by
  cases event with
  | read count =>
    simp only [DecryptedStreamFeedStrategy.step] at hstep
    split_ifs at hstep with hall
    obtain rfl := Option.some.inj hstep
    exact Or.inr ⟨count, rfl⟩
  | frameDecrypted =>
    left
    rcases Option.map_eq_some_iff.mp hstep with ⟨frameData, -, rfl⟩
    unfold announce
    split_ifs with hhook
    · rfl
    · rfl
  | getNextFrame =>
    left
    obtain rfl := Option.some.inj hstep
    rcases f.getNextFrame_cases with hnext | ⟨buffer, channel, -, hnext⟩
    · rw [hnext]
    · rw [hnext]
  | dispose =>
    obtain rfl := Option.some.inj hstep
    exact Or.inl rfl

/-- What the stream accepts is offered to it, whoever listens. -/
theorem accepting_step {log : List GcmCall} {offers : ℕ → Bytes → Prop}
    (hideal : c.crypto.IdealFor c.providedKeys log) (hoffers : ManagedSecurityStream.Offers log offers)
    (h : ∃ out, f.sourceStream.Accepting offers out) (hstep : f.step c event = some g) :
    ∃ out, g.sourceStream.Accepting offers out := by
  rcases step_sourceStream hstep with hsame | ⟨count, hread⟩
  · rw [hsame]
    exact h
  · rcases h with ⟨out, hout⟩
    have hsat := ManagedSecurityStream.read_sat hideal hoffers hout count
    rw [hread]
    cases hrun : ManagedSecurityStream.read c count f.sourceStream with
    | ok bytes s' => exact ⟨_, hsat.of_ok hrun⟩
    | error e s' => exact hsat.of_error hrun

end

/-! ## Runs -/

/-- A run of a writer that counts from 0, with nothing else encrypted under the keys of the
provider, and a reader of any inner stream that has made some reads when a strategy is built for
it. In every run behind that, with what the inference has got and what waits for it in front of
each other, they are frames of the writer in their order, none of them twice. Never more than two
frames wait, and until `Dispose` they are the latest ones; with room for each frame, none is lost. -/
theorem stream_feed_in_order (A : Archiver) (w : ManagedSecurityStream) (hran : A.Ran w)
    (hfirst : A.first = 0) (hcount : w.gcmCalls.length < 2 ^ 64)
    (hideal : A.cipher.crypto.IdealFor A.cipher.providedKeys w.gcmCalls) (source : InnerStream)
    (args : StreamArguments) (s s₁ : ManagedSecurityStream)
    (hreader : ManagedSecurityStream.create source .decrypt args = .ok s)
    (hfirst' : args.initialSequence = 0) (sizes : List ℕ)
    (hs₁ : s₁ = (attempts (ManagedSecurityStream.read A.cipher) sizes s).2) (events : List Event)
    (f : DecryptedStreamFeedStrategy) (hrun : run (step A.cipher) (create s₁) events = some f) :
    (f.frames ++ f.frameChannel.items).Sublist w.framed ∧ f.frameChannel.items.length ≤ 2 ∧
      (f.hooked = true →
        f.frameChannel.items <:+ f.sourceStream.framesDecrypted.take f.announced) ∧
      (AtEach (step A.cipher) Room (create s₁) events →
        f.frames ++ f.frameChannel.items =
          framesFrom f.sourceStream s₁.framesDecrypted.length f.announced) := by
  let offers : ℕ → Bytes → Prop := fun k p => w.framed[k]? = some p
  have hoffers : ManagedSecurityStream.Offers w.gcmCalls offers := by
    obtain ⟨payloads, hcalls, -⟩ := hran.calls
    have hnum : Numbered w.gcmCalls := hcalls ▸ Sealer.numbered hfirst payloads
    exact ManagedSecurityStream.offers_of_numbered hnum hcount
  -- the reader when the strategy is built
  have hinitial : s.Accepting offers [] := by
    rcases create_inv hreader with ⟨size, -, -, rfl⟩
    refine ⟨?_, hfirst', rfl⟩
    intro i p hget
    cases hget
  have hbuilt : ∃ out, s₁.Accepting offers out := by
    rw [hs₁]
    refine attempts_invariant (I := fun s => ∃ out, s.Accepting offers out) ?_ sizes s ⟨[], hinitial⟩
    rintro count s ⟨out, hs⟩
    refine (ManagedSecurityStream.read_sat hideal hoffers hs count).mono ?_ (fun _ _ h => h)
    intro bytes _ h
    exact ⟨out ++ bytes, h⟩
  -- the run
  have hinv : f.Inv s₁.framesDecrypted.length :=
    run_invariant (fun _ _ _ h hstep => Inv.step h hstep) events _ f (inv_create s₁) hrun
  have haccepting : ∃ out, f.sourceStream.Accepting offers out :=
    run_invariant (I := fun f : DecryptedStreamFeedStrategy => ∃ out, f.sourceStream.Accepting offers out)
      (fun _ _ _ h hstep => accepting_step hideal hoffers h hstep) events _ f hbuilt hrun
  obtain ⟨out, hout⟩ := haccepting
  obtain ⟨n, -, -, hhooked, hcarries⟩ := hinv.carries
  have hprefix : f.sourceStream.framesDecrypted <+: w.framed :=
    List.prefix_iff_getElem?.mpr fun i hi => hout.accepted i _ (List.getElem?_eq_getElem hi)
  refine ⟨?_, hinv.capacity ▸ hcarries.bounded, ?_, ?_⟩
  · have hdecrypted := (List.drop_sublist s₁.framesDecrypted.length _).trans
      (List.take_sublist n f.sourceStream.framesDecrypted)
    exact hcarries.inOrder.trans (hdecrypted.trans hprefix.sublist)
  · intro hhook
    obtain rfl := hhooked hhook
    exact hcarries.latest.trans (List.drop_suffix _ _)
  · intro hroom
    have hboth := run_invariant_of (P := Room)
      (I := fun f => f.Complete s₁.framesDecrypted.length ∧ f.Inv s₁.framesDecrypted.length)
      (fun _ _ _ h hfree hstep => ⟨h.1.step h.2 hfree hstep, h.2.step hstep⟩) events _ f
      ⟨complete_create s₁, inv_create s₁⟩ hroom hrun
    exact hboth.1

/-- The writer of the examples, when it has encrypted four frames. -/
def fourFrames : Bytes := [1, 2, 3, 4, 5, 6, 7, 8, 9, 10, 11, 12, 13]

/-- Its log. -/
def fourLog : List GcmCall := (maskTabled []).calls ((maskTabled []).payloads [.write fourFrames])

/-- The header and the frames, with the first frame sent again at the end. -/
def fourArchive : Bytes :=
  ((maskTabled []).head 0 :: fourLog.map maskCipher.frameOf ++
    [(maskTabled []).frame 0 [1, 2, 3, 4]]).flatten

/-- Three frames are decrypted before the inference asks for one, and the frame that is sent again
is refused. -/
def fourEvents : List Event :=
  [.read 4, .frameDecrypted, .read 4, .frameDecrypted, .read 4, .frameDecrypted, .getNextFrame,
    .read 4, .frameDecrypted, .read 4, .getNextFrame]

theorem stream_feed_in_order_fourFrames :
    ∃ w s f, (maskTabled fourLog).Ran w ∧
      ManagedSecurityStream.create (.source fourArchive 0) .decrypt { chunkSize := 4, keyIndex := 5 } =
        .ok s ∧
      run (step (maskTabled fourLog).cipher) (create s) fourEvents = some f ∧
      f.frames = [[5, 6, 7, 8], [9, 10, 11, 12]] ∧
      (f.frames ++ f.frameChannel.items).Sublist w.framed := by
  obtain ⟨w, hw, hcalls⟩ := ran_write (maskTabled fourLog) rfl fourFrames
  have hcount : w.gcmCalls.length < 2 ^ 64 := by
    rw [hcalls]
    decide
  have hideal : (maskTabled fourLog).cipher.crypto.IdealFor (maskTabled fourLog).cipher.providedKeys
      w.gcmCalls := by
    rw [hcalls]
    exact tableCrypto_ideal _ _ _
  have hreads : returns
      (fun s => (run (step (maskTabled fourLog).cipher) (create s) fourEvents).any
        fun f => decide (f.frames = [[5, 6, 7, 8], [9, 10, 11, 12]]))
      (ManagedSecurityStream.create (.source fourArchive 0) .decrypt
        { chunkSize := 4, keyIndex := 5 }) = true := by
    decide +kernel
  rcases of_returns hreads with ⟨s, hs, hany⟩
  rcases (Option.any_eq_true_iff_get _ _).mp hany with ⟨hsome, hframes⟩
  have hrun : run (step (maskTabled fourLog).cipher) (create s) fourEvents =
      some (Option.get _ hsome) := (Option.some_get hsome).symm
  refine ⟨w, s, _, hw, hs, hrun, of_decide_eq_true hframes, ?_⟩
  exact (stream_feed_in_order (maskTabled fourLog) w hw rfl hcount hideal _ _ s s hs rfl [] rfl
    fourEvents _ hrun).1

end DecryptedStreamFeedStrategy

end ManagedSecurity
