import ManagedSecurity.ArchiveReading

/-! # Reading archives that are damaged

A frame that cannot be read makes `Read` throw. The frame is fetched as soon as
the one before it is used up within a call, and what that call has copied is then
not returned.

* `unreadable_of_truncation`: a truncation inside a frame makes it unreadable;
* `reads_before_damage`: for which read sizes the calls before the first
  exception return all the payloads in front of the damage.
-/

namespace ManagedSecurity

open Bytes Outcome ManagedSecurityStream

/-- Every reader in this setting that stands at `position` with this sequence
number throws when it tries to fetch a frame. -/
def Unreadable (c : Cipher) (E : Setting) (position : ℕ) (sequence : UInt64) : Prop :=
  ∀ s, E.Holds s → s.innerStream.position = position → s.sequenceNumber = sequence →
    ∃ e s', tryReadNextFrame c s = .error e s'

section

variable {S : Sealer} {E : Setting} {tail : Bytes} {s : ManagedSecurityStream} {i : ℕ}
  {f : Feed UInt8}

/-- The position of a reader is given by what is in front of it. -/
theorem Sealer.Reads.position (h : S.Reads E tail s f i) :
    s.innerStream.position + ((S.frames i f.left).length + tail.length) = E.data.length := by
  have hlen := congrArg List.length h.rest
  rw [InnerStream.rest, List.length_drop, List.length_append, h.data] at hlen
  have hinside := h.inside
  omega

theorem Setting.Holds.not_atSeekTable (h : E.Holds s)
    (hcut : E.seekTableOffset = 0 ∨ s.innerStream.position < E.seekTableOffset.toNat) :
    ¬ s.atSeekTable := by
  rintro ⟨hpos, -, hge⟩
  rw [h.seekTableOffset] at hpos hge
  rcases hcut with hzero | hlt
  · rw [hzero] at hpos
    exact absurd hpos (UInt64.lt_irrefl 0)
  · have hbound := E.seekTableOffset.toNat_lt
    rw [ge_iff_le, UInt64.le_iff_toNat_le, UInt64.toNat_ofNat', Nat.mod_eq_of_lt (by omega)] at hge
    omega

end

section

variable {A : Archiver} {E : Setting} {payloads : List Bytes} {k : ℕ} {p : Bytes}

/-- A frame of which some but not all bytes are there cannot be read. -/
theorem unreadable_of_truncation (c : Cipher) (hp : payloads[k]? = some p) (hL : p.length < 2 ^ 25)
    {n : ℕ} {off : UInt64} {rest : Bytes} (hlo : A.frameStart payloads k < n)
    (hhi : n < A.frameStart payloads (k + 1))
    (hdata : E.data = (A.head off ++ (A.frames 0 payloads ++ rest)).take n)
    (hcut : E.seekTableOffset = 0 ∨ A.frameStart payloads k < E.seekTableOffset.toNat)
    (sequence : UInt64) : Unreadable c E (A.frameStart payloads k) sequence := by
  intro s hholds hpos _
  rw [Archiver.frameStart_succ hp] at hhi
  have hrest : s.innerStream.rest = (A.frame k p).take (n - A.frameStart payloads k) := by
    rw [InnerStream.rest, hholds.data, hpos, hdata, List.drop_take, A.drop_frameStart hp,
      List.take_append_of_le_length (by omega)]
  have hlen : s.innerStream.rest.length = n - A.frameStart payloads k := by
    rw [hrest, List.length_take]
    omega
  refine tryReadNextFrame_broken (S := A.toSealer) (i := k) (p := p) c hholds.opened
    (hholds.not_atSeekTable (by rw [hpos]; exact hcut)) hL ?_ ?_ (Or.inl (by omega))
  · intro hnil
    rw [hnil, List.length_nil] at hlen
    omega
  · rw [hlen, hrest, List.take_of_length_le (by rw [List.length_take]; omega)]

/-- A reader in front of a frame that does not fit its buffer. -/
theorem fetches_tooLarge (hinv : A.cipher.crypto.Inverts) {rest : Bytes} {ps : List Bytes}
    (hL : p.length < 2 ^ 25) (hbig : E.bufferLength < (A.frame ps.length p).length)
    {off : UInt64} (hdata : E.data = A.head off ++ (A.frames 0 ps ++ (A.frame ps.length p ++ rest)))
    (hcut : E.seekTableOffset = 0 ∨
      (A.head off ++ A.frames 0 ps).length < E.seekTableOffset.toNat) :
    Fetches A.toSealer E (A.frame ps.length p ++ rest) false (tryReadNextFrame A.cipher) where
  fetch := fetches_frame hinv
  stop := by
    intro s i h
    rw [if_neg Bool.noConfusion]
    have hrest : s.innerStream.rest = A.frame ps.length p ++ rest := h.rest
    have hpos : s.innerStream.position = (A.head off ++ A.frames 0 ps).length := by
      have hposition := h.position
      rw [hdata] at hposition
      simp only [List.length_append] at hposition ⊢
      show s.innerStream.position = _
      have hnil : (A.frames i []).length = 0 := rfl
      omega
    refine tryReadNextFrame_broken (S := A.toSealer) (i := ps.length) (p := p) A.cipher h.opened
      (h.toHolds.not_atSeekTable (by rw [hpos]; exact hcut)) hL ?_ ?_ (Or.inr (by rw [h.buffer]; exact hbig))
    · intro hnil
      rw [hrest] at hnil
      have hframe := Sealer.length_frame A.toSealer ps.length p
      rw [(List.append_eq_nil_iff.mp hnil).1, List.length_nil, overhead] at hframe
      omega
    · rw [hrest, List.take_left, List.length_append, List.take_of_length_le (by omega)]

/-- A reader in front of a frame that cannot be read. -/
theorem fetches_unreadable (hinv : A.cipher.crypto.Inverts) {position : ℕ} {tail : Bytes}
    (hun : Unreadable A.cipher E position (A.sequence E.frames))
    (hpos : position + tail.length = E.data.length) :
    Fetches A.toSealer E tail false (tryReadNextFrame A.cipher) where
  fetch := fetches_frame hinv
  stop := by
    intro s i h
    rw [if_neg Bool.noConfusion]
    have hindex : i = E.frames := h.index
    refine hun s h.toHolds ?_ ?_
    · have hposition := h.position
      have hnil : (A.frames i []).length = 0 := rfl
      have hleft : (A.frames i (⟨[], []⟩ : Feed UInt8).left).length = 0 := rfl
      omega
    · rw [h.sequence, hindex]

end

/-! ## Reads in front of the damage -/

/-- Either all elements pass, or there is a first that does not. -/
theorem exists_first_failing {α : Type} (P : α → Prop) (xs : List α) :
    (∀ x ∈ xs, P x) ∨ ∃ ys x zs, xs = ys ++ x :: zs ∧ (∀ y ∈ ys, P y) ∧ ¬ P x := by
  induction xs with
  | nil =>
    left
    intro x hx
    cases hx
  | cons x xs ih =>
    by_cases hx : P x
    · rcases ih with hall | ⟨ys, y, zs, rfl, hys, hy⟩
      · left
        intro y hy
        rcases List.mem_cons.mp hy with rfl | hy
        · exact hx
        · exact hall y hy
      · right
        refine ⟨x :: ys, y, zs, rfl, ?_, hy⟩
        intro z hz
        rcases List.mem_cons.mp hz with rfl | hz
        · exact hx
        · exact hys z hz
    · exact Or.inr ⟨[], x, xs, rfl, fun y hy => (List.not_mem_nil hy).elim, hx⟩

/-- A fresh reader in front of the frames of `ps`, all of which it can read: it
answers until it comes to what follows them, where it throws. -/
theorem reads_until_failure {A : Archiver} {inner : InnerStream} {args : StreamArguments}
    {s : ManagedSecurityStream} {sizes : ℕ → ℕ} {off : UInt64} {ps : List Bytes} {tail : Bytes}
    (hreader : create inner .decrypt args = .ok s) (hopen : inner.closed = false)
    (hpos : inner.position = 0) (hm : (A.metadata.getD []).length ≤ 65535)
    (hskip : args.skipMasterHeader = false) (hseq : args.initialSequence = A.first)
    (hdata : inner.data = A.head off ++ (A.frames 0 ps ++ tail))
    (hsmall : ∀ p ∈ ps, p.length < 2 ^ 25) (hne : ∀ p ∈ ps, p ≠ [])
    (hfits : ∀ p ∈ ps, overhead p.length A.keyIndex + p.length ≤ s.buffer.length)
    (hbefore : off = 0 ∨ (A.head off ++ A.frames 0 ps).length < off.toNat)
    (hfetches : Fetches A.toSealer (A.setting inner args s off ps.length) tail false
      (tryReadNextFrame A.cipher))
    (hsizes : ∀ j, 0 < sizes j) : Feed.BreaksWithin (read A.cipher) sizes s ⟨[], ps⟩ := by
  have hcut : off = 0 ∨ inner.seekable = false ∨
      (A.head 0 ++ A.frames 0 ps).length ≤ off.toNat := by
    refine hbefore.imp_right (fun hlt => Or.inr ?_)
    rw [List.length_append] at hlt ⊢
    rw [A.length_head_eq 0 off]
    omega
  obtain ⟨s₁, hsame, hreads⟩ := reads_after_header hreader hopen hpos hdata hm hskip hseq
    (fun p hp => ⟨hsmall p hp, hfits p hp⟩) hcut
  have hserves := read_serves hfetches.reading
  -- the first read also takes the header, then the frames are served as before
  have hserved : Feed.ServedAs false
      (fun t f => ∃ i, A.Reads (A.setting inner args s off ps.length) tail t f i)
      (read A.cipher) s ⟨[], ps⟩ := by
    intro count hcount
    rw [hsame]
    exact hserves s₁ ⟨[], ps⟩ ⟨0, hreads⟩ count hcount
  exact Feed.ServedAs.breaks hserves _ ⟨[], ps⟩ s sizes le_rfl hsizes hne hserved

/-- Bytes that are those of an archive in front of frame `k` begin with its header and
these frames. -/
theorem Archiver.intact_front (A : Archiver) {payloads : List Bytes} {off : UInt64} {data table : Bytes}
    {k : ℕ} (hk : k ≤ payloads.length)
    (hintact : data.take (A.frameStart payloads k) =
      (A.head off ++ (A.frames 0 payloads ++ table)).take (A.frameStart payloads k)) :
    data = A.head off ++ (A.frames 0 (payloads.take k) ++ data.drop (A.frameStart payloads k)) := by
  have hfront : data.take (A.frameStart payloads k) = A.head off ++ A.frames 0 (payloads.take k) := by
    rw [hintact, A.frames_take_drop payloads hk, List.append_assoc, ← List.append_assoc,
      List.take_left' (A.length_front payloads off k)]
  conv_lhs => rw [← List.take_append_drop (A.frameStart payloads k) data]
  rw [hfront, List.append_assoc]

/-- Such bytes announce the table of the archive, if there is one, behind frame `k`. -/
theorem Archiver.damaged_form (A : Archiver) {calls : List WriteCall}
    (hlong : (A.archive (A.run .initial calls)).length < 2 ^ 63) {k : ℕ}
    (hk : k < (A.payloads calls).length) {data : Bytes}
    (hintact : data.take (A.frameStart (A.payloads calls) k) =
      (A.archive (A.run .initial calls)).take (A.frameStart (A.payloads calls) k))
    {master : MasterHeader} (hparse : MasterHeader.parse (data.take MasterHeader.fixedSize) = .ok master) :
    data = A.head master.seekTableOffset ++ (A.frames 0 ((A.payloads calls).take k) ++
        data.drop (A.frameStart (A.payloads calls) k)) ∧
      (master.seekTableOffset = 0 ∨
        A.frameStart (A.payloads calls) k < master.seekTableOffset.toNat) := by
  set P := A.payloads calls with hP
  rcases A.archive_eq (A.run .initial calls) hlong with ⟨off, table, harchive, hcase⟩
  have hform : A.archive (A.run .initial calls) = A.head off ++ (A.frames 0 P ++ table) := harchive
  have hdata := A.intact_front hk.le (hintact.trans (congrArg _ hform))
  have hoff : master.seekTableOffset = off := by
    have hmaster := A.parse_head off (A.frames 0 (P.take k) ++ data.drop (A.frameStart P k))
    rw [← hdata] at hmaster
    rw [← Except.ok.inj (hmaster.symm.trans hparse)]
  rw [hoff]
  refine ⟨hdata, ?_⟩
  rcases hcase with ⟨hzero, -, -⟩ | ⟨hnat, -, -⟩
  · exact Or.inl hzero
  · right
    have hlt := A.frameStart_le P 0 [] k hk.le
    rw [hnat]
    simp only [List.append_nil] at hlt
    show A.frameStart P k < (A.head 0 ++ A.frames 0 P).length
    omega

/-- A frame that does not fit the buffer ends the reads, and its payload is not returned. -/
theorem reads_until_tooLarge {A : Archiver} {inner : InnerStream} {args : StreamArguments}
    {s : ManagedSecurityStream} {sizes : ℕ → ℕ} {off : UInt64} {ps qs : List Bytes} {p tail : Bytes}
    (hinv : A.cipher.crypto.Inverts)
    (hreader : create inner .decrypt args = .ok s) (hopen : inner.closed = false)
    (hpos : inner.position = 0) (hm : (A.metadata.getD []).length ≤ 65535)
    (hskip : args.skipMasterHeader = false) (hseq : args.initialSequence = A.first)
    (hdata : inner.data = A.head off ++ (A.frames 0 (ps ++ p :: qs) ++ tail))
    (hsmall : ∀ q ∈ ps ++ p :: qs, q.length < 2 ^ 25) (hne : ∀ q ∈ ps ++ p :: qs, q ≠ [])
    (hfits : ∀ q ∈ ps, overhead q.length A.keyIndex + q.length ≤ s.buffer.length)
    (hbig : ¬ overhead p.length A.keyIndex + p.length ≤ s.buffer.length)
    (hbefore : off = 0 ∨ (A.head off ++ A.frames 0 (ps ++ p :: qs)).length < off.toNat)
    (hsizes : ∀ j, 0 < sizes j) :
    ∃ outs, Feed.Breaks (read A.cipher) sizes s outs ∧
      outs.flatten ≠ (ps ++ p :: qs).flatten := by
  have hmem : ∀ q ∈ ps, q ∈ ps ++ p :: qs := fun q hq => List.mem_append_left _ hq
  have hp : p ∈ ps ++ p :: qs := List.mem_append_right _ List.mem_cons_self
  have hframes : A.frames 0 (ps ++ p :: qs) =
      A.frames 0 ps ++ (A.frame ps.length p ++ A.frames (ps.length + 1) qs) := by
    rw [Sealer.frames_append, Nat.zero_add]
    rfl
  have hdata' : inner.data = A.head off ++ (A.frames 0 ps ++
      (A.frame ps.length p ++ (A.frames (ps.length + 1) qs ++ tail))) := by
    rw [hdata, hframes]
    simp only [List.append_assoc]
  have hle : (A.head off ++ A.frames 0 ps).length ≤
      (A.head off ++ A.frames 0 (ps ++ p :: qs)).length := by
    rw [hframes]
    simp only [List.length_append]
    omega
  have hbefore' := hbefore.imp_right (fun hlt => lt_of_le_of_lt hle hlt)
  have hbig' : s.buffer.length < (A.frame ps.length p).length := by
    rw [Sealer.length_frame]
    omega
  obtain ⟨outs, hbreaks, hpre, -⟩ := reads_until_failure hreader hopen hpos hm hskip hseq hdata'
    (fun q hq => hsmall q (hmem q hq)) (fun q hq => hne q (hmem q hq)) hfits hbefore'
    (fetches_tooLarge hinv (hsmall p hp) hbig' hdata' hbefore') hsizes
  replace hpre : outs.flatten <+: ps.flatten := hpre
  refine ⟨outs, hbreaks, ?_⟩
  intro hflat
  have hshort := hpre.length_le
  have hlong : 0 < p.length := List.length_pos_of_ne_nil (hne p hp)
  rw [hflat, List.flatten_append, List.flatten_cons, List.length_append, List.length_append] at hshort
  omega

/-- An archive whose header, metadata and frames in front of frame `k` are as the
writer left them, and whose frame `k` cannot be read: `Read` throws at last, and
the calls before that return all payloads in front of frame `k` exactly if these
frames fit the reader's buffer and the read that uses up the last of them asks
for exactly what is left of it. -/
theorem reads_before_damage (A : Archiver) (sink : InnerStream) (calls : List WriteCall)
    (hinv : A.cipher.crypto.Inverts) (hfresh : sink.Fresh A.seekable)
    (hwrite : ∃ buffer, WriteCall.write buffer ∈ calls)
    (hm : (A.metadata.getD []).length ≤ 65535)
    (hlong : (A.archive (A.run .initial calls)).length < 2 ^ 63) :
    ∃ w, create sink .encrypt A.arguments = .ok w ∧
      ∀ (k : ℕ) (inner : InnerStream) (args : StreamArguments) (s : ManagedSecurityStream)
        (master : MasterHeader) (sizes : ℕ → ℕ),
        k < (A.payloads calls).length →
        inner.data.take (A.frameStart (A.payloads calls) k) =
          (finalState (archiveCalls A.cipher A.random calls w)).innerStream.data.take
            (A.frameStart (A.payloads calls) k) →
        inner.position = 0 → inner.closed = false →
        create inner .decrypt args = .ok s →
        args.skipMasterHeader = false → args.initialSequence = A.first →
        MasterHeader.parse (inner.data.take MasterHeader.fixedSize) = .ok master →
        Unreadable A.cipher (A.setting inner args s master.seekTableOffset k)
          (A.frameStart (A.payloads calls) k) (A.sequence k) →
        (∀ j, 0 < sizes j) →
        (∃ outs, Feed.Breaks (read A.cipher) sizes s outs) ∧
        (Feed.AnswersBefore (read A.cipher) sizes s ((A.payloads calls).take k).flatten ↔
          (∀ p ∈ (A.payloads calls).take k,
            overhead p.length A.keyIndex + p.length ≤ s.buffer.length) ∧
          Feed.CutsExactly sizes (((A.payloads calls).take k).map List.length)) := by
  rcases archived hfresh calls hwrite with ⟨w, hcreate, hfinal⟩
  refine ⟨w, hcreate, ?_⟩
  intro k inner args s master sizes hk hintact hpos hopen hreader hskip hseq hparse hun hsizes
  rw [hfinal] at hintact
  rcases A.damaged_form hlong hk hintact hparse with ⟨hdata, hbefore⟩
  set P := A.payloads calls with hP
  set n := A.frameStart P k with hn
  have hsmall : ∀ p ∈ P.take k, p.length < 2 ^ 25 :=
    fun p hp => (A.fits_payload calls p (List.mem_of_mem_take hp)).1
  have hne : ∀ p ∈ P.take k, p ≠ [] := A.payload_ne_nil calls hk
  have hstart : n = (A.head master.seekTableOffset ++ A.frames 0 (P.take k)).length :=
    (A.length_front P master.seekTableOffset k).symm
  have hcut := hbefore
  rw [hstart] at hcut
  rcases exists_first_failing
    (fun p : Bytes => overhead p.length A.keyIndex + p.length ≤ s.buffer.length) (P.take k) with
    hall | ⟨ps, p, qs, hsplit, hps, hbig⟩
  · have hlenk : (P.take k).length = k := List.length_take_of_le hk.le
    have htail : n + (inner.data.drop n).length = inner.data.length := by
      have hlen := congrArg List.length hdata
      rw [← List.append_assoc, List.length_append, ← hstart] at hlen
      exact hlen.symm
    obtain ⟨outs, hbreaks, -, hiff⟩ := reads_until_failure hreader hopen hpos hm hskip hseq hdata
      hsmall hne hall hcut (fetches_unreadable hinv (by rw [hlenk]; exact hun) htail) hsizes
    refine ⟨⟨outs, hbreaks⟩, ?_⟩
    rw [hbreaks.answersBefore_iff]
    apply hiff.trans
    exact ⟨fun hcuts => ⟨hall, hcuts⟩, fun h => h.2⟩
  · -- an earlier frame does not fit the buffer
    have hp : p ∈ P.take k := by
      rw [hsplit]
      exact List.mem_append_right _ List.mem_cons_self
    rw [hsplit] at hdata hsmall hne hcut
    obtain ⟨outs, hbreaks, hflat⟩ := reads_until_tooLarge hinv hreader hopen hpos hm hskip hseq hdata
      hsmall hne hps hbig hcut hsizes
    refine ⟨⟨outs, hbreaks⟩, ?_⟩
    rw [hbreaks.answersBefore_iff, hsplit]
    exact iff_of_false hflat (fun h => hbig (h.1 p (hsplit ▸ hp)))

/-- The archive of the examples, cut off inside its second frame. -/
def damagedSource : InnerStream :=
  .source ((maskFour.archive (maskFour.run .initial sixBytes)).take 80) 0

/-- A reader of it, with the writer's chunk size and key index. -/
def damagedArguments : StreamArguments := { chunkSize := 4, keyIndex := 5 }

theorem length_sixBytes : (maskFour.archive (maskFour.run .initial sixBytes)).length < 2 ^ 63 := by
  decide +kernel

theorem damagedSource_unreadable (s : ManagedSecurityStream) :
    Unreadable maskFour.cipher (maskFour.setting damagedSource damagedArguments s 151 1)
      (maskFour.frameStart (maskFour.payloads sixBytes) 1) (maskFour.sequence 1) := by
  obtain ⟨off, table, harchive, -⟩ := maskFour.archive_eq (maskFour.run .initial sixBytes) length_sixBytes
  have hpayload : (maskFour.payloads sixBytes)[1]? = some [5] := by
    decide +kernel
  have hstart : maskFour.frameStart (maskFour.payloads sixBytes) 1 = 69 := by
    decide +kernel
  have hnext : maskFour.frameStart (maskFour.payloads sixBytes) 2 = 110 := by
    decide +kernel
  have hdata : (maskFour.setting damagedSource damagedArguments s 151 1).data =
      (maskFour.head off ++ (maskFour.frames 0 (maskFour.payloads sixBytes) ++ table)).take 80 :=
    congrArg (List.take 80) harchive
  have hbefore : 69 < (151 : UInt64).toNat := by decide
  exact unreadable_of_truncation maskFour.cipher hpayload (by decide) (by rw [hstart]; decide)
    (by rw [hnext]; decide) hdata (Or.inr (by rw [hstart]; exact hbefore)) _

/-- Reads that ask for exactly the first payload. -/
theorem reads_before_damage_exact :
    ∃ w s, create (InnerStream.sink true) .encrypt maskFour.arguments = .ok w ∧
      create damagedSource .decrypt damagedArguments = .ok s ∧
      Feed.AnswersBefore (read maskFour.cipher) (fun _ => 4) s
        ((maskFour.payloads sixBytes).take 1).flatten := by
  obtain ⟨w, hwriter, hdamaged⟩ := reads_before_damage maskFour (InnerStream.sink true) sixBytes
    maskCrypto_inverts (InnerStream.sink_fresh true) ⟨[6], by simp [sixBytes]⟩ (by decide)
    length_sixBytes
  obtain ⟨w', hwriter', hfinal⟩ := archived (A := maskFour) (InnerStream.sink_fresh true) sixBytes
    ⟨[6], by simp [sixBytes]⟩
  obtain rfl := Except.ok.inj (hwriter.symm.trans hwriter')
  rcases create_reader maskFour damagedSource damagedArguments rfl rfl with ⟨s, hreader, hbuffer⟩
  have hstart : maskFour.frameStart (maskFour.payloads sixBytes) 1 = 69 := by
    decide +kernel
  have hpayloads : (maskFour.payloads sixBytes).take 1 = [[1, 2, 3, 4]] := by
    decide +kernel
  obtain ⟨-, hiff⟩ := hdamaged 1 damagedSource damagedArguments s ⟨1, 4, 5, 3, 151⟩ (fun _ => 4)
    (by decide +kernel) (by rw [hfinal, hstart]; exact (by decide +kernel)) rfl rfl hreader rfl rfl
    (by decide +kernel) (damagedSource_unreadable s) (fun _ => by decide)
  refine ⟨w, s, hwriter, hreader, hiff.mpr ⟨?_, ?_⟩⟩
  · intro p hp
    rw [hpayloads] at hp
    rw [List.mem_singleton.mp hp, hbuffer]
    decide
  · rw [hpayloads]
    exact ⟨0, by decide, by decide, fun _ => by decide, trivial⟩

/-- A read that asks for more than the first payload throws and returns none of
it. -/
theorem damaged_read_loses_payload :
    ∃ w s, create (InnerStream.sink true) .encrypt maskFour.arguments = .ok w ∧
      create damagedSource .decrypt damagedArguments = .ok s ∧
      damagedSource.data = (finalState (archiveCalls maskFour.cipher maskFour.random sixBytes
        w)).innerStream.data.take 80 ∧
      Unreadable maskFour.cipher (maskFour.setting damagedSource damagedArguments s 151 1)
        (maskFour.frameStart (maskFour.payloads sixBytes) 1) (maskFour.sequence 1) ∧
      ¬ Feed.AnswersBefore (read maskFour.cipher) (fun _ => 9) s
        ((maskFour.payloads sixBytes).take 1).flatten := by
  obtain ⟨w, hwriter, hfinal⟩ := archived (A := maskFour) (InnerStream.sink_fresh true) sixBytes
    ⟨[6], by simp [sixBytes]⟩
  have hrun : returns (fun s => threw (read maskFour.cipher 9 s))
      (create damagedSource .decrypt damagedArguments) = true := by
    decide +kernel
  rcases of_returns hrun with ⟨s, hreader, hthrow⟩
  have hbreaks : Feed.Breaks (read maskFour.cipher) (fun _ => 9) s [] := by
    cases hread : read maskFour.cipher 9 s with
    | ok out s' =>
      rw [hread] at hthrow
      cases hthrow
    | error e s' => exact Feed.breaks_error hread
  have hpayloads : (maskFour.payloads sixBytes).take 1 = [[1, 2, 3, 4]] := by
    decide +kernel
  refine ⟨w, s, hwriter, hreader, by rw [hfinal]; rfl, damagedSource_unreadable s, ?_⟩
  rw [hbreaks.answersBefore_iff, hpayloads]
  decide

end ManagedSecurity
