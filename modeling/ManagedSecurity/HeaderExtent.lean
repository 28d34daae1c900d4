import ManagedSecurity.FrameReader

/-! # How many bytes a header takes

The stream counts the leading ones of the two fields on its own, to know how many
extension bytes to fetch before it has a header to parse. Its count stops after four where
the parser throws at the fourth.

* `header_filled`: behind the two fetches the buffer holds the header bytes and nothing
  else of the inner stream has been consumed;
* `header_extent`: the fetched bytes are those the parser reads.
-/

namespace ManagedSecurity

open Bytes Outcome ManagedSecurityStream

/-! ## The two counts -/

/-- The count of the reader is the marker of the field. -/
theorem countLeadingOnes12_lengthField (h : ℕ) :
    countLeadingOnes12 4 ((h >>> 12) &&& 0xFFF) 0 = leadingOnes (lengthField h) := by
  have hfield : (h >>> 12) &&& 0xFFF = lengthField h := by
    rw [and_0xFFF, Nat.shiftRight_eq_div_pow, lengthField]
  rw [hfield]
  exact countLeadingOnes12_eq (lengthField_lt h)

theorem countLeadingOnes12_keyField (h : ℕ) :
    countLeadingOnes12 4 (h &&& 0xFFF) 0 = leadingOnes (keyField h) := by
  have hfield : h &&& 0xFFF = keyField h := by
    rw [and_0xFFF, keyField]
  rw [hfield]
  exact countLeadingOnes12_eq (keyField_lt h)

/-- A marker of four ones is never accepted. -/
theorem Accepts.few {data : Bytes} {p : Profile} (haccepts : Accepts data p) :
    ¬ (3 < countLeadingOnes12 4 ((headerWord data >>> 12) &&& 0xFFF) 0 ∨
      3 < countLeadingOnes12 4 (headerWord data &&& 0xFFF) 0) := by
  have hl := haccepts.lengthOnes
  have hk := haccepts.keyOnes
  rw [countLeadingOnes12_lengthField, countLeadingOnes12_keyField]
  omega

/-! ## The two fetches -/

namespace ManagedSecurityStream

variable {s s₁ s₂ : ManagedSecurityStream}

/-- Behind the two fetches the buffer holds the next bytes of the inner stream, as many as
the fixed word announces, and no more of them have been consumed. -/
theorem header_filled {message : String} (hfixed : onFill readFixedHeader s = .ok true s₁)
    (hexts : onFill (InnerStream.fillSpan message 4
      (calculateHeaderExtensions (headerWord s₁.buffer))) s₁ = .ok () s₂) :
    ∃ size, size = 4 + calculateHeaderExtensions (headerWord s₁.buffer) ∧
      size ≤ s₂.buffer.length ∧ headerWord s₂.buffer = headerWord s₁.buffer ∧
      s₂.buffer.take size = s.innerStream.rest.take size ∧
      s₂.innerStream.rest = s.innerStream.rest.drop size := by
  have hword := (extensions_inv (readFixedHeader_inv hfixed) hexts).1
  rcases readFixedHeader_ok hfixed with ⟨hfit, ⟨-, hfour, k, rfl⟩ | ⟨hnone, -⟩⟩
  swap
  · cases hnone
  set n := calculateHeaderExtensions (headerWord (s.filled 4 k).buffer)
  rcases zoom_eq_ok.mp hexts with ⟨t, hfill, rfl⟩
  rcases InnerStream.fillSpan_inv hfill with ⟨hleft, hroom, k', rfl⟩
  have hnext : (s.filled 4 k).innerStream.rest = s.innerStream.rest.drop 4 :=
    InnerStream.advance_rest _ _ _
  have hrest : 4 + n ≤ s.innerStream.rest.length := by
    rw [hnext, List.length_drop] at hleft
    omega
  have hsize : 4 + n ≤ s.buffer.length := by
    rw [length_filled hfit] at hroom
    omega
  have hbuffer : overwrite (s.filled 4 k).buffer 4 ((s.filled 4 k).innerStream.rest.take n) =
      overwrite s.buffer 0 (s.innerStream.rest.take (4 + n)) := by
    rw [hnext]
    exact overwrite_filled hfour
  have htake : (s.innerStream.rest.take (4 + n)).length = 4 + n := List.length_take_of_le hrest
  refine ⟨4 + n, rfl, ?_, hword, ?_, ?_⟩
  · show 4 + n ≤ (overwrite (s.filled 4 k).buffer 4 _).length
    rw [hbuffer, length_overwrite (by omega)]
    exact hsize
  · show (overwrite (s.filled 4 k).buffer 4 _).take (4 + n) = _
    rw [hbuffer, overwrite, List.take_zero, List.nil_append]
    exact List.take_left' htake
  · show ((s.filled 4 k).innerStream.advance n k').rest = _
    rw [InnerStream.advance_rest, hnext, List.drop_drop]

end ManagedSecurityStream

/-! ## The extent of a header -/

/-- The reader's count is the parser's: an accepted header ends where the reader stops
fetching, the parser is settled by the bytes up to there, and where the reader stops
counting the parser throws. So what the frame readers parse, be it the whole buffer or the
header alone, is what the next bytes of the inner stream spell. -/
theorem header_extent (data : Bytes) :
    (∀ header, Header.parse data = .ok header →
      (header.ivOffset : ℤ) - header.sequenceLength =
        (4 + calculateHeaderExtensions (headerWord data) : ℕ)) ∧
    (4 + calculateHeaderExtensions (headerWord data) ≤ data.length →
      Header.parse (data.take (4 + calculateHeaderExtensions (headerWord data))) =
        Header.parse data) ∧
    (3 < countLeadingOnes12 4 ((headerWord data >>> 12) &&& 0xFFF) 0 ∨
        3 < countLeadingOnes12 4 (headerWord data &&& 0xFFF) 0 →
      ∃ e, Header.parse data = .error e) ∧
    ∀ (message : String) (s s₁ s₂ : ManagedSecurityStream),
      onFill readFixedHeader s = .ok true s₁ →
      onFill (InnerStream.fillSpan message 4
        (calculateHeaderExtensions (headerWord s₁.buffer))) s₁ = .ok () s₂ →
      s₂.innerStream.rest =
          s.innerStream.rest.drop (4 + calculateHeaderExtensions (headerWord s₁.buffer)) ∧
        Header.parse s₂.buffer = Header.parse
          (s₂.buffer.take (4 + calculateHeaderExtensions (headerWord s₁.buffer))) ∧
        s₂.buffer.take (4 + calculateHeaderExtensions (headerWord s₁.buffer)) =
          s.innerStream.rest.take (4 + calculateHeaderExtensions (headerWord s₁.buffer)) := by
  refine ⟨?_, ?_, ?_, ?_⟩
  · intro header hparse
    rcases parse_adjacent hparse with ⟨-, -, -, hiv⟩
    rw [calculateHeaderExtensions_eq, hiv]
    push_cast
    ring
  · intro _
    apply parse_take
    rw [calculateHeaderExtensions_eq]
  · intro hmany
    cases hparse : Header.parse data with
    | error e => exact ⟨e, rfl⟩
    | ok header =>
      rcases parse_eq_ok.mp hparse with ⟨p, haccepts, -⟩
      exact absurd hmany haccepts.few
  · intro message s s₁ s₂ hfixed hexts
    rcases header_filled hfixed hexts with ⟨size, rfl, -, hword, hfront, hrest⟩
    refine ⟨hrest, ?_, hfront⟩
    apply Eq.symm
    apply parse_take
    rw [hword, calculateHeaderExtensions_eq]

/-- A header with one extension byte, and two bytes left over from the frame before it. -/
def staleHeader : Bytes := [0xE0, 0x80, 0x10, 5, 44, 9, 9]

theorem header_extent_stale :
    ((decodedHeader ⟨12, 16, 0⟩ staleHeader).ivOffset : ℤ) -
        (decodedHeader ⟨12, 16, 0⟩ staleHeader).sequenceLength = (5 : ℕ) ∧
      Header.parse (staleHeader.take 5) = Header.parse staleHeader := by
  rcases header_extent staleHeader with ⟨hend, hcut, -⟩
  constructor
  · exact hend (decodedHeader ⟨12, 16, 0⟩ staleHeader) (by decide)
  · exact hcut (by decide)

end ManagedSecurity
