import PrivateLift.Proofs.Row.Record

/-!
# Rows survive the round trip

Decoding takes back what encoding wrote, over whatever bytes the row was written; and encoding takes
back what decoding read, except for the bits that no field uses. `RoundTrips` says both of a pair of
functions, and that the records tell exactly the used bits. It follows for both kinds of rows
(`rows_roundTrip`) from the record that the bytes stand for: a record determines the used bits
(`bit_eq_of_ofBytes`), and encoding changes no others.
-/

namespace PrivateLift

open Bytes

/-! ## A record determines the bits that the layout uses -/

theorem PublisherRow.bit_eq_of_ofBytes {a b : Bytes} (h : ofBytes a = ofBytes b) {slots k : Nat}
    (hk : Role.publisher.Covers slots k) : a.bit k = b.bit k := by
  obtain ⟨h0, h1, h2, h3, htime⟩ := PublisherRow.mk.inj h
  obtain hflag | ⟨hle, hlt⟩ := (Role.covers_publisher slots k).1 hk
  · match k, hflag with
    | 0, _ => exact h0
    | 1, _ => exact h1
    | 2, _ => exact h2
    | 3, _ => exact h3
  · exact bit_eq_of_word (word_eq_of_uint32 htime) hle hlt

theorem ConversionRow.bit_eq_of_ofBytes {a b : Bytes} {slot : Nat}
    (h : ofBytes a slot = ofBytes b slot) {k : Nat} (hle : 8 * ConversionLayout.offset slot ≤ k)
    (hlt : k < 8 * ConversionLayout.offset (slot + 1)) : a.bit k = b.bit k := by
  obtain ⟨hpurchase, hthreshold, hvalue, hsquare⟩ := ConversionRow.mk.inj h
  have hvalue' := congrArg Int32.toUInt32 hvalue
  have hsquare' := congrArg Int64.toUInt64 hsquare
  simp only [UInt32.toUInt32_toInt32, UInt64.toUInt64_toInt64] at hvalue' hsquare'
  rw [offset_succ, conversionWidth] at hlt
  by_cases h4 : k < 8 * (ConversionLayout.offset slot + 4)
  · exact bit_eq_of_word (word_eq_of_uint32 hpurchase) hle h4
  by_cases h8 : k < 8 * (ConversionLayout.offset slot + 8)
  · exact bit_eq_of_word (word_eq_of_uint32 hthreshold) (by omega) h8
  by_cases h12 : k < 8 * (ConversionLayout.offset slot + 12)
  · exact bit_eq_of_word (word_eq_of_uint32 hvalue') (by omega) h12
  · exact bit_eq_of_word (word_eq_of_uint64 hsquare') (by omega) hlt

theorem PartnerRow.bit_eq_of_ofBytes {a b : Bytes} {slots : Nat}
    (h : ofBytes a slots = ofBytes b slots) {k : Nat} (hk : Role.partner.Covers slots k) :
    a.bit k = b.bit k := by
  obtain ⟨hany, hcohort, hconversions⟩ := PartnerRow.mk.inj h
  obtain hflag | ⟨hle, hlt⟩ := (Role.covers_partner slots k).1 hk
  · have hzero : k = 0 := by omega
    rw [hzero]
    exact hany
  by_cases hheader : k < 8 * 5
  · exact bit_eq_of_word (word_eq_of_uint32 hcohort) hle hheader
  · -- The bit lies in the block of the slot that its distance from the header gives.
    have hslot : (k - 40) / 160 < slots := by
      simp only [Role.rowWidth, partnerHeaderWidth, conversionWidth] at hlt
      omega
    have hblock := List.map_inj_left.1 hconversions _ (List.mem_range.2 hslot)
    apply ConversionRow.bit_eq_of_ofBytes hblock
    · simp only [ConversionLayout.offset, partnerHeaderWidth, conversionWidth]
      omega
    · simp only [ConversionLayout.offset, partnerHeaderWidth, conversionWidth]
      omega

/-! ## The round trip -/

/-- A pair of functions that write and read the rows of a role: reading what was written over any
buffer gives the record back, and writing what was read gives the bytes back, up to the bits that
the layout leaves unused. `Fits` is what a row has room for. -/
structure RoundTrips {Record : Type} (role : Role) (slots : Nat) (Fits : Record → Prop)
    (encode : Record → Bytes → Except Fault Bytes) (decode : Bytes → Except Fault Record) :
    Prop where
  decode_encode : ∀ r, Fits r → ∀ buffer, role.rowWidth slots ≤ buffer.length →
    ∃ row, encode r buffer = .ok row ∧ row.length = buffer.length ∧ decode row = .ok r
  encode_decode : ∀ bytes, role.rowWidth slots ≤ bytes.length →
    ∃ r, Fits r ∧ decode bytes = .ok r ∧ encode r bytes = .ok bytes ∧
      encode r (List.replicate (role.rowWidth slots) 0) = .ok (role.cleaned slots bytes)
  decode_eq_iff : ∀ a b, role.rowWidth slots ≤ a.length → role.rowWidth slots ≤ b.length →
    (decode a = decode b ↔ role.cleaned slots a = role.cleaned slots b)

/-- A codec makes the round trip if decoding gives the record that the bytes stand for, encoding
writes a row that stands for the record and keeps the unused bits, and a record determines the used
bits. -/
theorem RoundTrips.of_ofBytes {Record : Type} {role : Role} {slots : Nat} {Fits : Record → Prop}
    {encode : Record → Bytes → Except Fault Bytes} {decode : Bytes → Except Fault Record}
    (ofBytes : Bytes → Record) (fits : ∀ bytes, Fits (ofBytes bytes))
    (decode_ok : ∀ bytes, role.rowWidth slots ≤ bytes.length → decode bytes = .ok (ofBytes bytes))
    (encode_ok : ∀ r, Fits r → ∀ buffer, role.rowWidth slots ≤ buffer.length →
      ∃ row, encode r buffer = .ok row ∧ row.length = buffer.length ∧ ofBytes row = r ∧
        ∀ k, ¬role.Covers slots k → row.bit k = buffer.bit k)
    (bit_eq : ∀ a b, ofBytes a = ofBytes b → ∀ k, role.Covers slots k → a.bit k = b.bit k) :
    RoundTrips role slots Fits encode decode := by
  -- Encoding the record of `bytes` writes its used bits over the buffer.
  have rewrite : ∀ bytes buffer target : Bytes, role.rowWidth slots ≤ buffer.length →
      target.length = buffer.length →
      (∀ k, target.bit k = if role.Covers slots k then bytes.bit k else buffer.bit k) →
      encode (ofBytes bytes) buffer = .ok target ∧ ofBytes target = ofBytes bytes := by
    intro bytes buffer target hbuffer hlen htarget
    obtain ⟨row, hrow, hrowLen, hvalue, hframe⟩ := encode_ok _ (fits bytes) buffer hbuffer
    have heq : row = target := by
      refine ext_bit (hrowLen.trans hlen.symm) fun k _ => ?_
      rw [htarget]
      split
      · next hk => exact bit_eq _ _ hvalue k hk
      · next hk => exact hframe k hk
    exact ⟨heq ▸ hrow, heq ▸ hvalue⟩
  refine ⟨?_, ?_, ?_⟩
  · intro r hr buffer hbuffer
    obtain ⟨row, hrow, hlen, hvalue, -⟩ := encode_ok r hr buffer hbuffer
    exact ⟨row, hrow, hlen, hvalue ▸ decode_ok row (hlen ▸ hbuffer)⟩
  · intro bytes hbytes
    refine ⟨ofBytes bytes, fits bytes, decode_ok bytes hbytes, ?_, ?_⟩
    · exact (rewrite bytes bytes bytes hbytes rfl (by simp)).1
    · refine (rewrite bytes _ _ (by simp) ?_ fun k => ?_).1
      · rw [role.length_cleaned hbytes, List.length_replicate]
      · rw [role.bit_cleaned hbytes, bit_replicate_zero]
        by_cases hk : role.Covers slots k <;> simp [hk]
  · intro a b ha hb
    rw [decode_ok a ha, decode_ok b hb, Except.ok.injEq, role.cleaned_eq_iff ha hb]
    refine ⟨bit_eq a b, fun h => ?_⟩
    refine (rewrite a b b hb rfl fun k => ?_).2.symm
    split
    · next hk => exact (h k hk).symm
    · rfl

/-- Rows of both roles make the round trip; a partner row has room for one conversion a slot. -/
theorem rows_roundTrip (slots : Nat) :
    RoundTrips .publisher slots (fun _ => True) PublisherRow.encode PublisherRow.decode ∧
      RoundTrips .partner slots (fun r => r.conversions.length = slots) PartnerRow.encode
        (PartnerRow.decode · slots) := by
  constructor
  · refine .of_ofBytes PublisherRow.ofBytes (fun _ => trivial) (fun _ => PublisherRow.decode_ok)
      (fun r _ buffer hbuffer => ?_) (fun _ _ h _ => PublisherRow.bit_eq_of_ofBytes h)
    obtain ⟨row, hrow, hlen, hvalue, hframe⟩ := r.encode_ok buffer hbuffer
    exact ⟨row, hrow, hlen, hvalue, fun k hk => hframe k fun f hf hc => hk ⟨f, hf, hc⟩⟩
  · refine .of_ofBytes (PartnerRow.ofBytes · slots) (fun _ => by simp [PartnerRow.ofBytes])
      (fun _ => PartnerRow.decode_ok) (fun r hr buffer hbuffer => ?_)
      (fun _ _ h _ => PartnerRow.bit_eq_of_ofBytes h)
    subst hr
    exact r.encode_ok buffer hbuffer

/-- A negative value over a dirty buffer that is longer than the row. -/
example :
    PartnerRow.encode ⟨true, 7, [⟨1, 61, -3, 9⟩]⟩ (List.replicate 26 0xff) =
      .ok ([0xff, 7, 0, 0, 0, 1, 0, 0, 0, 61, 0, 0, 0, 0xfd, 0xff, 0xff, 0xff] ++
        [9, 0, 0, 0, 0, 0, 0, 0, 0xff]) := by
  decide

end PrivateLift
