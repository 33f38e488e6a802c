import OpusStream.Proofs.PageScan

/-!
# The format of a page

The octets at an offset are parsed exactly when they are laid out as a page. What is parsed is all
there is in these octets: writing the page gives them back, and parsing them gives the page, wherever
they lie and whatever lies around them.
-/

namespace OpusStream
namespace Page

/-- Whether the octets begin as a page does: with the capture pattern, 22 octets of fields, a count,
so many segment sizes, and no fewer octets behind these than the sizes add up to. -/
def IsLaidOut (bytes : Bytes) : Prop :=
  ∃ (fields : Bytes) (count : UInt8) (lacing rest : Bytes),
    bytes = Latin1.bytes capturePattern ++ (fields ++ count :: (lacing ++ rest)) ∧
      fields.length = 22 ∧ lacing.length = count.toNat ∧ Lacing.total lacing ≤ rest.length

theorem isLaidOut_encode_append (page : Page) (rest : Bytes) : IsLaidOut (page.encode ++ rest) := by
  have hcount : (UInt8.ofNat page.lacing.length).toNat = page.lacing.length := by
    apply UInt8.toNat_ofNat_of_lt'
    exact Nat.lt_succ_of_le page.lacing_length_le
  refine ⟨LittleEndian.digits 1 page.version.toNat ++ (LittleEndian.digits 1 page.flags.toNat ++
    (LittleEndian.digits 8 page.granule.toNat ++ (LittleEndian.digits 4 page.serial.toNat ++
    (LittleEndian.digits 4 page.sequence.toNat ++
    LittleEndian.digits 4 page.checksum.toNat)))), .ofNat page.lacing.length, page.lacing,
    page.body ++ rest, ?_, ?_, hcount.symm, ?_⟩
  · simp [encode, header, LittleEndian.digits]
  · simp
  · rw [List.length_append, page.body_length]
    exact Nat.le_add_right _ _

theorem required_le_of_isLaidOut {bytes : Bytes} (h : IsLaidOut bytes) :
    isCaptured bytes = true ∧ required bytes ≤ bytes.length := by
  obtain ⟨fields, count, lacing, rest, rfl, hfields, hlacing, htotal⟩ := h
  refine ⟨isCaptured_iff.mpr (List.prefix_append _ _), ?_⟩
  generalize hheader : Latin1.bytes capturePattern ++ (fields ++ [count]) = header
  have hsize : header.length = headerSize := by
    simp [← hheader, hfields, headerSize]
  have hcount : lacing.length = LittleEndian.field 1 header 26 := by
    rw [← hheader, LittleEndian.field_append_right (by simp),
      LittleEndian.field_append_right (by simp [hfields]), hlacing]
    simp [hfields, LittleEndian.field]
  have hbytes : Latin1.bytes capturePattern ++ (fields ++ count :: (lacing ++ rest)) =
      header ++ (lacing ++ rest) := by
    rw [← hheader]
    simp
  rw [hbytes, required_table_append hsize hcount, ← hcount, List.length_append, List.length_append,
    hsize]
  omega

theorem beginsWithPage_iff_isLaidOut {bytes : Bytes} : BeginsWithPage bytes ↔ IsLaidOut bytes := by
  constructor
  · rintro ⟨page, rest, rfl⟩
    exact isLaidOut_encode_append page rest
  · intro h
    obtain ⟨hcaptured, hrequired⟩ := required_le_of_isLaidOut h
    rcases decode_cases (rfl : decode 0 bytes = _) with
      ⟨hnot, -⟩ | ⟨-, hlt, -⟩ | ⟨page, rest, -, hpage, -⟩
    · rw [hcaptured] at hnot
      cases hnot
    · omega
    · exact ⟨page, rest, hpage.symm⟩

theorem exists_parse_iff {data : Bytes} {offset : Int} :
    (∃ page, parse data offset = .ok page) ↔
      0 ≤ offset ∧ BeginsWithPage (data.drop offset.toNat) := by
  by_cases hoffset : offset < 0
  · simp [parse, hoffset, Int.not_le.mpr hoffset]
  · obtain ⟨start, rfl⟩ := Int.eq_ofNat_of_zero_le (Int.not_lt.mp hoffset)
    simp only [parse_eq_ok_iff, Int.toNat_natCast, Int.natCast_nonneg, true_and]
    constructor
    · rintro ⟨page, hpage, -⟩
      exact ⟨page, hpage⟩
    · rintro ⟨page, hpage⟩
      exact ⟨{ page with offset := start }, hpage, rfl⟩

theorem parse_append (page : Page) (front rest : Bytes) :
    parse (front ++ (page.encode ++ rest)) front.length =
      .ok { page with offset := front.length } := by
  apply (parse_eq_ok_iff _).mpr
  rw [List.drop_left]
  exact ⟨List.prefix_append _ _, rfl⟩

/-- What a page has to do with the octets that it is parsed from. Nothing outside its span matters. -/
structure IsParsedFrom (page : Page) (data : Bytes) (offset : Int) : Prop where
  offset_eq : page.offset = offset
  size_eq : page.size = 27 + page.lacing.length + Lacing.total page.lacing
  length_encode : page.encode.length = page.size
  length_body : page.body.length = Lacing.total page.lacing
  encode_eq : page.encode = (data.drop offset.toNat).take page.size
  again : ∀ rest, parse (page.encode ++ rest) 0 = .ok { page with offset := 0 }

theorem isParsedFrom_of_parse {data : Bytes} {offset : Int} {page : Page}
    (h : parse data offset = .ok page) : page.IsParsedFrom data offset := by
  have hoffset : 0 ≤ offset := (exists_parse_iff.mp ⟨page, h⟩).1
  obtain ⟨start, rfl⟩ := Int.eq_ofNat_of_zero_le hoffset
  obtain ⟨hpage, hstart⟩ := (parse_eq_ok_iff start).mp h
  refine ⟨congrArg Nat.cast hstart, ?_, page.length_encode, page.body_length, ?_, ?_⟩
  · rw [size, headerSize, page.body_length]
  · rw [Int.toNat_natCast, ← page.length_encode]
    exact List.prefix_iff_eq_take.mp hpage
  · exact parse_append page []

/-- Parsing accepts exactly the layout of a page, it finds all that is in the octets of the page and
nothing else, and it finds every page that is written, at any offset in any data. -/
theorem parse_inverts_encode (data : Bytes) (offset : Int) :
    ((∃ page, parse data offset = .ok page) ↔
      0 ≤ offset ∧ IsLaidOut (data.drop offset.toNat)) ∧
    (∀ page, parse data offset = .ok page → page.IsParsedFrom data offset) ∧
    ∀ (page : Page) (front rest : Bytes),
      parse (front ++ (page.encode ++ rest)) front.length =
        .ok { page with offset := front.length } := by
  refine ⟨?_, fun page => isParsedFrom_of_parse, parse_append⟩
  rw [exists_parse_iff, beginsWithPage_iff_isLaidOut]

def sampleLimits : Page :=
  ⟨255, 5, noGranule, 0xFFFFFFFF, 0x80000000, 0xFFFF, [2, 0, 1], [7, 8, 9], 0, by decide, rfl⟩

theorem parse_inverts_encode_sample :
    parse ([1, 2, 3] ++ (sampleLimits.encode ++ [4])) 3 = .ok { sampleLimits with offset := 3 } ∧
    IsLaidOut (([1, 2, 3] ++ (sampleLimits.encode ++ [4])).drop 3) ∧
    IsParsedFrom { sampleLimits with offset := 3 } ([1, 2, 3] ++ (sampleLimits.encode ++ [4])) 3 := by
  obtain ⟨hiff, hparsed, hparse⟩ :=
    parse_inverts_encode ([1, 2, 3] ++ (sampleLimits.encode ++ [4])) 3
  have hsample := hparse sampleLimits [1, 2, 3] [4]
  exact ⟨hsample, (hiff.mp ⟨_, hsample⟩).2, hparsed _ hsample⟩

end Page
end OpusStream
