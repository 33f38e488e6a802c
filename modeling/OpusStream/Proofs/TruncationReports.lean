import OpusStream.Proofs.PageFormat
import OpusStream.Proofs.Truncation

/-!
# What a truncated page asks for

The size that is asked for when a page is cut off is known from its octets so far: it stays the same
until so many octets are there, and then either the page is whole or more is asked for. With each
report one more of the three parts of a page is whole, so whoever supplies what is asked for has the
page after three reports at the latest.
-/

namespace OpusStream
namespace Page

variable {bytes longer : Bytes}

structure IsCutOff (bytes : Bytes) : Prop where
  captured : isCaptured bytes = true
  short : bytes.length < required bytes

theorem decode_eq_truncatedPage_iff {start : Nat} {place expected available : Int} :
    decode start bytes = .error (.truncatedPage place expected available) ↔
      IsCutOff bytes ∧ place = start ∧ expected = required bytes ∧ available = bytes.length := by
  constructor
  · intro h
    rcases fault_of_decode h with ⟨-, hfault⟩ | ⟨hcaptured, hshort, hfault⟩
    · cases hfault
    · cases hfault
      exact ⟨⟨hcaptured, hshort⟩, rfl, rfl, rfl⟩
  · rintro ⟨⟨hcaptured, hshort⟩, rfl, rfl, rfl⟩
    rcases decode_cases (rfl : decode start bytes = _) with
      ⟨hnot, -⟩ | ⟨-, -, hdecode⟩ | ⟨page, rest, -, rfl, -⟩
    · rw [hcaptured] at hnot
      cases hnot
    · exact hdecode
    · rw [required_encode_append, List.length_append, length_encode] at hshort
      omega

theorem parse_eq_truncatedPage_iff {data : Bytes} {offset place expected available : Int} :
    parse data offset = .error (.truncatedPage place expected available) ↔
      0 ≤ offset ∧ IsCutOff (data.drop offset.toNat) ∧ place = offset ∧
        expected = required (data.drop offset.toNat) ∧
        available = (data.drop offset.toNat).length := by
  by_cases hoffset : offset < 0
  · simp [parse, hoffset, Int.not_le.mpr hoffset]
  · obtain ⟨start, rfl⟩ := Int.eq_ofNat_of_zero_le (Int.not_lt.mp hoffset)
    rw [parse_natCast, Int.toNat_natCast, ← decode_eq_truncatedPage_iff]
    cases decode start (data.drop start) <;> simp

theorem isCaptured_of_prefix (h : isCaptured bytes = true) (hlonger : bytes <+: longer) :
    isCaptured longer = true :=
  isCaptured_iff.mpr ((isCaptured_iff.mp h).trans hlonger)

theorem IsCutOff.beginsWithPage_or (h : IsCutOff bytes) (hlonger : bytes <+: longer) :
    (∃ page : Page, page.encode <+: longer ∧ page.size = required longer) ∨ IsCutOff longer := by
  have hcaptured := isCaptured_of_prefix h.captured hlonger
  rcases decode_cases (rfl : decode 0 longer = _) with
    ⟨hnot, -⟩ | ⟨-, hshort, -⟩ | ⟨page, rest, -, rfl, -⟩
  · rw [hcaptured] at hnot
    cases hnot
  · exact .inr ⟨hcaptured, hshort⟩
  · exact .inl ⟨page, List.prefix_append _ _, (required_encode_append page rest).symm⟩

/-- The parts of a page of which the octets do not have all: the body, the table in front of it and
the header in front of that. -/
def missingParts (bytes : Bytes) : Nat :=
  if bytes.length < headerSize then 3
  else if bytes.length < headerSize + LittleEndian.field 1 bytes 26 then 2
  else 1

/-- The count of segments is the last octet of the header, so with a whole header it is settled. -/
theorem field_count_eq_of_prefix (hlonger : bytes <+: longer) (h : headerSize ≤ bytes.length) :
    LittleEndian.field 1 longer 26 = LittleEndian.field 1 bytes 26 := by
  obtain ⟨more, rfl⟩ := hlonger
  exact LittleEndian.field_append_left h more

theorem required_eq_of_table (hlonger : bytes <+: longer)
    (h : headerSize + LittleEndian.field 1 bytes 26 ≤ bytes.length) :
    required longer = required bytes := by
  have hle := hlonger.length_le
  have hcount := field_count_eq_of_prefix hlonger (Nat.le_of_add_right_le h)
  obtain ⟨more, rfl⟩ := hlonger
  have htable : LittleEndian.field 1 bytes 26 ≤ (bytes.drop headerSize).length := by
    rw [List.length_drop]
    omega
  have htake : ((bytes ++ more).drop headerSize).take (LittleEndian.field 1 bytes 26) =
      (bytes.drop headerSize).take (LittleEndian.field 1 bytes 26) := by
    rw [List.drop_append_of_le_length (Nat.le_of_add_right_le h),
      List.take_append_of_le_length htable]
  simp only [required, hcount, htake]
  rw [if_neg (by omega), if_neg (by omega), if_neg (by omega), if_neg (by omega)]

theorem required_eq_of_length_lt (hlonger : bytes <+: longer)
    (h : longer.length < required bytes) : required longer = required bytes := by
  have hle := hlonger.length_le
  -- The parts are missed in turn: the header, then the table, then the body.
  by_cases hheader : bytes.length < headerSize
  · rw [required_of_length_lt hheader] at h ⊢
    exact required_of_length_lt h
  by_cases htable : bytes.length < headerSize + LittleEndian.field 1 bytes 26
  · have hrequired : required bytes = headerSize + LittleEndian.field 1 bytes 26 := by
      rw [required, if_neg hheader, if_pos htable]
    have hcount := field_count_eq_of_prefix hlonger (Nat.le_of_not_lt hheader)
    rw [hrequired] at h ⊢
    rw [required, hcount, if_neg (by omega), if_pos h]
  · exact required_eq_of_table hlonger (Nat.le_of_not_lt htable)

theorem IsCutOff.of_length_lt (h : IsCutOff bytes) (hlonger : bytes <+: longer)
    (hfew : longer.length < required bytes) : IsCutOff longer where
  captured := isCaptured_of_prefix h.captured hlonger
  short := by rwa [required_eq_of_length_lt hlonger hfew]

theorem IsCutOff.of_required_le (h : IsCutOff bytes) (hlonger : bytes <+: longer)
    (henough : required bytes ≤ longer.length) :
    (∃ page : Page, page.encode <+: longer ∧ required bytes ≤ page.size) ∨
      IsCutOff longer ∧ required bytes < required longer := by
  rcases h.beginsWithPage_or hlonger with ⟨page, hpage, hsize⟩ | hshort
  · refine .inl ⟨page, hpage, ?_⟩
    rw [hsize]
    exact required_mono hlonger
  · exact .inr ⟨hshort, henough.trans_lt hshort.short⟩

theorem missingParts_lt (hlonger : bytes <+: longer) (h : required bytes ≤ longer.length)
    (hshort : longer.length < required longer) : missingParts longer < missingParts bytes := by
  by_cases hheader : bytes.length < headerSize
  · rw [required_of_length_lt hheader] at h
    rw [missingParts, missingParts, if_pos hheader, if_neg (Nat.not_lt.mpr h)]
    split <;> decide
  by_cases htable : bytes.length < headerSize + LittleEndian.field 1 bytes 26
  · have hcount := field_count_eq_of_prefix hlonger (Nat.le_of_not_lt hheader)
    rw [required, if_neg hheader, if_pos htable] at h
    rw [missingParts, missingParts, if_neg hheader, if_pos htable, hcount, if_neg (by omega),
      if_neg (by omega)]
    decide
  · rw [required_eq_of_table hlonger (Nat.le_of_not_lt htable)] at hshort
    omega

theorem missingParts_le (bytes : Bytes) : missingParts bytes ≤ 3 := by
  rw [missingParts]
  split_ifs <;> decide

/-- What a caller hands over, time after time, who goes on as long as the page at the offset is
reported to be truncated: never less than the last time, and as much as the report asks for. -/
structure IsSupply (offset : Int) (supply : Nat → Bytes) : Prop where
  grows : ∀ i, supply i <+: supply (i + 1)
  answers : ∀ i place expected available,
    parse (supply i) offset = .error (.truncatedPage place expected available) →
      offset + expected ≤ (supply (i + 1)).length

theorem IsSupply.prefix_zero {offset : Int} {supply : Nat → Bytes} (h : IsSupply offset supply)
    (i : Nat) : supply 0 <+: supply i := by
  induction i with
  | zero => exact List.prefix_refl _
  | succ i ih => exact ih.trans (h.grows i)

/-- The first supply that is not reported has the whole page. -/
theorem IsSupply.exists_parse {offset : Int} {supply : Nat → Bytes} (h : IsSupply offset supply)
    (hoffset : 0 ≤ offset) (hcut : IsCutOff ((supply 0).drop offset.toNat)) :
    ∃ reports ≤ missingParts ((supply 0).drop offset.toNat),
      (∃ page, parse (supply reports) offset = .ok page) ∧
      ∀ i < reports, IsCutOff ((supply i).drop offset.toNat) := by
  -- What follows a report is a supply again, and it misses fewer parts.
  induction hparts : missingParts ((supply 0).drop offset.toNat) using Nat.strongRecOn
    generalizing supply with
  | ind parts ih =>
    have hpos : 1 ≤ parts := by
      rw [← hparts, missingParts]
      split_ifs <;> decide
    have hgrows : (supply 0).drop offset.toNat <+: (supply 1).drop offset.toNat :=
      (h.grows 0).drop offset.toNat
    rcases hcut.beginsWithPage_or hgrows with ⟨page, hpage, -⟩ | hnext
    · refine ⟨1, hpos, exists_parse_iff.mpr ⟨hoffset, page, hpage⟩, ?_⟩
      intro i hi
      rwa [Nat.lt_one_iff.mp hi]
    · have hreport := parse_eq_truncatedPage_iff.mpr ⟨hoffset, hcut, rfl, rfl, rfl⟩
      have hanswer : offset + _ ≤ ((supply 1).length : Int) := h.answers 0 _ _ _ hreport
      have hrequired : required ((supply 0).drop offset.toNat) ≤
          ((supply 1).drop offset.toNat).length := by
        rw [List.length_drop]
        omega
      have hfewer := missingParts_lt hgrows hrequired hnext.short
      rw [hparts] at hfewer
      have hrest : IsSupply offset fun i => supply (i + 1) :=
        ⟨fun i => h.grows (i + 1), fun i => h.answers (i + 1)⟩
      obtain ⟨reports, hle, hparse, hbefore⟩ := ih _ hfewer hrest hnext rfl
      refine ⟨reports + 1, by omega, hparse, ?_⟩
      intro i hi
      cases i with
      | zero => exact hcut
      | succ i => exact hbefore i (by omega)

/-- A report of a truncated page says how many octets there are, at least four since the page has
begun, and asks for more. It is repeated as long as fewer than asked for are there. With as many the
page is whole and has at least that size, or still more is asked for. So a caller who supplies what
is asked for has the page after three reports at the latest. -/
theorem parse_of_truncated {data : Bytes} {offset place expected available : Int}
    (h : parse data offset = .error (.truncatedPage place expected available)) :
    (place = offset ∧ available = data.length - offset ∧ 4 ≤ available ∧ available < expected) ∧
    (∀ longer, data <+: longer → longer.length - offset < expected →
      parse longer offset =
        .error (.truncatedPage offset expected (longer.length - offset))) ∧
    (∀ longer, data <+: longer → expected ≤ longer.length - offset →
      (∃ page, parse longer offset = .ok page ∧ expected ≤ page.size) ∨
      ∃ larger, expected < larger ∧ parse longer offset =
        .error (.truncatedPage offset larger (longer.length - offset))) ∧
    ∀ supply : Nat → Bytes, supply 0 = data → IsSupply offset supply →
      ∃ reports ≤ 3, (∃ page, parse (supply reports) offset = .ok page) ∧
        ∀ i < reports, ∃ asked, parse (supply i) offset =
          .error (.truncatedPage offset asked ((supply i).length - offset)) := by
  obtain ⟨hoffset, hcut, rfl, rfl, rfl⟩ := parse_eq_truncatedPage_iff.mp h
  obtain ⟨start, rfl⟩ := Int.eq_ofNat_of_zero_le hoffset
  rw [Int.toNat_natCast] at hcut ⊢
  have hfour : 4 ≤ (data.drop start).length := (isCaptured_iff.mp hcut.captured).length_le
  have hlength {longer : Bytes} (hlonger : data <+: longer) :
      ((longer.drop start).length : Int) = longer.length - start := by
    have hle := hlonger.length_le
    rw [List.length_drop] at hfour ⊢
    omega
  have hreport {longer : Bytes} (hlonger : data <+: longer) (hshort : IsCutOff (longer.drop start)) :
      parse longer start =
        .error (.truncatedPage start (required (longer.drop start)) (longer.length - start)) :=
    parse_eq_truncatedPage_iff.mpr ⟨hoffset, hshort, rfl, rfl, (hlength hlonger).symm⟩
  refine ⟨⟨rfl, hlength (List.prefix_refl data), ?_, ?_⟩, ?_, ?_, ?_⟩
  · exact_mod_cast hfour
  · exact_mod_cast hcut.short
  · intro longer hlonger hfew
    have hdrop := hlonger.drop start
    rw [← hlength hlonger, Int.ofNat_lt] at hfew
    rw [hreport hlonger (hcut.of_length_lt hdrop hfew), required_eq_of_length_lt hdrop hfew]
  · intro longer hlonger henough
    rw [← hlength hlonger, Int.ofNat_le] at henough
    rcases hcut.of_required_le (hlonger.drop start) henough with
      ⟨page, hpage, hsize⟩ | ⟨hshort, hmore⟩
    · refine .inl ⟨{ page with offset := start }, (parse_eq_ok_iff start).mpr ⟨hpage, rfl⟩, ?_⟩
      exact_mod_cast hsize
    · exact .inr ⟨required (longer.drop start), by exact_mod_cast hmore, hreport hlonger hshort⟩
  · rintro supply rfl hsupply
    obtain ⟨reports, hle, hparse, hbefore⟩ := hsupply.exists_parse hoffset hcut
    refine ⟨reports, hle.trans (missingParts_le _), hparse, ?_⟩
    intro i hi
    exact ⟨_, hreport (hsupply.prefix_zero i) (hbefore i hi)⟩

def sampleSupply (i : Nat) : Bytes := [1, 2] ++ sampleLimits.encode.take ([10, 27, 30].getD i 33)

theorem isSupply_sampleSupply : IsSupply 2 sampleSupply where
  grows
    | 0 => by decide
    | 1 => by decide
    | 2 => by decide
    | _ + 3 => List.prefix_refl _
  answers := by
    rintro (_ | _ | _ | i) place expected available h
    · have hreport : parse (sampleSupply 0) 2 = .error (.truncatedPage 2 27 10) := by decide
      cases hreport.symm.trans h
      decide
    · have hreport : parse (sampleSupply 1) 2 = .error (.truncatedPage 2 30 27) := by decide
      cases hreport.symm.trans h
      decide
    · have hreport : parse (sampleSupply 2) 2 = .error (.truncatedPage 2 33 30) := by decide
      cases hreport.symm.trans h
      decide
    · have hwhole : parse (sampleSupply (i + 3)) 2 = .ok { sampleLimits with offset := 2 } :=
        parse_append sampleLimits [1, 2] []
      cases hwhole.symm.trans h

theorem parse_of_truncated_sample :
    parse (sampleSupply 0) 2 = .error (.truncatedPage 2 27 10) ∧
    parse ([1, 2] ++ sampleLimits.encode.take 26) 2 = .error (.truncatedPage 2 27 26) ∧
    (∃ larger, 27 < larger ∧ parse (sampleSupply 1) 2 = .error (.truncatedPage 2 larger 27)) ∧
    ∃ reports ≤ 3, (∃ page, parse (sampleSupply reports) 2 = .ok page) ∧
      ∀ i < reports, ∃ asked, parse (sampleSupply i) 2 =
        .error (.truncatedPage 2 asked ((sampleSupply i).length - 2)) := by
  have hreport : parse (sampleSupply 0) 2 = .error (.truncatedPage 2 27 10) := by decide
  obtain ⟨-, hfewer, hmore, hsupply⟩ := parse_of_truncated hreport
  have hnext : ¬ ∃ page, parse (sampleSupply 1) 2 = .ok page ∧ (27 : Int) ≤ page.size := by
    rintro ⟨page, hpage, -⟩
    have hcut : parse (sampleSupply 1) 2 = .error (.truncatedPage 2 30 27) := by decide
    cases hcut.symm.trans hpage
  exact ⟨hreport, hfewer _ (by decide) (by decide),
    (hmore _ (isSupply_sampleSupply.grows 0) (by decide)).resolve_left hnext,
    hsupply _ rfl isSupply_sampleSupply⟩

end Page
end OpusStream
