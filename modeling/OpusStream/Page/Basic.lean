import OpusStream.Bytes.LittleEndian

/-!
# Ogg pages

A page is a fixed header, a table of segment sizes and a body that the segments fill. The sizes are
single octets, so a page has at most 255 segments of at most 255 octets. `Page.encode` writes the
page and `Page.decode` reads it from the front of a longer string. `Page.decode_encode_append` says
that every page is read back, and `Page.eq_encode_append_of_decode` that nothing else is accepted.
-/

namespace OpusStream

def Lacing.total : Bytes → Nat
  | [] => 0
  | size :: sizes => size.toNat + total sizes

@[simp] theorem Lacing.total_nil : total [] = 0 := rfl
@[simp] theorem Lacing.total_cons (size : UInt8) (sizes : Bytes) :
    total (size :: sizes) = size.toNat + total sizes := rfl

@[simp] theorem Lacing.total_append (front rest : Bytes) :
    total (front ++ rest) = total front + total rest := by
  induction front with
  | nil => simp
  | cons size front ih => simp [ih, Nat.add_assoc]

/-- One page, and the place where it began in the data it was read from. -/
structure Page where
  version : UInt8
  flags : UInt8
  /-- The count of samples up to the last packet that ends here, or `noGranule`. -/
  granule : UInt64
  serial : UInt32
  sequence : UInt32
  /-- Kept as found; it is not checked. -/
  checksum : UInt32
  lacing : Bytes
  body : Bytes
  offset : Nat
  lacing_length_le : lacing.length ≤ 255
  body_length : body.length = Lacing.total lacing
  deriving DecidableEq

namespace Page

def capturePattern : String := "OggS"

@[simp] theorem length_capturePattern : capturePattern.length = 4 := rfl

def headerSize : Nat := 27

def continuedFlag : UInt8 := 0x01

def beginningFlag : UInt8 := 0x02

def endFlag : UInt8 := 0x04

def noGranule : UInt64 := 0xFFFFFFFFFFFFFFFF

def has (page : Page) (flag : UInt8) : Bool := page.flags &&& flag != 0

def isContinued (page : Page) : Bool := page.has continuedFlag

def isBeginning (page : Page) : Bool := page.has beginningFlag

def isEnd (page : Page) : Bool := page.has endFlag

/-- Whether the data begin with a page, as far as their first octets tell. -/
def isCaptured (data : Bytes) : Bool := Latin1.startsWith data capturePattern

def size (page : Page) : Nat := headerSize + page.lacing.length + page.body.length

def header (page : Page) : Bytes :=
  Latin1.bytes capturePattern ++
    (LittleEndian.digits 1 page.version.toNat ++
    (LittleEndian.digits 1 page.flags.toNat ++
    (LittleEndian.digits 8 page.granule.toNat ++
    (LittleEndian.digits 4 page.serial.toNat ++
    (LittleEndian.digits 4 page.sequence.toNat ++
    (LittleEndian.digits 4 page.checksum.toNat ++
    LittleEndian.digits 1 page.lacing.length))))))

def encode (page : Page) : Bytes :=
  page.header ++ (page.lacing ++ page.body)

@[simp] theorem length_header (page : Page) : page.header.length = headerSize := by
  simp [header, headerSize]

@[simp] theorem length_encode (page : Page) : page.encode.length = page.size := by
  simp [encode, size, Nat.add_assoc]

/-- The page at the front of `bytes`, which begin at `offset` in the data, and what follows it. The
header, the table and the body are missed in this order. -/
def decode (offset : Nat) (bytes : Bytes) : Except Fault (Page × Bytes) :=
  if isCaptured bytes then
    let missing (expected : Nat) : Fault := .truncatedPage offset expected bytes.length
    match Bytes.split? headerSize bytes with
    | none => .error (missing headerSize)
    | some (header, afterHeader) =>
      let segments := LittleEndian.field 1 header 26
      match hlacing : Bytes.split? segments afterHeader with
      | none => .error (missing (headerSize + segments))
      | some (lacing, afterLacing) =>
        match hbody : Bytes.split? (Lacing.total lacing) afterLacing with
        | none => .error (missing (headerSize + segments + Lacing.total lacing))
        | some (body, rest) => do
          let granule ← LittleEndian.uint64 header 6
          let serial ← LittleEndian.uint32 header 14
          let sequence ← LittleEndian.uint32 header 18
          let checksum ← LittleEndian.uint32 header 22
          return ({ version := .ofNat (LittleEndian.field 1 header 4)
                    flags := .ofNat (LittleEndian.field 1 header 5)
                    granule := granule
                    serial := serial
                    sequence := sequence
                    checksum := checksum
                    lacing := lacing
                    body := body
                    offset := offset
                    lacing_length_le := by
                      have : segments < 256 := LittleEndian.field_lt 1 header 26
                      have := (Bytes.split?_eq_some_iff.1 hlacing).2
                      omega
                    body_length := (Bytes.split?_eq_some_iff.1 hbody).2 }, rest)
  else .error (.invalidPage offset)

theorem readers_of_header {α : Type} {header : Bytes} (hsize : header.length = headerSize)
    (next : UInt64 → UInt32 → UInt32 → UInt32 → α) :
    (do
      let granule ← LittleEndian.uint64 header 6
      let serial ← LittleEndian.uint32 header 14
      let sequence ← LittleEndian.uint32 header 18
      let checksum ← LittleEndian.uint32 header 22
      return next granule serial sequence checksum) =
      (.ok (next (.ofNat (LittleEndian.field 8 header 6)) (.ofNat (LittleEndian.field 4 header 14))
        (.ofNat (LittleEndian.field 4 header 18))
        (.ofNat (LittleEndian.field 4 header 22))) : Except Fault α) := by
  have hsize : header.length = 27 := hsize
  rw [LittleEndian.uint64_of_le (by omega), LittleEndian.uint32_of_le (by omega),
    LittleEndian.uint32_of_le (by omega), LittleEndian.uint32_of_le (by omega)]
  rfl

theorem header_eq_fields {header : Bytes} (hsize : header.length = headerSize)
    (hcapture : header.take 4 = Latin1.bytes capturePattern) :
    header = Latin1.bytes capturePattern ++
      (LittleEndian.digits 1 (LittleEndian.field 1 header 4) ++
      (LittleEndian.digits 1 (LittleEndian.field 1 header 5) ++
      (LittleEndian.digits 8 (LittleEndian.field 8 header 6) ++
      (LittleEndian.digits 4 (LittleEndian.field 4 header 14) ++
      (LittleEndian.digits 4 (LittleEndian.field 4 header 18) ++
      (LittleEndian.digits 4 (LittleEndian.field 4 header 22) ++
      LittleEndian.digits 1 (LittleEndian.field 1 header 26))))))) := by
  have hsize : header.length = 27 := hsize
  have htile (offset width : Nat) (hle : offset + width ≤ 27) :
      header.drop offset =
        LittleEndian.digits width (LittleEndian.field width header offset) ++
          header.drop (offset + width) :=
    LittleEndian.drop_eq_digits_append (by rwa [hsize])
  have hnil : header.drop 27 = [] := by simp [hsize]
  calc header = header.take 4 ++ header.drop 4 := (List.take_append_drop 4 header).symm
    _ = _ := by
      rw [hcapture, htile 4 1 (by decide), htile 5 1 (by decide), htile 6 8 (by decide),
        htile 14 4 (by decide), htile 18 4 (by decide), htile 22 4 (by decide),
        htile 26 1 (by decide), hnil, List.append_nil]

/-- The octets that a page takes as far as its beginning tells: those of the header, with a whole
header also those of the table, and with a whole table also those of the body. -/
def required (bytes : Bytes) : Nat :=
  let segments := LittleEndian.field 1 bytes 26
  if bytes.length < headerSize then headerSize
  else if bytes.length < headerSize + segments then headerSize + segments
  else headerSize + segments + Lacing.total ((bytes.drop headerSize).take segments)

theorem required_of_length_lt {bytes : Bytes} (h : bytes.length < headerSize) :
    required bytes = headerSize := by
  rw [required, if_pos h]

theorem required_header_append {header rest : Bytes} (hsize : header.length = headerSize)
    (h : rest.length < LittleEndian.field 1 header 26) :
    required (header ++ rest) = headerSize + LittleEndian.field 1 header 26 := by
  have hle : 26 + 1 ≤ header.length := Nat.le_of_eq hsize.symm
  simp only [required, LittleEndian.field_append_left hle, List.length_append, hsize]
  rw [if_neg (by omega), if_pos (by omega)]

theorem required_table_append {header lacing : Bytes} (hsize : header.length = headerSize)
    (hcount : lacing.length = LittleEndian.field 1 header 26) (rest : Bytes) :
    required (header ++ (lacing ++ rest)) =
      headerSize + LittleEndian.field 1 header 26 + Lacing.total lacing := by
  have hle : 26 + 1 ≤ header.length := Nat.le_of_eq hsize.symm
  simp only [required, LittleEndian.field_append_left hle, List.length_append, hsize]
  rw [if_neg (by omega), if_neg (by omega), List.drop_left' hsize, List.take_left' hcount]

/-- All that decoding can come to. The octets begin no page, or they end before the page does, or
they are the octets of a page and what follows it. -/
theorem decode_cases {offset : Nat} {bytes : Bytes} {result : Except Fault (Page × Bytes)}
    (h : decode offset bytes = result) :
    (isCaptured bytes = false ∧ result = .error (.invalidPage offset)) ∨
    (isCaptured bytes = true ∧ bytes.length < required bytes ∧
      result = .error (.truncatedPage offset (required bytes) bytes.length)) ∨
    ∃ page rest, result = .ok (page, rest) ∧ bytes = page.encode ++ rest ∧
      page.offset = offset := by
  unfold decode at h
  by_cases hcaptured : isCaptured bytes = true
  · rw [if_pos hcaptured] at h
    refine .inr ?_
    split at h
    · rename_i hnone
      have hlt := Bytes.split?_eq_none_iff.1 hnone
      have hrequired := required_of_length_lt hlt
      exact .inl ⟨hcaptured, by rwa [hrequired], by rw [hrequired, h.symm]⟩
    · rename_i header afterHeader hheader
      obtain ⟨rfl, hsize⟩ := Bytes.split?_eq_some_iff.1 hheader
      dsimp only at h
      split at h
      · rename_i hnone
        have hlt := Bytes.split?_eq_none_iff.1 hnone
        have hrequired := required_header_append hsize hlt
        refine .inl ⟨hcaptured, ?_, by rw [hrequired, h.symm, Int.natCast_add]⟩
        rw [hrequired, List.length_append]
        omega
      · rename_i lacing afterLacing hlacing
        obtain ⟨rfl, hcount⟩ := Bytes.split?_eq_some_iff.1 hlacing
        split at h
        · rename_i hnone
          have hlt := Bytes.split?_eq_none_iff.1 hnone
          have hrequired := required_table_append hsize hcount afterLacing
          refine .inl ⟨hcaptured, ?_, by rw [hrequired, h.symm]⟩
          simp only [hrequired, List.length_append]
          omega
        · rename_i body rest hbody
          rw [readers_of_header hsize] at h
          obtain ⟨rfl, -⟩ := Bytes.split?_eq_some_iff.1 hbody
          have hcapture : header.take 4 = Latin1.bytes capturePattern := by
            have := congrArg (List.take 4) (Latin1.eq_bytes_append_of_startsWith hcaptured)
            rwa [List.take_append_of_le_length (by rw [hsize]; decide),
              List.take_left' (by decide)] at this
          have hfields := header_eq_fields hsize hcapture
          refine .inr ⟨_, rest, h.symm, ?_, rfl⟩
          refine (congrArg (· ++ (lacing ++ (body ++ rest))) hfields).trans ?_
          simp only [encode, Page.header, hcount, LittleEndian.toNat_uint8_field,
            LittleEndian.toNat_uint32_field, LittleEndian.toNat_uint64_field, List.append_assoc]
  · rw [if_neg hcaptured] at h
    exact .inl ⟨by simpa using hcaptured, h.symm⟩

theorem eq_encode_append_of_decode {offset : Nat} {bytes rest : Bytes} {page : Page}
    (h : decode offset bytes = .ok (page, rest)) :
    bytes = page.encode ++ rest ∧ page.offset = offset := by
  rcases decode_cases h with ⟨-, herror⟩ | ⟨-, -, herror⟩ | ⟨_, _, hok, hpage⟩
  · cases herror
  · cases herror
  · cases hok
    exact hpage

theorem fault_of_decode {offset : Nat} {bytes : Bytes} {fault : Fault}
    (h : decode offset bytes = .error fault) :
    (isCaptured bytes = false ∧ fault = .invalidPage offset) ∨
    (isCaptured bytes = true ∧ bytes.length < required bytes ∧
      fault = .truncatedPage offset (required bytes) bytes.length) := by
  rcases decode_cases h with ⟨hcaptured, herror⟩ | ⟨hcaptured, hlt, herror⟩ | ⟨_, _, hok, -⟩
  · exact .inl ⟨hcaptured, Except.error.inj herror⟩
  · exact .inr ⟨hcaptured, hlt, Except.error.inj herror⟩
  · cases hok

/-- No offset makes reading a page fail for another reason than that the data are not as they should
be. -/
theorem isUnsupported_of_decode {offset : Nat} {bytes : Bytes} {fault : Fault}
    (h : decode offset bytes = .error fault) : fault.isUnsupported = true := by
  rcases fault_of_decode h with ⟨-, rfl⟩ | ⟨-, -, rfl⟩ <;> rfl

theorem length_lt_of_decode {offset : Nat} {bytes rest : Bytes} {page : Page}
    (h : decode offset bytes = .ok (page, rest)) : rest.length < bytes.length := by
  obtain ⟨rfl, -⟩ := eq_encode_append_of_decode h
  simp only [List.length_append, length_encode, size, headerSize]
  omega

theorem isCaptured_iff {data : Bytes} :
    isCaptured data = true ↔ Latin1.bytes capturePattern <+: data :=
  Latin1.startsWith_iff (by decide)

@[simp] theorem isCaptured_encode_append (page : Page) (rest : Bytes) :
    isCaptured (page.encode ++ rest) = true := by
  simp only [isCaptured, encode, header, List.append_assoc]
  exact Latin1.startsWith_append (by decide) _

theorem field_header (page : Page) :
    LittleEndian.field 1 page.header 4 = page.version.toNat ∧
    LittleEndian.field 1 page.header 5 = page.flags.toNat ∧
    LittleEndian.field 8 page.header 6 = page.granule.toNat ∧
    LittleEndian.field 4 page.header 14 = page.serial.toNat ∧
    LittleEndian.field 4 page.header 18 = page.sequence.toNat ∧
    LittleEndian.field 4 page.header 22 = page.checksum.toNat ∧
    LittleEndian.field 1 page.header 26 = page.lacing.length := by
  have hlacing : page.lacing.length < LittleEndian.limit 1 :=
    Nat.lt_succ_of_le page.lacing_length_le
  simp [header, LittleEndian.field_append_right, hlacing]

@[simp] theorem decode_encode_append (page : Page) (offset : Nat) (rest : Bytes) :
    decode offset (page.encode ++ rest) = .ok ({ page with offset := offset }, rest) := by
  obtain ⟨hversion, hflags, hgranule, hserial, hsequence, hchecksum, hsegments⟩ :=
    field_header page
  unfold decode
  rw [if_pos (isCaptured_encode_append page rest)]
  have hheader : Bytes.split? headerSize (page.encode ++ rest) =
      some (page.header, page.lacing ++ (page.body ++ rest)) :=
    Bytes.split?_eq_some_iff.2 ⟨by simp [encode], page.length_header⟩
  rw [hheader]
  dsimp only
  split
  · rename_i hnone
    rw [Bytes.split?_eq_none_iff, hsegments, List.length_append] at hnone
    omega
  · rename_i lacing afterLacing hlacing
    obtain ⟨heq, hlength⟩ := Bytes.split?_eq_some_iff.1 hlacing
    obtain ⟨rfl, rfl⟩ := List.append_inj heq (hsegments.symm.trans hlength.symm)
    split
    · rename_i hnone
      rw [Bytes.split?_eq_none_iff, List.length_append, page.body_length] at hnone
      omega
    · rename_i body rest' hbody
      obtain ⟨heq, hlength⟩ := Bytes.split?_eq_some_iff.1 hbody
      obtain ⟨rfl, rfl⟩ := List.append_inj heq (page.body_length.trans hlength.symm)
      rw [readers_of_header page.length_header]
      simp [hversion, hflags, hgranule, hserial, hsequence, hchecksum]

def parse (data : Bytes) (offset : Int) : Except Fault Page :=
  if offset < 0 then .error (.invalidPage offset)
  else Prod.fst <$> decode offset.toNat (data.drop offset.toNat)

end Page
end OpusStream
