import OpusStream.Proofs.CommentPacket
import OpusStream.Proofs.StorageOrder

/-!
# Fields that have no part in reading

The version, the granule position, the checksum and all flags but the first have no part in reading
headers. Octets that differ from those of pages only there are again the octets of such pages, so a
scan finds them where it found the others, and the same is read from them.
-/

namespace OpusStream

/-- Whether two strings are of the same size and differ only where they may. -/
structure Bytes.AgreeBut (may : Nat → UInt8 → UInt8 → Prop) (bytes other : Bytes) : Prop where
  length_eq : other.length = bytes.length
  octets : ∀ (index : Nat) (h : index < bytes.length) (h' : index < other.length),
    bytes[index] ≠ other[index] → may index bytes[index] other[index]

namespace Bytes.AgreeBut

variable {may may' : Nat → UInt8 → UInt8 → Prop} {bytes other front rest : Bytes}

theorem mono (h : AgreeBut may bytes other)
    (hmay : ∀ index < bytes.length, ∀ octet octet', may index octet octet' → may' index octet octet') :
    AgreeBut may' bytes other where
  length_eq := h.length_eq
  octets index hindex hindex' hne := hmay index hindex _ _ (h.octets index hindex hindex' hne)

theorem getElem?_eq (h : AgreeBut may bytes other) {index : Nat}
    (hnone : ∀ octet octet', ¬ may index octet octet') : other[index]? = bytes[index]? := by
  by_cases hindex : index < bytes.length
  · have hindex' : index < other.length := by rwa [h.length_eq]
    rw [List.getElem?_eq_getElem hindex, List.getElem?_eq_getElem hindex', Option.some_inj]
    by_contra hne
    exact hnone _ _ (h.octets index hindex hindex' (Ne.symm hne))
  · have hindex' : ¬ index < other.length := by rwa [h.length_eq]
    rw [List.getElem?_eq_none (Nat.le_of_not_lt hindex),
      List.getElem?_eq_none (Nat.le_of_not_lt hindex')]

theorem eq (h : AgreeBut may bytes other) (hnone : ∀ index octet octet', ¬ may index octet octet') :
    other = bytes :=
  List.ext_getElem? fun index => h.getElem?_eq (hnone index)

theorem take_drop_eq (h : AgreeBut may bytes other) {offset width : Nat}
    (hnone : ∀ index octet octet', offset ≤ index → index < offset + width →
      ¬ may index octet octet') :
    (other.drop offset).take width = (bytes.drop offset).take width := by
  apply List.ext_getElem?
  intro index
  by_cases hindex : index < width
  · rw [List.getElem?_take_of_lt hindex, List.getElem?_take_of_lt hindex, List.getElem?_drop,
      List.getElem?_drop]
    apply h.getElem?_eq
    intro octet octet'
    exact hnone _ octet octet' (Nat.le_add_right _ _) (Nat.add_lt_add_left hindex offset)
  · rw [List.getElem?_take_eq_none (Nat.le_of_not_lt hindex),
      List.getElem?_take_eq_none (Nat.le_of_not_lt hindex)]

theorem exists_append (h : AgreeBut may (front ++ rest) other) :
    ∃ front' rest', other = front' ++ rest' ∧ AgreeBut may front front' ∧
      AgreeBut (fun index => may (front.length + index)) rest rest' := by
  have hlength := h.length_eq
  rw [List.length_append] at hlength
  refine ⟨other.take front.length, other.drop front.length, (List.take_append_drop _ _).symm, ?_, ?_⟩
  · refine ⟨by rw [List.length_take]; omega, ?_⟩
    intro index hindex hindex' hne
    have hwhole : index < (front ++ rest).length := by
      rw [List.length_append]
      omega
    have hoctet : (front ++ rest)[index] = front[index] := List.getElem_append_left hindex
    rw [List.getElem_take] at hne ⊢
    rw [← hoctet] at hne ⊢
    exact h.octets index hwhole (by omega) hne
  · refine ⟨by rw [List.length_drop]; omega, ?_⟩
    intro index hindex hindex' hne
    have hwhole : front.length + index < (front ++ rest).length := by
      rw [List.length_append]
      omega
    have hoctet : (front ++ rest)[front.length + index] = rest[index] := by simp
    rw [List.getElem_drop] at hne ⊢
    rw [← hoctet] at hne ⊢
    exact h.octets _ hwhole (by omega) hne

end Bytes.AgreeBut

namespace Page

/-- Whether octets at a place of a page may differ without any part in reading headers: in the
version, in the flags but for the first, in the granule position and in the checksum. -/
def MayDiffer (index : Nat) (octet octet' : UInt8) : Prop :=
  index = 4 ∨ (index = 5 ∧ octet &&& continuedFlag = octet' &&& continuedFlag) ∨
    (6 ≤ index ∧ index < 14) ∨ (22 ≤ index ∧ index < 26)

def MayDifferIn (pages : List Page) (index : Nat) (octet octet' : UInt8) : Prop :=
  ∃ page ∈ pages, page.offset ≤ index ∧ index < page.offset + page.size ∧
    MayDiffer (index - page.offset) octet octet'

/-- The page without the fields that have no part in reading headers. -/
def core (page : Page) : Page :=
  { page with version := 0, flags := page.flags &&& continuedFlag, granule := 0, checksum := 0 }

@[simp] theorem size_core (page : Page) : page.core.size = page.size := rfl

@[simp] theorem offset_core (page : Page) : page.core.offset = page.offset := rfl

theorem keeps_core : Keeps core where
  serial _ := rfl
  sequence _ := rfl
  isContinued page := by
    change (page.flags &&& continuedFlag &&& continuedFlag != 0) = _
    rw [UInt8.and_assoc, UInt8.and_self]
    rfl
  lacing _ := rfl
  body _ := rfl

theorem map_core_place (offset : Nat) (pages : List Page) :
    (place offset pages).map core = place offset (pages.map core) := by
  induction pages generalizing offset with
  | nil => rfl
  | cons page pages ih =>
    rw [place, List.map_cons, ih, List.map_cons, place, size_core]
    rfl

section Header

variable {page : Page} {header : Bytes}

theorem kept_of_agreeBut (h : Bytes.AgreeBut MayDiffer page.header header) {offset width : Nat}
    (hkept : offset + width ≤ 4 ∨ (14 ≤ offset ∧ offset + width ≤ 22) ∨ 26 ≤ offset) :
    (header.drop offset).take width = (page.header.drop offset).take width := by
  apply h.take_drop_eq
  intro index octet octet' hfrom hto
  rw [MayDiffer]
  omega

theorem flags_of_agreeBut (h : Bytes.AgreeBut MayDiffer page.header header) :
    UInt8.ofNat (LittleEndian.field 1 header 5) &&& continuedFlag = page.flags &&& continuedFlag := by
  have hindex : 5 < page.header.length := by
    rw [length_header]
    decide
  have hindex' : 5 < header.length := by rwa [h.length_eq]
  obtain ⟨-, hflags, -⟩ := field_header page
  have hpage : page.header[5] = page.flags := by
    rw [← LittleEndian.ofNat_field_one hindex, hflags, UInt8.ofNat_toNat]
  rw [LittleEndian.ofNat_field_one hindex', ← hpage]
  by_cases heq : page.header[5] = header[5]
  · rw [heq]
  · rcases h.octets 5 hindex hindex' heq with hversion | ⟨-, hflag⟩ | ⟨hgranule, -⟩ | ⟨hchecksum, -⟩
    · omega
    · exact hflag.symm
    · omega
    · omega

theorem exists_header_of_agreeBut (h : Bytes.AgreeBut MayDiffer page.header header) :
    ∃ other : Page, header = other.header ∧ other.core = page.core := by
  obtain ⟨-, -, -, hserial, hsequence, -, hsegments⟩ := field_header page
  have hlength : header.length = headerSize := h.length_eq.trans page.length_header
  have hcapture : header.take 4 = Latin1.bytes capturePattern :=
    kept_of_agreeBut h (.inl (Nat.le_of_eq (Nat.zero_add 4)))
  have hserial' : LittleEndian.field 4 header 14 = page.serial.toNat :=
    (congrArg LittleEndian.value (kept_of_agreeBut h (by decide))).trans hserial
  have hsequence' : LittleEndian.field 4 header 18 = page.sequence.toNat :=
    (congrArg LittleEndian.value (kept_of_agreeBut h (by decide))).trans hsequence
  have hsegments' : LittleEndian.field 1 header 26 = page.lacing.length :=
    (congrArg LittleEndian.value (kept_of_agreeBut h (by decide))).trans hsegments
  refine ⟨{ page with
    version := .ofNat (LittleEndian.field 1 header 4)
    flags := .ofNat (LittleEndian.field 1 header 5)
    granule := .ofNat (LittleEndian.field 8 header 6)
    checksum := .ofNat (LittleEndian.field 4 header 22) }, ?_, ?_⟩
  · refine (header_eq_fields hlength hcapture).trans ?_
    rw [hserial', hsequence', hsegments']
    simp only [Page.header, LittleEndian.toNat_uint8_field, LittleEndian.toNat_uint32_field,
      LittleEndian.toNat_uint64_field]
  · rw [core, core, flags_of_agreeBut h]

end Header

theorem exists_encode_of_agreeBut {page : Page} {bytes : Bytes}
    (h : Bytes.AgreeBut MayDiffer page.encode bytes) :
    ∃ other : Page, bytes = other.encode ∧ other.core = page.core := by
  obtain ⟨header, rest, rfl, hheader, hrest⟩ := h.exists_append
  obtain ⟨other, rfl, hcore⟩ := exists_header_of_agreeBut hheader
  have hsame : rest = page.lacing ++ page.body := by
    apply hrest.eq
    intro index octet octet'
    rw [MayDiffer, length_header, headerSize]
    omega
  have hlacing : other.lacing = page.lacing := congrArg (·.lacing) hcore
  have hbody : other.body = page.body := congrArg (·.body) hcore
  exact ⟨other, by rw [hsame, encode, hlacing, hbody], hcore⟩

theorem le_of_mayDifferIn_place {offset index : Nat} {pages : List Page} {octet octet' : UInt8}
    (h : MayDifferIn (place offset pages) index octet octet') : offset ≤ index := by
  obtain ⟨page, hpage, hfrom, -⟩ := h
  exact (offset_le_of_mem_place hpage).trans hfrom

theorem mayDifferIn_place_cons {offset index : Nat} {page : Page} {pages : List Page}
    {octet octet' : UInt8} :
    MayDifferIn (place offset (page :: pages)) (offset + index) octet octet' ↔
      (index < page.size ∧ MayDiffer index octet octet') ∨
        MayDifferIn (place (offset + page.size) pages) (offset + index) octet octet' := by
  simp only [MayDifferIn, place, List.exists_mem_cons_iff, Nat.add_sub_cancel_left,
    Nat.le_add_right, true_and, Nat.add_lt_add_iff_left]
  rfl

/-- What differs from pages only where it may is pages again, which differ only there. -/
theorem exists_encodeAll_of_agreeBut {offset : Nat} {pages : List Page} {rest other : Bytes}
    (h : Bytes.AgreeBut (fun index => MayDifferIn (place offset pages) (offset + index))
      (encodeAll pages ++ rest) other) :
    ∃ others, other = encodeAll others ++ rest ∧ others.map core = pages.map core := by
  induction pages generalizing offset other with
  | nil =>
    refine ⟨[], h.eq ?_, rfl⟩
    rintro index octet octet' ⟨page, hpage, -⟩
    cases hpage
  | cons page pages ih =>
    rw [encodeAll_cons, List.append_assoc] at h
    obtain ⟨front, back, rfl, hfront, hback⟩ := h.exists_append
    rw [length_encode] at hback
    have hpage : Bytes.AgreeBut MayDiffer page.encode front := by
      apply hfront.mono
      intro index hindex octet octet' hmay
      rw [length_encode] at hindex
      rcases mayDifferIn_place_cons.mp hmay with ⟨-, hinside⟩ | hlater
      · exact hinside
      · have := le_of_mayDifferIn_place hlater
        omega
    have hpages : Bytes.AgreeBut
        (fun index => MayDifferIn (place (offset + page.size) pages)
          (offset + page.size + index)) (encodeAll pages ++ rest) back := by
      apply hback.mono
      intro index _ octet octet' hmay
      rw [Nat.add_assoc]
      rcases mayDifferIn_place_cons.mp hmay with ⟨hinside, -⟩ | hlater
      · omega
      · exact hlater
    obtain ⟨changed, rfl, hchanged⟩ := exists_encode_of_agreeBut hpage
    obtain ⟨others, rfl, hothers⟩ := ih hpages
    exact ⟨changed :: others, by simp, by simp [hchanged, hothers]⟩

theorem idxOf_eq_idxOf_offset {pages : List Page} (h : (pages.map (·.offset)).Nodup) {page : Page}
    (hpage : page ∈ pages) : pages.idxOf page = (pages.map (·.offset)).idxOf page.offset := by
  induction pages with
  | nil => cases hpage
  | cons first pages ih =>
    rw [List.map_cons, List.nodup_cons] at h
    by_cases hfirst : first = page
    · rw [List.map_cons, hfirst, List.idxOf_cons_self, List.idxOf_cons_self]
    · have hrest : page ∈ pages := (List.mem_cons.mp hpage).resolve_left (Ne.symm hfirst)
      have hoffset : first.offset ≠ page.offset := by
        intro heq
        apply h.1
        rw [heq]
        exact List.mem_map_of_mem hrest
      rw [List.map_cons, List.idxOf_cons_ne _ hfirst, List.idxOf_cons_ne _ hoffset, ih h.2 hrest]

end Page

open Page

namespace Headers

def headIndex (headers : Headers) : Nat := headers.pages.idxOf headers.head.page

def commentIndexes (headers : Headers) : Option (List Nat) :=
  headers.comments.map fun info => info.pages.map fun page => headers.pages.idxOf page

/-- Whether two answers have their pages at the same offsets and tell the same about them. -/
structure ReadsAs (headers other : Headers) : Prop where
  offsets : other.pages.map (·.offset) = headers.pages.map (·.offset)
  headIndex : other.headIndex = headers.headIndex
  sampleRate : other.head.sampleRate = headers.head.sampleRate
  headDetails : other.head.details = headers.head.details
  commentIndexes : other.commentIndexes = headers.commentIndexes
  commentDetails : other.comments.map (·.details) = headers.comments.map (·.details)

/-- Whether the pages of the headers are among all pages, of which no two have the same offset. -/
structure IsPlaced (headers : Headers) : Prop where
  offsets : (headers.pages.map (·.offset)).Nodup
  head : headers.head.page ∈ headers.pages
  comments : ∀ info ∈ headers.comments, ∀ page ∈ info.pages, page ∈ headers.pages

theorem IsPlaced.headIndex_eq {headers : Headers} (h : headers.IsPlaced) :
    headers.headIndex = (headers.pages.map (·.offset)).idxOf headers.head.page.offset :=
  idxOf_eq_idxOf_offset h.offsets h.head

theorem IsPlaced.commentIndexes_eq {headers : Headers} (h : headers.IsPlaced) :
    headers.commentIndexes = (headers.comments.map fun info => info.pages.map (·.offset)).map
      (List.map fun offset => (headers.pages.map (·.offset)).idxOf offset) := by
  rw [Option.map_map]
  apply Option.map_congr
  intro info hinfo
  rw [Function.comp_apply, List.map_map]
  apply List.map_congr_left
  intro page hpage
  exact idxOf_eq_idxOf_offset h.offsets (h.comments info hinfo page hpage)

theorem isPlaced_of_ofPages {pages : List Page} (hoffsets : (pages.map (·.offset)).Nodup)
    {headers : Headers} (h : ofPages pages = .ok headers) : headers.IsPlaced := by
  obtain ⟨-, page, hpage, -, rfl⟩ := ofPages_eq_ok_iff.mp h
  refine ⟨hoffsets, List.mem_of_find?_eq_some hpage, ?_⟩
  intro info hinfo
  obtain ⟨found, hfound, rfl⟩ := Option.map_eq_some_iff.mp hinfo
  obtain ⟨before, first, middle, last, after, rfl, -, -, -, -, rfl⟩ :=
    CommentPages.find?_eq_some_iff.mp hfound
  intro other hother
  simp only [CommentInfo.pages_onPages, List.mem_cons, List.mem_append] at hother ⊢
  tauto

theorem readsAs_of_mapPages_core {headers other : Headers} (hheaders : headers.IsPlaced)
    (hother : other.IsPlaced) (h : other.mapPages core = headers.mapPages core) :
    headers.ReadsAs other := by
  have hoffsets : other.pages.map (·.offset) = headers.pages.map (·.offset) := by
    simpa [Function.comp_def] using congrArg (·.pages.map (·.offset)) h
  have hhead : other.head.mapPages core = headers.head.mapPages core := congrArg (·.head) h
  have hcomments : (other.comments.map fun info => info.pages.map (·.offset)) =
      headers.comments.map fun info => info.pages.map (·.offset) := by
    simpa [Function.comp_def] using
      congrArg (·.comments.map fun info => info.pages.map (·.offset)) h
  have hpage : other.head.page.offset = headers.head.page.offset := by
    simpa using congrArg (·.page.offset) hhead
  constructor
  · exact hoffsets
  · rw [hother.headIndex_eq, hheaders.headIndex_eq, hoffsets, hpage]
  · simpa using congrArg (·.sampleRate) hhead
  · simpa using congrArg (·.details) hhead
  · rw [hother.commentIndexes_eq, hheaders.commentIndexes_eq, hoffsets, hcomments]
  · simpa [Function.comp_def] using congrArg (·.comments.map (·.details)) h

end Headers

/-- Whether two data differ only inside the pages of the first, and there only where the octets of
a page may. -/
def DifferIgnorably (data other : Bytes) : Prop :=
  Bytes.AgreeBut (MayDifferIn (Scan.of data).pages) data other

namespace Scan

theorem nodup_offset_sorted (data : Bytes) : ((Scan.of data).sorted.map (·.offset)).Nodup := by
  have hperm : ((Scan.of data).sorted.map (·.offset)).Perm ((Scan.of data).pages.map (·.offset)) :=
    (isStableSort_sort (Scan.of data).pages).perm.map _
  rw [hperm.nodup_iff, List.Nodup, List.pairwise_map]
  exact (tiling_pages data).ordered.imp Nat.ne_of_lt

theorem map_core_pages {data other : Bytes} (h : DifferIgnorably data other) :
    (Scan.of other).pages.map core = (Scan.of data).pages.map core := by
  obtain ⟨pages, rest, rfl, hrest⟩ := exists_pages data
  rw [DifferIgnorably, pages_of_encode hrest] at h
  have hpages : Bytes.AgreeBut (fun index => MayDifferIn (place 0 pages) (0 + index))
      (encodeAll pages ++ rest) other := by
    simpa only [Nat.zero_add] using h
  obtain ⟨others, rfl, hcore⟩ := exists_encodeAll_of_agreeBut hpages
  rw [pages_of_encode hrest, pages_of_encode hrest, map_core_place, hcore, map_core_place]

theorem map_core_sorted {data other : Bytes} (h : DifferIgnorably data other) :
    (Scan.of other).sorted.map core = (Scan.of data).sorted.map core := by
  rw [sorted, sorted, map_sort keeps_core.sequence, map_sort keeps_core.sequence, map_core_pages h]

end Scan

theorem beginsWithPage_iff_of_differIgnorably {data other : Bytes} (h : DifferIgnorably data other) :
    BeginsWithPage other ↔ BeginsWithPage data := by
  have hcore := congrArg List.length (Scan.map_core_pages h)
  rw [List.length_map, List.length_map] at hcore
  rw [← Scan.pages_ne_nil_iff, ← Scan.pages_ne_nil_iff, ← List.length_pos_iff, ← List.length_pos_iff,
    hcore]

theorem eq_of_differIgnorably {data other : Bytes} (h : DifferIgnorably data other)
    (hdata : ¬ BeginsWithPage data) : other = data := by
  have hpages : (Scan.of data).pages = [] := by
    by_contra hne
    exact hdata (Scan.pages_ne_nil_iff.mp hne)
  apply Bytes.AgreeBut.eq h
  rintro index octet octet' ⟨page, hpage, -⟩
  rw [hpages] at hpage
  cases hpage

theorem isPlaced_of_readHeaders [LineLogger] {options : Options} {data : Bytes} {headers : Headers}
    (hdata : BeginsWithPage data) (h : (readHeaders options data).result = .ok headers) :
    headers.IsPlaced := by
  rw [readHeaders_of_beginsWithPage options hdata] at h
  exact Headers.isPlaced_of_ofPages (Scan.nodup_offset_sorted data) h

/-- Fields that have no part in reading headers can be changed on any pages of the data. The same
fault is found, or the same headers on pages at the same offsets. -/
theorem readHeaders_ignores_fields [LineLogger] (options options' : Options) {data other : Bytes}
    (h : DifferIgnorably data other) :
    (∃ fault, (readHeaders options data).result = .error fault ∧
      (readHeaders options' other).result = .error fault) ∨
    ∃ headers headers', (readHeaders options data).result = .ok headers ∧
      (readHeaders options' other).result = .ok headers' ∧ headers.ReadsAs headers' := by
  by_cases hdata : BeginsWithPage data
  · have hother : BeginsWithPage other := (beginsWithPage_iff_of_differIgnorably h).mpr hdata
    have hmap := map_result_eq keeps_core options' options hother hdata (Scan.map_core_sorted h)
    rcases Fault.exists_of_map_eq_map hmap with ⟨fault, hother', hdata'⟩ | ⟨_, _, hother', hdata', heq⟩
    · exact .inl ⟨fault, hdata', hother'⟩
    · exact .inr ⟨_, _, hdata', hother', Headers.readsAs_of_mapPages_core
        (isPlaced_of_readHeaders hdata hdata') (isPlaced_of_readHeaders hother hother') heq⟩
  · obtain rfl := eq_of_differIgnorably h hdata
    rw [result_readHeaders_eq options' options]
    rcases readHeaders_cases options other with hnot | ⟨expected, htruncated⟩ | ⟨hbegins, -⟩
    · exact .inl ⟨_, hnot, hnot⟩
    · exact .inl ⟨_, htruncated, htruncated⟩
    · exact absurd hbegins hdata

def samplePages : List Page := [sampleFirst, sampleSecond 1, sampleSecond 2]

def sampleChanged : List Page :=
  [{ sampleFirst with version := 9, flags := 0xF8, granule := noGranule, checksum := 0x12345678 },
    { sampleSecond 1 with flags := 0x04, granule := 5 },
    { sampleSecond 2 with version := 1, checksum := 0xFFFFFFFF }]

theorem readHeaders_ignores_fields_sample :
    DifferIgnorably (encodeAll samplePages) (encodeAll sampleChanged) ∧
    encodeAll sampleChanged ≠ encodeAll samplePages ∧
    ∃ headers headers', (readHeaders {} (encodeAll samplePages)).result = .ok headers ∧
      (readHeaders {} (encodeAll sampleChanged)).result = .ok headers' ∧
      headers.ReadsAs headers' := by
  have hscan : (Scan.of (encodeAll samplePages)).pages = place 0 samplePages := by
    simpa using Scan.pages_of_encode not_beginsWithPage_nil samplePages
  have hdiffer : DifferIgnorably (encodeAll samplePages) (encodeAll sampleChanged) := by
    rw [DifferIgnorably, hscan]
    refine ⟨by decide, ?_⟩
    unfold MayDifferIn MayDiffer
    decide +kernel
  have hne : samplePages ≠ [] := List.cons_ne_nil _ _
  have hresult := result_encodeAll {} hne (by decide)
  have hmarked : Stream.carriesHead sampleFirst = true := Stream.carriesHead_iff.mpr (by decide)
  have hread := hresult.trans (Headers.ofPages_cons (by decide) hmarked (by decide))
  refine ⟨hdiffer, by decide, ?_⟩
  rcases readHeaders_ignores_fields {} {} hdiffer with ⟨fault, hfault, -⟩ | hsame
  · rw [hread] at hfault
    cases hfault
  · exact hsame

end OpusStream
