import OpusStream.Proofs.CommentExtent
import OpusStream.Proofs.CommentPacket
import OpusStream.Proofs.StorageOrder

/-!
# A stream is read back

A stream of pages that carry an identification header and a comment header is written as its pages
end to end. The comment header may be cut into any runs of segments, one run on each page, and any
pages may follow. Both headers are read back from the octets.
-/

namespace OpusStream

@[simp] theorem Packet.sizes_place (offset : Nat) (pages : List Page) :
    sizes (Page.place offset pages) = sizes pages := by
  induction pages generalizing offset with
  | nil => rfl
  | cons page pages ih => simp [ih]

@[simp] theorem Packet.bodies_place (offset : Nat) (pages : List Page) :
    bodies (Page.place offset pages) = bodies pages := by
  induction pages generalizing offset with
  | nil => rfl
  | cons page pages ih => simp [ih]

theorem Packet.IsOn.place {packet : Bytes} {pages : List Page} (h : IsOn packet pages)
    (offset : Nat) : IsOn packet (Page.place offset pages) where
  sizes := by simpa using h.sizes
  bodies := by simpa using h.bodies

/-- The pages of a stream in the order of their numbers. -/
structure MuxedStream where
  first : Page
  comments : List Page
  next : Page
  later : List Page

namespace MuxedStream

open Page

def pages (stream : MuxedStream) : List Page :=
  stream.first :: (stream.comments ++ stream.next :: stream.later)

/-- Whether the stream carries these headers. The pages of the comment header are numbered on from 1
and continued after the first of them, and the numbers of the pages after them go on upwards. -/
structure Carries (stream : MuxedStream) (head : Head) (tags : Tags) : Prop where
  single : Stream.IsSingle stream.pages
  first : stream.first.sequence = 0
  head : Packet.IsOn head.encode [stream.first]
  tags : Packet.IsOn tags.encode stream.comments
  numbers : stream.comments.map (·.sequence.toNat) = List.range' 1 stream.comments.length
  continued : ∀ page ∈ stream.comments.tail, page.isContinued = true
  completed : stream.next.isContinued = false
  above : stream.comments.length < stream.next.sequence.toNat
  upwards : (stream.next :: stream.later).Pairwise fun page next => page.sequence < next.sequence

theorem length_lacing_head_le (head : Head) : (Packet.lacing head.encode).length ≤ 255 := by
  have hsize := head.length_encode_le
  rw [Packet.lacing, List.length_append, List.length_replicate, List.length_singleton]
  omega

def headPage (head : Head) (serial : UInt32) : Page where
  version := 0
  flags := beginningFlag
  granule := 0
  serial := serial
  sequence := 0
  checksum := 0
  lacing := Packet.lacing head.encode
  body := head.encode
  offset := 0
  lacing_length_le := length_lacing_head_le head
  body_length := (Packet.total_lacing head.encode).symm

theorem isOn_headPage (head : Head) (serial : UInt32) :
    Packet.IsOn head.encode [headPage head serial] where
  sizes := by simp [headPage]
  bodies := by simp [headPage]

/-- However the comment header is cut into runs of segments and whatever pages come later, there is
a stream with one run on each page. -/
theorem exists_carries (head : Head) (tags : Tags) {runs : List Bytes}
    (hcut : runs.flatten = Packet.lacing tags.encode) (hruns : ∀ run ∈ runs, run.length ≤ 255)
    {next : Page} {later : List Page} (hserials : ∀ page ∈ later, page.serial = next.serial)
    (hcompleted : next.isContinued = false) (habove : runs.length < next.sequence.toNat)
    (hupwards : (next :: later).Pairwise fun page next => page.sequence < next.sequence) :
    ∃ stream : MuxedStream, stream.Carries head tags ∧ stream.comments.map (·.lacing) = runs ∧
      stream.next = next ∧ stream.later = later := by
  have hnumber : 1 + runs.length ≤ LittleEndian.limit 4 := by
    have hlt : next.sequence.toNat < LittleEndian.limit 4 := next.sequence.toNat_lt
    omega
  have hsize : tags.encode.length = Lacing.total runs.flatten := by
    rw [hcut, Packet.total_lacing]
  obtain ⟨comments, hlacing, hbodies, hnumbers, hpages⟩ :=
    Packet.exists_pages_of_runs next.serial hruns hnumber hsize
  have hlength : comments.length = runs.length := by
    rw [← hlacing, List.length_map]
  refine ⟨⟨headPage head next.serial, comments, next, later⟩, ?_, hlacing, rfl, rfl⟩
  have hserial : ∀ page ∈ headPage head next.serial :: (comments ++ next :: later),
      page.serial = next.serial := by
    intro page hpage
    rcases List.mem_cons.1 hpage with rfl | hrest
    · rfl
    · rcases List.mem_append.1 hrest with hcomment | hafter
      · exact (hpages page hcomment).1
      · rcases List.mem_cons.1 hafter with rfl | hlater
        · rfl
        · exact hserials page hlater
  exact {
    single := fun page hpage other hother => (hserial page hpage).trans (hserial other hother).symm
    first := rfl
    head := isOn_headPage head next.serial
    tags := by
      refine ⟨?_, hbodies⟩
      rw [Packet.sizes, List.flatMap_def, hlacing, hcut]
    numbers := by
      rw [hlength]
      exact hnumbers
    continued := fun page hpage => (hpages page (List.mem_of_mem_tail hpage)).2
    completed := hcompleted
    above := by
      rw [hlength]
      exact habove
    upwards := hupwards }

variable {stream : MuxedStream} {head : Head} {tags : Tags}

theorem Carries.ascending (h : stream.Carries head tags) : Ascending stream.pages := by
  have hcomments : (stream.comments.map (·.sequence.toNat)).Pairwise (· < ·) := by
    rw [h.numbers]
    exact List.pairwise_lt_range'
  have hbounds (page : Page) (hpage : page ∈ stream.comments) :
      page.sequence.toNat ≤ stream.comments.length := by
    have hmem : page.sequence.toNat ∈ stream.comments.map (·.sequence.toNat) :=
      List.mem_map_of_mem hpage
    rw [h.numbers, List.mem_range'_1] at hmem
    omega
  have hlater (page : Page) (hpage : page ∈ stream.next :: stream.later) :
      stream.comments.length < page.sequence.toNat := by
    rcases List.mem_cons.1 hpage with rfl | hmem
    · exact h.above
    · have := UInt32.lt_iff_toNat_lt.1 (List.rel_of_pairwise_cons h.upwards hmem)
      exact h.above.trans this
  refine .cons ?_ (List.pairwise_append.2 ⟨?_, h.upwards.imp UInt32.le_of_lt, ?_⟩)
  · intro page _
    rw [h.first]
    exact UInt32.zero_le
  · refine (List.pairwise_map.1 hcomments).imp ?_
    intro page next hlt
    exact UInt32.le_iff_toNat_le.2 hlt.le
  · intro page hpage next hnext
    exact UInt32.le_iff_toNat_le.2 ((hbounds page hpage).trans (hlater next hnext).le)

theorem Carries.body_first (h : stream.Carries head tags) : stream.first.body = head.encode := by
  simpa using h.head.bodies

theorem Carries.findHead? (h : stream.Carries head tags) :
    Stream.findHead? (place 0 stream.pages) = some { stream.first with offset := 0 } := by
  have hcarries : Stream.carriesHead { stream.first with offset := 0 } = true := by
    rw [Stream.carriesHead_iff]
    change _ <+: stream.first.body
    rw [h.body_first]
    exact head.marker_prefix_encode
  rw [Stream.findHead?, MuxedStream.pages, place_cons]
  exact List.find?_cons_of_pos hcarries

theorem Carries.findComments? (h : stream.Carries head tags) :
    CommentPages.find? (place 0 stream.pages) =
      some (place stream.first.size (stream.comments ++ [stream.next])) := by
  have hnumbers := h.numbers
  have hcontinued := h.continued
  have hpages : stream.pages = stream.first :: ((stream.comments ++ [stream.next]) ++ stream.later) := by
    simp [MuxedStream.pages]
  rw [hpages, place_cons, Nat.zero_add, place_append]
  cases hcomments : stream.comments with
  | nil => exact absurd hcomments h.tags.ne_nil
  | cons page comments =>
    rw [hcomments] at hnumbers hcontinued
    have hbefore : ∀ other ∈ [{ stream.first with offset := 0 }],
        other.sequence ≠ CommentPages.firstSequence := by
      intro other hother
      rw [List.mem_singleton.1 hother]
      change stream.first.sequence ≠ _
      rw [h.first]
      decide
    have hfirst (offset : Nat) :
        Page.sequence { page with offset := offset } = CommentPages.firstSequence := by
      have hone : page.sequence.toNat = 1 := by simpa using (List.cons.inj hnumbers).1
      exact UInt32.toNat_inj.1 hone
    have hcompleted (offset : Nat) :
        isContinued { stream.next with offset := offset } = false := h.completed
    have hmiddle (offset : Nat) : ∀ other ∈ place offset comments, other.isContinued = true :=
      forall_mem_place (fun _ => rfl) hcontinued
    simp only [List.cons_append, place_cons, place_append, List.append_assoc]
    exact CommentPages.find?_block hbefore (hfirst _) (hmiddle _) (hcompleted _) _

theorem Carries.onPage_first (h : stream.Carries head tags) :
    HeadInfo.onPage { stream.first with offset := 0 } =
      ⟨{ stream.first with offset := 0 }, head.inputRate, .ok head⟩ := by
  simp [HeadInfo.onPage, h.body_first]

theorem Carries.onPages_comments (h : stream.Carries head tags) (htags : tags.Fits) (offset : Nat) :
    CommentInfo.onPages (place offset (stream.comments ++ [stream.next])) =
      ⟨place offset (stream.comments ++ [stream.next]), some (.ok tags)⟩ := by
  have hmarked : Frame.isMarked tags.encode = true :=
    Frame.isMarked_iff.2 tags.frame.marker_prefix_encode
  have hdecode : Tags.decode tags.encode = .ok tags := by
    simpa using Tags.decode_encode_append htags []
  have hpacket : Packet.assemble (place offset (stream.comments ++ [stream.next])) =
      some tags.encode := by
    rw [place_append]
    exact (h.tags.place offset).assemble_append _
  rw [CommentInfo.onPages, hpacket, Option.filter_some, if_pos hmarked, Option.map_some, hdecode]

/-- What a stream carries is read from its octets, with all its pages in their places. -/
theorem readHeaders_encodeAll [LineLogger] (options : Options) (h : stream.Carries head tags)
    (htags : tags.Fits) :
    (readHeaders options (encodeAll stream.pages)).result = .ok
      { pages := place 0 stream.pages
        head := ⟨{ stream.first with offset := 0 }, head.inputRate, .ok head⟩
        comments := some ⟨place stream.first.size (stream.comments ++ [stream.next]),
          some (.ok tags)⟩ } := by
  have hbegins : BeginsWithPage (encodeAll stream.pages) := by
    rw [MuxedStream.pages, encodeAll_cons]
    exact beginsWithPage_encode_append _ _
  have hscan : (Scan.of (encodeAll stream.pages)).pages = place 0 stream.pages := by
    simpa using Scan.pages_of_encode not_beginsWithPage_nil stream.pages
  have hascending : Ascending (place 0 stream.pages) := by
    have hnumbers : (stream.pages.map (·.sequence)).Pairwise (· ≤ ·) :=
      List.pairwise_map.2 h.ascending
    rw [← map_place (fun _ => rfl) 0] at hnumbers
    exact List.pairwise_map.1 hnumbers
  have hserials : ¬ 1 < (Stream.serials (place 0 stream.pages)).length := by
    rw [Stream.serials, map_place fun _ => rfl]
    exact Nat.not_lt.2 (Stream.length_serials_le_one_iff.2 h.single)
  have hsize : ¬ stream.first.body.length < Head.rateOffset + 4 := by
    have := head.fixedSize_le_length_encode
    rw [h.body_first, Head.rateOffset]
    rw [Head.fixedSize] at this
    omega
  rw [readHeaders_of_beginsWithPage options hbegins, Scan.sorted, hscan, sort_of_ascending hascending,
    Headers.ofPages, if_neg hserials, h.findHead?]
  dsimp only
  rw [if_neg hsize, h.onPage_first, h.findComments?, Option.map_some, h.onPages_comments htags]

def sampleHead : Head := ⟨1, 2, 312, 44100, -256, none, by simp⟩

def sampleTags (count : Nat) : Tags := ⟨String.ofList (List.replicate count 'v'), ["TITLE=a"]⟩

theorem utf8ByteSize_vendor (count : Nat) : (sampleTags count).vendor.utf8ByteSize = count := by
  have hletter : 'v'.utf8Size = 1 := by decide
  rw [← Utf8.length_encode, sampleTags, String.toList_ofList, Utf8.encode, List.length_flatMap]
  simp [hletter]

theorem length_encode_sampleTags (count : Nat) : (sampleTags count).encode.length = count + 27 := by
  have hcomments : ((sampleTags count).frame.comments.map fun text => 4 + text.length).sum = 11 := rfl
  rw [Tags.encode, Frame.length_encode, Tags.vendor_frame, Utf8.length_encode, utf8ByteSize_vendor,
    hcomments]
  omega

theorem fits_sampleTags {count : Nat} (h : count < LittleEndian.limit 4) :
    (sampleTags count).Fits where
  unmarked := by
    intro text htext
    rcases List.mem_cons.1 htext with rfl | hcomment
    · rw [sampleTags, String.toList_ofList, List.head?_replicate]
      split <;> decide
    · rw [List.mem_singleton.1 hcomment]
      decide
  sizes := by
    intro text htext
    rcases List.mem_cons.1 htext with rfl | hcomment
    · rwa [utf8ByteSize_vendor]
    · rw [List.mem_singleton.1 hcomment]
      decide
  count := (by decide : 1 < LittleEndian.limit 4)

def sample : MuxedStream where
  first := headPage sampleHead 7
  comments :=
    [⟨0, 0, Page.noGranule, 7, 1, 0, [255], (sampleTags 300).encode.take 255, 0, by decide, by
        rw [List.length_take, length_encode_sampleTags]
        rfl⟩,
      ⟨0, continuedFlag, 0, 7, 2, 0, [72], (sampleTags 300).encode.drop 255, 0, by decide, by
        rw [List.length_drop, length_encode_sampleTags]
        rfl⟩]
  next := ⟨0, 0, 960, 7, 3, 0, [8], Latin1.bytes Head.marker, 0, by decide, by decide⟩
  later := []

theorem carries_sample : sample.Carries sampleHead (sampleTags 300) where
  single := by
    have hserial : ∀ page ∈ sample.pages, page.serial = 7 := by decide
    intro page hpage other hother
    rw [hserial page hpage, hserial other hother]
  first := rfl
  head := isOn_headPage sampleHead 7
  tags := by
    constructor
    · rw [Packet.lacing, length_encode_sampleTags]
      rfl
    · simp [sample]
  numbers := rfl
  continued := by decide
  completed := by decide
  above := by decide
  upwards := by decide

theorem readHeaders_sample :
    (readHeaders {} (encodeAll sample.pages)).result = .ok
      { pages := place 0 sample.pages
        head := ⟨sample.first, 44100, .ok sampleHead⟩
        comments := some ⟨place 47 (sample.comments ++ [sample.next]),
          some (.ok (sampleTags 300))⟩ } :=
  readHeaders_encodeAll {} carries_sample (fits_sampleTags (by decide))

end MuxedStream
end OpusStream
