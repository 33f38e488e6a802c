import OpusStream.Headers

/-!
# The faults of headers

A header packet that does not decode is malformed, and nothing else is ever wrong with it: the
readers inside the decoders stay within the buffer. Hence a header that need not decode never makes
reading fail, and what reading the headers of sorted pages comes to can be written without a logger
and without a fault being caught: `Headers.ofPages`.
-/

namespace OpusStream

/-- Whether a reading can only fail because a header is malformed. -/
def OnlyMalformed {α : Type} (reading : Except Fault α) : Prop :=
  ∀ fault, reading = .error fault → ∃ defect, fault = .malformedHeader defect

namespace OnlyMalformed

variable {α β : Type}

theorem ok (a : α) : OnlyMalformed (.ok a) := by
  intro fault h
  cases h

theorem error (defect : Defect) : OnlyMalformed (.error (.malformedHeader defect) : Except Fault α) := by
  intro fault h
  cases h
  exact ⟨defect, rfl⟩

theorem bind {reading : Except Fault α} {next : α → Except Fault β} (h : OnlyMalformed reading)
    (hnext : ∀ a, OnlyMalformed (next a)) : OnlyMalformed (reading >>= next) := by
  intro fault hfault
  rcases Fault.bind_eq_error_iff.1 hfault with hreading | ⟨a, -, ha⟩
  · exact h fault hreading
  · exact hnext a fault ha

end OnlyMalformed

namespace Head

theorem onlyMalformed_decodeTable (family channels : UInt8) (packet : Bytes) :
    OnlyMalformed (decodeTable family channels packet) := by
  rw [decodeTable]
  by_cases hfamily : family = 0
  · rw [dif_pos hfamily]
    exact .ok _
  · rw [dif_neg hfamily]
    by_cases hsize : packet.length < fixedSize + 2 + channels.toNat
    · rw [dif_pos hsize]
      exact .error _
    · rw [dif_neg hsize]
      exact .ok _

theorem onlyMalformed_decode (packet : Bytes) : OnlyMalformed (decode packet) := by
  cases hmarked : isMarked packet with
  | false =>
    rw [decode_of_not_marked hmarked]
    exact .error _
  | true =>
    by_cases hsize : packet.length < fixedSize
    · rw [decode_of_lt hmarked hsize]
      exact .error _
    · rw [decode_of_le hmarked (Nat.le_of_not_lt hsize)]
      exact (onlyMalformed_decodeTable _ _ packet).bind fun _ => .ok _

end Head

namespace Frame

theorem Cursor.onlyMalformed_count (field : CountField) (cursor : Cursor) :
    OnlyMalformed (cursor.count field) := by
  rw [Cursor.count_eq]
  split
  · exact .error _
  · exact .ok _

theorem Cursor.onlyMalformed_text (field : TextField) (cursor : Cursor) :
    OnlyMalformed (cursor.text field) := by
  refine (cursor.onlyMalformed_count (.lengthOf field)).bind fun _ => ?_
  dsimp only
  split
  · exact .error _
  · exact .ok _

theorem Cursor.onlyMalformed_comments (index count : Nat) (cursor : Cursor) :
    OnlyMalformed (cursor.comments index count) := by
  induction count generalizing index cursor with
  | zero => exact .ok _
  | succ count ih =>
    refine (cursor.onlyMalformed_text (.comment index)).bind fun read => ?_
    exact (ih (index + 1) read.2).bind fun _ => .ok _

theorem onlyMalformed_decode (packet : Bytes) : OnlyMalformed (decode packet) := by
  rw [decode]
  by_cases hmarked : isMarked packet = true
  · rw [if_pos hmarked]
    refine (Cursor.onlyMalformed_text .vendor _).bind fun vendor => ?_
    refine (vendor.2.onlyMalformed_count .comments).bind fun count => ?_
    exact (count.2.onlyMalformed_comments 0 count.1).bind fun _ => .ok _
  · rw [if_neg hmarked]
    exact .error _

end Frame

theorem Tags.onlyMalformed_decode (packet : Bytes) : OnlyMalformed (Tags.decode packet) :=
  (Frame.onlyMalformed_decode packet).bind fun _ => .ok _

/-- A reading that can only be malformed always gives an answer when it is optional. -/
theorem result_optionalHeader {α : Type} {reading : Except Fault α} (h : OnlyMalformed reading)
    (logger : Logger) : (optionalHeader logger reading).run.result = .ok reading := by
  cases reading with
  | ok a => rfl
  | error fault =>
    obtain ⟨defect, rfl⟩ := h fault rfl
    rfl

def HeadInfo.onPage (page : Page) : HeadInfo where
  page := page
  sampleRate := .ofNat (LittleEndian.field 4 page.body Head.rateOffset)
  details := Head.decode page.body

def CommentInfo.onPages (pages : List Page) : CommentInfo where
  pages := pages
  details := ((Packet.assemble pages).filter Frame.isMarked).map Tags.decode

@[simp] theorem HeadInfo.page_onPage (page : Page) : (HeadInfo.onPage page).page = page := rfl
@[simp] theorem HeadInfo.sampleRate_onPage (page : Page) : (HeadInfo.onPage page).sampleRate =
    .ofNat (LittleEndian.field 4 page.body Head.rateOffset) := rfl
@[simp] theorem HeadInfo.details_onPage (page : Page) :
    (HeadInfo.onPage page).details = Head.decode page.body := rfl
@[simp] theorem CommentInfo.pages_onPages (pages : List Page) :
    (CommentInfo.onPages pages).pages = pages := rfl
@[simp] theorem CommentInfo.details_onPages (pages : List Page) :
    (CommentInfo.onPages pages).details =
      ((Packet.assemble pages).filter Frame.isMarked).map Tags.decode := rfl

@[simp] theorem HeadInfo.result_read (logger : Logger) (page : Page) :
    (HeadInfo.read logger page).run.result =
      if page.body.length < Head.rateOffset + 4 then
        .error (.malformedHeader (.rateOutOfReach page.body.length (Head.rateOffset + 4)))
      else .ok (.onPage page) := by
  have hdetails := result_optionalHeader (Head.onlyMalformed_decode page.body) logger
  by_cases hsize : page.body.length < Head.rateOffset + 4
  · simp [HeadInfo.read, Head.sampleRate_of_lt hsize, hsize]
  · simp [HeadInfo.read, Head.sampleRate_of_le (Nat.le_of_not_lt hsize), hsize, hdetails, onPage]

@[simp] theorem CommentInfo.result_read (logger : Logger) (pages : List Page) :
    (CommentInfo.read logger pages).run.result = .ok (.onPages pages) := by
  rw [CommentInfo.read, CommentInfo.onPages]
  cases (Packet.assemble pages).filter Frame.isMarked with
  | none => simp
  | some packet =>
    simp [result_optionalHeader (Tags.onlyMalformed_decode packet) logger]

/-- What reading the headers of sorted pages comes to: it fails at one of three gates, and past them
it succeeds. -/
def Headers.ofPages (pages : List Page) : Except Fault Headers :=
  if 1 < (Stream.serials pages).length then
    .error (.multipleStreams ((Stream.serials pages).map fun serial => serial.toNat))
  else
    match Stream.findHead? pages with
    | none => .error .notOpus
    | some page =>
      if page.body.length < Head.rateOffset + 4 then
        .error (.malformedHeader (.rateOutOfReach page.body.length (Head.rateOffset + 4)))
      else
        .ok ⟨pages, .onPage page, (CommentPages.find? pages).map .onPages⟩

@[simp] theorem Headers.result_read (logger : Logger) (pages : List Page) :
    (Headers.read logger pages).run.result = Headers.ofPages pages := by
  rw [Headers.read, Headers.ofPages, Stream.requireSingle, Stream.requireOpus, Stream.isOpus_eq]
  by_cases hserials : 1 < (Stream.serials pages).length
  · simp [hserials, Nat.not_le.mpr hserials]
  · rw [if_neg hserials, if_pos (Nat.le_of_not_lt hserials)]
    cases Stream.findHead? pages with
    | none => simp
    | some page =>
      by_cases hsize : page.body.length < Head.rateOffset + 4
      · simp [hsize]
      · cases CommentPages.find? pages <;> simp [hsize]

theorem Headers.ofPages_eq_ok_iff {pages : List Page} {headers : Headers} :
    Headers.ofPages pages = .ok headers ↔
      (Stream.serials pages).length ≤ 1 ∧ ∃ page, Stream.findHead? pages = some page ∧
        Head.rateOffset + 4 ≤ page.body.length ∧
        headers = ⟨pages, .onPage page, (CommentPages.find? pages).map .onPages⟩ := by
  rw [Headers.ofPages]
  by_cases hserials : 1 < (Stream.serials pages).length
  · simp [if_pos hserials, Nat.not_le.mpr hserials]
  · rw [if_neg hserials]
    cases hfind : Stream.findHead? pages with
    | none => simp
    | some page =>
      dsimp only
      by_cases hsize : page.body.length < Head.rateOffset + 4
      · simp [if_pos hsize, Nat.not_le.mpr hsize]
      · simp [if_neg hsize, Nat.le_of_not_lt hserials, Nat.le_of_not_lt hsize, eq_comm]

theorem Headers.ofPages_cons {page : Page} {pages : List Page}
    (hserials : (Stream.serials (page :: pages)).length ≤ 1)
    (hmarked : Stream.carriesHead page = true) (hsize : Head.rateOffset + 4 ≤ page.body.length) :
    Headers.ofPages (page :: pages) = .ok ⟨page :: pages, .onPage page,
      (CommentPages.find? (page :: pages)).map .onPages⟩ :=
  Headers.ofPages_eq_ok_iff.mpr
    ⟨hserials, page, List.find?_cons_of_pos hmarked, hsize, rfl⟩

theorem Headers.ofPages_eq_multipleStreams_iff {pages : List Page} {found : List Int} :
    Headers.ofPages pages = .error (.multipleStreams found) ↔
      1 < (Stream.serials pages).length ∧
        found = (Stream.serials pages).map fun serial => (serial.toNat : Int) := by
  rw [Headers.ofPages]
  by_cases hserials : 1 < (Stream.serials pages).length
  · simp [hserials, eq_comm]
  · rw [if_neg hserials]
    cases Stream.findHead? pages with
    | none => simp [hserials]
    | some page =>
      dsimp only
      split <;> simp [hserials]

end OpusStream
