import OpusStream.Proofs.StorageOrder

/-!
# What is printed

Options decide only what is printed. Nothing is, unless diagnostics are wanted on a console that is
not quiet; then the lines tell how far the scan came and why it went no further, and after that what
became of the headers. What a logger is told does not depend on the logger, so the texts are found
first, and then what the documented loggers print of them.
-/

namespace OpusStream

/-- Whether the options ask for diagnostics on a console that is not quiet. -/
def Options.Prints (options : Options) : Prop :=
  options.debug = .set true ∧ (options.quiet = .cleared ∨ options.quiet = .set false)

instance (options : Options) : Decidable options.Prints :=
  inferInstanceAs (Decidable (_ ∧ _))

theorem Options.prints_iff {options : Options} : options.Prints ↔
    options.flags.debug.getD false = true ∧ options.flags.quiet.getD false = false := by
  obtain ⟨debug, quiet⟩ := options
  simp only [Prints, flags]
  cases debug <;> cases quiet <;> simp [Switch.flag]

namespace Logger

/-- The lines that a logger prints of texts it is told one after the other. -/
def told (logger : Logger) (texts : List String) : List Line :=
  texts.flatMap fun text => (logger.note text).lines

@[simp] theorem told_nil (logger : Logger) : logger.told [] = [] := rfl
@[simp] theorem told_append (logger : Logger) (texts others : List String) :
    logger.told (texts ++ others) = logger.told texts ++ logger.told others :=
  List.flatMap_append
@[simp] theorem told_cons (logger : Logger) (text : String) (texts : List String) :
    logger.told (text :: texts) = (logger.note text).lines ++ logger.told texts :=
  List.flatMap_cons

end Logger

theorem LineLogger.IsDocumented.told_console [LineLogger] (h : IsDocumented) (options : Options)
    (texts : List String) :
    options.console.told texts = if options.Prints then texts.map (Line.mk .log) else [] := by
  rw [Logger.told]
  by_cases hprints : options.Prints
  · obtain ⟨hdebug, hquiet⟩ := Options.prints_iff.mp hprints
    rw [if_pos hprints, List.map_eq_flatMap]
    simp [Logger.note, Options.console, h.isDebug, h.isQuiet, h.debug, hdebug, hquiet]
  · rw [if_neg hprints, List.flatMap_eq_nil_iff]
    intro text _
    rw [Options.prints_iff, not_and, Bool.not_eq_false] at hprints
    rw [Logger.note, Options.console, h.debug, h.isDebug, h.isQuiet]
    cases hdebug : options.flags.debug.getD false with
    | false => rfl
    | true => simp [hprints hdebug]

def octetText (octet : UInt8) : String :=
  let digit (n : Nat) : Char := "0123456789abcdef".toList.getD n '0'
  String.ofList [digit (octet.toNat / 16), digit (octet.toNat % 16)]

def octetsText (octets : Bytes) : String := " ".intercalate (octets.map octetText)

theorem Hex.text_eq (bytes : Bytes) : Hex.text bytes = octetsText bytes := by
  have hdigit : ∀ n < 16, Nat.digitChar n = "0123456789abcdef".toList.getD n '0' := by decide
  have hpair : pair = octetText := by
    funext octet
    have hlt := octet.toNat_lt
    rw [pair, octetText, hdigit _ (by omega), hdigit _ (by omega)]
  rw [text, octetsText, hpair]

theorem Scan.stopText_eq (fault : Fault) (next : Bytes) : stopText fault next =
    s!"Stopped scanning Ogg pages: {fault.message}, next bytes: {octetsText next}" := by
  rw [← Hex.text_eq]
  rfl

/-- Why no page is read at a place of the data: none begins there, or the data end before it does. -/
def IsReason (data : Bytes) (place : Nat) (reason : String) : Prop :=
  (¬ Latin1.bytes Page.capturePattern <+: data.drop place ∧
    reason = s!"Not a valid Ogg page at offset {place}") ∨
  (Latin1.bytes Page.capturePattern <+: data.drop place ∧
    ∃ expected available : Nat, place + available = data.length ∧ available < expected ∧
    reason = s!"Truncated Ogg page at offset {place}: " ++
      s!"expected at least {expected} bytes but only {available} available")

theorem isReason_message {data : Bytes} {place : Nat} {fault : Fault} (hplace : place ≤ data.length)
    (h : Page.parse data place = .error fault) : IsReason data place fault.message := by
  rw [Page.parse_natCast] at h
  cases hdecode : Page.decode place (data.drop place) with
  | ok result => simp [hdecode] at h
  | error found =>
    rw [hdecode, Fault.map_error] at h
    cases h
    rw [IsReason, ← Page.isCaptured_iff]
    rcases Page.fault_of_decode hdecode with ⟨hnot, rfl⟩ | ⟨hcaptured, hlt, rfl⟩
    · exact .inl ⟨by simp [hnot], rfl⟩
    · refine .inr ⟨hcaptured, _, _, ?_, hlt, rfl⟩
      rw [List.length_drop]
      omega

/-- The texts on what is left behind the pages: none when nothing is left, and otherwise one that
tells why the scan stopped and shows the next octets. -/
def IsStopReport (data : Bytes) (covered : Nat) (texts : List String) : Prop :=
  (covered = data.length ∧ texts = []) ∨
  (covered < data.length ∧ ∃ reason, IsReason data covered reason ∧
    let next := octetsText ((data.drop covered).take 8)
    texts = [s!"Stopped scanning Ogg pages: {reason}, next bytes: {next}"])

/-- The texts on the reading of pages from data. The summary counts the pages and their octets. -/
def IsScanReport (data : Bytes) (pages : List Page) (texts : List String) : Prop :=
  ∃ stop, IsStopReport data (pages.map Page.size).sum stop ∧ texts = stop ++
    [s!"Found {pages.length} Ogg pages in {(pages.map Page.size).sum} of {data.length} bytes"]

namespace Scan

open Page

theorem exists_stopReport (data : Bytes) :
    ∃ texts, IsStopReport data (Scan.of data).covered texts ∧
      ∀ logger, (run logger 0 data).lines = logger.told texts := by
  obtain ⟨pages, rest, rfl, hrest⟩ := exists_pages data
  have hcovered : (Scan.of (encodeAll pages ++ rest)).covered = (encodeAll pages).length := by
    rw [Scan.of, result_run_encode_append hrest, Nat.zero_add, length_encodeAll]
  have hlines (logger : Logger) : (run logger 0 (encodeAll pages ++ rest)).lines =
      (run logger (encodeAll pages).length rest).lines := by
    simp [run_encode_append]
  rw [hcovered]
  rcases run_of_not_beginsWithPage hrest (encodeAll pages).length with
    ⟨rfl, hrun⟩ | ⟨hne, fault, hfault, hrun⟩
  · refine ⟨[], .inl ⟨by rw [List.append_nil], rfl⟩, fun logger => ?_⟩
    rw [hlines, hrun, Printed.lines_pure, Logger.told_nil]
  · have hlt : (encodeAll pages).length < (encodeAll pages ++ rest).length := by
      have := List.length_pos_iff.mpr hne
      rw [List.length_append]
      omega
    have hparse : parse (encodeAll pages ++ rest) (encodeAll pages).length = .error fault := by
      rw [parse_natCast, List.drop_left, hfault, Fault.map_error]
    refine ⟨[stopText fault (rest.take 8)],
      .inr ⟨hlt, fault.message, isReason_message hlt.le hparse, ?_⟩, fun logger => ?_⟩
    · rw [List.drop_left, stopText_eq]
    · rw [hlines, hrun]
      simp

theorem sum_size_sorted (data : Bytes) :
    ((Scan.of data).sorted.map size).sum = (Scan.of data).covered := by
  rw [(tiling_pages data).covered_eq]
  exact ((isStableSort_sort (Scan.of data).pages).perm.map size).sum_eq

end Scan

theorem exists_scanReport (data : Bytes) :
    ∃ texts, IsScanReport data (Scan.of data).sorted texts ∧
      ∀ [LineLogger] (options : Options),
        (readPages options data).lines = options.console.told texts := by
  obtain ⟨stop, hstop, hlines⟩ := Scan.exists_stopReport data
  have hlength : (Scan.of data).pages.length = (Scan.of data).sorted.length :=
    (Page.isStableSort_sort (Scan.of data).pages).perm.length_eq.symm
  have hsum := Scan.sum_size_sorted data
  refine ⟨_, ⟨stop, hsum ▸ hstop, rfl⟩, fun options => ?_⟩
  simp [readPages, hlines, hlength, hsum]

namespace Headers

def leftOut {α : Type} : Except Fault α → List String
  | .ok _ => []
  | .error fault => [s!"Header details left out: {fault.message}"]

def report : Except Fault Headers → List String
  | .error _ => []
  | .ok headers =>
    leftOut headers.head.details ++
      [s!"Found OpusHead on page {headers.head.page.sequence.toNat}"] ++
    match headers.comments with
    | none => ["No complete comment header found"]
    | some info =>
      info.details.elim [] leftOut ++ [s!"Found comment header on {info.pages.length} page(s)"]

end Headers

open Headers

theorem lines_optionalHeader {α : Type} {reading : Except Fault α} (h : OnlyMalformed reading)
    (logger : Logger) : (optionalHeader logger reading).run.lines = logger.told (leftOut reading) := by
  cases reading with
  | ok a => rfl
  | error fault =>
    obtain ⟨defect, rfl⟩ := h fault rfl
    simp [optionalHeader, leftOut]

theorem HeadInfo.lines_read (logger : Logger) {page : Page}
    (h : Head.rateOffset + 4 ≤ page.body.length) :
    (HeadInfo.read logger page).run.lines = logger.told (leftOut (Head.decode page.body) ++
      [s!"Found OpusHead on page {page.sequence.toNat}"]) := by
  have hdecode := Head.onlyMalformed_decode page.body
  simp [HeadInfo.read, Head.sampleRate_of_le h, result_optionalHeader hdecode,
    lines_optionalHeader hdecode, -ExceptT.run_bind]

theorem HeadInfo.lines_read_of_lt (logger : Logger) {page : Page}
    (h : page.body.length < Head.rateOffset + 4) : (HeadInfo.read logger page).run.lines = [] := by
  simp [HeadInfo.read, Head.sampleRate_of_lt h, -ExceptT.run_bind]

theorem CommentInfo.lines_read (logger : Logger) (pages : List Page) :
    (CommentInfo.read logger pages).run.lines = logger.told (
      (CommentInfo.onPages pages).details.elim [] leftOut ++
        [s!"Found comment header on {pages.length} page(s)"]) := by
  rw [CommentInfo.read, CommentInfo.onPages]
  cases (Packet.assemble pages).filter Frame.isMarked with
  | none => simp [-ExceptT.run_bind]
  | some packet =>
    have hdecode := Tags.onlyMalformed_decode packet
    simp [result_optionalHeader hdecode, lines_optionalHeader hdecode, -ExceptT.run_bind]

theorem Headers.lines_read (logger : Logger) (pages : List Page) :
    (Headers.read logger pages).run.lines = logger.told (report (Headers.ofPages pages)) := by
  rw [Headers.read, Headers.ofPages, Stream.requireSingle, Stream.requireOpus, Stream.isOpus_eq]
  by_cases hserials : 1 < (Stream.serials pages).length
  · simp [hserials, Nat.not_le.mpr hserials, report]
  · rw [if_neg hserials, if_pos (Nat.le_of_not_lt hserials)]
    cases Stream.findHead? pages with
    | none => simp [report]
    | some page =>
      by_cases hsize : page.body.length < Head.rateOffset + 4
      · simp [hsize, HeadInfo.lines_read_of_lt logger hsize, report, -ExceptT.run_bind]
      · have hhead := HeadInfo.lines_read logger (Nat.le_of_not_lt hsize)
        cases CommentPages.find? pages <;>
          simp [hsize, hhead, CommentInfo.lines_read, report, -ExceptT.run_bind]

theorem lines_readHeaders_of_not_beginsWithPage [LineLogger] (options : Options) {data : Bytes}
    (h : ¬ Page.BeginsWithPage data) : (readHeaders options data).lines = [] := by
  cases hcapture : Page.isCaptured data with
  | false => simp [readHeaders, hcapture, -ExceptT.run_bind]
  | true =>
    obtain ⟨fault, hfault⟩ := Page.decode_of_not_beginsWithPage h 0
    simp [readHeaders, hcapture, Page.parse, hfault, -ExceptT.run_bind]

theorem lines_readHeaders_of_beginsWithPage [LineLogger] (options : Options) {data : Bytes}
    (h : Page.BeginsWithPage data) :
    (readHeaders options data).lines = (readPages options data).lines ++
      options.console.told (report (readHeaders options data).result) := by
  have hcapture := Page.isCaptured_iff.mpr (capture_of_beginsWithPage h)
  obtain ⟨page, rest, hdecode⟩ := (Page.beginsWithPage_iff_decode 0).mp h
  rw [readHeaders_of_beginsWithPage options h]
  simp [readHeaders, hcapture, Page.parse, hdecode, Headers.lines_read,
    -ExceptT.run_bind]

/-- Options have no part in what is read, whatever the loggers do. With the documented loggers nothing
is printed, unless the options ask for it. Then a line is printed for each text of the report on the
pages; and as soon as there is a first page, reading headers prints these lines too and behind them
those about the headers. -/
theorem readHeaders_diagnostics [LineLogger] (data : Bytes) :
    (∀ options options' : Options,
      (readPages options data).result = (readPages options' data).result ∧
      (readHeaders options data).result = (readHeaders options' data).result) ∧
    (LineLogger.IsDocumented → ∀ options : Options,
      (¬ options.Prints →
        (readPages options data).lines = [] ∧ (readHeaders options data).lines = []) ∧
      (options.Prints → ∃ texts, IsScanReport data (readPages options data).result texts ∧
        (readPages options data).lines = texts.map (Line.mk .log) ∧
        (¬ Page.BeginsWithPage data → (readHeaders options data).lines = []) ∧
        (Page.BeginsWithPage data → (readHeaders options data).lines =
          (texts ++ report (readHeaders options data).result).map (Line.mk .log)))) := by
  obtain ⟨texts, hreport, hpages⟩ := exists_scanReport data
  refine ⟨fun options options' => ?_, fun hdocumented options => ⟨fun hsilent => ?_, fun hprints => ?_⟩⟩
  · exact ⟨by rw [result_readPages, result_readPages], result_readHeaders_eq options options' data⟩
  · have htold (texts : List String) : options.console.told texts = [] := by
      rw [hdocumented.told_console, if_neg hsilent]
    refine ⟨by rw [hpages, htold], ?_⟩
    by_cases h : Page.BeginsWithPage data
    · rw [lines_readHeaders_of_beginsWithPage options h, hpages, htold, htold, List.append_nil]
    · exact lines_readHeaders_of_not_beginsWithPage options h
  · have htold (texts : List String) : options.console.told texts = texts.map (Line.mk .log) := by
      rw [hdocumented.told_console, if_pos hprints]
    rw [result_readPages]
    refine ⟨texts, hreport, by rw [hpages, htold], ?_, fun h => ?_⟩
    · exact lines_readHeaders_of_not_beginsWithPage options
    · rw [lines_readHeaders_of_beginsWithPage options h, hpages, ← Logger.told_append, htold]

def sampleDamaged : Bytes := Page.encodeAll [sampleFirst] ++ [0, 171]

theorem readHeaders_diagnostics_sample :
    LineLogger.IsDocumented ∧ ¬ Options.Prints {} ∧ (readHeaders {} sampleDamaged).lines = [] ∧
    Options.Prints { debug := .set true, quiet := .cleared } ∧
    (readPages { debug := .set true, quiet := .cleared } sampleDamaged).lines =
      [⟨.log, "Stopped scanning Ogg pages: Not a valid Ogg page at offset 47, next bytes: 00 ab"⟩,
        ⟨.log, "Found 1 Ogg pages in 47 of 49 bytes"⟩] := by
  have hsilence : ¬ Options.Prints {} := by decide
  have hprints : Options.Prints { debug := .set true, quiet := .cleared } := by decide
  obtain ⟨-, hlines⟩ := readHeaders_diagnostics sampleDamaged
  have hdocumented := LineLogger.isDocumented_documented
  obtain ⟨texts, ⟨stop, hstop, rfl⟩, hprinted, -⟩ := (hlines hdocumented _).2 hprints
  have hpages : (readPages { debug := .set true, quiet := .cleared } sampleDamaged).result =
      [sampleFirst] := by
    have hoctets : ¬ Page.BeginsWithPage [0, 171] := Page.not_beginsWithPage_of_length_lt (by decide)
    have hscan : (Scan.of sampleDamaged).pages = [sampleFirst] :=
      Scan.pages_of_encode hoctets [sampleFirst]
    rw [result_readPages, Scan.sorted, hscan, Page.sort_of_ascending (List.pairwise_singleton _ _)]
  refine ⟨hdocumented, hsilence, ((hlines hdocumented _).1 hsilence).2, hprints, ?_⟩
  rw [hprinted, hpages]
  rw [hpages] at hstop
  rcases hstop with ⟨hwhole, -⟩ | ⟨-, reason, ⟨-, rfl⟩ | ⟨hcaptured, -⟩, rfl⟩
  · exact absurd hwhole (by decide)
  · decide +kernel
  · exact absurd hcaptured (by decide)

end OpusStream
