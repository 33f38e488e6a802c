import OpusStream.Proofs.StorageOrder

/-!
# Truncated data

Data that are cut off lose the pages that are not whole any more, and nothing else. A scan of the
first octets finds the pages that end among them, so what is read changes only where a page ends.
As long as the first page is not whole, no more octets are asked for than it has.
-/

namespace OpusStream
namespace Page

def behind (page : Page) : Nat := page.offset + page.size

theorem BeginsWithPage.mono {bytes longer : Bytes} (h : BeginsWithPage bytes)
    (hlonger : bytes <+: longer) : BeginsWithPage longer := by
  obtain ⟨page, hpage⟩ := h
  exact ⟨page, hpage.trans hlonger⟩

/-- A page that is cut off is no page: another page in its place would be a page that begins with
another one. -/
theorem not_beginsWithPage_take {page : Page} {n : Nat} (h : n < page.size) (rest : Bytes) :
    ¬ BeginsWithPage ((page.encode ++ rest).take n) := by
  rintro ⟨other, tail, htail⟩
  have hoctets : page.encode ++ rest = other.encode ++ (tail ++ (page.encode ++ rest).drop n) := by
    rw [← List.append_assoc, htail, List.take_append_drop]
  have hsize : page.unplaced.size = other.unplaced.size := by
    rw [(encode_append_inj hoctets).1]
  change page.size = other.size at hsize
  have hlength := congrArg List.length htail
  simp only [List.length_append, length_encode, List.length_take] at hlength
  omega

theorem headerSize_le_required (bytes : Bytes) : headerSize ≤ required bytes := by
  simp only [required]
  split_ifs <;> omega

theorem required_mono {bytes longer : Bytes} (h : bytes <+: longer) :
    required bytes ≤ required longer := by
  obtain ⟨more, rfl⟩ := h
  by_cases hheader : bytes.length < headerSize
  · rw [required_of_length_lt hheader]
    exact headerSize_le_required _
  · have hsize : 26 + 1 ≤ bytes.length := Nat.le_of_not_lt hheader
    simp only [required, LittleEndian.field_append_left hsize, List.length_append]
    by_cases htable : bytes.length < headerSize + LittleEndian.field 1 bytes 26
    · rw [if_neg hheader, if_pos htable]
      split_ifs <;> omega
    · have hcount : LittleEndian.field 1 bytes 26 ≤ (bytes.drop headerSize).length := by
        rw [List.length_drop]
        omega
      rw [List.drop_append_of_le_length (Nat.le_of_not_lt hheader),
        List.take_append_of_le_length hcount, if_neg hheader, if_neg htable]
      split_ifs <;> omega

@[simp] theorem required_encode_append (page : Page) (rest : Bytes) :
    required (page.encode ++ rest) = page.size := by
  obtain ⟨-, -, -, -, -, -, hsegments⟩ := field_header page
  have hrequired := required_table_append page.length_header hsegments.symm (page.body ++ rest)
  simpa [encode, size, hsegments, page.body_length] using hrequired

theorem filter_place_eq_nil {offset n : Nat} (h : n < offset) (pages : List Page) :
    (place offset pages).filter (fun page => page.behind ≤ n) = [] := by
  apply List.filter_eq_nil_iff.mpr
  intro page hpage
  have hle := offset_le_of_mem_place hpage
  rw [decide_eq_true_eq, behind]
  omega

theorem sort_filter (p : Page → Bool) (pages : List Page) :
    sort (pages.filter p) = (sort pages).filter p := by
  apply eq_of_ascending (ascending_sort _) ((ascending_sort pages).filter p)
  intro number
  have hnumbered (pages : List Page) :
      numbered number (pages.filter p) = (numbered number pages).filter p := by
    simp only [numbered, List.filter_filter, Bool.and_comm]
  rw [numbered_sort, hnumbered, hnumbered, numbered_sort]

end Page

namespace Scan

open Page

theorem run_take {rest : Bytes} (h : ¬ BeginsWithPage rest) (n offset : Nat) (pages : List Page) :
    (run .silent offset ((encodeAll pages ++ rest).take n)).result.pages =
      (place offset pages).filter fun page => page.behind ≤ offset + n := by
  -- The cut and the offset move forward together, so both are free in the hypothesis.
  induction pages generalizing n offset with
  | nil =>
    have hshorter : rest.take n <+: rest := List.take_prefix n rest
    have hrest : ¬ BeginsWithPage (rest.take n) := fun hpage => h (hpage.mono hshorter)
    exact congrArg Scan.pages (result_run_of_not_beginsWithPage hrest .silent offset)
  | cons page pages ih =>
    rw [encodeAll_cons, List.append_assoc, place]
    by_cases hsize : page.size ≤ n
    · have htake : (page.encode ++ (encodeAll pages ++ rest)).take n =
          page.encode ++ (encodeAll pages ++ rest).take (n - page.size) := by
        rw [List.take_append, length_encode, List.take_of_length_le (by rwa [length_encode])]
      have hwhole : behind { page with offset := offset } ≤ offset + n :=
        Nat.add_le_add_left hsize offset
      have hcut : offset + page.size + (n - page.size) = offset + n := by omega
      rw [htake, run_encode_cons, List.filter_cons_of_pos (by simpa using hwhole), ← hcut]
      simp [ih]
    · -- The scan stops at the page that is cut off, and the pages behind it end later still.
      have hcut : ¬ behind { page with offset := offset } ≤ offset + n := by
        change ¬ offset + page.size ≤ offset + n
        omega
      have hlater : offset + n < offset + page.size := by omega
      rw [List.filter_cons_of_neg (by simpa using hcut), filter_place_eq_nil hlater]
      have hstop := not_beginsWithPage_take (Nat.lt_of_not_le hsize) (encodeAll pages ++ rest)
      rw [result_run_of_not_beginsWithPage hstop]

theorem pages_take (data : Bytes) (n : Nat) :
    (Scan.of (data.take n)).pages =
      (Scan.of data).pages.filter fun page => page.behind ≤ n := by
  obtain ⟨pages, rest, rfl, hrest⟩ := exists_pages data
  have htake := run_take hrest n 0 pages
  rw [Nat.zero_add] at htake
  rw [pages_of_encode hrest]
  exact htake

end Scan

open Page

theorem readHeaders_congr [LineLogger] (options options' : Options) {data data' : Bytes}
    (hdata : BeginsWithPage data) (h : (Scan.of data).pages = (Scan.of data').pages) :
    (readHeaders options data).result = (readHeaders options' data').result := by
  have hdata' : BeginsWithPage data' := by
    apply Scan.pages_ne_nil_iff.mp
    rw [← h]
    exact Scan.pages_ne_nil_iff.mpr hdata
  rw [readHeaders_of_beginsWithPage options hdata, readHeaders_of_beginsWithPage options' hdata',
    Scan.sorted, Scan.sorted, h]

theorem readHeaders_take_of_lt_size [LineLogger] (options : Options) (first : Page) (rest : Bytes)
    {n : Nat} (hcapture : 4 ≤ n) (hsize : n < first.size) :
    ∃ expected : Nat, n < expected ∧ expected ≤ first.size ∧
      (readHeaders options ((first.encode ++ rest).take n)).result =
        .error (.truncatedPage 0 expected n) := by
  have hlength : ((first.encode ++ rest).take n).length = n := by
    rw [List.length_take, List.length_append, length_encode]
    omega
  have hcaptured : Latin1.bytes capturePattern <+: (first.encode ++ rest).take n := by
    apply List.prefix_take_iff.mpr
    exact ⟨capture_of_beginsWithPage (beginsWithPage_encode_append first rest), hcapture⟩
  obtain ⟨hlt, hresult⟩ :=
    readHeaders_of_truncated options hcaptured (not_beginsWithPage_take hsize rest)
  rw [hlength] at hlt hresult
  have hshorter : (first.encode ++ rest).take n <+: first.encode ++ rest := List.take_prefix n _
  refine ⟨_, hlt, ?_, hresult⟩
  calc required ((first.encode ++ rest).take n)
      ≤ required (first.encode ++ rest) := required_mono hshorter
    _ = first.size := required_encode_append first rest

/-- The offsets up to `n` at which pages of the data end. -/
def pageEnds (data : Bytes) (n : Nat) : Set Nat :=
  {place | place ≤ n ∧ ∃ page ∈ (Scan.of data).pages, page.behind = place}

theorem exists_isGreatest_pageEnds {first : Page} {n : Nat} (h : first.size ≤ n) (rest : Bytes) :
    ∃ covered, IsGreatest (pageEnds (first.encode ++ rest) n) covered := by
  have hnonempty : (pageEnds (first.encode ++ rest) n).Nonempty := by
    refine ⟨first.size, h, { first with offset := 0 }, ?_, Nat.zero_add _⟩
    rw [Scan.of, Scan.run_encode_cons]
    exact List.mem_cons_self
  have hbound : BddAbove (pageEnds (first.encode ++ rest) n) := ⟨n, fun _ hplace => hplace.1⟩
  exact ⟨_, Nat.sSup_mem hnonempty hbound, fun _ hplace => le_csSup hbound hplace⟩

theorem readHeaders_take_eq [LineLogger] (options options' : Options) {data : Bytes} {n covered : Nat}
    (hdata : BeginsWithPage (data.take n)) (h : IsGreatest (pageEnds data n) covered) :
    (readHeaders options (data.take n)).result =
      (readHeaders options' (data.take covered)).result := by
  apply readHeaders_congr options options' hdata
  rw [Scan.pages_take, Scan.pages_take]
  apply List.filter_congr
  intro page hpage
  apply decide_eq_decide.mpr
  constructor
  · intro hbehind
    exact h.2 ⟨hbehind, page, hpage, rfl⟩
  · intro hbehind
    exact hbehind.trans h.1.1

/-- Truncation is seen only where pages end. When the data begin with a page, fewer than four octets
of them are no stream, and fewer than the page has are a truncated page; from there on the first
octets have the headers that they have up to the last end of a page among them. The pages in the
first octets are those of the data that end there. -/
theorem readHeaders_take [LineLogger] (options options' : Options) {data : Bytes} {first : Page}
    (hfirst : parse data 0 = .ok first) (n : Nat) :
    (n < 4 → (readHeaders options (data.take n)).result = .error .notOgg) ∧
    (4 ≤ n → n < first.size → ∃ expected : Nat, n < expected ∧ expected ≤ first.size ∧
      (readHeaders options (data.take n)).result = .error (.truncatedPage 0 expected n)) ∧
    (first.size ≤ n → ∃ covered, IsGreatest (pageEnds data n) covered ∧
      (readHeaders options (data.take n)).result =
        (readHeaders options' (data.take covered)).result) ∧
    (Scan.of (data.take n)).pages =
      (Scan.of data).pages.filter (fun page => page.behind ≤ n) ∧
    (readPages options (data.take n)).result =
      (readPages options' data).result.filter (fun page => page.behind ≤ n) := by
  have hpage : first.encode <+: data := ((parse_eq_ok_iff 0).mp hfirst).1
  obtain ⟨rest, rfl⟩ := hpage
  refine ⟨?_, ?_, ?_, Scan.pages_take _ n, ?_⟩
  · intro hshort
    apply readHeaders_of_not_captured
    intro hcapture
    have hle := (List.prefix_take_iff.mp hcapture).2
    rw [Latin1.length_bytes, length_capturePattern] at hle
    omega
  · intro hcapture hsize
    exact readHeaders_take_of_lt_size options first rest hcapture hsize
  · intro hsize
    have hwhole : BeginsWithPage ((first.encode ++ rest).take n) := by
      refine ⟨first, List.prefix_take_iff.mpr ⟨List.prefix_append _ _, ?_⟩⟩
      rwa [length_encode]
    obtain ⟨covered, hcovered⟩ := exists_isGreatest_pageEnds hsize rest
    exact ⟨covered, hcovered, readHeaders_take_eq options options' hwhole hcovered⟩
  · rw [result_readPages, result_readPages, Scan.sorted, Scan.pages_take, sort_filter, Scan.sorted]

def sampleData : Bytes := encodeAll [sampleFirst, sampleSecond 1]

theorem readHeaders_take_sample :
    parse sampleData 0 = .ok sampleFirst ∧
    (readHeaders {} (sampleData.take 3)).result = .error .notOgg ∧
    (∃ expected : Nat, 40 < expected ∧ expected ≤ 47 ∧
      (readHeaders {} (sampleData.take 40)).result = .error (.truncatedPage 0 expected 40)) ∧
    (∃ covered, IsGreatest (pageEnds sampleData 60) covered ∧
      (readHeaders {} (sampleData.take 60)).result =
        (readHeaders {} (sampleData.take covered)).result) ∧
    (Scan.of (sampleData.take 60)).pages =
      (Scan.of sampleData).pages.filter (fun page => page.behind ≤ 60) ∧
    (readPages {} (sampleData.take 60)).result =
      (readPages {} sampleData).result.filter (fun page => page.behind ≤ 60) := by
  have hfirst : parse sampleData 0 = .ok sampleFirst :=
    (parse_eq_ok_iff 0).mpr ⟨List.prefix_append _ _, rfl⟩
  obtain ⟨hshort, -⟩ := readHeaders_take {} {} hfirst 3
  obtain ⟨-, htruncated, -⟩ := readHeaders_take {} {} hfirst 40
  obtain ⟨-, -, hwhole, hpages⟩ := readHeaders_take {} {} hfirst 60
  exact ⟨hfirst, hshort (by decide), htruncated (by decide) (by decide), hwhole (by decide), hpages⟩

end OpusStream
