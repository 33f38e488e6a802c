import OpusStream.CommentPages
import OpusStream.Packet
import OpusStream.Page.Scan
import OpusStream.Stream
import OpusStream.Tags.Basic

/-!
# The headers of a stream

The data must begin with a page, all pages must belong to one logical stream, and one of them must
begin with an identification header long enough to hold its sample rate. Everything else is
optional: a header whose fields do not decode is kept without them.
-/

namespace OpusStream

structure HeadInfo where
  page : Page
  sampleRate : UInt32
  /-- The fields, or why they do not decode. -/
  details : Except Fault Head

structure CommentInfo where
  pages : List Page
  /-- The texts, or why they do not decode; none when the packet on the pages is not finished or is
  not marked as a comment header. -/
  details : Option (Except Fault Tags)

structure Headers where
  pages : List Page
  head : HeadInfo
  comments : Option CommentInfo

/-- The fields of a header that need not decode. That a header is malformed is kept as an answer;
any other fault is passed on. -/
def optionalHeader {α : Type} (logger : Logger) :
    Except Fault α → ExceptT Fault Printed (Except Fault α)
  | .ok fields => return .ok fields
  | .error fault => do
    if fault.kind ≠ .malformedHeader then throw fault
    logger.note s!"Header details left out: {fault.message}"
    return .error fault

def HeadInfo.read (logger : Logger) (page : Page) : ExceptT Fault Printed HeadInfo := do
  let sampleRate ← Head.sampleRate page.body
  let details ← optionalHeader logger (Head.decode page.body)
  logger.note s!"Found OpusHead on page {page.sequence.toNat}"
  return ⟨page, sampleRate, details⟩

def CommentInfo.read (logger : Logger) (pages : List Page) : ExceptT Fault Printed CommentInfo := do
  let details ← match (Packet.assemble pages).filter Frame.isMarked with
    | none => pure none
    | some packet => some <$> optionalHeader logger (Tags.decode packet)
  logger.note s!"Found comment header on {pages.length} page(s)"
  return ⟨pages, details⟩

namespace Headers

def read (logger : Logger) (pages : List Page) : ExceptT Fault Printed Headers := do
  Stream.requireSingle pages
  Stream.requireOpus pages
  match Stream.findHead? pages with
  -- Not reached, by `Stream.isOpus_eq`: pages that are let through have the page looked for.
  | none => throw .notOpus
  | some page =>
    let head ← HeadInfo.read logger page
    match CommentPages.find? pages with
    | none =>
      logger.note "No complete comment header found"
      return ⟨pages, head, none⟩
    | some found =>
      let comments ← CommentInfo.read logger found
      return ⟨pages, head, some comments⟩

end Headers

def readHeaders [LineLogger] (options : Options) (data : Bytes) : Printed (Except Fault Headers) :=
  ExceptT.run do
    Stream.requireCapture data
    -- Without its first page a stream would have no pages, which would hide why.
    let _ ← Page.parse data 0
    let pages ← readPages options data
    Headers.read options.console pages

end OpusStream
