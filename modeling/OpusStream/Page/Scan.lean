import OpusStream.Bytes.Hex
import OpusStream.Console
import OpusStream.Page.Order

/-!
# Scanning for pages

Pages are read one after the other from the start of the data. The scan ends with the data, or
where no complete page can be read, and keeps the pages before that place.
-/

namespace OpusStream

structure Scan where
  /-- The pages in the order of the data. -/
  pages : List Page
  covered : Nat
  deriving DecidableEq

namespace Scan

def stopText (fault : Fault) (next : Bytes) : String :=
  s!"Stopped scanning Ogg pages: {fault.message}, next bytes: {Hex.text next}"

/-- A scan of `bytes`, which begin at `offset` in the data. -/
def run (logger : Logger) (offset : Nat) (bytes : Bytes) : Printed Scan :=
  if bytes.isEmpty then return ⟨[], offset⟩
  else
    match hpage : Page.decode offset bytes with
    | .error fault =>
      if hfault : fault.isUnsupported then do
        logger.note (stopText fault (bytes.take 8))
        return ⟨[], offset⟩
      else
        -- Any other fault would be passed on; a page that cannot be read has no other.
        absurd (Page.isUnsupported_of_decode hpage) hfault
    | .ok (page, rest) => do
      let after ← run logger (offset + page.size) rest
      return { after with pages := page :: after.pages }
termination_by bytes.length
decreasing_by exact Page.length_lt_of_decode hpage

def of (data : Bytes) : Scan := (run .silent 0 data).result

def sorted (scan : Scan) : List Page := Page.sort scan.pages

end Scan

def readPages [LineLogger] (options : Options) (data : Bytes) : Printed (List Page) := do
  let logger := options.console
  let scan ← Scan.run logger 0 data
  logger.note s!"Found {scan.pages.length} Ogg pages in {scan.covered} of {data.length} bytes"
  return scan.sorted

end OpusStream
