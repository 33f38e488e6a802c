import OpusStream.Head
import OpusStream.Page.Basic

/-!
# What pages carry

Pages are expected to belong to one logical stream, and one of them to begin with an identification
header.
-/

namespace OpusStream
namespace Stream

/-- The serial numbers of the pages in the order of first appearance. -/
def serials (pages : List Page) : List UInt32 := (pages.map (·.serial)).eraseDups

def requireSingle (pages : List Page) : Except Fault Unit :=
  let found := serials pages
  if found.length ≤ 1 then .ok ()
  else .error (.multipleStreams (found.map fun serial => serial.toNat))

def carriesHead (page : Page) : Bool := Head.isMarked page.body

def isOpus (pages : List Page) : Bool := pages.any carriesHead

def findHead? (pages : List Page) : Option Page := pages.find? carriesHead

def requireOpus (pages : List Page) : Except Fault Unit :=
  if isOpus pages then .ok () else .error .notOpus

/-- Pages are let through when the page with the identification header can be found. -/
theorem isOpus_eq (pages : List Page) : isOpus pages = (findHead? pages).isSome :=
  List.isSome_find?.symm

def requireCapture (data : Bytes) : Except Fault Unit :=
  if Page.isCaptured data then .ok () else .error .notOgg

@[simp] theorem requireCapture_of_captured {data : Bytes} (h : Page.isCaptured data = true) :
    requireCapture data = .ok () := if_pos h
@[simp] theorem requireCapture_of_not_captured {data : Bytes} (h : Page.isCaptured data = false) :
    requireCapture data = .error .notOgg := if_neg (by simp [h])

end Stream
end OpusStream
