import OpusStream.Bytes.LittleEndian

/-!
# The frame of a comment header

A comment header holds a vendor text and a counted list of comments. Each text follows its length in
octets, and lengths and the count take four octets. `Frame.encode` writes the texts as they are and
`Frame.decode` reads them from the front of a packet, whatever follows.
-/

namespace OpusStream

structure Frame where
  vendor : Bytes
  comments : List Bytes
  deriving DecidableEq

namespace Frame

def marker : String := "OpusTags"

@[simp] theorem length_marker : marker.length = 8 := rfl

def isMarked (packet : Bytes) : Bool := Latin1.startsWith packet marker

def encodeText (text : Bytes) : Bytes := LittleEndian.digits 4 text.length ++ text

@[simp] theorem length_encodeText (text : Bytes) : (encodeText text).length = 4 + text.length := by
  simp [encodeText]

def encode (frame : Frame) : Bytes :=
  Latin1.bytes marker ++
    (encodeText frame.vendor ++
    (LittleEndian.digits 4 frame.comments.length ++
    frame.comments.flatMap encodeText))

/-- A place in a packet: the octets before it are counted and those after it are kept. -/
structure Cursor where
  position : Nat
  rest : Bytes
  deriving DecidableEq

namespace Cursor

def count (field : CountField) (cursor : Cursor) : Except Fault (Nat × Cursor) :=
  match Bytes.split? 4 cursor.rest with
  | none => .error (.malformedHeader (.endsBefore field cursor.position))
  | some (octets, rest) => do
    let number ← LittleEndian.uint32 octets 0
    return (number.toNat, ⟨cursor.position + 4, rest⟩)

theorem count_eq (field : CountField) (cursor : Cursor) :
    cursor.count field =
      match Bytes.split? 4 cursor.rest with
      | none => .error (.malformedHeader (.endsBefore field cursor.position))
      | some (octets, rest) => .ok (LittleEndian.value octets, ⟨cursor.position + 4, rest⟩) := by
  unfold count
  split
  · rfl
  · rename_i octets rest hsplit
    obtain ⟨-, hlength⟩ := Bytes.split?_eq_some_iff.1 hsplit
    have hvalue := LittleEndian.value_lt octets
    have hfield : LittleEndian.field 4 octets 0 = LittleEndian.value octets := by
      rw [LittleEndian.field, List.drop_zero, List.take_of_length_le (by omega)]
    rw [hlength] at hvalue
    rw [LittleEndian.uint32_of_le (by omega), hfield, Fault.bind_ok, Fault.pure_eq,
      UInt32.toNat_ofNat_of_lt' hvalue]

def text (field : TextField) (cursor : Cursor) : Except Fault (Bytes × Cursor) := do
  let (length, cursor) ← cursor.count (.lengthOf field)
  match Bytes.split? length cursor.rest with
  | none =>
    throw (.malformedHeader
      (.overruns field length cursor.position (cursor.position + cursor.rest.length)))
  | some (octets, rest) => return (octets, ⟨cursor.position + length, rest⟩)

/-- Read so many comments, of which the first has the number `index`. -/
def comments (index : Nat) : Nat → Cursor → Except Fault (List Bytes × Cursor)
  | 0, cursor => return ([], cursor)
  | more + 1, cursor => do
    let (octets, cursor) ← cursor.text (.comment index)
    let (others, cursor) ← comments (index + 1) more cursor
    return (octets :: others, cursor)

end Cursor

def decodeTexts (cursor : Cursor) : Except Fault (Frame × Cursor) := do
  let (vendor, cursor) ← cursor.text .vendor
  let (count, cursor) ← cursor.count .comments
  let (comments, cursor) ← cursor.comments 0 count
  return (⟨vendor, comments⟩, cursor)

def decode (packet : Bytes) : Except Fault (Frame × Cursor) :=
  if isMarked packet then decodeTexts ⟨marker.length, packet.drop marker.length⟩
  else .error (.malformedHeader (.noTagsMarker (packet.take 8)))

theorem isMarked_iff {packet : Bytes} :
    isMarked packet = true ↔ Latin1.bytes marker <+: packet :=
  Latin1.startsWith_iff (by decide)

end Frame
end OpusStream
