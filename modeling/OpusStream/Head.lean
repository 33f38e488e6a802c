import OpusStream.Bytes.LittleEndian

/-!
# Identification headers

The first packet of an Opus stream says how to decode it. Channels are laid out in the standard way, as
family 0, or by a table with one entry for each channel, as any other family. `Head.encode` writes
the packet and `Head.decode` reads it, whatever follows.
-/

namespace OpusStream

/-- A channel layout other than the standard one. -/
structure MappingTable where
  family : UInt8
  streams : UInt8
  coupled : UInt8
  /-- The decoded channel that each output channel takes. -/
  outputs : Bytes
  family_ne_zero : family ≠ 0
  deriving DecidableEq

structure Head where
  version : UInt8
  channels : UInt8
  preSkip : UInt16
  inputRate : UInt32
  /-- The gain to apply, in 256ths of a decibel. -/
  gain : Int16
  table : Option MappingTable
  length_outputs : ∀ mapping ∈ table, mapping.outputs.length = channels.toNat
  deriving DecidableEq

namespace Head

def marker : String := "OpusHead"

@[simp] theorem length_marker : marker.length = 8 := rfl

def fixedSize : Nat := 19

def rateOffset : Nat := 12

def decodingRate : Nat := 48000

def isMarked (packet : Bytes) : Bool := Latin1.startsWith packet marker

def family (head : Head) : UInt8 :=
  match head.table with
  | none => 0
  | some mapping => mapping.family

def gainDecibels (head : Head) : Float := Float.ofInt head.gain.toInt / 256

def encodeFixed (head : Head) : Bytes :=
  Latin1.bytes marker ++
    (LittleEndian.digits 1 head.version.toNat ++
    (LittleEndian.digits 1 head.channels.toNat ++
    (LittleEndian.digits 2 head.preSkip.toNat ++
    (LittleEndian.digits 4 head.inputRate.toNat ++
    (LittleEndian.digits 2 head.gain.toUInt16.toNat ++
    LittleEndian.digits 1 head.family.toNat)))))

def encodeTable (head : Head) : Bytes :=
  match head.table with
  | none => []
  | some mapping => mapping.streams :: mapping.coupled :: mapping.outputs

def encode (head : Head) : Bytes := head.encodeFixed ++ head.encodeTable

/-- The table behind the fixed part of a packet, unless the family needs none. -/
def decodeTable (family channels : UInt8) (packet : Bytes) :
    Except Fault
      { table : Option MappingTable //
        ∀ mapping ∈ table, mapping.outputs.length = channels.toNat } :=
  if hfamily : family = 0 then .ok ⟨none, by simp⟩
  else if hsize : packet.length < fixedSize + 2 + channels.toNat then
    .error (.malformedHeader (.tableTooShort packet.length (fixedSize + 2 + channels.toNat)))
  else
    .ok ⟨some { family := family
                streams := .ofNat (LittleEndian.field 1 packet 19)
                coupled := .ofNat (LittleEndian.field 1 packet 20)
                outputs := (packet.drop 21).take channels.toNat
                family_ne_zero := hfamily }, by
      simp only [fixedSize] at hsize
      simp only [Option.mem_def, Option.some.injEq, forall_eq', List.length_take, List.length_drop]
      omega⟩

def decode (packet : Bytes) : Except Fault Head :=
  if !isMarked packet then .error (.malformedHeader (.noHeadMarker (packet.take 8)))
  else if packet.length < fixedSize then .error (.malformedHeader (.headTooShort packet.length))
  else do
    let channels := UInt8.ofNat (LittleEndian.field 1 packet 9)
    let gain ← LittleEndian.int16 packet 16
    let preSkip ← LittleEndian.uint16 packet 10
    let inputRate ← LittleEndian.uint32 packet rateOffset
    let table ← decodeTable (.ofNat (LittleEndian.field 1 packet 18)) channels packet
    return { version := .ofNat (LittleEndian.field 1 packet 8)
             channels := channels
             preSkip := preSkip
             inputRate := inputRate
             gain := gain
             table := table.1
             length_outputs := table.2 }

/-- The input sample rate of a packet that may lack the fields behind it. -/
def sampleRate (packet : Bytes) : Except Fault UInt32 :=
  if packet.length < rateOffset + 4 then
    .error (.malformedHeader (.rateOutOfReach packet.length (rateOffset + 4)))
  else LittleEndian.uint32 packet rateOffset

theorem isMarked_iff {packet : Bytes} :
    isMarked packet = true ↔ Latin1.bytes marker <+: packet :=
  Latin1.startsWith_iff (by decide)

theorem decode_of_not_marked {packet : Bytes} (h : isMarked packet = false) :
    decode packet = .error (.malformedHeader (.noHeadMarker (packet.take 8))) := by
  rw [decode, h, Bool.not_false, if_pos rfl]

theorem decode_of_lt {packet : Bytes} (hmarked : isMarked packet = true)
    (h : packet.length < fixedSize) :
    decode packet = .error (.malformedHeader (.headTooShort packet.length)) := by
  rw [decode, hmarked, Bool.not_true, if_neg Bool.false_ne_true, if_pos h]

/-- Behind the checks the readers do not fail, and only the table may still be missing. -/
theorem decode_of_le {packet : Bytes} (hmarked : isMarked packet = true)
    (h : fixedSize ≤ packet.length) : decode packet = do
      let table ← decodeTable (.ofNat (LittleEndian.field 1 packet 18))
        (.ofNat (LittleEndian.field 1 packet 9)) packet
      return { version := .ofNat (LittleEndian.field 1 packet 8)
               channels := .ofNat (LittleEndian.field 1 packet 9)
               preSkip := .ofNat (LittleEndian.field 2 packet 10)
               inputRate := .ofNat (LittleEndian.field 4 packet rateOffset)
               gain := (UInt16.ofNat (LittleEndian.field 2 packet 16)).toInt16
               table := table.1
               length_outputs := table.2 } := by
  rw [decode, hmarked, Bool.not_true, if_neg Bool.false_ne_true, if_neg (Nat.not_lt.mpr h)]
  have hsize : 19 ≤ packet.length := h
  rw [LittleEndian.int16_of_le (by omega), LittleEndian.uint16_of_le (by omega),
    LittleEndian.uint32_of_le (by rw [rateOffset]; omega)]
  rfl

theorem sampleRate_of_le {packet : Bytes} (h : rateOffset + 4 ≤ packet.length) :
    sampleRate packet = .ok (.ofNat (LittleEndian.field 4 packet rateOffset)) := by
  rw [sampleRate, if_neg (by omega), LittleEndian.uint32_of_le h]

theorem sampleRate_of_lt {packet : Bytes} (h : packet.length < rateOffset + 4) :
    sampleRate packet =
      .error (.malformedHeader (.rateOutOfReach packet.length (rateOffset + 4))) := by
  rw [sampleRate, if_pos h]

end Head
end OpusStream
