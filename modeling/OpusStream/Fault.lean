import OpusStream.Bytes
import OpusStream.Number.Layout
import OpusStream.Text.Latin1

/-!
# Faults

Every reason to refuse an input is a `Fault`. A fault holds the facts of the refusal, `Fault.kind`
sorts it, and `Fault.message` words it.
-/

namespace OpusStream

inductive TextField
  | vendor
  | comment (index : Nat)
  deriving DecidableEq

def TextField.label : TextField → String
  | .vendor => "vendor string"
  | .comment index => s!"user comment #{index}"

inductive CountField
  | lengthOf (field : TextField)
  | comments
  deriving DecidableEq

def CountField.label : CountField → String
  | .lengthOf field => field.label ++ " length"
  | .comments => "user comment list length"

inductive Defect
  | noHeadMarker (found : Bytes)
  | headTooShort (size : Nat)
  | tableTooShort (size required : Nat)
  | rateOutOfReach (size required : Nat)
  | noTagsMarker (found : Bytes)
  | endsBefore (field : CountField) (position : Nat)
  | overruns (field : TextField) (length position size : Nat)
  deriving DecidableEq

def Defect.message : Defect → String
  | .noHeadMarker found =>
    let text := Latin1.text found
    s!"Not an Opus identification header: expected OpusHead but found \"{text}\""
  | .headTooShort size =>
    s!"Opus identification header too short: {size} bytes, at least 19 required"
  | .tableTooShort size required =>
    "Opus identification header too short for the channel mapping table: " ++
      s!"{size} bytes, {required} required"
  | .rateOutOfReach size required =>
    "Identification header payload too short for the sample rate: " ++
      s!"{size} bytes, {required} required"
  | .noTagsMarker found =>
    let text := Latin1.text found
    s!"Not an Opus comment header: expected OpusTags but found \"{text}\""
  | .endsBefore field position =>
    s!"Opus comment header ends before the {field.label} at offset {position}"
  | .overruns field length position size =>
    s!"Opus comment header {field.label} of {length} bytes at offset {position} " ++
      s!"exceeds the packet size {size}"

inductive FaultKind
  | unsupported
  | notOgg
  | notOpus
  | invalidPage
  | truncatedPage
  | malformedHeader
  | multipleStreams
  | granuleBackwards
  | badRate
  deriving DecidableEq

inductive Fault
  | notOgg
  | notOpus
  | invalidPage (offset : Int)
  /-- A page begins at the offset and needs `expected` octets or more, but `available` exist. -/
  | truncatedPage (offset expected available : Int)
  /-- An integer of so many bits does not fit between the offset and the end of the buffer. -/
  | shortBuffer (bits offset size : Nat)
  | malformedHeader (defect : Defect)
  | multipleStreams (serials : List Int)
  | granuleBackwards (current previous : Int)
  | badRate (rate : Float)
  /-- A fault that the caller words. -/
  | reported (kind : FaultKind) (text : String)
  deriving DecidableEq

namespace Fault

@[simp] def kind : Fault → FaultKind
  | notOgg => .notOgg
  | notOpus => .notOpus
  | invalidPage _ => .invalidPage
  | truncatedPage _ _ _ => .truncatedPage
  | shortBuffer _ _ _ => .unsupported
  | malformedHeader _ => .malformedHeader
  | multipleStreams _ => .multipleStreams
  | granuleBackwards _ _ => .granuleBackwards
  | badRate _ => .badRate
  | reported kind _ => kind

/-- Whether the fault lies in the data; a bad rate lies in the caller's argument. -/
def isUnsupported (fault : Fault) : Bool := fault.kind != .badRate

/-- Sample rates are written positionally below `10 ^ 21` and down to `10 ^ -6`. -/
def rateLayout : Number.Layout where
  whole := 21
  leadingZeros := 5
  notANumber := "NaN"
  infinity := "Infinity"

def message : Fault → String
  | notOgg => "Not an Ogg file: missing OggS capture pattern"
  | notOpus => "Not an Opus stream: no page carries an OpusHead packet"
  | invalidPage offset => s!"Not a valid Ogg page at offset {offset}"
  | truncatedPage offset expected available =>
    s!"Truncated Ogg page at offset {offset}: " ++
      s!"expected at least {expected} bytes but only {available} available"
  | shortBuffer bits offset size =>
    s!"Insufficient data for reading uint{bits} at offset {offset} " ++
      s!"from a buffer of size {size}"
  | malformedHeader defect => defect.message
  | multipleStreams serials =>
    "Multiplexed Ogg streams are not supported, found serial numbers: " ++
      ", ".intercalate (serials.map toString)
  | granuleBackwards current previous =>
    s!"Granule position went backwards from {previous} to {current}"
  | badRate rate => "Sample rate must be positive: " ++ rateLayout.text rate
  | reported _ text => text

section Except

variable {α β : Type}

@[simp] theorem bind_ok (a : α) (f : α → Except Fault β) : (.ok a >>= f) = f a := rfl

@[simp] theorem bind_error (fault : Fault) (f : α → Except Fault β) :
    (.error fault >>= f) = .error fault := rfl

@[simp] theorem pure_eq (a : α) : (pure a : Except Fault α) = .ok a := rfl

@[simp] theorem map_ok (f : α → β) (a : α) : f <$> (.ok a : Except Fault α) = .ok (f a) := rfl

@[simp] theorem map_error (f : α → β) (fault : Fault) :
    f <$> (.error fault : Except Fault α) = .error fault := rfl

@[simp] theorem except_map_ok (f : α → β) (a : α) :
    (.ok a : Except Fault α).map f = .ok (f a) := rfl

@[simp] theorem except_map_error (f : α → β) (fault : Fault) :
    (.error fault : Except Fault α).map f = .error fault := rfl

theorem bind_eq_ok_iff {x : Except Fault α} {f : α → Except Fault β} {b : β} :
    x >>= f = .ok b ↔ ∃ a, x = .ok a ∧ f a = .ok b := by
  cases x <;> simp

theorem bind_eq_error_iff {x : Except Fault α} {f : α → Except Fault β} {fault : Fault} :
    x >>= f = .error fault ↔ x = .error fault ∨ ∃ a, x = .ok a ∧ f a = .error fault := by
  cases x <;> simp

/-- Where a function tells no difference, both readings are refused for the same reason or both
give an answer. -/
theorem exists_of_map_eq_map {x y : Except Fault α} {f : α → β} (h : x.map f = y.map f) :
    (∃ fault, x = .error fault ∧ y = .error fault) ∨
      ∃ a b, x = .ok a ∧ y = .ok b ∧ f a = f b := by
  cases x with
  | error fault =>
    cases y with
    | error other =>
      cases h
      exact .inl ⟨fault, rfl, rfl⟩
    | ok b => cases h
  | ok a =>
    cases y with
    | error fault => cases h
    | ok b => exact .inr ⟨a, b, rfl, rfl, Except.ok.inj h⟩

end Except

end Fault
end OpusStream
