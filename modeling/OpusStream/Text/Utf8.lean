import OpusStream.Bytes

/-!
# UTF-8 read leniently

Octets are read one at a time. An octet that cannot go on with the character begun ends it as one
replacement character and is then read afresh, so each longest begun but unfinished character
costs one replacement, and so does each octet that begins none.
-/

namespace OpusStream
namespace Utf8

def replacement : Char := '\uFFFD'

/-- A character of which `later + 1` octets are missing; the next lies between `low` and `high`. -/
structure Pending where
  code : Nat
  later : Nat
  low : Nat
  high : Nat
  deriving DecidableEq

inductive Lead
  | whole (c : Char)
  | begins (pending : Pending)
  | stray
  deriving DecidableEq

/-- The narrower ranges after 224, 237, 240 and 244 leave out long forms, surrogates and numbers
past the last code point. -/
def lead (octet : UInt8) : Lead :=
  let n := octet.toNat
  if n < 0x80 then .whole (Char.ofNat n)
  else if n < 0xC2 then .stray
  else if n < 0xE0 then .begins ⟨n - 0xC0, 0, 0x80, 0xBF⟩
  else if n < 0xF0 then
    .begins ⟨n - 0xE0, 1, if n = 0xE0 then 0xA0 else 0x80, if n = 0xED then 0x9F else 0xBF⟩
  else if n < 0xF5 then
    .begins ⟨n - 0xF0, 2, if n = 0xF0 then 0x90 else 0x80, if n = 0xF4 then 0x8F else 0xBF⟩
  else .stray

/-- The characters read so far, the last first, and the character begun. -/
structure Reader where
  read : List Char
  pending : Option Pending
  deriving DecidableEq

def Reader.start (read : List Char) (octet : UInt8) : Reader :=
  match lead octet with
  | .whole c => ⟨c :: read, none⟩
  | .begins pending => ⟨read, some pending⟩
  | .stray => ⟨replacement :: read, none⟩

theorem Reader.start_whole {octet : UInt8} {c : Char} (h : lead octet = .whole c)
    (read : List Char) : Reader.start read octet = ⟨c :: read, none⟩ := by rw [start, h]

theorem Reader.start_begins {octet : UInt8} {pending : Pending} (h : lead octet = .begins pending)
    (read : List Char) : Reader.start read octet = ⟨read, some pending⟩ := by rw [start, h]

theorem Reader.start_stray {octet : UInt8} (h : lead octet = .stray) (read : List Char) :
    Reader.start read octet = ⟨replacement :: read, none⟩ := by rw [start, h]

def Reader.push (reader : Reader) (octet : UInt8) : Reader :=
  match reader.pending with
  | none => .start reader.read octet
  | some pending =>
    if pending.low ≤ octet.toNat ∧ octet.toNat ≤ pending.high then
      let code := pending.code * 64 + (octet.toNat - 0x80)
      match pending.later with
      | 0 => ⟨Char.ofNat code :: reader.read, none⟩
      | later + 1 => ⟨reader.read, some ⟨code, later, 0x80, 0xBF⟩⟩
    else .start (replacement :: reader.read) octet

@[simp] theorem Reader.push_none (read : List Char) (octet : UInt8) :
    Reader.push ⟨read, none⟩ octet = .start read octet := rfl

section Push

variable {octet : UInt8} {code later low high : Nat} {read : List Char}

@[simp] theorem Reader.push_last (h : low ≤ octet.toNat ∧ octet.toNat ≤ high) :
    Reader.push ⟨read, some ⟨code, 0, low, high⟩⟩ octet =
      ⟨Char.ofNat (code * 64 + (octet.toNat - 0x80)) :: read, none⟩ := if_pos h

@[simp] theorem Reader.push_more (h : low ≤ octet.toNat ∧ octet.toNat ≤ high) :
    Reader.push ⟨read, some ⟨code, later + 1, low, high⟩⟩ octet =
      ⟨read, some ⟨code * 64 + (octet.toNat - 0x80), later, 0x80, 0xBF⟩⟩ := if_pos h

@[simp] theorem Reader.push_outside (h : ¬ (low ≤ octet.toNat ∧ octet.toNat ≤ high)) :
    Reader.push ⟨read, some ⟨code, later, low, high⟩⟩ octet =
      .start (replacement :: read) octet := if_neg h

end Push

def Reader.finish (reader : Reader) : List Char :=
  match reader.pending with
  | none => reader.read.reverse
  | some _ => (replacement :: reader.read).reverse

@[simp] theorem Reader.finish_none (read : List Char) :
    Reader.finish ⟨read, none⟩ = read.reverse := rfl
@[simp] theorem Reader.finish_some (read : List Char) (pending : Pending) :
    Reader.finish ⟨read, some pending⟩ = (replacement :: read).reverse := rfl

def decode (bytes : Bytes) : List Char :=
  (bytes.foldl Reader.push ⟨[], none⟩).finish

def encode (text : List Char) : Bytes :=
  text.flatMap String.utf8EncodeChar

@[simp] theorem encode_nil : encode [] = [] := rfl
@[simp] theorem encode_cons (c : Char) (text : List Char) :
    encode (c :: text) = String.utf8EncodeChar c ++ encode text := rfl
@[simp] theorem encode_append (text later : List Char) :
    encode (text ++ later) = encode text ++ encode later := List.flatMap_append

def dropMark : Bytes → Bytes
  | 0xEF :: 0xBB :: 0xBF :: rest => rest
  | bytes => bytes

def text (bytes : Bytes) : String :=
  String.ofList (decode (dropMark bytes))

@[simp] theorem toList_text (bytes : Bytes) : (text bytes).toList = decode (dropMark bytes) :=
  String.toList_ofList

end Utf8
end OpusStream
