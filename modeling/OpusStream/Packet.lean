import OpusStream.Page.Basic

/-!
# Packets

A packet is laced into segments: segments of 255 octets go on, and the first smaller segment, which
may be empty, ends it. A packet may run over several pages.
-/

namespace OpusStream
namespace Packet

def lacing (packet : Bytes) : Bytes :=
  List.replicate (packet.length / 255) 255 ++ [UInt8.ofNat (packet.length % 255)]

def end? : Bytes → Option Nat
  | [] => none
  | size :: sizes => if size < 255 then some size.toNat else (end? sizes).map (255 + ·)

@[simp] theorem end?_nil : end? [] = none := rfl
@[simp] theorem end?_cons (size : UInt8) (sizes : Bytes) : end? (size :: sizes) =
    if size < 255 then some size.toNat else (end? sizes).map (255 + ·) := rfl

/-- How far the segments of a page take a packet: to its end, or to the next page with the segments
there are so far, the last first. -/
inductive Gathered
  | ended (packet : Bytes)
  | unfinished (segments : List Bytes)
  deriving DecidableEq

/-- Cut segments of the given sizes off a body behind those there are. A segment that is not full
ends the packet. -/
def gather (segments : List Bytes) : Bytes → Bytes → Gathered
  | [], _ => .unfinished segments
  | size :: sizes, body =>
    let segments := body.take size.toNat :: segments
    if size < 255 then .ended segments.reverse.flatten
    else gather segments sizes (body.drop size.toNat)

@[simp] theorem gather_cons (segments : List Bytes) (size : UInt8) (sizes body : Bytes) :
    gather segments (size :: sizes) body =
      if size < 255 then .ended (body.take size.toNat :: segments).reverse.flatten
      else gather (body.take size.toNat :: segments) sizes (body.drop size.toNat) := rfl

def assembleBehind (segments : List Bytes) : List Page → Option Bytes
  | [] => none
  | page :: pages =>
    match gather segments page.lacing page.body with
    | .ended packet => some packet
    | .unfinished segments => assembleBehind segments pages

def assemble (pages : List Page) : Option Bytes := assembleBehind [] pages

end Packet
end OpusStream
