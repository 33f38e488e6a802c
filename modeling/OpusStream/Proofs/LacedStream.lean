import OpusStream.Proofs.CommentPacket

/-!
# Packets in a laced stream

Segments go on from page to page as if there were no pages. So the packet at the front of some pages
is read off the sizes and the octets of all of them: it ends with the first segment that is not full.
-/

namespace OpusStream
namespace Packet

def firstShort (sizes : Bytes) : Nat := sizes.findIdx (· < 255)

theorem end?_eq (sizes : Bytes) : end? sizes =
    sizes[firstShort sizes]?.map fun last => 255 * firstShort sizes + last.toNat := by
  induction sizes with
  | nil => rfl
  | cons size sizes ih =>
    by_cases hsize : size < 255
    · have hfirst : firstShort (size :: sizes) = 0 := by simp [firstShort, List.findIdx_cons, hsize]
      rw [end?_cons, if_pos hsize, hfirst]
      simp
    · have hfirst : firstShort (size :: sizes) = firstShort sizes + 1 := by
        simp [firstShort, List.findIdx_cons, hsize]
      rw [end?_cons, if_neg hsize, ih, hfirst, List.getElem?_cons_succ]
      cases sizes[firstShort sizes]? with
      | none => rfl
      | some last =>
        simp only [Option.map_some, Option.some.injEq]
        omega

theorem assemble_eq_none_iff {pages : List Page} :
    assemble pages = none ↔ ∀ size ∈ sizes pages, size = 255 := by
  rw [assemble_eq, Option.map_eq_none_iff, end?_eq_none_iff]

theorem assemble_of_firstShort {pages : List Page} {last : UInt8}
    (h : (sizes pages)[firstShort (sizes pages)]? = some last) :
    255 * firstShort (sizes pages) + last.toNat ≤ (bodies pages).length ∧
      assemble pages =
        some ((bodies pages).take (255 * firstShort (sizes pages) + last.toNat)) := by
  have hend : end? (sizes pages) = some (255 * firstShort (sizes pages) + last.toNat) := by
    rw [end?_eq, h, Option.map_some]
  refine ⟨?_, ?_⟩
  · rw [length_bodies]
    exact le_total_of_end? hend
  · rw [assemble_eq, hend, Option.map_some]

/-- The packet at the front of pages is a matter of all their segments and octets. It has no end
exactly when all segments are full; else it ends with the first that is not. A packet is found
however its segments are put on pages and whatever segments follow, and what is found stays the same
with more pages. -/
theorem assemble_laced_stream (pages : List Page) :
    (assemble pages = none ↔ ∀ size ∈ sizes pages, size = 255) ∧
    (∀ last, (sizes pages)[firstShort (sizes pages)]? = some last →
      255 * firstShort (sizes pages) + last.toNat ≤ (bodies pages).length ∧
        assemble pages =
          some ((bodies pages).take (255 * firstShort (sizes pages) + last.toNat))) ∧
    (∀ packet moreSizes moreOctets, sizes pages = lacing packet ++ moreSizes →
      bodies pages = packet ++ moreOctets → assemble pages = some packet) ∧
    ∀ packet later, assemble pages = some packet → assemble (pages ++ later) = some packet := by
  refine ⟨assemble_eq_none_iff, fun last => assemble_of_firstShort, ?_, ?_⟩
  · intro packet moreSizes moreOctets hsizes hbodies
    exact assemble_of_lacing hsizes hbodies
  · intro packet later h
    exact assemble_append h later

def samplePages : List Page :=
  [⟨0, 0, 0, 7, 1, 0, [255, 255], List.replicate 510 7, 0, by decide, List.length_replicate⟩,
    ⟨0, 1, 0, 7, 2, 0, [], [], 0, by decide, rfl⟩,
    ⟨0, 1, 0, 7, 3, 0, [0, 2], [1, 2], 0, by decide, rfl⟩]

theorem assemble_laced_stream_sample :
    sizes samplePages = lacing (List.replicate 510 7) ++ [2] ∧
    bodies samplePages = List.replicate 510 7 ++ [1, 2] ∧
    (sizes samplePages)[firstShort (sizes samplePages)]? = some 0 ∧
    assemble samplePages = some ((bodies samplePages).take 510) ∧
    assemble samplePages = some (List.replicate 510 7) ∧
    assemble (samplePages ++ samplePages) = some (List.replicate 510 7) := by
  have hsizes : sizes samplePages = lacing (List.replicate 510 7) ++ [2] := by
    rw [lacing, List.length_replicate]
    rfl
  have hbodies : bodies samplePages = List.replicate 510 7 ++ [1, 2] := by
    simp only [samplePages, bodies_cons, bodies_nil, List.nil_append, List.append_nil]
  have hlast : (sizes samplePages)[firstShort (sizes samplePages)]? = some 0 := rfl
  obtain ⟨-, hshort, hpacket, hmore⟩ := assemble_laced_stream samplePages
  have hfound := hpacket _ _ _ hsizes hbodies
  exact ⟨hsizes, hbodies, hlast, (hshort 0 hlast).2, hfound, hmore _ samplePages hfound⟩

end Packet
end OpusStream
