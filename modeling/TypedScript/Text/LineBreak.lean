import TypedScript.Text.Bytes

/-! # Line breaks between two byte offsets

The search is over bytes, so that offsets inside a character are answered too: a line separator or
paragraph separator counts only if its three bytes `E2 80 A8` or `E2 80 A9` all lie between the
offsets. Offsets beyond the text stand for its end.
-/

namespace TypedScript.Text

/-- Whether the bytes hold a line feed, a carriage return, or a whole line or paragraph separator. -/
def breakInBytes : List UInt8 → Bool
  | [] => false
  | b :: rest =>
    if b == 0x0A || b == 0x0D then true
    else if b == 0xE2 && ([0x80, 0xA8].isPrefixOf rest || [0x80, 0xA9].isPrefixOf rest) then true
    else breakInBytes rest

def hasLineBreak (text : List Char) (start stop : Nat) : Bool :=
  breakInBytes (((utf8 text).drop start).take (stop - start))

end TypedScript.Text
