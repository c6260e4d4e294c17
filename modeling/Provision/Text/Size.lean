/-!
# The size of a text

Limits on texts count octets of UTF-8 and not characters.
-/

namespace Provision.Text

/-- How many octets the characters take in UTF-8. -/
def size (text : List Char) : Nat :=
  text.foldl (fun size c => size + c.utf8Size) 0

end Provision.Text
