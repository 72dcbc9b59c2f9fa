import LabelPress.Text.Units

/-!
# The hash of a value

The FNV-1a hash with 32 bits, over the UTF-16 units of a text. It chooses the stripes of
a barcode, so equal values look alike and different ones nearly always differ.
-/

namespace LabelPress.Barcode

/-- The hash of the empty text. -/
def hashBasis : UInt32 := 0x811c9dc5

/-- What the hash is multiplied by at each unit. -/
def hashPrime : UInt32 := 0x01000193

/-- The hash after one more unit. -/
def hashStep (h : UInt32) (u : UInt16) : UInt32 := (h ^^^ u.toUInt32) * hashPrime

/-- The hash of a text. -/
def hash (value : String) : UInt32 := (Text.units value).foldl hashStep hashBasis

/-- The hash of a text goes on from the hash of its beginning. -/
theorem hash_append (s t : String) :
    hash (s ++ t) = (Text.units t).foldl hashStep (hash s) := by
  simp [hash, Text.units_append]

end LabelPress.Barcode
