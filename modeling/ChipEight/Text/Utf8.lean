/-!
# UTF-8

Between bytes and characters. Bytes that are no well-formed UTF-8 have no characters at all.
-/

namespace ChipEight.Text

/-- The characters of well-formed UTF-8. -/
def ofUtf8? (bytes : List UInt8) : Option (List Char) :=
  ((ByteArray.mk bytes.toArray).utf8Decode?).map Array.toList

/-- The bytes of a text. -/
def toUtf8 (s : List Char) : List UInt8 := (String.ofList s).toUTF8.data.toList

end ChipEight.Text
