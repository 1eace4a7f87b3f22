/-!
# The readable part of a file

A file is read line by line for as long as its lines are UTF-8.
-/

namespace Ripple
namespace Text

def lineFeed : UInt8 := 10

/-- The text of the lines before the first that is not UTF-8. -/
def readable (bytes : ByteArray) : String :=
  let lines := (bytes.data.toList.splitOn lineFeed).map fun line =>
    String.fromUTF8? ⟨line.toArray⟩
  let texts := (lines.takeWhile Option.isSome).filterMap id
  "\n".intercalate (if texts.length < lines.length then texts ++ [""] else texts)

/-- Marks of the byte order. -/
def isMark (c : Char) : Bool :=
  c = '\uFEFF'

end Text
end Ripple
