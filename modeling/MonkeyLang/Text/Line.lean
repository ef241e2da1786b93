/-!
# Lines

Taking a text apart into lines.  A line ends with a line feed or with the
text; whatever line feeds and carriage returns stand at its end are no part of
it.
-/

namespace MonkeyLang

/-- The characters that end a line. -/
def isLineEnd (c : Char) : Bool :=
  c == '\n' || c == '\r'

/-- A line without the characters that end it. -/
def stripLineEnd (line : List Char) : List Char :=
  (line.reverse.dropWhile isLineEnd).reverse

/-- The first line of a text and the text behind it, unless the text is
empty. -/
def takeLine? : List Char → Option (String × List Char)
  | [] => none
  | c :: cs =>
    let text := c :: cs
    some (String.ofList (stripLineEnd (text.takeWhile (· ≠ '\n'))),
      (text.dropWhile (· ≠ '\n')).tail)

end MonkeyLang
