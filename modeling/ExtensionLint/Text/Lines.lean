/-!
Lines of a text, in two conventions. A *physical* line ends at CR, LF or CRLF; a *plain* line ends at
LF, and one CR before that LF belongs to the line end.
-/
namespace ExtensionLint.Text

def isLineBreak (c : Char) : Bool := c == '\n' || c == '\r'

/-- Reads physical lines; `line` and `done` hold, reversed, what has been read. -/
def cutLines : List Char → (line : List Char) → (done : List (List Char)) → List (List Char)
  | [], line, done => (line.reverse :: done).reverse
  | '\r' :: '\n' :: s, line, done => cutLines s [] (line.reverse :: done)
  | c :: s, line, done =>
    if isLineBreak c then cutLines s [] (line.reverse :: done) else cutLines s (c :: line) done

/-- The physical lines of a text: one more than it has line ends. -/
def physicalLines (s : List Char) : List (List Char) := cutLines s [] []

/-- The text of a line read in reverse, without the CR that its LF closes. -/
def closedLine : List Char → List Char
  | '\r' :: line => line.reverse
  | line => line.reverse

/-- Reads plain lines; a line without an LF counts unless it is empty, and keeps its CR. -/
def cutPlainLines : List Char → (line : List Char) → (done : List (List Char)) → List (List Char)
  | [], [], done => done.reverse
  | [], line, done => (line.reverse :: done).reverse
  | c :: s, line, done =>
    if c == '\n' then cutPlainLines s [] (closedLine line :: done)
    else cutPlainLines s (c :: line) done

/-- The plain lines of a text; an LF at its very end opens no further line. -/
def plainLines (s : List Char) : List (List Char) := cutPlainLines s [] []

end ExtensionLint.Text
