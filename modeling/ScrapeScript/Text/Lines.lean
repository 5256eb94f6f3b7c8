namespace ScrapeScript

/-- Both a carriage return before a newline and one on its own become a newline. -/
def unifyLineEnds : List Char → List Char
  | [] => []
  | '\r' :: '\n' :: rest => '\n' :: unifyLineEnds rest
  | c :: rest => (if c = '\r' then '\n' else c) :: unifyLineEnds rest

/-- The text that bytes hold, if they are well-formed UTF-8. A byte order mark is kept. -/
def decodeText? (bytes : ByteArray) : Option String :=
  (String.fromUTF8? bytes).map fun s => String.ofList (unifyLineEnds s.toList)

end ScrapeScript
