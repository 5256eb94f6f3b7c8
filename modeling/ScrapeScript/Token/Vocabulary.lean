import ScrapeScript.Token.Kind

namespace ScrapeScript

namespace Vocabulary

/-- Words that are not identifiers. -/
def keywords : List (String × TokenKind) :=
  [("var", .varWord), ("if", .ifWord), ("else", .elseWord), ("for", .forWord), ("in", .inWord),
    ("fetch", .fetch), ("select", .select), ("xpath", .xpath), ("text", .text), ("attr", .attr),
    ("html", .html), ("save", .save), ("print", .print),
    ("true", .boolean), ("false", .boolean)]

/-- Characters that are a token whatever follows. -/
def singles : List (Char × TokenKind) :=
  [('(', .leftParen), (')', .rightParen), ('\x7b', .leftBrace), ('\x7d', .rightBrace),
    ('[', .leftBracket), (']', .rightBracket), (',', .comma), ('.', .dot), ('$', .dollar),
    (';', .semicolon), ('+', .plus), ('-', .minus), ('*', .multiply)]

/-- A character that makes one token with the character `second` and another, or none, without. -/
structure Pair where
  first : Char
  second : Char
  both : TokenKind
  alone : Option TokenKind

def pairs : List Pair :=
  [⟨'=', '=', .equalEqual, some .equals⟩, ⟨'!', '=', .notEqual, some .not⟩,
    ⟨'<', '=', .lessEqual, some .less⟩, ⟨'>', '=', .greaterEqual, some .greater⟩,
    ⟨'&', '&', .and, none⟩, ⟨'|', '|', .or, none⟩]

def wordKind (word : String) : TokenKind := (keywords.lookup word).getD .identifier

def single? (c : Char) : Option TokenKind := singles.lookup c

def pair? (c : Char) : Option Pair := pairs.find? (·.first == c)

end Vocabulary

end ScrapeScript
