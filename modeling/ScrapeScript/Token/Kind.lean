namespace ScrapeScript

inductive TokenKind
  | varWord | ifWord | elseWord | forWord | inWord
  | fetch | select | xpath | text | attr | html | save | print
  | identifier | string | number | boolean
  | equals | plus | minus | multiply | divide
  | greater | less | greaterEqual | lessEqual | equalEqual | notEqual | and | or | not
  | leftParen | rightParen | leftBrace | rightBrace | leftBracket | rightBracket
  | semicolon | comma | dot | dollar
  | comment | whitespace | endOfFile | unknown
deriving DecidableEq

namespace TokenKind

def name : TokenKind → String
  | varWord => "VAR"
  | ifWord => "IF"
  | elseWord => "ELSE"
  | forWord => "FOR"
  | inWord => "IN"
  | fetch => "FETCH"
  | select => "SELECT"
  | xpath => "XPATH"
  | text => "TEXT"
  | attr => "ATTR"
  | html => "HTML"
  | save => "SAVE"
  | print => "PRINT"
  | identifier => "IDENTIFIER"
  | string => "STRING"
  | number => "NUMBER"
  | boolean => "BOOLEAN"
  | equals => "EQUALS"
  | plus => "PLUS"
  | minus => "MINUS"
  | multiply => "MULTIPLY"
  | divide => "DIVIDE"
  | greater => "GREATER"
  | less => "LESS"
  | greaterEqual => "GREATER_EQUAL"
  | lessEqual => "LESS_EQUAL"
  | equalEqual => "EQUAL_EQUAL"
  | notEqual => "NOT_EQUAL"
  | and => "AND"
  | or => "OR"
  | not => "NOT"
  | leftParen => "LEFT_PAREN"
  | rightParen => "RIGHT_PAREN"
  | leftBrace => "LEFT_BRACE"
  | rightBrace => "RIGHT_BRACE"
  | leftBracket => "LEFT_BRACKET"
  | rightBracket => "RIGHT_BRACKET"
  | semicolon => "SEMICOLON"
  | comma => "COMMA"
  | dot => "DOT"
  | dollar => "DOLLAR"
  | comment => "COMMENT"
  | whitespace => "WHITESPACE"
  | endOfFile => "EOF"
  | unknown => "UNKNOWN"

/-- Every kind once, in the order of their numbers. -/
def all : List TokenKind :=
  [varWord, ifWord, elseWord, forWord, inWord,
    fetch, select, xpath, text, attr, html, save, print,
    identifier, string, number, boolean,
    equals, plus, minus, multiply, divide,
    greater, less, greaterEqual, lessEqual, equalEqual, notEqual, and, or, not,
    leftParen, rightParen, leftBrace, rightBrace, leftBracket, rightBracket,
    semicolon, comma, dot, dollar,
    comment, whitespace, endOfFile, unknown]

theorem ne_of_class {p : TokenKind → Bool} {j k : TokenKind} (hk : p k = true)
    (hj : p j = false) : k ≠ j := by
  rintro rfl
  rw [hj] at hk
  cases hk

/-- The kinds are numbered from one. -/
def ordinal (k : TokenKind) : Nat := all.idxOf k + 1

def ofName? (s : String) : Option TokenKind := all.find? (·.name == s)

def isKeyword (k : TokenKind) : Bool :=
  k matches varWord | ifWord | elseWord | forWord | inWord |
    fetch | select | xpath | text | attr | html | save | print

def isLiteral (k : TokenKind) : Bool := k matches string | number | boolean

def isOperator (k : TokenKind) : Bool :=
  k matches equals | plus | minus | multiply | divide | greater | less | greaterEqual |
    lessEqual | equalEqual | notEqual | and | or | not

/-- Trivia is for tools that show the text; the parser never sees it. -/
def isTrivia (k : TokenKind) : Bool := k matches comment | whitespace

/-- Words that open a statement, at which parsing resumes after a fault. -/
def startsStatement (k : TokenKind) : Bool :=
  k matches varWord | forWord | ifWord | fetch | save | print

/-- What may follow a dot. -/
def isPropertyName (k : TokenKind) : Bool :=
  k matches identifier | select | xpath | text | attr | html

end TokenKind

end ScrapeScript
