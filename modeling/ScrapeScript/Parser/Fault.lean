import ScrapeScript.Diagnostic.SyntaxError

namespace ScrapeScript

/-- The places of the grammar where one kind of token has to stand. -/
inductive Expectation
  | variableName
  | semicolonAfterDeclaration
  | openIf
  | closeCondition
  | openFor
  | loopVariable
  | inAfterLoopVariable
  | closeLoopHeader
  | closeBlock
  | openFetch
  | closeUrl
  | semicolonAfterFetch
  | openSave
  | commaAfterData
  | closeFilename
  | semicolonAfterSave
  | openPrint
  | closeExpression
  | semicolonAfterPrint
  | semicolonAfterExpression
  | closeArguments
  | openSelect
  | closeSelector
deriving DecidableEq

namespace Expectation

def kind : Expectation → TokenKind
  | variableName | loopVariable => .identifier
  | semicolonAfterDeclaration | semicolonAfterFetch | semicolonAfterSave | semicolonAfterPrint
  | semicolonAfterExpression => .semicolon
  | openIf | openFor | openFetch | openSave | openPrint | openSelect => .leftParen
  | closeCondition | closeLoopHeader | closeUrl | closeFilename | closeExpression
  | closeArguments | closeSelector => .rightParen
  | inAfterLoopVariable => .inWord
  | closeBlock => .rightBrace
  | commaAfterData => .comma

def message : Expectation → String
  | variableName => "Expect variable name."
  | semicolonAfterDeclaration => "Expect ';' after variable declaration."
  | openIf => "Expect '(' after 'if'."
  | closeCondition => "Expect ')' after if condition."
  | openFor => "Expect '(' after 'for'."
  | loopVariable => "Expect variable name in for loop."
  | inAfterLoopVariable => "Expect 'in' after variable name in for loop."
  | closeLoopHeader => "Expect ')' after for loop header."
  | closeBlock => "Expect '\x7d' after block."
  | openFetch => "Expect '(' after 'fetch'."
  | closeUrl => "Expect ')' after URL."
  | semicolonAfterFetch => "Expect ';' after fetch statement."
  | openSave => "Expect '(' after 'save'."
  | commaAfterData => "Expect ',' after data expression."
  | closeFilename => "Expect ')' after filename."
  | semicolonAfterSave => "Expect ';' after save statement."
  | openPrint => "Expect '(' after 'print'."
  | closeExpression => "Expect ')' after expression."
  | semicolonAfterPrint => "Expect ';' after print statement."
  | semicolonAfterExpression => "Expect ';' after expression."
  | closeArguments => "Expect ')' after arguments."
  | openSelect => "Expect '(' after 'select'."
  | closeSelector => "Expect ')' after selector."

end Expectation

/-- Why a token is refused. -/
inductive Cause
  | missing (expectation : Expectation)
  | propertyName
  | expression
  | assignmentTarget
  | tooDeep (limit : Int)
deriving DecidableEq

/-- A token that is refused, and why. For an assignment it is the sign of the assignment. -/
structure SyntaxFault where
  cause : Cause
  token : Token
deriving DecidableEq

def SyntaxFault.error (f : SyntaxFault) : SyntaxError :=
  match f.cause with
  | .missing e => SyntaxError.unexpected (.kind e.kind) f.token (some e.message)
  | .propertyName =>
    SyntaxError.unexpected (.words "property name") f.token
      (some "Expect property name after '.'.")
  | .expression => SyntaxError.notExpression f.token "Expect expression."
  | .assignmentTarget => SyntaxError.notAssignable f.token
  | .tooDeep limit => SyntaxError.tooDeep f.token limit

end ScrapeScript
