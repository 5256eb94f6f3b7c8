import ScrapeScript.Parser.Fault
import ScrapeScript.Parser.Recovery

namespace ScrapeScript

/-- What stays the same while a script is parsed: how deep it may nest, and the token that stands
for the end when nothing is ahead. -/
structure Setting where
  limit : Int
  final : Token

/-- The levels of nesting there are. A negative limit allows no more than zero does. -/
def Setting.levels (g : Setting) : Nat := g.limit.toNat

/-- What changes: the tokens ahead, how deep the rule at work is nested, and the faults so far. -/
structure State (g : Setting) where
  ahead : List Token
  depth : Nat
  faults : List SyntaxFault
  depth_le : depth ≤ g.levels

namespace State

variable {g : Setting}

def start (g : Setting) (ahead : List Token) : State g := ⟨ahead, 0, [], Nat.zero_le _⟩

/-- The next token, which may be the final one. -/
def next (s : State g) : Token := s.ahead.headD g.final

def enter (s : State g) (h : s.depth < g.levels) : State g :=
  { s with depth := s.depth + 1, depth_le := h }

def leave (s : State g) : State g :=
  { s with depth := s.depth - 1, depth_le := Nat.le_trans (Nat.sub_le _ _) s.depth_le }

end State

/-- A rule of the grammar reads some of the tokens ahead, or fails at one of them. -/
abbrev Rule (g : Setting) := EStateM SyntaxFault (State g)

namespace Rule

variable {g : Setting} {α : Type}

def fail (cause : Cause) : Rule g α := fun s => .error ⟨cause, s.next⟩ s

/-- Reads a token of the kinds `p`, if one is next. -/
def accept (p : TokenKind → Bool) : Rule g (Option Token) := fun s =>
  match s.ahead with
  | [] => .ok none s
  | t :: rest => if p t.kind then .ok (some t) { s with ahead := rest } else .ok none s

def acceptKind (kind : TokenKind) : Rule g (Option Token) := accept (· == kind)

def demand (e : Expectation) : Rule g Token := do
  match ← acceptKind e.kind with
  | some t => return t
  | none => fail (.missing e)

def nextIs (kind : TokenKind) : Rule g Bool := fun s =>
  .ok (s.ahead.head?.any (·.kind == kind)) s

/-- Whether nothing is ahead, or a token of the kinds `p`. -/
def stopsAt (p : TokenKind → Bool) : Rule g Bool := fun s =>
  .ok (s.ahead.head?.all (p ·.kind)) s

/-- One level of nesting, entered before a rule and left after it, whether it fails or not. -/
def within (rule : Rule g α) : Rule g α := fun s =>
  if h : s.depth < g.levels then
    match rule (s.enter h) with
    | .ok a t => .ok a t.leave
    | .error f t => .error f t.leave
  else fail (.tooDeep g.limit) s

/-- Replaces a value by what a step makes of it, at most so many times. -/
def iterateUpTo (step : α → Rule g (Option α)) : Nat → α → Rule g α
  | 0, a => pure a
  | n + 1, a => do
    match ← step a with
    | some b => iterateUpTo step n b
    | none => return a

/-- Replaces a value as long as a step makes something of it. Each step reads a token. -/
def iterate (step : α → Rule g (Option α)) (a : α) : Rule g α := fun s =>
  iterateUpTo step s.ahead.length a s

/-- Collects what a rule yields, at most so many times. -/
def manyUpTo (rule : Rule g (Option α)) : Nat → Rule g (List α)
  | 0 => pure []
  | n + 1 => do
    match ← rule with
    | some a => (a :: ·) <$> manyUpTo rule n
    | none => return []

/-- Collects what a rule yields as long as it yields something. Each time it reads a token. -/
def many (rule : Rule g (Option α)) : Rule g (List α) := fun s =>
  manyUpTo rule s.ahead.length s

/-- Keeps the fault of a rule that fails and passes over tokens up to the next boundary. -/
def recovering (rule : Rule g α) : Rule g (Option α) := fun s =>
  match rule s with
  | .ok a t => .ok (some a) t
  | .error f t =>
    .ok none { t with ahead := Recovery.resume t.ahead, faults := t.faults ++ [f] }

end Rule

end ScrapeScript
