namespace ScrapeScript

/-- A place in a text. Lines and columns count from one, the offset counts the characters before. -/
structure Position where
  line : Nat
  column : Nat
  offset : Nat
deriving DecidableEq

namespace Position

def start : Position := ⟨1, 1, 0⟩

/-- Only a newline ends a line; a carriage return is a character like any other. -/
def advance (p : Position) (c : Char) : Position :=
  if c = '\n' then ⟨p.line + 1, 1, p.offset + 1⟩ else ⟨p.line, p.column + 1, p.offset + 1⟩

def after (p : Position) (cs : List Char) : Position := cs.foldl advance p

@[simp] theorem after_nil (p : Position) : p.after [] = p := rfl

@[simp] theorem after_cons (p : Position) (c : Char) (cs : List Char) :
    p.after (c :: cs) = (p.advance c).after cs := rfl

theorem after_append (p : Position) (cs ds : List Char) :
    p.after (cs ++ ds) = (p.after cs).after ds := List.foldl_append

theorem advance_offset (p : Position) (c : Char) : (p.advance c).offset = p.offset + 1 := by
  unfold advance
  split <;> rfl

theorem after_offset (p : Position) (cs : List Char) :
    (p.after cs).offset = p.offset + cs.length := by
  induction cs generalizing p with
  | nil => rfl
  | cons c cs ih =>
    rw [after_cons, ih, advance_offset, List.length_cons]
    omega

end Position

/-- A place as it is reported. Streams built by hand may carry any integers. -/
structure Location where
  file : String
  line : Int
  column : Int
  offset : Int
deriving DecidableEq

def Position.inFile (p : Position) (file : String) : Location :=
  ⟨file, p.line, p.column, p.offset⟩

/-- The short form, which leaves the offset out. -/
def Location.text (l : Location) : String := s!"{l.file}:{l.line}:{l.column}"

end ScrapeScript
