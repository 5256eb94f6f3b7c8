import ScrapeScript.Source.Position
import ScrapeScript.Text.Uppercase

namespace ScrapeScript

/-- A report about a place of a script. -/
structure Diagnostic where
  message : String
  location : Location
  severity : String
  code : Option String
  help : Option String
  suggestions : Option (List String)
  title : Option String
deriving DecidableEq

namespace Diagnostic

def header (d : Diagnostic) : String :=
  let code := d.code.filter (· != "")
  let title := d.title.filter (· != "")
  capitalise d.severity ++ (code.map fun c => s!"[{c}]").getD "" ++
    (title.map fun t => s!" {t}").getD "" ++ s!": {d.message}\n"

def helpLine (d : Diagnostic) : String :=
  match d.help.filter (· != "") with
  | some h => s!"  help: {h}\n"
  | none => ""

def suggestionLines (d : Diagnostic) : String :=
  match d.suggestions.getD [] with
  | [] => ""
  | ss => "  suggestions:\n" ++ String.join (ss.map fun s => s!"    - {s}\n")

/-- The full text, in which an empty string or list counts as none. -/
def text (d : Diagnostic) : String :=
  d.header ++ s!"  --> {d.location.text}\n" ++ d.helpLine ++ d.suggestionLines

end Diagnostic

end ScrapeScript
