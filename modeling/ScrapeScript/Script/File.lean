import ScrapeScript.Script.Basic
import ScrapeScript.Text.Lines

namespace ScrapeScript

/-- Why a file is no script. -/
inductive FileFault
  | missing
  | notText
deriving DecidableEq

/-- The script in a file, given its bytes if there is such a file. -/
def Script.ofFile (name : String) (bytes : Option ByteArray) : Except FileFault Script :=
  match bytes with
  | none => .error .missing
  | some bytes =>
    match decodeText? bytes with
    | none => .error .notText
    | some source => .ok ⟨source, name⟩

end ScrapeScript
