import ScrapeScript.Script.File
import ScrapeScript.Script.Log
import ScrapeScript.Tree.Equality
import ScrapeScript.Tree.Node
import ScrapeScript.Proofs.Tree.Headers
import ScrapeScript.Proofs.Tree.Unambiguous
import ScrapeScript.Proofs.Parser.Boundaries
import ScrapeScript.Proofs.Parser.Correctness
import ScrapeScript.Proofs.Parser.Concatenation
import ScrapeScript.Proofs.Parser.Cursor
import ScrapeScript.Proofs.Parser.Depth
import ScrapeScript.Proofs.Parser.KindsAndValues
import ScrapeScript.Proofs.Parser.Limits
import ScrapeScript.Proofs.Parser.MissingSemicolon
import ScrapeScript.Proofs.Lexer.LineEnds
import ScrapeScript.Proofs.Script.Accepted
import ScrapeScript.Proofs.Script.Endings
