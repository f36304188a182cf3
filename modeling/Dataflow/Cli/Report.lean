import Dataflow.Error

/-!
# Failure reports

A program that fails says what it could not do, and below that why: the causes from the outermost to
the innermost, numbered if there are several. Lines of a cause behind the first are indented like
it.
-/

namespace Dataflow.Cli

/-- Why a program fails. -/
inductive Failure where
  | unreadable (path : String)
  | invalidConfig (path : String)
  | invalidSpec (path : String)
  | build (path : String) (e : BuildError)
  | invalidInput (text : String)
  | run (e : RunError)
  deriving Repr, BEq

namespace Failure

/-- What could not be done. -/
def headline : Failure → String
  | .unreadable path => s!"cannot read {path}"
  | .invalidConfig path => s!"invalid config in {path}"
  | .invalidSpec path => s!"invalid specification in {path}"
  | .build path _ => s!"cannot build {path}"
  | .invalidInput text => s!"input `{text}` is not a JSON literal"
  | .run e => e.message

/-- Why it could not be done, outermost first. -/
def causes : Failure → List String
  | .build _ e => e.message :: e.causes
  | .run e => e.causes
  | _ => []

/-- A cause, its first line behind the given indent and the others behind blanks. -/
def indented (indent cause : String) : String :=
  indent ++ cause.replace "\n" ("\n" ++ "".pushn ' ' indent.length)

/-- The causes, one below the other. -/
def causeText : List String → String
  | [] => ""
  | [cause] => "\n\nCaused by:\n" ++ indented "    " cause
  | causes =>
    "\n\nCaused by:" ++ String.join (causes.zipIdx.map fun (cause, number) =>
      let digits := toString number
      "\n" ++ indented ("".pushn ' ' (5 - digits.length) ++ digits ++ ": ") cause)

/-- The report of the failure. -/
def report (f : Failure) : String := "Error: " ++ f.headline ++ causeText f.causes

end Failure

end Dataflow.Cli
