import TaggedOutline.Text.Shown

/-!
# Diagnostics

What goes wrong while elements are built never ends the build: it is kept on the element as a
`Diagnostic`.  A `BuildError` is what a handler reports; it is kept as an error with its code.
-/

namespace TaggedOutline

/-- How bad a diagnostic is. -/
inductive Severity where
  | error
  | warning
deriving DecidableEq, Repr, Inhabited

/-- The word for a severity. -/
def Severity.word : Severity → Text
  | .error => "error".toList
  | .warning => "warning".toList

/-- The severity as it stands in the display form of a diagnostic. -/
def Severity.shown : Severity → Text
  | .error => "Error".toList
  | .warning => "Warning".toList

/-- Something that is wrong with an element. -/
structure Diagnostic where
  severity : Severity
  message : Text
  code : Option Text := none
deriving DecidableEq, Repr, Inhabited

namespace Diagnostic

/-- The code for a header that could not be read. -/
def unreadHeader : Text := "header-parse-failed".toList

/-- The code for a body that its grammar rejects. -/
def rejectedBody : Text := "body-parse-failed".toList

/-- The code for a header that names a body grammar nobody registered. -/
def unknownGrammar : Text := "unknown-parser".toList

/-- Whether a diagnostic has a code. -/
def hasCode (d : Diagnostic) (code : Text) : Bool := d.code == some code

/-- A diagnostic on one line. -/
def render (d : Diagnostic) : Text :=
  d.severity.word ++ ": ".toList ++ d.message ++
    (match d.code with
      | some code => " (".toList ++ code ++ [')']
      | none => [])

/-- The display form of a diagnostic. -/
def shown (d : Diagnostic) : Text :=
  "Diagnostic \x7b severity: ".toList ++ d.severity.shown ++ ", message: ".toList ++
    Text.shown d.message ++ ", code: ".toList ++ Text.shownOption d.code ++ " \x7d".toList

/-- The display form of a list of diagnostics. -/
def shownList (ds : List Diagnostic) : Text :=
  '[' :: Text.join ", ".toList (ds.map shown) ++ [']']

end Diagnostic

/-- What a handler reports when it fails. -/
structure BuildError where
  message : Text
  code : Text := "build-failed".toList
deriving DecidableEq, Repr, Inhabited

/-- The diagnostic that keeps an error of a handler. -/
def BuildError.diagnostic (e : BuildError) : Diagnostic :=
  { severity := .error, message := e.message, code := some e.code }

end TaggedOutline
