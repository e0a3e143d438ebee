/-!
# Diagnostics

What a failed statement tells its user: a code, a message, and hints on what to do about it.
-/

namespace SchemaCatalog

/-- A coded message with an optional way out and further notes. -/
structure Diagnostic where
  code : String
  message : String
  help : Option String
  notes : List String
  deriving Repr, DecidableEq

namespace Diagnostic

/-- A message without hints. -/
def plain (code message : String) : Diagnostic := ⟨code, message, none, []⟩

/-- The code in brackets and the message, then one indented line for the help and each note. -/
def text (d : Diagnostic) : String :=
  "[" ++ d.code ++ "] " ++ d.message
    ++ (match d.help with | some h => "\n  help: " ++ h | none => "")
    ++ String.join (d.notes.map ("\n  note: " ++ ·))

end Diagnostic

end SchemaCatalog
