namespace ScriptLang.Console

/-- What a command prints, and the code it ends with. -/
structure Output where
  stdout : String
  stderr : String
  code : Nat
  deriving DecidableEq, Repr

namespace Output

/-- Nothing printed, and nothing wrong. -/
def silent : Output := ⟨"", "", 0⟩

/-- A line on standard output. -/
def line (text : String) : Output := ⟨text ++ "\n", "", 0⟩

/-- Lines on standard error. -/
def complaint (lines : List String) : Output :=
  ⟨"", String.join (lines.map (· ++ "\n")), 0⟩

/-- An error that ends the command. -/
def failure (text : String) : Output := ⟨"", "Error -- " ++ text ++ "\n", 1⟩

/-- Output followed by more of it.  The code is that of the end. -/
def followedBy (first later : Output) : Output :=
  ⟨first.stdout ++ later.stdout, first.stderr ++ later.stderr, later.code⟩

end Output

end ScriptLang.Console
