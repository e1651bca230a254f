import ConfigTree.Entries

/-!
# The process environment

The environment is a finite list of variables. A name that is empty, or holds an equals sign or the
null character, cannot be the name of a variable and is never found.
-/

namespace ConfigTree

/-- The variables of a process, each with its text. -/
abbrev Environment := Entries String

namespace Environment

/-- Whether a variable can have this name. -/
def isName (name : String) : Bool :=
  !name.isEmpty && name.toList.all fun c => c != '=' && c != '\x00'

/-- The text of a variable. -/
def lookup (env : Environment) (name : String) : Option String :=
  if isName name then Entries.get? env name else none

end Environment

end ConfigTree
