/-! Notes on a run: what happened, and how much it matters. -/

namespace JspLayout

/-- How much a note matters. -/
inductive Level where
  | debug
  | info
  | warning
  deriving DecidableEq, Repr

/-- The rank of a level. -/
def Level.rank : Level → Nat
  | .debug => 0
  | .info => 1
  | .warning => 2

/-- The name of a level. -/
def Level.name : Level → String
  | .debug => "DEBUG"
  | .info => "INFO"
  | .warning => "WARNING"

/-- A note. -/
structure Note where
  level : Level
  message : String
  deriving DecidableEq, Repr

end JspLayout
