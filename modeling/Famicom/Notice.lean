/-
# Notices

What the machine reports about itself while it runs.  The machine's own
functions stay silent: a notice is a function of a state and of what is about to
happen to it, so that a run costs nothing for notices nobody asked for.
-/

namespace Famicom

/-- How much a notice matters, the most severe first. -/
inductive Notice.Level where
  | warn
  | info
  | debug
  | trace
deriving DecidableEq, Repr

namespace Notice.Level

/-- The rank of a level: a listener who asks for a level hears everything of that
rank or a lower one. -/
def rank : Level → Nat
  | warn => 0
  | info => 1
  | debug => 2
  | trace => 3

/-- The name of a level. -/
def name : Level → String
  | warn => "WARN"
  | info => "INFO"
  | debug => "DEBUG"
  | trace => "TRACE"

end Notice.Level

/-- A line for whoever watches the machine. -/
structure Notice where
  level : Notice.Level
  text : String
deriving DecidableEq, Repr

namespace Notice

/-- A notice as one line of text. -/
def render (n : Notice) : String := n.level.name ++ " " ++ n.text

/-- Whether a listener at level `l` hears the notice. -/
def heardAt (l : Level) (n : Notice) : Bool := n.level.rank ≤ l.rank

end Notice
end Famicom
