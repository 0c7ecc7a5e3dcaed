import ApexLayout.Chain
import ApexLayout.Layout.Error
import ApexLayout.Settings.Basic
import ApexLayout.Text.Lines

/-!
The surroundings of a node that is printed.

A node is printed as if it began in the first column. What is nested in it is printed one level
deeper and moved to the right as a whole, so the depth never shows in the text of the node itself.
-/

namespace ApexLayout

/-- The surroundings of a node. -/
structure Context where
  settings : Settings
  /-- The number of levels around the node. -/
  depth : Nat := 0
  /-- Whether chains stay on one line whatever their length. -/
  inline : Bool := false
deriving DecidableEq

namespace Context

/-- The same surroundings one level deeper. -/
def deeper (context : Context) : Context := { context with depth := context.depth + 1 }

/-- The same surroundings with chains on one line. -/
def inlined (context : Context) : Context := { context with inline := true }

/-- One level of indentation. -/
def indentUnit (context : Context) : Text := context.settings.indentUnit

/-- Moves a text one level to the right. -/
def indent (context : Context) (text : Text) : Text := Text.indent context.indentUnit text

/-- What is printed one level deeper, moved one level to the right as a whole. -/
def nested (context : Context) (body : Context → Rendered) : Rendered :=
  return context.deeper.indent (← body context.deeper)

/-- A body between braces, one level to the right of them. -/
def braced (context : Context) (body : Text) : Text := Text.braced (context.indent body)

/-- The layout of a chain with the given number of calls. -/
def chainLayout (context : Context) (calls : Nat) : ChainLayout :=
  if context.inline then .inline else .ofCalls calls context.settings.chainThreshold

end Context

end ApexLayout
