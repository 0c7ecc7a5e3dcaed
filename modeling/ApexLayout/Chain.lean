import ApexLayout.Tree.Expression

/-!
Chains of links and how they are laid out.

A chain is a receiver with links behind it; only the links of the chain itself count, not those of
chains inside its arguments. A chain with enough calls goes on several lines, so a lone call with
member accesses around it stays on one.
-/

namespace ApexLayout

/-- How the links of a chain are placed. -/
inductive ChainLayout
  /-- All links on the line of the receiver. -/
  | inline
  /-- Every link on a line of its own. -/
  | exploded
deriving DecidableEq

/-- The layout of a chain with the given number of calls. -/
def ChainLayout.ofCalls (calls threshold : Nat) : ChainLayout :=
  if threshold ≤ calls then .exploded else .inline

namespace Expression

/-- The innermost receiver of a chain and its links in source order; no links for anything else. -/
def spine : Expression → Expression × List Link
  | .chain receiver link =>
    let inner := spine receiver
    (inner.1, inner.2 ++ [link])
  | other => (other, [])

/-- The number of links of a chain. -/
def linkCount : Expression → Nat
  | .chain receiver _ => linkCount receiver + 1
  | _ => 0

/-- The number of links of a chain that are calls. -/
def callCount : Expression → Nat
  | .chain receiver link => callCount receiver + if link.isCall then 1 else 0
  | _ => 0

/-- The chain that adds links to a receiver, first to last. -/
def addLinks (receiver : Expression) (links : List Link) : Expression := links.foldl .chain receiver

end Expression

end ApexLayout
