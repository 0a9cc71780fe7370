/-!
# Nesting limits

How many levels of nested statements and declarations are kept when a tree is rebuilt.
The statements of a method body and the declarations of a namespace are at depth zero.
With a limit of `n`, a node at depth `n` loses what is nested in it.
-/

namespace Arbor

/-- Limits on the nesting of statements and declarations; `none` keeps every level. -/
structure Limits where
  statements : Option Nat := some 2
  declarations : Option Nat := some 1
  deriving DecidableEq, Inhabited

namespace Limits

/-- Keep every level. -/
def unbounded : Limits where
  statements := none
  declarations := none

/-- Whether a node at the given depth keeps what is nested in it. -/
def allows (limit : Option Nat) (depth : Nat) : Bool :=
  match limit with
  | none => true
  | some max => depth < max

@[simp] theorem allows_none (depth : Nat) : allows none depth = true := rfl

@[simp] theorem allows_some (max depth : Nat) : allows (some max) depth = decide (depth < max) :=
  rfl

end Limits

end Arbor
