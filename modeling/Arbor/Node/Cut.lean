import Arbor.Limits
import Arbor.Node

/-!
# Cutting trees

A tree is cut to nesting limits by emptying the nested list of every statement and
declaration whose depth the limits do not allow.
-/

namespace Arbor

mutual

/-- Cut a statement at the given depth. -/
def Statement.cut (limits : Limits) (depth : Nat) : Statement → Statement
  | ⟨kind, expressions, condition, statements, initializations, updates⟩ =>
    { kind, expressions, condition,
      statements :=
        if Limits.allows limits.statements depth then
          Statement.cutAll limits (depth + 1) statements
        else [],
      initializations, updates }

/-- Cut statements at the given depth. -/
def Statement.cutAll (limits : Limits) (depth : Nat) : List Statement → List Statement
  | [] => []
  | s :: ss => s.cut limits depth :: Statement.cutAll limits depth ss

end

/-- Cut the statements of a method. -/
def Method.cut (limits : Limits) (m : Method) : Method :=
  { m with statements := m.statements.map (Statement.cut limits 0) }

mutual

/-- Cut a declaration at the given depth, and its methods. -/
def Declaration.cut (limits : Limits) (depth : Nat) : Declaration → Declaration
  | ⟨name, kind, modifiers, fields, methods, parents, nested⟩ =>
    { name, kind, modifiers, fields, methods := methods.map (Method.cut limits), parents,
      nested :=
        if Limits.allows limits.declarations depth then
          Declaration.cutAll limits (depth + 1) nested
        else [] }

/-- Cut declarations at the given depth. -/
def Declaration.cutAll (limits : Limits) (depth : Nat) : List Declaration → List Declaration
  | [] => []
  | d :: ds => d.cut limits depth :: Declaration.cutAll limits depth ds

end

/-- Cut the declarations of a namespace. -/
def Namespace.cut (limits : Limits) (n : Namespace) : Namespace :=
  { n with declarations := n.declarations.map (Declaration.cut limits 0) }

/-- Cut a source file. -/
def Root.cut (limits : Limits) (r : Root) : Root :=
  { r with namespaces := r.namespaces.map (Namespace.cut limits) }

/-- A list of statements is cut member by member, all at one depth. -/
@[simp] theorem Statement.cutAll_eq_map (limits : Limits) (depth : Nat) (ss : List Statement) :
    Statement.cutAll limits depth ss = ss.map (Statement.cut limits depth) := by
  induction ss with
  | nil => rfl
  | cons s ss ih => rw [Statement.cutAll, ih, List.map_cons]

/-- A list of declarations is cut member by member, all at one depth. -/
@[simp] theorem Declaration.cutAll_eq_map (limits : Limits) (depth : Nat)
    (ds : List Declaration) :
    Declaration.cutAll limits depth ds = ds.map (Declaration.cut limits depth) := by
  induction ds with
  | nil => rfl
  | cons d ds ih => rw [Declaration.cutAll, ih, List.map_cons]

end Arbor
