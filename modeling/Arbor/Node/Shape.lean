import Arbor.Node
import Arbor.Tree

/-!
# The shape of a node

`Node.tree` lays a node out as a `Tree` with one group for each list of children and a
group of its own for each single child.  The order of the groups is the order in which
walks meet the children:

* root: namespaces;
* namespace: modifiers, declarations;
* declaration: modifiers, parents, fields, methods, nested declarations;
* method: modifiers, arguments, return type, statements, content;
* variable: modifiers, type, initializer;
* statement: expressions, initializations, updates, condition, statements;
* expression: arguments, declared variables, operands, new type;
* modifiers and types have no children.
-/

namespace Arbor

/-- A type has no children. -/
def TypeRef.tree (t : TypeRef) : Tree Node :=
  .node (.type t) []

/-- A modifier has no children. -/
def Modifier.tree (m : Modifier) : Tree Node :=
  .node (.mod m) []

mutual

/-- Arguments, declared variables, operands, then the new type. -/
def Expression.tree : Expression → Tree Node
  | e@⟨_, _, _, _, arguments, declared, _, newType, operands⟩ =>
    .node (.expr e)
      [Expression.trees arguments, Variable.trees declared, Expression.trees operands,
        [newType.tree]]

/-- The trees of a list of expressions. -/
def Expression.trees : List Expression → List (Tree Node)
  | [] => []
  | e :: es => e.tree :: Expression.trees es

/-- Modifiers, the type, then the initializer. -/
def Variable.tree : Variable → Tree Node
  | v@⟨_, type, initializer, modifiers⟩ =>
    .node (.var v) [modifiers.map Modifier.tree, [type.tree], [initializer.tree]]

/-- The trees of a list of variables. -/
def Variable.trees : List Variable → List (Tree Node)
  | [] => []
  | v :: vs => v.tree :: Variable.trees vs

end

mutual

/-- Expressions, initializations, updates, the condition, then the nested statements. -/
def Statement.tree : Statement → Tree Node
  | s@⟨_, expressions, condition, statements, initializations, updates⟩ =>
    .node (.stmt s)
      [expressions.map Expression.tree, initializations.map Expression.tree,
        updates.map Expression.tree, [condition.tree], Statement.trees statements]

/-- The trees of a list of statements. -/
def Statement.trees : List Statement → List (Tree Node)
  | [] => []
  | s :: ss => s.tree :: Statement.trees ss

end

/-- Modifiers, arguments, the return type, statements, then the content. -/
def Method.tree (m : Method) : Tree Node :=
  .node (.method m)
    [m.modifiers.map Modifier.tree, m.arguments.map Variable.tree, [m.returnType.tree],
      m.statements.map Statement.tree, m.content.map Expression.tree]

mutual

/-- Modifiers, parents, fields, methods, then the nested declarations. -/
def Declaration.tree : Declaration → Tree Node
  | d@⟨_, _, modifiers, fields, methods, parents, nested⟩ =>
    .node (.decl d)
      [modifiers.map Modifier.tree, parents.map TypeRef.tree, fields.map Variable.tree,
        methods.map Method.tree, Declaration.trees nested]

/-- The trees of a list of declarations. -/
def Declaration.trees : List Declaration → List (Tree Node)
  | [] => []
  | d :: ds => d.tree :: Declaration.trees ds

end

/-- Modifiers, then declarations. -/
def Namespace.tree (n : Namespace) : Tree Node :=
  .node (.ns n) [n.modifiers.map Modifier.tree, n.declarations.map Declaration.tree]

/-- The namespaces; imports are texts, not children. -/
def Root.tree (r : Root) : Tree Node :=
  .node (.root r) [r.namespaces.map Namespace.tree]

namespace Node

/-- The tree below a node of any type. -/
def tree : Node → Tree Node
  | root r => r.tree
  | ns n => n.tree
  | decl d => d.tree
  | method m => m.tree
  | var v => v.tree
  | stmt s => s.tree
  | expr e => e.tree
  | mod m => m.tree
  | type t => t.tree

/-- Walk a node and everything below it. -/
def walk {σ : Type} (v : Visitor Node σ) (n : Node) (s : σ) : Bool × σ :=
  n.tree.walk v s

end Node

/-! ### Lists of trees -/

/-- The trees of a list of expressions are those of its members. -/
@[simp] theorem Expression.trees_eq_map (es : List Expression) :
    Expression.trees es = es.map Expression.tree := by
  induction es with
  | nil => rfl
  | cons e es ih => rw [Expression.trees, ih, List.map_cons]

/-- The trees of a list of variables are those of its members. -/
@[simp] theorem Variable.trees_eq_map (vs : List Variable) :
    Variable.trees vs = vs.map Variable.tree := by
  induction vs with
  | nil => rfl
  | cons v vs ih => rw [Variable.trees, ih, List.map_cons]

/-- The trees of a list of statements are those of its members. -/
@[simp] theorem Statement.trees_eq_map (ss : List Statement) :
    Statement.trees ss = ss.map Statement.tree := by
  induction ss with
  | nil => rfl
  | cons s ss ih => rw [Statement.trees, ih, List.map_cons]

/-- The trees of a list of declarations are those of its members. -/
@[simp] theorem Declaration.trees_eq_map (ds : List Declaration) :
    Declaration.trees ds = ds.map Declaration.tree := by
  induction ds with
  | nil => rfl
  | cons d ds ih => rw [Declaration.trees, ih, List.map_cons]

/-- The topmost label of a node's tree is the node. -/
@[simp] theorem Node.label_tree (n : Node) : n.tree.label = n := by
  cases n with
  | root r => rfl
  | ns n => rfl
  | decl d => cases d; rw [Node.tree, Declaration.tree, Tree.label]
  | method m => rfl
  | var v => cases v; rw [Node.tree, Variable.tree, Tree.label]
  | stmt s => cases s; rw [Node.tree, Statement.tree, Tree.label]
  | expr e => cases e; rw [Node.tree, Expression.tree, Tree.label]
  | mod m => rfl
  | type t => rfl

end Arbor
