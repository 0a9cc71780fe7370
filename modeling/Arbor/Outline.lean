import Arbor.Node.Shape

/-!
# Outlines

The outline of a source file is a text with one line for each import and one for each
node below the root, indented by two spaces for each enclosing node.  Placeholder
expressions and unnamed types have no line of their own.

The outline is written by a walk: `Outline.printer` keeps the current depth and the
lines written so far.

## Main declarations

* `Outline.Line`: a line with its depth.
* `Outline.printer`: the visitor that writes the lines.
* `Root.outline`: the finished text.
-/

namespace Arbor

namespace Outline

/-- A line of an outline, before it is indented. -/
structure Line where
  depth : Nat
  text : String
  deriving DecidableEq, Inhabited

/-- Two spaces for each level, the text, and the end of the line. -/
def Line.render (l : Line) : String :=
  String.ofList (List.replicate (2 * l.depth) ' ') ++ l.text ++ "\n"

/-- The lines written so far, and the depth of the next one. -/
structure State where
  depth : Nat := 0
  lines : Array Line := #[]
  deriving Inhabited

namespace State

/-- Write a line at the current depth. -/
def line (s : State) (text : String) : State :=
  { s with lines := s.lines.push ⟨s.depth, text⟩ }

/-- Go one level deeper. -/
def indent (s : State) : State :=
  { s with depth := s.depth + 1 }

/-- Go back one level. -/
def outdent (s : State) : State :=
  { s with depth := s.depth - 1 }

/-- The text of the lines written so far. -/
def text (s : State) : String :=
  String.join (s.lines.toList.map Line.render)

end State

/-- What an expression is about: its method, its variable or its literal, whichever is
there first. -/
def subject (e : Expression) : String :=
  ([e.methodName, e.variableName, e.literal].find? (· != "")).getD ""

/-- The line of an expression that is not the placeholder. -/
def expressionText (e : Expression) : String :=
  if subject e = "" then s!"expression {Kind.name e.kind}"
  else s!"expression {Kind.name e.kind} {subject e}"

/-- The lines of a node itself, without what is below it: one for most nodes, none for
placeholders and unnamed types, and the imports for the root. -/
def texts : Node → List String
  | .root r => r.imports.map fun i => s!"import {i}"
  | .ns n => [s!"namespace {n.name}"]
  | .decl d => [s!"{Kind.name d.kind} {d.name}"]
  | .method m => [s!"method {m.name}"]
  | .var v => [s!"variable {v.name}"]
  | .stmt s => [s!"statement {Kind.name s.kind}"]
  | .expr e => if e.isPlaceholder then [] else [expressionText e]
  | .mod m => [s!"modifier {Kind.name m.kind} {m.name}"]
  | .type t => if t.name = "" then [] else [s!"type {t.name} ({Kind.name t.kind})"]

/-- Whether the lines below a node are indented one level more than its own.  Modifiers
and types have nothing below them, and the root is not a level. -/
def indents : Node → Bool
  | .root _ | .mod _ | .type _ => false
  | _ => true

/-- Whether there can be lines below a node: nothing below a placeholder is shown. -/
def opens : Node → Bool
  | .expr e => !e.isPlaceholder
  | _ => true

/-- Write the lines of each node on the way down, and keep the depth. -/
def printer : Visitor Node State where
  enter n s :=
    let s := (texts n).foldl State.line s
    (opens n, if indents n then s.indent else s)
  leave n s := (true, if indents n then s.outdent else s)

end Outline

/-- The outline of a source file. -/
def Root.outline (r : Root) : String :=
  ((Node.root r).walk Outline.printer {}).2.text

end Arbor
