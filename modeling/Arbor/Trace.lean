import Arbor.Node.Shape

/-!
# Traces of walks

A `Trace` lists what a visitor was asked during a walk.  `Trace.Rules` describe a visitor
that records its trace and answers by rule: it refuses to go below nodes, and stops after
nodes, whose label fits one of its patterns or whose question comes at a given place of
the trace.

## Main declarations

* `Node.label`: the text that identifies a node in a trace.
* `Trace.Pattern`: a set of labels, one label or all with a given beginning.
* `Trace.Rules.recorder`: the recording visitor.
-/

namespace Arbor

/-- The text that identifies a node in a trace. -/
def Node.label : Node → String
  | .root r => s!"root:{r.imports.length}"
  | .ns n => s!"ns:{n.name}"
  | .decl d => s!"decl:{Kind.name d.kind}:{d.name}"
  | .method m => s!"method:{m.name}"
  | .var v => s!"var:{v.name}"
  | .stmt s => s!"stmt:{Kind.name s.kind}"
  | .expr e =>
    s!"expr:{Kind.name e.kind}:{e.literal}:{e.methodName}:{e.variableName}:{e.isPostfix}"
  | .mod m =>
    let members := String.intercalate "," m.membersAndValues
    s!"mod:{m.name}:{Kind.name m.kind}:{Kind.name m.visibility}:{members}:{m.other}"
  | .type t => s!"type:{t.name}:{Kind.name t.kind}"

/-- A question of a walk, with the label of the node it was about. -/
inductive Event where
  | enter (label : String)
  | leave (label : String)
  deriving DecidableEq, Inhabited

/-- The text of a question. -/
def Event.text : Event → String
  | enter label => "enter " ++ label
  | leave label => "leave " ++ label

namespace Trace

/-- A set of labels. -/
inductive Pattern where
  | exactly (label : String)
  | startingWith (text : String)
  deriving DecidableEq, Inhabited

namespace Pattern

/-- A star at the end of a pattern stands for any text. -/
def ofText (s : String) : Pattern :=
  if s.toList.getLast? = some '*' then startingWith (String.ofList s.toList.dropLast)
  else exactly s

/-- Whether a label belongs to the set. -/
def covers : Pattern → String → Bool
  | exactly l, label => l == label
  | startingWith t, label => t.toList.isPrefixOf label.toList

end Pattern

/-- When a recording visitor answers no. -/
structure Rules where
  /-- Do not go below nodes with these labels. -/
  refuse : List Pattern := []
  /-- Do not go on after nodes with these labels. -/
  stop : List Pattern := []
  /-- Do not go below the node entered at these places of the trace. -/
  refuseAt : List Nat := []
  /-- Do not go on after the node left at these places of the trace. -/
  stopAt : List Nat := []
  deriving Inhabited

namespace Rules

/-- Record each question, and answer no where a rule says so. -/
def recorder (r : Rules) : Visitor Node (Array Event) where
  enter n t :=
    (!(r.refuse.any (·.covers n.label) || r.refuseAt.contains t.size), t.push (.enter n.label))
  leave n t :=
    (!(r.stop.any (·.covers n.label) || r.stopAt.contains t.size), t.push (.leave n.label))

end Rules

end Trace

/-- Walk a node with a recording visitor: the final answer and the trace. -/
def Node.trace (r : Trace.Rules) (n : Node) : Bool × List Event :=
  let (answer, events) := n.walk r.recorder #[]
  (answer, events.toList)

end Arbor
