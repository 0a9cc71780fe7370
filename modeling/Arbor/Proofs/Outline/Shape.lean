import Arbor.Proofs.Outline.Levels

/-!
# What an outline shows

An outline has a line for each import and then one for each node with something to say, in the
order of the tree (`Node.printed`).  The line of a node consists of its caption, indented by its
level below the namespaces.  That the printer passes over placeholders loses nothing: there is only
an unnamed type below them.

As a node is printed before what is below it, the indentation determines the tree: the parent of a
printed node is found by going back to the nearest line that is indented less
(`Node.exists_parent_of_printed`).  `Root.outline_shape` collects all this.
-/

namespace Arbor

/-! ### Captions -/

namespace Node

/-- Whether a node has a line of its own. -/
def shown : Node → Bool
  | root _ => false
  | expr e => !e.isPlaceholder
  | type t => t.name != ""
  | _ => true

/-- The words of the line of a node.  An expression is described by the first of its texts that is
not empty, if there is one. -/
def words : Node → List String
  | root _ => []
  | ns n => ["namespace", n.name]
  | decl d => [Kind.name d.kind, d.name]
  | method m => ["method", m.name]
  | var v => ["variable", v.name]
  | stmt s => ["statement", Kind.name s.kind]
  | expr e => "expression" :: Kind.name e.kind ::
      ([e.methodName, e.variableName, e.literal].filter (· != "")).take 1
  | mod m => ["modifier", Kind.name m.kind, m.name]
  | type t => ["type", t.name, "(" ++ Kind.name t.kind ++ ")"]

/-- The line of a node, without its indentation. -/
def caption (n : Node) : String :=
  " ".intercalate n.words

/-- The nodes that have lines of their own, with their positions, in the order of the tree. -/
def printed (n : Node) : List (Position × Node) :=
  n.occurrences.filter fun o => o.2.shown

end Node

namespace Outline

/-- The text of an expression is its caption. -/
lemma expressionText_eq (e : Expression) : expressionText e = (Node.expr e).caption := by
  have hfirst : ([e.methodName, e.variableName, e.literal].filter (· != "")).take 1 =
      ([e.methodName, e.variableName, e.literal].find? (· != "")).toList := by
    rw [List.take_one, List.head?_filter]
  rw [Node.caption, Node.words, hfirst, expressionText, subject]
  cases hfind : [e.methodName, e.variableName, e.literal].find? (· != "") with
  | none =>
    rw [← String.toList_inj]
    simp [toString]
  | some text =>
    have htext : text ≠ "" := by simpa using List.find?_some hfind
    rw [Option.getD_some, if_neg htext, ← String.toList_inj]
    simp [toString]

/-- The printer writes the captions of the nodes that are to be shown, and nothing for others. -/
lemma texts_eq {n : Node} (hn : ∀ r, n ≠ .root r) :
    texts n = if n.shown then [n.caption] else [] := by
  cases n with
  | root r => exact absurd rfl (hn r)
  | expr e =>
    rw [texts, expressionText_eq, Node.shown]
    cases e.isPlaceholder <;> rfl
  | type t =>
    by_cases hname : t.name = ""
    · simp [texts, Node.shown, hname]
    · simp [texts, Node.shown, Node.caption, Node.words, hname, ← String.toList_inj, toString]
  | _ => simp [texts, Node.shown, Node.caption, Node.words, ← String.toList_inj, toString]

/-! ### Lines -/

/-- Things that give nothing may be left out. -/
lemma flatMap_filter_eq {α β : Type} {p : α → Bool} {f : α → List β} {l : List α}
    (h : ∀ a ∈ l, p a = false → f a = []) : (l.filter p).flatMap f = l.flatMap f := by
  induction l with
  | nil => rfl
  | cons a l ih =>
    have htail := ih fun b hb => h b (List.mem_cons_of_mem _ hb)
    cases hp : p a with
    | true => rw [List.filter_cons_of_pos hp, List.flatMap_cons, List.flatMap_cons, htail]
    | false =>
      rw [List.filter_cons_of_neg (by simp [hp]), List.flatMap_cons, htail,
        h a List.mem_cons_self hp, List.nil_append]

/-- A list of one or no value for each member is the image of some of the members. -/
lemma flatMap_eq_map_filter {α β : Type} {p : α → Bool} {f : α → List β} {g : α → β} {l : List α}
    (h : ∀ a ∈ l, f a = if p a then [g a] else []) : l.flatMap f = (l.filter p).map g := by
  induction l with
  | nil => rfl
  | cons a l ih =>
    have htail := ih fun b hb => h b (List.mem_cons_of_mem _ hb)
    rw [List.flatMap_cons, htail, h a List.mem_cons_self, List.filter_cons]
    split <;> rfl

/-- The lines of all calls are the lines of the visits, if the depths depend on positions only. -/
lemma flatMap_written {d : Nat} {l : List (Call Node)} {f : Position → Nat}
    (h : ∀ p ∈ depths d l, p.1.moment = .enter → p.2 = f p.1.position) :
    (depths d l).flatMap written =
      (visits l).flatMap fun o => (texts o.2).map (Line.mk (f o.1)) := by
  induction l generalizing d with
  | nil => rfl
  | cons c l ih =>
    have htail := ih fun p hp => h p (List.mem_cons_of_mem _ hp)
    rw [depths, List.flatMap_cons, htail]
    obtain ⟨moment, x, n, answer⟩ := c
    cases moment with
    | enter =>
      have hdepth : d = f x := h _ List.mem_cons_self rfl
      rw [hdepth]
      rfl
    | leave => rfl

/-- The printer refuses to go on at placeholders only, and stops nowhere. -/
lemma eq_placeholder_of_runs {s s' : State} {l : List (Call Node)} (h : printer.Runs s l s')
    {c : Call Node} (hc : c ∈ l) (hrefused : c.answer = false) :
    c.moment = .enter ∧ c.node = .expr .placeholder := by
  obtain ⟨s₁, s₂, hask⟩ := h.exists_ask hc
  have hanswer : (printer.ask c.moment c.node s₁).1 = false := by
    rw [hask]
    exact hrefused
  obtain ⟨moment, x, n, answer⟩ := c
  cases moment with
  | leave => cases hanswer
  | enter =>
    refine ⟨rfl, ?_⟩
    have hopens : opens n = false := hanswer
    cases n with
    | expr e =>
      have hplaceholder : e.isPlaceholder = true := by
        rwa [opens, Bool.not_eq_false'] at hopens
      exact congrArg Node.expr (Expression.isPlaceholder_iff.mp hplaceholder)
    | _ => cases hopens

end Outline

namespace Node

open Outline

/-- The printer misses nothing that an unnamed type does not have. -/
lemma covering_printer {p : Node → Bool} (hp : p (.type {}) = false) (n : Node) (s : State) :
    Covering p n.occurrences (n.calls printer s) := by
  intro c hc hrefused
  obtain ⟨hmoment, hnode⟩ := eq_placeholder_of_runs (Tree.runs_calls printer n.tree s) hc hrefused
  refine ⟨hmoment, fun k x m hmem => ?_⟩
  have hat := mem_occurrences_iff.mp hmem
  rw [at?_append, at?_of_mem_calls hc, Option.bind_some, hnode] at hat
  obtain ⟨-, rfl⟩ := at?_cons_placeholder hat
  exact hp

/-- The printer never stops a walk. -/
lemma walk_printer_fst (n : Node) (s : State) : (n.walk printer s).1 = true := by
  cases hanswer : (n.walk printer s).1 with
  | true => rfl
  | false =>
    obtain ⟨a, hmem⟩ := (Tree.block_calls printer n.tree s).answered_leave_nil_iff.mpr rfl
    have hrefused : (n.tree.walk printer s).1 = false := hanswer
    cases (eq_placeholder_of_runs (Tree.runs_calls printer n.tree s) hmem hrefused).1

/-- The printer ends at the depth at which it began. -/
lemma walk_printer_depth (n : Node) (s : State) : (n.walk printer s).2.depth = s.depth :=
  (state_of_runs (Tree.runs_calls printer n.tree s)).1.trans (n.balanced_calls printer s s.depth).1

/-- The lines that the printer writes for a node. -/
theorem lines_walk_printer (n : Node) (s : State) :
    (n.walk printer s).2.lines.toList = s.lines.toList ++
      n.occurrences.flatMap fun o => (texts o.2).map (Line.mk (s.depth + level n o.1)) := by
  have hlines := (state_of_runs (Tree.runs_calls printer n.tree s)).2
  have hdepths : ∀ p ∈ depths s.depth (n.calls printer s), p.1.moment = .enter →
      p.2 = s.depth + level n p.1.position := by
    intro p hp hmoment
    have hdepth : p.2 = s.depth + level n p.1.position + due p.1 :=
      (n.balanced_calls printer s s.depth).2 p hp
    have hdue : due p.1 = 0 := by
      rw [due, hmoment]
    rwa [hdue] at hdepth
  have hvisits := filter_visits (n.covering_printer (p := fun m => !(texts m).isEmpty) rfl s)
  have hnone : ∀ o : Position × Node, (!(texts o.2).isEmpty) = false →
      (texts o.2).map (Line.mk (s.depth + level n o.1)) = [] := by
    intro o ho
    rw [Bool.not_eq_false', List.isEmpty_iff] at ho
    rw [ho, List.map_nil]
  have hwritten := flatMap_written (f := fun x => s.depth + level n x) hdepths
  rw [← flatMap_filter_eq fun o _ => hnone o, ← hvisits, flatMap_filter_eq fun o _ => hnone o,
    ← hwritten]
  exact hlines

end Node

/-! ### The whole text -/

/-- What is listed behind a root stands below it. -/
lemma Root.exists_of_mem_row {r : Root} {o : Position × Node}
    (h : o ∈ row Namespace.occurrences 0 0 r.namespaces) :
    ∃ k x m, o = (k :: x, m) ∧ (Node.root r).at? (k :: x) = some m := by
  obtain ⟨x, m⟩ := o
  cases x with
  | nil => exact absurd h nil_not_mem_row
  | cons k x =>
    exact ⟨k, x, m, rfl, Node.mem_occurrences_iff.mp (List.mem_cons_of_mem _ h)⟩

/-- What the printer writes for a node below the root. -/
lemma Root.texts_of_at? {r : Root} {k : Nat × Nat} {x : Position} {m : Node}
    (h : (Node.root r).at? (k :: x) = some m) :
    (Outline.texts m).map (Outline.Line.mk (0 + Outline.level (.root r) (k :: x))) =
      if m.shown then [⟨x.length, m.caption⟩] else [] := by
  have hlevel : 0 + Outline.level (.root r) (k :: x) = x.length := by
    simp [Outline.level, Outline.shift, Outline.indents]
  rw [Outline.texts_eq (Node.at?_cons_ne_root h), hlevel]
  split <;> rfl

/-- The lines of an outline: the imports, then the printed nodes with their depths. -/
theorem Root.lines_walk_printer (r : Root) :
    ((Node.root r).walk Outline.printer {}).2.lines.toList =
      (r.imports.map fun i => ⟨0, "import " ++ i⟩) ++
        (Node.root r).printed.map fun o => ⟨o.1.length - 1, o.2.caption⟩ := by
  have hbelow : ∀ o ∈ row Namespace.occurrences 0 0 r.namespaces,
      (Outline.texts o.2).map (Outline.Line.mk (0 + Outline.level (.root r) o.1)) =
        if o.2.shown then [⟨o.1.length - 1, o.2.caption⟩] else [] := by
    intro o ho
    obtain ⟨k, x, m, rfl, hat⟩ := Root.exists_of_mem_row ho
    exact Root.texts_of_at? hat
  have himports : (Outline.texts (.root r)).map
      (Outline.Line.mk (0 + Outline.level (.root r) [])) =
        r.imports.map fun i => ⟨0, "import " ++ i⟩ := by
    simp [Outline.texts, Outline.level, toString]
  have hoccurrences : (Node.root r).occurrences =
      ([], .root r) :: row Namespace.occurrences 0 0 r.namespaces := rfl
  have hprinted : (Node.root r).printed =
      (row Namespace.occurrences 0 0 r.namespaces).filter fun o => o.2.shown := rfl
  rw [Node.lines_walk_printer, hoccurrences, List.flatMap_cons,
    Outline.flatMap_eq_map_filter hbelow, himports, hprinted]
  rfl

/-- The text of an outline. -/
theorem Root.outline_eq (r : Root) :
    r.outline = String.join (r.imports.map fun i => "import " ++ i ++ "\n") ++
      String.join ((Node.root r).printed.map fun o =>
        String.ofList (List.replicate (2 * (o.1.length - 1)) ' ') ++ o.2.caption ++ "\n") := by
  rw [Root.outline, Outline.State.text, Root.lines_walk_printer, List.map_append,
    String.join_append, List.map_map, List.map_map]
  have himport : Outline.Line.render ∘ (fun i => ⟨0, "import " ++ i⟩) =
      fun i => "import " ++ i ++ "\n" := by
    funext i
    simp [Outline.Line.render]
  rw [himport]
  rfl

/-! ### Parents -/

/-- The order of places is asymmetric. -/
lemma Position.not_lex_of_lex {k k' : Nat × Nat} (h : Prod.Lex (· < ·) (· < ·) k k') :
    ¬ Prod.Lex (· < ·) (· < ·) k' k := by
  rw [Prod.lex_def] at h ⊢
  omega

/-- What is below a position is not met before it. -/
lemma Position.not_earlier_append (x y : Position) : ¬ Earlier (x ++ y) x := by
  induction x with
  | nil => exact fun h => nomatch h
  | cons k x ih =>
    intro h
    cases h with
    | cons h => exact ih h
    | rel hk => exact not_lex_of_lex hk hk

/-- What is met between a position and one below it is below the first. -/
lemma Position.isPrefix_of_between {x y z : Position} (hxy : Earlier x y)
    (hyz : Earlier y (x ++ z)) : x <+: y := by
  induction x generalizing y with
  | nil => exact List.nil_prefix
  | cons k x ih =>
    cases hxy with
    | cons hxy =>
      cases hyz with
      | cons hyz => exact (List.prefix_cons_inj k).mpr (ih hxy hyz)
      | rel hk => exact absurd hk (not_lex_of_lex hk)
    | rel hk =>
      cases hyz with
      | cons hyz => exact absurd hk (not_lex_of_lex hk)
      | rel hk' => exact absurd hk' (not_lex_of_lex hk)

namespace Node

/-- The parent of a printed node is printed, unless it is the root. -/
lemma shown_of_child? {n c : Node} {k : Nat × Nat} (h : n.child? k = some c)
    (hc : c.shown = true) (hn : ∀ r, n ≠ .root r) : n.shown = true := by
  cases n with
  | root r => exact absurd rfl (hn r)
  | type t => cases h
  | expr e =>
    cases he : e.isPlaceholder with
    | false => rw [shown, he, Bool.not_false]
    | true =>
      -- There would be nothing but the unnamed type.
      have hat : (Node.expr .placeholder).at? [k] = some c := by
        rw [← Expression.isPlaceholder_iff.mp he, at?, h]
        rfl
      obtain ⟨-, rfl⟩ := at?_cons_placeholder hat
      cases hc
  | _ => rfl

/-- Going back from the line of a node to the nearest line that is indented less leads to the
parent. -/
lemma exists_parent_of_printed {n m : Node} {before after : List (Position × Node)}
    {parent : Position} {k : Nat × Nat}
    (h : n.printed = before ++ (parent ++ [k], m) :: after) (hparent : parent ≠ []) :
    ∃ a b₁ b₂, n.at? parent = some a ∧ before = b₁ ++ (parent, a) :: b₂ ∧
      ∀ o ∈ b₂, parent.length < o.1.length := by
  have hmem : (parent ++ [k], m) ∈ n.printed := by
    rw [h]
    exact List.mem_append_right _ List.mem_cons_self
  obtain ⟨hm, hshown⟩ := List.mem_filter.mp hmem
  have hat := mem_occurrences_iff.mp hm
  rw [at?_append_singleton] at hat
  obtain ⟨a, ha, hchild⟩ := Option.bind_eq_some_iff.mp hat
  have hroot : ∀ r, a ≠ .root r := by
    obtain ⟨k', x, rfl⟩ := List.exists_cons_of_ne_nil hparent
    exact at?_cons_ne_root ha
  have hprinted : (parent, a) ∈ n.printed :=
    List.mem_filter.mpr ⟨mem_occurrences_iff.mpr ha, shown_of_child? hchild hshown hroot⟩
  -- The parent is listed before the node, and what is listed between them is below the parent.
  have hordered : n.printed.Pairwise fun o o' => Position.Earlier o.1 o'.1 :=
    n.pairwise_occurrences.filter _
  rw [h, List.pairwise_append, List.pairwise_cons] at hordered
  obtain ⟨hbefore, ⟨hafter, -⟩, hacross⟩ := hordered
  rw [h] at hprinted
  rcases List.mem_append.mp hprinted with hprinted | hprinted
  · obtain ⟨b₁, b₂, rfl⟩ := List.append_of_mem hprinted
    refine ⟨a, b₁, b₂, ha, rfl, fun o ho => ?_⟩
    rw [List.pairwise_append, List.pairwise_cons] at hbefore
    obtain ⟨-, ⟨hbetween, -⟩, -⟩ := hbefore
    have hlater : Position.Earlier parent o.1 := hbetween o ho
    have hearlier : Position.Earlier o.1 (parent ++ [k]) :=
      hacross o (List.mem_append_right _ (List.mem_cons_of_mem _ ho)) _ List.mem_cons_self
    have hbelow := Position.isPrefix_of_between hlater hearlier
    exact Nat.lt_of_le_of_ne hbelow.length_le fun hlength =>
      hlater.ne (hbelow.eq_of_length hlength)
  · rcases List.mem_cons.mp hprinted with heq | hprinted
    · have hlength := congrArg (fun o => o.1.length) heq
      simp at hlength
    · exact absurd (hafter _ hprinted) (Position.not_earlier_append parent [k])

end Node

/-- The outline shows the shape of the tree.

* The text consists of the imports and then, in the order of the tree, of a line for each node other
  than the root, placeholders and unnamed types: two spaces for each node above it other than the
  root, then the caption.
* For each printed node that is not directly below the root, the nearest line before it that is
  indented less is the line of its parent, and it is indented one level less.
* On each node and from each depth that leaves room for the height of the node, the printer does not
  stop, ends at the depth at which it began, stays within 64 bits on the way, and goes back a level
  only if it is deeper than at the beginning.  It refuses to go on at placeholders only, and yet is
  called for all nodes that are to be shown. -/
theorem Root.outline_shape (r : Root) :
    r.outline = String.join (r.imports.map fun i => "import " ++ i ++ "\n") ++
        String.join ((Node.root r).printed.map fun o =>
          String.ofList (List.replicate (2 * (o.1.length - 1)) ' ') ++ o.2.caption ++ "\n") ∧
      (∀ (before after : List (Position × Node)) (parent : Position) (k : Nat × Nat) (m : Node),
        (Node.root r).printed = before ++ (parent ++ [k], m) :: after → parent ≠ [] →
          ∃ a b₁ b₂, (Node.root r).at? parent = some a ∧ before = b₁ ++ (parent, a) :: b₂ ∧
            (∀ o ∈ b₂, (parent ++ [k]).length - 1 ≤ o.1.length - 1) ∧
            (parent ++ [k]).length - 1 = (parent.length - 1) + 1) ∧
      ∀ (n : Node) (s : Outline.State), s.depth + n.height < 0x10000000000000000 →
        Outline.printer.Runs s (n.calls Outline.printer s) (n.walk Outline.printer s).2 ∧
        (n.walk Outline.printer s).1 = true ∧
        (n.walk Outline.printer s).2.depth = s.depth ∧
        (∀ before after, n.calls Outline.printer s = before ++ after →
          ∃ s', Outline.printer.Runs s before s' ∧
            s.depth ≤ s'.depth ∧ s'.depth < 0x10000000000000000 ∧
            ∀ c ∈ after.head?, c.moment = .leave → Outline.indents c.node = true →
              s.depth < s'.depth) ∧
        (∀ c ∈ n.calls Outline.printer s, c.answer = false → c.node = .expr .placeholder) ∧
        (visits (n.calls Outline.printer s)).filter (fun o => o.2.shown) = n.printed := by
  refine ⟨r.outline_eq, ?_, fun n s hroom => ?_⟩
  · intro before after parent k m h hparent
    obtain ⟨a, b₁, b₂, ha, hbefore, hbetween⟩ := Node.exists_parent_of_printed h hparent
    have hlength : (parent ++ [k]).length = parent.length + 1 := List.length_append
    have hpositive := List.length_pos_iff.mpr hparent
    refine ⟨a, b₁, b₂, ha, hbefore, fun o ho => ?_, by omega⟩
    have hlt := hbetween o ho
    omega
  · have hruns : Outline.printer.Runs s (n.calls Outline.printer s) (n.walk Outline.printer s).2 :=
      Tree.runs_calls Outline.printer n.tree s
    refine ⟨hruns, n.walk_printer_fst s, n.walk_printer_depth s, fun before after h => ?_,
      fun c hc hrefused => (Outline.eq_placeholder_of_runs hruns hc hrefused).2,
      Node.filter_visits (n.covering_printer rfl s)⟩
    obtain ⟨s', hbefore, hle, hheight, hleave⟩ := n.depth_of_runs_printer s h
    exact ⟨s', hbefore, hle, by omega, hleave⟩

/-- A declaration with an import and a field that has no initializer. -/
def Root.oneField : Root where
  imports := ["io"]
  namespaces := [
    { name := "n"
      declarations := [
        { name := "d"
          fields := [{ name := "f", type := { name := "t" }, initializer := .placeholder }] }] }]

/-- A root with one field: its outline, and a declaration above the variable below it. -/
theorem Root.outline_shape_oneField :
    Root.oneField.outline =
        "import io\nnamespace n\n  OTHER d\n    variable f\n      type t (OTHER)\n" ∧
      (∃ a b₁ b₂, (Node.root .oneField).at? [(0, 0), (1, 0)] = some a ∧
        (Node.root .oneField).printed.take 2 = b₁ ++ ([(0, 0), (1, 0)], a) :: b₂ ∧
        ∀ o ∈ b₂, 2 ≤ o.1.length - 1) ∧
      ((Node.root .oneField).walk Outline.printer ⟨7, #[]⟩).2.depth = 7 ∧
      ∃ s', Outline.printer.Runs ⟨7, #[]⟩
        (((Node.root .oneField).calls Outline.printer ⟨7, #[]⟩).take 3) s' ∧
          s'.depth < 0x10000000000000000 := by
  obtain ⟨htext, hparents, hprinter⟩ := Root.outline_shape .oneField
  obtain ⟨a, b₁, b₂, ha, hbefore, hbetween, -⟩ :=
    hparents ((Node.root .oneField).printed.take 2) ((Node.root .oneField).printed.drop 3)
      [(0, 0), (1, 0)] (2, 0) _ rfl (by decide)
  obtain ⟨-, -, hdepth, hcalls, -⟩ := hprinter (.root .oneField) ⟨7, #[]⟩ (by decide)
  obtain ⟨s', hruns, -, hlt, -⟩ := hcalls _ _ (List.take_append_drop 3 _).symm
  refine ⟨?_, ⟨a, b₁, b₂, ha, hbefore, hbetween⟩, hdepth, s', hruns, hlt⟩
  rw [htext]
  decide +kernel

end Arbor
