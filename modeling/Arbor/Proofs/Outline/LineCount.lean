import Arbor.Proofs.Counting
import Arbor.Proofs.Outline.Shape

/-!
# Outlines and censuses agree

If no text of a tree has a line break of its own, the outline has as many line breaks as there are
imports and printed nodes (`Root.count_newline_outline`).  The printed nodes are those that a census
counts, except for the root, the placeholders and the unnamed types, wherever they stand
(`length_eq_countP_shown`).  `Root.count_newline_census` puts the two together.
-/

namespace Arbor

namespace Node

/-- The texts that a node itself holds, from which lines are made. -/
def strings : Node → List String
  | root r => r.imports
  | ns n => [n.name]
  | decl d => [d.name]
  | method m => [m.name]
  | var v => [v.name]
  | stmt _ => []
  | expr e => [e.methodName, e.variableName, e.literal]
  | mod m => [m.name]
  | type t => [t.name]

/-- Whether a node is an expression that says nothing. -/
def isPlaceholder : Node → Bool
  | expr e => e.isPlaceholder
  | _ => false

/-- Whether a node is a type without a name. -/
def isUnnamed : Node → Bool
  | type t => t.name == ""
  | _ => false

end Node

/-! ### Line breaks -/

/-- Words without newlines make a line without newlines. -/
lemma newline_not_mem_intercalate {words : List String} (h : ∀ w ∈ words, '\n' ∉ w.toList) :
    '\n' ∉ (" ".intercalate words).toList := by
  induction words with
  | nil => simp
  | cons w words ih =>
    obtain ⟨hw, hwords⟩ := List.forall_mem_cons.mp h
    cases words with
    | nil => simpa using hw
    | cons w' words =>
      rw [String.intercalate_cons_cons, String.toList_append, String.toList_append]
      simp only [List.mem_append, not_or]
      exact ⟨⟨hw, by decide⟩, ih hwords⟩

/-- It is enough to look at the names of the members that are listed. -/
lemma Kind.newline_not_mem_name {κ : Type} [Kind κ]
    (hall : ∀ k ∈ (Kind.all : List κ), '\n' ∉ (Kind.name k).toList) (k : κ) :
    '\n' ∉ (Kind.name k).toList :=
  hall k (Kind.mem_all k)

/-- A caption has no line breaks but those of the texts in it. -/
lemma Node.newline_not_mem_caption {n : Node} (h : ∀ text ∈ n.strings, '\n' ∉ text.toList) :
    '\n' ∉ n.caption.toList := by
  have hdeclaration : ∀ k : DeclarationKind, '\n' ∉ (Kind.name k).toList :=
    Kind.newline_not_mem_name (by decide)
  have hstatement : ∀ k : StatementKind, '\n' ∉ (Kind.name k).toList :=
    Kind.newline_not_mem_name (by decide)
  have hexpression : ∀ k : ExpressionKind, '\n' ∉ (Kind.name k).toList :=
    Kind.newline_not_mem_name (by decide)
  have hmodifier : ∀ k : ModifierKind, '\n' ∉ (Kind.name k).toList :=
    Kind.newline_not_mem_name (by decide)
  refine newline_not_mem_intercalate ?_
  cases n with
  | root r => exact fun _ hw => nomatch hw
  | ns n => exact List.forall_mem_cons.mpr ⟨by decide, h⟩
  | decl d => exact List.forall_mem_cons.mpr ⟨hdeclaration _, h⟩
  | method m => exact List.forall_mem_cons.mpr ⟨by decide, h⟩
  | var v => exact List.forall_mem_cons.mpr ⟨by decide, h⟩
  | stmt s =>
    exact List.forall_mem_cons.mpr ⟨by decide, List.forall_mem_singleton.mpr (hstatement _)⟩
  | expr e =>
    refine List.forall_mem_cons.mpr ⟨by decide, List.forall_mem_cons.mpr ⟨hexpression _, ?_⟩⟩
    exact fun w hw => h w (List.mem_filter.mp (List.mem_of_mem_take hw)).1
  | mod m =>
    exact List.forall_mem_cons.mpr ⟨by decide, List.forall_mem_cons.mpr ⟨hmodifier _, h⟩⟩
  | type t =>
    have hkind : '\n' ∉ ("(" ++ Kind.name t.kind ++ ")").toList := by
      simp [hdeclaration t.kind]
    have hname := List.forall_mem_singleton.mp h
    refine List.forall_mem_cons.mpr ⟨by decide, List.forall_mem_cons.mpr ⟨hname, ?_⟩⟩
    exact List.forall_mem_singleton.mpr hkind

/-- Texts with one line break each are joined to a text with as many line breaks. -/
lemma count_newline_join {lines : List String} (h : ∀ l ∈ lines, l.toList.count '\n' = 1) :
    (String.join lines).toList.count '\n' = lines.length := by
  induction lines with
  | nil => rfl
  | cons l lines ih =>
    obtain ⟨hl, hlines⟩ := List.forall_mem_cons.mp h
    have hjoin := ih hlines
    rw [String.toList_join] at hjoin ⊢
    rw [List.flatMap_cons, List.count_append, hl, hjoin, List.length_cons, Nat.add_comm]

/-- An outline has a line break for each import and for each printed node. -/
lemma Root.count_newline_outline {r : Root}
    (h : ∀ x m, (Node.root r).at? x = some m → ∀ text ∈ m.strings, '\n' ∉ text.toList) :
    r.outline.toList.count '\n' = r.imports.length + (Node.root r).printed.length := by
  have himports : ∀ l ∈ r.imports.map (fun i => "import " ++ i ++ "\n"),
      l.toList.count '\n' = 1 := by
    intro l hl
    obtain ⟨i, hi, rfl⟩ := List.mem_map.mp hl
    have hnone := List.count_eq_zero_of_not_mem (h [] (.root r) rfl i hi)
    simp [hnone]
  have hprinted : ∀ l ∈ (Node.root r).printed.map (fun o =>
      String.ofList (List.replicate (2 * (o.1.length - 1)) ' ') ++ o.2.caption ++ "\n"),
      l.toList.count '\n' = 1 := by
    intro l hl
    obtain ⟨⟨x, m⟩, ho, rfl⟩ := List.mem_map.mp hl
    have hat := Node.mem_occurrences_iff.mp (List.mem_filter.mp ho).1
    have hnone := List.count_eq_zero_of_not_mem (Node.newline_not_mem_caption (h x m hat))
    simp [hnone, List.count_replicate]
  rw [r.outline_eq, String.toList_append, List.count_append, count_newline_join himports,
    count_newline_join hprinted, List.length_map, List.length_map]

/-! ### Printed nodes in a census -/

/-- What is counted is counted apart from a part of it, and in that part. -/
lemma countP_eq_add {α : Type} {p q : α → Bool} (hqp : ∀ a, q a = true → p a = true)
    (l : List α) : l.countP p = l.countP (fun a => p a && !q a) + l.countP q := by
  have hq : l.countP (fun a => p a && q a) = l.countP q :=
    List.countP_congr fun a _ => by simpa using hqp a
  rw [List.countP_eq_countP_filter_add l p q, List.countP_filter, List.countP_filter, hq,
    Nat.add_comm]

/-- A node is printed, or it is a root, a placeholder or an unnamed type. -/
lemma Node.shown_cases (m : Node) :
    1 = (if m.shown then 1 else 0) + (if decide (m.nodeType = .root) then 1 else 0) +
      (if m.isPlaceholder then 1 else 0) + (if m.isUnnamed then 1 else 0) := by
  cases m with
  | expr e => cases he : e.isPlaceholder <;> simp [shown, nodeType, isPlaceholder, isUnnamed, he]
  | type t => by_cases ht : t.name = "" <;> simp [shown, nodeType, isPlaceholder, isUnnamed, ht]
  | _ => rfl

/-- Every node is shown, or is a root, a placeholder or an unnamed type. -/
lemma length_eq_countP_shown (l : List (Position × Node)) :
    l.length = l.countP (fun o => o.2.shown) + l.countP (fun o => o.2.nodeType = .root) +
      l.countP (fun o => o.2.isPlaceholder) + l.countP fun o => o.2.isUnnamed := by
  induction l with
  | nil => rfl
  | cons o l ih =>
    have hone := o.2.shown_cases
    simp only [List.countP_cons, List.length_cons]
    omega

/-- The expressions of a census are placeholders and others. -/
lemma Node.expressions_census (n : Node) :
    n.census.expressions =
      n.occurrences.countP (fun o => o.2.nodeType = .expr && !o.2.isPlaceholder) +
        n.occurrences.countP fun o => o.2.isPlaceholder := by
  refine (n.get_census .expr).trans (countP_eq_add (fun o ho => ?_) _)
  obtain ⟨x, m⟩ := o
  cases m with
  | expr e => rfl
  | _ => cases ho

/-- The types of a census are unnamed or named. -/
lemma Node.types_census (n : Node) :
    n.census.types =
      n.occurrences.countP (fun o => o.2.nodeType = .type && !o.2.isUnnamed) +
        n.occurrences.countP fun o => o.2.isUnnamed := by
  refine (n.get_census .type).trans (countP_eq_add (fun o ho => ?_) _)
  obtain ⟨x, m⟩ := o
  cases m with
  | type t => rfl
  | _ => cases ho

/-- There is one root in the tree of a root. -/
lemma Root.roots_census (r : Root) : r.census.roots = 1 := by
  have hroots := (Node.root r).get_census .root
  have hrest : (row Namespace.occurrences 0 0 r.namespaces).countP
      (fun o => o.2.nodeType = .root) = 0 := by
    rw [List.countP_eq_zero]
    intro o ho
    obtain ⟨k, x, m, rfl, hat⟩ := Root.exists_of_mem_row ho
    cases m with
    | root r' => exact absurd rfl (Node.at?_cons_ne_root hat r')
    | _ => simp [Node.nodeType]
  have hoccurrences : (Node.root r).occurrences =
      ([], .root r) :: row Namespace.occurrences 0 0 r.namespaces := rfl
  rw [hoccurrences, List.countP_cons_of_pos rfl, hrest] at hroots
  exact hroots

/-- The outline and the census of a tree agree, if its texts have no line breaks: the outline has a
line for each import, and for each node of the census that is not the root, a placeholder or an
unnamed type.  Unnamed types inside placeholders are among the latter. -/
theorem Root.count_newline_census (r : Root)
    (h : ∀ x m, (Node.root r).at? x = some m → ∀ text ∈ m.strings, '\n' ∉ text.toList) :
    r.outline.toList.count '\n' =
        r.imports.length + r.census.namespaces + r.census.declarations + r.census.methods +
          r.census.vars + r.census.statements + r.census.modifiers +
          (Node.root r).occurrences.countP (fun o => o.2.nodeType = .expr && !o.2.isPlaceholder) +
          (Node.root r).occurrences.countP (fun o => o.2.nodeType = .type && !o.2.isUnnamed) ∧
      r.outline.toList.count '\n' + 1 +
          (Node.root r).occurrences.countP (fun o => o.2.isPlaceholder) +
          (Node.root r).occurrences.countP (fun o => o.2.isUnnamed) =
        r.imports.length + r.census.total := by
  have hlines := Root.count_newline_outline h
  have htotal : r.census.total = (Node.root r).occurrences.length :=
    (Node.root r).total_census_eq_length
  have hprinted : (Node.root r).printed.length =
      (Node.root r).occurrences.countP fun o => o.2.shown := List.countP_eq_length_filter.symm
  have hroots : (Node.root r).occurrences.countP (fun o => o.2.nodeType = .root) = 1 :=
    ((Node.root r).get_census .root).symm.trans r.roots_census
  have hsplit := length_eq_countP_shown (Node.root r).occurrences
  have hexpressions : r.census.expressions = _ := (Node.root r).expressions_census
  have htypes : r.census.types = _ := (Node.root r).types_census
  have hsum : r.census.total = r.census.roots + r.census.namespaces + r.census.declarations +
      r.census.methods + r.census.vars + r.census.statements + r.census.expressions +
      r.census.modifiers + r.census.types := rfl
  have hone := r.roots_census
  constructor <;> omega

/-- Of the seven nodes of this tree four have lines.  The root, the placeholder and the unnamed type
in it do not. -/
theorem Root.count_newline_census_oneField :
    Root.oneField.outline.toList.count '\n' = 5 ∧ Root.oneField.census.total = 7 ∧
      Root.oneField.outline.toList.count '\n' + 1 + 1 + 1 =
        Root.oneField.imports.length + Root.oneField.census.total := by
  have htexts : ∀ x m, (Node.root .oneField).at? x = some m →
      ∀ text ∈ m.strings, '\n' ∉ text.toList := by
    have hall : ∀ o ∈ (Node.root .oneField).occurrences, ∀ text ∈ o.2.strings,
        '\n' ∉ text.toList := by decide
    exact fun x m hm => hall _ (Node.mem_occurrences_iff.mpr hm)
  obtain ⟨hlines, htotal⟩ := Root.count_newline_census .oneField htexts
  exact ⟨hlines, rfl, htotal⟩

end Arbor
