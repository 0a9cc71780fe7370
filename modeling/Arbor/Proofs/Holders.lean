import Arbor.Proofs.Fidelity
import Arbor.Proofs.Reversible

/-!
# Statements and declarations within limits

A statement or declaration of a message is a `Holder`: it holds the statements or declarations
nested in it.  `Root.holders` lists all holders of a message with their depths, in the order in
which rebuilding gets to what they hold: a statement before the statements in it, a declaration
after its methods and before the declarations in it.

Limits divide the holders.  Those that are not deeper than the limits are kept.  Of these, the ones
at the last depth lose what they hold, and they are cut if they hold anything (`Holder.cut`).

* `Root.holders_toMessage`: the holders of a rebuilt tree are those that are kept.
* `Root.uncut_iff_rebuilds_unbounded`: none is cut exactly if the tree would be the same without
  limits.
-/

namespace Arbor

namespace Message

/-! ### Holders -/

/-- A statement or declaration, with the number of statements or declarations nested in it. -/
inductive Holder where
  /-- A declaration at the given depth. -/
  | declaration (depth : Nat) (name : String) (held : Nat)
  /-- A statement at the given depth, in a method of a declaration at depth `outer`. -/
  | statement (outer depth : Nat) (tag : Int) (held : Nat)
  deriving DecidableEq, Inhabited

namespace Holder

/-- How many statements or declarations a holder holds. -/
def held : Holder → Nat
  | declaration _ _ held => held
  | statement _ _ _ held => held

/-- Whether a holder is not deeper than the limits, and for a statement also the declaration that
it belongs to. -/
def kept (limits : Limits) : Holder → Bool
  | declaration depth _ _ => Limits.reaches limits.declarations depth
  | statement outer depth _ _ =>
    Limits.reaches limits.declarations outer && Limits.reaches limits.statements depth

/-- Whether a holder is exactly at the depth that the limits name. -/
def last (limits : Limits) : Holder → Bool
  | declaration depth _ _ => limits.declarations = some depth
  | statement _ depth _ _ => limits.statements = some depth

/-- Whether a holder is kept without what it holds, and it holds something. -/
def cut (limits : Limits) (h : Holder) : Bool :=
  h.kept limits && h.last limits && h.held != 0

/-- The holder without what it holds, if it is at the last depth. -/
def emptied (limits : Limits) : Holder → Holder
  | declaration depth name held =>
    declaration depth name (if limits.declarations = some depth then 0 else held)
  | statement outer depth tag held =>
    statement outer depth tag (if limits.statements = some depth then 0 else held)

/-- A holder that is cut is itself kept. -/
lemma kept_of_cut {limits : Limits} {h : Holder} (hcut : h.cut limits = true) :
    h.kept limits = true := by
  rw [cut, Bool.and_assoc, Bool.and_eq_true] at hcut
  exact hcut.1

/-- A holder that is kept at the last depth and not cut holds nothing. -/
lemma held_eq_zero {limits : Limits} {h : Holder} (huncut : h.cut limits = false)
    (hkept : h.kept limits = true) (hlast : h.last limits = true) : h.held = 0 := by
  rw [cut, hkept, hlast] at huncut
  exact bne_eq_false_iff_eq.mp huncut

/-- A holder that is cut loses something. -/
lemma emptied_ne_of_cut {limits : Limits} {h : Holder} (hcut : h.cut limits = true) :
    h.emptied limits ≠ h := by
  simp only [cut, Bool.and_eq_true, bne_iff_ne] at hcut
  obtain ⟨⟨-, hlast⟩, hheld⟩ := hcut
  intro hsame
  have hzero : h.held = 0 := by
    rw [← hsame]
    cases h <;> exact if_pos (of_decide_eq_true hlast)
  exact hheld hzero

@[simp] lemma kept_unbounded (h : Holder) : h.kept .unbounded = true := by
  cases h <;> rfl

@[simp] lemma emptied_unbounded (h : Holder) : h.emptied .unbounded = h := by
  cases h <;> rfl

end Holder

mutual

/-- The holders in a statement at the given depth, which belongs to a declaration at depth
`outer`. -/
def Statement.holders (outer depth : Nat) : Statement → List Holder
  | ⟨kind, _, _, statements, _, _, _⟩ =>
    .statement outer depth kind statements.length ::
      Statement.allHolders outer (depth + 1) statements

def Statement.allHolders (outer depth : Nat) : List Statement → List Holder
  | [] => []
  | m :: ms => m.holders outer depth ++ Statement.allHolders outer depth ms

end

/-- The holders in a method of a declaration at depth `outer`. -/
def Method.holders (outer : Nat) (m : Method) : List Holder :=
  m.statements.flatMap (Statement.holders outer 0)

mutual

/-- The holders in a declaration at the given depth: those in its methods, then the declaration
itself, then those in nested declarations. -/
def Declaration.holders (depth : Nat) : Declaration → List Holder
  | ⟨name, _, _, _, methods, _, nested, _⟩ =>
    methods.flatMap (Method.holders depth) ++
      .declaration depth name nested.length :: Declaration.allHolders (depth + 1) nested

def Declaration.allHolders (depth : Nat) : List Declaration → List Holder
  | [] => []
  | m :: ms => m.holders depth ++ Declaration.allHolders depth ms

end

/-- The holders in a namespace. -/
def Namespace.holders (m : Namespace) : List Holder :=
  m.declarations.flatMap (Declaration.holders 0)

/-- All holders of a source file, whether or not limits keep them. -/
def Root.holders (m : Root) : List Holder :=
  m.namespaces.flatMap Namespace.holders

/-! ### Holders in terms of the fields -/

/-- The holders of a list of statements are those of its members. -/
lemma Statement.allHolders_eq_flatMap (outer depth : Nat) (ms : List Statement) :
    Statement.allHolders outer depth ms = ms.flatMap (Statement.holders outer depth) := by
  induction ms with
  | nil => rfl
  | cons m ms ih => rw [Statement.allHolders, ih, List.flatMap_cons]

/-- The holders of a list of declarations are those of its members. -/
lemma Declaration.allHolders_eq_flatMap (depth : Nat) (ms : List Declaration) :
    Declaration.allHolders depth ms = ms.flatMap (Declaration.holders depth) := by
  induction ms with
  | nil => rfl
  | cons m ms ih => rw [Declaration.allHolders, ih, List.flatMap_cons]

/-- A statement is the first of its holders. -/
lemma Statement.holders_eq (outer depth : Nat) (m : Statement) :
    m.holders outer depth =
      .statement outer depth m.kind m.statements.length ::
        m.statements.flatMap (Statement.holders outer (depth + 1)) := by
  cases m
  rw [Statement.holders, Statement.allHolders_eq_flatMap]

/-- A declaration is a holder that comes after those of its methods and before those in it. -/
lemma Declaration.holders_eq (depth : Nat) (m : Declaration) :
    m.holders depth =
      m.methods.flatMap (Method.holders depth) ++
        .declaration depth m.name m.nested.length ::
          m.nested.flatMap (Declaration.holders (depth + 1)) := by
  cases m
  rw [Declaration.holders, Declaration.allHolders_eq_flatMap]

/-! ### Holders that are not kept -/

/-- Where the limits do not reach, no statement is kept. -/
lemma Statement.reaches_of_kept {limits : Limits} {outer : Nat} (m : Statement) :
    ∀ {depth : Nat} {h : Holder}, h ∈ m.holders outer depth → h.kept limits = true →
      Limits.reaches limits.declarations outer = true ∧
        Limits.reaches limits.statements depth = true := by
  induction m using Statement.nested_induction with
  | hstmt m ih =>
    intro depth h hmem hkept
    rw [Statement.holders_eq, List.mem_cons] at hmem
    rcases hmem with rfl | hmem
    · exact Bool.and_eq_true_iff.mp hkept
    · obtain ⟨s, hs, hmem⟩ := List.mem_flatMap.mp hmem
      obtain ⟨houter, hdepth⟩ := ih s hs hmem hkept
      exact ⟨houter, Limits.reaches_of_succ hdepth⟩

/-- Where the limits do not reach, neither declarations nor statements in them are kept. -/
lemma Declaration.reaches_of_kept {limits : Limits} (m : Declaration) :
    ∀ {depth : Nat} {h : Holder}, h ∈ m.holders depth → h.kept limits = true →
      Limits.reaches limits.declarations depth = true := by
  induction m using Declaration.nested_induction with
  | hdecl m ih =>
    intro depth h hmem hkept
    rw [Declaration.holders_eq, List.mem_append, List.mem_cons] at hmem
    rcases hmem with hmem | rfl | hmem
    · obtain ⟨n, -, hmem⟩ := List.mem_flatMap.mp hmem
      obtain ⟨s, -, hmem⟩ := List.mem_flatMap.mp hmem
      exact (s.reaches_of_kept hmem hkept).1
    · exact hkept
    · obtain ⟨d, hd, hmem⟩ := List.mem_flatMap.mp hmem
      exact Limits.reaches_of_succ (ih d hd hmem hkept)

/-- What is nested in a node contributes nothing to a choice among the kept holders, unless the
limits allow the node to hold something. -/
lemma filter_nested {α : Type} {limits : Limits} {p : Holder → Bool} {limit : Option Nat}
    {depth : Nat} {holders : α → List Holder} {as : List α}
    (hp : ∀ h, p h = true → h.kept limits = true)
    (hreach : ∀ a ∈ as, ∀ h ∈ holders a, h.kept limits = true →
      Limits.reaches limit (depth + 1) = true) :
    (as.flatMap holders).filter p =
      if Limits.allows limit depth then as.flatMap fun a => (holders a).filter p else [] := by
  rw [List.filter_flatMap]
  split
  · rfl
  · next hallow =>
    rw [Limits.allows_eq_reaches] at hallow
    rw [List.flatMap_eq_nil_iff]
    intro a ha
    rw [List.filter_eq_nil_iff]
    intro h hmem hph
    exact hallow (hreach a ha h hmem (hp h hph))

/-- Among the holders of a statement, those that are kept are found without looking below the
limits. -/
lemma Statement.filter_holders {limits : Limits} {p : Holder → Bool}
    (hp : ∀ h, p h = true → h.kept limits = true) (outer depth : Nat) (m : Statement) :
    (m.holders outer depth).filter p =
      [Holder.statement outer depth m.kind m.statements.length].filter p ++
        if Limits.allows limits.statements depth then
          m.statements.flatMap fun s => (s.holders outer (depth + 1)).filter p
        else [] := by
  have hnested : (m.statements.flatMap (Statement.holders outer (depth + 1))).filter p =
      if Limits.allows limits.statements depth then
        m.statements.flatMap fun s => (s.holders outer (depth + 1)).filter p
      else [] :=
    filter_nested hp fun s _ h hmem hkept => (s.reaches_of_kept hmem hkept).2
  rw [Statement.holders_eq, ← List.singleton_append, List.filter_append, hnested]

/-- Among the holders of a declaration, those that are kept are found without looking below the
limits. -/
lemma Declaration.filter_holders {limits : Limits} {p : Holder → Bool}
    (hp : ∀ h, p h = true → h.kept limits = true) (depth : Nat) (m : Declaration) :
    (m.holders depth).filter p =
      (m.methods.flatMap fun n => (n.holders depth).filter p) ++
        ([Holder.declaration depth m.name m.nested.length].filter p ++
          if Limits.allows limits.declarations depth then
            m.nested.flatMap fun d => (d.holders (depth + 1)).filter p
          else []) := by
  have hnested : (m.nested.flatMap (Declaration.holders (depth + 1))).filter p =
      if Limits.allows limits.declarations depth then
        m.nested.flatMap fun d => (d.holders (depth + 1)).filter p
      else [] :=
    filter_nested hp fun d _ h hmem hkept => d.reaches_of_kept hmem hkept
  rw [Declaration.holders_eq, ← List.singleton_append, List.filter_append, List.filter_flatMap,
    List.filter_append, hnested]

/-! ### The holders of the tree -/

/-- Tidying a statement keeps its holders. -/
lemma Statement.holders_tidy (m : Statement) :
    ∀ outer depth, m.tidy.holders outer depth = m.holders outer depth := by
  induction m using Statement.nested_induction with
  | hstmt m ih =>
    intro outer depth
    rw [Statement.tidy_eq, Statement.holders_eq, Statement.holders_eq, List.length_map,
      List.flatMap_map]
    congr 1
    exact List.flatMap_congr fun s hs => ih s hs outer (depth + 1)

/-- Tidying a method keeps its holders. -/
lemma Method.holders_tidy (outer : Nat) (m : Method) : m.tidy.holders outer = m.holders outer := by
  rw [Method.holders, Method.tidy, List.flatMap_map]
  exact List.flatMap_congr fun s _ => s.holders_tidy outer 0

/-- Tidying a declaration keeps its holders. -/
lemma Declaration.holders_tidy (m : Declaration) :
    ∀ depth, m.tidy.holders depth = m.holders depth := by
  induction m using Declaration.nested_induction with
  | hdecl m ih =>
    intro depth
    have hmethods : m.methods.flatMap (fun n => n.tidy.holders depth) =
        m.methods.flatMap (Method.holders depth) :=
      List.flatMap_congr fun n _ => n.holders_tidy depth
    have hnested : m.nested.flatMap (fun d => d.tidy.holders (depth + 1)) =
        m.nested.flatMap (Declaration.holders (depth + 1)) :=
      List.flatMap_congr fun d hd => ih d hd (depth + 1)
    rw [Declaration.tidy_eq, Declaration.holders_eq, Declaration.holders_eq, List.length_map,
      List.flatMap_map, List.flatMap_map, hmethods, hnested]

/-- Tidying does not touch statements and declarations. -/
lemma Root.holders_tidy (m : Root) : m.tidy.holders = m.holders := by
  rw [Root.holders, Root.tidy, List.flatMap_map]
  refine List.flatMap_congr fun n _ => ?_
  rw [Namespace.holders, Namespace.tidy, List.flatMap_map]
  exact List.flatMap_congr fun d _ => d.holders_tidy 0

/-- A kept node and the kept nodes in it, in a pruned message. -/
lemma Statement.holders_prune {limits : Limits} {outer : Nat} (m : Statement)
    (houter : Limits.reaches limits.declarations outer = true) :
    ∀ depth, Limits.reaches limits.statements depth = true →
      (m.prune limits depth).holders outer depth =
        ((m.holders outer depth).filter (Holder.kept limits)).map (Holder.emptied limits) := by
  induction m using Statement.nested_induction with
  | hstmt m ih =>
    intro depth hreach
    have hown : (Holder.statement outer depth m.kind m.statements.length).kept limits = true :=
      Bool.and_eq_true_iff.mpr ⟨houter, hreach⟩
    rw [Statement.prune_eq, Statement.holders_eq, Statement.filter_holders fun _ => id,
      List.filter_cons_of_pos hown, List.filter_nil, List.singleton_append, List.map_cons,
      Holder.emptied]
    dsimp only
    rcases Limits.reaches_cases hreach with ⟨hallow, hlimit⟩ | ⟨hallow, hlimit⟩
    · rw [if_pos hallow, if_pos hallow, if_neg hlimit, List.length_map, List.flatMap_map,
        List.map_flatMap]
      congr 1
      refine List.flatMap_congr fun s hs => ih s hs (depth + 1) ?_
      rwa [← Limits.allows_eq_reaches]
    · rw [hallow, if_neg Bool.false_ne_true, if_neg Bool.false_ne_true, if_pos hlimit]
      rfl

/-- Pruning a method keeps the holders within the limits and empties those at the last depth. -/
lemma Method.holders_prune {limits : Limits} {outer : Nat} (m : Method)
    (houter : Limits.reaches limits.declarations outer = true) :
    (m.prune limits).holders outer =
      ((m.holders outer).filter (Holder.kept limits)).map (Holder.emptied limits) := by
  rw [Method.holders, Method.prune, Method.holders, List.flatMap_map, List.filter_flatMap,
    List.map_flatMap]
  exact List.flatMap_congr fun s _ => s.holders_prune houter 0 (Limits.reaches_zero _)

/-- Pruning a declaration keeps the holders within the limits and empties those at the last
depth. -/
lemma Declaration.holders_prune {limits : Limits} (m : Declaration) :
    ∀ depth, Limits.reaches limits.declarations depth = true →
      (m.prune limits depth).holders depth =
        ((m.holders depth).filter (Holder.kept limits)).map (Holder.emptied limits) := by
  induction m using Declaration.nested_induction with
  | hdecl m ih =>
    intro depth hreach
    have hown : (Holder.declaration depth m.name m.nested.length).kept limits = true := hreach
    have hmethods : m.methods.flatMap (fun n => (n.prune limits).holders depth) =
        m.methods.flatMap fun n =>
          ((n.holders depth).filter (Holder.kept limits)).map (Holder.emptied limits) :=
      List.flatMap_congr fun n _ => n.holders_prune hreach
    rw [Declaration.prune_eq, Declaration.holders_eq, Declaration.filter_holders fun _ => id,
      List.filter_cons_of_pos hown, List.filter_nil, List.singleton_append, List.map_append,
      List.map_cons, Holder.emptied, List.flatMap_map, hmethods, List.map_flatMap]
    dsimp only
    rcases Limits.reaches_cases hreach with ⟨hallow, hlimit⟩ | ⟨hallow, hlimit⟩
    · rw [if_pos hallow, if_pos hallow, if_neg hlimit, List.length_map, List.flatMap_map,
        List.map_flatMap]
      congr 2
      refine List.flatMap_congr fun d hd => ih d hd (depth + 1) ?_
      rwa [← Limits.allows_eq_reaches]
    · rw [hallow, if_neg Bool.false_ne_true, if_neg Bool.false_ne_true, if_pos hlimit]
      rfl

/-- Pruning a root keeps the holders within the limits and empties those at the last depth. -/
lemma Root.holders_prune (limits : Limits) (m : Root) :
    (m.prune limits).holders =
      (m.holders.filter (Holder.kept limits)).map (Holder.emptied limits) := by
  rw [Root.holders, Root.prune, Root.holders, List.flatMap_map, List.filter_flatMap,
    List.map_flatMap]
  refine List.flatMap_congr fun n _ => ?_
  rw [Namespace.holders, Namespace.prune, Namespace.holders, List.flatMap_map,
    List.filter_flatMap, List.map_flatMap]
  exact List.flatMap_congr fun d _ => d.holders_prune 0 (Limits.reaches_zero _)

/-- The holders of a rebuilt tree are those that are kept.  At the last depth they hold nothing. -/
lemma Root.holders_toMessage {limits : Limits} {m : Root} {t : Arbor.Root}
    (h : m.Rebuilds limits t) :
    t.toMessage.holders =
      (m.holders.filter (Holder.kept limits)).map (Holder.emptied limits) := by
  rw [(Root.rebuilds_iff_toMessage limits m t).mp h, Root.holders_tidy, Root.holders_prune]

/-- Without limits a tree has all holders of the message. -/
lemma Root.holders_toMessage_unbounded {m : Root} {t : Arbor.Root} (h : m.Rebuilds .unbounded t) :
    t.toMessage.holders = m.holders := by
  have hkept : m.holders.filter (Holder.kept .unbounded) = m.holders :=
    List.filter_eq_self.mpr fun h _ => h.kept_unbounded
  have hemptied : m.holders.map (Holder.emptied .unbounded) = m.holders :=
    List.map_id'' Holder.emptied_unbounded _
  rw [Root.holders_toMessage h, hkept, hemptied]

/-! ### Nothing is cut -/

/-- If no holder in a statement is cut, then pruning it takes nothing from it that pruning without
limits would not take.  The depth that the unlimited side counts is never looked at. -/
lemma Statement.prune_eq_of_uncut {limits : Limits} {outer : Nat} (m : Statement)
    (houter : Limits.reaches limits.declarations outer = true) :
    ∀ depth depth', Limits.reaches limits.statements depth = true →
      (∀ h ∈ m.holders outer depth, h.cut limits = false) →
      m.prune limits depth = m.prune .unbounded depth' := by
  induction m using Statement.nested_induction with
  | hstmt m ih =>
    intro depth depth' hreach huncut
    rw [Statement.holders_eq, List.forall_mem_cons] at huncut
    obtain ⟨hown, hnested⟩ := huncut
    have hstatements : (if Limits.allows limits.statements depth then
        m.statements.map (Statement.prune limits (depth + 1)) else []) =
        m.statements.map (Statement.prune .unbounded (depth' + 1)) := by
      rcases Limits.reaches_cases hreach with ⟨hallow, -⟩ | ⟨hallow, hlimit⟩
      · rw [if_pos hallow]
        refine List.map_congr_left fun s hs => ih s hs (depth + 1) (depth' + 1) ?_ ?_
        · rwa [← Limits.allows_eq_reaches]
        · exact fun h hmem => hnested h (List.mem_flatMap.mpr ⟨s, hs, hmem⟩)
      · -- At the last depth a holder that is not cut holds nothing.
        have hkept := Bool.and_eq_true_iff.mpr ⟨houter, hreach⟩
        have hnil : m.statements = [] :=
          List.length_eq_zero_iff.mp (Holder.held_eq_zero hown hkept (decide_eq_true hlimit))
        rw [hallow, hnil]
        rfl
    rw [Statement.prune_eq, Statement.prune_eq, hstatements]
    rfl

/-- Where no holder is cut, the limits make no difference to a method. -/
lemma Method.prune_eq_of_uncut {limits : Limits} {outer : Nat} {m : Method}
    (houter : Limits.reaches limits.declarations outer = true)
    (huncut : ∀ h ∈ m.holders outer, h.cut limits = false) :
    m.prune limits = m.prune .unbounded := by
  have hstatements : m.statements.map (Statement.prune limits 0) =
      m.statements.map (Statement.prune .unbounded 0) := by
    refine List.map_congr_left fun s hs => ?_
    refine s.prune_eq_of_uncut houter 0 0 (Limits.reaches_zero _) fun h hmem => huncut h ?_
    exact List.mem_flatMap.mpr ⟨s, hs, hmem⟩
  unfold Method.prune
  rw [hstatements]

/-- Where no holder is cut, the limits make no difference to a declaration. -/
lemma Declaration.prune_eq_of_uncut {limits : Limits} (m : Declaration) :
    ∀ depth depth', Limits.reaches limits.declarations depth = true →
      (∀ h ∈ m.holders depth, h.cut limits = false) →
      m.prune limits depth = m.prune .unbounded depth' := by
  induction m using Declaration.nested_induction with
  | hdecl m ih =>
    intro depth depth' hreach huncut
    rw [Declaration.holders_eq, List.forall_mem_append, List.forall_mem_cons] at huncut
    obtain ⟨hinside, hown, hbelow⟩ := huncut
    have hmethods : m.methods.map (Method.prune limits) =
        m.methods.map (Method.prune .unbounded) := by
      refine List.map_congr_left fun n hn => Method.prune_eq_of_uncut hreach fun h hmem => ?_
      exact hinside h (List.mem_flatMap.mpr ⟨n, hn, hmem⟩)
    have hnested : (if Limits.allows limits.declarations depth then
        m.nested.map (Declaration.prune limits (depth + 1)) else []) =
        m.nested.map (Declaration.prune .unbounded (depth' + 1)) := by
      rcases Limits.reaches_cases hreach with ⟨hallow, -⟩ | ⟨hallow, hlimit⟩
      · rw [if_pos hallow]
        refine List.map_congr_left fun d hd => ih d hd (depth + 1) (depth' + 1) ?_ ?_
        · rwa [← Limits.allows_eq_reaches]
        · exact fun h hmem => hbelow h (List.mem_flatMap.mpr ⟨d, hd, hmem⟩)
      · have hnil : m.nested = [] :=
          List.length_eq_zero_iff.mp (Holder.held_eq_zero hown hreach (decide_eq_true hlimit))
        rw [hallow, hnil]
        rfl
    rw [Declaration.prune_eq, Declaration.prune_eq, hmethods, hnested]
    rfl

/-- If no holder is cut, then the limits make no difference to what is pruned. -/
lemma Root.prune_eq_of_uncut {limits : Limits} {m : Root}
    (huncut : ∀ h ∈ m.holders, h.cut limits = false) : m.prune limits = m.prune .unbounded := by
  have hnamespaces : m.namespaces.map (Namespace.prune limits) =
      m.namespaces.map (Namespace.prune .unbounded) := by
    refine List.map_congr_left fun n hn => ?_
    have hdeclarations : n.declarations.map (Declaration.prune limits 0) =
        n.declarations.map (Declaration.prune .unbounded 0) := by
      refine List.map_congr_left fun d hd => ?_
      refine d.prune_eq_of_uncut 0 0 (Limits.reaches_zero _) fun h hmem => huncut h ?_
      exact List.mem_flatMap.mpr ⟨n, hn, List.mem_flatMap.mpr ⟨d, hd, hmem⟩⟩
    unfold Namespace.prune
    rw [hdeclarations]
  unfold Root.prune
  rw [hnamespaces]

/-- If a message is rebuilt to a tree, then no holder is cut exactly if the message is rebuilt to
the same tree without limits. -/
lemma Root.uncut_iff_rebuilds_unbounded {limits : Limits} {m : Root} {t : Arbor.Root}
    (h : m.Rebuilds limits t) :
    m.holders.filter (Holder.cut limits) = [] ↔ m.Rebuilds .unbounded t := by
  constructor
  · intro hnone
    have huncut : ∀ h ∈ m.holders, h.cut limits = false := by
      intro holder hmem
      exact Bool.eq_false_iff.mpr (List.filter_eq_nil_iff.mp hnone holder hmem)
    rw [Root.rebuilds_iff_toMessage] at h ⊢
    rw [h, Root.prune_eq_of_uncut huncut]
  · intro hunbounded
    -- The tree has all holders of the message, so none is left out and none is emptied.
    have hsame : m.holders =
        (m.holders.filter (Holder.kept limits)).map (Holder.emptied limits) := by
      rw [← Root.holders_toMessage h, Root.holders_toMessage_unbounded hunbounded]
    have hkept : m.holders.filter (Holder.kept limits) = m.holders := by
      apply List.filter_eq_self.mpr
      apply List.length_filter_eq_length_iff.mp
      have hlength := congrArg List.length hsame
      rw [List.length_map] at hlength
      exact hlength.symm
    rw [hkept] at hsame
    rw [List.filter_eq_nil_iff]
    intro holder hmem hcut
    have hid : m.holders.map (Holder.emptied limits) = m.holders.map id := by
      rw [← hsame, List.map_id]
    exact Holder.emptied_ne_of_cut hcut (List.map_inj_left.mp hid holder hmem)

end Message

end Arbor
