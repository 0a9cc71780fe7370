import Arbor.Node.Cut
import Arbor.Proofs.Induction
import Arbor.Proofs.Rebuild

/-!
# Smaller limits cut the tree

Limits are ordered by what they keep, and two limits have a minimum, which keeps a level
exactly if both of them do (`Limits.allows_least`).  Cutting a tree follows this order.

* Cutting twice is cutting to the minimum of the limits (`Root.cut_cut`).
* A message that is rebuilt under some limits is also rebuilt under their minimum with any
  others, to the tree cut to those (`Message.Root.Rebuilds.cut`).  Smaller limits look at
  less of the message, so that they never fail where larger ones succeed.

Both follow the nesting of statements and declarations, whose depths are counted alike when
a tree is cut and when it is rebuilt.  `Root.limits_monotone_and_compose` puts them together.
-/

namespace Arbor

/-! ### The order of limits -/

namespace Limits

/-- Whether one limit keeps at most the levels that another keeps; `none` keeps them all. -/
def AtMost : Option Nat → Option Nat → Prop
  | _, none => True
  | none, some _ => False
  | some m, some n => m ≤ n

/-- The smaller of two limits. -/
def least : Option Nat → Option Nat → Option Nat
  | none, limit => limit
  | limit, none => limit
  | some m, some n => some (min m n)

/-- The limits on statements are compared, and so are those on declarations. -/
instance : LE Limits where
  le a b := AtMost a.statements b.statements ∧ AtMost a.declarations b.declarations

instance (a b : Option Nat) : Decidable (AtMost a b) :=
  match a, b with
  | _, none => .isTrue trivial
  | none, some _ => .isFalse id
  | some m, some n => inferInstanceAs (Decidable (m ≤ n))

instance (a b : Limits) : Decidable (a ≤ b) :=
  inferInstanceAs (Decidable (_ ∧ _))

/-- The smaller of the limits on statements and the smaller of those on declarations. -/
instance : Min Limits where
  min a b :=
    { statements := least a.statements b.statements,
      declarations := least a.declarations b.declarations }

/-- The minimum of two limits keeps a level exactly if both do. -/
lemma allows_least (a b : Option Nat) (depth : Nat) :
    allows (least a b) depth = (allows a depth && allows b depth) := by
  cases a with
  | none => rw [least, allows_none, Bool.true_and]
  | some m =>
    cases b with
    | none => rw [least, allows_none, Bool.and_true]; exact nofun
    | some n =>
      rw [least, allows_some, allows_some, allows_some, ← Bool.decide_and]
      exact decide_eq_decide.mpr Nat.lt_min

/-- The smaller of two limits does not depend on their order. -/
lemma least_comm (a b : Option Nat) : least a b = least b a := by
  cases a <;> cases b <;> simp [least, Nat.min_comm]

/-- Neither does the minimum of limits. -/
lemma min_comm (a b : Limits) : min a b = min b a := by
  simp only [min, least_comm]

/-- The smaller of two limits is the one that keeps at most the levels of the other. -/
lemma least_eq_left {a b : Option Nat} (h : AtMost a b) : least a b = a := by
  cases a <;> cases b <;> simp_all [AtMost, least]

/-- The minimum of limits is the one that is at most the other. -/
lemma min_eq_left {a b : Limits} (h : a ≤ b) : min a b = a := by
  obtain ⟨hstatements, hdeclarations⟩ := h
  simp only [min, least_eq_left hstatements, least_eq_left hdeclarations]

end Limits

/-! ### Cutting twice -/

/-- Cutting a statement cuts the statements in it, or drops them at the last depth. -/
lemma Statement.cut_eq (limits : Limits) (depth : Nat) (s : Statement) :
    s.cut limits depth =
      { s with
        statements :=
          if Limits.allows limits.statements depth then
            s.statements.map (Statement.cut limits (depth + 1))
          else [] } := by
  cases s
  simp only [Statement.cut, Statement.cutAll_eq_map]

/-- Cutting a declaration cuts its methods and the declarations in it, or drops these at the last
depth. -/
lemma Declaration.cut_eq (limits : Limits) (depth : Nat) (d : Declaration) :
    d.cut limits depth =
      { d with
        methods := d.methods.map (Method.cut limits)
        nested :=
          if Limits.allows limits.declarations depth then
            d.nested.map (Declaration.cut limits (depth + 1))
          else [] } := by
  cases d
  simp only [Declaration.cut, Declaration.cutAll_eq_map]

/-- A list that is emptied on two conditions is emptied unless both hold. -/
lemma map_kept_map_kept {α : Type} {p q : Bool} {f g h : α → α} {as : List α}
    (hfg : ∀ a ∈ as, g (f a) = h a) :
    (if p then (if q then as.map f else []).map g else []) =
      if p && q then as.map h else [] := by
  have hmap : (as.map f).map g = as.map h := by
    rw [List.map_map]
    exact List.map_congr_left hfg
  cases p <;> cases q <;> simp [hmap]

/-- Cutting a statement twice is cutting it to the minimum of the limits. -/
lemma Statement.cut_cut (limits limits' : Limits) (s : Statement) :
    ∀ depth, (s.cut limits' depth).cut limits depth = s.cut (min limits limits') depth := by
  induction s using Statement.nested_induction with
  | hstmt s ih =>
    intro depth
    have hstatements :
        Limits.allows (min limits limits').statements depth =
          (Limits.allows limits.statements depth && Limits.allows limits'.statements depth) :=
      Limits.allows_least _ _ depth
    rw [Statement.cut_eq limits', Statement.cut_eq limits, Statement.cut_eq (min limits limits'),
      hstatements]
    dsimp only
    rw [map_kept_map_kept fun s' hs' => ih s' hs' (depth + 1)]

/-- The depth of statements starts anew in each method. -/
lemma Method.cut_cut (limits limits' : Limits) (m : Method) :
    (m.cut limits').cut limits = m.cut (min limits limits') := by
  have hstatements : (m.statements.map (Statement.cut limits' 0)).map (Statement.cut limits 0) =
      m.statements.map (Statement.cut (min limits limits') 0) := by
    rw [List.map_map]
    exact List.map_congr_left fun s _ => s.cut_cut limits limits' 0
  unfold Method.cut
  rw [hstatements]

/-- Cutting a declaration twice is cutting it to the minimum of the limits. -/
lemma Declaration.cut_cut (limits limits' : Limits) (d : Declaration) :
    ∀ depth, (d.cut limits' depth).cut limits depth = d.cut (min limits limits') depth := by
  induction d using Declaration.nested_induction with
  | hdecl d ih =>
    intro depth
    have hmethods : (d.methods.map (Method.cut limits')).map (Method.cut limits) =
        d.methods.map (Method.cut (min limits limits')) := by
      rw [List.map_map]
      exact List.map_congr_left fun m _ => m.cut_cut limits limits'
    have hdeclarations :
        Limits.allows (min limits limits').declarations depth =
          (Limits.allows limits.declarations depth &&
            Limits.allows limits'.declarations depth) :=
      Limits.allows_least _ _ depth
    rw [Declaration.cut_eq limits', Declaration.cut_eq limits,
      Declaration.cut_eq (min limits limits'), hdeclarations]
    dsimp only
    rw [map_kept_map_kept fun d' hd' => ih d' hd' (depth + 1), hmethods]

/-- Cutting a namespace twice is cutting it to the minimum of the limits. -/
lemma Namespace.cut_cut (limits limits' : Limits) (n : Namespace) :
    (n.cut limits').cut limits = n.cut (min limits limits') := by
  have hdeclarations :
      (n.declarations.map (Declaration.cut limits' 0)).map (Declaration.cut limits 0) =
        n.declarations.map (Declaration.cut (min limits limits') 0) := by
    rw [List.map_map]
    exact List.map_congr_left fun d _ => d.cut_cut limits limits' 0
  unfold Namespace.cut
  rw [hdeclarations]

/-- Cutting a tree twice is cutting it to the minimum of the limits. -/
lemma Root.cut_cut (limits limits' : Limits) (t : Root) :
    (t.cut limits').cut limits = t.cut (min limits limits') := by
  have hnamespaces : (t.namespaces.map (Namespace.cut limits')).map (Namespace.cut limits) =
      t.namespaces.map (Namespace.cut (min limits limits')) := by
    rw [List.map_map]
    exact List.map_congr_left fun n _ => n.cut_cut limits limits'
  unfold Root.cut
  rw [hnamespaces]

/-! ### Rebuilding under smaller limits -/

namespace Message

/-- Members that are related one by one stay related when the members of one list are changed,
also in a list that was kept on one condition and is emptied on another. -/
lemma kept_map_right {α β : Type} {p q : Bool} {R S : α → β → Prop} {f : β → β} {as : List α}
    {bs : List β} (hRS : ∀ a ∈ as, ∀ b, R a b → S a (f b))
    (h : if q then List.Forall₂ R as bs else bs = []) :
    if p && q then List.Forall₂ S as (if p then bs.map f else [])
    else (if p then bs.map f else []) = [] := by
  cases p with
  | false => rfl
  | true =>
    cases q with
    | false =>
      have hnil : bs = [] := h
      rw [hnil]
      rfl
    | true => exact forall₂_map_right hRS h

/-- Under smaller limits a statement is rebuilt too, to what is left of it after cutting. -/
lemma Statement.rebuild_cut (limits limits' : Limits) (m : Statement) :
    ∀ depth s, (m.rebuild limits' depth).result = .ok s →
      (m.rebuild (min limits limits') depth).result = .ok (s.cut limits depth) := by
  induction m using Statement.nested_induction with
  | hstmt m ih =>
    intro depth s h
    rw [Statement.rebuild_eq_ok_iff] at h ⊢
    rw [Arbor.Statement.cut_eq]
    refine ⟨h.kind, h.expressions, h.condition, ?_, h.initializations, h.updates⟩
    have hallows : Limits.allows (min limits limits').statements depth =
        (Limits.allows limits.statements depth && Limits.allows limits'.statements depth) :=
      Limits.allows_least _ _ depth
    rw [hallows]
    exact kept_map_right (fun m' hm' => ih m' hm' (depth + 1)) h.statements

/-- Under smaller limits a method is rebuilt too, to what is left of it after cutting. -/
lemma Method.Rebuilds.cut (limits : Limits) {limits' : Limits} {m : Method} {n : Arbor.Method}
    (h : m.Rebuilds limits' n) : m.Rebuilds (min limits limits') (n.cut limits) := by
  have hstatements : List.Forall₂ (fun m s => (m.rebuild (min limits limits') 0).result = .ok s)
      m.statements (n.statements.map (Arbor.Statement.cut limits 0)) :=
    forall₂_map_right (fun m' _ => Statement.rebuild_cut limits limits' m' 0) h.statements
  exact ⟨h.name, h.returnType, h.modifiers, h.arguments, hstatements, h.content⟩

/-- Under smaller limits a declaration is rebuilt too, to what is left of it after cutting. -/
lemma Declaration.rebuild_cut (limits limits' : Limits) (m : Declaration) :
    ∀ depth d, (m.rebuild limits' depth).result = .ok d →
      (m.rebuild (min limits limits') depth).result = .ok (d.cut limits depth) := by
  induction m using Declaration.nested_induction with
  | hdecl m ih =>
    intro depth d h
    rw [Declaration.rebuild_eq_ok_iff] at h ⊢
    rw [Arbor.Declaration.cut_eq]
    have hmethods : List.Forall₂ (Method.Rebuilds (min limits limits')) m.methods
        (d.methods.map (Arbor.Method.cut limits)) :=
      forall₂_map_right (fun _ _ _ hmethod => hmethod.cut limits) h.methods
    refine ⟨h.name, h.kind, h.modifiers, h.fields, hmethods, h.parents, ?_⟩
    have hallows : Limits.allows (min limits limits').declarations depth =
        (Limits.allows limits.declarations depth &&
          Limits.allows limits'.declarations depth) :=
      Limits.allows_least _ _ depth
    rw [hallows]
    exact kept_map_right (fun m' hm' => ih m' hm' (depth + 1)) h.nested

/-- Under smaller limits a namespace is rebuilt too, to what is left of it after cutting. -/
lemma Namespace.Rebuilds.cut (limits : Limits) {limits' : Limits} {m : Namespace}
    {n : Arbor.Namespace} (h : m.Rebuilds limits' n) :
    m.Rebuilds (min limits limits') (n.cut limits) := by
  refine ⟨h.name, h.modifiers, forall₂_map_right (fun m' _ d hd => ?_) h.declarations⟩
  rw [← Declaration.rebuild_eq_ok_iff] at hd ⊢
  exact Declaration.rebuild_cut limits limits' m' 0 d hd

/-- What is rebuilt under some limits is rebuilt under their minimum with others, cut to
those. -/
lemma Root.Rebuilds.cut (limits : Limits) {limits' : Limits} {m : Root} {t : Arbor.Root}
    (h : m.Rebuilds limits' t) : m.Rebuilds (min limits limits') (t.cut limits) :=
  ⟨h.imports, forall₂_map_right (fun _ _ _ hnamespace => hnamespace.cut limits) h.namespaces⟩

end Message

/-! ### Limits -/

/-- Limits are monotone and compose.  If a message is converted under some limits, then it is
converted under all smaller limits as well, to the tree cut to those.  Cutting to one pair of
limits and then to another is cutting to their minimum, whatever the order, and limits on
statements and on declarations can be applied one after the other. -/
theorem Root.limits_monotone_and_compose (limits limits' : Limits) :
    (limits ≤ limits' → ∀ (m : Message.Root) (t : Root), (m.convert limits').result = .ok t →
      (m.convert limits).result = .ok (t.cut limits)) ∧
    (∀ t : Root, (t.cut limits').cut limits = t.cut (min limits limits')) ∧
    (∀ t : Root, (t.cut limits').cut limits = (t.cut limits).cut limits') ∧
    ∀ t : Root, t.cut limits =
      (t.cut { statements := none, declarations := limits.declarations }).cut
        { statements := limits.statements, declarations := none } := by
  refine ⟨?_, Root.cut_cut limits limits', fun t => ?_, fun t => ?_⟩
  · intro hle m t h
    obtain ⟨hmisfit, hrebuilds⟩ := Message.Root.convert_eq_ok_iff.mp h
    have hcut : m.Rebuilds (min limits limits') (t.cut limits) := hrebuilds.cut limits
    rw [Limits.min_eq_left hle] at hcut
    exact Message.Root.convert_eq_ok_iff.mpr ⟨hmisfit, hcut⟩
  · rw [Root.cut_cut, Root.cut_cut, Limits.min_comm]
  · have hmin : min { statements := limits.statements, declarations := none }
        { statements := none, declarations := limits.declarations } = limits := by
      obtain ⟨statements, declarations⟩ := limits
      cases statements <;> rfl
    rw [Root.cut_cut, hmin]

/-- A message with statements and declarations nested two levels deep, which are of kinds that
do not exist at the second level. -/
def Message.Root.faultyAtSecond : Message.Root where
  namespaces := [
    { declarations := [
        { methods := [
            { statements := [
                { kind := 1, statements := [{ kind := 2, statements := [{ kind := 99 }] }] }] }],
          nested := [{ name := "D", nested := [{ kind := 97 }] }] }] }]

/-- A message with a fault at its second level: the smaller limits do not get there. -/
theorem Root.limits_monotone_and_compose_faultyAtSecond :
    let smaller : Limits := { statements := some 0, declarations := some 1 }
    let larger : Limits := { statements := some 1, declarations := some 1 }
    let m := Message.Root.faultyAtSecond
    smaller ≤ larger ∧
      (∃ t, (m.convert larger).result = .ok t ∧ (m.convert smaller).result = .ok (t.cut smaller)) ∧
      (m.convert .unbounded).result = .error (.unknownKind "statement" 99) := by
  intro smaller larger m
  have hle : smaller ≤ larger := by decide
  exact ⟨hle, ⟨_, rfl, (Root.limits_monotone_and_compose smaller larger).1 hle m _ rfl⟩, rfl⟩

end Arbor
