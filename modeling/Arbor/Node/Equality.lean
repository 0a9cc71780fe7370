import Arbor.Node

/-!
# Equality of nodes

Two nodes are equal when they agree in every field, at every depth.  The comparison is
decided field by field.
-/

namespace Arbor

/-! ### Expressions and variables -/

mutual

/-- Whether two expressions agree in every field. -/
def Expression.agree : Expression → Expression → Bool
  | ⟨k, l, m, v, as, vs, p, t, os⟩, ⟨k', l', m', v', as', vs', p', t', os'⟩ =>
    k == k' && l == l' && m == m' && v == v' && p == p' && t == t' &&
      Expression.agreeAll as as' && Variable.agreeAll vs vs' && Expression.agreeAll os os'

/-- Whether two lists of expressions agree. -/
def Expression.agreeAll : List Expression → List Expression → Bool
  | [], [] => true
  | e :: es, e' :: es' => e.agree e' && Expression.agreeAll es es'
  | _, _ => false

/-- Whether two variables agree in every field. -/
def Variable.agree : Variable → Variable → Bool
  | ⟨n, t, i, ms⟩, ⟨n', t', i', ms'⟩ => n == n' && t == t' && i.agree i' && ms == ms'

/-- Whether two lists of variables agree. -/
def Variable.agreeAll : List Variable → List Variable → Bool
  | [], [] => true
  | v :: vs, v' :: vs' => v.agree v' && Variable.agreeAll vs vs'
  | _, _ => false

end

mutual

/-- The comparison of expressions is equality. -/
theorem Expression.agree_iff : ∀ e e' : Expression, e.agree e' = true ↔ e = e'
  | ⟨_, _, _, _, as, vs, _, _, os⟩, ⟨_, _, _, _, as', vs', _, _, os'⟩ => by
    simp only [Expression.agree, Bool.and_eq_true, beq_iff_eq, Expression.mk.injEq,
      Expression.agreeAll_iff as as', Variable.agreeAll_iff vs vs', Expression.agreeAll_iff os os']
    grind

/-- The comparison of lists of expressions is equality. -/
theorem Expression.agreeAll_iff : ∀ es es' : List Expression,
    Expression.agreeAll es es' = true ↔ es = es'
  | [], [] => by simp [Expression.agreeAll]
  | [], _ :: _ => by simp [Expression.agreeAll]
  | _ :: _, [] => by simp [Expression.agreeAll]
  | e :: es, e' :: es' => by
    simp [Expression.agreeAll, Expression.agree_iff e e', Expression.agreeAll_iff es es']

/-- The comparison of variables is equality. -/
theorem Variable.agree_iff : ∀ v v' : Variable, v.agree v' = true ↔ v = v'
  | ⟨_, _, i, _⟩, ⟨_, _, i', _⟩ => by
    simp [Variable.agree, Expression.agree_iff i i', and_assoc]

/-- The comparison of lists of variables is equality. -/
theorem Variable.agreeAll_iff : ∀ vs vs' : List Variable,
    Variable.agreeAll vs vs' = true ↔ vs = vs'
  | [], [] => by simp [Variable.agreeAll]
  | [], _ :: _ => by simp [Variable.agreeAll]
  | _ :: _, [] => by simp [Variable.agreeAll]
  | v :: vs, v' :: vs' => by
    simp [Variable.agreeAll, Variable.agree_iff v v', Variable.agreeAll_iff vs vs']

end

instance : DecidableEq Expression := fun e e' => decidable_of_iff _ (Expression.agree_iff e e')

instance : DecidableEq Variable := fun v v' => decidable_of_iff _ (Variable.agree_iff v v')

/-! ### Statements and methods -/

mutual

/-- Whether two statements agree in every field. -/
def Statement.agree : Statement → Statement → Bool
  | ⟨k, es, c, ss, is, us⟩, ⟨k', es', c', ss', is', us'⟩ =>
    k == k' && es == es' && c == c' && is == is' && us == us' && Statement.agreeAll ss ss'

/-- Whether two lists of statements agree. -/
def Statement.agreeAll : List Statement → List Statement → Bool
  | [], [] => true
  | s :: ss, s' :: ss' => s.agree s' && Statement.agreeAll ss ss'
  | _, _ => false

end

mutual

/-- The comparison of statements is equality. -/
theorem Statement.agree_iff : ∀ s s' : Statement, s.agree s' = true ↔ s = s'
  | ⟨_, _, _, ss, _, _⟩, ⟨_, _, _, ss', _, _⟩ => by
    simp only [Statement.agree, Bool.and_eq_true, beq_iff_eq, Statement.mk.injEq,
      Statement.agreeAll_iff ss ss']
    grind

/-- The comparison of lists of statements is equality. -/
theorem Statement.agreeAll_iff : ∀ ss ss' : List Statement,
    Statement.agreeAll ss ss' = true ↔ ss = ss'
  | [], [] => by simp [Statement.agreeAll]
  | [], _ :: _ => by simp [Statement.agreeAll]
  | _ :: _, [] => by simp [Statement.agreeAll]
  | s :: ss, s' :: ss' => by
    simp [Statement.agreeAll, Statement.agree_iff s s', Statement.agreeAll_iff ss ss']

end

instance : DecidableEq Statement := fun s s' => decidable_of_iff _ (Statement.agree_iff s s')

deriving instance DecidableEq for Method

/-! ### Declarations, namespaces and roots -/

mutual

/-- Whether two declarations agree in every field. -/
def Declaration.agree : Declaration → Declaration → Bool
  | ⟨n, k, ms, fs, me, ps, ds⟩, ⟨n', k', ms', fs', me', ps', ds'⟩ =>
    n == n' && k == k' && ms == ms' && fs == fs' && me == me' && ps == ps' &&
      Declaration.agreeAll ds ds'

/-- Whether two lists of declarations agree. -/
def Declaration.agreeAll : List Declaration → List Declaration → Bool
  | [], [] => true
  | d :: ds, d' :: ds' => d.agree d' && Declaration.agreeAll ds ds'
  | _, _ => false

end

mutual

/-- The comparison of declarations is equality. -/
theorem Declaration.agree_iff : ∀ d d' : Declaration, d.agree d' = true ↔ d = d'
  | ⟨_, _, _, _, _, _, ds⟩, ⟨_, _, _, _, _, _, ds'⟩ => by
    simp only [Declaration.agree, Bool.and_eq_true, beq_iff_eq, Declaration.mk.injEq,
      Declaration.agreeAll_iff ds ds', and_assoc]

/-- The comparison of lists of declarations is equality. -/
theorem Declaration.agreeAll_iff : ∀ ds ds' : List Declaration,
    Declaration.agreeAll ds ds' = true ↔ ds = ds'
  | [], [] => by simp [Declaration.agreeAll]
  | [], _ :: _ => by simp [Declaration.agreeAll]
  | _ :: _, [] => by simp [Declaration.agreeAll]
  | d :: ds, d' :: ds' => by
    simp [Declaration.agreeAll, Declaration.agree_iff d d', Declaration.agreeAll_iff ds ds']

end

instance : DecidableEq Declaration := fun d d' => decidable_of_iff _ (Declaration.agree_iff d d')

deriving instance DecidableEq for Namespace

deriving instance DecidableEq for Root

deriving instance DecidableEq for Node

end Arbor
