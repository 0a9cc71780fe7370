import Arbor.Proofs.Canonical
import Arbor.Proofs.Wire.Extent

/-!
# Converting thins out

On the way from bytes to a tree nothing is added that would have to be written: a message
keeps some of the records that it was put together from, and a node keeps some of the parts
of its message.  What a node gains, a placeholder or an unnamed type, is left out of the
canonical form.  So the canonical records of a converted tree are thinned from the decoded
ones (`Message.Root.thinned_ofRecords`, `Message.Root.Rebuilds.thinned`).

`Root.bounded_of_ofBytes` draws the conclusion: the canonical form of a converted tree is no
longer than the bytes that the tree was converted from, and what it holds can be decoded.
-/

namespace Arbor

open Wire (Record Thinned having latest)

namespace Message

/-! ### Segments of collected records -/

section Segments

variable {α : Type} {p : Record → Option α} {f : α → Record} {number : Nat}

/-- What is found in records of one number is found in separate records with that number. -/
lemma map_filterMap_sublist (hp : ∀ {r a}, p r = some a → r = f a)
    (hf : ∀ a, (f a).number = number) (rs : List Record) :
    ((rs.filterMap p).map f).Sublist (having number rs) := by
  induction rs with
  | nil => exact .slnil
  | cons r rs ih =>
    cases h : p r with
    | none =>
      rw [List.filterMap_cons_none h]
      exact ih.trans ((List.sublist_cons_self r rs).filter _)
    | some a =>
      have hnumber : (r.number == number) = true := by
        rw [hp h, hf a, beq_self_eq_true]
      rw [List.filterMap_cons_some h, List.map_cons, having, List.filter_cons,
        if_pos hnumber, ← hp h]
      exact ih.cons_cons r

/-- What is found last in records of one number is found in one record with that number. -/
lemma map_latest_sublist (hp : ∀ {r a}, p r = some a → r = f a)
    (hf : ∀ a, (f a).number = number) (rs : List Record) :
    ((latest p rs).toList.map f).Sublist (having number rs) := by
  refine .trans (.map f ?_) (map_filterMap_sublist hp hf rs)
  cases h : latest p rs with
  | none => exact List.nil_sublist _
  | some a => exact List.singleton_sublist.mpr (List.mem_of_getLast? h)

end Segments

/-- A record with a text of this number is that text. -/
lemma eq_of_text? {number : Nat} {r : Record} {s : String} (h : r.text? number = some s) :
    r = .text number s := by
  cases r with
  | text n s' => simp_all
  | _ => cases h

/-- A record with a kind of this number is that kind. -/
lemma eq_of_kind? {number : Nat} {r : Record} {tag : Int} (h : r.kind? number = some tag) :
    r = .kind number tag := by
  cases r with
  | kind n tag' => simp_all
  | _ => cases h

/-- A record with a flag of this number is that flag. -/
lemma eq_of_flag? {number : Nat} {r : Record} {b : Bool} (h : r.flag? number = some b) :
    r = .flag number b := by
  cases r with
  | flag n b' => simp_all
  | _ => cases h

section Collected

variable (number : Nat) (rs : List Record)

/-- The record of the latest text, if it is written, is one of those with its number. -/
lemma thinned_text :
    Thinned (textRecord number ((latest (Record.text? number) rs).getD "")) (having number rs) := by
  refine .of_sublist (.trans ?_ (map_latest_sublist eq_of_text? (fun _ => rfl) rs))
  cases latest (Record.text? number) rs with
  | none => exact .slnil
  | some s =>
    rw [Option.getD_some, textRecord]
    split
    · exact List.nil_sublist _
    · exact List.Sublist.refl _

/-- The record of the latest kind, if it is written, is one of those with its number. -/
lemma thinned_kind :
    Thinned (kindRecord number ((latest (Record.kind? number) rs).getD 0)) (having number rs) := by
  refine .of_sublist (.trans ?_ (map_latest_sublist eq_of_kind? (fun _ => rfl) rs))
  cases latest (Record.kind? number) rs with
  | none => exact .slnil
  | some tag =>
    rw [Option.getD_some, kindRecord]
    split
    · exact List.nil_sublist _
    · exact List.Sublist.refl _

/-- The record of the latest flag, if it is written, is one of those with its number. -/
lemma thinned_flag :
    Thinned (flagRecord number ((latest (Record.flag? number) rs).getD false))
      (having number rs) := by
  refine .of_sublist (.trans ?_ (map_latest_sublist eq_of_flag? (fun _ => rfl) rs))
  cases latest (Record.flag? number) rs with
  | none => exact .slnil
  | some b =>
    rw [Option.getD_some, flagRecord]
    split
    · exact List.Sublist.refl _
    · exact List.nil_sublist _

/-- The records of all texts of one number are some of those with that number. -/
lemma thinned_texts :
    Thinned ((rs.filterMap (Record.text? number)).map (.text number)) (having number rs) :=
  .of_sublist (map_filterMap_sublist eq_of_text? (fun _ => rfl) rs)

variable {number rs} {α : Type} {g : List Record → α} {f : α → List Record}

/-- The messages of a repeated field are thinned if each of them is. -/
lemma thinned_messages (h : ∀ body, .message number body ∈ rs → Thinned (f (g body)) body) :
    Thinned (((rs.filterMap (Record.body? number)).map g).map fun a => .message number (f a))
      (having number rs) := by
  have hall : List.Forall₂ (fun body body' => Thinned (f (g body')) body)
      (rs.filterMap (Record.body? number)) (rs.filterMap (Record.body? number)) :=
    List.forall₂_same.mpr fun body hbody => h body (Wire.mem_filterMap_body?.mp hbody)
  rw [List.map_map]
  exact (Thinned.messages number hall).trans
    (.of_sublist (map_filterMap_sublist Record.body?_eq_some_iff.mp (fun _ => rfl) rs))

/-- The message of a single field is thinned if all messages that it could be are. -/
lemma thinned_message (h : ∀ body, .message number body ∈ rs → Thinned (f (g body)) body) :
    Thinned (((latest (Record.body? number) rs).map g).toList.map fun a => .message number (f a))
      (having number rs) := by
  have hall : List.Forall₂ (fun body body' => Thinned (f (g body')) body)
      (latest (Record.body? number) rs).toList (latest (Record.body? number) rs).toList :=
    List.forall₂_same.mpr fun body hbody =>
      h body (Wire.mem_of_latest_body? (Option.mem_toList.mp hbody))
  rw [Option.toList_map, List.map_map]
  exact (Thinned.messages number hall).trans
    (.of_sublist (map_latest_sublist Record.body?_eq_some_iff.mp (fun _ => rfl) rs))

end Collected

/-! ### Messages keep some of their records -/

/-- The message of a type keeps some of the records that it is put together from. -/
lemma TypeRef.thinned_ofRecords (rs : List Record) : Thinned (TypeRef.ofRecords rs).records rs := by
  rw [TypeRef.ofRecords_eq, TypeRef.records]
  exact ((thinned_text 1 rs).first.next (thinned_kind 2 rs)).whole

/-- The message of a modifier keeps some of the records that it is put together from. -/
lemma Modifier.thinned_ofRecords (rs : List Record) :
    Thinned (Modifier.ofRecords rs).records rs := by
  rw [Modifier.ofRecords_eq, Modifier.records]
  exact ((thinned_text 1 rs).first.next (thinned_kind 2 rs)
    |>.next (thinned_texts 3 rs)
    |>.next (thinned_kind 4 rs)
    |>.next (thinned_text 5 rs)).whole

/-- Expressions and variables contain each other, so both are treated at once. -/
lemma thinned_ofRecords_nested (rs : List Record) :
    Thinned (Expression.ofRecords rs).records rs ∧ Thinned (Variable.ofRecords rs).records rs := by
  induction rs using Wire.bodies_induction with
  | h rs ih =>
    constructor
    · rw [Expression.ofRecords_eq, Expression.records_eq]
      exact ((thinned_kind 1 rs).first.next (thinned_text 2 rs)
        |>.next (thinned_text 3 rs)
        |>.next (thinned_text 4 rs)
        |>.next (thinned_messages fun body hbody => (ih 5 body hbody).1)
        |>.next (thinned_messages fun body hbody => (ih 6 body hbody).2)
        |>.next (thinned_flag 7 rs)
        |>.next (thinned_message fun body _ => TypeRef.thinned_ofRecords body)
        |>.next (thinned_messages fun body hbody => (ih 9 body hbody).1)).whole
    · rw [Variable.ofRecords_eq, Variable.records_eq]
      exact ((thinned_text 1 rs).first
        |>.next (thinned_message fun body _ => TypeRef.thinned_ofRecords body)
        |>.next (thinned_message fun body hbody => (ih 3 body hbody).1)
        |>.next (thinned_messages fun body _ => Modifier.thinned_ofRecords body)).whole

/-- The message of an expression keeps some of the records that it is put together from. -/
lemma Expression.thinned_ofRecords (rs : List Record) :
    Thinned (Expression.ofRecords rs).records rs :=
  (thinned_ofRecords_nested rs).1

/-- The message of a variable keeps some of the records that it is put together from. -/
lemma Variable.thinned_ofRecords (rs : List Record) :
    Thinned (Variable.ofRecords rs).records rs :=
  (thinned_ofRecords_nested rs).2

/-- The message of a statement keeps some of the records that it is put together from. -/
lemma Statement.thinned_ofRecords (rs : List Record) :
    Thinned (Statement.ofRecords rs).records rs := by
  induction rs using Wire.bodies_induction with
  | h rs ih =>
    rw [Statement.ofRecords_eq, Statement.records_eq]
    exact ((thinned_kind 1 rs).first
      |>.next (thinned_messages fun body _ => Expression.thinned_ofRecords body)
      |>.next (thinned_message fun body _ => Expression.thinned_ofRecords body)
      |>.next (thinned_messages fun body hbody => ih 4 body hbody)
      |>.next (thinned_messages fun body _ => Expression.thinned_ofRecords body)
      |>.next (thinned_messages fun body _ => Expression.thinned_ofRecords body)).whole

/-- The message of a method keeps some of the records that it is put together from. -/
lemma Method.thinned_ofRecords (rs : List Record) : Thinned (Method.ofRecords rs).records rs := by
  rw [Method.ofRecords_eq, Method.records]
  exact ((thinned_text 1 rs).first
    |>.next (thinned_message fun body _ => TypeRef.thinned_ofRecords body)
    |>.next (thinned_messages fun body _ => Modifier.thinned_ofRecords body)
    |>.next (thinned_messages fun body _ => Variable.thinned_ofRecords body)
    |>.next (thinned_messages fun body _ => Statement.thinned_ofRecords body)
    |>.next (thinned_messages fun body _ => Expression.thinned_ofRecords body)).whole

/-- The message of a declaration keeps some of the records that it is put together from. -/
lemma Declaration.thinned_ofRecords (rs : List Record) :
    Thinned (Declaration.ofRecords rs).records rs := by
  induction rs using Wire.bodies_induction with
  | h rs ih =>
    rw [Declaration.ofRecords_eq, Declaration.records_eq]
    exact ((thinned_text 1 rs).first.next (thinned_kind 2 rs)
      |>.next (thinned_messages fun body _ => Modifier.thinned_ofRecords body)
      |>.next (thinned_messages fun body _ => Variable.thinned_ofRecords body)
      |>.next (thinned_messages fun body _ => Method.thinned_ofRecords body)
      |>.next (thinned_messages fun body _ => TypeRef.thinned_ofRecords body)
      |>.next (thinned_messages fun body hbody => ih 7 body hbody)).whole

/-- The message of a namespace keeps some of the records that it is put together from. -/
lemma Namespace.thinned_ofRecords (rs : List Record) :
    Thinned (Namespace.ofRecords rs).records rs := by
  rw [Namespace.ofRecords_eq, Namespace.records]
  exact ((thinned_text 1 rs).first
    |>.next (thinned_messages fun body _ => Modifier.thinned_ofRecords body)
    |>.next (thinned_messages fun body _ => Declaration.thinned_ofRecords body)).whole

/-- A message, written in canonical form, has some of the records that it was put together
from. -/
theorem Root.thinned_ofRecords (rs : List Record) : Thinned (Root.ofRecords rs).records rs := by
  rw [Root.ofRecords_eq, Root.records]
  exact ((thinned_texts 1 rs).first
    |>.next (thinned_messages fun body _ => Namespace.thinned_ofRecords body)).whole

/-! ### Nodes keep some of the parts of their messages -/

section Members

variable {α β γ : Type} {number : Nat} {R : α → β → Prop} {f : α → List Record}
  {g : γ → List Record} {k : β → γ} {as : List α} {bs : List β}

/-- Members of a list may be thinned one by one. -/
lemma thinned_members (hthin : ∀ a ∈ as, ∀ b, R a b → Thinned (g (k b)) (f a))
    (h : List.Forall₂ R as bs) :
    Thinned ((bs.map k).map fun c => .message number (g c))
      (as.map fun a => .message number (f a)) :=
  .messages number (forall₂_map_right hthin h)

/-- The same for a list that is dropped without a condition. -/
lemma thinned_kept {p : Prop} [Decidable p]
    (hthin : ∀ a ∈ as, ∀ b, R a b → Thinned (g (k b)) (f a))
    (h : if p then List.Forall₂ R as bs else bs = []) :
    Thinned ((bs.map k).map fun c => .message number (g c))
      (as.map fun a => .message number (f a)) := by
  split at h
  · exact thinned_members hthin h
  · rw [h]
    exact .nil _

end Members

/-- A type keeps some of the records of the message that it is rebuilt from. -/
lemma TypeRef.Rebuilds.thinned {m : TypeRef} {t : Arbor.TypeRef} (h : m.Rebuilds t) :
    Thinned t.toMessage.records m.records := by
  have hrecords : t.toMessage.records = m.records := by
    rw [TypeRef.records, TypeRef.records, Arbor.TypeRef.toMessage, h.name, h.kind]
  rw [hrecords]
  exact .refl _

/-- A type that has no message where it may be absent is left out in any case. -/
lemma TypeRef.Rebuilds.thinned_single {number : Nat} {o : Option TypeRef} {t : Arbor.TypeRef}
    (h : (o.getD {}).Rebuilds t) :
    Thinned (t.toMessage?.toList.map fun m => .message number m.records)
      (o.toList.map fun m => .message number m.records) := by
  unfold Arbor.TypeRef.toMessage?
  split
  · exact .nil _
  · next hne =>
    cases o with
    | none =>
      have hdefault : t.toMessage = {} := by
        rw [Arbor.TypeRef.toMessage, h.name, h.kind]
        rfl
      exact absurd (Arbor.TypeRef.toMessage_eq_default_iff.mp hdefault) hne
    | some m => exact .message number h.thinned

/-- A modifier keeps some of the records of the message that it is rebuilt from. -/
lemma Modifier.Rebuilds.thinned {m : Modifier} {n : Arbor.Modifier} (h : m.Rebuilds n) :
    Thinned n.toMessage.records m.records := by
  have hrecords : n.toMessage.records = m.records := by
    rw [Modifier.records, Modifier.records, Arbor.Modifier.toMessage, h.name, h.kind,
      h.membersAndValues, h.visibility, h.other]
  rw [hrecords]
  exact .refl _

/-- An expression that is rebuilt from nothing is the placeholder, which is left out. -/
lemma Expression.thinned_single {number : Nat} {o : Option Expression} {e : Arbor.Expression}
    (hthin : ∀ m ∈ o, ∀ e, m.rebuild.result = .ok e → Thinned e.toMessage.records m.records)
    (h : (Expression.rebuild? o).result = .ok e) :
    Thinned (e.toMessage?.toList.map fun m => .message number m.records)
      (o.toList.map fun m => .message number m.records) := by
  cases o with
  | none =>
    cases h
    exact .nil _
  | some m =>
    unfold Arbor.Expression.toMessage?
    split
    · exact .nil _
    · exact .message number (hthin m rfl e h)

/-- Expressions and variables contain each other, so rebuilding them is followed by one
induction. -/
lemma thinned_rebuild_nested :
    (∀ m : Expression, ∀ e, m.rebuild.result = .ok e → Thinned e.toMessage.records m.records) ∧
      ∀ m : Variable, ∀ v, m.rebuild.result = .ok v → Thinned v.toMessage.records m.records := by
  apply nested_induction
  · intro m iharguments ihdeclared ihoperands e h
    have hm := Expression.rebuild_eq_ok_iff.mp h
    rw [Arbor.Expression.toMessage_eq, Expression.records_eq, Expression.records_eq]
    simp only [hm.kind, hm.literal, hm.methodName, hm.variableName, hm.isPostfix]
    exact (Thinned.refl _).append (thinned_kept iharguments hm.arguments)
      |>.append (thinned_members ihdeclared hm.declared)
      |>.append (.refl _)
      |>.append hm.newType.thinned_single
      |>.append (thinned_members ihoperands hm.operands)
  · intro m ihinitializer v h
    have hm := Variable.rebuild_eq_ok_iff.mp h
    rw [Arbor.Variable.toMessage_eq, Variable.records_eq, Variable.records_eq]
    simp only [hm.name]
    exact (Thinned.refl _).append hm.type.thinned_single
      |>.append (Expression.thinned_single ihinitializer hm.initializer)
      |>.append (thinned_members (fun _ _ _ hn => hn.thinned) hm.modifiers)

/-- An expression keeps some of the records of the message that it is rebuilt from. -/
lemma Expression.thinned_rebuild (m : Expression) (e : Arbor.Expression)
    (h : m.rebuild.result = .ok e) : Thinned e.toMessage.records m.records :=
  thinned_rebuild_nested.1 m e h

/-- A variable keeps some of the records of the message that it is rebuilt from. -/
lemma Variable.thinned_rebuild (m : Variable) (v : Arbor.Variable)
    (h : m.rebuild.result = .ok v) : Thinned v.toMessage.records m.records :=
  thinned_rebuild_nested.2 m v h

/-- A statement keeps some of the records of the message that it is rebuilt from, at every depth. -/
lemma Statement.thinned_rebuild (limits : Limits) (m : Statement) :
    ∀ depth s, (m.rebuild limits depth).result = .ok s →
      Thinned s.toMessage.records m.records := by
  induction m using Statement.nested_induction with
  | hstmt m ih =>
    intro depth s h
    have hm := Statement.rebuild_eq_ok_iff.mp h
    rw [Arbor.Statement.toMessage_eq, Statement.records_eq, Statement.records_eq]
    simp only [hm.kind]
    exact (Thinned.refl _)
      |>.append (thinned_members (fun m' _ => m'.thinned_rebuild) hm.expressions)
      |>.append (Expression.thinned_single (fun m' _ => m'.thinned_rebuild) hm.condition)
      |>.append (thinned_kept (fun m' hm' => ih m' hm' (depth + 1)) hm.statements)
      |>.append (thinned_members (fun m' _ => m'.thinned_rebuild) hm.initializations)
      |>.append (thinned_members (fun m' _ => m'.thinned_rebuild) hm.updates)

/-- A method keeps some of the records of the message that it is rebuilt from. -/
lemma Method.Rebuilds.thinned {limits : Limits} {m : Method} {n : Arbor.Method}
    (h : m.Rebuilds limits n) : Thinned n.toMessage.records m.records := by
  rw [Method.records, Method.records, Arbor.Method.toMessage]
  simp only [h.name]
  exact (Thinned.refl _).append h.returnType.thinned_single
    |>.append (thinned_members (fun _ _ _ hn => hn.thinned) h.modifiers)
    |>.append (thinned_members (fun m' _ => m'.thinned_rebuild) h.arguments)
    |>.append (thinned_members (fun m' _ => m'.thinned_rebuild limits 0) h.statements)
    |>.append (thinned_members (fun m' _ => m'.thinned_rebuild) h.content)

/-- A declaration keeps some of the records of the message that it is rebuilt from, at every
depth. -/
lemma Declaration.thinned_rebuild (limits : Limits) (m : Declaration) :
    ∀ depth d, (m.rebuild limits depth).result = .ok d →
      Thinned d.toMessage.records m.records := by
  induction m using Declaration.nested_induction with
  | hdecl m ih =>
    intro depth d h
    have hm := Declaration.rebuild_eq_ok_iff.mp h
    rw [Arbor.Declaration.toMessage_eq, Declaration.records_eq, Declaration.records_eq]
    simp only [hm.name, hm.kind]
    exact (Thinned.refl _)
      |>.append (thinned_members (fun _ _ _ hn => hn.thinned) hm.modifiers)
      |>.append (thinned_members (fun m' _ => m'.thinned_rebuild) hm.fields)
      |>.append (thinned_members (fun _ _ _ hn => hn.thinned) hm.methods)
      |>.append (thinned_members (fun _ _ _ ht => ht.thinned) hm.parents)
      |>.append (thinned_kept (fun m' hm' => ih m' hm' (depth + 1)) hm.nested)

/-- A namespace keeps some of the records of the message that it is rebuilt from. -/
lemma Namespace.Rebuilds.thinned {limits : Limits} {m : Namespace} {n : Arbor.Namespace}
    (h : m.Rebuilds limits n) : Thinned n.toMessage.records m.records := by
  rw [Namespace.records, Namespace.records, Arbor.Namespace.toMessage]
  simp only [h.name]
  exact (Thinned.refl _)
    |>.append (thinned_members (fun _ _ _ hn => hn.thinned) h.modifiers)
    |>.append (thinned_members (fun m' _ d hd =>
      m'.thinned_rebuild limits 0 d (Declaration.rebuild_eq_ok_iff.mpr hd)) h.declarations)

/-- The canonical records of a tree are thinned from those of the message that it was rebuilt
from. -/
theorem Root.Rebuilds.thinned {limits : Limits} {m : Root} {t : Arbor.Root}
    (h : m.Rebuilds limits t) : Thinned t.toMessage.records m.records := by
  rw [Root.records, Root.records, Arbor.Root.toMessage]
  simp only [h.imports]
  exact (Thinned.refl _).append (thinned_members (fun _ _ _ hn => hn.thinned) h.namespaces)

end Message

/-! ### Converted trees -/

/-- Converting bytes succeeds with the tree that is rebuilt from the message of the decoded
records, if the message has no misfit. -/
lemma Root.ofBytes_eq_ok_iff {limits : Limits} {bytes : Wire.Bytes} {t : Root} :
    (Root.ofBytes limits bytes).result = .ok t ↔
      ∃ rs, Wire.decodeRoot bytes = .ok rs ∧ (Message.Root.ofRecords rs).misfit? = none ∧
        (Message.Root.ofRecords rs).Rebuilds limits t := by
  simp only [← Message.Root.convert_eq_ok_iff]
  unfold Root.ofBytes
  cases Wire.decodeRoot bytes with
  | error fault => simp [Conversion.fail]
  | ok rs => simp

/-- The canonical records of a converted tree are thinned from the decoded ones. -/
lemma Root.exists_thinned_of_ofBytes {limits : Limits} {bytes : Wire.Bytes} {t : Root}
    (h : (Root.ofBytes limits bytes).result = .ok t) :
    ∃ rs, Wire.decodeRoot bytes = .ok rs ∧ Thinned t.toMessage.records rs := by
  obtain ⟨rs, hrs, -, hrebuilds⟩ := Root.ofBytes_eq_ok_iff.mp h
  have hmessage := Message.Root.thinned_ofRecords rs
  exact ⟨rs, hrs, hrebuilds.thinned.trans hmessage⟩

/-- The canonical form of a converted tree takes up no more than the bytes that the tree was
converted from. -/
theorem Root.bounded_of_ofBytes {limits : Limits} {bytes : Wire.Bytes} {t : Root}
    (h : (Root.ofBytes limits bytes).result = .ok t) :
    Wire.Bounded (.outermost bytes) bytes t.toMessage.records := by
  obtain ⟨rs, hrs, hthinned⟩ := Root.exists_thinned_of_ofBytes h
  have hbounded := Wire.decode_bounded hrs (Nat.zero_le _)
  exact hbounded.thinned hthinned

end Arbor
