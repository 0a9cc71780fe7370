import Arbor.Proofs.Clean
import Arbor.Proofs.Reversible
import Arbor.Proofs.Wire.RoundTrip

/-!
# Trees come back from their bytes

The canonical bytes of a tree are the bytes of the records of its message.  The message is
put together again from these records (`ofRecords_records`), and the records belong to the
fields of their message types (`fits_records`), so that the bytes decode to them.

`Root.ofBytes_toBytes`: converting the bytes of a tree gives the tree, if the tree loses
nothing to the limits and its bytes are not nested too deep or too many.
-/

namespace Arbor

open Wire (Record latest)

namespace Message

/-! ### Segments of a message's records

The records of a message are segments put one behind the other, one for each field.  A
search through the records goes through the segments. -/

/-- The records of an expression, field by field. -/
lemma Expression.records_eq (m : Expression) :
    m.records =
      kindRecord 1 m.kind ++ textRecord 2 m.literal ++ textRecord 3 m.methodName ++
        textRecord 4 m.variableName ++ m.arguments.map (fun a => .message 5 a.records) ++
        m.declared.map (fun v => .message 6 v.records) ++ flagRecord 7 m.isPostfix ++
        m.newType.toList.map (fun t => .message 8 t.records) ++
        m.operands.map (fun o => .message 9 o.records) := by
  cases m
  simp only [Expression.records, Expression.recordsAll_eq_map, Variable.recordsAll_eq_map]

/-- The records of a variable, field by field. -/
lemma Variable.records_eq (m : Variable) :
    m.records =
      textRecord 1 m.name ++ m.declaredType.toList.map (fun t => .message 2 t.records) ++
        m.initializer.toList.map (fun e => .message 3 e.records) ++
        m.modifiers.map (fun n => .message 4 n.records) := by
  obtain ⟨name, declaredType, initializer, modifiers, stray⟩ := m
  cases initializer <;> rfl

/-- The records of a statement, field by field. -/
lemma Statement.records_eq (m : Statement) :
    m.records =
      kindRecord 1 m.kind ++ m.expressions.map (fun e => .message 2 e.records) ++
        m.condition.toList.map (fun e => .message 3 e.records) ++
        m.statements.map (fun s => .message 4 s.records) ++
        m.initializations.map (fun e => .message 5 e.records) ++
        m.updates.map (fun e => .message 6 e.records) := by
  cases m
  simp only [Statement.records, Statement.recordsAll_eq_map]

/-- The records of a declaration, field by field. -/
lemma Declaration.records_eq (m : Declaration) :
    m.records =
      textRecord 1 m.name ++ kindRecord 2 m.kind ++
        m.modifiers.map (fun n => .message 3 n.records) ++
        m.fields.map (fun v => .message 4 v.records) ++
        m.methods.map (fun n => .message 5 n.records) ++
        m.parents.map (fun t => .message 6 t.records) ++
        m.nested.map (fun d => .message 7 d.records) := by
  cases m
  simp only [Declaration.records, Declaration.recordsAll_eq_map]

variable {α β : Type} (p : Record → Option α)

/-- A search among the records of a text looks at one record, or at none if the text is empty. -/
@[simp] lemma filterMap_textRecord (number : Nat) (s : String) :
    (textRecord number s).filterMap p = if s = "" then [] else (p (.text number s)).toList := by
  unfold textRecord
  split
  · rfl
  · cases h : p (.text number s) <;> simp [h]

/-- A search among the records of a kind looks at one record, or at none for the kind with number
zero. -/
@[simp] lemma filterMap_kindRecord (number : Nat) (tag : Int) :
    (kindRecord number tag).filterMap p =
      if tag = 0 then [] else (p (.kind number tag)).toList := by
  unfold kindRecord
  split
  · rfl
  · cases h : p (.kind number tag) <;> simp [h]

/-- A search among the records of a flag looks at one record if the flag is set, and at none
otherwise. -/
@[simp] lemma filterMap_flagRecord (number : Nat) (b : Bool) :
    (flagRecord number b).filterMap p = if b then (p (.flag number b)).toList else [] := by
  unfold flagRecord
  split
  · cases h : p (.flag number b) <;> simp [h]
  · rfl

/-- The latest record of a text is its only one, if the text is not empty. -/
@[simp] lemma latest_textRecord (number : Nat) (s : String) :
    latest p (textRecord number s) = if s = "" then none else p (.text number s) := by
  rw [latest, filterMap_textRecord]
  split
  · rfl
  · cases p (.text number s) <;> rfl

/-- The latest record of a kind is its only one, if its number is not zero. -/
@[simp] lemma latest_kindRecord (number : Nat) (tag : Int) :
    latest p (kindRecord number tag) = if tag = 0 then none else p (.kind number tag) := by
  rw [latest, filterMap_kindRecord]
  split
  · rfl
  · cases p (.kind number tag) <;> rfl

/-- The latest record of a flag is its only one, if the flag is set. -/
@[simp] lemma latest_flagRecord (number : Nat) (b : Bool) :
    latest p (flagRecord number b) = if b then p (.flag number b) else none := by
  rw [latest, filterMap_flagRecord]
  split
  · cases p (.flag number b) <;> rfl
  · rfl

/-- There is nothing to be found in a segment of another field. -/
lemma latest_map_eq_none {f : β → Record} (h : ∀ b, p (f b) = none) (bs : List β) :
    latest p (bs.map f) = none := by
  rw [latest, List.filterMap_map, Function.comp_def]
  simp [h]

/-- There is no text among the records of submessages. -/
@[simp] lemma latest_text?_messages (n number : Nat) (f : β → List Record) (bs : List β) :
    latest (Record.text? n) (bs.map fun b => .message number (f b)) = none :=
  latest_map_eq_none _ (fun _ => rfl) bs

/-- There is no kind among the records of submessages. -/
@[simp] lemma latest_kind?_messages (n number : Nat) (f : β → List Record) (bs : List β) :
    latest (Record.kind? n) (bs.map fun b => .message number (f b)) = none :=
  latest_map_eq_none _ (fun _ => rfl) bs

/-- There is no flag among the records of submessages. -/
@[simp] lemma latest_flag?_messages (n number : Nat) (f : β → List Record) (bs : List β) :
    latest (Record.flag? n) (bs.map fun b => .message number (f b)) = none :=
  latest_map_eq_none _ (fun _ => rfl) bs

/-- The segment of a single submessage. -/
@[simp] lemma latest_map_toList (f : β → Record) (o : Option β) :
    latest p (o.toList.map f) = o.bind fun b => p (f b) := by
  cases o with
  | none => rfl
  | some b => cases h : p (f b) <;> simp [latest, h]

/-- An omitted default is what a reader puts in for a missing record. -/
@[simp] lemma getD_ite_default [DecidableEq β] (b default : β) :
    (if b = default then none else some b).getD default = b := by
  split
  · next h => rw [h]; rfl
  · rfl

@[simp] lemma getD_ite_flag (b : Bool) : (if b then some b else none).getD false = b := by
  cases b <;> rfl

/-- A function that changes nothing in an option gives it back. -/
lemma bind_some_eq_self {f : β → β} {o : Option β} (h : ∀ b ∈ o, f b = b) :
    (o.bind fun b => some (f b)) = o := by
  cases o with
  | none => rfl
  | some b => rw [Option.bind_some, h b rfl]

end Message

/-! ### Messages put together again -/

open Message (latest_map_eq_none bind_some_eq_self)

/-- The message of a type, where it may be absent, has what the message of the type has. -/
lemma TypeRef.forall_mem_toMessage? {P : Message.TypeRef → Prop} {t : TypeRef}
    (h : P t.toMessage) : ∀ m ∈ t.toMessage?, P m := by
  unfold TypeRef.toMessage?
  split
  · exact fun m hm => by cases hm
  · exact fun m hm => Option.some.inj hm ▸ h

/-- The message of an expression, where it may be absent, has what the message of the
expression has. -/
lemma Expression.forall_mem_toMessage? {P : Message.Expression → Prop} {e : Expression}
    (h : P e.toMessage) : ∀ m ∈ e.toMessage?, P m := by
  unfold Expression.toMessage?
  split
  · exact fun m hm => by cases hm
  · exact fun m hm => Option.some.inj hm ▸ h

/-- The message of a type is put together again from its records. -/
lemma TypeRef.ofRecords_records (t : TypeRef) :
    Message.TypeRef.ofRecords t.toMessage.records = t.toMessage := by
  rw [Message.TypeRef.ofRecords_eq]
  simp [TypeRef.toMessage, Message.TypeRef.records, Wire.latest_append]

/-- So is the message of a type that may be left out. -/
lemma TypeRef.ofRecords_records_of_mem {t : TypeRef} :
    ∀ m ∈ t.toMessage?, Message.TypeRef.ofRecords m.records = m :=
  TypeRef.forall_mem_toMessage? t.ofRecords_records

/-- The message of a modifier is put together again from its records. -/
lemma Modifier.ofRecords_records (m : Modifier) :
    Message.Modifier.ofRecords m.toMessage.records = m.toMessage := by
  have hmembers : ∀ n, latest (Record.kind? n) (m.membersAndValues.map (.text 3)) = none :=
    fun n => latest_map_eq_none _ (fun _ => rfl) _
  rw [Message.Modifier.ofRecords_eq]
  simp [Modifier.toMessage, Message.Modifier.records, Wire.latest_append, latest_map_eq_none,
    hmembers, Function.comp_def]

/-- Expressions and variables contain each other, so their messages are put together again by one
induction. -/
lemma ofRecords_records_nested :
    (∀ e : Expression, Message.Expression.ofRecords e.toMessage.records = e.toMessage) ∧
      ∀ v : Variable, Message.Variable.ofRecords v.toMessage.records = v.toMessage := by
  apply nested_induction
  · intro e iharguments ihdeclared ihoperands
    rw [Expression.toMessage_eq, Message.Expression.ofRecords_eq, Message.Expression.records_eq]
    simpa [Wire.latest_append, latest_map_eq_none, Function.comp_def,
      bind_some_eq_self TypeRef.ofRecords_records_of_mem] using
      ⟨iharguments, ihdeclared, ihoperands⟩
  · intro v ihinitializer
    have hinitializer : ∀ m ∈ v.initializer.toMessage?,
        Message.Expression.ofRecords m.records = m :=
      Expression.forall_mem_toMessage? ihinitializer
    rw [Variable.toMessage_eq, Message.Variable.ofRecords_eq, Message.Variable.records_eq]
    simp [Wire.latest_append, latest_map_eq_none, Function.comp_def,
      bind_some_eq_self TypeRef.ofRecords_records_of_mem, bind_some_eq_self hinitializer,
      Modifier.ofRecords_records]

/-- The message of an expression is put together again from its records. -/
lemma Expression.ofRecords_records (e : Expression) :
    Message.Expression.ofRecords e.toMessage.records = e.toMessage :=
  ofRecords_records_nested.1 e

/-- So is the message of an expression that may be left out. -/
lemma Expression.ofRecords_records_of_mem {e : Expression} :
    ∀ m ∈ e.toMessage?, Message.Expression.ofRecords m.records = m :=
  Expression.forall_mem_toMessage? e.ofRecords_records

/-- The message of a variable is put together again from its records. -/
lemma Variable.ofRecords_records (v : Variable) :
    Message.Variable.ofRecords v.toMessage.records = v.toMessage :=
  ofRecords_records_nested.2 v

/-- The message of a statement is put together again from its records. -/
lemma Statement.ofRecords_records (s : Statement) :
    Message.Statement.ofRecords s.toMessage.records = s.toMessage := by
  induction s using Statement.nested_induction with
  | hstmt s ih =>
    rw [Statement.toMessage_eq, Message.Statement.ofRecords_eq, Message.Statement.records_eq]
    simpa [Wire.latest_append, latest_map_eq_none, Function.comp_def, Expression.ofRecords_records,
      bind_some_eq_self Expression.ofRecords_records_of_mem] using ih

/-- The message of a method is put together again from its records. -/
lemma Method.ofRecords_records (m : Method) :
    Message.Method.ofRecords m.toMessage.records = m.toMessage := by
  rw [Message.Method.ofRecords_eq]
  simp [Method.toMessage, Message.Method.records, Wire.latest_append, latest_map_eq_none,
    Function.comp_def, bind_some_eq_self TypeRef.ofRecords_records_of_mem,
    Modifier.ofRecords_records, Variable.ofRecords_records, Statement.ofRecords_records,
    Expression.ofRecords_records]

/-- The message of a declaration is put together again from its records. -/
lemma Declaration.ofRecords_records (d : Declaration) :
    Message.Declaration.ofRecords d.toMessage.records = d.toMessage := by
  induction d using Declaration.nested_induction with
  | hdecl d ih =>
    rw [Declaration.toMessage_eq, Message.Declaration.ofRecords_eq,
      Message.Declaration.records_eq]
    simpa [Wire.latest_append, latest_map_eq_none, Function.comp_def,
      Modifier.ofRecords_records, Variable.ofRecords_records, Method.ofRecords_records,
      TypeRef.ofRecords_records] using ih

/-- The message of a namespace is put together again from its records. -/
lemma Namespace.ofRecords_records (n : Namespace) :
    Message.Namespace.ofRecords n.toMessage.records = n.toMessage := by
  rw [Message.Namespace.ofRecords_eq]
  simp [Namespace.toMessage, Message.Namespace.records, Wire.latest_append,
    Function.comp_def, Modifier.ofRecords_records, Declaration.ofRecords_records]

/-- The message of a tree is put together again from its records. -/
lemma Root.ofRecords_records (t : Root) :
    Message.Root.ofRecords t.toMessage.records = t.toMessage := by
  rw [Message.Root.ofRecords_eq]
  simp [Root.toMessage, Message.Root.records, Function.comp_def, Namespace.ofRecords_records]

/-! ### Records that belong to fields -/

namespace Message

open Wire (MessageType)

variable {t u : MessageType} {number : Nat} {name : String}

/-- The records of a text belong to a message type that has a text with this number. -/
lemma forall_textRecord_fits (h : t.field? number = some ⟨number, name, .text⟩) (s : String) :
    ∀ r ∈ textRecord number s, r.Fits t := by
  intro r hr
  unfold textRecord at hr
  split at hr
  · cases hr
  · rw [List.mem_singleton.mp hr]
    exact .text h

/-- The records of a flag belong to a message type that has a flag with this number. -/
lemma forall_flagRecord_fits (h : t.field? number = some ⟨number, name, .flag⟩) (b : Bool) :
    ∀ r ∈ flagRecord number b, r.Fits t := by
  intro r hr
  unfold flagRecord at hr
  split at hr
  · rw [List.mem_singleton.mp hr]
    exact .flag h
  · cases hr

/-- The tags of all kinds are numbers of 32 bits. -/
lemma forall_kindRecord_fits {κ : Type} [Kind κ]
    (h : t.field? number = some ⟨number, name, .kind⟩)
    (hall : ∀ k ∈ (Kind.all : List κ), -0x80000000 ≤ Kind.tag k ∧ Kind.tag k < 0x80000000)
    (k : κ) : ∀ r ∈ kindRecord number (Kind.tag k), r.Fits t := by
  intro r hr
  unfold kindRecord at hr
  split at hr
  · cases hr
  · obtain ⟨hlow, hhigh⟩ := hall k (Kind.mem_all k)
    rw [List.mem_singleton.mp hr]
    exact .kind h hlow hhigh

/-- The records of submessages belong to a field if the records in them do. -/
lemma forall_messages_fit {β : Type} {f : β → List Record}
    (h : t.field? number = some ⟨number, name, .message u⟩) {bs : List β}
    (hbs : ∀ b ∈ bs, ∀ r ∈ f b, r.Fits u) :
    ∀ r ∈ bs.map (fun b => Record.message number (f b)), r.Fits t := by
  rw [List.forall_mem_map]
  exact fun b hb => .message h (hbs b hb)

/-- The same for a submessage that may be absent. -/
lemma forall_message?_fits {β : Type} {f : β → List Record}
    (h : t.field? number = some ⟨number, name, .message u⟩) {o : Option β}
    (ho : ∀ b ∈ o, ∀ r ∈ f b, r.Fits u) :
    ∀ r ∈ o.toList.map (fun b => Record.message number (f b)), r.Fits t :=
  forall_messages_fit h fun b hb => ho b (Option.mem_toList.mp hb)

end Message

open Message (forall_textRecord_fits forall_flagRecord_fits forall_kindRecord_fits
  forall_messages_fit forall_message?_fits)

/-- The records of a type belong to the message type of types. -/
lemma TypeRef.fits_records (t : TypeRef) : ∀ r ∈ t.toMessage.records, r.Fits .typeRef := by
  rw [TypeRef.toMessage, Message.TypeRef.records, List.forall_mem_append]
  exact ⟨forall_textRecord_fits rfl _, forall_kindRecord_fits rfl (by decide) _⟩

/-- The records of a modifier belong to the message type of modifiers. -/
lemma Modifier.fits_records (m : Modifier) : ∀ r ∈ m.toMessage.records, r.Fits .mod := by
  rw [Modifier.toMessage, Message.Modifier.records]
  simp only [List.forall_mem_append, and_assoc]
  refine ⟨forall_textRecord_fits rfl _, forall_kindRecord_fits rfl (by decide) _, ?_,
    forall_kindRecord_fits rfl (by decide) _, forall_textRecord_fits rfl _⟩
  rw [List.forall_mem_map]
  exact fun s _ => .text rfl

/-- So do the records of a type that may be left out. -/
lemma TypeRef.fits_records_of_mem {t : TypeRef} :
    ∀ m ∈ t.toMessage?, ∀ r ∈ m.records, r.Fits .typeRef :=
  TypeRef.forall_mem_toMessage? t.fits_records

/-- The records of expressions and variables belong to their message types, by one induction for
both. -/
lemma fits_records_nested :
    (∀ e : Expression, ∀ r ∈ e.toMessage.records, r.Fits .expr) ∧
      ∀ v : Variable, ∀ r ∈ v.toMessage.records, r.Fits .var := by
  apply nested_induction
  · intro e iharguments ihdeclared ihoperands
    rw [Expression.toMessage_eq, Message.Expression.records_eq]
    simp only [List.forall_mem_append, and_assoc]
    refine ⟨forall_kindRecord_fits rfl (by decide) _, forall_textRecord_fits rfl _,
      forall_textRecord_fits rfl _, forall_textRecord_fits rfl _, forall_messages_fit rfl ?_,
      forall_messages_fit rfl ?_, forall_flagRecord_fits rfl _,
      forall_message?_fits rfl TypeRef.fits_records_of_mem, forall_messages_fit rfl ?_⟩
    · exact List.forall_mem_map.mpr iharguments
    · exact List.forall_mem_map.mpr ihdeclared
    · exact List.forall_mem_map.mpr ihoperands
  · intro v ihinitializer
    rw [Variable.toMessage_eq, Message.Variable.records_eq]
    simp only [List.forall_mem_append, and_assoc]
    exact ⟨forall_textRecord_fits rfl _, forall_message?_fits rfl TypeRef.fits_records_of_mem,
      forall_message?_fits rfl (Expression.forall_mem_toMessage? ihinitializer),
      forall_messages_fit rfl (List.forall_mem_map.mpr fun m _ => m.fits_records)⟩

/-- The records of expressions belong to the fields of an expression. -/
lemma Expression.fits_records_of_map {es : List Expression} :
    ∀ m ∈ es.map Expression.toMessage, ∀ r ∈ m.records, r.Fits .expr :=
  List.forall_mem_map.mpr fun e _ => fits_records_nested.1 e

/-- The records of variables belong to the fields of a variable. -/
lemma Variable.fits_records_of_map {vs : List Variable} :
    ∀ m ∈ vs.map Variable.toMessage, ∀ r ∈ m.records, r.Fits .var :=
  List.forall_mem_map.mpr fun v _ => fits_records_nested.2 v

/-- The records of modifiers belong to the fields of a modifier. -/
lemma Modifier.fits_records_of_map {ms : List Modifier} :
    ∀ m ∈ ms.map Modifier.toMessage, ∀ r ∈ m.records, r.Fits .mod :=
  List.forall_mem_map.mpr fun m _ => m.fits_records

/-- The records of a statement belong to the message type of statements. -/
lemma Statement.fits_records (s : Statement) : ∀ r ∈ s.toMessage.records, r.Fits .stmt := by
  induction s using Statement.nested_induction with
  | hstmt s ih =>
    rw [Statement.toMessage_eq, Message.Statement.records_eq]
    simp only [List.forall_mem_append, and_assoc]
    have hcondition : ∀ m ∈ s.condition.toMessage?, ∀ r ∈ m.records, r.Fits .expr :=
      Expression.forall_mem_toMessage? (fits_records_nested.1 s.condition)
    exact ⟨forall_kindRecord_fits rfl (by decide) _,
      forall_messages_fit rfl Expression.fits_records_of_map,
      forall_message?_fits rfl hcondition,
      forall_messages_fit rfl (List.forall_mem_map.mpr ih),
      forall_messages_fit rfl Expression.fits_records_of_map,
      forall_messages_fit rfl Expression.fits_records_of_map⟩

/-- The records of a method belong to the message type of methods. -/
lemma Method.fits_records (m : Method) : ∀ r ∈ m.toMessage.records, r.Fits .method := by
  rw [Method.toMessage, Message.Method.records]
  simp only [List.forall_mem_append, and_assoc]
  exact ⟨forall_textRecord_fits rfl _, forall_message?_fits rfl TypeRef.fits_records_of_mem,
    forall_messages_fit rfl Modifier.fits_records_of_map,
    forall_messages_fit rfl Variable.fits_records_of_map,
    forall_messages_fit rfl (List.forall_mem_map.mpr fun s _ => s.fits_records),
    forall_messages_fit rfl Expression.fits_records_of_map⟩

/-- The records of a declaration belong to the message type of declarations. -/
lemma Declaration.fits_records (d : Declaration) : ∀ r ∈ d.toMessage.records, r.Fits .decl := by
  induction d using Declaration.nested_induction with
  | hdecl d ih =>
    rw [Declaration.toMessage_eq, Message.Declaration.records_eq]
    simp only [List.forall_mem_append, and_assoc]
    exact ⟨forall_textRecord_fits rfl _, forall_kindRecord_fits rfl (by decide) _,
      forall_messages_fit rfl Modifier.fits_records_of_map,
      forall_messages_fit rfl Variable.fits_records_of_map,
      forall_messages_fit rfl (List.forall_mem_map.mpr fun m _ => m.fits_records),
      forall_messages_fit rfl (List.forall_mem_map.mpr fun t _ => t.fits_records),
      forall_messages_fit rfl (List.forall_mem_map.mpr ih)⟩

/-- The records of a namespace belong to the message type of namespaces. -/
lemma Namespace.fits_records (n : Namespace) : ∀ r ∈ n.toMessage.records, r.Fits .ns := by
  rw [Namespace.toMessage, Message.Namespace.records]
  simp only [List.forall_mem_append, and_assoc]
  exact ⟨forall_textRecord_fits rfl _, forall_messages_fit rfl Modifier.fits_records_of_map,
    forall_messages_fit rfl (List.forall_mem_map.mpr fun d _ => d.fits_records)⟩

/-- The records of a tree belong to the fields of a source file. -/
lemma Root.fits_records (t : Root) : ∀ r ∈ t.toMessage.records, r.Fits .root := by
  rw [Root.toMessage, Message.Root.records]
  rw [List.forall_mem_append, List.forall_mem_map]
  exact ⟨fun s _ => .text rfl,
    forall_messages_fit rfl (List.forall_mem_map.mpr fun n _ => n.fits_records)⟩

/-- Records that belong to fields leave no misfit. -/
lemma Wire.clean_of_fits (rs : List Record) : ∀ t, (∀ r ∈ rs, r.Fits t) → Wire.Clean t rs := by
  induction rs using Wire.bodies_induction with
  | h rs ih =>
    intro t hfits
    refine .intro ?_ ?_
    · intro n hn
      cases hfits _ (Wire.mem_filterMap_stray?.mp hn)
    · intro field hfield u htype body hbody
      have hmem := Wire.mem_of_kept hbody
      apply ih field.number body hmem
      cases hfits _ hmem with
      | @message _ v _ name _ hfield' hrecords =>
        rw [Wire.MessageType.field?_number hfield, Option.some.injEq] at hfield'
        have hv : Wire.FieldType.message u = .message v := by rw [← htype, hfield']
        cases hv
        exact hrecords

/-! ### Bytes -/

/-- The canonical bytes of a tree decode to the records of its message, if positions fit 64 bits
and the lengths of texts fit 32. -/
lemma Root.decodeRoot_toBytes_of_longest {t : Root}
    (hnesting : Wire.nesting t.toMessage.records ≤ Wire.maxLevel)
    (hlength : t.toBytes.length < 0x10000000000000000)
    (hlongest : Wire.longest t.toMessage.records < 0x100000000) :
    Wire.decodeRoot t.toBytes = .ok t.toMessage.records := by
  apply Wire.decode_encode _ _ _ t.fits_records
  · simpa [Wire.Frame.outermost] using hnesting
  · exact Nat.le_refl _
  · exact hlength
  · exact hlongest

/-- The canonical bytes of a tree decode to the records of its message, if they are fewer than
2³¹. -/
lemma Root.decodeRoot_toBytes {t : Root}
    (hnesting : Wire.nesting t.toMessage.records ≤ Wire.maxLevel)
    (hlength : t.toBytes.length < 0x80000000) :
    Wire.decodeRoot t.toBytes = .ok t.toMessage.records := by
  have hlongest : Wire.longest t.toMessage.records ≤ t.toBytes.length :=
    Wire.longest_le_length_encode _
  exact Root.decodeRoot_toBytes_of_longest hnesting (by omega) (by omega)

/-- A tree comes back from its bytes.  It must lose nothing to the limits and have
arguments on method calls only; its messages must not be nested deeper than a decoder
goes, and its bytes must be fewer than 2³¹. -/
theorem Root.ofBytes_toBytes (limits : Limits) (t : Root) (hwithin : t.within limits = true)
    (hcalls : t.argumentsOnCalls = true)
    (hnesting : Wire.nesting t.toMessage.records ≤ Wire.maxLevel)
    (hlength : t.toBytes.length < 0x80000000) :
    (Root.ofBytes limits t.toBytes).result = .ok t := by
  -- That there is no misfit is read off the records: none of them is a stray.
  have hmisfit : t.toMessage.misfit? = none := by
    rw [← t.ofRecords_records, Message.Root.misfit?_ofRecords]
    exact Wire.clean_of_fits _ _ t.fits_records
  rw [Root.ofBytes, Root.decodeRoot_toBytes hnesting hlength]
  simp only [Root.ofRecords_records]
  exact Message.Root.convert_eq_ok_iff.mpr ⟨hmisfit, Root.rebuilds_toMessage hwithin hcalls⟩

/-- A tree whose statements and declarations are nested one level deep, with texts, kinds, a
flag, single children and lists of all types. -/
def Root.nestedOnce : Root where
  imports := ["a.b"]
  namespaces := [
    { name := "p",
      modifiers := [{ name := "m", kind := .annotated, membersAndValues := ["", "k"],
                      visibility := .everywhere, other := "o" }],
      declarations := [
        { name := "C", kind := .classType,
          fields := [{ name := "f", type := { name := "T", kind := .interfaceType },
                       initializer := { kind := .new, newType := { name := "T" } } }],
          methods := [
            { name := "g",
              statements := [
                { kind := .forLoop,
                  condition := { kind := .methodCall, methodName := "h",
                                 arguments := [.placeholder] },
                  statements := [
                    { kind := .expression,
                      updates := [{ kind := .assign, isPostfix := true }] }] }] }],
          parents := [{}],
          nested := [{ name := "D" }] }] }]

/-- A tree with one level of nesting comes back under limits that keep one level. -/
theorem Root.ofBytes_toBytes_nestedOnce :
    let limits : Limits := { statements := some 1, declarations := some 1 }
    nestedOnce.within limits = true ∧ nestedOnce.argumentsOnCalls = true ∧
      Wire.nesting nestedOnce.toMessage.records ≤ Wire.maxLevel ∧
      nestedOnce.toBytes.length < 0x80000000 ∧
      (Root.ofBytes limits nestedOnce.toBytes).result = .ok nestedOnce := by
  have hnesting : Wire.nesting nestedOnce.toMessage.records ≤ Wire.maxLevel := by
    decide +kernel
  have hlength : nestedOnce.toBytes.length < 0x80000000 := by
    decide +kernel
  exact ⟨by decide, by decide, hnesting, hlength,
    ofBytes_toBytes _ nestedOnce (by decide) (by decide) hnesting hlength⟩

end Arbor
