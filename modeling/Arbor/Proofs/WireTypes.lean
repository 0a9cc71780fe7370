import Arbor.Proofs.Clean
import Arbor.Proofs.Failures
import Arbor.Proofs.Wire.Layout

/-!
# Which mistyped records are noticed

A record with the number of a field but another wire type should not pass.  It is looked
for in the message, after decoding, and two kinds of record are gone by then: groups leave
nothing behind, and a single submessage disappears with everything in it when a later one
replaces it.

`Root.wrongWireType_iff_occurs` says that all other mistyped records are noticed, at any
depth and whatever the limits cut off, and that nothing else is.
-/

namespace Arbor

namespace Wire

/-! ### Places of records and pieces -/

/-- A record comes from a piece, and the records behind it come from the pieces behind
that. -/
lemma ReadAll.exists_piece {t : MessageType} {pieces : List Piece} {before behind : List Record}
    {r : Record} (h : ReadAll t pieces (before ++ r :: behind)) :
    ∃ before' piece behind', pieces = before' ++ piece :: behind' ∧ piece.ReadAs t r ∧
      ReadAll t behind' behind := by
  generalize hrs : before ++ r :: behind = rs at h
  induction h generalizing before with
  | nil => simp at hrs
  | @group piece pieces rs hgroup _ ih =>
    obtain ⟨before', piece', behind', rfl, hread, hbehind⟩ := ih hrs
    exact ⟨piece :: before', piece', behind', rfl, hread, hbehind⟩
  | @record piece pieces r' rs hr' hrest ih =>
    cases before with
    | nil =>
      cases hrs
      exact ⟨[], piece, pieces, rfl, hr', hrest⟩
    | cons r₀ before =>
      cases hrs
      obtain ⟨before', piece', behind', rfl, hread, hbehind⟩ := ih rfl
      exact ⟨piece :: before', piece', behind', rfl, hread, hbehind⟩

/-- A piece other than a group is read as a record, and the pieces behind it are read as the
records behind that. -/
lemma ReadAll.exists_record {t : MessageType} {before behind : List Piece} {piece : Piece}
    {rs : List Record} (h : ReadAll t (before ++ piece :: behind) rs)
    (hgroup : piece.wireType ≠ .groupStart) :
    ∃ before' r behind', rs = before' ++ r :: behind' ∧ piece.ReadAs t r ∧
      ReadAll t behind behind' := by
  induction before generalizing rs with
  | nil =>
    cases h with
    | group hgroup' _ => exact absurd hgroup' hgroup
    | @record _ _ r rs hr hrest => exact ⟨[], r, rs, rfl, hr, hrest⟩
  | cons piece₀ before ih =>
    cases h with
    | group _ hrest => exact ih hrest
    | @record _ _ r₀ rs _ hrest =>
      obtain ⟨before', r, behind', rfl, hr, hbehind⟩ := ih hrest
      exact ⟨r₀ :: before', r, behind', rfl, hr, hbehind⟩

/-- A delimited piece with the number of a message field is read as that message. -/
lemma Piece.ReadAs.exists_body {t u : MessageType} {piece : Piece} {r : Record} {field : Field}
    (h : piece.ReadAs t r) (hfield : t.field? piece.number = some field)
    (htype : field.type = .message u) (hwire : piece.wireType = .delimited) :
    ∃ f body, r = .message piece.number body ∧ decode u f piece.content = .ok body := by
  cases h with
  | stray _ hmismatch =>
    have hne := hmismatch field hfield
    rw [htype, hwire] at hne
    exact absurd rfl hne
  | scalar hfield' _ hscalar _ =>
    rw [hfield] at hfield'
    cases hfield'
    exact absurd htype (hscalar u)
  | @message field' u' f body hfield' htype' _ hbody =>
    rw [hfield] at hfield'
    cases hfield'
    rw [htype] at htype'
    cases htype'
    exact ⟨f, body, rfl, hbody⟩

/-- Only a delimited piece with the number of a message field is read as a message. -/
lemma Piece.ReadAs.of_message {t : MessageType} {piece : Piece} {number : Nat}
    {body : List Record} (h : piece.ReadAs t (.message number body)) :
    piece.number = number ∧ piece.wireType = .delimited ∧
      ∃ field u f, t.field? number = some field ∧ field.type = .message u ∧
        decode u f piece.content = .ok body := by
  cases h with
  | scalar _ _ _ hscalar => cases hscalar
  | message hfield htype hwire hbody => exact ⟨rfl, hwire, _, _, _, hfield, htype, hbody⟩

/-- Only a piece that fits no field is read as a stray. -/
lemma Piece.ReadAs.of_stray {t : MessageType} {piece : Piece} {number : Nat}
    (h : piece.ReadAs t (.stray number)) :
    piece.number = number ∧ piece.wireType ≠ .groupStart ∧
      ∀ field, t.field? number = some field → field.type.wireType ≠ piece.wireType := by
  cases h with
  | stray hgroup hmismatch => exact ⟨rfl, hgroup, hmismatch⟩
  | scalar _ _ _ hscalar => cases hscalar

/-- A submessage is replaced by the pieces behind it exactly if there is a later message
under its number and the field is single. -/
lemma replaced_eq_false_iff {t u : MessageType} {number : Nat} {field : Field}
    {behind : List Piece} {rs : List Record} (h : ReadAll t behind rs)
    (hfield : t.field? number = some field) (htype : field.type = .message u) :
    t.replaced number behind = false ↔
      (t.single number = true → ∀ body, .message number body ∉ rs) := by
  rw [MessageType.replaced, Bool.and_eq_false_imp]
  refine forall_congr' fun _ => ?_
  rw [List.any_eq_false]
  constructor
  · intro hnone body hmem
    obtain ⟨before, after, rfl⟩ := List.mem_iff_append.mp hmem
    obtain ⟨before', piece, behind', rfl, hread, -⟩ := h.exists_piece
    obtain ⟨hnumber, hwire, -⟩ := hread.of_message
    refine hnone piece (by simp) ?_
    rw [hnumber, hwire]
    simp
  · intro hnone piece hmem hpiece
    rw [Bool.and_eq_true, beq_iff_eq, beq_iff_eq] at hpiece
    obtain ⟨rfl, hwire⟩ := hpiece
    obtain ⟨before, after, rfl⟩ := List.mem_iff_append.mp hmem
    obtain ⟨before', r, behind', rfl, hread, -⟩ := h.exists_record (by rw [hwire]; decide)
    obtain ⟨f, body, rfl, -⟩ := hread.exists_body hfield htype hwire
    exact hnone body (by simp)

/-! ### Clean records and mistyped pieces -/

/-- Among clean records, a mistyped piece that is not lost is a group. -/
lemma Occurs.groupStart_of_clean {t u : MessageType} {bytes : Bytes} {lost : Bool}
    {piece : Piece} (hoccurs : Occurs t bytes lost u piece) :
    ∀ f rs, decode t f bytes = .ok rs → Clean t rs → lost = false → piece.Mistyped u →
      piece.wireType = .groupStart := by
  induction hoccurs with
  | @here t bytes pieces piece hlayout hmem =>
    rintro f rs hdecode hclean - ⟨field, hfield, hne⟩
    obtain ⟨pieces', hlayout', hread⟩ := exists_layout_of_decode hdecode
    cases hlayout.unique hlayout'
    by_cases hgroup : piece.wireType = .groupStart
    · exact hgroup
    -- Any other piece has left a record, and a mistyped one can only have left a stray.
    obtain ⟨before, behind, rfl⟩ := List.mem_iff_append.mp hmem
    obtain ⟨before', r, behind', rfl, hr, -⟩ := hread.exists_record hgroup
    cases hr with
    | stray _ _ =>
      have hnone := (clean_iff.mp hclean).1 piece.number (by simp)
      rw [hfield] at hnone
      cases hnone
    | scalar hfield' hwire _ _ =>
      rw [hfield] at hfield'
      cases hfield'
      exact absurd hwire hne
    | message hfield' htype hwire _ =>
      rw [hfield] at hfield'
      cases hfield'
      rw [htype, hwire] at hne
      exact absurd rfl hne
  | @inside t u v bytes before behind outer inner field lost hlayout hfield htype hwire _ ih =>
    intro f rs hdecode hclean hlost hmistyped
    obtain ⟨hlost, hreplaced⟩ := Bool.or_eq_false_iff.mp hlost
    obtain ⟨pieces', hlayout', hread⟩ := exists_layout_of_decode hdecode
    cases hlayout.unique hlayout'
    obtain ⟨before', r, behind', rfl, hr, hbehind⟩ := hread.exists_record (by rw [hwire]; decide)
    obtain ⟨f', body, rfl, hbody⟩ := hr.exists_body hfield htype hwire
    -- Since it is not replaced, the message around the piece is kept, and so it is clean.
    have hkept : body ∈ kept t outer.number (before' ++ .message outer.number body :: behind') :=
      mem_kept_iff.mpr ⟨before', behind', rfl,
        (replaced_eq_false_iff hbehind hfield htype).mp hreplaced⟩
    have hinner : Clean u body := (clean_iff.mp hclean).2 field
      (List.mem_of_find?_eq_some hfield) u htype body
      (by rw [MessageType.number_of_field? hfield]; exact hkept)
    exact ih f' body hbody hinner hlost hmistyped

/-- If all mistyped pieces are groups or lost, the records are clean. -/
lemma clean_of_occurs (rs : List Record) : ∀ t f bytes, decode t f bytes = .ok rs →
    (∀ u piece, Occurs t bytes false u piece → piece.Mistyped u →
      piece.wireType = .groupStart) → Clean t rs := by
  induction rs using bodies_induction with
  | h rs ih =>
    intro t f bytes hdecode hgroups
    obtain ⟨pieces, hlayout, hread⟩ := exists_layout_of_decode hdecode
    refine .intro ?_ ?_
    · intro n hn
      obtain ⟨before, behind, rfl⟩ := List.mem_iff_append.mp (mem_filterMap_stray?.mp hn)
      obtain ⟨before', piece, behind', rfl, hreadAs, -⟩ := hread.exists_piece
      obtain ⟨rfl, hgroup, hmismatch⟩ := hreadAs.of_stray
      cases hfield : t.field? piece.number with
      | none => rfl
      | some field =>
        have hoccurs : Occurs t bytes false t piece := .here hlayout (by simp)
        have hmistyped : piece.Mistyped t := ⟨field, hfield, hmismatch field hfield⟩
        exact absurd (hgroups t piece hoccurs hmistyped) hgroup
    · intro field hfield u htype body hbody
      obtain ⟨before, behind, rfl, hlast⟩ := mem_kept_iff.mp hbody
      obtain ⟨before', piece, behind', rfl, hreadAs, hbehind⟩ := hread.exists_piece
      obtain ⟨hnumber, hwire, field', u', f', hfield', htype', hdecode'⟩ := hreadAs.of_message
      have hsame := MessageType.field?_number hfield
      rw [hfield'] at hsame
      cases hsame
      rw [htype] at htype'
      cases htype'
      refine ih field.number body (by simp) u f' piece.content hdecode' ?_
      intro v inner hinner hmistyped
      -- What occurs in a message that is kept occurs, and is not lost, in the whole.
      have hreplaced : t.replaced field.number behind' = false :=
        (replaced_eq_false_iff hbehind hfield' htype).mpr hlast
      have houter := Occurs.inside hlayout (hnumber ▸ hfield') htype hwire hinner
      rw [hnumber, hreplaced] at houter
      exact hgroups v inner houter hmistyped

/-- Decoded records are clean exactly if all mistyped pieces are groups or lost. -/
theorem clean_iff_occurs {t : MessageType} {f : Frame} {bytes : Bytes} {rs : List Record}
    (h : decode t f bytes = .ok rs) :
    Clean t rs ↔ ∀ u piece, Occurs t bytes false u piece → piece.Mistyped u →
      piece.wireType = .groupStart := by
  constructor
  · intro hclean u piece hoccurs
    exact hoccurs.groupStart_of_clean f rs h hclean rfl
  · exact clean_of_occurs rs t f bytes h

end Wire

/-! ### Conversion -/

/-- Conversion ends with a wrong wire type exactly if the bytes can be decoded, but not to
clean records. -/
lemma Root.ofBytes_eq_wrongWireType_iff {limits : Limits} {bytes : Wire.Bytes} :
    (∃ misfit, (Root.ofBytes limits bytes).result = .error (.wrongWireType misfit)) ↔
      ∃ rs, Wire.decodeRoot bytes = .ok rs ∧ ¬ Wire.Clean .root rs := by
  unfold Root.ofBytes
  cases hdecode : Wire.decodeRoot bytes with
  | error fault =>
    constructor
    · rintro ⟨misfit, h⟩
      cases h
    · rintro ⟨rs, h, -⟩
      cases h
  | ok rs =>
    simp only
    rw [Message.Root.convert_eq_wrongWireType_iff, ne_eq, Message.Root.misfit?_ofRecords]
    constructor
    · exact fun h => ⟨rs, rfl, h⟩
    · rintro ⟨rs', h, hclean⟩
      cases h
      exact hclean

/-- What gives a tree is decoded to clean records. -/
lemma Root.clean_of_ofBytes_eq_ok {limits : Limits} {bytes : Wire.Bytes} {tree : Root}
    (h : (Root.ofBytes limits bytes).result = .ok tree) :
    ∃ rs, Wire.decodeRoot bytes = .ok rs ∧ Wire.Clean .root rs := by
  unfold Root.ofBytes at h
  split at h
  · cases h
  · next rs hdecode =>
    obtain ⟨hmisfit, -⟩ := Message.Root.convert_eq_ok_iff.mp h
    exact ⟨rs, hdecode, (Message.Root.misfit?_ofRecords rs).mp hmisfit⟩

/-- Data that can be decoded is refused for a wrong wire type exactly if some record in it,
at any depth, has the number of a field and another wire type, is no group, and is not in a
message that a later one replaces.  So data that gives a tree hides mistyped groups and
mistyped records in replaced messages, and no others. -/
theorem Root.wrongWireType_iff_occurs (limits : Limits) (bytes : Wire.Bytes) :
    ((∃ misfit, (Root.ofBytes limits bytes).result = .error (.wrongWireType misfit)) ↔
      (∃ rs, Wire.decodeRoot bytes = .ok rs) ∧
        ∃ t piece, Wire.Occurs .root bytes false t piece ∧ piece.Mistyped t ∧
          piece.wireType ≠ .groupStart) ∧
      ∀ tree, (Root.ofBytes limits bytes).result = .ok tree →
        ∀ lost t piece, Wire.Occurs .root bytes lost t piece → piece.Mistyped t →
          piece.wireType = .groupStart ∨ lost = true := by
  constructor
  · rw [Root.ofBytes_eq_wrongWireType_iff]
    constructor
    · rintro ⟨rs, hdecode, hclean⟩
      rw [Wire.clean_iff_occurs hdecode] at hclean
      simp only [Classical.not_forall] at hclean
      obtain ⟨t, piece, hoccurs, hmistyped, hgroup⟩ := hclean
      exact ⟨⟨rs, hdecode⟩, t, piece, hoccurs, hmistyped, hgroup⟩
    · rintro ⟨⟨rs, hdecode⟩, t, piece, hoccurs, hmistyped, hgroup⟩
      refine ⟨rs, hdecode, fun hclean => hgroup ?_⟩
      exact (Wire.clean_iff_occurs hdecode).mp hclean t piece hoccurs hmistyped
  · intro tree htree lost t piece hoccurs hmistyped
    obtain ⟨rs, hdecode, hclean⟩ := Root.clean_of_ofBytes_eq_ok htree
    cases lost with
    | true => exact .inr rfl
    | false => exact .inl ((Wire.clean_iff_occurs hdecode).mp hclean t piece hoccurs hmistyped)

/-- A group with the number of the imports, which are texts. -/
def Root.groupForImport : Wire.Bytes :=
  [0x0b, 0x0c]

/-- A field with two initializers.  The literal of the first is a number, not a text. -/
def Root.replacedInitializer : Wire.Bytes :=
  [0x12, 0x0a, 0x1a, 0x08, 0x22, 0x06, 0x1a, 0x02, 0x10, 0x01, 0x1a, 0x00]

/-- Data that gives a tree although a record in it is mistyped: a group, and a record in a
message that is replaced. -/
theorem Root.ofBytes_hides_mistyped :
    (∃ tree, (Root.ofBytes {} groupForImport).result = .ok tree) ∧
      (Wire.Occurs .root groupForImport false .root ⟨1, .groupStart, []⟩ ∧
        Wire.Piece.Mistyped .root ⟨1, .groupStart, []⟩) ∧
      (∃ tree, (Root.ofBytes {} replacedInitializer).result = .ok tree) ∧
      Wire.Occurs .root replacedInitializer true .expr ⟨2, .varint, []⟩ ∧
      Wire.Piece.Mistyped .expr ⟨2, .varint, []⟩ := by
  have htree : ∀ x : Except ConvertError Root, x.toBool = true → ∃ tree, x = .ok tree := by
    intro x hx
    cases x with
    | error e => cases hx
    | ok tree => exact ⟨tree, rfl⟩
  have hgroup : Wire.cutPiece groupForImport = .ok (⟨1, .groupStart, []⟩, []) := by
    have hskip : Wire.skipGroup { stop := 0 } 0 [0x0c] = .ok [] := by
      rw [Wire.skipGroup_eq]
      rfl
    show ((Wire.skipGroup _ 0 [0x0c]).map _).map _ = _
    rw [hskip]
    rfl
  have hexpr : Wire.Occurs .expr [0x10, 0x01] false .expr ⟨2, .varint, []⟩ :=
    .here (.cons rfl .nil) List.mem_cons_self
  have hvar := Wire.Occurs.inside
    (show Wire.Layout [0x1a, 0x02, 0x10, 0x01, 0x1a, 0x00]
        ([] ++ ⟨3, .delimited, [0x10, 0x01]⟩ :: [⟨3, .delimited, []⟩]) from
      .cons rfl (.cons rfl .nil))
    (show Wire.MessageType.var.field? 3 = some _ from rfl) rfl rfl hexpr
  have hdecl := Wire.Occurs.inside
    (show Wire.Layout [0x22, 0x06, 0x1a, 0x02, 0x10, 0x01, 0x1a, 0x00]
        ([] ++ ⟨4, .delimited, [0x1a, 0x02, 0x10, 0x01, 0x1a, 0x00]⟩ :: []) from .cons rfl .nil)
    (show Wire.MessageType.decl.field? 4 = some _ from rfl) rfl rfl hvar
  have hns := Wire.Occurs.inside
    (show Wire.Layout [0x1a, 0x08, 0x22, 0x06, 0x1a, 0x02, 0x10, 0x01, 0x1a, 0x00]
        ([] ++ ⟨3, .delimited, [0x22, 0x06, 0x1a, 0x02, 0x10, 0x01, 0x1a, 0x00]⟩ :: []) from
      .cons rfl .nil)
    (show Wire.MessageType.ns.field? 3 = some _ from rfl) rfl rfl hdecl
  have hroot := Wire.Occurs.inside
    (show Wire.Layout replacedInitializer
        ([] ++ ⟨2, .delimited, [0x1a, 0x08, 0x22, 0x06, 0x1a, 0x02, 0x10, 0x01, 0x1a, 0x00]⟩ :: [])
      from .cons rfl .nil)
    (show Wire.MessageType.root.field? 2 = some _ from rfl) rfl rfl hns
  refine ⟨htree _ (by decide +kernel), ⟨.here (.cons hgroup .nil) List.mem_cons_self, ?_⟩,
    htree _ (by decide +kernel), hroot, ?_⟩
  · exact ⟨_, rfl, by decide⟩
  · exact ⟨_, rfl, by decide⟩

end Arbor
