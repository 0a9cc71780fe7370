import Arbor.Proofs.Wire.Decoding

/-!
# Bytes as sequences of records

A byte string can be cut into records without knowing what the records mean: the tag says
how to find the end of the value.  A `Piece` is such a record, and `Layout` lays a byte
string out as a list of pieces.  The content of a piece is laid out in turn if the piece
belongs to a field that holds a message; `Occurs` follows such fields to any depth.

Nothing here looks at where a message has to end or at what a value says.  That a decoder
goes through the same pieces is `exists_layout_of_decode`: each piece is read as one record
(`Piece.ReadAs`), and groups are passed over (`ReadAll`).
-/

namespace Arbor.Wire

/-! ### Pieces -/

/-- A record as it stands in the bytes.  Only delimited values have a content of their
own. -/
structure Piece where
  number : Nat
  wireType : WireType
  content : Bytes
  deriving DecidableEq

/-- The content of a value and what comes behind the value.  The content of a delimited
value is what is there of it. -/
def cutValue : WireType → Bytes → Except Fault (Bytes × Bytes)
  | .varint, bytes => (readVarint64 bytes).map fun r => ([], r.2)
  | .fixed64, bytes => (skipBytes 8 bytes).map fun rest => ([], rest)
  | .delimited, bytes => (readVarint64 bytes).map fun r => (r.2.take r.1, r.2.drop r.1)
  | .groupStart, bytes => (skipGroup { stop := 0 } 0 bytes).map fun rest => ([], rest)
  | .groupEnd, _ => .error .unexpectedWireType
  | .fixed32, bytes => (skipBytes 4 bytes).map fun rest => ([], rest)

/-- The first piece of a byte string and what comes behind it. -/
def cutPiece (bytes : Bytes) : Except Fault (Piece × Bytes) :=
  match readTag bytes with
  | .error e => .error e
  | .ok ((number, w), rest) => (cutValue w rest).map fun v => (⟨number, w, v.1⟩, v.2)

/-- A byte string consists of the given pieces, in order. -/
inductive Layout : Bytes → List Piece → Prop where
  | nil : Layout [] []
  | cons {bytes rest : Bytes} {piece : Piece} {pieces : List Piece} :
      cutPiece bytes = .ok (piece, rest) → Layout rest pieces → Layout bytes (piece :: pieces)

/-- Content and rest of a value are parts of the bytes. -/
lemma length_le_of_cutValue {w : WireType} {bytes content rest : Bytes}
    (h : cutValue w bytes = .ok (content, rest)) :
    content.length + rest.length ≤ bytes.length := by
  unfold cutValue at h
  split at h
  · obtain ⟨⟨n, rest'⟩, hr, heq⟩ := exists_of_map_eq_ok h
    cases heq
    have hlt := length_lt_of_readVarint64 hr
    simp only [List.length_nil]
    omega
  · obtain ⟨rest', hr, heq⟩ := exists_of_map_eq_ok h
    cases heq
    simpa using length_le_of_skipBytes hr
  · obtain ⟨⟨n, rest'⟩, hr, heq⟩ := exists_of_map_eq_ok h
    cases heq
    have hlt := length_lt_of_readVarint64 hr
    simp only [List.length_take, List.length_drop]
    omega
  · obtain ⟨rest', hr, heq⟩ := exists_of_map_eq_ok h
    cases heq
    have hlt := length_lt_of_skipGroup hr
    simp only [List.length_nil]
    omega
  · cases h
  · obtain ⟨rest', hr, heq⟩ := exists_of_map_eq_ok h
    cases heq
    simpa using length_le_of_skipBytes hr

/-- A tag takes up some of the bytes, so content and rest of a piece are shorter than the
whole. -/
lemma length_lt_of_cutPiece {bytes rest : Bytes} {piece : Piece}
    (h : cutPiece bytes = .ok (piece, rest)) :
    piece.content.length + rest.length < bytes.length := by
  unfold cutPiece at h
  split at h
  · cases h
  · next number w rest' htag =>
    obtain ⟨⟨content, rest''⟩, hv, heq⟩ := exists_of_map_eq_ok h
    cases heq
    have hlt := length_lt_of_readTag htag
    have hle := length_le_of_cutValue hv
    exact Nat.lt_of_le_of_lt hle hlt

/-- A piece is a tag and the value behind it. -/
lemma cutPiece_of_readTag {bytes rest content rest' : Bytes} {number : Nat} {w : WireType}
    (htag : readTag bytes = .ok ((number, w), rest))
    (hcut : cutValue w rest = .ok (content, rest')) :
    cutPiece bytes = .ok (⟨number, w, content⟩, rest') := by
  rw [cutPiece, htag]
  simp only [hcut]
  rfl

/-- Where a piece is cut off, there were bytes. -/
lemma ne_nil_of_cutPiece {bytes rest : Bytes} {piece : Piece}
    (h : cutPiece bytes = .ok (piece, rest)) : bytes ≠ [] := by
  rintro rfl
  exact absurd (length_lt_of_cutPiece h) (Nat.not_lt_zero _)

/-- A byte string has one layout at most. -/
lemma Layout.unique {bytes : Bytes} {pieces pieces' : List Piece} (h : Layout bytes pieces)
    (h' : Layout bytes pieces') : pieces = pieces' := by
  induction h generalizing pieces' with
  | nil =>
    cases h' with
    | nil => rfl
    | cons hcut _ => exact absurd rfl (ne_nil_of_cutPiece hcut)
  | cons hcut _ ih =>
    cases h' with
    | nil => exact absurd rfl (ne_nil_of_cutPiece hcut)
    | cons hcut' hrest' =>
      rw [hcut] at hcut'
      cases hcut'
      rw [ih hrest']

/-! ### Occurrences -/

/-- Whether a piece has the number of a field, but not the wire type of what the field
holds. -/
def Piece.Mistyped (t : MessageType) (piece : Piece) : Prop :=
  ∃ field, t.field? piece.number = some field ∧ field.type.wireType ≠ piece.wireType

/-- Whether a submessage under the given number is replaced by one of the pieces behind
it. -/
def MessageType.replaced (t : MessageType) (number : Nat) (behind : List Piece) : Bool :=
  t.single number &&
    behind.any fun piece => piece.number == number && piece.wireType == .delimited

/-- `Occurs t bytes lost u piece`: the bytes, as a message of type `t`, hold the piece at
some depth, in a message of type `u`.  The piece is lost if a message around it is
replaced by a later one. -/
inductive Occurs : MessageType → Bytes → Bool → MessageType → Piece → Prop where
  | here {t : MessageType} {bytes : Bytes} {pieces : List Piece} {piece : Piece} :
      Layout bytes pieces → piece ∈ pieces → Occurs t bytes false t piece
  | inside {t u v : MessageType} {bytes : Bytes} {before behind : List Piece}
      {outer inner : Piece} {field : Field} {lost : Bool} :
      Layout bytes (before ++ outer :: behind) → t.field? outer.number = some field →
      field.type = .message u → outer.wireType = .delimited →
      Occurs u outer.content lost v inner →
      Occurs t bytes (lost || t.replaced outer.number behind) v inner

/-! ### Readers and pieces

A decoder finds the same end of a value as the cut does, if it accepts the value. -/

/-- A number that is read with a smaller bound is read in the same way with a larger one. -/
lemma readVarint_mono {top more : Nat} {bytes : Bytes} {r : Nat × Bytes} (top' : Nat)
    {more' : Nat} (htop : top < 128) (hmore : more < more')
    (h : readVarint top more bytes = .ok r) : readVarint top' more' bytes = .ok r := by
  induction more generalizing bytes r more' with
  | zero =>
    -- The last byte allowed by the smaller bound has no high bit, so it also ends the number
    -- under the larger one.
    obtain ⟨k, rfl⟩ := Nat.exists_eq_add_of_lt hmore
    cases bytes with
    | nil => cases h
    | cons b rest =>
      rw [readVarint] at h
      split at h
      · next hb => rw [readVarint, if_pos (by omega), h]
      · cases h
  | succ more ih =>
    obtain ⟨k, rfl⟩ := Nat.exists_eq_add_of_lt hmore
    cases bytes with
    | nil => cases h
    | cons b rest =>
      rw [readVarint] at h
      rw [readVarint]
      split at h
      · next hb => rw [if_pos hb, h]
      · next hb =>
        rw [if_neg hb]
        split at h
        · cases h
        · next n rest' htail =>
          have htail' : readVarint top' (more + 1 + k) rest = .ok (n, rest') :=
            ih (by omega) htail
          rw [htail']
          exact h

/-- A short varint is also a long one. -/
lemma readVarint64_of_readVarint32 {bytes : Bytes} {r : Nat × Bytes}
    (h : readVarint32 bytes = .ok r) : readVarint64 bytes = .ok r :=
  readVarint_mono 1 (by omega) (by omega) h

/-- Delimited content that is read in a frame is the value that is cut off. -/
lemma cutValue_of_readDelimited {f : Frame} {bytes content rest : Bytes}
    (h : readDelimited f bytes = .ok (content, rest)) :
    cutValue .delimited bytes = .ok (content, rest) := by
  unfold readDelimited at h
  split at h
  · cases h
  · next length rest' hlength =>
    split at h
    · cases h
    · split at h
      · cases h
        rw [cutValue, readVarint64_of_readVarint32 hlength]
        rfl
      · split at h <;> cases h

/-- What is skipped inside a frame is skipped without one. -/
lemma skipValue_unframed {f : Frame} {w : WireType} {bytes rest : Bytes}
    (h : skipValue f w bytes = .ok rest) : skipValue { stop := 0 } w bytes = .ok rest := by
  cases w with
  | delimited =>
    simp only [skipValue] at h ⊢
    split at h
    · cases h
    · split at h
      · cases h
      · simpa [Frame.exceeds] using h
  | _ => exact h

/-- A group that is skipped in a frame is skipped without one. -/
lemma skipGroup_unframed {f : Frame} {depth : Nat} {bytes rest : Bytes}
    (h : skipGroup f depth bytes = .ok rest) :
    skipGroup { stop := 0 } depth bytes = .ok rest := by
  fun_induction skipGroup f depth bytes with
  | case1 => cases h
  | case2 bytes number rest' htag =>
    rw [skipGroup_eq, htag]
    exact h
  | case3 depth bytes number rest' htag hdepth ih =>
    rw [skipGroup_eq, htag]
    simpa only [if_neg hdepth] using ih h
  | case4 => cases h
  | case5 depth bytes number rest' htag hlevel ih =>
    have hlevel' : ¬ maxLevel ≤ 0 + depth := by omega
    rw [skipGroup_eq, htag]
    simpa only [if_neg hlevel'] using ih h
  | case6 => cases h
  | case7 depth bytes number w rest' hend hstart htag rest'' hvalue ih =>
    have hvalue' := skipValue_unframed hvalue
    rw [skipGroup_eq, htag]
    simpa only [hvalue'] using ih h

/-- A record that fits no field is cut off like any other; only a group leaves nothing. -/
lemma cutValue_of_readStray {f : Frame} {number : Nat} {w : WireType} {bytes : Bytes}
    {head : Head} (h : readStray f number w bytes = .ok head) :
    ∃ content rest, cutValue w bytes = .ok (content, rest) ∧
      ((w = .groupStart ∧ head = .record none rest) ∨
        (w ≠ .groupStart ∧ head = .record (some (.stray number)) rest)) := by
  cases w with
  | groupStart =>
    obtain ⟨rest, hrest, rfl⟩ := exists_of_map_eq_ok h
    exact ⟨[], rest, by rw [cutValue, skipGroup_unframed hrest]; rfl, .inl ⟨rfl, rfl⟩⟩
  | groupEnd => cases h
  | delimited =>
    obtain ⟨⟨content, rest⟩, hrest, rfl⟩ := exists_of_map_eq_ok h
    exact ⟨content, rest, cutValue_of_readDelimited hrest, .inr ⟨by decide, rfl⟩⟩
  | varint =>
    obtain ⟨rest, hrest, rfl⟩ := exists_of_map_eq_ok h
    obtain ⟨⟨n, rest'⟩, hn, rfl⟩ := exists_of_map_eq_ok hrest
    exact ⟨[], rest', by rw [cutValue, hn]; rfl, .inr ⟨by decide, rfl⟩⟩
  | fixed64 =>
    obtain ⟨rest, hrest, rfl⟩ := exists_of_map_eq_ok h
    rw [skipValue] at hrest
    exact ⟨[], rest, by rw [cutValue, hrest]; rfl, .inr ⟨by decide, rfl⟩⟩
  | fixed32 =>
    obtain ⟨rest, hrest, rfl⟩ := exists_of_map_eq_ok h
    rw [skipValue] at hrest
    exact ⟨[], rest, by rw [cutValue, hrest]; rfl, .inr ⟨by decide, rfl⟩⟩

/-- Whether a record holds a value and not a message. -/
def Record.isScalar : Record → Bool
  | .text _ _ => true
  | .kind _ _ => true
  | .flag _ _ => true
  | _ => false

/-- A field is cut off at the end that its reader finds; a message is announced with its
content. -/
lemma cutValue_of_readField {f : Frame} {field : Field} {bytes : Bytes} {head : Head}
    (h : readField f field bytes = .ok head) :
    ∃ content rest, cutValue field.type.wireType bytes = .ok (content, rest) ∧
      (((∀ u, field.type ≠ .message u) ∧
          ∃ r : Record, r.isScalar = true ∧ head = .record (some r) rest) ∨
        ∃ u length rest', field.type = .message u ∧ content = rest'.take length ∧
          rest = rest'.drop length ∧ head = .submessage field.number u length rest') := by
  unfold readField at h
  split at h
  · next htype =>
    obtain ⟨⟨s, rest⟩, htext, rfl⟩ := exists_of_map_eq_ok h
    unfold readText at htext
    split at htext
    · cases htext
    · next content rest' hcontent =>
      split at htext
      · cases htext
        rw [htype]
        exact ⟨content, rest, cutValue_of_readDelimited hcontent, .inl ⟨by simp, _, rfl, rfl⟩⟩
      · cases htext
  · next htype =>
    obtain ⟨⟨tag, rest⟩, hkind, rfl⟩ := exists_of_map_eq_ok h
    unfold readKind at hkind
    split at hkind
    · cases hkind
    · next n rest' hn =>
      dsimp only at hkind
      split at hkind
      · cases hkind
        rw [htype]
        exact ⟨[], rest, by rw [FieldType.wireType, cutValue, hn]; rfl,
          .inl ⟨by simp, _, rfl, rfl⟩⟩
      · cases hkind
  · next htype =>
    obtain ⟨⟨b, rest⟩, hflag, rfl⟩ := exists_of_map_eq_ok h
    unfold readFlag at hflag
    split at hflag
    · cases hflag
    · next n rest' hn =>
      cases hflag
      rw [htype]
      exact ⟨[], rest, by rw [FieldType.wireType, cutValue, hn]; rfl,
        .inl ⟨by simp, _, rfl, rfl⟩⟩
  · next u htype =>
    split at h
    · cases h
    · split at h
      · cases h
      · next length rest hlength =>
        split at h
        · cases h
        · split at h
          · cases h
          · cases h
            rw [htype]
            exact ⟨_, _, by rw [FieldType.wireType, cutValue, hlength]; rfl,
              .inr ⟨u, length, rest, rfl, rfl, rfl, rfl⟩⟩

/-! ### Pieces as they are decoded -/

/-- How a decoder may read a piece of a message of type `t`: as a stray if it fits no field,
as the value of its field, or as a message whose records are decoded from the content. -/
inductive Piece.ReadAs (t : MessageType) (piece : Piece) : Record → Prop where
  | stray : piece.wireType ≠ .groupStart →
      (∀ field, t.field? piece.number = some field → field.type.wireType ≠ piece.wireType) →
      ReadAs t piece (.stray piece.number)
  | scalar {field : Field} {r : Record} : t.field? piece.number = some field →
      field.type.wireType = piece.wireType → (∀ u, field.type ≠ .message u) →
      r.isScalar = true → ReadAs t piece r
  | message {field : Field} {u : MessageType} {f : Frame} {body : List Record} :
      t.field? piece.number = some field → field.type = .message u →
      piece.wireType = .delimited → decode u f piece.content = .ok body →
      ReadAs t piece (.message piece.number body)

/-- How a decoder may read the pieces of a message: each is read as one record, and groups
are passed over. -/
inductive ReadAll (t : MessageType) : List Piece → List Record → Prop where
  | nil : ReadAll t [] []
  | group {piece : Piece} {pieces : List Piece} {rs : List Record} :
      piece.wireType = .groupStart → ReadAll t pieces rs → ReadAll t (piece :: pieces) rs
  | record {piece : Piece} {pieces : List Piece} {r : Record} {rs : List Record} :
      piece.ReadAs t r → ReadAll t pieces rs → ReadAll t (piece :: pieces) (r :: rs)

/-- A record that fits no field is a piece that is read as a stray, or a group. -/
lemma cutPiece_of_readStray {t : MessageType} {f : Frame} {bytes rest : Bytes} {number : Nat}
    {w : WireType} {head : Head} (htag : readTag bytes = .ok ((number, w), rest))
    (hfield : ∀ field, t.field? number = some field → field.type.wireType ≠ w)
    (h : readStray f number w rest = .ok head) :
    ∃ piece rest', cutPiece bytes = .ok (piece, rest') ∧
      ((piece.wireType = .groupStart ∧ head = .record none rest') ∨
        ∃ r, piece.ReadAs t r ∧ head = .record (some r) rest') := by
  obtain ⟨content, rest', hcut, hhead⟩ := cutValue_of_readStray h
  refine ⟨⟨number, w, content⟩, rest', cutPiece_of_readTag htag hcut, ?_⟩
  rcases hhead with ⟨hgroup, hhead⟩ | ⟨hgroup, hhead⟩
  · exact .inl ⟨hgroup, hhead⟩
  · exact .inr ⟨_, .stray hgroup hfield, hhead⟩

/-- A head is the beginning of a piece: of a group, of a record that is complete, or of a
message. -/
lemma cutPiece_of_readHead {t : MessageType} {f : Frame} {bytes : Bytes} {head : Head}
    (h : readHead t f bytes = .ok head) :
    ∃ piece rest, cutPiece bytes = .ok (piece, rest) ∧
      ((piece.wireType = .groupStart ∧ head = .record none rest) ∨
        (∃ r, piece.ReadAs t r ∧ head = .record (some r) rest) ∨
        ∃ field u length rest', t.field? piece.number = some field ∧ field.type = .message u ∧
          piece.wireType = .delimited ∧ piece.content = rest'.take length ∧
          rest = rest'.drop length ∧ head = .submessage piece.number u length rest') := by
  unfold readHead at h
  split at h
  · cases h
  · next number w rest htag =>
    split at h
    · next field hfield =>
      split at h
      · next hwire =>
        obtain ⟨content, rest', hcut, hhead⟩ := cutValue_of_readField h
        rw [hwire] at hcut
        refine ⟨⟨number, w, content⟩, rest', cutPiece_of_readTag htag hcut, .inr ?_⟩
        rcases hhead with ⟨htype, r, hscalar, hhead⟩ |
          ⟨u, length, rest'', htype, hcontent, hrest, hhead⟩
        · exact .inl ⟨r, .scalar hfield hwire htype hscalar, hhead⟩
        · refine .inr ⟨field, u, length, rest'', hfield, htype, ?_, hcontent, hrest, ?_⟩
          · rw [← hwire, htype, FieldType.wireType]
          · rw [hhead, MessageType.number_of_field? hfield]
      · next hwire =>
        have hmismatch : ∀ field', t.field? number = some field' → field'.type.wireType ≠ w := by
          intro field' hfield'
          rw [hfield] at hfield'
          cases hfield'
          exact hwire
        obtain ⟨piece, rest', hcut, hhead⟩ := cutPiece_of_readStray htag hmismatch h
        exact ⟨piece, rest', hcut, hhead.imp_right .inl⟩
    · next hfield =>
      have hmismatch : ∀ field', t.field? number = some field' → field'.type.wireType ≠ w := by
        intro field' hfield'
        rw [hfield] at hfield'
        cases hfield'
      obtain ⟨piece, rest', hcut, hhead⟩ := cutPiece_of_readStray htag hmismatch h
      exact ⟨piece, rest', hcut, hhead.imp_right .inl⟩

/-- Decoding goes through the pieces of the layout. -/
theorem exists_layout_of_decode {t : MessageType} {f : Frame} {bytes : Bytes} {rs : List Record}
    (h : decode t f bytes = .ok rs) : ∃ pieces, Layout bytes pieces ∧ ReadAll t pieces rs := by
  fun_induction decode t f bytes generalizing rs with
  | case1 =>
    cases h
    exact ⟨[], .nil, .nil⟩
  | case4 t f bytes _ r rest hhead records hrest ih =>
    cases h
    obtain ⟨pieces, hlayout, hread⟩ := ih hrest
    obtain ⟨piece, rest', hcut, hcases⟩ := cutPiece_of_readHead hhead
    rcases hcases with ⟨hgroup, heq⟩ | ⟨r', hr', heq⟩ | ⟨_, _, _, _, _, _, _, _, _, heq⟩
    · cases heq
      exact ⟨piece :: pieces, .cons hcut hlayout, .group hgroup hread⟩
    · cases heq
      exact ⟨piece :: pieces, .cons hcut hlayout, .record hr' hread⟩
    · cases heq
  | case7 t f bytes _ number u length rest hhead body hbody records hrest _ ih =>
    cases h
    obtain ⟨pieces, hlayout, hread⟩ := ih hrest
    obtain ⟨piece, rest', hcut, hcases⟩ := cutPiece_of_readHead hhead
    rcases hcases with ⟨_, heq⟩ | ⟨_, _, heq⟩ | ⟨field, u', length', rest'', hfield, htype, hwire,
      hcontent, hrest', heq⟩
    · cases heq
    · cases heq
    · cases heq
      rw [hrest'] at hcut
      rw [← hcontent] at hbody
      exact ⟨piece :: pieces, .cons hcut hlayout,
        .record (.message hfield htype hwire hbody) hread⟩
  | _ => cases h

end Arbor.Wire
