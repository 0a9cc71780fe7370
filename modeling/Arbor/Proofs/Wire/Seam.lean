import Arbor.Proofs.Records
import Arbor.Proofs.Wire.Prefix

/-!
# Where bytes can be cut without a fault

A message ends without a fault wherever its bytes run out between two records.  So the first part
of bytes that can be decoded is decodable itself exactly if they were cut at a `Seam`: between two
records of the outermost message, or between two records of a message in it, at any depth
(`decode_short_iff_seam`).

The steps of the proof follow the heads.  Where the first piece is known, the seams are those in
its content and those in what follows it (`seam_iff_of_cutPiece`).  A record that is read at once
has no seams in it; a message has those of its records, and if the cut is in it, then nothing is
left behind it.

The ends of the outermost records are seams of a particular kind (`Leading`): what is left of the
bytes gives the first of the records, unchanged (`decode_of_leading`).
-/

namespace Arbor.Wire

/-! ## Seams -/

/-- `Leading pieces p q`: the bytes `p ++ q` begin with the given pieces, which end where `p`
ends. -/
inductive Leading : List Piece → Bytes → Bytes → Prop where
  | nil {q : Bytes} : Leading [] [] q
  | cons {piece : Piece} {pieces : List Piece} {p behind q : Bytes} :
      cutPiece (p ++ q) = .ok (piece, behind ++ q) → Leading pieces behind q →
      Leading (piece :: pieces) p q

/-- `Seam t p q`: where `p` ends, one record ends or none has begun in the bytes `p ++ q` of a
message of type `t`, or else in the bytes of a message in it, at any depth. -/
inductive Seam : MessageType → Bytes → Bytes → Prop where
  | start {t : MessageType} {q : Bytes} : Seam t [] q
  | behind {t : MessageType} {piece : Piece} {p behind q : Bytes} :
      cutPiece (p ++ q) = .ok (piece, behind ++ q) → Seam t behind q → Seam t p q
  | inside {t u : MessageType} {piece : Piece} {field : Field} {p q p' q' behind : Bytes} :
      cutPiece (p ++ q) = .ok (piece, behind) → t.field? piece.number = some field →
      field.type = .message u → piece.wireType = .delimited →
      piece.content = p' ++ q' → q = q' ++ behind → Seam u p' q' → Seam t p q

/-- The ends of records are seams. -/
lemma Leading.seam {t : MessageType} {pieces : List Piece} {p q : Bytes}
    (h : Leading pieces p q) : Seam t p q := by
  induction h with
  | nil => exact .start
  | cons hcut _ ih => exact .behind hcut ih

/-- A byte string that is laid out ends with its last piece. -/
lemma Layout.leading {bytes : Bytes} {pieces : List Piece} (h : Layout bytes pieces) :
    Leading pieces bytes [] := by
  induction h with
  | nil => exact .nil
  | cons hcut _ ih =>
    refine .cons ?_ ih
    rw [List.append_nil, List.append_nil]
    exact hcut

/-- Where the first piece is known, a seam behind the first byte is a seam in what follows the
piece or a seam in its content. -/
lemma seam_iff_of_cutPiece {t : MessageType} {p q behind : Bytes} {piece : Piece} (hp : p ≠ [])
    (hcut : cutPiece (p ++ q) = .ok (piece, behind)) :
    Seam t p q ↔
      (∃ behind', behind = behind' ++ q ∧ Seam t behind' q) ∨
        ∃ field u p' q', t.field? piece.number = some field ∧ field.type = .message u ∧
          piece.wireType = .delimited ∧ piece.content = p' ++ q' ∧ q = q' ++ behind ∧
          Seam u p' q' := by
  constructor
  · intro h
    cases h with
    | start => exact absurd rfl hp
    | behind hcut' hseam =>
      rw [hcut] at hcut'
      cases hcut'
      exact .inl ⟨_, rfl, hseam⟩
    | inside hcut' hfield htype hwire hcontent hq hseam =>
      rw [hcut] at hcut'
      cases hcut'
      exact .inr ⟨_, _, _, _, hfield, htype, hwire, hcontent, hq, hseam⟩
  · rintro (⟨behind', rfl, hseam⟩ | ⟨field, u, p', q', hfield, htype, hwire, hcontent, hq, hseam⟩)
    · exact .behind hcut hseam
    · exact .inside hcut hfield htype hwire hcontent hq hseam

/-! ## Pieces that are read at once -/

/-- The tag of a piece is read first. -/
lemma readTag_of_cutPiece {bytes behind : Bytes} {piece : Piece}
    (h : cutPiece bytes = .ok (piece, behind)) :
    ∃ remaining, readTag bytes = .ok ((piece.number, piece.wireType), remaining) := by
  unfold cutPiece at h
  split at h
  · cases h
  · next number w remaining htag =>
    obtain ⟨value, -, heq⟩ := exists_of_map_eq_ok h
    cases heq
    exact ⟨remaining, htag⟩

/-- What a decoder can make of a piece without decoding its content: nothing of a group, a stray
of a piece that fits no field, and the value of the field otherwise. -/
inductive Piece.ReadAtOnce (t : MessageType) (piece : Piece) : Option Record → Prop where
  | group : piece.wireType = .groupStart → ReadAtOnce t piece none
  | stray : (∀ field, t.field? piece.number = some field →
      field.type.wireType ≠ piece.wireType) → ReadAtOnce t piece (some (.stray piece.number))
  | text {field : Field} {s : String} : t.field? piece.number = some field →
      field.type = .text → piece.wireType = .delimited →
      ReadAtOnce t piece (some (.text piece.number s))
  | kind {field : Field} {tag : Int} : t.field? piece.number = some field →
      field.type = .kind → piece.wireType = .varint →
      ReadAtOnce t piece (some (.kind piece.number tag))
  | flag {field : Field} {b : Bool} : t.field? piece.number = some field →
      field.type = .flag → piece.wireType = .varint →
      ReadAtOnce t piece (some (.flag piece.number b))

/-- A stray is read at once with its piece. -/
lemma readAtOnce_of_readStray {t : MessageType} {f : Frame} {bytes remaining : Bytes}
    {r : Option Record} {piece : Piece}
    (hmismatch : ∀ field, t.field? piece.number = some field →
      field.type.wireType ≠ piece.wireType)
    (h : readStray f piece.number piece.wireType bytes = .ok (.record r remaining)) :
    piece.ReadAtOnce t r := by
  obtain ⟨_, _, _, ⟨hgroup, heq⟩ | ⟨_, heq⟩⟩ := cutValue_of_readStray h
  · cases heq
    exact .group hgroup
  · cases heq
    exact .stray hmismatch

/-- A field that is no message is read at once with its piece. -/
lemma readAtOnce_of_readField {t : MessageType} {f : Frame} {bytes remaining : Bytes}
    {r : Option Record} {piece : Piece} {field : Field}
    (hfield : t.field? piece.number = some field)
    (hwire : field.type.wireType = piece.wireType)
    (h : readField f field bytes = .ok (.record r remaining)) : piece.ReadAtOnce t r := by
  have hnumber : field.number = piece.number := MessageType.number_of_field? hfield
  rw [readField, hnumber] at h
  cases htype : field.type with
  | text =>
    rw [htype] at h hwire
    obtain ⟨⟨s, rest⟩, -, heq⟩ := exists_of_map_eq_ok h
    cases heq
    exact .text hfield htype hwire.symm
  | kind =>
    rw [htype] at h hwire
    obtain ⟨⟨tag, rest⟩, -, heq⟩ := exists_of_map_eq_ok h
    cases heq
    exact .kind hfield htype hwire.symm
  | flag =>
    rw [htype] at h hwire
    obtain ⟨⟨b, rest⟩, -, heq⟩ := exists_of_map_eq_ok h
    cases heq
    exact .flag hfield htype hwire.symm
  | message u =>
    -- A message is announced, never read at once.
    rw [htype] at h
    dsimp only at h
    split at h
    · cases h
    · split at h
      · cases h
      · split at h
        · cases h
        · split at h <;> cases h

/-- A record that is complete after its head is made of the piece at once. -/
lemma cutPiece_of_record {t : MessageType} {f : Frame} {bytes remaining : Bytes}
    {r : Option Record} (h : readHead t f bytes = .ok (.record r remaining)) :
    ∃ piece, cutPiece bytes = .ok (piece, remaining) ∧ piece.ReadAtOnce t r := by
  obtain ⟨piece, behind, hcut, hcases⟩ := cutPiece_of_readHead h
  have hbehind : behind = remaining := by
    rcases hcases with ⟨_, heq⟩ | ⟨_, _, heq⟩ | ⟨_, _, _, _, _, _, _, _, _, heq⟩ <;>
      cases heq <;> rfl
  subst hbehind
  refine ⟨piece, hcut, ?_⟩
  obtain ⟨value, htag⟩ := readTag_of_cutPiece hcut
  rw [readHead, htag] at h
  dsimp only at h
  cases hfield : t.field? piece.number with
  | none =>
    rw [hfield] at h
    exact readAtOnce_of_readStray (by simp [hfield]) h
  | some field =>
    rw [hfield] at h
    dsimp only at h
    split at h
    · next hwire => exact readAtOnce_of_readField hfield hwire h
    · next hwire => exact readAtOnce_of_readStray (by simpa [hfield] using hwire) h

/-- A piece that is read at once belongs to no field that holds a message. -/
lemma Piece.ReadAtOnce.type_ne_message {t u : MessageType} {piece : Piece} {r : Option Record}
    {field : Field} (h : piece.ReadAtOnce t r) (hfield : t.field? piece.number = some field)
    (hwire : piece.wireType = .delimited) : field.type ≠ .message u := by
  intro htype
  cases h with
  | group hgroup =>
    rw [hwire] at hgroup
    cases hgroup
  | stray hmismatch =>
    have hne := hmismatch field hfield
    rw [htype, hwire] at hne
    exact hne rfl
  | text hfield' htype' _ =>
    rw [hfield] at hfield'
    cases hfield'
    rw [htype] at htype'
    cases htype'
  | kind _ _ hvarint =>
    rw [hwire] at hvarint
    cases hvarint
  | flag _ _ hvarint =>
    rw [hwire] at hvarint
    cases hvarint

/-- The piece of a message that is announced holds the bytes of the message. -/
lemma cutPiece_of_submessage {t u : MessageType} {f : Frame} {bytes remaining : Bytes}
    {number length : Nat}
    (h : readHead t f bytes = .ok (.submessage number u length remaining)) :
    ∃ piece field, cutPiece bytes = .ok (piece, remaining.drop length) ∧ piece.number = number ∧
      piece.content = remaining.take length ∧ t.field? piece.number = some field ∧
      field.type = .message u ∧ piece.wireType = .delimited := by
  obtain ⟨piece, behind, hcut, hcases⟩ := cutPiece_of_readHead h
  rcases hcases with ⟨_, heq⟩ | ⟨_, _, heq⟩ | ⟨field, u', length', remaining', hfield, htype, hwire,
    hcontent, hbehind, heq⟩
  · cases heq
  · cases heq
  · cases heq
    rw [hbehind] at hcut
    exact ⟨piece, field, hcut, rfl, hcontent, hfield, htype, hwire⟩

/-! ## Messages -/

/-- A result that is given another form is still a result. -/
lemma exists_map_eq_ok_iff {ε α β : Type} {g : α → β} {x : Except ε α} :
    (∃ b, x.map g = .ok b) ↔ ∃ a, x = .ok a := by
  constructor
  · rintro ⟨b, h⟩
    obtain ⟨a, ha, -⟩ := exists_of_map_eq_ok h
    exact ⟨a, ha⟩
  · rintro ⟨a, rfl⟩
    exact ⟨g a, rfl⟩

/-- A message that reaches beyond the last byte is the last thing to be decoded. -/
lemma exists_decode_iff_of_length_lt {t u : MessageType} {f : Frame} {bytes remaining : Bytes}
    {number length : Nat}
    (h : readHead t f bytes = .ok (.submessage number u length remaining))
    (hlt : remaining.length < length) :
    (∃ rs, decode t f bytes = .ok rs) ↔
      ∃ rs, decode u (f.inner remaining length) remaining = .ok rs := by
  have htake : remaining.take length = remaining := List.take_of_length_le (Nat.le_of_lt hlt)
  have hdrop : remaining.drop length = [] := List.drop_of_length_le (Nat.le_of_lt hlt)
  cases hbody : decode u (f.inner remaining length) remaining with
  | error e =>
    have hfault : decode t f bytes = .error e :=
      decode_of_submessage_fault h (by rw [htake]; exact hbody)
    rw [hfault]
  | ok body =>
    have hok := decode_of_submessage h (by rw [htake]; exact hbody)
    rw [hok, hdrop, decode_nil]
    exact ⟨fun _ => ⟨body, rfl⟩, fun _ => ⟨_, rfl⟩⟩

/-- One step over a record: the seams behind the first byte are those of the remaining bytes. -/
lemma decode_short_iff_seam_of_record {t : MessageType} {f : Frame} {p q remaining : Bytes}
    {r : Option Record} (hp : p ≠ []) (hhead : readHead t f (p ++ q) = .ok (.record r remaining))
    (ih : ∀ p', p' ++ q = remaining →
      ((∃ rs, decode t (f.short q.length) p' = .ok rs) ↔ Seam t p' q)) :
    (∃ rs, decode t (f.short q.length) p = .ok rs) ↔ Seam t p q := by
  obtain ⟨piece, hcut, hatOnce⟩ := cutPiece_of_record hhead
  rw [seam_iff_of_cutPiece hp hcut]
  rcases readHead_short_of_record hhead with ⟨remaining', rfl, hshort⟩ | ⟨hlt, e, hshort⟩
  · rw [decode_of_record hshort, exists_map_eq_ok_iff, ih remaining' rfl]
    constructor
    · exact fun hseam => .inl ⟨remaining', rfl, hseam⟩
    · rintro (⟨behind', heq, hseam⟩ | ⟨field, u, _, _, hfield, htype, hwire, _⟩)
      · rwa [List.append_cancel_right heq]
      · exact absurd htype (hatOnce.type_ne_message hfield hwire)
  · rw [decode_of_fault hp hshort]
    constructor
    · rintro ⟨rs, h⟩
      cases h
    · rintro (⟨behind', rfl, _⟩ | ⟨field, u, _, _, hfield, htype, hwire, _⟩)
      · rw [List.length_append] at hlt
        omega
      · exact absurd htype (hatOnce.type_ne_message hfield hwire)

section Message

variable {t u : MessageType} {p q remaining : Bytes} {piece : Piece} {field : Field} {length : Nat}

/-- If the first message is all there, the seams behind the first byte are those of the bytes
behind the message. -/
lemma seam_iff_of_whole_message (hp : p ≠ [])
    (hcut : cutPiece (p ++ q) = .ok (piece, (remaining ++ q).drop length))
    (hle : length ≤ remaining.length) :
    Seam t p q ↔ Seam t (remaining.drop length) q := by
  have hdrop : (remaining ++ q).drop length = remaining.drop length ++ q :=
    List.drop_append_of_le_length hle
  rw [seam_iff_of_cutPiece hp hcut]
  constructor
  · rintro (⟨behind', heq, hseam⟩ | ⟨_, _, p', q', _, _, _, _, hq, _⟩)
    · rw [hdrop] at heq
      rwa [List.append_cancel_right heq]
    · -- A seam at the end of the message is one in front of the next record.
      have hnil : remaining.drop length = [] := by
        have hlength := congrArg List.length hq
        rw [hdrop, List.length_append, List.length_append] at hlength
        exact List.eq_nil_of_length_eq_zero (by omega)
      rw [hnil]
      exact .start
  · exact fun hseam => .inl ⟨_, hdrop, hseam⟩

/-- If the first message is cut, the seams behind the first byte are those of the message: there is
nothing behind it. -/
lemma seam_iff_of_cut_message (hp : p ≠ [])
    (hcut : cutPiece (p ++ q) = .ok (piece, (remaining ++ q).drop length))
    (hcontent : piece.content = (remaining ++ q).take length)
    (hfield : t.field? piece.number = some field) (htype : field.type = .message u)
    (hwire : piece.wireType = .delimited) (hlt : remaining.length < length)
    (hlast : q = [] → Seam u remaining []) :
    Seam t p q ↔ Seam u remaining (q.take (length - remaining.length)) := by
  have htake : (remaining ++ q).take length =
      remaining ++ q.take (length - remaining.length) := by
    rw [List.take_append, List.take_of_length_le (Nat.le_of_lt hlt)]
  have hdrop : (remaining ++ q).drop length = q.drop (length - remaining.length) := by
    rw [List.drop_append, List.drop_of_length_le (Nat.le_of_lt hlt), List.nil_append]
  rw [seam_iff_of_cutPiece hp hcut, hdrop]
  constructor
  · rintro (⟨behind', heq, _⟩ | ⟨field', u', p', q', hfield', htype', _, hcontent', hq, hseam⟩)
    · -- Nothing is missing at all.
      have hq : q = [] := by
        have hlength := congrArg List.length heq
        rw [List.length_append, List.length_drop] at hlength
        exact List.eq_nil_of_length_eq_zero (by omega)
      rw [hq, List.take_nil]
      exact hlast hq
    · rw [hfield] at hfield'
      cases hfield'
      rw [htype] at htype'
      cases htype'
      have hq' : q.take (length - remaining.length) = q' :=
        List.append_cancel_right ((List.take_append_drop _ q).trans hq)
      rw [hcontent, htake, hq'] at hcontent'
      rw [hq', List.append_cancel_right hcontent']
      exact hseam
  · intro hseam
    exact .inr ⟨field, u, _, _, hfield, htype, hwire, hcontent.trans htake,
      (List.take_append_drop _ q).symm, hseam⟩

/-- If the head of the first message is cut, there is no seam behind the first byte. -/
lemma not_seam_of_cut_head (hp : p ≠ [])
    (hcut : cutPiece (p ++ q) = .ok (piece, remaining.drop length))
    (hcontent : piece.content = remaining.take length) (hlt : remaining.length < q.length) :
    ¬ Seam t p q := by
  rw [seam_iff_of_cutPiece hp hcut]
  rintro (⟨behind', heq, _⟩ | ⟨_, _, p', q', _, _, _, hcontent', hq, _⟩)
  · have hlength := congrArg List.length heq
    rw [List.length_append, List.length_drop] at hlength
    omega
  · have hlength := congrArg List.length hq
    have hlength' := congrArg List.length (hcontent.symm.trans hcontent')
    rw [List.length_append, List.length_drop] at hlength
    rw [List.length_append, List.length_take] at hlength'
    omega

end Message

/-- One step over a message: the seams behind the first byte are those of the message and those
of the bytes behind it. -/
lemma decode_short_iff_seam_of_submessage {t u : MessageType} {f : Frame}
    {p q remaining : Bytes} {number length : Nat} {body : List Record} (hp : p ≠ [])
    (hhead : readHead t f (p ++ q) = .ok (.submessage number u length remaining))
    (hbody : decode u (f.inner remaining length) (remaining.take length) = .ok body)
    (ihbody : ∀ p' q', p' ++ q' = remaining.take length →
      ((∃ rs, decode u ((f.inner remaining length).short q'.length) p' = .ok rs) ↔ Seam u p' q'))
    (ih : ∀ p', p' ++ q = remaining.drop length →
      ((∃ rs, decode t (f.short q.length) p' = .ok rs) ↔ Seam t p' q)) :
    (∃ rs, decode t (f.short q.length) p = .ok rs) ↔ Seam t p q := by
  obtain ⟨piece, field, hcut, -, hcontent, hfield, htype, hwire⟩ := cutPiece_of_submessage hhead
  rcases readHead_short_of_submessage hhead with ⟨remaining', rfl, hshort⟩ | ⟨hlt, e, hshort⟩
  · by_cases hle : length ≤ remaining'.length
    · -- The message is all there, and it is decoded as before.
      rw [List.take_append_of_le_length hle, ← f.inner_short_of_le q hle] at hbody
      rw [decode_of_submessage hshort hbody, exists_map_eq_ok_iff,
        ih _ (List.drop_append_of_le_length hle).symm, seam_iff_of_whole_message hp hcut hle]
    · have hlt : remaining'.length < length := Nat.lt_of_not_le hle
      have htake : remaining' ++ q.take (length - remaining'.length) =
          (remaining' ++ q).take length := by
        rw [List.take_append, List.take_of_length_le (Nat.le_of_lt hlt)]
      have hlast : q = [] → Seam u remaining' [] := by
        rintro rfl
        obtain ⟨pieces, hlayout, -⟩ := exists_layout_of_decode hbody
        rw [← htake, List.take_nil, List.append_nil] at hlayout
        exact hlayout.leading.seam
      rw [exists_decode_iff_of_length_lt hshort hlt, f.inner_short_of_lt q hlt, ihbody _ _ htake,
        seam_iff_of_cut_message hp hcut hcontent hfield htype hwire hlt hlast]
  · rw [decode_of_fault hp hshort]
    refine ⟨?_, fun hseam => absurd hseam (not_seam_of_cut_head hp hcut hcontent hlt)⟩
    rintro ⟨rs, h⟩
    cases h

/-- The first part of bytes that can be decoded is decodable itself exactly if it ends at a
seam. -/
theorem decode_short_iff_seam {t : MessageType} {f : Frame} {p q : Bytes} {rs : List Record}
    (h : decode t f (p ++ q) = .ok rs) :
    (∃ rs', decode t (f.short q.length) p = .ok rs') ↔ Seam t p q := by
  have hstart : ∀ t f q, (∃ rs', decode t f [] = .ok rs') ↔ Seam t [] q := by
    intro t f q
    rw [decode_nil]
    exact ⟨fun _ => .start, fun _ => ⟨[], rfl⟩⟩
  generalize hbytes : p ++ q = bytes at h
  fun_induction decode t f bytes generalizing p q rs with
  | case1 =>
    rw [(List.append_eq_nil_iff.mp hbytes).1]
    exact hstart _ _ _
  | case4 t f bytes _ r remaining hhead records hrest ih =>
    subst hbytes
    by_cases hp : p = []
    · rw [hp]
      exact hstart _ _ _
    exact decode_short_iff_seam_of_record hp hhead fun p' hp' => ih hp' hrest
  | case7 t f bytes _ number u length remaining hhead body hbody records hrest ihbody ih =>
    subst hbytes
    by_cases hp : p = []
    · rw [hp]
      exact hstart _ _ _
    exact decode_short_iff_seam_of_submessage hp hhead hbody (fun p' q' hp' => ihbody hp' hbody)
      fun p' hp' => ih hp' hrest
  | _ => cases h

/-! ## Records that are left -/

/-- Whether a piece is delimited and has the given number. -/
def Piece.fills (number : Nat) (piece : Piece) : Bool :=
  piece.number == number && piece.wireType == .delimited

/-- A piece fills a submessage if it has its number and is delimited. -/
lemma Piece.fills_iff {number : Nat} {piece : Piece} :
    piece.fills number = true ↔ piece.number = number ∧ piece.wireType = .delimited := by
  rw [fills, Bool.and_eq_true, beq_iff_eq, beq_iff_eq]

/-- The pieces and the records of a message agree on how many texts and how many messages there
are under each number. -/
structure Tally (t : MessageType) (pieces : List Piece) (rs : List Record) : Prop where
  texts : ∀ number name, t.field? number = some ⟨number, name, .text⟩ →
    (rs.filterMap (Record.text? number)).length = pieces.countP (Piece.fills number)
  messages : ∀ number name u, t.field? number = some ⟨number, name, .message u⟩ →
    (rs.filterMap (Record.body? number)).length = pieces.countP (Piece.fills number)

/-- No pieces are tallied by no records. -/
lemma tally_nil (t : MessageType) : Tally t [] [] :=
  ⟨fun _ _ _ => rfl, fun _ _ _ _ => rfl⟩

/-- Pieces are tallied one by one. -/
lemma Tally.cons {t : MessageType} {piece : Piece} {pieces : List Piece} {rs rs' : List Record}
    (h : Tally t [piece] rs) (h' : Tally t pieces rs') : Tally t (piece :: pieces) (rs ++ rs') := by
  constructor
  · intro number name hfield
    rw [List.filterMap_append, List.length_append, h.texts number name hfield,
      h'.texts number name hfield, ← List.countP_append, List.singleton_append]
  · intro number name u hfield
    rw [List.filterMap_append, List.length_append, h.messages number name u hfield,
      h'.messages number name u hfield, ← List.countP_append, List.singleton_append]

/-- A record that is read at once counts as its piece does. -/
lemma Piece.ReadAtOnce.tally {t : MessageType} {piece : Piece} {r : Option Record}
    (h : piece.ReadAtOnce t r) : Tally t [piece] r.toList := by
  constructor
  · intro number name hfield
    rw [List.countP_singleton]
    by_cases hfills : piece.fills number = true
    · -- The piece fits the field, so it is read as a text.
      obtain ⟨rfl, hwire⟩ := Piece.fills_iff.mp hfills
      rw [if_pos hfills]
      cases h with
      | group hgroup =>
        rw [hwire] at hgroup
        cases hgroup
      | stray hmismatch =>
        have hne := hmismatch _ hfield
        rw [hwire] at hne
        exact absurd rfl hne
      | text _ _ _ => simp
      | kind _ _ hvarint =>
        rw [hwire] at hvarint
        cases hvarint
      | flag _ _ hvarint =>
        rw [hwire] at hvarint
        cases hvarint
    · rw [if_neg hfills]
      cases h with
      | text _ _ hwire =>
        have hne : piece.number ≠ number := fun heq => hfills (Piece.fills_iff.mpr ⟨heq, hwire⟩)
        simp [hne]
      | _ => simp
  · intro number name u hfield
    have hfills : ¬ piece.fills number = true := by
      intro hfills
      obtain ⟨rfl, hwire⟩ := Piece.fills_iff.mp hfills
      exact h.type_ne_message hfield hwire rfl
    rw [List.countP_singleton, if_neg hfills]
    cases h <;> simp

/-- A message counts as the piece that holds it. -/
lemma tally_of_message {t u : MessageType} {piece : Piece} {field : Field} (body : List Record)
    (hfield : t.field? piece.number = some field) (htype : field.type = .message u)
    (hwire : piece.wireType = .delimited) : Tally t [piece] [.message piece.number body] := by
  constructor
  · intro number name hfield'
    have hfills : ¬ piece.fills number = true := by
      intro hfills
      obtain ⟨rfl, -⟩ := Piece.fills_iff.mp hfills
      rw [hfield] at hfield'
      cases hfield'
      cases htype
    rw [List.countP_singleton, if_neg hfills]
    simp
  · intro number name u' _
    rw [List.countP_singleton]
    by_cases hnumber : piece.number = number
    · rw [if_pos (Piece.fills_iff.mpr ⟨hnumber, hwire⟩)]
      simp [hnumber]
    · rw [if_neg fun hfills => hnumber (Piece.fills_iff.mp hfills).1]
      simp [hnumber]

/-- A message in front of the missing bytes is read as before, and so is what comes behind it. -/
lemma inner_short_of_drop (f : Frame) {remaining behind q : Bytes} {length : Nat}
    (h : behind ++ q = (remaining ++ q).drop length) :
    ((f.short q.length).inner remaining length = f.inner (remaining ++ q) length ∧
        remaining.take length = (remaining ++ q).take length) ∧
      remaining.drop length = behind := by
  by_cases hle : length ≤ remaining.length
  · rw [List.drop_append_of_le_length hle] at h
    refine ⟨⟨f.inner_short_of_le q hle, ?_⟩, (List.append_cancel_right h).symm⟩
    rw [List.take_append_of_le_length hle]
  · -- Only a message that nothing follows may reach beyond the last byte.
    have hlength := congrArg List.length h
    rw [List.length_append, List.length_drop, List.length_append] at hlength
    obtain rfl : q = [] := List.eq_nil_of_length_eq_zero (by omega)
    rw [List.append_nil, List.append_nil] at h
    rw [List.append_nil]
    exact ⟨⟨by rw [List.length_nil, f.short_zero], rfl⟩, h.symm⟩

/-- What is left behind some of the records gives these records, as many of each kind as there
are pieces. -/
theorem decode_of_leading {t : MessageType} {f : Frame} {p q : Bytes} {pieces : List Piece}
    {rs : List Record} (hleading : Leading pieces p q) (h : decode t f (p ++ q) = .ok rs) :
    ∃ rs₁ rs₂, rs = rs₁ ++ rs₂ ∧ decode t (f.short q.length) p = .ok rs₁ ∧
      Tally t pieces rs₁ := by
  induction hleading generalizing rs with
  | nil => exact ⟨[], rs, rfl, decode_nil _ _, tally_nil t⟩
  | @cons piece pieces p behind q hcut _ ih =>
    have hne : p ++ q ≠ [] := ne_nil_of_cutPiece hcut
    rcases decode_cases hne h with ⟨r, remaining, records, hhead, hrest, rfl⟩ |
      ⟨number, u, length, remaining, body, records, hhead, hbody, hrest, rfl⟩
    · obtain ⟨piece', hcut', hatOnce⟩ := cutPiece_of_record hhead
      rw [hcut] at hcut'
      cases hcut'
      rcases readHead_short_of_record hhead with ⟨behind', heq, hshort⟩ | ⟨hlt, _⟩
      · cases List.append_cancel_right heq
        obtain ⟨rs₁, rs₂, rfl, hdecode, htally⟩ := ih hrest
        refine ⟨r.toList ++ rs₁, rs₂, (List.append_assoc _ _ _).symm, ?_, hatOnce.tally.cons htally⟩
        rw [decode_of_record hshort, hdecode]
        rfl
      · rw [List.length_append] at hlt
        omega
    · obtain ⟨piece', field, hcut', rfl, -, hfield, htype, hwire⟩ := cutPiece_of_submessage hhead
      rw [hcut] at hcut'
      obtain ⟨rfl, hbehind⟩ := Prod.mk.inj (Except.ok.inj hcut')
      rcases readHead_short_of_submessage hhead with ⟨remaining', rfl, hshort⟩ | ⟨hlt, _⟩
      · obtain ⟨hinner, hrest'⟩ := inner_short_of_drop f hbehind
        rw [← hinner.1, ← hinner.2] at hbody
        rw [← hbehind] at hrest
        obtain ⟨rs₁, rs₂, rfl, hdecode, htally⟩ := ih hrest
        refine ⟨.message piece.number body :: rs₁, rs₂, rfl, ?_,
          (tally_of_message body hfield htype hwire).cons htally⟩
        rw [decode_of_submessage hshort hbody, hrest', hdecode]
        rfl
      · have hlength := congrArg List.length hbehind
        rw [List.length_append, List.length_drop] at hlength
        omega

end Arbor.Wire
