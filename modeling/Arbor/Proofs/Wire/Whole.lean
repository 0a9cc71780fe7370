import Arbor.Proofs.Wire.Layout

/-!
# Whole records

Bytes are `Whole` if they are a sequence of whole records: each has its tag and all of its
value, and none is a group.  What a value says does not matter.  A number may be too long for a
reader, a text may be no text, and the content of a message may be anything.

Whole bytes mean the same wherever they stand between other records of the outermost message
(`Whole.exists_means`), so decoding two such byte strings in one go is decoding them one by one
(`decodeRoot_append`).  Two facts are behind this.  A reader stops at the end of a whole value,
whatever follows.  And a message that is all there may be moved to another position: positions
only serve to refuse an end that lies beyond the last of them, and a message around it refuses
such an end anyway (`decode_moved`).
-/

namespace Arbor.Wire

/-! ## Numbers, values and records -/

/-- `Numeral bytes n`: the bytes are a number of variable length, all of it and nothing else,
and `n` is its value. -/
inductive Numeral : Bytes → Nat → Prop where
  | last {b : UInt8} : b.toNat < 128 → Numeral [b] b.toNat
  | more {b : UInt8} {bytes : Bytes} {n : Nat} : 128 ≤ b.toNat → Numeral bytes n →
      Numeral (b :: bytes) (b.toNat - 128 + 128 * n)

/-- `Value w bytes`: the bytes are a whole value of wire type `w`, which is no group. -/
inductive Value : WireType → Bytes → Prop where
  | varint {bytes : Bytes} {n : Nat} : Numeral bytes n → Value .varint bytes
  | fixed64 {bytes : Bytes} : bytes.length = 8 → Value .fixed64 bytes
  | delimited {length content : Bytes} : Numeral length content.length →
      Value .delimited (length ++ content)
  | fixed32 {bytes : Bytes} : bytes.length = 4 → Value .fixed32 bytes

/-- The bytes are a sequence of whole records, none of them a group. -/
inductive Whole : Bytes → Prop where
  | nil : Whole []
  | cons {tag value rest : Bytes} {n : Nat} {w : WireType} : Numeral tag n →
      WireType.ofCode? (n % 8) = some w → Value w value → Whole rest →
      Whole (tag ++ value ++ rest)

/-! ## Readers stop at the end

Whether a reader accepts a whole value, and what it takes it for, does not depend on what
follows.  This is said of the outermost message: nothing but the bytes themselves bounds its
values there. -/

/-- A number is read to its end, or refused, whatever follows. -/
lemma Numeral.readVarint {bytes : Bytes} {n : Nat} (h : Numeral bytes n) {top : Nat}
    (htop : top < 128) (more : Nat) :
    (∀ rest, readVarint top more (bytes ++ rest) = .ok (n, rest)) ∨
      ∃ e, ∀ rest, readVarint top more (bytes ++ rest) = .error e := by
  induction h generalizing more with
  | @last b hb =>
    cases more with
    | zero =>
      by_cases htop' : b.toNat ≤ top
      · exact .inl fun rest => by simp [Wire.readVarint, htop']
      · exact .inr ⟨.badVarint, fun rest => by simp [Wire.readVarint, htop']⟩
    | succ more => exact .inl fun rest => by simp [Wire.readVarint, hb]
  | @more b bytes n hb _ ih =>
    cases more with
    | zero =>
      have htop' : ¬ b.toNat ≤ top := by omega
      exact .inr ⟨.badVarint, fun rest => by simp [Wire.readVarint, htop']⟩
    | succ more =>
      have hb' : ¬ b.toNat < 128 := by omega
      rcases ih more with hok | ⟨e, herror⟩
      · exact .inl fun rest => by simp [Wire.readVarint, hb', hok rest]
      · exact .inr ⟨e, fun rest => by simp [Wire.readVarint, hb', herror rest]⟩

/-- A number is read as a short varint to its end, or refused, whatever follows. -/
lemma Numeral.readVarint32 {bytes : Bytes} {n : Nat} (h : Numeral bytes n) :
    (∀ rest, readVarint32 (bytes ++ rest) = .ok (n, rest)) ∨
      ∃ e, ∀ rest, readVarint32 (bytes ++ rest) = .error e :=
  h.readVarint (by decide) 4

/-- A number is read as a long varint to its end, or refused, whatever follows. -/
lemma Numeral.readVarint64 {bytes : Bytes} {n : Nat} (h : Numeral bytes n) :
    (∀ rest, readVarint64 (bytes ++ rest) = .ok (n, rest)) ∨
      ∃ e, ∀ rest, readVarint64 (bytes ++ rest) = .error e :=
  h.readVarint (by decide) 9

/-- A number with a wire type is read as a tag to its end, or refused, whatever follows. -/
lemma Numeral.readTag {tag : Bytes} {n : Nat} {w : WireType} (h : Numeral tag n)
    (hw : WireType.ofCode? (n % 8) = some w) :
    (∀ rest, readTag (tag ++ rest) = .ok ((n / 8, w), rest)) ∨
      ∃ e, ∀ rest, readTag (tag ++ rest) = .error e := by
  rcases h.readVarint32 with hok | ⟨e, herror⟩
  · by_cases hzero : n / 8 = 0
    · exact .inr ⟨.badTag, fun rest => by simp [Wire.readTag, hok rest, hw, hzero]⟩
    · exact .inl fun rest => by simp [Wire.readTag, hok rest, hw, hzero]
  · exact .inr ⟨e, fun rest => by simp [Wire.readTag, herror rest]⟩

/-- A delimited value is read to its end, or refused for its length. -/
lemma Numeral.readDelimited {length content : Bytes} (h : Numeral length content.length) :
    (∃ c, ∀ stop rest, readDelimited { stop } (length ++ content ++ rest) = .ok (c, rest)) ∨
      ∃ e, ∀ stop rest, readDelimited { stop } (length ++ content ++ rest) = .error e := by
  rcases h.readVarint32 with hok | ⟨e, herror⟩
  · refine .inl ⟨content, fun stop rest => ?_⟩
    have hle : content.length ≤ (content ++ rest).length := by simp
    rw [List.append_assoc, Wire.readDelimited, hok (content ++ rest)]
    simp [Frame.exceeds]
  · refine .inr ⟨e, fun stop rest => ?_⟩
    rw [List.append_assoc, Wire.readDelimited, herror (content ++ rest)]

/-- What a reader of heads makes of whole bytes in the outermost message, whatever follows: it
refuses them, it takes them for one record, or it announces a message with its whole content. -/
inductive Settled (read : Frame → Bytes → Except Fault Head) (bytes : Bytes) : Prop where
  | fault (e : Fault) : (∀ stop rest, read { stop } (bytes ++ rest) = .error e) →
      Settled read bytes
  | record (r : Record) :
      (∀ stop rest, read { stop } (bytes ++ rest) = .ok (.record (some r) rest)) →
      Settled read bytes
  | message (number : Nat) (u : MessageType) (content : Bytes) :
      (∀ stop rest, (bytes ++ rest).length ≤ stop → stop < 0x10000000000000000 →
        read { stop } (bytes ++ rest) =
          .ok (.submessage number u content.length (content ++ rest))) →
      Settled read bytes

/-- Readers that give a value and the bytes behind it settle a value if they are not disturbed by
what follows. -/
lemma settled_map {α : Type} {read : Frame → Bytes → Except Fault (α × Bytes)} {bytes : Bytes}
    (g : α → Record)
    (h : (∃ a, ∀ stop rest, read { stop } (bytes ++ rest) = .ok (a, rest)) ∨
      ∃ e, ∀ stop rest, read { stop } (bytes ++ rest) = .error e) :
    Settled (fun f bytes => (read f bytes).map fun r => .record (some (g r.1)) r.2) bytes := by
  rcases h with ⟨a, hok⟩ | ⟨e, herror⟩
  · exact .record (g a) fun stop rest => by simp only [hok stop rest]; rfl
  · exact .fault e fun stop rest => by simp only [herror stop rest]; rfl

/-- Skipping takes the given number of bytes, whatever follows. -/
lemma skipBytes_append {bytes : Bytes} {count : Nat} (h : bytes.length = count) (rest : Bytes) :
    skipBytes count (bytes ++ rest) = .ok rest := by
  have hle : count ≤ (bytes ++ rest).length := by
    rw [List.length_append]
    omega
  rw [skipBytes, if_pos hle, List.drop_left' h]

/-- A whole value that fits no field. -/
lemma Value.readStray {w : WireType} {value : Bytes} (h : Value w value) (number : Nat) :
    Settled (fun f => readStray f number w) value := by
  cases h with
  | varint hn =>
    rcases hn.readVarint64 with hok | ⟨e, herror⟩
    · exact .record (.stray number) fun stop rest => by
        simp only [Wire.readStray, skipValue, hok rest]; rfl
    · exact .fault e fun stop rest => by simp only [Wire.readStray, skipValue, herror rest]; rfl
  | fixed64 hlength =>
    exact .record (.stray number) fun stop rest => by
      simp only [Wire.readStray, skipValue, skipBytes_append hlength]; rfl
  | fixed32 hlength =>
    exact .record (.stray number) fun stop rest => by
      simp only [Wire.readStray, skipValue, skipBytes_append hlength]; rfl
  | delimited hlength => exact settled_map (fun _ => .stray number) hlength.readDelimited

/-- A text is read to its end, or refused for its length or its content. -/
lemma Numeral.readText {length content : Bytes} (h : Numeral length content.length) :
    (∃ s, ∀ stop rest, readText { stop } (length ++ content ++ rest) = .ok (s, rest)) ∨
      ∃ e, ∀ stop rest, readText { stop } (length ++ content ++ rest) = .error e := by
  rcases h.readDelimited with ⟨c, hok⟩ | ⟨e, herror⟩
  · cases htext : String.fromUTF8? c.toByteArray with
    | some s => exact .inl ⟨s, fun stop rest => by simp only [Wire.readText, hok, htext]⟩
    | none => exact .inr ⟨.badText, fun stop rest => by simp only [Wire.readText, hok, htext]⟩
  · exact .inr ⟨e, fun stop rest => by simp only [Wire.readText, herror]⟩

/-- A number is read as a kind to its end, or refused, whatever follows. -/
lemma Numeral.readKind {bytes : Bytes} {n : Nat} (h : Numeral bytes n) :
    (∃ tag, ∀ rest, readKind (bytes ++ rest) = .ok (tag, rest)) ∨
      ∃ e, ∀ rest, readKind (bytes ++ rest) = .error e := by
  rcases h.readVarint64 with hok | ⟨e, herror⟩
  · by_cases hrange : -0x80000000 ≤ signed64 n ∧ signed64 n < 0x80000000
    · exact .inl ⟨signed64 n, fun rest => by simp only [Wire.readKind, hok, if_pos hrange]⟩
    · exact .inr ⟨.outOfRange (signed64 n), fun rest => by
        simp only [Wire.readKind, hok, if_neg hrange]⟩
  · exact .inr ⟨e, fun rest => by simp only [Wire.readKind, herror]⟩

/-- A number is read as a flag to its end, or refused, whatever follows. -/
lemma Numeral.readFlag {bytes : Bytes} {n : Nat} (h : Numeral bytes n) :
    (∃ b, ∀ rest, readFlag (bytes ++ rest) = .ok (b, rest)) ∨
      ∃ e, ∀ rest, readFlag (bytes ++ rest) = .error e := by
  rcases h.readVarint64 with hok | ⟨e, herror⟩
  · exact .inl ⟨n != 0, fun rest => by simp only [Wire.readFlag, hok]⟩
  · exact .inr ⟨e, fun rest => by simp only [Wire.readFlag, herror]⟩

/-- A message is announced with all of its content, or refused for its length. -/
lemma Numeral.readMessage {length content : Bytes} (h : Numeral length content.length)
    {field : Field} {u : MessageType} (htype : field.type = .message u) :
    Settled (fun f => readField f field) (length ++ content) := by
  rcases h.readVarint64 with hok | ⟨e, herror⟩
  · refine .message field.number u content fun stop rest hroom hstop => ?_
    have hposition : ¬ 0x10000000000000000 ≤
        ({ stop } : Frame).position (content ++ rest) + content.length := by
      simp only [Frame.position, List.length_append] at hroom ⊢
      omega
    rw [List.append_assoc]
    simp only [readField, htype, hok, if_neg hposition]
    rfl
  · refine .fault e fun stop rest => ?_
    rw [List.append_assoc]
    simp only [readField, htype, herror]
    rfl

/-- A whole value of a field. -/
lemma Value.readField {field : Field} {value : Bytes} (h : Value field.type.wireType value) :
    Settled (fun f => readField f field) value := by
  cases htype : field.type with
  | text =>
    have hread : (fun f => Wire.readField f field) = fun f bytes =>
        (readText f bytes).map fun r => .record (some (.text field.number r.1)) r.2 := by
      funext f bytes
      simp only [Wire.readField, htype]
    rw [htype, FieldType.wireType] at h
    cases h with
    | delimited hlength =>
      rw [hread]
      exact settled_map (.text field.number) hlength.readText
  | kind =>
    have hread : (fun f => Wire.readField f field) = fun _ bytes =>
        (readKind bytes).map fun r => .record (some (.kind field.number r.1)) r.2 := by
      funext f bytes
      simp only [Wire.readField, htype]
    rw [htype, FieldType.wireType] at h
    cases h with
    | varint hn =>
      rw [hread]
      exact settled_map (.kind field.number) (by simpa using hn.readKind)
  | flag =>
    have hread : (fun f => Wire.readField f field) = fun _ bytes =>
        (readFlag bytes).map fun r => .record (some (.flag field.number r.1)) r.2 := by
      funext f bytes
      simp only [Wire.readField, htype]
    rw [htype, FieldType.wireType] at h
    cases h with
    | varint hn =>
      rw [hread]
      exact settled_map (.flag field.number) (by simpa using hn.readFlag)
  | message u =>
    rw [htype, FieldType.wireType] at h
    cases h with
    | delimited hlength => exact hlength.readMessage htype

/-- A whole record is read to its end, or refused, whatever follows. -/
lemma settled_readHead (t : MessageType) {tag value : Bytes} {n : Nat} {w : WireType}
    (htag : Numeral tag n) (hw : WireType.ofCode? (n % 8) = some w) (hvalue : Value w value) :
    Settled (readHead t) (tag ++ value) := by
  rcases htag.readTag hw with hok | ⟨e, herror⟩
  · -- Behind the tag, the value is read by the reader of its field or as a stray.
    have hbehind : ∃ read, Settled read value ∧
        ∀ f rest, readHead t f (tag ++ rest) = read f rest := by
      cases hfield : t.field? (n / 8) with
      | none =>
        exact ⟨_, hvalue.readStray (n / 8), fun f rest => by simp only [readHead, hok, hfield]⟩
      | some field =>
        by_cases hwire : field.type.wireType = w
        · subst hwire
          exact ⟨_, hvalue.readField, fun f rest => by simp only [readHead, hok, hfield, if_true]⟩
        · exact ⟨_, hvalue.readStray (n / 8), fun f rest => by
            simp only [readHead, hok, hfield, if_neg hwire]⟩
    obtain ⟨read, hsettled, hread⟩ := hbehind
    cases hsettled with
    | fault e h =>
      exact .fault e fun stop rest => by rw [List.append_assoc, hread, h]
    | record r h =>
      exact .record r fun stop rest => by rw [List.append_assoc, hread, h]
    | message number u content h =>
      refine .message number u content fun stop rest hroom hstop => ?_
      have hroom' : (value ++ rest).length ≤ stop := by
        simp only [List.length_append] at hroom ⊢
        omega
      rw [List.append_assoc, hread, h stop rest hroom' hstop]
  · refine .fault e fun stop rest => ?_
    rw [List.append_assoc, readHead, herror]

/-! ## Messages can be moved -/

/-- Skipping a group does not depend on where the message stands. -/
lemma skipGroup_moved (f : Frame) (stop depth : Nat) (bytes : Bytes) :
    skipGroup { f with stop } depth bytes = skipGroup f depth bytes := by
  have hvalue : ∀ w rest, skipValue { f with stop } w rest = skipValue f w rest := by
    intro w rest
    cases w <;> rfl
  fun_induction skipGroup f depth bytes with
  | case1 depth bytes e htag => rw [skipGroup_eq, htag]
  | case2 bytes number rest htag => rw [skipGroup_eq, htag]; rfl
  | case3 depth bytes number rest htag hdepth ih =>
    rw [skipGroup_eq, htag]
    simpa only [if_neg hdepth] using ih
  | case4 depth bytes number rest htag hlevel =>
    rw [skipGroup_eq, htag]
    simp only [if_pos hlevel]
  | case5 depth bytes number rest htag hlevel ih =>
    rw [skipGroup_eq, htag]
    simpa only [if_neg hlevel] using ih
  | case6 depth bytes number w rest hend hstart htag e hskip =>
    rw [skipGroup_eq, htag]
    simp only [hvalue, hskip]
  | case7 depth bytes number w rest hend hstart htag rest' hskip ih =>
    rw [skipGroup_eq, htag]
    simpa only [hvalue, hskip] using ih

/-- Reading a stray does not depend on where the message stands. -/
lemma readStray_moved (f : Frame) (stop number : Nat) (w : WireType) (bytes : Bytes) :
    readStray { f with stop } number w bytes = readStray f number w bytes := by
  cases w with
  | groupStart => rw [readStray, readStray, skipGroup_moved]
  | _ => rfl

/-- A message that ends within the message around it does so at every position, if there is room
for the message around it. -/
lemma readField_moved {f : Frame} {field : Field} {bytes : Bytes} {head : Head} {k stop : Nat}
    (hbeyond : f.beyond = some k) (hroom : bytes.length ≤ stop)
    (hstop : stop + k < 0x10000000000000000) (h : readField f field bytes = .ok head) :
    readField { f with stop } field bytes = .ok head := by
  unfold readField at h ⊢
  split at h
  · exact h
  · exact h
  · exact h
  · split at h
    · cases h
    · next hlevel =>
      split at h
      · cases h
      · next length rest hlength =>
        split at h
        · cases h
        · split at h
          · cases h
          · next hexceeds =>
            have hlt := length_lt_of_readVarint64 hlength
            have hend : length ≤ rest.length + k := by
              simpa [Frame.exceeds, hbeyond] using hexceeds
            have hposition : ¬ 0x10000000000000000 ≤
                Frame.position { f with stop } rest + length := by
              simp only [Frame.position]
              omega
            have hexceeds' : ¬ Frame.exceeds { f with stop } rest length = true := hexceeds
            rw [if_neg hlevel]
            simp only [if_neg hposition, if_neg hexceeds']
            exact h

/-- A head in a submessage is read alike wherever the submessage stands. -/
lemma readHead_moved {t : MessageType} {f : Frame} {bytes : Bytes} {head : Head} {k stop : Nat}
    (hbeyond : f.beyond = some k) (hroom : bytes.length ≤ stop)
    (hstop : stop + k < 0x10000000000000000) (h : readHead t f bytes = .ok head) :
    readHead t { f with stop } bytes = .ok head := by
  unfold readHead at h ⊢
  split at h
  · cases h
  · next number w rest htag =>
    have hlt := length_lt_of_readTag htag
    split at h
    · split at h
      · next hwire =>
        rw [if_pos hwire]
        exact readField_moved hbeyond (by omega) hstop h
      · next hwire =>
        rw [if_neg hwire, readStray_moved]
        exact h
    · rw [readStray_moved]
      exact h

/-- The end of a message that is announced is not beyond the last position. -/
lemma lt_of_submessage {t u : MessageType} {f : Frame} {bytes rest : Bytes} {number length : Nat}
    (h : readHead t f bytes = .ok (.submessage number u length rest)) :
    f.position rest + length < 0x10000000000000000 := by
  have hstray : ∀ {number' w rest'},
      readStray f number' w rest' ≠ .ok (.submessage number u length rest) := by
    intro number' w rest' hread
    obtain ⟨_, _, _, ⟨_, heq⟩ | ⟨_, heq⟩⟩ := cutValue_of_readStray hread <;> cases heq
  unfold readHead at h
  split at h
  · cases h
  · split at h
    · split at h
      · unfold readField at h
        split at h
        · obtain ⟨_, _, heq⟩ := exists_of_map_eq_ok h
          cases heq
        · obtain ⟨_, _, heq⟩ := exists_of_map_eq_ok h
          cases heq
        · obtain ⟨_, _, heq⟩ := exists_of_map_eq_ok h
          cases heq
        · split at h
          · cases h
          · split at h
            · cases h
            · split at h
              · cases h
              · next hposition =>
                split at h
                · cases h
                · cases h
                  exact Nat.lt_of_not_le hposition
      · exact absurd h hstray
    · exact absurd h hstray

/-- The bytes of a message that ends within bounds give the same records at every position. -/
lemma decode_moved {t : MessageType} {f : Frame} {bytes : Bytes} {rs : List Record} {k stop : Nat}
    (hbeyond : f.beyond = some k) (hroom : bytes.length ≤ stop)
    (hstop : stop + k < 0x10000000000000000) (h : decode t f bytes = .ok rs) :
    decode t { f with stop } bytes = .ok rs := by
  fun_induction decode t f bytes generalizing rs k stop with
  | case1 =>
    cases h
    exact decode_nil _ _
  | case4 t f bytes _ r rest hhead records hrest ih =>
    cases h
    have hlt := length_lt_of_readHead hhead
    have hrest' := ih hbeyond (Nat.le_trans (Nat.le_of_lt hlt) hroom) hstop hrest
    rw [decode_of_record (readHead_moved hbeyond hroom hstop hhead), hrest']
    rfl
  | case7 t f bytes _ number u length rest hhead body hbody records hrest ihbody ih =>
    cases h
    have hlt : rest.length < bytes.length := length_lt_of_readHead hhead
    have hhead' := readHead_moved hbeyond hroom hstop hhead
    have hend : stop - rest.length + length < 0x10000000000000000 := lt_of_submessage hhead'
    have hbody' : decode u (Frame.inner { f with stop } rest length) (rest.take length) =
        .ok body := by
      refine ihbody rfl ?_ ?_ hbody
      · dsimp only
        rw [List.length_take]
        omega
      · dsimp only
        omega
    have hrest' : decode t { f with stop } (rest.drop length) = .ok records := by
      refine ih hbeyond ?_ hstop hrest
      rw [List.length_drop]
      omega
    rw [decode_of_submessage hhead' hbody', hrest']
    rfl
  | _ => cases h

/-! ## What whole bytes mean -/

/-- `Means t bytes given`: in an outermost message of type `t` the bytes stand for the given
records, wherever they stand and whatever follows, or for a fault if there are none given. -/
def Means (t : MessageType) (bytes : Bytes) (given : Option (List Record)) : Prop :=
  ∀ stop rest rs, (bytes ++ rest).length ≤ stop → stop < 0x10000000000000000 →
    (decode t { stop } (bytes ++ rest) = .ok rs ↔
      ∃ rs₁, given = some rs₁ ∧ ∃ rs₂, decode t { stop } rest = .ok rs₂ ∧ rs = rs₁ ++ rs₂)

/-- No bytes stand for no records. -/
lemma means_nil (t : MessageType) : Means t [] (some []) := by
  intro stop rest rs _ _
  simp

/-- Bytes that follow each other mean what they mean one by one. -/
lemma Means.append {t : MessageType} {bytes bytes' : Bytes} {given given' : Option (List Record)}
    (h : Means t bytes given) (h' : Means t bytes' given') :
    Means t (bytes ++ bytes') (given.bind fun rs => given'.map (rs ++ ·)) := by
  intro stop rest rs hroom hstop
  have hroom' : (bytes' ++ rest).length ≤ stop := by
    simp only [List.length_append] at hroom ⊢
    omega
  rw [List.append_assoc] at hroom ⊢
  rw [h stop (bytes' ++ rest) rs hroom hstop]
  constructor
  · rintro ⟨rs₁, rfl, rs', hrs', rfl⟩
    obtain ⟨rs₂, rfl, rs₃, hrs₃, rfl⟩ := (h' stop rest rs' hroom' hstop).mp hrs'
    exact ⟨rs₁ ++ rs₂, rfl, rs₃, hrs₃, (List.append_assoc _ _ _).symm⟩
  · rintro ⟨rs', hgiven, rs₃, hrs₃, rfl⟩
    obtain ⟨rs₁, rfl, hgiven'⟩ := Option.bind_eq_some_iff.mp hgiven
    obtain ⟨rs₂, rfl, rfl⟩ := Option.map_eq_some_iff.mp hgiven'
    have hboth := (h' stop rest _ hroom' hstop).mpr ⟨rs₂, rfl, rs₃, hrs₃, rfl⟩
    exact ⟨rs₁, rfl, _, hboth, List.append_assoc _ _ _⟩

/-- All by themselves, the bytes decode to what they mean. -/
lemma Means.decodeRoot_eq_ok_iff {bytes : Bytes} {given : Option (List Record)} {rs : List Record}
    (h : Means .root bytes given) (hlength : bytes.length < 0x10000000000000000) :
    decodeRoot bytes = .ok rs ↔ given = some rs := by
  have halone := h bytes.length [] rs (by simp) hlength
  rw [List.append_nil, decode_nil] at halone
  rw [decodeRoot, Frame.outermost, halone]
  constructor
  · rintro ⟨rs₁, hgiven, rs₂, hrs₂, rfl⟩
    cases hrs₂
    rw [hgiven, List.append_nil]
  · exact fun hgiven => ⟨rs, hgiven, [], rfl, (List.append_nil rs).symm⟩

/-- A message that is all there is decoded as if it stood at the beginning. -/
lemma decode_inner_iff {u : MessageType} {content rest : Bytes} {stop : Nat} {body : List Record}
    (hroom : (content ++ rest).length ≤ stop) (hstop : stop < 0x10000000000000000) :
    decode u (Frame.inner { stop } (content ++ rest) content.length)
        ((content ++ rest).take content.length) = .ok body ↔
      decode u { stop := content.length, beyond := some 0, level := 1 } content = .ok body := by
  have hinner : Frame.inner { stop } (content ++ rest) content.length =
      { stop := stop - rest.length, beyond := some 0, level := 1 } := by
    simp [Frame.inner]
  rw [List.length_append] at hroom
  rw [hinner, List.take_left]
  constructor
  · exact fun hok => decode_moved rfl (Nat.le_refl _) (by omega) hok
  · exact fun hok => decode_moved rfl (by omega) (by omega) hok

/-- A whole record has a meaning. -/
lemma Settled.exists_means {t : MessageType} {bytes : Bytes} (hne : bytes ≠ [])
    (h : Settled (readHead t) bytes) : ∃ given, Means t bytes given := by
  cases h with
  | fault e hread =>
    refine ⟨none, fun stop rest rs _ _ => ?_⟩
    have hne' : bytes ++ rest ≠ [] := by simp [hne]
    rw [decode_of_fault hne' (hread stop rest)]
    simp
  | record r hread =>
    refine ⟨some [r], fun stop rest rs _ _ => ?_⟩
    rw [decode_of_record (hread stop rest)]
    cases decode t { stop } rest with
    | error e => simp [Except.map]
    | ok rs₂ => simp [Except.map, eq_comm]
  | message number u content hread =>
    have hroom' : ∀ {stop rest}, (bytes ++ rest).length ≤ stop → stop < 0x10000000000000000 →
        (content ++ rest).length ≤ stop := by
      intro stop rest hroom hstop
      have hlt := length_lt_of_readHead (hread stop rest hroom hstop)
      exact Nat.le_trans (Nat.le_of_lt hlt) hroom
    -- The content decides at one position whether the message can be decoded at all of them.
    cases hfirst : decode u { stop := content.length, beyond := some 0, level := 1 } content with
    | error e =>
      refine ⟨none, fun stop rest rs hroom hstop => ?_⟩
      have hhead := hread stop rest hroom hstop
      cases hbody : decode u (Frame.inner { stop } (content ++ rest) content.length)
          ((content ++ rest).take content.length) with
      | error e' =>
        rw [decode_of_submessage_fault hhead hbody]
        simp
      | ok body =>
        rw [decode_inner_iff (hroom' hroom hstop) hstop, hfirst] at hbody
        cases hbody
    | ok body =>
      refine ⟨some [.message number body], fun stop rest rs hroom hstop => ?_⟩
      have hhead := hread stop rest hroom hstop
      have hbody := (decode_inner_iff (hroom' hroom hstop) hstop).mpr hfirst
      rw [decode_of_submessage hhead hbody, List.drop_left]
      cases decode t { stop } rest with
      | error e => simp [Except.map]
      | ok rs₂ => simp [Except.map, eq_comm]

/-- Whole bytes have a meaning. -/
lemma Whole.exists_means {bytes : Bytes} (h : Whole bytes) (t : MessageType) :
    ∃ given, Means t bytes given := by
  induction h with
  | nil => exact ⟨some [], means_nil t⟩
  | @cons tag value rest n w htag hw hvalue _ ih =>
    have hne : tag ++ value ≠ [] := by
      cases htag <;> simp
    obtain ⟨given, hgiven⟩ := (settled_readHead t htag hw hvalue).exists_means hne
    obtain ⟨given', hgiven'⟩ := ih
    exact ⟨_, hgiven.append hgiven'⟩

/-- Whole bytes can be decoded in one go exactly if they can be decoded one by one, and they give
the same records. -/
theorem decodeRoot_append {a b : Bytes} (ha : Whole a) (hb : Whole b)
    (hlength : (a ++ b).length < 0x10000000000000000) (rs : List Record) :
    decodeRoot (a ++ b) = .ok rs ↔
      ∃ rs₁ rs₂, decodeRoot a = .ok rs₁ ∧ decodeRoot b = .ok rs₂ ∧ rs = rs₁ ++ rs₂ := by
  obtain ⟨given, hgiven⟩ := ha.exists_means .root
  obtain ⟨given', hgiven'⟩ := hb.exists_means .root
  have hlength' := hlength
  rw [List.length_append] at hlength'
  rw [(hgiven.append hgiven').decodeRoot_eq_ok_iff hlength]
  simp only [hgiven.decodeRoot_eq_ok_iff (by omega), hgiven'.decodeRoot_eq_ok_iff (by omega),
    Option.bind_eq_some_iff, Option.map_eq_some_iff]
  constructor
  · rintro ⟨rs₁, h₁, rs₂, h₂, rfl⟩
    exact ⟨rs₁, rs₂, h₁, h₂, rfl⟩
  · rintro ⟨rs₁, rs₂, h₁, h₂, rfl⟩
    exact ⟨rs₁, h₁, rs₂, h₂, rfl⟩

end Arbor.Wire
