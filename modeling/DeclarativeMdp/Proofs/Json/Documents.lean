import DeclarativeMdp.Proofs.Except
import DeclarativeMdp.Proofs.Json.Strings
import Mathlib.Tactic.Tauto

set_option autoImplicit false

namespace DeclarativeMdp.Json

theorem skipSpace_cons {b : UInt8} (visible : isSpace b = false) (bs : List UInt8) :
    skipSpace (b :: bs) = b :: bs := by
  rw [skipSpace, List.dropWhile_cons_of_neg (by simp [visible])]

def EndsValue (rest : List UInt8) : Prop := ∀ b ∈ rest.head?, b = 0x2C ∨ b = 0x5D ∨ b = 0x7D

theorem endsValue_cons {b : UInt8} (closes : b = 0x2C ∨ b = 0x5D ∨ b = 0x7D) (bs : List UInt8) :
    EndsValue (b :: bs) := by
  intro first present
  obtain rfl := Option.some.inj present
  exact closes

structure ParsesAs (text : String) (value : Json) : Prop where
  visible : ∃ b bs, Text.toBytes text = b :: bs ∧ isSpace b = false ∧ b ≠ 0x5D
  read : ∀ fuel rest, 2 * (Text.toBytes text).length ≤ fuel → EndsValue rest →
    readValue fuel (Text.toBytes text ++ rest) = some (value, rest)

variable {text : String} {value : Json}

theorem ofText?_of_parsesAs (parsesAs : ParsesAs text value) : ofText? text = some value := by
  have endsValue : EndsValue [] := fun b present => nomatch present
  have read := parsesAs.read (2 * (Text.toBytes text).length + 2) [] (by omega) endsValue
  rw [List.append_nil] at read
  rw [ofText?, ofBytes?, read]
  rfl

-- The first byte takes a step of its own. What is behind it has two for each byte and one more.
theorem ParsesAs.of_bytes {b : UInt8} {bs : List UInt8} (bytes : Text.toBytes text = b :: bs)
    (visible : isSpace b = false) (opens : b ≠ 0x5D)
    (read : ∀ fuel rest, 2 * bs.length + 1 ≤ fuel → EndsValue rest →
      readValue (fuel + 1) (b :: (bs ++ rest)) = some (value, rest)) : ParsesAs text value where
  visible := ⟨b, bs, bytes, visible, opens⟩
  read fuel rest enough endsValue := by
    rw [bytes, List.length_cons] at enough
    obtain ⟨fuel, rfl⟩ := Nat.exists_eq_add_one_of_ne_zero (show fuel ≠ 0 by omega)
    rw [bytes]
    exact read fuel rest (by omega) endsValue

theorem parsesAs_null : ParsesAs "null" .null := by
  have bytes : Text.toBytes "null" = [0x6E, 0x75, 0x6C, 0x6C] := rfl
  refine .of_bytes bytes (by decide) (by decide) fun fuel rest _ _ => ?_
  rw [readValue]
  rfl

theorem readValue_quote (fuel : Nat) (rest : List UInt8) :
    readValue (fuel + 1) (0x22 :: rest) =
      (readString [] rest).map fun (raw, rest) => (.string raw, rest) := by
  rw [readValue, skipSpace_cons (by decide)]
  rfl

theorem parsesAs_string (text : String) : ParsesAs (writeString text) (.string (content text)) := by
  refine .of_bytes (toBytes_writeString text) (by decide) (by decide) fun fuel rest _ _ => ?_
  rw [List.append_assoc, List.singleton_append, readValue_quote, readString_content]
  rfl

theorem readNumber_zero {rest : List UInt8} (endsValue : EndsValue rest) :
    readNumber (0x30 :: 0x2E :: 0x30 :: rest) =
      some (⟨false, [0x30], some [0x30], none⟩, rest) := by
  cases rest with
  | nil => rfl
  | cons b bs => rcases endsValue b rfl with rfl | rfl | rfl <;> rfl

theorem parsesAs_zero : ParsesAs "0.0" (.number ⟨false, [0x30], some [0x30], none⟩) := by
  have bytes : Text.toBytes "0.0" = [0x30, 0x2E, 0x30] := rfl
  refine .of_bytes bytes (by decide) (by decide) fun fuel rest _ endsValue => ?_
  rw [readValue, skipSpace_cons (by decide)]
  change (readNumber (0x30 :: 0x2E :: 0x30 :: rest)).map _ = _
  rw [readNumber_zero endsValue]
  rfl

def joined (texts : List String) : List UInt8 := Text.toBytes (",".intercalate texts)

theorem joined_singleton (text : String) : joined [text] = Text.toBytes text := by
  rw [joined, String.intercalate_singleton]

theorem joined_cons_cons (text other : String) (texts : List String) :
    joined (text :: other :: texts) = Text.toBytes text ++ 0x2C :: joined (other :: texts) := by
  rw [joined, String.intercalate_cons_cons, Text.toBytes_append, Text.toBytes_append,
    List.append_assoc]
  rfl

-- By induction on the items: each but the last has a comma behind it.
theorem readItems_joined {texts : List String} {values : List Json}
    (each : List.Forall₂ ParsesAs texts values) (filled : texts ≠ []) :
    ∀ (fuel : Nat) (read : List Json) (rest : List UInt8),
      2 * (joined texts).length + 1 ≤ fuel →
      readItems fuel read (joined texts ++ 0x5D :: rest) =
        some (read.reverse ++ values, rest) := by
  induction each with
  | nil => exact absurd rfl filled
  | @cons text value texts values first later ih =>
    intro fuel read rest enough
    obtain ⟨fuel, rfl⟩ := Nat.exists_eq_add_one_of_ne_zero (show fuel ≠ 0 by omega)
    cases later with
    | nil =>
      rw [joined_singleton] at enough ⊢
      rw [readItems, first.read fuel _ (by omega) (endsValue_cons (by simp) rest)]
      simp [skipSpace_cons (show isSpace 0x5D = false by decide)]
    | @cons other _ texts values _ _ =>
      rw [joined_cons_cons, List.length_append, List.length_cons] at enough
      rw [joined_cons_cons, List.append_assoc, List.cons_append, readItems,
        first.read fuel _ (by omega) (endsValue_cons (by simp) _)]
      have next := ih (List.cons_ne_nil _ _) fuel (value :: read) rest (by omega)
      simp [skipSpace_cons (show isSpace 0x2C = false by decide), next]

theorem visible_joined {texts : List String} {values : List Json}
    (each : List.Forall₂ ParsesAs texts values) (filled : texts ≠ []) :
    ∃ b bs, joined texts = b :: bs ∧ isSpace b = false ∧ b ≠ 0x5D := by
  cases each with
  | nil => exact absurd rfl filled
  | @cons text value texts values first later =>
    obtain ⟨b, bs, same, visible, opens⟩ := first.visible
    cases later with
    | nil => exact ⟨b, bs, by rw [joined_singleton, same], visible, opens⟩
    | cons => exact ⟨b, _, by rw [joined_cons_cons, same, List.cons_append], visible, opens⟩

theorem toBytes_writeArray (texts : List String) :
    Text.toBytes (writeArray texts) = 0x5B :: (joined texts ++ [0x5D]) := by
  rw [writeArray, Text.toBytes_append, Text.toBytes_append]
  rfl

theorem readValue_bracket (fuel : Nat) {b : UInt8} (visible : isSpace b = false)
    (opens : b ≠ 0x5D) (bs : List UInt8) :
    readValue (fuel + 1) (0x5B :: b :: bs) =
      (readItems fuel [] (b :: bs)).map fun (items, rest) => (.array items, rest) := by
  have bracket : isSpace 0x5B = false := by decide
  simp only [readValue, skipSpace_cons bracket, skipSpace_cons visible]
  split
  next same =>
    cases same
    exact absurd rfl opens
  next => rfl

theorem parsesAs_array {texts : List String} {values : List Json}
    (each : List.Forall₂ ParsesAs texts values) : ParsesAs (writeArray texts) (.array values) := by
  refine .of_bytes (toBytes_writeArray texts) (by decide) (by decide) fun fuel rest enough _ => ?_
  rw [List.append_assoc, List.singleton_append]
  cases texts with
  | nil =>
    cases each
    rw [readValue]
    rfl
  | cons text texts =>
    have filled := List.cons_ne_nil text texts
    have items := readItems_joined each filled fuel [] rest (by simp at enough; omega)
    obtain ⟨b, bs, first, visible, opens⟩ := visible_joined each filled
    rw [first, List.cons_append] at items ⊢
    rw [readValue_bracket fuel visible opens, items]
    rfl

theorem toBytes_writeMember (member : String × String) :
    Text.toBytes (writeMember member) =
      0x22 :: (content member.1 ++ 0x22 :: 0x3A :: Text.toBytes member.2) := by
  rw [writeMember, Text.toBytes_append, Text.toBytes_append, toBytes_writeString]
  simp
  rfl

theorem readMembers_member {member : String × String} {value : Json} {fuel : Nat}
    {read : List (List UInt8 × Json)} {b : UInt8} {bs : List UInt8}
    (parsesAs : ParsesAs member.2 value) (closes : b = 0x2C ∨ b = 0x7D)
    (enough : 2 * (Text.toBytes member.2).length ≤ fuel) :
    readMembers (fuel + 1) read (Text.toBytes (writeMember member) ++ b :: bs) =
      if b = 0x2C then readMembers fuel ((content member.1, value) :: read) bs
      else some (((content member.1, value) :: read).reverse, bs) := by
  rw [toBytes_writeMember]
  have same : 0x22 :: (content member.1 ++ 0x22 :: 0x3A :: Text.toBytes member.2) ++ b :: bs =
      0x22 :: (content member.1 ++ 0x22 :: 0x3A :: (Text.toBytes member.2 ++ b :: bs)) := by simp
  have endsValue : EndsValue (b :: bs) := endsValue_cons (by tauto) bs
  have quote : isSpace 0x22 = false := by decide
  have colon : isSpace 0x3A = false := by decide
  have behind : isSpace b = false := by rcases closes with rfl | rfl <;> decide
  rw [same]
  simp only [readMembers, skipSpace_cons quote, readString_content, Option.bind_eq_bind,
    Option.bind_some, skipSpace_cons colon, parsesAs.read fuel _ enough endsValue,
    skipSpace_cons behind]
  rcases closes with rfl | rfl <;> rfl

theorem length_member_le (member : String × String) :
    (Text.toBytes member.2).length ≤ (Text.toBytes (writeMember member)).length := by
  simp [toBytes_writeMember]
  omega

def keys (members : List (String × String)) : List (List UInt8) := members.map (content ·.1)

theorem readMembers_joined {members : List (String × String)} {values : List Json}
    (each : List.Forall₂ (fun member value => ParsesAs member.2 value) members values)
    (filled : members ≠ []) :
    ∀ (fuel : Nat) (read : List (List UInt8 × Json)) (rest : List UInt8),
      2 * (joined (members.map writeMember)).length + 1 ≤ fuel →
      readMembers fuel read (joined (members.map writeMember) ++ 0x7D :: rest) =
        some (read.reverse ++ (keys members).zip values, rest) := by
  induction each with
  | nil => exact absurd rfl filled
  | @cons member value members values first later ih =>
    intro fuel read rest enough
    obtain ⟨fuel, rfl⟩ := Nat.exists_eq_add_one_of_ne_zero (show fuel ≠ 0 by omega)
    have shorter := length_member_le member
    cases later with
    | nil =>
      rw [List.map_singleton, joined_singleton] at enough ⊢
      rw [readMembers_member first (.inr rfl) (by omega)]
      simp [keys]
    | @cons other _ members values _ _ =>
      rw [List.map_cons, List.map_cons, joined_cons_cons, List.length_append,
        List.length_cons] at enough
      rw [List.map_cons, List.map_cons, joined_cons_cons, List.append_assoc, List.cons_append,
        readMembers_member first (.inl rfl) (by omega)]
      have next := ih (List.cons_ne_nil _ _) fuel ((content member.1, value) :: read) rest
        (by rw [List.map_cons]; omega)
      rw [List.map_cons] at next
      simp [next, keys]

theorem toBytes_writeObject (members : List (String × String)) :
    Text.toBytes (writeObject members) = 0x7B :: (joined (members.map writeMember) ++ [0x7D]) := by
  rw [writeObject, Text.toBytes_append, Text.toBytes_append]
  rfl

theorem parsesAs_object {members : List (String × String)} {values : List Json}
    (each : List.Forall₂ (fun member value => ParsesAs member.2 value) members values) :
    ParsesAs (writeObject members) (.object ((keys members).zip values)) := by
  refine .of_bytes (toBytes_writeObject members) (by decide) (by decide)
    fun fuel rest enough _ => ?_
  have brace : isSpace 0x7B = false := by decide
  have quote : isSpace 0x22 = false := by decide
  rw [List.append_assoc, List.singleton_append]
  cases members with
  | nil =>
    cases each
    rw [readValue]
    rfl
  | cons member members =>
    have filled := List.cons_ne_nil member members
    rw [List.length_append, List.length_singleton] at enough
    have read := readMembers_joined each filled fuel [] rest (by omega)
    obtain ⟨bs, first⟩ : ∃ bs, joined ((member :: members).map writeMember) = 0x22 :: bs := by
      cases members with
      | nil => exact ⟨_, by rw [List.map_singleton, joined_singleton, toBytes_writeMember]⟩
      | cons =>
        exact ⟨_, by rw [List.map_cons, List.map_cons, joined_cons_cons, toBytes_writeMember,
          List.cons_append]⟩
    rw [first, List.cons_append] at read ⊢
    simp only [readValue, skipSpace_cons brace, skipSpace_cons quote]
    change (readMembers fuel [] (0x22 :: (bs ++ 0x7D :: rest))).map _ = _
    rw [read]
    rfl

theorem filter_eq_singleton {α : Type} {fields : List (String × α)}
    (distinct : (fields.map Prod.fst).Nodup) {field : String × α} (present : field ∈ fields) :
    (fields.filter fun other => other.1 = field.1) = [field] := by
  induction fields with
  | nil => exact absurd present List.not_mem_nil
  | cons first fields ih =>
    rw [List.map_cons, List.nodup_cons] at distinct
    obtain ⟨new, distinct⟩ := distinct
    rcases List.mem_cons.1 present with rfl | later
    · have none : (fields.filter fun other => other.1 = field.1) = [] := by
        rw [List.filter_eq_nil_iff]
        intro other there same
        exact new (List.mem_map.2 ⟨other, there, by simpa using same⟩)
      rw [List.filter_cons_of_pos (by simp), none]
    · have other : first.1 ≠ field.1 := fun same => new (List.mem_map.2 ⟨field, later, same.symm⟩)
      rw [List.filter_cons_of_neg (by simpa using other), ih distinct later]

theorem record?_object {members : List (List UInt8 × Json)} {fields : List (String × Json)}
    (called : members.mapM (fun (key, value) => (text? key).map fun key => (key, value)) =
      some fields) (distinct : (fields.map Prod.fst).Nodup) :
    (Json.object members).record? (fields.map Prod.fst) = some (fields.map Prod.snd) := by
  have found : named? false (fields.map Prod.fst) members =
      some (fields.map fun field => some field.2) := by
    unfold named?
    rw [called]
    simp only [Option.bind_eq_bind, Option.bind_some, Bool.false_eq_true, false_and, if_false,
      List.mapM_map]
    rw [mapM_eq_some_iff, List.map_map]
    refine List.map_congr_left fun field present => ?_
    rw [Function.comp_apply, filter_eq_singleton distinct present]
    rfl
  rw [record?, fields?, found]
  simp

theorem exists_record {members : List (String × String)} {values : List Json}
    (each : List.Forall₂ (fun member value => ParsesAs member.2 value) members values)
    (distinct : (members.map Prod.fst).Nodup) :
    ∃ value, ParsesAs (writeObject members) value ∧
      value.record? (members.map Prod.fst) = some values := by
  refine ⟨_, parsesAs_object each, ?_⟩
  have sized := each.length_eq
  have names : ((members.map Prod.fst).zip values).map Prod.fst = members.map Prod.fst :=
    List.map_fst_zip (by simp [sized])
  have kept : ((members.map Prod.fst).zip values).map Prod.snd = values :=
    List.map_snd_zip (by simp [sized])
  have called : ((keys members).zip values).mapM (fun (key, value) =>
      (text? key).map fun key => (key, value)) = some ((members.map Prod.fst).zip values) := by
    have same : keys members = (members.map Prod.fst).map content := by
      rw [List.map_map]
      rfl
    rw [same, List.zip_map_left, mapM_eq_some_iff, List.map_map]
    refine List.map_congr_left fun (name, value) _ => ?_
    simp only [Function.comp_apply, Prod.map_apply, text?_content]
    rfl
  have read := record?_object called (by rwa [names])
  rwa [names, kept] at read

section

variable {α : Type} {read? : Json → Option α}

def DecodesTo (text : String) (read? : Json → Option α) (a : α) : Prop :=
  ∃ value, ParsesAs text value ∧ read? value = some a

theorem DecodesTo.unique {text : String} {a b : α} (decodesTo : DecodesTo text read? a)
    (decodesTo' : DecodesTo text read? b) : a = b := by
  obtain ⟨value, parsesAs, read⟩ := decodesTo
  obtain ⟨other, parsesAs', read'⟩ := decodesTo'
  have same := (ofText?_of_parsesAs parsesAs).symm.trans (ofText?_of_parsesAs parsesAs')
  rw [Option.some.inj same, read'] at read
  exact (Option.some.inj read).symm

theorem decodesTo_string (text : String) : DecodesTo (writeString text) string? text :=
  ⟨_, parsesAs_string text, text?_content text⟩

theorem DecodesTo.map {β : Type} {text : String} {a : α} (decodesTo : DecodesTo text read? a)
    (f : α → β) : DecodesTo text (fun value => (read? value).map f) (f a) := by
  obtain ⟨value, parsesAs, read⟩ := decodesTo
  exact ⟨value, parsesAs, congrArg (Option.map f) read⟩

theorem DecodesTo.list {write : α → String} {items : List α}
    (each : ∀ a ∈ items, DecodesTo (write a) read? a) :
    DecodesTo (writeArray (items.map write)) (list? read?) items := by
  have parts : ∃ values, List.Forall₂ ParsesAs (items.map write) values ∧
      values.mapM read? = some items := by
    induction items with
    | nil => exact ⟨[], .nil, rfl⟩
    | cons a items ih =>
      obtain ⟨first, rest⟩ := List.forall_mem_cons.1 each
      obtain ⟨value, parsesAs, read⟩ := first
      obtain ⟨values, all, reads⟩ := ih rest
      refine ⟨value :: values, .cons parsesAs all, ?_⟩
      rw [List.mapM_cons, read, reads]
      rfl
  obtain ⟨values, all, reads⟩ := parts
  exact ⟨_, parsesAs_array all, reads⟩

theorem decodesTo_none : DecodesTo "null" (option? read?) none := ⟨_, parsesAs_null, rfl⟩

theorem DecodesTo.present {text : String} {a : α} (decodesTo : DecodesTo text read? a)
    (unread : read? .null = none) : DecodesTo text (option? read?) (some a) := by
  obtain ⟨value, parsesAs, read⟩ := decodesTo
  refine ⟨value, parsesAs, ?_⟩
  cases value with
  | null => simp [unread] at read
  | _ =>
    rw [option?, read, Option.map_some]
    exact nofun

end

end DeclarativeMdp.Json
