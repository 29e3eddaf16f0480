import DeclarativeMdp.Json.Decode
import DeclarativeMdp.Proofs.Except
import DeclarativeMdp.Proofs.Snapshot.Readers

set_option autoImplicit false

namespace DeclarativeMdp.Json

inductive Within (size : Nat) : Json → Prop
  | null : Within size .null
  | bool (value : Bool) : Within size (.bool value)
  | number (numeral : Numeral) : Within size (.number numeral)
  | string {raw : List UInt8} (short : raw.length ≤ size) : Within size (.string raw)
  | array {items : List Json} (few : items.length ≤ size)
      (each : ∀ item ∈ items, Within size item) : Within size (.array items)
  | object {members : List (List UInt8 × Json)}
      (each : ∀ member ∈ members, Within size member.2) : Within size (.object members)

section

variable {α β : Type}

def Consumes (read : List UInt8 → Option (α × List UInt8)) : Prop :=
  ∀ ⦃bs : List UInt8⦄ ⦃a : α⦄ ⦃rest : List UInt8⦄, read bs = some (a, rest) →
    rest.length ≤ bs.length

theorem Consumes.map {read : List UInt8 → Option (α × List UInt8)} (consumes : Consumes read)
    (f : α → β) : Consumes fun bs => (read bs).map fun (a, rest) => (f a, rest) := by
  intro bs b rest made
  obtain ⟨⟨a, rest⟩, first, same⟩ := Option.map_eq_some_iff.1 made
  cases same
  exact consumes first

end

theorem length_skipSpace_le (bs : List UInt8) : (skipSpace bs).length ≤ bs.length :=
  (List.dropWhile_suffix isSpace).length_le

theorem readString_length {read bs raw rest : List UInt8}
    (made : readString read bs = some (raw, rest)) :
    raw.length + rest.length ≤ read.length + bs.length := by
  fun_induction readString read bs with
  | case1 => cases made
  | case2 => cases made; simp
  | case3 _ _ _ _ _ _ _ ih =>
    have := ih made
    simp only [List.length_cons] at this ⊢
    omega
  | case4 => cases made
  | case5 _ _ _ _ _ ih =>
    have := ih made
    simp only [List.length_cons] at this ⊢
    omega
  | case6 => cases made
  | case7 => cases made
  | case8 _ _ _ _ _ _ _ ih =>
    have := ih made
    simp only [List.length_cons] at this ⊢
    omega

theorem consumes_readDigits : Consumes readDigits := by
  intro bs digits rest made
  have shorter := (List.dropWhile_suffix (l := bs) isDigit).length_le
  rw [readDigits, List.span_eq_takeWhile_dropWhile] at made
  grind

theorem consumes_readFraction : Consumes readFraction := by
  intro bs fraction rest made
  unfold readFraction at made
  split at made
  next bs =>
    have shorter := consumes_readDigits.map some made
    exact shorter.trans (by simp)
  next => cases made; rfl

theorem consumes_readExponent : Consumes readExponent := by
  intro bs exponent rest made
  have digits (negative : Bool) := consumes_readDigits.map fun digits => some (negative, digits)
  unfold readExponent at made
  split at made
  next b bs =>
    split_ifs at made
    · split at made
      next bs => exact (digits false made).trans (by simp; omega)
      next bs => exact (digits true made).trans (by simp; omega)
      next => exact (digits false made).trans (by simp)
    · cases made; rfl
  next => cases made; rfl

theorem consumes_readWhole : Consumes readWhole := by
  intro bs digits rest made
  obtain ⟨⟨found, behind⟩, first, second⟩ := Option.bind_eq_some_iff.1 made
  dsimp only at second
  split_ifs at second
  cases second
  exact consumes_readDigits first

theorem consumes_readUnsigned (negative : Bool) : Consumes (readUnsigned negative) := by
  intro bs numeral rest made
  obtain ⟨⟨whole, afterWhole⟩, first, made⟩ := Option.bind_eq_some_iff.1 made
  obtain ⟨⟨fraction, afterFraction⟩, second, made⟩ := Option.bind_eq_some_iff.1 made
  obtain ⟨⟨exponent, afterExponent⟩, third, made⟩ := Option.bind_eq_some_iff.1 made
  cases made
  exact (consumes_readExponent third).trans
    ((consumes_readFraction second).trans (consumes_readWhole first))

theorem consumes_readNumber : Consumes readNumber := by
  intro bs numeral rest made
  unfold readNumber at made
  split at made
  next bs => exact (consumes_readUnsigned true made).trans (by simp)
  next => exact consumes_readUnsigned false made

variable {size : Nat}

def ReadsWithin (size : Nat) (read : List UInt8 → Option (Json × List UInt8)) : Prop :=
  ∀ ⦃bs : List UInt8⦄ ⦃value : Json⦄ ⦃rest : List UInt8⦄, bs.length ≤ size →
    read bs = some (value, rest) → Within size value ∧ rest.length ≤ bs.length

-- Each item costs a byte, for the comma or the bracket behind it.
def ItemsWithin (size fuel : Nat) : Prop :=
  ∀ ⦃read items : List Json⦄ ⦃bs rest : List UInt8⦄, bs.length ≤ size →
    readItems fuel read bs = some (items, rest) → (∀ item ∈ read, Within size item) →
    (∀ item ∈ items, Within size item) ∧ items.length + rest.length ≤ read.length + bs.length

def MembersWithin (size fuel : Nat) : Prop :=
  ∀ ⦃read members : List (List UInt8 × Json)⦄ ⦃bs rest : List UInt8⦄, bs.length ≤ size →
    readMembers fuel read bs = some (members, rest) →
    (∀ member ∈ read, Within size member.2) →
    (∀ member ∈ members, Within size member.2) ∧ rest.length ≤ bs.length

theorem readValue_within {fuel : Nat} (items : ItemsWithin size fuel)
    (members : MembersWithin size fuel) : ReadsWithin size (readValue (fuel + 1)) := by
  intro bs value rest short made
  have skipped := length_skipSpace_le bs
  rw [readValue] at made
  split at made
  next same =>
    cases made
    exact ⟨.null, by simp only [same, List.length_cons] at skipped; omega⟩
  next same =>
    cases made
    exact ⟨.bool true, by simp only [same, List.length_cons] at skipped; omega⟩
  next same =>
    cases made
    exact ⟨.bool false, by simp only [same, List.length_cons] at skipped; omega⟩
  next behind same =>
    obtain ⟨⟨raw, rest⟩, read, same'⟩ := Option.map_eq_some_iff.1 made
    cases same'
    have length := readString_length read
    simp only [same, List.length_cons, List.length_nil] at skipped length
    exact ⟨.string (by omega), by omega⟩
  next behind same =>
    have second := length_skipSpace_le behind
    simp only [same, List.length_cons] at skipped
    split at made
    next rest' closes =>
      cases made
      simp only [closes, List.length_cons] at second
      exact ⟨.array (by simp) (by simp), by omega⟩
    next =>
      obtain ⟨⟨list, rest⟩, read, same'⟩ := Option.map_eq_some_iff.1 made
      cases same'
      obtain ⟨each, few⟩ := items (by omega) read (by simp)
      rw [List.length_nil] at few
      exact ⟨.array (by omega) each, by omega⟩
  next behind same =>
    have second := length_skipSpace_le behind
    simp only [same, List.length_cons] at skipped
    split at made
    next rest' closes =>
      cases made
      simp only [closes, List.length_cons] at second
      exact ⟨.object (by simp), by omega⟩
    next =>
      obtain ⟨⟨list, rest⟩, read, same'⟩ := Option.map_eq_some_iff.1 made
      cases same'
      obtain ⟨each, shorter⟩ := members (by omega) read (by simp)
      exact ⟨.object each, by omega⟩
  next =>
    obtain ⟨⟨numeral, rest⟩, read, same⟩ := Option.map_eq_some_iff.1 made
    cases same
    exact ⟨.number numeral, (consumes_readNumber read).trans skipped⟩

theorem readItems_within {fuel : Nat} (values : ReadsWithin size (readValue fuel))
    (later : ItemsWithin size fuel) : ItemsWithin size (fuel + 1) := by
  intro read items bs rest short made each
  rw [readItems] at made
  obtain ⟨⟨item, behind⟩, first, made⟩ := Option.bind_eq_some_iff.1 made
  obtain ⟨within, shorter⟩ := values short first
  have skipped := length_skipSpace_le behind
  have known : ∀ other ∈ item :: read, Within size other :=
    List.forall_mem_cons.2 ⟨within, each⟩
  dsimp only at made
  split at made
  next same =>
    simp only [same, List.length_cons] at skipped
    obtain ⟨all, few⟩ := later (by omega) made known
    rw [List.length_cons] at few
    exact ⟨all, by omega⟩
  next same =>
    cases made
    simp only [same, List.length_cons] at skipped
    refine ⟨fun other present => known other (List.mem_reverse.1 present), ?_⟩
    simp
    omega
  next => cases made

theorem readMembers_within {fuel : Nat} (values : ReadsWithin size (readValue fuel))
    (later : MembersWithin size fuel) : MembersWithin size (fuel + 1) := by
  intro read members bs rest short made each
  have opened := length_skipSpace_le bs
  rw [readMembers] at made
  split at made
  next name same =>
    obtain ⟨⟨key, behind⟩, first, made⟩ := Option.bind_eq_some_iff.1 made
    have named := readString_length first
    have skipped := length_skipSpace_le behind
    simp only [same, List.length_cons, List.length_nil] at opened named
    dsimp only at made
    split at made
    next content same =>
      obtain ⟨⟨value, behind⟩, second, made⟩ := Option.bind_eq_some_iff.1 made
      simp only [same, List.length_cons] at skipped
      obtain ⟨within, shorter⟩ := values (by omega) second
      have closed := length_skipSpace_le behind
      have known : ∀ other ∈ (key, value) :: read, Within size other.2 :=
        List.forall_mem_cons.2 ⟨within, each⟩
      dsimp only at made
      split at made
      next same =>
        simp only [same, List.length_cons] at closed
        obtain ⟨all, shorter'⟩ := later (by omega) made known
        exact ⟨all, by omega⟩
      next same =>
        cases made
        simp only [same, List.length_cons] at closed
        exact ⟨fun other present => known other (List.mem_reverse.1 present), by omega⟩
      next => cases made
    next => cases made
  next => cases made

-- By induction on the fuel, for values, items and members at once.
theorem reads_within (fuel : Nat) :
    ReadsWithin size (readValue fuel) ∧ ItemsWithin size fuel ∧ MembersWithin size fuel := by
  induction fuel with
  | zero =>
    refine ⟨?_, ?_, ?_⟩
    · intro bs value rest _ made
      cases made
    · intro read items bs rest _ made
      cases made
    · intro read members bs rest _ made
      cases made
  | succ fuel ih =>
    obtain ⟨values, items, members⟩ := ih
    exact ⟨readValue_within items members, readItems_within values items,
      readMembers_within values members⟩

theorem ofText?_within {text : String} {value : Json} (read : ofText? text = some value) :
    Within text.utf8ByteSize value := by
  obtain ⟨⟨found, rest⟩, made, whole⟩ := Option.bind_eq_some_iff.1 read
  dsimp only at whole
  split_ifs at whole
  cases whole
  exact ((reads_within _).1 (Nat.le_refl _) made).1

theorem length_charBytes_le (value : Nat) : (charBytes value).length ≤ 4 := by
  have size : (charBytes value).length = (Char.ofNat value).utf8Size :=
    String.utf8ByteSize_singleton
  rw [size]
  exact Char.utf8Size_le_four _

theorem unescape_length {read raw bytes : List UInt8} (made : unescape read raw = some bytes) :
    bytes.length ≤ read.length + raw.length := by
  fun_induction unescape read raw with
  | case1 =>
    cases made
    simp
  | case2 => cases made
  | case3 _ _ _ _ _ _ _ _ _ _ _ _ _ _ _ value ih =>
    have stands := length_charBytes_le value
    have shorter := ih made
    simp only [List.length_append, List.length_reverse, List.length_cons] at shorter ⊢
    omega
  | case4 => cases made
  | case5 => cases made
  | case6 _ _ _ _ _ _ high _ _ ih =>
    have stands := length_charBytes_le high
    have shorter := ih made
    simp only [List.length_append, List.length_reverse, List.length_cons] at shorter ⊢
    omega
  | case7 _ _ _ _ ih =>
    have shorter := ih made
    simp only [List.length_cons] at shorter ⊢
    omega
  | case8 _ _ _ _ _ ih =>
    have shorter := ih made
    simp only [List.length_cons] at shorter ⊢
    omega

theorem text?_size {raw : List UInt8} {text : String} (read : text? raw = some text) :
    text.utf8ByteSize ≤ raw.length := by
  obtain ⟨bytes, made, decoded⟩ := Option.bind_eq_some_iff.1 read
  have shorter := unescape_length made
  rwa [← Text.ofBytes?_eq_some_iff.1 decoded, List.length_nil, Nat.zero_add] at shorter

section

variable {value : Json}

theorem Within.string? {text : String} (within : Within size value)
    (read : value.string? = some text) : text.utf8ByteSize ≤ size := by
  cases within with
  | string short => exact (text?_size read).trans short
  | _ => cases read

theorem Within.string?_map {α : Type} {wrap : String → α} {a : α} (within : Within size value)
    (read : value.string?.map wrap = some a) :
    ∃ text : String, text.utf8ByteSize ≤ size ∧ wrap text = a := by
  obtain ⟨text, found, same⟩ := Option.map_eq_some_iff.1 read
  exact ⟨text, within.string? found, same⟩

theorem Within.list? {α : Type} {read? : Json → Option α} {items : List α}
    (within : Within size value) (read : value.list? read? = some items) :
    items.length ≤ size ∧ ∀ item ∈ items, ∃ part, Within size part ∧ read? part = some item := by
  cases within with
  | array few each =>
    have same := mapM_eq_some_iff.1 read
    have length := congrArg List.length same
    rw [List.length_map, List.length_map] at length
    refine ⟨length ▸ few, fun item present => ?_⟩
    have found : some item ∈ items.map some := List.mem_map_of_mem present
    obtain ⟨part, inside, read⟩ := List.mem_map.1 (same ▸ found)
    exact ⟨part, each part inside, read⟩
  | _ => cases read

theorem named?_within {names : List String} {members : List (List UInt8 × Json)}
    {found : List (Option Json)} (each : ∀ member ∈ members, Within size member.2)
    (made : named? false names members = some found) :
    ∀ given ∈ found, Within size (given.getD .null) := by
  obtain ⟨decoded, first, second⟩ := Option.bind_eq_some_iff.1 made
  have known : ∀ member ∈ decoded, Within size member.2 := by
    intro member present
    have there : some member ∈ decoded.map some := List.mem_map_of_mem present
    rw [← mapM_eq_some_iff.1 first] at there
    obtain ⟨raw, inside, read⟩ := List.mem_map.1 there
    obtain ⟨key, -, rfl⟩ := Option.map_eq_some_iff.1 read
    exact each raw inside
  intro given present
  have there : some given ∈ found.map some := List.mem_map_of_mem present
  simp only [Bool.false_eq_true, false_and, if_false] at second
  rw [← mapM_eq_some_iff.1 second] at there
  obtain ⟨name, -, read⟩ := List.mem_map.1 there
  split at read
  next =>
    cases read
    exact .null
  next key value same =>
    cases read
    have listed : (key, value) ∈ [(key, value)] := List.mem_singleton_self _
    exact known _ (List.mem_of_mem_filter (same ▸ listed))
  next => cases read

theorem Within.record? {names : List String} {fields : List Json} (within : Within size value)
    (read : value.record? names = some fields) : ∀ field ∈ fields, Within size field := by
  obtain ⟨found, made, rfl⟩ := Option.map_eq_some_iff.1 read
  refine List.forall_mem_map.2 ?_
  cases within with
  | array few each =>
    simp only [fields?, Bool.false_eq_true, false_and, or_false] at made
    split at made
    next =>
      cases made
      intro given present
      rcases List.mem_append.1 present with listed | missing
      · obtain ⟨item, inside, rfl⟩ := List.mem_map.1 listed
        exact each item inside
      · rw [List.eq_of_mem_replicate missing]
        exact .null
    next => cases made
  | object each => exact named?_within each made
  | _ => cases made

end

end DeclarativeMdp.Json
