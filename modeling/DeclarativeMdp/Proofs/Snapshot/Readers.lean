import DeclarativeMdp.Proofs.Snapshot.Format
import Mathlib.Data.Nat.Digits.Lemmas

set_option autoImplicit false

namespace DeclarativeMdp

theorem Text.ofBytes?_eq_some_iff {bytes : List UInt8} {text : String} :
    Text.ofBytes? bytes = some text ↔ Text.toBytes text = bytes := by
  unfold Text.ofBytes? String.fromUTF8? Text.toBytes
  constructor
  · intro read
    split at read
    next valid =>
      obtain rfl := Option.some.inj read
      rfl
    next => simp at read
  · rintro rfl
    exact dif_pos text.isValidUTF8

namespace Snapshot

variable {α β : Type}

def Reads (read : Read α) (form : List UInt8 → α → Prop) : Prop :=
  ∀ bytes a rest, read bytes = some (a, rest) ↔ ∃ front, bytes = front ++ rest ∧ form front a

section

variable {read : Read α} {form : List UInt8 → α → Prop}

theorem Reads.of_iff {form' : List UInt8 → α → Prop} (reads : Reads read form)
    (same : ∀ bytes a, form bytes a ↔ form' bytes a) : Reads read form' := by
  intro bytes a rest
  simp only [reads bytes a rest, same]

theorem Reads.pure (a : α) :
    Reads (fun bytes => some (a, bytes)) (fun bytes b => bytes = [] ∧ a = b) := by
  intro bytes b rest
  simp [and_comm]

theorem Reads.bind {next : α → Read β} {later : α → List UInt8 → β → Prop}
    (first : Reads read form) (second : ∀ a, Reads (next a) (later a)) :
    Reads (fun bytes => (read bytes).bind fun piece => next piece.1 piece.2)
      (fun bytes b => ∃ a front back, bytes = front ++ back ∧ form front a ∧ later a back b) := by
  intro bytes b rest
  rw [Option.bind_eq_some_iff]
  constructor
  · rintro ⟨⟨a, bytes'⟩, taken, read⟩
    obtain ⟨front, rfl, formed⟩ := (first ..).1 taken
    obtain ⟨back, rfl, formed'⟩ := (second ..).1 read
    exact ⟨front ++ back, by simp, a, front, back, rfl, formed, formed'⟩
  · rintro ⟨_, rfl, a, front, back, rfl, formed, formed'⟩
    refine ⟨(a, back ++ rest), (first ..).2 ⟨front, by simp, formed⟩, ?_⟩
    exact (second ..).2 ⟨back, rfl, formed'⟩

theorem Reads.map (f : α → β) (reads : Reads read form) :
    Reads (fun bytes => (read bytes).map fun (a, rest) => (f a, rest))
      (fun bytes b => ∃ a, form bytes a ∧ f a = b) := by
  intro bytes b rest
  simp only [Option.map_eq_some_iff, Prod.exists, Prod.mk.injEq]
  constructor
  · rintro ⟨a, _, taken, rfl, rfl⟩
    obtain ⟨front, same, formed⟩ := (reads ..).1 taken
    exact ⟨front, same, a, formed, rfl⟩
  · rintro ⟨front, same, a, formed, rfl⟩
    exact ⟨a, rest, (reads ..).2 ⟨front, same, formed⟩, rfl, rfl⟩

theorem Reads.wrap (reads : Reads read form) (f : α → β) (g : β → α) (unwrapped : ∀ a, g (f a) = a)
    (wrapped : ∀ b, f (g b) = b) :
    Reads (fun bytes => (read bytes).map fun (a, rest) => (f a, rest))
      (fun bytes b => form bytes (g b)) := by
  refine (reads.map f).of_iff fun bytes b => ?_
  constructor
  · rintro ⟨a, formed, rfl⟩
    rwa [unwrapped]
  · intro formed
    exact ⟨g b, formed, wrapped b⟩

theorem Reads.read_append {front : List UInt8} {a : α} (reads : Reads read form)
    (formed : form front a) (rest : List UInt8) : read (front ++ rest) = some (a, rest) :=
  (reads ..).2 ⟨front, rfl, formed⟩

-- If a part of the piece were read, then so would be the same part of the whole piece, with
-- something left behind it.
theorem Reads.read_part {bytes part : List UInt8} {a : α} (reads : Reads read form)
    (formed : form bytes a) (isPart : part <+: bytes) (proper : part ≠ bytes) :
    read part = none := by
  obtain ⟨more, rfl⟩ := isPart
  cases taken : read part with
  | none => rfl
  | some piece =>
    obtain ⟨front, same, formed'⟩ := (reads ..).1 taken
    have whole := reads.read_append formed []
    have early := reads.read_append formed' (piece.2 ++ more)
    rw [← List.append_assoc, ← same] at early
    rw [List.append_nil, early, Option.some.injEq, Prod.mk.injEq, List.append_eq_nil_iff] at whole
    simp [whole.2.2] at proper

end

theorem IsWord.lt {bytes : List UInt8} {n : Nat} (word : IsWord bytes n) : n < UInt64.size := by
  have bound : Nat.ofDigits 256 (bytes.map UInt8.toNat) < 256 ^ (bytes.map UInt8.toNat).length := by
    refine Nat.ofDigits_lt_base_pow_length (by decide) fun digit present => ?_
    obtain ⟨byte, -, rfl⟩ := List.mem_map.1 present
    exact byte.toNat_lt
  rwa [word.value, List.length_map, word.eight] at bound

theorem readWord_append {front : List UInt8} (eight : front.length = 8) (rest : List UInt8) :
    readWord (front ++ rest) = some (.ofNat (Nat.ofDigits 256 (front.map UInt8.toNat)), rest) := by
  rw [Nat.ofDigits_eq_foldr, List.foldr_map]
  match front, eight with
  | [a, b, c, d, e, f, g, h], _ => rfl

theorem readWord_reads : Reads readWord (fun bytes n => IsWord bytes n.toNat) := by
  intro bytes n rest
  constructor
  · intro read
    have long : 8 ≤ bytes.length := by
      unfold readWord at read
      split at read
      next => simp
      next => simp at read
    have eight : (bytes.take 8).length = 8 := List.length_take_of_le long
    have taken := readWord_append eight (bytes.drop 8)
    rw [List.take_append_drop, read, Option.some.injEq, Prod.mk.injEq] at taken
    obtain ⟨rfl, rfl⟩ := taken
    have word : IsWord (bytes.take 8) _ := ⟨eight, rfl⟩
    refine ⟨bytes.take 8, (List.take_append_drop 8 bytes).symm, ?_⟩
    change IsWord _ (UInt64.ofNat _).toNat
    rwa [UInt64.toNat_ofNat_of_lt' word.lt]
  · rintro ⟨front, rfl, eight, value⟩
    rw [readWord_append eight, value, UInt64.ofNat_toNat]

theorem readWord_sized {body : UInt64 → Read α} {form : List UInt8 → α → Prop} {size : α → Nat}
    (bodies : ∀ length, Reads (body length) (fun bytes a => form bytes a ∧ size a = length.toNat)) :
    Reads (fun bytes => (readWord bytes).bind fun piece => body piece.1 piece.2)
      (fun bytes a =>
        ∃ front back, bytes = front ++ back ∧ IsWord front (size a) ∧ form back a) := by
  refine (readWord_reads.bind bodies).of_iff fun bytes a => ?_
  constructor
  · rintro ⟨length, front, back, rfl, word, formed, long⟩
    exact ⟨front, back, rfl, long ▸ word, formed⟩
  · rintro ⟨front, back, rfl, word, formed⟩
    have kept : (UInt64.ofNat (size a)).toNat = size a := UInt64.toNat_ofNat_of_lt' word.lt
    exact ⟨.ofNat _, front, back, rfl, by rwa [kept], formed, kept.symm⟩

theorem splitText_reads (length : UInt64) :
    Reads (fun bytes =>
        let parts := bytes.splitAt length.toNat
        if parts.1.length = length.toNat then do some (← Text.ofBytes? parts.1, parts.2) else none)
      (fun bytes text => Text.toBytes text = bytes ∧
        (Text.toBytes text).length = length.toNat) := by
  intro bytes text rest
  simp only [List.splitAt_eq]
  constructor
  · intro read
    split at read
    next long =>
      obtain ⟨_, decoded, same⟩ := Option.bind_eq_some_iff.1 read
      obtain ⟨rfl, rfl⟩ := Prod.mk.inj (Option.some.inj same)
      have formed := Text.ofBytes?_eq_some_iff.1 decoded
      exact ⟨_, (List.take_append_drop ..).symm, formed, formed ▸ long⟩
    next => simp at read
  · rintro ⟨_, rfl, rfl, long⟩
    rw [List.take_left' long, List.drop_left' long, if_pos long, Text.ofBytes?_eq_some_iff.2 rfl]
    rfl

theorem readText_reads : Reads readText IsText := by
  refine (readWord_sized splitText_reads).of_iff fun bytes text => ?_
  constructor
  · rintro ⟨size, _, rfl, word, rfl⟩
    exact ⟨size, rfl, word⟩
  · rintro ⟨size, rfl, word⟩
    exact ⟨size, _, rfl, word, rfl⟩

section

variable {item : Read α} {form : List UInt8 → α → Prop}

theorem readItems_reads (reads : Reads item form) (n : Nat) :
    Reads (readItems item n) (fun bytes items => AreItems form bytes items ∧ items.length = n) := by
  induction n with
  | zero =>
    refine (Reads.pure []).of_iff fun bytes items => ?_
    constructor
    · rintro ⟨rfl, rfl⟩
      exact ⟨.nil, rfl⟩
    · rintro ⟨formed, none⟩
      obtain rfl := List.length_eq_zero_iff.1 none
      cases formed
      exact ⟨rfl, rfl⟩
  | succ n ih =>
    refine (reads.bind fun a => ih.bind fun as => .pure (a :: as)).of_iff fun bytes items => ?_
    constructor
    · rintro ⟨a, front, _, rfl, first, as, back, _, rfl, ⟨later, long⟩, rfl, rfl⟩
      rw [List.append_nil]
      exact ⟨.cons first later, by simp [long]⟩
    · rintro ⟨formed, long⟩
      cases formed with
      | nil => simp at long
      | cons first later =>
        refine ⟨_, _, _, rfl, first, _, _, [], by simp, ⟨later, ?_⟩, rfl, rfl⟩
        simpa using long

theorem readList_reads (reads : Reads item form) : Reads (readList item) (IsList form) :=
  readWord_sized fun length => readItems_reads reads length.toNat

theorem readOption_reads (reads : Reads item form) : Reads (readOption item) (IsOption form) := by
  intro bytes a rest
  constructor
  · intro read
    unfold readOption at read
    split at read
    next rest' =>
      obtain ⟨rfl, rfl⟩ := Prod.mk.inj (Option.some.inj read)
      exact ⟨[0], rfl, .absent⟩
    next bytes =>
      obtain ⟨front, rfl, a, formed, rfl⟩ := (reads.map some ..).1 read
      exact ⟨1 :: front, rfl, .present formed⟩
    next => simp at read
  · rintro ⟨front, rfl, formed⟩
    cases formed with
    | absent => rfl
    | present formed => exact (reads.map some ..).2 ⟨_, rfl, _, formed, rfl⟩

end

theorem readFact_reads : Reads readFact IsFact :=
  readText_reads.wrap Fact.mk Fact.text (fun _ => rfl) fun _ => rfl

theorem readAction_reads : Reads readAction IsAction :=
  readText_reads.wrap Action.mk Action.text (fun _ => rfl) fun _ => rfl

theorem readReward_reads : Reads readReward IsReward :=
  readWord_reads.wrap Reward.mk Reward.bits (fun _ => rfl) fun _ => rfl

theorem readState_reads : Reads readState IsState :=
  ((readList_reads readFact_reads).map SortedSet.ofList).of_iff fun _ _ =>
    exists_congr fun _ => and_congr_right fun _ => eq_comm

theorem readTrajectory_reads : Reads readTrajectory IsTrajectory := by
  have parts := (readList_reads readState_reads).bind fun states =>
    (readList_reads readAction_reads).bind fun actions =>
      (readList_reads (readOption_reads readReward_reads)).bind fun rewards =>
        .pure (Trajectory.mk states actions rewards)
  refine parts.of_iff fun bytes run => ?_
  constructor
  · rintro ⟨states, front, _, rfl, isStates, actions, middle, _, rfl, isActions, rewards, back, _,
      rfl, isRewards, rfl, rfl⟩
    exact ⟨front, middle, back, by rw [List.append_nil], isStates, isActions, isRewards⟩
  · rintro ⟨front, middle, back, rfl, isStates, isActions, isRewards⟩
    exact ⟨_, front, _, rfl, isStates, _, middle, _, rfl, isActions, _, back, [],
      (List.append_nil _).symm, isRewards, rfl, rfl⟩

end Snapshot

end DeclarativeMdp
