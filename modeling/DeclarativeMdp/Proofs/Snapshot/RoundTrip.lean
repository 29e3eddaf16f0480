import DeclarativeMdp.Proofs.Snapshot.Readers
import DeclarativeMdp.Proofs.Trajectory.History

set_option autoImplicit false

namespace DeclarativeMdp

namespace Snapshot

theorem isWord_word (n : UInt64) : IsWord (word n) n.toNat := by
  refine ⟨rfl, ?_⟩
  have bound := n.toNat_lt
  simp only [word, List.range, List.range.loop, List.map_cons, List.map_nil, Nat.ofDigits_cons,
    Nat.ofDigits_nil, UInt8.toNat_ofNat', Nat.pow_eq]
  omega

theorem isWord_count {n : Nat} (fits : n < UInt64.size) : IsWord (count n) n := by
  have word := isWord_word (.ofNat n)
  rwa [UInt64.toNat_ofNat_of_lt' fits] at word

theorem isText_text {value : String} (fits : (Text.toBytes value).length < UInt64.size) :
    IsText (text value) value :=
  ⟨_, rfl, isWord_count fits⟩

theorem isList_list {α : Type} {form : List UInt8 → α → Prop} {item : α → List UInt8}
    {items : List α} (fits : items.length < UInt64.size)
    (formed : ∀ a ∈ items, form (item a) a) : IsList form (list item items) items := by
  refine ⟨_, _, rfl, isWord_count fits, ?_⟩
  clear fits
  induction items with
  | nil => exact .nil
  | cons a as ih =>
    rw [List.flatMap_cons]
    exact .cons (formed a (by simp)) (ih fun b present => formed b (by simp [present]))

theorem isOption_option {α : Type} {form : List UInt8 → α → Prop} {item : α → List UInt8}
    (formed : ∀ a, form (item a) a) : ∀ value, IsOption form (option item value) value
  | none => .absent
  | some a => .present (formed a)

theorem isState_state {state : State} (few : state.size < UInt64.size)
    (short : ∀ fact ∈ state, fact.text.utf8ByteSize < UInt64.size) :
    IsState (Snapshot.state state) state :=
  ⟨state.toList, isList_list few fun fact present => isText_text (short fact present),
    (SortedSet.ofList_toList state).symm⟩

end Snapshot

namespace Trajectory

open Snapshot

-- Each length is a number of 64 bits, as that of anything a memory can hold.
structure Fits (run : Trajectory) : Prop where
  states : run.states.length < UInt64.size
  facts : ∀ state ∈ run.states, state.size < UInt64.size
  factTexts : ∀ state ∈ run.states, ∀ fact ∈ state, fact.text.utf8ByteSize < UInt64.size
  actionTexts : ∀ action ∈ run.actions, action.text.utf8ByteSize < UInt64.size

-- The parts need not fit together for this.
theorem isTrajectory_of_lengths {run : Trajectory} (fits : run.Fits)
    (actions : run.actions.length < UInt64.size) (rewards : run.rewards.length < UInt64.size) :
    IsTrajectory run.toBytes run := by
  refine ⟨_, _, _, List.append_assoc .., isList_list fits.states fun state present => ?_,
    isList_list actions fun action present => ?_, isList_list rewards fun reward _ => ?_⟩
  · exact isState_state (fits.facts state present) (fits.factTexts state present)
  · exact isText_text (fits.actionTexts action present)
  · exact isOption_option (fun reward => isWord_word reward.bits) reward

theorem isTrajectory_toBytes {run : Trajectory} (valid : run.Valid) (fits : run.Fits) :
    IsTrajectory run.toBytes run := by
  have states := fits.states
  have lengths := valid.states_length
  refine isTrajectory_of_lengths fits (by omega) ?_
  rwa [valid.rewards_length]

theorem ofBytes_append {front : List UInt8} {run : Trajectory} (formed : IsTrajectory front run)
    (valid : run.Valid) (rest : List UInt8) : ofBytes (front ++ rest) = .ok run := by
  rw [ofBytes, readTrajectory_reads.read_append formed rest]
  dsimp only
  rw [check_eq_ok_iff.2 valid]
  rfl

theorem ofBytes_part {bytes part : List UInt8} {run : Trajectory} (formed : IsTrajectory bytes run)
    (isPart : part <+: bytes) (proper : part ≠ bytes) :
    ofBytes part = .error .unreadableSnapshot := by
  rw [ofBytes, readTrajectory_reads.read_part formed isPart proper]

theorem ofBytes_toBytes {run : Trajectory} (valid : run.Valid) (fits : run.Fits) :
    IsTrajectory run.toBytes run ∧ ofBytes run.toBytes = .ok run ∧
      (∀ rest, ofBytes (run.toBytes ++ rest) = .ok run) ∧
      ∀ part, part <+: run.toBytes → part ≠ run.toBytes →
        ofBytes part = .error .unreadableSnapshot := by
  have formed := isTrajectory_toBytes valid fits
  refine ⟨formed, ?_, ofBytes_append formed valid, fun part => ofBytes_part formed⟩
  simpa using ofBytes_append formed valid []

def marked : Trajectory := (start ⟨[⟨"p(é)"⟩], by simp⟩).push ⟨"a"⟩ ∅ ⟨0x7FF8000000000001⟩

theorem ofBytes_toBytes_marked :
    marked.Valid ∧ marked.Fits ∧ ofBytes marked.toBytes = .ok marked ∧
      ofBytes (marked.toBytes ++ [0]) = .ok marked ∧
      ofBytes (marked.toBytes.take 60) = .error .unreadableSnapshot := by
  have valid : marked.Valid := (start_valid _).push ..
  have fits : marked.Fits := ⟨by decide, by decide, by decide, by decide⟩
  obtain ⟨-, whole, longer, shorter⟩ := ofBytes_toBytes valid fits
  exact ⟨valid, fits, whole, longer [0], shorter _ (List.take_prefix ..) (by decide)⟩

end Trajectory

end DeclarativeMdp
