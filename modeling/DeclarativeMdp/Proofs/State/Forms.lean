import DeclarativeMdp.Proofs.Json.Documents
import DeclarativeMdp.Proofs.Snapshot.RoundTrip
import DeclarativeMdp.Trajectory.Json
import Mathlib.Algebra.Order.BigOperators.Group.List

set_option autoImplicit false

namespace DeclarativeMdp

open Json

theorem decodesTo_fact (fact : Fact) : DecodesTo fact.toJson Fact.ofJson? fact :=
  (decodesTo_string fact.text).map Fact.mk

theorem decodesTo_action (action : Action) : DecodesTo action.toJson Action.ofJson? action :=
  (decodesTo_string action.text).map Action.mk

theorem decodesTo_state (state : State) : DecodesTo state.toJson State.ofJson? state := by
  obtain ⟨facts, written, read⟩ := DecodesTo.list fun fact (_ : fact ∈ state.toList) =>
    decodesTo_fact fact
  have each : List.Forall₂ (fun member value => ParsesAs member.2 value)
      [("facts", writeArray (state.toList.map Fact.toJson))] [facts] := .cons written .nil
  obtain ⟨value, parsesAs, fields⟩ := exists_record each (by simp)
  have named : value.record? ["facts"] = some [facts] := fields
  refine ⟨value, parsesAs, ?_⟩
  rw [State.ofJson?, named]
  simp [read]

namespace State

theorem toJson_injective : Function.Injective toJson := fun left right same => by
  have decodesTo := decodesTo_state left
  rw [same] at decodesTo
  exact decodesTo.unique (decodesTo_state right)

variable {state : State}

theorem length_state (state : State) : (Snapshot.state state).length =
    8 + (state.toList.map fun fact => 8 + fact.text.utf8ByteSize).sum := by
  rw [Snapshot.state, Snapshot.list, List.length_append, List.length_flatMap]
  simp only [Snapshot.text, List.length_append]
  rfl

theorem size_le_length : state.size ≤ (Snapshot.state state).length := by
  have filled := List.length_le_sum_of_one_le
    (state.toList.map fun fact => 8 + fact.text.utf8ByteSize) fun size present => by
      obtain ⟨fact, -, rfl⟩ := List.mem_map.1 present
      omega
  rw [List.length_map] at filled
  rw [length_state]
  exact le_add_left filled

theorem utf8ByteSize_le_length {fact : Fact} (present : fact ∈ state) :
    fact.text.utf8ByteSize ≤ (Snapshot.state state).length := by
  have part := List.le_sum_of_mem (List.mem_map_of_mem
    (f := fun fact : Fact => 8 + fact.text.utf8ByteSize) (SortedSet.mem_toList.2 present))
  rw [length_state]
  omega

theorem eq_of_snapshot {left right : State}
    (short : (Snapshot.state left).length < UInt64.size)
    (same : Snapshot.state left = Snapshot.state right) : left = right := by
  have formed {state : State} (short : (Snapshot.state state).length < UInt64.size) :
      Snapshot.IsState (Snapshot.state state) state :=
    Snapshot.isState_state (size_le_length.trans_lt short) fun _ present =>
      (utf8ByteSize_le_length present).trans_lt short
  have read := Snapshot.readState_reads.read_append (formed short) []
  rw [same, Snapshot.readState_reads.read_append (formed (same ▸ short)) []] at read
  exact (congrArg Prod.fst (Option.some.inj read)).symm

end State

end DeclarativeMdp
