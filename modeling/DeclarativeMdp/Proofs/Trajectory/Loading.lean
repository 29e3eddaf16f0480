import DeclarativeMdp.Proofs.Json.Bounds
import DeclarativeMdp.Proofs.Snapshot.Acceptance
import DeclarativeMdp.Proofs.State.Forms
import DeclarativeMdp.Trajectory.Json
import Mathlib.Data.List.Perm.Subperm

set_option autoImplicit false

namespace DeclarativeMdp

open Json

theorem State.ofJson?_within {size : Nat} {value : Json} {state : State}
    (within : Within size value) (read : State.ofJson? value = some state) :
    state.size ≤ size ∧ ∀ fact ∈ state, fact.text.utf8ByteSize ≤ size := by
  obtain ⟨fields, named, read⟩ := Option.bind_eq_some_iff.1 read
  have known := within.record? named
  split at read
  next listed =>
    obtain ⟨facts, found, rfl⟩ := Option.map_eq_some_iff.1 read
    obtain ⟨few, each⟩ := (known listed (List.mem_singleton_self _)).list? found
    have fewer : (SortedSet.ofList facts).size ≤ facts.length :=
      (List.subperm_of_subset (SortedSet.nodup _) fun fact => SortedSet.mem_ofList.1).length_le
    refine ⟨fewer.trans few, fun fact present => ?_⟩
    obtain ⟨part, inside, read⟩ := each fact (SortedSet.mem_ofList.1 present)
    obtain ⟨text, short, rfl⟩ := inside.string?_map read
    exact short
  next => cases read

namespace Trajectory

def Loads (text : String) (run : Trajectory) : Prop := (ofText? text).bind ofJson? = some run

section

variable {run : Trajectory}

theorem decodesTo_reward {reward : Option Reward} (zero : ∀ r, reward = some r → r = .ofFloat 0.0) :
    DecodesTo (writeOption (fun r => writeFloat r.value) reward)
      (option? fun value => value.float?.map Reward.ofFloat) reward := by
  cases reward with
  | none => exact decodesTo_none
  | some r =>
    obtain rfl := zero r rfl
    have written : writeFloat (Reward.ofFloat 0.0).value = "0.0" := by decide +kernel
    rw [writeOption, written]
    exact DecodesTo.present ⟨_, parsesAs_zero, rfl⟩ rfl

-- Lists of any lengths are loaded, with rewards anywhere: whether they fit together is not asked.
-- That the rewards are zeros only keeps decimals out of this.
theorem loads_toJson (zeros : ∀ reward, some reward ∈ run.rewards → reward = .ofFloat 0.0) :
    Loads run.toJson run := by
  obtain ⟨states, writtenStates, readStates⟩ :=
    DecodesTo.list fun state (_ : state ∈ run.states) => decodesTo_state state
  obtain ⟨actions, writtenActions, readActions⟩ :=
    DecodesTo.list fun action (_ : action ∈ run.actions) => decodesTo_action action
  obtain ⟨rewards, writtenRewards, readRewards⟩ :=
    DecodesTo.list fun reward (present : reward ∈ run.rewards) =>
      decodesTo_reward fun r same => zeros r (same ▸ present)
  have each : List.Forall₂ (fun member value => ParsesAs member.2 value)
      [("states", writeArray (run.states.map State.toJson)),
        ("actions", writeArray (run.actions.map Action.toJson)),
        ("rewards", writeArray (run.rewards.map (writeOption fun r => writeFloat r.value)))]
      [states, actions, rewards] :=
    .cons writtenStates (.cons writtenActions (.cons writtenRewards .nil))
  obtain ⟨value, parsesAs, fields⟩ := exists_record each (by simp)
  have named : value.record? ["states", "actions", "rewards"] = some [states, actions, rewards] :=
    fields
  rw [Loads, toJson, ofText?_of_parsesAs parsesAs, Option.bind_some, ofJson?, named]
  simp [readStates, readActions, readRewards]

theorem Loads.fits {text : String} (loads : Loads text run)
    (short : text.utf8ByteSize < UInt64.size) :
    run.Fits ∧ run.actions.length < UInt64.size ∧ run.rewards.length < UInt64.size := by
  obtain ⟨value, read, made⟩ := Option.bind_eq_some_iff.1 loads
  obtain ⟨fields, named, made⟩ := Option.bind_eq_some_iff.1 made
  have known := (ofText?_within read).record? named
  split at made
  next states actions rewards =>
    obtain ⟨foundStates, readStates, made⟩ := Option.bind_eq_some_iff.1 made
    obtain ⟨foundActions, readActions, made⟩ := Option.bind_eq_some_iff.1 made
    obtain ⟨foundRewards, readRewards, made⟩ := Option.bind_eq_some_iff.1 made
    cases made
    obtain ⟨fewStates, eachState⟩ := (known states (by simp)).list? readStates
    obtain ⟨fewActions, eachAction⟩ := (known actions (by simp)).list? readActions
    obtain ⟨fewRewards, -⟩ := (known rewards (by simp)).list? readRewards
    refine ⟨⟨fewStates.trans_lt short, fun state present => ?_,
      fun state present fact inState => ?_, fun action present => ?_⟩,
      fewActions.trans_lt short, fewRewards.trans_lt short⟩
    · obtain ⟨part, inside, read⟩ := eachState state present
      exact (State.ofJson?_within inside read).1.trans_lt short
    · obtain ⟨part, inside, read⟩ := eachState state present
      exact ((State.ofJson?_within inside read).2 fact inState).trans_lt short
    · obtain ⟨part, inside, read⟩ := eachAction action present
      obtain ⟨text, short', rfl⟩ := inside.string?_map read
      exact short'.trans_lt short
  next => cases made

end

section

variable {run : Trajectory} (starts : StartsWith run.toBytes run)
include starts

theorem StartsWith.restored_iff : ofBytes run.toBytes = .ok run ↔ run.Valid := by
  rw [ofBytes_eq_ok_iff, and_iff_right starts]

theorem StartsWith.refused_iff {flaw : SnapshotFlaw} :
    ofBytes run.toBytes = .error (.corruptSnapshot flaw) ↔ run.Flawed flaw := by
  rw [ofBytes_eq_corrupt_iff]
  constructor
  · rintro ⟨other, starts', flawed⟩
    obtain rfl := starts.unique starts'
    exact flawed
  · intro flawed
    exact ⟨run, starts, flawed⟩

end

theorem loads_restored_iff {text : String} {run : Trajectory}
    (short : text.utf8ByteSize < UInt64.size) (loads : Loads text run) :
    (ofBytes run.toBytes = .ok run ↔ run.Valid) ∧
      (∀ flaw, ofBytes run.toBytes = .error (.corruptSnapshot flaw) ↔ run.Flawed flaw) ∧
      (run.Valid → run.Answers) ∧
      AnsweredWhen run.initialState (run.states ≠ []) ∧
      AnsweredWhen run.lastState (run.states ≠ []) ∧
      AnsweredWhen run.steps (run.actions = [] ∨
        run.actions.length < run.states.length ∧ run.actions.length < run.rewards.length) ∧
      ∀ discount, AnsweredWhen (run.returnHistory discount) (run.states ≠ [] ∧
        (run.states.length = 1 ∨ run.states.length ≤ run.rewards.length)) := by
  obtain ⟨fits, actions, rewards⟩ := loads.fits short
  have starts : StartsWith run.toBytes run :=
    ⟨_, List.prefix_refl _, isTrajectory_of_lengths fits actions rewards⟩
  exact ⟨starts.restored_iff, fun _ => starts.refused_iff, Valid.answers,
    initialState_answeredWhen run, lastState_answeredWhen run, steps_answeredWhen run,
    returnHistory_answeredWhen run⟩

def unfinished : Trajectory := ⟨[⟨[⟨"p"⟩], by simp⟩], [⟨"a"⟩], [none]⟩

theorem loads_restored_iff_unfinished :
    unfinished.toJson.utf8ByteSize < UInt64.size ∧ Loads unfinished.toJson unfinished ∧
      ofBytes unfinished.toBytes = .error (.corruptSnapshot (.lengths 1 1 1)) ∧
      unfinished.steps = .error .undefinedAnswer := by
  have short : unfinished.toJson.utf8ByteSize < UInt64.size := by decide +kernel
  have loads : Loads unfinished.toJson unfinished := loads_toJson (by simp [unfinished])
  obtain ⟨-, refused, -, -, -, steps, -⟩ := loads_restored_iff short loads
  have flawed : unfinished.Flawed (.lengths 1 1 1) :=
    .lengths (List.cons_ne_nil _ _) (.inr (by decide))
  exact ⟨short, loads, (refused _).2 flawed, steps.undefined (by decide)⟩

theorem loads_nothing :
    Loads "\x7b\"states\":[],\"actions\":[],\"rewards\":[]\x7d" ⟨[], [], []⟩ ∧
      ¬ (⟨[], [], []⟩ : Trajectory).Valid ∧
      lastState ⟨[], [], []⟩ = .error .undefinedAnswer ∧
      ofBytes (toBytes ⟨[], [], []⟩) = .error (.corruptSnapshot .noInitialState) := by
  have loads : Loads (toJson ⟨[], [], []⟩) ⟨[], [], []⟩ := loads_toJson (by simp)
  have written : toJson ⟨[], [], []⟩ =
      "\x7b\"states\":[],\"actions\":[],\"rewards\":[]\x7d" := by decide +kernel
  exact ⟨written ▸ loads, fun valid => by simpa using valid.states_length, rfl, by rfl⟩

end Trajectory

end DeclarativeMdp
