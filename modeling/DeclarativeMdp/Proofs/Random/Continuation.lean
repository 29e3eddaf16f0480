import DeclarativeMdp.Proofs.Json.Numbers
import DeclarativeMdp.Proofs.Random.Streams

set_option autoImplicit false

namespace DeclarativeMdp

namespace Checkpoint

open Json

def reread (checkpoint : Checkpoint) : Option Checkpoint :=
  (ofText? checkpoint.toJson).bind ofJson?

theorem reread_eq {checkpoint : Checkpoint} (short : checkpoint.wordPosition < Nat.pow 2 128) :
    checkpoint.reread = some checkpoint := by
  obtain ⟨seed, writtenSeed, readSeed⟩ := decodesTo_uint64 checkpoint.seed
  obtain ⟨position, writtenPosition, readPosition⟩ := decodesTo_nat short
  have each : List.Forall₂ (fun member value => ParsesAs member.2 value)
      [("seed", toString checkpoint.seed), ("word_pos", toString checkpoint.wordPosition)]
      [seed, position] := .cons writtenSeed (.cons writtenPosition .nil)
  obtain ⟨value, parsesAs, fields⟩ := exists_record each (by simp)
  have named : value.record? ["seed", "word_pos"] = some [seed, position] := fields
  rw [reread, toJson, ofText?_of_parsesAs parsesAs, Option.bind_some, ofJson?, named]
  simp [readSeed, readPosition]

end Checkpoint

namespace Generator

inductive Operation : Type 1
  | range (low high : UInt64)
  | bool (probability : Float)
  | choose {α : Type} (items : List α)
  | forEpisode (episode : UInt64)
  | resume (checkpoint : Checkpoint)

inductive Answer : Type 1
  | number (drawn : Except Error UInt64)
  | truth (drawn : Except Error Bool)
  | item {α : Type} (chosen : Option α)
  | nothing

def settle {α : Type} (answer : Except Error α → Answer) (g : Generator) :
    Except Error (α × Generator) → Answer × Generator
  | .ok (value, next) => (answer (.ok value), next)
  | .error error => (answer (.error error), g)

def perform (g : Generator) : Operation → Answer × Generator
  | .range low high => settle .number g (range low high g)
  | .bool probability => settle .truth g (bool probability g)
  | .choose items => (.item (g.choose items).1, (g.choose items).2)
  | .forEpisode episode => (.nothing, g.forEpisode episode)
  | .resume checkpoint => (.nothing, resume checkpoint)

def performAll (g : Generator) : List Operation → List Answer × Generator
  | [] => ([], g)
  | operation :: operations =>
    let (answer, next) := g.perform operation
    let (answers, last) := next.performAll operations
    (answer :: answers, last)

variable {g : Generator}

theorem Keyed.settle {α : Type} {answer : Except Error α → Answer}
    {drawn : Except Error (α × Generator)} (keyed : g.Keyed)
    (shares : ∀ value next, drawn = .ok (value, next) → Shares g next) :
    (settle answer g drawn).2.Keyed := by
  cases drawn with
  | ok pair => exact (shares pair.1 pair.2 rfl).keyed keyed
  | error => exact keyed

theorem Keyed.perform (keyed : g.Keyed) (operation : Operation) :
    (g.perform operation).2.Keyed := by
  cases operation with
  | range low high => exact keyed.settle fun _ _ drawn => shares_of_range drawn
  | bool probability => exact keyed.settle fun _ _ drawn => shares_of_bool drawn
  | choose items => exact (shares_choose items g).keyed keyed
  | forEpisode episode => exact keyed_forEpisode g episode
  | resume checkpoint => exact keyed_resume checkpoint

theorem Keyed.performAll (keyed : g.Keyed) (operations : List Operation) :
    (g.performAll operations).2.Keyed := by
  induction operations generalizing g with
  | nil => exact keyed
  | cons operation operations ih => exact ih (keyed.perform operation)

theorem continues_from_checkpoint (seed : UInt64) (earlier later : List Operation) :
    let original := ((ofSeed seed).performAll earlier).2
    let restored := resume original.checkpoint
    original.checkpoint.reread = some original.checkpoint ∧
      (restored.performAll later).1 = (original.performAll later).1 ∧
      (restored.performAll later).2.checkpoint = (original.performAll later).2.checkpoint ∧
      ∀ episode, (restored.performAll later).2.forEpisode episode =
        (original.performAll later).2.forEpisode episode := by
  intro original restored
  have keyed : original.Keyed := (keyed_ofSeed seed).performAll earlier
  have same : restored = original := resume_checkpoint_iff.2 keyed
  have short : original.checkpoint.wordPosition < Nat.pow 2 128 :=
    original.stream.position.isLt.trans (by decide)
  rw [same]
  exact ⟨Checkpoint.reread_eq short, rfl, rfl, fun _ => rfl⟩

end Generator

end DeclarativeMdp
