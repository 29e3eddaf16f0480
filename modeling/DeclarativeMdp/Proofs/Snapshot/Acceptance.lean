import DeclarativeMdp.Proofs.Snapshot.RoundTrip
import DeclarativeMdp.Proofs.Trajectory.Answers

set_option autoImplicit false

namespace DeclarativeMdp.Trajectory

open Snapshot

def StartsWith (bytes : List UInt8) (run : Trajectory) : Prop :=
  ∃ front, front <+: bytes ∧ IsTrajectory front run

theorem startsWith_iff {bytes : List UInt8} {run : Trajectory} :
    StartsWith bytes run ↔ ∃ rest, readTrajectory bytes = some (run, rest) := by
  constructor
  · rintro ⟨front, ⟨rest, rfl⟩, formed⟩
    exact ⟨rest, readTrajectory_reads.read_append formed rest⟩
  · rintro ⟨rest, read⟩
    obtain ⟨front, rfl, formed⟩ := (readTrajectory_reads ..).1 read
    exact ⟨front, List.prefix_append .., formed⟩

theorem StartsWith.unique {bytes : List UInt8} {run other : Trajectory}
    (starts : StartsWith bytes run) (starts' : StartsWith bytes other) : run = other := by
  obtain ⟨rest, read⟩ := startsWith_iff.1 starts
  obtain ⟨rest', read'⟩ := startsWith_iff.1 starts'
  exact congrArg Prod.fst (Option.some.inj (read.symm.trans read'))

theorem StartsWith.ofBytes_eq {bytes : List UInt8} {run : Trajectory}
    (starts : StartsWith bytes run) : ofBytes bytes = run.check.map fun _ => run := by
  obtain ⟨rest, read⟩ := startsWith_iff.1 starts
  rw [ofBytes, read]
  dsimp only
  cases run.check <;> rfl

theorem ofBytes_of_not_startsWith {bytes : List UInt8} (none : ∀ run, ¬ StartsWith bytes run) :
    ofBytes bytes = .error .unreadableSnapshot := by
  cases read : readTrajectory bytes with
  | none => rw [ofBytes, read]
  | some piece => exact absurd (startsWith_iff.2 ⟨piece.2, read⟩) (none piece.1)

section

variable {bytes : List UInt8} {run : Trajectory} {flaw : SnapshotFlaw}

theorem ofBytes_eq_ok_iff : ofBytes bytes = .ok run ↔ StartsWith bytes run ∧ run.Valid := by
  by_cases found : ∃ other, StartsWith bytes other
  · obtain ⟨other, starts⟩ := found
    rw [starts.ofBytes_eq, map_eq_ok_iff, ← check_eq_ok_iff]
    constructor
    · rintro ⟨_, passed, rfl⟩
      exact ⟨starts, passed⟩
    · rintro ⟨starts', passed⟩
      obtain rfl := starts'.unique starts
      exact ⟨(), passed, rfl⟩
  · have none := not_exists.1 found
    rw [ofBytes_of_not_startsWith none]
    exact ⟨nofun, fun accepted => absurd accepted.1 (none run)⟩

theorem ofBytes_eq_corrupt_iff : ofBytes bytes = .error (.corruptSnapshot flaw) ↔
    ∃ run, StartsWith bytes run ∧ run.Flawed flaw := by
  by_cases found : ∃ run, StartsWith bytes run
  · obtain ⟨run, starts⟩ := found
    rw [starts.ofBytes_eq, map_eq_error_iff, check_eq_error_iff]
    constructor
    · rintro ⟨_, same, flawed⟩
      obtain rfl := Error.corruptSnapshot.inj same
      exact ⟨run, starts, flawed⟩
    · rintro ⟨other, starts', flawed⟩
      obtain rfl := starts'.unique starts
      exact ⟨flaw, rfl, flawed⟩
  · have none := not_exists.1 found
    rw [ofBytes_of_not_startsWith none]
    exact ⟨nofun, fun ⟨run, starts, _⟩ => absurd starts (none run)⟩

end

end DeclarativeMdp.Trajectory
