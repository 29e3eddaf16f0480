import DeclarativeMdp.Episode.Log
import DeclarativeMdp.Proofs.Episode.Policy
import DeclarativeMdp.Proofs.Except

set_option autoImplicit false

namespace DeclarativeMdp.Episode

variable {σ π : Type} [Solver σ] [Policy π]

def singleEpisode (config : EpisodeConfig) (make : UInt64 → Outcome σ (Engine σ)) (fresh : π)
    (episode : UInt64) : Except Error Record := do
  let engine ← (make episode).result
  (run config engine fresh episode).result

def upcoming (count : Nat) (first : UInt64) : List UInt64 :=
  (List.range count).map fun i => first + .ofNat i

theorem upcoming_succ (count : Nat) (first : UInt64) :
    upcoming (count + 1) first = first :: upcoming count (first + 1) := by
  rw [upcoming, upcoming, List.range_succ_eq_map, List.map_cons, List.map_map]
  congr 1
  · simp
  · refine List.map_congr_left fun i _ => ?_
    rw [Function.comp_apply, Nat.succ_eq_add_one, Nat.add_comm, UInt64.ofNat_add,
      UInt64.add_assoc]
    rfl

theorem runFrom_result {fresh policy : π} (restarts : Restarts fresh) (used : Used fresh policy)
    (config : EpisodeConfig) (make : UInt64 → Outcome σ (Engine σ)) (count : Nat)
    (first : UInt64) :
    (runFrom config make policy count first).result =
      (upcoming count first).mapM (singleEpisode config make fresh) := by
  induction count generalizing policy first with
  | zero => rfl
  | succ count ih =>
    rw [upcoming_succ, List.mapM_cons, runFrom, singleEpisode]
    cases made : (make first).result with
    | error error => rfl
    | ok engine =>
      have same := run_of_restarts restarts used config engine first
      have next := used.run config engine first
      rw [same] at next
      dsimp only [bind, Except.bind]
      rw [same]
      cases (run config engine fresh first).result with
      | error error => rfl
      | ok record =>
        dsimp only
        rw [ih next]
        cases (upcoming count (first + 1)).mapM (singleEpisode config make fresh) <;> rfl

theorem getElem?_upcoming (count i : Nat) :
    (upcoming count 0)[i]? = if i < count then some (.ofNat i) else none := by
  rw [upcoming, List.getElem?_map]
  by_cases inside : i < count
  · rw [List.getElem?_range inside, if_pos inside, Option.map_some, UInt64.zero_add]
  · rw [List.getElem?_eq_none (by simpa using inside), if_neg inside, Option.map_none]

section

variable {f : UInt64 → Except Error Record} {count : Nat}

theorem getElem?_map_upcoming_iff {i : Nat} {result : Except Error Record} :
    ((upcoming count 0).map f)[i]? = some result ↔ i < count ∧ f (.ofNat i) = result := by
  rw [List.getElem?_map, getElem?_upcoming]
  by_cases inside : i < count <;> simp [inside]

theorem mapM_upcoming_eq_ok_iff {records : List Record} :
    (upcoming count 0).mapM f = .ok records ↔
      records.length = count ∧ ∀ i < count, ∃ record,
        records[i]? = some record ∧ f (.ofNat i) = .ok record := by
  rw [mapM_eq_ok_iff]
  constructor
  · intro same
    have lengths : records.length = count := by
      simpa [upcoming, eq_comm] using congrArg List.length same
    refine ⟨lengths, fun i inside => ?_⟩
    have there : ((upcoming count 0).map f)[i]? = some (f (.ofNat i)) :=
      getElem?_map_upcoming_iff.2 ⟨inside, rfl⟩
    rw [same, List.getElem?_map] at there
    obtain ⟨record, present, result⟩ := Option.map_eq_some_iff.1 there
    exact ⟨record, present, result.symm⟩
  · rintro ⟨lengths, results⟩
    refine List.ext_getElem? fun i => ?_
    by_cases inside : i < count
    · obtain ⟨record, present, result⟩ := results i inside
      rw [getElem?_map_upcoming_iff.2 ⟨inside, result⟩, List.getElem?_map, present]
      rfl
    · rw [List.getElem?_eq_none (by simpa [upcoming] using inside),
        List.getElem?_eq_none (by simpa [lengths] using inside)]

theorem mapM_upcoming_eq_error_iff {error : Error} :
    (upcoming count 0).mapM f = .error error ↔
      ∃ i < count, f (.ofNat i) = .error error ∧ ∀ j < i, ∃ record, f (.ofNat j) = .ok record := by
  simp only [mapM_eq_error_iff, getElem?_map_upcoming_iff, and_assoc]
  refine exists_congr fun i => and_congr_right fun inside => and_congr_right fun _ => ?_
  exact forall₂_congr fun j early => exists_congr fun record =>
    and_iff_right (Nat.lt_trans early inside)

end

theorem runAll_result_iff (config : EpisodeConfig) (make : UInt64 → Outcome σ (Engine σ))
    (seed : UInt64) {policy : UniformRandom} (used : Used (.ofSeed seed) policy)
    (count : UInt64) :
    (∀ log, (runAll config make policy count).result = .ok log ↔
        log.records.length = count.toNat ∧ ∀ i < count.toNat, ∃ record,
          log.records[i]? = some record ∧
            singleEpisode config make (UniformRandom.ofSeed seed) (.ofNat i) = .ok record) ∧
      ∀ error, (runAll config make policy count).result = .error error ↔
        ∃ i < count.toNat,
          singleEpisode config make (UniformRandom.ofSeed seed) (.ofNat i) = .error error ∧
            ∀ j < i, ∃ record,
              singleEpisode config make (UniformRandom.ofSeed seed) (.ofNat j) = .ok record := by
  have result : (runAll config make policy count).result = Log.mk <$>
      (upcoming count.toNat 0).mapM (singleEpisode config make (UniformRandom.ofSeed seed)) := by
    rw [← runFrom_result (uniformRandom_restarts _) used]
    rfl
  rw [result]
  constructor
  · rintro ⟨records⟩
    refine map_eq_ok_iff.trans ?_
    simp only [Log.mk.injEq, exists_eq_right]
    exact mapM_upcoming_eq_ok_iff
  · intro error
    exact map_eq_error_iff.trans mapM_upcoming_eq_error_iff

def idle (episode : UInt64) : Outcome Scripted (Engine Scripted) :=
  Engine.create ∅ ∅ default (if episode = 2 then ⟨[.failure "down"]⟩ else ⟨[.models [[]]]⟩)
    .standard

theorem singleEpisode_idle (fresh : UniformRandom) {episode : UInt64} (other : episode ≠ 2) :
    singleEpisode ⟨100, false, none⟩ idle fresh episode =
      .ok ⟨episode, 0, 0.0, -0.0, none, true⟩ := by
  have nothing : Engine.executableActions ⟨[], []⟩ = ∅ := SortedSet.ofList_toList ∅
  have made : (idle episode).result =
      .ok ⟨∅, ∅, .standard, default, ⟨[]⟩, Engine.executableActions ⟨[], []⟩, .start ∅⟩ := by
    rw [idle, if_neg other]
    rfl
  rw [singleEpisode, made, nothing]
  rfl

def usedPolicy : UniformRandom :=
  (Policy.select ∅ (.ofList [⟨"a"⟩, ⟨"b"⟩]) (Policy.beginEpisode 3 (UniformRandom.ofSeed 7))).2

theorem runAll_result_iff_idle :
    (runAll ⟨100, false, none⟩ idle usedPolicy 2).result =
        .ok ⟨[⟨0, 0, 0.0, -0.0, none, true⟩, ⟨1, 0, 0.0, -0.0, none, true⟩]⟩ ∧
      (runAll ⟨100, false, none⟩ idle usedPolicy 5).result =
        .error (.solver (.reported "down")) := by
  have used : Used (.ofSeed 7) usedPolicy := (Used.unused.begun 3).asked ..
  have early {i : Nat} (below : i < 2) : i = 0 ∨ i = 1 := by omega
  constructor
  · refine ((runAll_result_iff _ idle 7 used 2).1 _).2 ⟨rfl, fun i inside => ?_⟩
    obtain rfl | rfl := early inside
    · exact ⟨_, rfl, singleEpisode_idle _ (by decide)⟩
    · exact ⟨_, rfl, singleEpisode_idle _ (by decide)⟩
  · refine ((runAll_result_iff _ idle 7 used 5).2 _).2 ⟨2, by decide, rfl, fun j inside => ?_⟩
    obtain rfl | rfl := early inside
    · exact ⟨_, singleEpisode_idle _ (by decide)⟩
    · exact ⟨_, singleEpisode_idle _ (by decide)⟩

end DeclarativeMdp.Episode
