import DeclarativeMdp.Random.Checkpoint

set_option autoImplicit false

namespace DeclarativeMdp

theorem KeyStream.seek_position (stream : KeyStream) : stream.seek stream.position = stream := by
  have inside : (stream.position : Nat) % streamPeriod = stream.position :=
    Nat.mod_eq_of_lt stream.position.isLt
  simp only [seek, inside]

namespace Generator

variable {n bits attempts i : Nat} {g next last : Generator}

structure Shares (g next : Generator) : Prop where
  key : next.stream.key = g.stream.key
  seed : next.seed = g.seed

theorem Shares.refl (g : Generator) : Shares g g := ⟨rfl, rfl⟩

theorem Shares.trans (first : Shares g next) (second : Shares next last) : Shares g last :=
  ⟨second.key.trans first.key, second.seed.trans first.seed⟩

theorem shares_word (g : Generator) : Shares g g.word.2 := ⟨rfl, rfl⟩

theorem shares_doubleWord (g : Generator) : Shares g g.doubleWord.2 :=
  g.shares_word.trans g.word.2.shares_word

theorem shares_of_drawScaled {draw : Generator → Nat × Generator}
    (leads : ∀ g, Shares g (draw g).2)
    (drawn : drawScaled bits draw n attempts g = some (i, next)) : Shares g next := by
  induction attempts generalizing g with
  | zero => exact nomatch drawn
  | succ attempts ih =>
    unfold drawScaled at drawn
    dsimp only at drawn
    split at drawn
    next =>
      cases drawn
      exact leads g
    next => exact (leads g).trans (ih drawn)

theorem shares_of_index (drawn : g.index n = some (i, next)) : Shares g next := by
  unfold index at drawn
  split at drawn
  next => exact shares_of_drawScaled shares_word drawn
  next => exact shares_of_drawScaled shares_doubleWord drawn

theorem shares_choose {α : Type} (items : List α) (g : Generator) :
    Shares g (g.choose items).2 := by
  unfold choose
  split
  next => exact .refl g
  next =>
    split
    next drawn => exact shares_of_index drawn
    next => exact .refl g

theorem shares_of_range {low high number : UInt64}
    (drawn : range low high g = .ok (number, next)) : Shares g next := by
  unfold range at drawn
  split at drawn
  next =>
    split at drawn
    next drawn' =>
      cases drawn
      exact shares_of_drawScaled shares_doubleWord drawn'
    next => exact nomatch drawn
  next => exact nomatch drawn

theorem shares_of_bool {probability : Float} {truth : Bool}
    (drawn : bool probability g = .ok (truth, next)) : Shares g next := by
  unfold bool at drawn
  split at drawn
  next =>
    cases drawn
    exact shares_doubleWord g
  next =>
    split at drawn
    next =>
      cases drawn
      exact .refl g
    next => exact nomatch drawn

def Keyed (g : Generator) : Prop := g.stream.key = key g.seed

theorem keyed_ofSeed (seed : UInt64) : (ofSeed seed).Keyed := rfl

theorem keyed_forEpisode (g : Generator) (episode : UInt64) : (g.forEpisode episode).Keyed := rfl

theorem keyed_resume (checkpoint : Checkpoint) : (resume checkpoint).Keyed := rfl

theorem Shares.keyed (shares : Shares g next) (keyed : g.Keyed) : next.Keyed := by
  rw [Keyed, shares.key, shares.seed]
  exact keyed

-- A checkpoint has no key in it, so what comes back has that of the seed.
theorem resume_checkpoint_iff : resume g.checkpoint = g ↔ g.Keyed := by
  constructor
  · intro same
    rw [← same]
    exact keyed_resume g.checkpoint
  · intro keyed
    have stream : (KeyStream.start (key g.seed)).seek g.stream.position = g.stream := by
      rw [← keyed]
      exact g.stream.seek_position
    change (⟨(KeyStream.start (key g.seed)).seek g.stream.position, g.seed⟩ : Generator) = g
    rw [stream]

end Generator

end DeclarativeMdp
