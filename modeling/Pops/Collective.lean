import Pops.Distribution

/-!
What the ranks of a process space decide together. A collective reduction
returns the same value on every rank, so a decision is one function of what
all ranks contribute.
-/
namespace Pops
open MixedRadix

variable {d : ℕ}

namespace RankSpace

/-- The value `linear_rank` returns for a coordinate inside the space. -/
def order (space : RankSpace d) (coordinate : Index d) : ℕ :=
  strided space.counts (space.offset coordinate) (List.finRange d) 0 1

/-- Every coordinate of the space, by linear rank. -/
def ranks (space : RankSpace d) : List (Index d) :=
  (List.range space.size).filterMap fun rank => (space.coordinate rank).toOption

theorem coordinate_exists {space : RankSpace d} {rank : ℕ} (below : rank < space.size) :
    ∃ coordinate, space.coordinate rank = .ok coordinate := by
  unfold RankSpace.coordinate
  rw [throwIf_of_not (by omega)]
  exact ⟨_, rfl⟩

theorem linearRank_lt {space : RankSpace d} {coordinate : Index d} {rank : ℕ}
    (ranked : space.linearRank coordinate = .ok rank) : rank < space.size := by
  simp only [linearRank, bind_ok, throwIf_ok, unit_exists, pure_ok, not_not, strided_eq_encode, zero_add,
    one_mul] at ranked
  obtain ⟨inside, rfl⟩ := ranked
  refine encode_lt fun axis _ => ?_
  have := inside.2 axis
  unfold offset counts
  omega

theorem linearRank_exists {space : RankSpace d} {coordinate : Index d} (inside : space.Contains coordinate) :
    ∃ rank, space.linearRank coordinate = .ok rank ∧ space.coordinate rank = .ok coordinate := by
  obtain ⟨rank, ranked⟩ : ∃ rank, space.linearRank coordinate = .ok rank := by
    unfold linearRank
    rw [throwIf_of_not (not_not.mpr inside)]
    exact ⟨_, rfl⟩
  obtain ⟨result, ran⟩ := coordinate_exists (linearRank_lt ranked)
  rw [coordinate_linearRank ranked ran] at ran
  exact ⟨rank, ranked, ran⟩

theorem mem_ranks {space : RankSpace d} {coordinate : Index d} :
    coordinate ∈ space.ranks ↔ space.Contains coordinate := by
  unfold ranks
  rw [List.mem_filterMap]
  constructor
  · rintro ⟨rank, -, found⟩
    cases ran : space.coordinate rank with
    | error exception => simp [ran, Except.toOption] at found
    | ok result =>
      simp only [ran, Except.toOption, Option.some.injEq] at found
      subst found
      obtain ⟨below, digits⟩ := coordinate_ok ran
      have occupied : space.size ≠ 0 := by omega
      refine ⟨occupied, fun axis => ?_⟩
      have positive (a : Fin d) : 0 < space.counts a := by
        apply Nat.pos_of_ne_zero
        intro zero
        apply occupied
        rw [size, volume, List.prod_eq_zero_iff, List.mem_map]
        exact ⟨a, List.mem_finRange a, zero⟩
      have digit := decode_lt (fun a _ => positive a) (List.mem_finRange axis) rank fun _ => 0
      rw [digits axis]
      unfold counts at digit ⊢
      omega
  · intro inside
    obtain ⟨rank, ranked, ran⟩ := linearRank_exists inside
    exact ⟨rank, List.mem_range.mpr (linearRank_lt ranked), by rw [ran]; rfl⟩

theorem ranks_ne_nil {space : RankSpace d} (occupied : space.size ≠ 0) : space.ranks ≠ [] := by
  obtain ⟨origin, ran⟩ := coordinate_exists (Nat.pos_of_ne_zero occupied)
  have member : origin ∈ space.ranks :=
    List.mem_filterMap.mpr ⟨0, List.mem_range.mpr (by omega), by rw [ran]; rfl⟩
  exact List.ne_nil_of_mem member

end RankSpace

/-- `all_reduce_max(failure) == 0`: no rank contributed a failure. -/
def gate (ranks : List (Index d)) (failed : Index d → Bool) : Bool := ranks.all fun rank => !failed rank

theorem gate_iff {ranks : List (Index d)} {failed : Index d → Bool} :
    gate ranks failed = true ↔ ∀ rank ∈ ranks, failed rank = false := by
  simp [gate]

end Pops
