import Mathlib.Algebra.Order.BigOperators.Group.List
import Pops.TemporalExecutor

/-! Proofs about the temporal executor: its loop moves every rung to the
barrier, finer rungs first. -/
namespace Pops.TemporalExecutor

/-- The tick at which the next event of a batch ends. -/
def RungBatch.endTick (batch : RungBatch) : ℤ := batch.currentTick + batch.stride

/-- The batches that `next_batch_` prefers. -/
def RungBatch.Precedes (batch other : RungBatch) : Prop :=
  batch.endTick < other.endTick ∨ batch.endTick = other.endTick ∧ batch.rung ≤ other.rung

theorem RungBatch.Precedes.trans {first second third : RungBatch} (left : first.Precedes second)
    (right : second.Precedes third) : first.Precedes third := by
  unfold Precedes at *
  omega

variable {target : ℤ} {batches : List RungBatch}

/-- What the loop of `next_batch_` knows after the batches it has seen. -/
def Selects (target : ℤ) (seen : List RungBatch) (selected : Option RungBatch × ℤ) : Prop :=
  match selected.1 with
  | none => selected.2 = tickLimit ∧ ∀ batch ∈ seen, target ≤ batch.currentTick
  | some chosen => selected.2 = chosen.endTick ∧ chosen ∈ seen ∧ chosen.currentTick < target ∧
      ∀ batch ∈ seen, batch.currentTick < target → chosen.Precedes batch

private theorem considerBatch_selects {seen : List RungBatch} {selected : Option RungBatch × ℤ}
    (selects : Selects target seen selected) (batch : RungBatch)
    (fits : batch.currentTick < target → batch.endTick ≤ tickLimit) :
    Selects target (seen ++ [batch]) (considerBatch target selected batch) := by
  obtain ⟨chosen, best⟩ := selected
  unfold considerBatch
  by_cases finished : batch.currentTick ≥ target
  · rw [if_pos finished]
    cases chosen with
    | none =>
      refine ⟨selects.1, fun other listed => ?_⟩
      rcases List.mem_append.mp listed with earlier | last
      · exact selects.2 other earlier
      · rw [List.mem_singleton.mp last]
        exact finished
    | some chosen =>
      obtain ⟨same, listed, active, first⟩ := selects
      refine ⟨same, by simp [listed], active, fun other seenOther running => ?_⟩
      rcases List.mem_append.mp seenOther with earlier | last
      · exact first other earlier running
      · rw [List.mem_singleton.mp last] at running
        omega
  · rw [if_neg finished]
    have bound := fits (not_le.mp finished)
    cases chosen with
    | none =>
      obtain ⟨limit, none_active⟩ := selects
      simp only at limit
      have better : batch.currentTick + batch.stride < best ∨
          batch.currentTick + batch.stride = best ∧ ∀ other ∈ (none : Option RungBatch), batch.rung < other.rung := by
        simp only [Option.not_mem_none, false_imp_iff, implies_true, and_true]
        unfold RungBatch.endTick at bound
        omega
      rw [if_pos better]
      refine ⟨rfl, by simp, not_le.mp finished, fun other seenOther running => ?_⟩
      rcases List.mem_append.mp seenOther with earlier | last
      · exact absurd (none_active other earlier) (not_le.mpr running)
      · rw [List.mem_singleton.mp last]
        exact .inr ⟨rfl, le_refl _⟩
    | some chosen =>
      obtain ⟨same, listed, active, first⟩ := selects
      simp only at same
      simp only [Option.mem_some_iff, forall_eq', same]
      split
      · rename_i better
        have precedes : batch.Precedes chosen := by
          unfold RungBatch.Precedes RungBatch.endTick at *
          omega
        refine ⟨rfl, by simp, not_le.mp finished, fun other seenOther running => ?_⟩
        rcases List.mem_append.mp seenOther with earlier | last
        · exact precedes.trans (first other earlier running)
        · rw [List.mem_singleton.mp last]
          exact .inr ⟨rfl, le_refl _⟩
      · rename_i worse
        refine ⟨rfl, by simp [listed], active, fun other seenOther running => ?_⟩
        rcases List.mem_append.mp seenOther with earlier | last
        · exact first other earlier running
        · rw [List.mem_singleton.mp last]
          unfold RungBatch.Precedes RungBatch.endTick at *
          omega

theorem nextBatch_selects (fits : ∀ batch ∈ batches, batch.currentTick < target → batch.endTick ≤ tickLimit) :
    match nextBatch target batches with
    | none => ∀ batch ∈ batches, target ≤ batch.currentTick
    | some chosen => chosen ∈ batches ∧ chosen.currentTick < target ∧
        ∀ batch ∈ batches, batch.currentTick < target → chosen.Precedes batch := by
  have selects : ∀ seen : List RungBatch, (∀ batch ∈ seen, batch.currentTick < target → batch.endTick ≤ tickLimit) →
      Selects target seen (seen.foldl (considerBatch target) (none, tickLimit)) := by
    intro seen fits
    induction seen using List.reverseRecOn with
    | nil => exact ⟨rfl, by simp⟩
    | append_singleton earlier last ih =>
      rw [List.foldl_append]
      exact considerBatch_selects (ih fun batch listed => fits batch (by simp [listed])) last (fits last (by simp))
  have whole := selects batches fits
  unfold nextBatch
  unfold Selects at whole
  cases found : (batches.foldl (considerBatch target) (none, tickLimit)).1 with
  | none =>
    rw [found] at whole
    exact whole.2
  | some chosen =>
    rw [found] at whole
    exact whole.2

/-- The clocks of an attempt from a first tick to a target, when no event ends
after `last`. -/
structure Ticking (first target last : ℤ) (batches : List RungBatch) : Prop where
  limit : target ≤ tickLimit
  positive : ∀ batch ∈ batches, 0 < batch.stride
  nested : ∀ finer ∈ batches, ∀ coarser ∈ batches, finer.rung ≤ coarser.rung → finer.stride ∣ coarser.stride
  barrier : ∀ batch ∈ batches, batch.stride ∣ target - first
  aligned : ∀ batch ∈ batches, batch.stride ∣ batch.currentTick - first
  begun : ∀ batch ∈ batches, first ≤ batch.currentTick
  within : ∀ batch ∈ batches, batch.currentTick ≤ target
  settled : ∀ batch ∈ batches, batch.currentTick ≤ last
  ahead : ∀ batch ∈ batches, batch.currentTick < target → last ≤ batch.endTick

variable {first last : ℤ}

private theorem add_stride_le {stride lower upper origin : ℤ} (lowerAligned : stride ∣ lower - origin)
    (upperAligned : stride ∣ upper - origin) (below : lower < upper) : lower + stride ≤ upper := by
  have gap : stride ∣ upper - lower := by
    have difference := dvd_sub upperAligned lowerAligned
    rwa [sub_sub_sub_cancel_right] at difference
  have reach := Int.le_of_dvd (by omega) gap
  omega

theorem Ticking.endTick_le (ticking : Ticking first target last batches) {batch : RungBatch} (listed : batch ∈ batches)
    (active : batch.currentTick < target) : batch.endTick ≤ target :=
  add_stride_le (ticking.aligned batch listed) (ticking.barrier batch listed) active

theorem Ticking.fits (ticking : Ticking first target last batches) :
    ∀ batch ∈ batches, batch.currentTick < target → batch.endTick ≤ tickLimit := fun _ listed active =>
  (ticking.endTick_le listed active).trans ticking.limit

variable {chosen : RungBatch}

theorem Ticking.synchronized (ticking : Ticking first target last batches)
    (selected : nextBatch target batches = some chosen) {finer : RungBatch} (listed : finer ∈ batches)
    (below : finer.rung < chosen.rung) : finer.currentTick = chosen.endTick := by
  have selects := nextBatch_selects ticking.fits
  rw [selected] at selects
  obtain ⟨chosenListed, active, precedes⟩ := selects
  have ahead := ticking.ahead chosen chosenListed active
  have settled := ticking.settled finer listed
  rcases lt_or_eq_of_le (settled.trans ahead) with behind | same
  · have endAligned : finer.stride ∣ chosen.endTick - first := by
      have stride := ticking.nested finer listed chosen chosenListed below.le
      have whole := dvd_add (stride.trans (ticking.aligned chosen chosenListed)) stride
      rwa [sub_add_eq_add_sub] at whole
    have finerEnd := add_stride_le (ticking.aligned finer listed) endAligned behind
    have running : finer.currentTick < target := behind.trans_le (ticking.endTick_le chosenListed active)
    have order := precedes finer listed running
    unfold RungBatch.Precedes RungBatch.endTick at *
    omega
  · exact same

private theorem rung_unique (distinct : batches.Pairwise (·.rung < ·.rung)) {batch other : RungBatch}
    (listed : batch ∈ batches) (otherListed : other ∈ batches) (same : batch.rung = other.rung) : batch = other :=
  List.Pairwise.forall_of_forall_of_flip (R := fun left right : RungBatch => left.rung = right.rung → left = right)
    (fun _ _ _ => rfl) (distinct.imp fun below rungs => absurd rungs below.ne)
    (distinct.imp fun below rungs => absurd rungs below.ne') listed otherListed same

private theorem mem_moved (distinct : batches.Pairwise (·.rung < ·.rung)) (listed : chosen ∈ batches) {tick : ℤ}
    {moved : RungBatch} (moves : moved ∈ batches.map (moveClock chosen.rung tick)) :
    moved = { chosen with currentTick := tick } ∨ moved ∈ batches ∧ moved.rung ≠ chosen.rung := by
  obtain ⟨batch, batchListed, rfl⟩ := List.mem_map.mp moves
  unfold moveClock
  by_cases same : batch.rung = chosen.rung
  · have only := rung_unique distinct batchListed listed same
    rw [if_pos same, only]
    exact .inl rfl
  · rw [if_neg same]
    exact .inr ⟨batchListed, same⟩

theorem Ticking.step (ticking : Ticking first target last batches) (distinct : batches.Pairwise (·.rung < ·.rung))
    (selected : nextBatch target batches = some chosen) :
    last ≤ chosen.endTick ∧
      Ticking first target chosen.endTick (batches.map (moveClock chosen.rung chosen.endTick)) := by
  have selects := nextBatch_selects ticking.fits
  rw [selected] at selects
  obtain ⟨listed, active, precedes⟩ := selects
  have ahead := ticking.ahead chosen listed active
  have within := ticking.endTick_le listed active
  have positive := ticking.positive chosen listed
  have kept : ∀ moved ∈ batches.map (moveClock chosen.rung chosen.endTick),
      ∃ batch ∈ batches, moved.rung = batch.rung ∧ moved.stride = batch.stride := by
    intro moved moves
    rcases mem_moved distinct listed moves with rfl | stayed
    · exact ⟨chosen, listed, rfl, rfl⟩
    · exact ⟨moved, stayed.1, rfl, rfl⟩
  refine ⟨ahead, ticking.limit, ?_, ?_, ?_, ?_, ?_, ?_, ?_, ?_⟩
  · intro moved moves
    obtain ⟨batch, batchListed, -, stride⟩ := kept moved moves
    rw [stride]
    exact ticking.positive batch batchListed
  · intro finer finerMoves coarser coarserMoves below
    obtain ⟨fine, fineListed, fineRung, fineStride⟩ := kept finer finerMoves
    obtain ⟨coarse, coarseListed, coarseRung, coarseStride⟩ := kept coarser coarserMoves
    rw [fineStride, coarseStride]
    rw [fineRung, coarseRung] at below
    exact ticking.nested fine fineListed coarse coarseListed below
  · intro moved moves
    obtain ⟨batch, batchListed, -, stride⟩ := kept moved moves
    rw [stride]
    exact ticking.barrier batch batchListed
  · intro moved moves
    rcases mem_moved distinct listed moves with rfl | stayed
    · have whole := dvd_add (ticking.aligned chosen listed) (dvd_refl chosen.stride)
      rwa [sub_add_eq_add_sub] at whole
    · exact ticking.aligned moved stayed.1
  · intro moved moves
    rcases mem_moved distinct listed moves with rfl | stayed
    · have begun := ticking.begun chosen listed
      unfold RungBatch.endTick
      simp only
      omega
    · exact ticking.begun moved stayed.1
  · intro moved moves
    rcases mem_moved distinct listed moves with rfl | stayed
    · exact within
    · exact ticking.within moved stayed.1
  · intro moved moves
    rcases mem_moved distinct listed moves with rfl | stayed
    · exact le_refl _
    · exact (ticking.settled moved stayed.1).trans ahead
  · intro moved moves running
    rcases mem_moved distinct listed moves with rfl | stayed
    · unfold RungBatch.endTick
      simp only
      omega
    · have order := precedes moved stayed.1 running
      unfold RungBatch.Precedes at order
      omega

variable {rung tick : ℤ} {indices : List ℕ}

private theorem checkIndices_ok (partition : BatchedCellTemporalPartition) (tick : ℤ) (previous : Option ℕ)
    (increasing : indices.Pairwise (· < ·))
    (above : ∀ before ∈ previous, ∀ index ∈ indices, before < index)
    (owned : ∀ index ∈ indices, ∃ cell, partition.accepted.cells[index]? = some cell ∧ cell.rung = rung)
    (forward : ∀ index ∈ indices, partition.pendingTicks.getD index 0 < tick ∧
      (2 ^ rung.toNat : ℤ) ∣ tick - partition.pendingTicks.getD index 0) :
    ∃ last, indices.foldlM (partition.checkIndex rung tick) previous = .ok last := by
  induction indices generalizing previous with
  | nil => exact ⟨previous, rfl⟩
  | cons index rest ih =>
    obtain ⟨later, increasing⟩ := List.pairwise_cons.mp increasing
    obtain ⟨cell, found, sameRung⟩ := owned index (by simp)
    obtain ⟨behind, aligned⟩ := forward index (by simp)
    have checked : partition.checkIndex rung tick previous index = .ok (some index) := by
      unfold BatchedCellTemporalPartition.checkIndex
      rw [found]
      simp only [bind_ok, throwIf_ok, unit_exists, not_or, not_le, ne_eq, not_not, not_exists, not_and]
      refine ⟨fun before listed => above before listed index (by simp), sameRung, ⟨behind, ?_⟩, rfl⟩
      rw [sameRung]
      exact Int.tmod_eq_zero_of_dvd aligned
    rw [List.foldlM_cons, checked]
    exact ih _ increasing (fun before listed => by
      rw [Option.mem_some_iff.mp listed] at later
      exact later) (fun other listed => owned other (by simp [listed])) fun other listed => forward other (by simp [listed])

private theorem getElem?_setAll (ticks : List ℤ) (asked : ℕ) :
    (indices.foldl (fun ticks index => ticks.set index tick) ticks)[asked]? =
      if asked ∈ indices ∧ asked < ticks.length then some tick else ticks[asked]? := by
  induction indices generalizing ticks with
  | nil => simp
  | cons index rest ih =>
    rw [List.foldl_cons, ih, List.length_set, List.getElem?_set]
    simp only [List.mem_cons]
    by_cases same : asked = index
    · subst same
      by_cases inside : asked < ticks.length
      · simp [inside]
      · simp [inside]
    · simp [same, Ne.symm same]

/-- The windows on which a rung was executed. -/
def windowsOf (rung : ℤ) (completed : List RungBatchDescriptor) : List (ℤ × ℤ) :=
  (completed.filter fun event => event.rung = rung).map fun event => (event.beginTick, event.endTick)

/-- Contiguous windows of one stride. -/
def tiled (first stride : ℤ) (count : ℕ) : List (ℤ × ℤ) :=
  (List.range count).map fun step => (first + step * stride, first + (step + 1) * stride)

theorem tiled_succ (first stride : ℤ) (count : ℕ) :
    tiled first stride (count + 1) = tiled first stride count ++ [(first + count * stride, first + (count + 1) * stride)] := by
  simp [tiled, List.range_succ]

/-- The batches that `prepare_batches_` makes of the cells. -/
structure Grouped (cells : List CellTemporalPartitionRecord) (batches : List RungBatch) : Prop where
  distinct : batches.Pairwise (·.rung < ·.rung)
  rungs : ∀ batch ∈ batches, 0 ≤ batch.rung ∧ batch.rung ≤ 30 ∧ batch.stride = 2 ^ batch.rung.toNat
  nonempty : ∀ batch ∈ batches, batch.globalIndices ≠ []
  increasing : ∀ batch ∈ batches, batch.globalIndices.Pairwise (· < ·)
  indices : ∀ batch ∈ batches, ∀ index,
    index ∈ batch.globalIndices ↔ ∃ cell, cells[index]? = some cell ∧ cell.rung = batch.rung
  covered : ∀ cell ∈ cells, ∃ batch ∈ batches, batch.rung = cell.rung

/-- An executor between two events of an attempt from a first tick to a target. -/
structure Running (accepted : CellTemporalPartitionAcceptedState) (first target : ℤ) (executor : Executor) : Prop where
  image : executor.partition.accepted = accepted
  active : executor.attemptActive = true ∧ executor.partition.attemptActive = true
  barrier : executor.targetTick = target ∧ executor.partition.targetTick = target
  grouped : Grouped accepted.cells executor.batches
  ticking : ∃ last, Ticking first target last executor.batches ∧ ∀ event ∈ executor.completed, event.endTick ≤ last
  length : executor.partition.pendingTicks.length = accepted.cells.length
  clocks : ∀ batch ∈ executor.batches, ∀ index ∈ batch.globalIndices,
    executor.partition.pendingTicks[index]? = some batch.currentTick
  ordered : executor.completed.Pairwise (·.endTick ≤ ·.endTick)
  windows : ∀ batch ∈ executor.batches, ∃ count : ℕ, batch.currentTick = first + count * batch.stride ∧
    windowsOf batch.rung executor.completed = tiled first batch.stride count

variable {accepted : CellTemporalPartitionAcceptedState} {executor next : Executor} {batch : RungBatch}
  {stages : RungBatchDescriptor → Checked Unit}

theorem executeBatch_ok : executeBatch stages executor batch = .ok next ↔
    batch.endTick ≤ executor.targetTick ∧ stages (describe executor batch) = .ok () ∧
      ∃ partition, executor.partition.advanceBatch batch.rung batch.globalIndices batch.endTick = .ok partition ∧
        next = { executor with
          partition
          batches := executor.batches.map (moveClock batch.rung batch.endTick)
          completed := executor.completed ++ [describe executor batch] } := by
  unfold executeBatch RungBatch.endTick
  split
  · rename_i beyond
    simp only [reduceCtorEq, false_iff, not_and]
    intro within
    omega
  · rename_i within
    cases passes : stages (describe executor batch) with
    | error exception => simp
    | ok passed =>
      cases moves : executor.partition.advanceBatch batch.rung batch.globalIndices (batch.currentTick + batch.stride) with
      | error exception => simp
      | ok partition => simp [not_lt.mp within, eq_comm]

private theorem Running.advanceBatch (running : Running accepted first target executor) (listed : chosen ∈ executor.batches)
    (within : chosen.endTick ≤ target) (positive : 0 < chosen.stride) :
    executor.partition.advanceBatch chosen.rung chosen.globalIndices chosen.endTick =
      .ok { executor.partition with
        pendingTicks := chosen.globalIndices.foldl (fun ticks index => ticks.set index chosen.endTick)
          executor.partition.pendingTicks } := by
  have clock : ∀ index ∈ chosen.globalIndices, executor.partition.pendingTicks.getD index 0 = chosen.currentTick := by
    intro index owned
    rw [List.getD_eq_getElem?_getD, running.clocks chosen listed index owned]
    rfl
  obtain ⟨last, checked⟩ := checkIndices_ok executor.partition chosen.endTick none
    (running.grouped.increasing chosen listed) (by simp)
    (fun index owned => by
      rw [running.image]
      exact (running.grouped.indices chosen listed index).mp owned)
    (fun index owned => by
      rw [clock index owned, ← (running.grouped.rungs chosen listed).2.2]
      unfold RungBatch.endTick
      rw [add_sub_cancel_left]
      exact ⟨by omega, dvd_refl _⟩)
  simp only [BatchedCellTemporalPartition.advanceBatch, bind_ok, throwIf_ok, unit_exists, not_not, not_lt, gt_iff_lt]
  exact ⟨running.active.2, running.grouped.nonempty chosen listed, by rw [running.barrier.2]; exact within, last, checked,
    rfl⟩

/-- One event keeps an executor running. -/
theorem Running.step (running : Running accepted first target executor)
    (selected : nextBatch executor.targetTick executor.batches = some chosen)
    (executed : executeBatch stages executor chosen = .ok next) : Running accepted first target next := by
  obtain ⟨last, ticking, earlier⟩ := running.ticking
  rw [running.barrier.1] at selected
  have selects := nextBatch_selects ticking.fits
  rw [selected] at selects
  obtain ⟨listed, active, -⟩ := selects
  have within := ticking.endTick_le listed active
  have positive := ticking.positive chosen listed
  obtain ⟨ahead, after⟩ := ticking.step running.grouped.distinct selected
  obtain ⟨-, -, partition, moved, rfl⟩ := executeBatch_ok.mp executed
  rw [running.advanceBatch listed within positive, Except.ok.injEq] at moved
  subst moved
  have distinct := running.grouped.distinct
  have layout : ∀ moved ∈ executor.batches.map (moveClock chosen.rung chosen.endTick),
      ∃ batch ∈ executor.batches, moved.rung = batch.rung ∧ moved.stride = batch.stride ∧
        moved.globalIndices = batch.globalIndices := by
    intro moved moves
    rcases mem_moved distinct listed moves with rfl | stayed
    · exact ⟨chosen, listed, rfl, rfl, rfl⟩
    · exact ⟨moved, stayed.1, rfl, rfl, rfl⟩
  have sameRung : ∀ batch, (moveClock chosen.rung chosen.endTick batch).rung = batch.rung := by
    intro batch
    unfold moveClock
    split <;> rfl
  refine ⟨running.image, running.active, running.barrier, ⟨?_, ?_, ?_, ?_, ?_, ?_⟩, ⟨chosen.endTick, after, ?_⟩, ?_, ?_, ?_,
    ?_⟩
  · rw [List.pairwise_map]
    simp only [sameRung]
    exact distinct
  · intro moved moves
    obtain ⟨batch, batchListed, rung, stride, -⟩ := layout moved moves
    rw [rung, stride]
    exact running.grouped.rungs batch batchListed
  · intro moved moves
    obtain ⟨batch, batchListed, -, -, indices⟩ := layout moved moves
    rw [indices]
    exact running.grouped.nonempty batch batchListed
  · intro moved moves
    obtain ⟨batch, batchListed, -, -, indices⟩ := layout moved moves
    rw [indices]
    exact running.grouped.increasing batch batchListed
  · intro moved moves
    obtain ⟨batch, batchListed, rung, -, indices⟩ := layout moved moves
    rw [rung, indices]
    exact running.grouped.indices batch batchListed
  · intro cell cellListed
    obtain ⟨batch, batchListed, same⟩ := running.grouped.covered cell cellListed
    exact ⟨_, List.mem_map_of_mem batchListed, (sameRung batch).trans same⟩
  · intro event done
    rcases List.mem_append.mp done with before | latest
    · exact (earlier event before).trans ahead
    · rw [List.mem_singleton.mp latest]
      exact le_refl _
  · have setAll : ∀ (indices : List ℕ) (ticks : List ℤ),
        (indices.foldl (fun ticks index => ticks.set index chosen.endTick) ticks).length = ticks.length := by
      intro indices
      induction indices with
      | nil => exact fun _ => rfl
      | cons index rest ih => exact fun ticks => (ih _).trans List.length_set
    exact (setAll _ _).trans running.length
  · intro moved moves index owned
    rw [getElem?_setAll]
    rcases mem_moved distinct listed moves with rfl | ⟨stayed, other⟩
    · obtain ⟨cell, found, -⟩ := (running.grouped.indices chosen listed index).mp owned
      have inside : index < executor.partition.pendingTicks.length := by
        rw [running.length]
        exact (List.getElem?_eq_some_iff.mp found).1
      rw [if_pos ⟨owned, inside⟩]
    · have apart : index ∉ chosen.globalIndices := by
        intro shared
        obtain ⟨cell, found, rung⟩ := (running.grouped.indices chosen listed index).mp shared
        obtain ⟨twin, foundTwin, otherRung⟩ := (running.grouped.indices moved stayed index).mp owned
        rw [found, Option.some.injEq] at foundTwin
        exact other (otherRung.symm.trans (foundTwin ▸ rung))
      rw [if_neg fun both => apart both.1]
      exact running.clocks moved stayed index owned
  · refine List.pairwise_append.mpr ⟨running.ordered, List.pairwise_singleton _ _, fun event before latest isLatest => ?_⟩
    rw [List.mem_singleton.mp isLatest]
    exact (earlier event before).trans ahead
  · intro moved moves
    rcases mem_moved distinct listed moves with rfl | ⟨stayed, other⟩
    · obtain ⟨count, clock, windows⟩ := running.windows chosen listed
      refine ⟨count + 1, ?_, ?_⟩
      · unfold RungBatch.endTick
        push_cast
        linarith
      · rw [tiled_succ, ← windows]
        simp [windowsOf, describe, clock]
        ring
    · obtain ⟨count, clock, windows⟩ := running.windows moved stayed
      refine ⟨count, clock, ?_⟩
      rw [← windows]
      simp [windowsOf, describe, Ne.symm other]

/-- The executors that the loop passes through. -/
inductive Reached (stages : RungBatchDescriptor → Checked Unit) (start : Executor) : Executor → Prop where
  | start : Reached stages start start
  | step {executor next : Executor} {batch : RungBatch} (reached : Reached stages start executor)
      (selected : nextBatch executor.targetTick executor.batches = some batch)
      (executed : executeBatch stages executor batch = .ok next) : Reached stages start next

theorem Reached.running {start : Executor} (begun : Running accepted first target start)
    (reached : Reached stages start executor) : Running accepted first target executor := by
  induction reached with
  | start => exact begun
  | step _ selected executed ih => exact ih.step selected executed

/-- The ticks that are left to all rungs. -/
def remaining (executor : Executor) : ℕ :=
  (executor.batches.map fun batch => (executor.targetTick - batch.currentTick).toNat).sum

private theorem remaining_step (running : Running accepted first target executor)
    (selected : nextBatch executor.targetTick executor.batches = some chosen)
    (executed : executeBatch stages executor chosen = .ok next) : remaining next < remaining executor := by
  obtain ⟨last, ticking, -⟩ := running.ticking
  rw [running.barrier.1] at selected
  have selects := nextBatch_selects ticking.fits
  rw [selected] at selects
  obtain ⟨listed, active, -⟩ := selects
  have positive := ticking.positive chosen listed
  obtain ⟨-, -, partition, -, rfl⟩ := executeBatch_ok.mp executed
  unfold remaining
  simp only [List.map_map, running.barrier.1]
  apply List.sum_lt_sum
  · intro batch batchListed
    simp only [Function.comp_apply]
    unfold moveClock RungBatch.endTick
    split
    · rename_i same
      have unique := rung_unique running.grouped.distinct batchListed listed same
      subst unique
      simp only
      omega
    · exact le_refl _
  · refine ⟨chosen, listed, ?_⟩
    simp only [Function.comp_apply]
    unfold moveClock RungBatch.endTick
    rw [if_pos rfl]
    simp only
    omega

/-- An attempt stopped at an event, which left the accepted clocks alone. -/
def StoppedAt (stages : RungBatchDescriptor → Checked Unit) (accepted : CellTemporalPartitionAcceptedState)
    (stopped : Stopped) : Prop :=
  (∃ event, stages event = .error stopped.exception) ∧ stopped.executor.attemptActive = false ∧
    stopped.executor.partition = { accepted }

private theorem executeBatch_error (running : Running accepted first target executor)
    (selected : nextBatch executor.targetTick executor.batches = some chosen) {stopped : Stopped}
    (failed : executeBatch stages executor chosen = .error stopped) : StoppedAt stages accepted stopped := by
  obtain ⟨last, ticking, -⟩ := running.ticking
  rw [running.barrier.1] at selected
  have selects := nextBatch_selects ticking.fits
  rw [selected] at selects
  obtain ⟨listed, active, -⟩ := selects
  have within := ticking.endTick_le listed active
  have positive := ticking.positive chosen listed
  have moved := running.advanceBatch listed within positive
  unfold executeBatch at failed
  unfold RungBatch.endTick at moved within
  rw [moved, running.barrier.1, if_neg (not_lt.mpr within)] at failed
  cases passes : stages (describe executor chosen) with
  | ok passed => simp [passes] at failed
  | error exception =>
    rw [passes] at failed
    simp only [Except.error.injEq] at failed
    subst failed
    refine ⟨⟨_, passes⟩, ?_, ?_⟩
    · simp [rollback, running.active.1]
    · simp [rollback, running.active.1, BatchedCellTemporalPartition.rollback, running.image]

theorem advanceLoop_returns (stages : RungBatchDescriptor → Checked Unit)
    (running : Running accepted first target executor) {fuel : ℕ} (enough : remaining executor < fuel) :
    (∃ final, advanceLoop stages fuel executor = some (.ok final) ∧ Reached stages executor final ∧
        ∀ batch ∈ final.batches, batch.currentTick = target) ∨
      ∃ stopped, advanceLoop stages fuel executor = some (.error stopped) ∧ StoppedAt stages accepted stopped := by
  induction fuel generalizing executor with
  | zero => omega
  | succ fuel ih =>
    unfold advanceLoop
    cases selected : nextBatch executor.targetTick executor.batches with
    | none =>
      refine .inl ⟨executor, rfl, .start, fun batch listed => ?_⟩
      obtain ⟨last, ticking, -⟩ := running.ticking
      rw [running.barrier.1] at selected
      have selects := nextBatch_selects ticking.fits
      rw [selected] at selects
      exact le_antisymm (ticking.within batch listed) (selects batch listed)
    | some chosen =>
      cases executed : executeBatch stages executor chosen with
      | error stopped => exact .inr ⟨stopped, by simp only [executed], executeBatch_error running selected executed⟩
      | ok next =>
        simp only [executed]
        have fewer := remaining_step running selected executed
        rcases ih (running.step selected executed) (by omega) with ⟨final, returned, reached, arrived⟩ | stopped
        · refine .inl ⟨final, returned, ?_, arrived⟩
          clear returned arrived
          induction reached with
          | start => exact .step .start selected executed
          | step _ later laterExecuted reached => exact .step reached later laterExecuted
        · exact .inr stopped

theorem rungLess_iff (left right : ℤ) : rungLess left right = true ↔ left < right := by simp [rungLess]

theorem find_grouped (cells : List (CellTemporalPartitionRecord × ℕ)) (rung : ℤ) :
    OrderedMap.find rungLess rung (grouped cells) =
      if (cells.filter fun cell => cell.1.rung = rung) = [] then none
      else some ((cells.filter fun cell => cell.1.rung = rung).map (·.2)) := by
  induction cells using List.reverseRecOn with
  | nil => rfl
  | append_singleton earlier last ih =>
    have added : grouped (earlier ++ [last]) = OrderedMap.update rungLess last.1.rung
        (fun indices => indices.getD [] ++ [last.2]) (grouped earlier) := by
      unfold grouped
      rw [List.foldl_append]
      rfl
    rw [added]
    by_cases same : rung = last.1.rung
    · subst same
      rw [OrderedMap.find_update_self rungLess_iff, ih]
      by_cases fresh : (earlier.filter fun cell => cell.1.rung = last.1.rung) = []
      · simp [fresh]
      · simp [fresh]
    · have skipped : (earlier ++ [last]).filter (fun cell => cell.1.rung = rung) =
          earlier.filter fun cell => cell.1.rung = rung := by
        simp [Ne.symm same]
      rw [OrderedMap.find_update_ne rungLess_iff same, ih, skipped]

theorem grouped_ordered (cells : List (CellTemporalPartitionRecord × ℕ)) :
    (grouped cells).Pairwise fun left right => left.1 < right.1 := by
  induction cells using List.reverseRecOn with
  | nil => exact .nil
  | append_singleton earlier last ih =>
    unfold grouped at *
    rw [List.foldl_append]
    exact OrderedMap.update_ordered rungLess_iff ih

variable {cells : List CellTemporalPartitionRecord}

theorem grouped_batches {owned : List ℕ} {clock : ℤ} (rungs : ∀ cell ∈ cells, 0 ≤ cell.rung ∧ cell.rung ≤ 30) :
    Grouped cells ((grouped cells.zipIdx).map fun group =>
      { rung := group.1, stride := 2 ^ group.1.toNat, currentTick := clock
        localIndices := owned.filter (· ∈ group.2), globalIndices := group.2 }) := by
  have ordered := grouped_ordered cells.zipIdx
  have group : ∀ entry ∈ grouped cells.zipIdx,
      (cells.zipIdx.filter fun cell => cell.1.rung = entry.1) ≠ [] ∧
        entry.2 = (cells.zipIdx.filter fun cell => cell.1.rung = entry.1).map (·.2) := by
    intro entry listed
    have found : OrderedMap.find rungLess entry.1 (grouped cells.zipIdx) = some entry.2 :=
      (OrderedMap.find_eq_some rungLess_iff ordered).mpr listed
    rw [find_grouped] at found
    split at found
    · simp at found
    · rename_i nonempty
      exact ⟨nonempty, (Option.some.inj found).symm⟩
  refine ⟨?_, ?_, ?_, ?_, ?_, ?_⟩
  · rw [List.pairwise_map]
    exact ordered
  · intro batch listed
    obtain ⟨entry, entryListed, rfl⟩ := List.mem_map.mp listed
    obtain ⟨cell, member⟩ := List.exists_mem_of_ne_nil _ (group entry entryListed).1
    obtain ⟨inside, same⟩ := List.mem_filter.mp member
    have bounds := rungs cell.1 (List.fst_mem_of_mem_zipIdx inside)
    rw [decide_eq_true_eq] at same
    rw [same] at bounds
    exact ⟨bounds.1, bounds.2, rfl⟩
  · intro batch listed
    obtain ⟨entry, entryListed, rfl⟩ := List.mem_map.mp listed
    obtain ⟨nonempty, value⟩ := group entry entryListed
    simp only [value, ne_eq, List.map_eq_nil_iff]
    exact nonempty
  · intro batch listed
    obtain ⟨entry, entryListed, rfl⟩ := List.mem_map.mp listed
    simp only [(group entry entryListed).2]
    have indices : (cells.zipIdx.map (·.2)).Pairwise (· < ·) := by
      rw [List.zipIdx_map_snd]
      exact List.pairwise_lt_range' ..
    exact indices.sublist (List.filter_sublist.map _)
  · intro batch listed index
    obtain ⟨entry, entryListed, rfl⟩ := List.mem_map.mp listed
    simp only [(group entry entryListed).2, List.mem_map, List.mem_filter, decide_eq_true_eq]
    constructor
    · rintro ⟨cell, ⟨inside, same⟩, rfl⟩
      exact ⟨cell.1, by simpa [List.mem_zipIdx_iff_getElem?] using inside, same⟩
    · rintro ⟨cell, found, same⟩
      exact ⟨(cell, index), ⟨by simpa [List.mem_zipIdx_iff_getElem?] using found, same⟩, rfl⟩
  · intro cell listed
    obtain ⟨index, found⟩ := List.mem_iff_getElem?.mp listed
    have inside : (cell, index) ∈ cells.zipIdx := by simpa [List.mem_zipIdx_iff_getElem?] using found
    have present : OrderedMap.find rungLess cell.rung (grouped cells.zipIdx) =
        some ((cells.zipIdx.filter fun other => other.1.rung = cell.rung).map (·.2)) := by
      rw [find_grouped, if_neg]
      exact List.ne_nil_of_mem (List.mem_filter.mpr ⟨inside, by simp⟩)
    exact ⟨_, List.mem_map_of_mem ((OrderedMap.find_eq_some rungLess_iff ordered).mp present), rfl⟩

theorem validRecords {state : CellTemporalPartitionAcceptedState}
    {previous last : Option CellTemporalPartitionRecord}
    (valid : cells.foldlM (TemporalPartition.validateRecord state) previous = .ok last) :
    ∀ cell ∈ cells, (0 ≤ cell.rung ∧ cell.rung ≤ 30) ∧ cell.acceptedTick = state.synchronizationTick ∧
      (2 ^ cell.rung.toNat : ℤ) ∣ cell.acceptedTick := by
  induction cells generalizing previous with
  | nil => simp
  | cons head rest ih =>
    rw [List.foldlM_cons] at valid
    obtain ⟨middle, first, later⟩ := bind_ok.mp valid
    simp only [TemporalPartition.validateRecord, bind_ok, throwIf_ok, unit_exists, not_or, not_lt, ne_eq,
      not_not] at first
    obtain ⟨⟨-, lower, upper, -⟩, -, same, aligned, -⟩ := first
    intro cell listed
    rcases List.mem_cons.mp listed with rfl | member
    · exact ⟨⟨lower, upper⟩, same, Int.dvd_of_tmod_eq_zero aligned⟩
    · exact ih later cell member

theorem validate_cells {state : CellTemporalPartitionAcceptedState} (valid : TemporalPartition.validate state = .ok ())
    (kind : state.kind = .cellLocal) :
    0 ≤ state.synchronizationTick ∧ ∀ cell ∈ state.cells, (0 ≤ cell.rung ∧ cell.rung ≤ 30) ∧
      cell.acceptedTick = state.synchronizationTick ∧ (2 ^ cell.rung.toNat : ℤ) ∣ cell.acceptedTick := by
  simp only [TemporalPartition.validate, kind, bind_ok, throwIf_ok, unit_exists, not_or, not_lt] at valid
  obtain ⟨-, ⟨nonnegative, -⟩, -, last, records, -⟩ := valid
  exact ⟨nonnegative, validRecords records⟩

variable {identity : PreparedProviderIdentity} {owned : List ℕ} {active : Executor}

theorem prepare_ok (prepared : prepare identity owned accepted = .ok executor) :
    executor.partition = { accepted } ∧ executor.attemptActive = false ∧ executor.completed = [] ∧
      0 ≤ accepted.synchronizationTick ∧
      (∀ cell ∈ accepted.cells, cell.acceptedTick = accepted.synchronizationTick) ∧
      ∀ clock, Grouped accepted.cells (executor.batches.map fun batch => { batch with currentTick := clock }) := by
  simp only [prepare, BatchedCellTemporalPartition.create, prepareBatches, bind_ok, pure, Except.pure,
    Except.ok.injEq] at prepared
  obtain ⟨partition, ⟨passed, valid, rfl⟩, route, named, unrouted, routed, batches, ⟨last, -, rfl⟩, rfl⟩ := prepared
  simp only [canonicalProviderIdentity, bind_ok, throwIf_ok, unit_exists, not_or, pure, Except.pure,
    Except.ok.injEq] at named
  obtain ⟨⟨name, -⟩, rfl⟩ := named
  have kind : accepted.kind = .cellLocal := by
    cases same : accepted.kind with
    | cellLocal => rfl
    | global =>
      simp only [BatchedCellTemporalPartition.requirePreparedExecutionRoute, same, throwIf_ok, not_not,
        List.append_eq_nil_iff] at routed
      exact absurd routed.1.1 name
  obtain ⟨nonnegative, cells⟩ := validate_cells valid kind
  refine ⟨rfl, rfl, rfl, nonnegative, fun cell listed => (cells cell listed).2.1, fun clock => ?_⟩
  simp only [List.map_map]
  exact grouped_batches fun cell listed => (cells cell listed).1

private theorem Grouped.cell (grouped : Grouped cells batches)
    (listed : batch ∈ batches) : ∃ cell ∈ cells, cell.rung = batch.rung := by
  obtain ⟨index, owned⟩ := List.exists_mem_of_ne_nil _ (grouped.nonempty batch listed)
  obtain ⟨cell, found, rung⟩ := (grouped.indices batch listed index).mp owned
  exact ⟨cell, List.mem_of_getElem? found, rung⟩

theorem begin_running (prepared : prepare identity owned accepted = .ok executor)
    (begun : beginAttempt executor target = .ok active) (limit : target ≤ tickLimit) :
    Running accepted accepted.synchronizationTick target active := by
  obtain ⟨image, -, -, nonnegative, synchronized, grouped⟩ := prepare_ok prepared
  simp only [beginAttempt, BatchedCellTemporalPartition.beginAttempt, bind_ok, throwIf_ok, unit_exists, pure, Except.pure,
    Except.ok.injEq, image, not_exists, not_and, not_not, not_le, ne_eq] at begun
  obtain ⟨-, partition, ⟨-, advances, reachable, rfl⟩, rfl⟩ := begun
  have batches := grouped accepted.synchronizationTick
  have clock : ∀ batch ∈ executor.batches.map (fun batch => { batch with currentTick := accepted.synchronizationTick }),
      batch.currentTick = accepted.synchronizationTick := by
    intro batch listed
    obtain ⟨before, -, rfl⟩ := List.mem_map.mp listed
    rfl
  have positive : ∀ rung : ℤ, (0 : ℤ) < 2 ^ rung.toNat := fun rung => pow_pos two_pos _
  refine ⟨rfl, ⟨rfl, rfl⟩, ⟨rfl, rfl⟩, batches, ⟨accepted.synchronizationTick, ⟨limit, ?_, ?_, ?_, ?_, ?_, ?_, ?_, ?_⟩, ?_⟩,
    List.length_map .., ?_, .nil, ?_⟩
  · intro batch listed
    rw [(batches.rungs batch listed).2.2]
    exact positive _
  · intro finer finerListed coarser coarserListed below
    rw [(batches.rungs finer finerListed).2.2, (batches.rungs coarser coarserListed).2.2]
    exact pow_dvd_pow 2 (Int.toNat_le_toNat below)
  · intro batch listed
    obtain ⟨cell, cellListed, rung⟩ := batches.cell listed
    have divides := Int.dvd_of_tmod_eq_zero (reachable cell cellListed)
    rw [synchronized cell cellListed, rung, ← (batches.rungs batch listed).2.2] at divides
    exact divides
  · intro batch listed
    rw [clock batch listed, sub_self]
    exact dvd_zero _
  · intro batch listed
    exact (clock batch listed).ge
  · intro batch listed
    rw [clock batch listed]
    exact advances.le
  · intro batch listed
    exact (clock batch listed).le
  · intro batch listed _
    have stride := (batches.rungs batch listed).2.2
    have width := positive batch.rung
    unfold RungBatch.endTick
    rw [clock batch listed, stride]
    omega
  · intro event done
    exact absurd done List.not_mem_nil
  · intro batch listed index indexOwned
    obtain ⟨cell, found, -⟩ := (batches.indices batch listed index).mp indexOwned
    rw [clock batch listed, List.getElem?_map, found, Option.map_some, synchronized cell (List.mem_of_getElem? found)]
  · intro batch listed
    exact ⟨0, by simp [clock batch listed], rfl⟩

/-- The loop of an attempt between two events: no tick overflows, the events end
in order, each rung ran on contiguous windows, and the rungs finer than the next
one are where it is about to go. -/
structure Scheduled (first target : ℤ) (executor : Executor) : Prop where
  fits : ∀ batch ∈ executor.batches, 0 < batch.stride ∧ batch.stride ≤ 2 ^ 30 ∧ first ≤ batch.currentTick ∧
    batch.currentTick ≤ target ∧ (batch.currentTick < executor.targetTick → batch.endTick ≤ target)
  ordered : executor.completed.Pairwise (·.endTick ≤ ·.endTick)
  windows : ∀ batch ∈ executor.batches, ∃ count : ℕ, batch.currentTick = first + count * 2 ^ batch.rung.toNat ∧
    windowsOf batch.rung executor.completed = tiled first (2 ^ batch.rung.toNat) count
  synchronized : ∀ coarser, nextBatch executor.targetTick executor.batches = some coarser →
    ∀ finer ∈ executor.batches, finer.rung < coarser.rung → finer.currentTick = coarser.endTick

theorem Running.scheduled (running : Running accepted first target executor) : Scheduled first target executor := by
  obtain ⟨last, ticking, -⟩ := running.ticking
  refine ⟨fun batch listed => ?_, running.ordered, fun batch listed => ?_, fun coarser selected finer listed below => ?_⟩
  · obtain ⟨-, upper, stride⟩ := running.grouped.rungs batch listed
    refine ⟨ticking.positive batch listed, ?_, ticking.begun batch listed, ticking.within batch listed, fun active => ?_⟩
    · rw [stride]
      exact pow_le_pow_right₀ one_le_two (by omega)
    · rw [running.barrier.1] at active
      exact ticking.endTick_le listed active
  · rw [← (running.grouped.rungs batch listed).2.2]
    exact running.windows batch listed
  · rw [running.barrier.1] at selected
    exact ticking.synchronized selected listed below

/-- Every rung is at the target, and ran on all its windows. -/
structure AtBarrier (accepted : CellTemporalPartitionAcceptedState) (target : ℤ) (executor : Executor) : Prop where
  rungs : ∀ cell ∈ accepted.cells, ∃ batch ∈ executor.batches, batch.rung = cell.rung
  clocks : ∀ batch ∈ executor.batches, batch.currentTick = target
  cells : executor.partition.pendingTicks = accepted.cells.map fun _ => target
  windows : ∀ batch ∈ executor.batches, windowsOf batch.rung executor.completed =
    tiled accepted.synchronizationTick (2 ^ batch.rung.toNat)
      ((target - accepted.synchronizationTick) / 2 ^ batch.rung.toNat).toNat

private theorem Running.atBarrier (running : Running accepted accepted.synchronizationTick target executor)
    (arrived : ∀ batch ∈ executor.batches, batch.currentTick = target) : AtBarrier accepted target executor := by
  refine ⟨running.grouped.covered, arrived, ?_, fun batch listed => ?_⟩
  · apply List.ext_getElem?
    intro index
    rw [List.getElem?_map]
    cases found : accepted.cells[index]? with
    | none =>
      rw [List.getElem?_eq_none_iff] at found
      exact List.getElem?_eq_none (running.length.trans_le found)
    | some cell =>
      obtain ⟨batch, listed, rung⟩ := running.grouped.covered cell (List.mem_of_getElem? found)
      have mine := (running.grouped.indices batch listed index).mpr ⟨cell, found, rung.symm⟩
      rw [running.clocks batch listed index mine, arrived batch listed]
      rfl
  · obtain ⟨count, clock, windows⟩ := running.scheduled.windows batch listed
    have whole : (target - accepted.synchronizationTick) / 2 ^ batch.rung.toNat = count := by
      rw [← arrived batch listed, clock, add_sub_cancel_left]
      exact Int.mul_ediv_cancel _ (pow_pos two_pos _).ne'
    rw [whole, Int.toNat_natCast]
    exact windows

private theorem checkBarrier_ok (running : Running accepted accepted.synchronizationTick target executor)
    (arrived : ∀ batch ∈ executor.batches, batch.currentTick = target) : checkBarrier executor = .ok executor := by
  have cells := (running.atBarrier arrived).cells
  have passes : executor.partition.requireBarrier "cell-local temporal executor" = .ok () := by
    simp only [BatchedCellTemporalPartition.requireBarrier, throwIf_ok, not_and, not_exists, ne_eq, not_not]
    intro _ tick listed
    rw [cells] at listed
    obtain ⟨cell, -, rfl⟩ := List.mem_map.mp listed
    exact running.barrier.2.symm
  unfold checkBarrier
  rw [passes]

/-- Whatever a provider answers, the loop of an attempt returns: with every rung
at the barrier, or from an event that the provider refused. On the way the
events are in order, and the finer rungs wait for the coarser ones. -/
theorem rungs_reach_barrier (prepared : prepare identity owned accepted = .ok executor)
    (begun : beginAttempt executor target = .ok active) (limit : target ≤ tickLimit)
    (stages : RungBatchDescriptor → Checked Unit) :
    (∀ state, Reached stages active state → Scheduled accepted.synchronizationTick target state) ∧
      ∃ bound, ∀ fuel, bound ≤ fuel →
        (∃ final, advanceToBarrier stages fuel active = some (.ok final) ∧ Reached stages active final ∧
          AtBarrier accepted target final) ∨
        ∃ stopped, advanceToBarrier stages fuel active = some (.error stopped) ∧ StoppedAt stages accepted stopped := by
  have running := begin_running prepared begun limit
  refine ⟨fun state reached => (reached.running running).scheduled, remaining active + 1, fun fuel enough => ?_⟩
  unfold advanceToBarrier
  rw [if_pos running.active.1]
  rcases advanceLoop_returns stages running (Nat.lt_of_succ_le enough) with
    ⟨final, returned, reached, arrived⟩ | ⟨stopped, returned, stops⟩
  · have finished := reached.running running
    refine .inl ⟨final, ?_, reached, finished.atBarrier arrived⟩
    rw [returned]
    exact congrArg some (checkBarrier_ok finished arrived)
  · refine .inr ⟨stopped, ?_, stops⟩
    rw [returned]
    rfl

/-- Two cells of different rungs, whose attempt to a common tick every event passes. -/
theorem rungs_reach_barrier_two_rungs : ∃ active final, ∃ fuel,
    advanceToBarrier (fun _ => .ok ()) fuel active = some (.ok final) ∧
      final.partition.pendingTicks = [8, 8] := by
  let accepted : CellTemporalPartitionAcceptedState :=
    { kind := .cellLocal, providerIdentity := ascii "stages@1", synchronizationTick := 4
      cells := [⟨0, 0, 0, 4⟩, ⟨1, 0, 2, 4⟩] }
  have begins : (prepare ⟨ascii "stages", 1⟩ [0, 1] accepted >>= fun executor => beginAttempt executor 8).isOk = true := by
    decide +kernel
  obtain ⟨active, returned⟩ := exists_of_isOk begins
  obtain ⟨executor, prepared, begun⟩ := bind_ok.mp returned
  obtain ⟨-, bound, returns⟩ := rungs_reach_barrier prepared begun (by decide) fun _ => .ok ()
  rcases returns bound le_rfl with ⟨final, reached, -, arrived⟩ | ⟨stopped, -, ⟨event, refused⟩, -⟩
  · exact ⟨active, final, bound, reached, arrived.cells⟩
  · cases refused

end Pops.TemporalExecutor
