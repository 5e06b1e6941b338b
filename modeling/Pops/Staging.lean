import Pops.PeerPlans

/-!
Copies through a staging buffer. Packing reads every element of every job into
the place of the job; unpacking writes it from there. The library is about any
jobs, any addresses and any values; a memory is a function of its addresses.
-/
namespace Pops.Staging
open StagedJob PeerPlans

section Stores
variable {A V : Type} [DecidableEq A]

/-- Carry out the writes one after the other. -/
def store (memory : A → V) (writes : List (A × V)) : A → V :=
  writes.foldl (fun current write => Function.update current write.1 write.2) memory

variable {memory : A → V} {writes : List (A × V)} {address : A} {value : V}

@[simp] theorem store_nil : store memory [] = memory := rfl

theorem store_cons (write : A × V) : store memory (write :: writes) =
    store (Function.update memory write.1 write.2) writes := rfl

theorem store_append (later : List (A × V)) :
    store memory (writes ++ later) = store (store memory writes) later :=
  List.foldl_append ..

theorem store_of_not_mem (untouched : ∀ write ∈ writes, write.1 ≠ address) :
    store memory writes address = memory address := by
  induction writes generalizing memory with
  | nil => rfl
  | cons write rest ih =>
    rw [store_cons, ih fun other member => untouched other (by simp [member]),
      Function.update_of_ne (untouched write (by simp)).symm]

theorem store_of_mem (written : (address, value) ∈ writes)
    (consistent : ∀ write ∈ writes, write.1 = address → write.2 = value) :
    store memory writes address = value := by
  induction writes generalizing memory with
  | nil => simp at written
  | cons write rest ih =>
    rw [store_cons]
    by_cases later : (address, value) ∈ rest
    · exact ih later fun other member => consistent other (by simp [member])
    · obtain rfl : (address, value) = write := by simpa [later] using written
      by_cases again : ∃ other ∈ rest, other.1 = address
      · obtain ⟨other, member, same⟩ := again
        have equal := consistent other (by simp [member]) same
        exact absurd (by rw [← same, ← equal]; exact member) later
      · push Not at again
        rw [store_of_not_mem again, Function.update_self]

end Stores

section Kernels
variable {Job A V : Type} [StagedJob Job] [DecidableEq A]

/-- The writes of one kernel per job, one per element. -/
def kernelWrites (address : Job → ℕ → A) (value : Job → ℕ → V) (jobs : List Job) : List (A × V) :=
  jobs.flatMap fun job => (List.range (elements job)).map fun element => (address job element, value job element)

/-- Read every element of the jobs into the buffer. -/
def pack (read : Job → ℕ → V) (jobs : List Job) (buffer : ℕ → V) : ℕ → V :=
  store buffer (kernelWrites (fun job element => offset job + element) read jobs)

/-- The writes that take every element of the jobs from the buffer. -/
def unpackWrites (address : Job → ℕ → A) (jobs : List Job) (buffer : ℕ → V) : List (A × V) :=
  kernelWrites address (fun job element => buffer (offset job + element)) jobs

variable {address : Job → ℕ → A} {value read : Job → ℕ → V} {jobs : List Job} {job : Job} {buffer : ℕ → V}

omit [DecidableEq A] in
theorem kernelWrites_cons (job : Job) (rest : List Job) : kernelWrites address value (job :: rest) =
    ((List.range (elements job)).map fun element => (address job element, value job element)) ++
      kernelWrites address value rest := rfl

omit [DecidableEq A] in
theorem mem_kernelWrites {write : A × V} : write ∈ kernelWrites address value jobs ↔
    ∃ job ∈ jobs, ∃ element < elements job, write = (address job element, value job element) := by
  simp only [kernelWrites, List.mem_flatMap, List.mem_map, List.mem_range]
  constructor
  · rintro ⟨job, listed, element, within, rfl⟩
    exact ⟨job, listed, element, within, rfl⟩
  · rintro ⟨job, listed, element, within, rfl⟩
    exact ⟨job, listed, element, within, rfl⟩

theorem pack_place {start element : ℕ} (listed : job ∈ place start jobs) (within : element < elements job) :
    pack read (place start jobs) buffer (offset job + element) = read job element := by
  refine store_of_mem (mem_kernelWrites.mpr ⟨job, listed, element, within, rfl⟩) ?_
  intro write member same
  obtain ⟨other, otherListed, otherElement, otherWithin, rfl⟩ := mem_kernelWrites.mp member
  obtain ⟨rfl, rfl⟩ := place_unique otherListed listed otherWithin within same
  rfl

omit [DecidableEq A] in
theorem unpackWrites_pack (start : ℕ) :
    unpackWrites address (place start jobs) (pack read (place start jobs) buffer) =
      kernelWrites address read (place start jobs) := by
  unfold unpackWrites kernelWrites
  refine List.flatMap_congr fun job listed => List.map_congr_left fun element range => ?_
  exact Prod.ext rfl (pack_place listed (List.mem_range.mp range))

end Kernels

end Pops.Staging
