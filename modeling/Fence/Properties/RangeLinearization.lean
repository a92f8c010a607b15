import Fence.Protocol.RangeMoments
import Fence.Properties.ReadLinearization

/-!
# Ranges under concurrency

A range is not read at one moment. Each of its indices is read as by a call of `read`, at a step of
the range itself and in the order of the indices, and the first error ends it
(`read_range_linearizes`). For its caller this means that the records lie between the log at the
start of the call and the log at its end: none of them was gone at the start, and what can still be
read at the end is among them, wherever appends, trims and recoveries come in between
(`read_range_between`).
-/

set_option autoImplicit false
set_option relaxedAutoImplicit false

namespace Fence

open ByteMemory Interleaving

variable {g : PoolGeometry} {hasher : Hasher}
  {before after : List (Action (Request ⊕ RangeRequest) Empty)} {request : RangeRequest}
  {outcome : Except FenceError (List Record)}

/-- At the end of a run a range that has returned has come to what the pool showed at steps of its
own, each of which lies between the log at the start of the range and the log at the end. -/
theorem exists_follows_of_range
    (hbounded : (rangesMachine g hasher).Along (RangesBounded g hasher)
      (before ++ .start (.inr request) :: after) (freshRanges g))
    (hreturned : ((rangesMachine g hasher).run (before ++ .start (.inr request) :: after)
      (freshRanges g)).threads[((rangesMachine g hasher).run before
        (freshRanges g)).threads.length]? = some (.inr ⟨request, .returned outcome⟩)) :
    ∃ (moments : List (List (Action (Request ⊕ RangeRequest) Empty))) (tail : ℕ)
      (threads : List Call),
      (∀ moment ∈ moments, moment ++ [.step ((rangesMachine g hasher).run before
        (freshRanges g)).threads.length] <+: after) ∧
      moments.Pairwise (fun earlier later ↦ earlier.length < later.length) ∧
      RangeCall.Follows g hasher request tail threads (moments.map fun moment ↦
        publishedLog g ((rangesMachine g hasher).run (before ++ .start (.inr request) :: moment)
          (freshRanges g)).shared) (.returned outcome) ∧
      ∀ moment ∈ moments,
        (publishedLog g ((rangesMachine g hasher).run before (freshRanges g)).shared).Grows
          (publishedLog g ((rangesMachine g hasher).run (before ++ .start (.inr request) :: moment)
            (freshRanges g)).shared) ∧
        (publishedLog g ((rangesMachine g hasher).run (before ++ .start (.inr request) :: moment)
          (freshRanges g)).shared).Grows
          (publishedLog g ((rangesMachine g hasher).run (before ++ .start (.inr request) :: after)
            (freshRanges g)).shared) := by
  obtain ⟨hbefore, haction, hafter⟩ := along_append.mp hbounded
  obtain ⟨hinvariant, -⟩ := @Invariant.ranges_run g hasher (freshRanges g) .fresh before hbefore
  obtain ⟨hstarted, -⟩ := hinvariant.ranges_apply haction
  have hcall : ((rangesMachine g hasher).apply ((rangesMachine g hasher).run before (freshRanges g))
      (.start (.inr request))).threads[((rangesMachine g hasher).run before
        (freshRanges g)).threads.length]? = some (.inr request.call) := List.getElem?_concat_length
  obtain ⟨moments, task, htask, hmoments, hordered, hfollows⟩ :=
    hstarted.follows_of_run hcall hafter
  have hrun : ∀ schedule, (rangesMachine g hasher).run (before ++ .start (.inr request) :: schedule)
      (freshRanges g) = (rangesMachine g hasher).run schedule ((rangesMachine g hasher).apply
        ((rangesMachine g hasher).run before (freshRanges g)) (.start (.inr request))) :=
    fun schedule ↦ by rw [run_append, run_cons]
  simp only [hrun] at hreturned ⊢
  rw [htask, Option.some.injEq, Sum.inr.injEq, RangeCall.mk.injEq] at hreturned
  obtain ⟨-, rfl⟩ := hreturned
  refine ⟨moments, _, _, hmoments, hordered, hfollows, fun moment hmem ↦ ?_⟩
  obtain ⟨rest, rfl⟩ := (List.prefix_append _ _).trans (hmoments moment hmem)
  obtain ⟨hearlier, hlater⟩ := along_append.mp hafter
  obtain ⟨hreached, hgrows⟩ := hstarted.ranges_run hearlier
  obtain ⟨-, hmore⟩ := hreached.ranges_run hlater
  rw [← run_append] at hmore
  exact ⟨hgrows, hmore⟩

/-- A range that has returned did so with what the published log answered for its indices, one after
the other and each at a step of the range, up to the first error. -/
theorem read_range_linearizes
    (hbounded : (rangesMachine g hasher).Along (RangesBounded g hasher)
      (before ++ .start (.inr request) :: after) (freshRanges g))
    (hreturned : ((rangesMachine g hasher).run (before ++ .start (.inr request) :: after)
      (freshRanges g)).threads[((rangesMachine g hasher).run before
        (freshRanges g)).threads.length]? = some (.inr ⟨request, .returned outcome⟩)) :
    ∃ moments : List (List (Action (Request ⊕ RangeRequest) Empty)),
      (∀ moment ∈ moments, moment ++ [.step ((rangesMachine g hasher).run before
        (freshRanges g)).threads.length] <+: after) ∧
      moments.Pairwise (fun earlier later ↦ earlier.length < later.length) ∧
      request.startIndex.toNat + moments.length ≤
        max request.startIndex.toNat request.endIndex.toNat ∧
      (∀ records, outcome = .ok records → request.startIndex.toNat + moments.length =
        max request.startIndex.toNat request.endIndex.toNat) ∧
      outcome = Log.readRange request.startIndex.toNat (moments.map fun moment ↦
        publishedLog g ((rangesMachine g hasher).run (before ++ .start (.inr request) :: moment)
          (freshRanges g)).shared) := by
  obtain ⟨moments, tail, threads, hmoments, hordered, hfollows, -⟩ :=
    exists_follows_of_range hbounded hreturned
  obtain ⟨hle, hlength, houtcome⟩ := hfollows.outcome
  rw [List.length_map] at hle hlength
  exact ⟨moments, hmoments, hordered, hle, hlength, houtcome⟩

/-- A range of the first record. -/
def firstRange : RangeRequest := ⟨true, 0, 1, 2, by decide⟩

/-- An append runs before the range. -/
def beforeRange : List (Action (Request ⊕ RangeRequest) Empty) :=
  .start (.inl (.append firstEntry)) :: List.replicate 16 (.step 0)

/-- A trim comes between the steps of the range. -/
def trimmedRange : List (Action (Request ⊕ RangeRequest) Empty) :=
  List.replicate 3 (.step 1) ++ .start (.inl (.trim 1)) :: List.replicate 4 (.step 2) ++
    List.replicate 8 (.step 1)

theorem read_range_linearizes_twoPool :
    ∃ moments : List (List (Action (Request ⊕ RangeRequest) Empty)),
      (∀ moment ∈ moments, moment ++ [.step ((rangesMachine twoPool crc32fast).run beforeRange
        (freshRanges twoPool)).threads.length] <+: trimmedRange) ∧
      moments.Pairwise (fun earlier later ↦ earlier.length < later.length) ∧
      firstRange.startIndex.toNat + moments.length ≤
        max firstRange.startIndex.toNat firstRange.endIndex.toNat ∧
      (∀ records, (.ok [firstEntry.record 0] : Except FenceError (List Record)) = .ok records →
        firstRange.startIndex.toNat + moments.length =
          max firstRange.startIndex.toNat firstRange.endIndex.toNat) ∧
      .ok [firstEntry.record 0] = Log.readRange firstRange.startIndex.toNat
        (moments.map fun moment ↦ publishedLog twoPool ((rangesMachine twoPool crc32fast).run
          (beforeRange ++ .start (.inr firstRange) :: moment) (freshRanges twoPool)).shared) :=
  read_range_linearizes (by decide +kernel) (by decide +kernel)

/-- The records that a range has returned lie between the published log when the range began and the
published log now. -/
theorem read_range_between {records : List Record}
    (hbounded : (rangesMachine g hasher).Along (RangesBounded g hasher)
      (before ++ .start (.inr request) :: after) (freshRanges g))
    (hreturned : ((rangesMachine g hasher).run (before ++ .start (.inr request) :: after)
      (freshRanges g)).threads[((rangesMachine g hasher).run before
        (freshRanges g)).threads.length]? = some (.inr ⟨request, .returned (.ok records)⟩)) :
    Log.RangeBetween
      (publishedLog g ((rangesMachine g hasher).run before (freshRanges g)).shared)
      (publishedLog g ((rangesMachine g hasher).run (before ++ .start (.inr request) :: after)
        (freshRanges g)).shared)
      request.startIndex.toNat request.endIndex.toNat records := by
  obtain ⟨moments, tail, threads, -, -, hfollows, hgrows⟩ :=
    exists_follows_of_range hbounded hreturned
  obtain ⟨-, hlength, houtcome⟩ := hfollows.outcome
  refine Log.rangeBetween_of_readRange houtcome.symm (hlength records rfl) ?_ ?_
  · intro log hmem
    obtain ⟨moment, hmoment, rfl⟩ := List.mem_map.mp hmem
    exact (hgrows moment hmoment).1
  · intro log hmem
    obtain ⟨moment, hmoment, rfl⟩ := List.mem_map.mp hmem
    exact (hgrows moment hmoment).2

theorem read_range_between_twoPool :
    Log.RangeBetween
      (publishedLog twoPool
        ((rangesMachine twoPool crc32fast).run beforeRange (freshRanges twoPool)).shared)
      (publishedLog twoPool ((rangesMachine twoPool crc32fast).run
        (beforeRange ++ .start (.inr firstRange) :: trimmedRange) (freshRanges twoPool)).shared)
      firstRange.startIndex.toNat firstRange.endIndex.toNat [firstEntry.record 0] :=
  read_range_between (by decide +kernel) (by decide +kernel)

end Fence
