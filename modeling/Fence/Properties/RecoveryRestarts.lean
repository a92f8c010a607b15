import Fence.Library.Eras
import Fence.Properties.RecoveryConfluence
import Fence.Protocol.CachedRecovery

/-!
# Recovery survives power failures

Recoveries are cut off by power failures any number of times: each takes the cache and all calls
with it, whatever was written back before. Once the power holds until some recovery has returned,
the memory is the one that a single recovery leaves that nothing ever interrupted
(`recovery_survives_power_failures`). What carries the proof is that the media is on the way of
recovery at all times (`Sinking`), so that nothing a failure leaves has to be undone.
-/

set_option autoImplicit false
set_option relaxedAutoImplicit false

namespace Fence

open ByteMemory Interleaving

variable {g : PoolGeometry} {hasher : Hasher} {start : Memory}

/-- The recoveries have done what their points say in the cache, and the media is on the way. -/
structure Sinking (g : PoolGeometry) (hasher : Hasher) (start : Memory)
    (config : Config (Task RecoverPoint RecoveryReport) CachedMemory) : Prop where
  recovering : Recovering g hasher start (config.project CachedMemory.cached)
  media : Between g hasher start config.shared.media

/-- A step of a recovery leaves the media on the way. -/
theorem Sinking.media_step {config : Config (Task RecoverPoint RecoveryReport) CachedMemory}
    (hsinking : Sinking g hasher start config) (task : Task RecoverPoint RecoveryReport) :
    Between g hasher start ((cachedRecoverMachine g hasher).step task config.shared).2.media := by
  cases task with
  | returned report => exact hsinking.media
  | running point =>
    rcases (Recovery.recover g hasher point).execCached_media config.shared with
      hsame | ⟨offset, length, next, hcall, hflush⟩
    · exact hsame ▸ hsinking.media
    · have hoffset := Recovery.headerSize_le_of_flush hcall
      show Between g hasher start
        ((Recovery.recover g hasher point).execCached config.shared).2.media
      rw [hflush]
      refine hsinking.media.mix hsinking.recovering.between (Or.inl ?_)
        (config.shared.flush_media offset length)
      refine loadWord_congr (load_congr fun i hi ↦ CachedMemory.flush_media_before ?_)
      unfold hdrCommittedTail headerSize cacheline at *
      omega

theorem Sinking.apply {config : Config (Task RecoverPoint RecoveryReport) CachedMemory}
    (hsinking : Sinking g hasher start config) (action : Interleaving.Action Unit ℕ) :
    Sinking g hasher start ((cachedRecoverMachine g hasher).apply config action) := by
  cases action with
  | start request =>
    refine ⟨?_, hsinking.media⟩
    rw [cachedRecoverMachine_apply_start]
    exact hsinking.recovering.apply (.start request)
  | step index =>
    refine ⟨?_, ?_⟩
    · rw [cachedRecoverMachine_apply_step]
      exact hsinking.recovering.apply (.step index)
    · cases htask : config.threads[index]? with
      | none =>
        rw [apply_step_of_none _ htask]
        exact hsinking.media
      | some task =>
        rw [apply_step_of_getElem? _ htask]
        exact hsinking.media_step task
  | env line =>
    refine ⟨?_, hsinking.media.mix hsinking.recovering.between (tail_writeBack line config.shared)
      (config.shared.writeBack_media line)⟩
    exact hsinking.recovering

/-- A run on a media that is on the way. -/
theorem Sinking.of_media {memory : Memory} (hbetween : Between g hasher start memory)
    (schedule : List (Interleaving.Action Unit ℕ)) :
    Sinking g hasher start ((cachedRecoverMachine g hasher).run schedule ⟨.clean memory, []⟩) :=
  invariant_run_always (Sinking g hasher start) (fun _ action hsinking ↦ hsinking.apply action)
    schedule ⟨⟨hbetween, fun task hmem ↦ by cases hmem⟩, hbetween⟩

/-- Recoveries on a memory after a number of power failures, each of which cut off others. -/
def recoverAfterFailures (g : PoolGeometry) (hasher : Hasher) (start : Memory)
    (eras : List (List (Interleaving.Action Unit ℕ)))
    (schedule : List (Interleaving.Action Unit ℕ)) :
    Config (Task RecoverPoint RecoveryReport) CachedMemory :=
  (cachedRecoverMachine g hasher).run schedule
    ⟨(cachedRecoverMachine g hasher).survives CachedMemory.powerFailure eras (.clean start), []⟩

/-- What the failures leave is on the way. -/
theorem exists_media_of_failures (eras : List (List (Interleaving.Action Unit ℕ))) :
    ∃ media, (cachedRecoverMachine g hasher).survives CachedMemory.powerFailure eras
      (.clean start) = .clean media ∧ Between g hasher start media := by
  refine survives_invariant
    (fun shared ↦ ∃ media, shared = CachedMemory.clean media ∧ Between g hasher start media)
    ?_ eras ⟨start, rfl, .refl start⟩
  rintro shared schedule ⟨media, rfl, hbetween⟩
  exact ⟨_, rfl, (Sinking.of_media hbetween schedule).media⟩

/-- Any number of recoveries run on a memory, any number of power failures cut them off, and lines
are written back at any time. Once a recovery has returned, the memory is the one that a single
recovery alone would have made of the memory before the first failure, and the report says where its
tail is. -/
theorem recovery_survives_power_failures (start : Memory)
    (eras : List (List (Interleaving.Action Unit ℕ)))
    (schedule : List (Interleaving.Action Unit ℕ)) {report : RecoveryReport}
    (hreturned : .returned report ∈ (recoverAfterFailures g hasher start eras schedule).threads) :
    (∃ count alone, (recoverMachine g hasher).solo count ((recoverMachine g hasher).start ())
      start = (.returned alone,
        (recoverAfterFailures g hasher start eras schedule).shared.cached)) ∧
      report.committedTail = loadWord
        (recoverAfterFailures g hasher start eras schedule).shared.cached hdrCommittedTail 8 := by
  obtain ⟨media, hmedia, hbetween⟩ := @exists_media_of_failures g hasher start eras
  rw [recoverAfterFailures, hmedia] at hreturned ⊢
  obtain ⟨hrecovered, htail⟩ := (Sinking.of_media hbetween schedule).recovering.recovered hreturned
  obtain ⟨final, ⟨count, hsolo⟩, hfinal⟩ := exists_recovered_report g hasher start
  refine ⟨⟨count, recoveryReport g hasher start, ?_⟩, htail⟩
  rw [hsolo, hfinal.unique hrecovered]
  rfl

/-- Two failures: the first leaves one of two torn slots marked, the second comes when both are. -/
def twoFailures : List (List (Interleaving.Action Unit ℕ)) :=
  [alone () 0 3 ++ [.env 1], alone () 0 7 ++ alone () 1 2]

theorem recovery_survives_power_failures_tornMemory :
    (∃ count report, (recoverMachine twoPool crc32fast).solo count
      ((recoverMachine twoPool crc32fast).start ()) tornMemory = (.returned report,
        (recoverAfterFailures twoPool crc32fast tornMemory twoFailures
          (alone () 0 9)).shared.cached)) ∧
      (⟨0, 0, 2⟩ : RecoveryReport).committedTail = loadWord
        (recoverAfterFailures twoPool crc32fast tornMemory twoFailures
          (alone () 0 9)).shared.cached hdrCommittedTail 8 :=
  recovery_survives_power_failures tornMemory twoFailures (alone () 0 9) (by decide +kernel)

end Fence
