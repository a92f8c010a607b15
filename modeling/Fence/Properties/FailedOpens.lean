import Fence.Runtime.OpenFile

/-!
# Opens that fail

`FenceRuntime::open` creates the file and sets its size before it looks at the magic number, also
when it is asked for an existing pool. `LeavesFile` is what a caller expects: an open that fails
leaves the file alone, and one that succeeds does not cut bytes off. That is so when the size need
not change, or nothing stands between the resizing and a success, and only then
(`leavesFile_iff`).
-/

set_option autoImplicit false
set_option relaxedAutoImplicit false

namespace Fence

open ByteMemory

variable (failures : SystemFailures) (path : Option String) (config : PoolConfig)
  (file : Option (List UInt8))

/-- An open that fails leaves the file as it was, and one that succeeds keeps all its bytes. -/
structure LeavesFile : Prop where
  failed : ∀ error later,
    FenceRuntime.openFile failures path config file = some (.error error, later) → later = file
  opened : ∀ runtime later,
    FenceRuntime.openFile failures path config file = some (.ok runtime, later) →
      ∀ bytes, file = some bytes → ∃ kept, later = some kept ∧ bytes <+: kept

/-- The file is not reached, or its size need not change, or it is extended and starts with the
magic number and nothing fails afterwards. -/
def SizeFits : Prop :=
  ∀ raw, RawGeometry.new config.capacity config.payloadSize config.maxHosts = some raw →
    (∃ error, MmapBackend.cPath path = .error error) ∨ failures.openError.isSome ∨
      (failures.ftruncateError.isSome ∧ file.isSome) ∨
      (failures.ftruncateError = none ∧ ∃ bytes, file = some bytes ∧
        (bytes.length = raw.totalSize.toNat ∨
          bytes.length < raw.totalSize.toNat ∧ failures.mmapError = none ∧
            loadWord (mapped bytes) hdrMagic 8 = magicNumber))

variable {failures path config file}

/-- What is expected of an open that returned. -/
theorem leavesFile_iff_of_eq {result : Except FenceError RawRuntime} {later : Option (List UInt8)}
    (hopen : FenceRuntime.openFile failures path config file = some (result, later)) :
    LeavesFile failures path config file ↔
      (∀ error, result = .error error → later = file) ∧
        ∀ runtime, result = .ok runtime →
          ∀ bytes, file = some bytes → ∃ kept, later = some kept ∧ bytes <+: kept := by
  constructor
  · rintro ⟨hfailed, hopened⟩
    exact ⟨fun error hresult ↦ hfailed error later (hresult ▸ hopen),
      fun runtime hresult ↦ hopened runtime later (hresult ▸ hopen)⟩
  · rintro ⟨hfailed, hopened⟩
    refine ⟨fun error other hother ↦ ?_, fun runtime other hother ↦ ?_⟩
    · obtain ⟨hresult, rfl⟩ := Prod.mk.inj (Option.some.inj (hopen.symm.trans hother))
      exact hfailed error hresult
    · obtain ⟨hresult, rfl⟩ := Prod.mk.inj (Option.some.inj (hopen.symm.trans hother))
      exact hopened runtime hresult

/-- An open that failed leaves the file alone when the file it left is the one there was. -/
theorem leavesFile_iff_of_error {error : FenceError} {later : Option (List UInt8)}
    (hopen : FenceRuntime.openFile failures path config file = some (.error error, later)) :
    LeavesFile failures path config file ↔ later = file := by
  rw [leavesFile_iff_of_eq hopen]
  exact ⟨fun hleaves ↦ hleaves.1 error rfl,
    fun hlater ↦ ⟨fun _ _ ↦ hlater, fun _ hresult ↦ by cases hresult⟩⟩

/-- A file that was resized is the one there was when it had the size already. -/
theorem some_ftruncate_eq_iff {size : ℕ} :
    some (ftruncate (file.getD []) size) = file ↔ ∃ bytes, file = some bytes ∧
      bytes.length = size := by
  cases file with
  | none => simp
  | some bytes => simp [ftruncate_eq_self_iff]

section Opened

variable {raw : RawGeometry}
  (hnew : RawGeometry.new config.capacity config.payloadSize config.maxHosts = some raw)

include hnew

/-- A backend that fails fails the open. -/
theorem openFile_of_error {error : FenceError} {later : Option (List UInt8)}
    (hbackend : MmapBackend.open failures path raw.totalSize.toNat file = (.error error, later)) :
    FenceRuntime.openFile failures path config file = some (.error error, later) := by
  rw [FenceRuntime.openFile, hnew, Option.map_some, hbackend]

/-- A pool that is mapped is opened when its file starts with the magic number. -/
theorem openFile_of_mapped (hcreate : config.create = false) {memory : Memory}
    {later : Option (List UInt8)}
    (hbackend : MmapBackend.open failures path raw.totalSize.toNat file = (.ok memory, later)) :
    FenceRuntime.openFile failures path config file = some
      (if loadWord memory hdrMagic 8 = magicNumber then .ok ⟨raw, config.hostId, memory⟩
        else .error (.invalidMagic magicNumber (loadWord memory hdrMagic 8)), later) := by
  rw [FenceRuntime.openFile, hnew, Option.map_some, hbackend]
  simp only [hcreate, Bool.false_eq_true, if_false, ite_not]
  split_ifs <;> rfl

/-- The condition on the size, for the geometry there is. -/
theorem sizeFits_iff : SizeFits failures path config file ↔
    (∃ error, MmapBackend.cPath path = .error error) ∨ failures.openError.isSome ∨
      (failures.ftruncateError.isSome ∧ file.isSome) ∨
      (failures.ftruncateError = none ∧ ∃ bytes, file = some bytes ∧
        (bytes.length = raw.totalSize.toNat ∨
          bytes.length < raw.totalSize.toNat ∧ failures.mmapError = none ∧
            loadWord (mapped bytes) hdrMagic 8 = magicNumber)) := by
  unfold SizeFits
  rw [hnew]
  simp

/-- A file that was resized and mapped. -/
theorem leavesFile_iff_of_mapped (hcreate : config.create = false)
    (hbackend : MmapBackend.open failures path raw.totalSize.toNat file =
      (.ok (mapped (ftruncate (file.getD []) raw.totalSize.toNat)),
        some (ftruncate (file.getD []) raw.totalSize.toNat))) :
    LeavesFile failures path config file ↔
      ∃ bytes, file = some bytes ∧ (bytes.length = raw.totalSize.toNat ∨
        bytes.length < raw.totalSize.toNat ∧ loadWord (mapped bytes) hdrMagic 8 = magicNumber) := by
  have hopen := openFile_of_mapped hnew hcreate hbackend
  have hmagic := @magic_mapped_ftruncate (file.getD []) raw.totalSize.toNat
    (Nat.le_trans (by decide) (RawGeometry.headerSize_le_totalSize hnew))
  rw [hmagic] at hopen
  by_cases hvalid : loadWord (mapped (file.getD [])) hdrMagic 8 = magicNumber
  · rw [if_pos hvalid] at hopen
    rw [leavesFile_iff_of_eq hopen]
    cases file with
    | none =>
      -- an absent file has no magic number
      exact absurd hvalid (by decide +kernel)
    | some bytes =>
      rw [Option.getD_some] at hvalid
      simp only [Option.getD_some, reduceCtorEq, false_implies, implies_true, Except.ok.injEq,
        forall_eq', Option.some.injEq, exists_eq_left', prefix_ftruncate_iff, true_and, hvalid,
        and_true, Nat.le_iff_lt_or_eq]
      exact or_comm
  · rw [if_neg hvalid] at hopen
    rw [leavesFile_iff_of_error hopen, some_ftruncate_eq_iff]
    refine exists_congr fun bytes ↦ and_congr_right fun hfile ↦ ⟨Or.inl, fun hsize ↦ ?_⟩
    refine hsize.resolve_right fun hshort ↦ hvalid ?_
    rw [hfile, Option.getD_some]
    exact hshort.2

end Opened

/-- An open of an existing pool leaves the file as it should when its size fits, and only then. -/
theorem leavesFile_iff (hcreate : config.create = false) :
    LeavesFile failures path config file ↔ SizeFits failures path config file := by
  cases hnew : RawGeometry.new config.capacity config.payloadSize config.maxHosts with
  | none =>
    have hpanics : FenceRuntime.openFile failures path config file = none := by
      rw [FenceRuntime.openFile, hnew, Option.map_none]
    refine ⟨fun _ raw hraw ↦ ?_, fun _ ↦ ⟨fun _ _ hopen ↦ ?_, fun _ _ hopen ↦ ?_⟩⟩
    · cases hnew.symm.trans hraw
    · cases hpanics.symm.trans hopen
    · cases hpanics.symm.trans hopen
  | some raw =>
    rw [sizeFits_iff hnew]
    cases hpath : MmapBackend.cPath path with
    | error error =>
      have hbackend : MmapBackend.open failures path raw.totalSize.toNat file =
          (.error error, file) := by
        simp only [MmapBackend.open, hpath]
      rw [leavesFile_iff_of_error (openFile_of_error hnew hbackend)]
      simp
    | ok text =>
      cases hopen : failures.openError with
      | some detail =>
        have hbackend : MmapBackend.open failures path raw.totalSize.toNat file =
            (.error (.mmapFailed ("open() failed: " ++ detail)), file) := by
          simp only [MmapBackend.open, hpath, hopen]
        rw [leavesFile_iff_of_error (openFile_of_error hnew hbackend)]
        simp
      | none =>
        cases hresize : failures.ftruncateError with
        | some detail =>
          have hbackend : MmapBackend.open failures path raw.totalSize.toNat file =
              (.error (.mmapFailed ("ftruncate() failed: " ++ detail)), some (file.getD [])) := by
            simp only [MmapBackend.open, hpath, hopen, hresize]
          rw [leavesFile_iff_of_error (openFile_of_error hnew hbackend)]
          cases file <;> simp
        | none =>
          cases hmap : failures.mmapError with
          | some detail =>
            have hbackend : MmapBackend.open failures path raw.totalSize.toNat file =
                (.error (.mmapFailed ("mmap() failed: " ++ detail)),
                  some (ftruncate (file.getD []) raw.totalSize.toNat)) := by
              simp only [MmapBackend.open, hpath, hopen, hresize, hmap]
            rw [leavesFile_iff_of_error (openFile_of_error hnew hbackend), some_ftruncate_eq_iff]
            simp
          | none =>
            have hbackend : MmapBackend.open failures path raw.totalSize.toNat file =
                (.ok (mapped (ftruncate (file.getD []) raw.totalSize.toNat)),
                  some (ftruncate (file.getD []) raw.totalSize.toNat)) := by
              simp only [MmapBackend.open, hpath, hopen, hresize, hmap]
            rw [leavesFile_iff_of_mapped hnew hcreate hbackend]
            simp

/-- A file of the wrong size, opened as the smallest pool where the file cannot be opened. -/
theorem leavesFile_iff_refused :
    LeavesFile ⟨some "Permission denied (os error 13)", none, none⟩ (some "/dev/shm/pool")
        ⟨1, 8, 1, 0, false⟩ (some [1, 2, 3]) ↔
      SizeFits ⟨some "Permission denied (os error 13)", none, none⟩ (some "/dev/shm/pool")
        ⟨1, 8, 1, 0, false⟩ (some [1, 2, 3]) :=
  leavesFile_iff rfl

/-- An existing pool is asked for with too small a capacity, or under a name that no file has. The
first open fails on a file of 4096 zeros and cuts it to 2368 bytes, the second creates the file. -/
theorem not_leavesFile_of_invalidMagic :
    ¬ LeavesFile .none (some "/dev/shm/pool") ⟨16, 64, 4, 0, false⟩
        (some (List.replicate 4096 0)) ∧
      ¬ LeavesFile .none (some "/dev/shm/pool") ⟨16, 64, 4, 0, false⟩ none := by
  have hpath : MmapBackend.cPath (some "/dev/shm/pool") = .ok "/dev/shm/pool" := by decide
  have hnew : RawGeometry.new 16 64 4 = some ⟨16, 64, 4, 128, 2368⟩ := by decide
  have hopen : ∀ file : Option (List UInt8),
    MmapBackend.open .none (some "/dev/shm/pool") 2368 file =
      (.ok (mapped (ftruncate (file.getD []) 2368)), some (ftruncate (file.getD []) 2368)) := by
    intro file
    simp only [MmapBackend.open, hpath, SystemFailures.none]
  refine ⟨fun hleaves ↦ ?_, fun hleaves ↦ ?_⟩
  · obtain ⟨bytes, hfile, hsize⟩ := (leavesFile_iff_of_mapped hnew rfl (hopen _)).mp hleaves
    have hlength : bytes.length = 4096 := by
      rw [← Option.some.inj hfile, List.length_replicate]
    rcases hsize with hsame | ⟨hshort, -⟩
    · exact absurd (hlength.symm.trans hsame) (by decide)
    · exact absurd (hlength ▸ hshort) (by decide)
  · obtain ⟨bytes, hfile, -⟩ := (leavesFile_iff_of_mapped hnew rfl (hopen _)).mp hleaves
    cases hfile

end Fence
