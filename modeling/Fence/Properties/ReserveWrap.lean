import Fence.Protocol.Invariant

/-!
# When the reserve tail wraps

The code does not bound how many appends may stall between their failing reservation and its
undo. When `2 ^ 64` minus the reserve tail of them stall on a full pool, the reserve tail wraps
to zero and the slots are handed out once more. This module computes such runs
(`run_stalled`), however many calls they have, and the one on a pool of one slot that the
theorems about the log are shown to need their bound by (`run_wrapped`).
-/

set_option autoImplicit false
set_option relaxedAutoImplicit false

namespace Fence

open ByteMemory Interleaving

variable {g : PoolGeometry} {hasher : Hasher}

/-- The reservation of an append that finds the pool full. -/
theorem Call.step_reserve_full {entry : Entry} {memory : Memory}
    (hfull : g.capacity ≤ loadWord memory hdrReserveTail 8) :
    (Call.append entry (.running .reserve)).step g hasher memory =
      (.append entry (.running (.undo (loadWord memory hdrReserveTail 8))),
        storeWord memory hdrReserveTail 8 ((loadWord memory hdrReserveTail 8 + 1) % 2 ^ 64)) := by
  rw [Call.step_append]
  simp only [FenceRuntime.append, BackendCall.exec, if_pos hfull]

/-- Appends that stall right after their reservation on a full pool. -/
theorem run_stalled {config : Config Call Memory} {entry : Entry} {count : ℕ}
    (hsize : entry.data.length ≤ g.payloadSize)
    (hfull : g.capacity ≤ loadWord config.shared hdrReserveTail 8)
    (hcount : loadWord config.shared hdrReserveTail 8 + count ≤ 2 ^ 64) :
    (runtimeMachine g hasher).run (flood (.append entry) config.threads.length count) config =
      { shared := storeWord config.shared hdrReserveTail 8
          ((loadWord config.shared hdrReserveTail 8 + count) % 2 ^ 64)
        threads := config.threads ++ (List.range count).map fun i ↦
          .append entry (.running (.undo (loadWord config.shared hdrReserveTail 8 + i))) } := by
  have htail : loadWord config.shared hdrReserveTail 8 < 2 ^ 64 := loadWord_lt _ _ _
  have hstart : (runtimeMachine g hasher).start (.append entry) =
      .append entry (.running .reserve) := by
    simp only [runtimeMachine, Request.call, startAppend, if_neg (Nat.not_lt.mpr hsize)]
  let states : ℕ → Memory := fun i ↦ storeWord config.shared hdrReserveTail 8
    ((loadWord config.shared hdrReserveTail 8 + i) % 2 ^ 64)
  have hload : ∀ i < count, loadWord (states i) hdrReserveTail 8 =
      loadWord config.shared hdrReserveTail 8 + i := by
    intro i hi
    simp only [states]
    rw [loadWord_storeWord_self]
    omega
  have hzero : states 0 = config.shared := by
    simp only [states]
    rw [Nat.add_zero, Nat.mod_eq_of_lt htail, storeWord_loadWord_self]
  have hstep : ∀ i < count, (runtimeMachine g hasher).step
      ((runtimeMachine g hasher).start (.append entry)) (states i) =
        (.append entry (.running (.undo (loadWord config.shared hdrReserveTail 8 + i))),
          states (i + 1)) := by
    intro i hi
    have hstep : (Call.append entry (.running .reserve)).step g hasher (states i) = _ :=
      Call.step_reserve_full (by rw [hload i hi]; omega)
    rw [hstart]
    refine hstep.trans ?_
    rw [hload i hi]
    simp only [states, storeWord_storeWord_self, Nat.add_assoc]
  have hrun := run_flood _ states count hstep config.threads
  rw [hzero] at hrun
  exact hrun

/-! ### A pool of one slot -/

/-- One append fills the pool of one slot. -/
def firstEntry : Entry := ⟨0, 1, [7]⟩

/-- An append that comes after the wrap. -/
def secondEntry : Entry := ⟨0, 2, [9]⟩

/-- The run of an append alone. -/
def fillPool {Event : Type} : List (Action Request Event) := alone (.append firstEntry) 0 16

/-- The memory an append alone leaves. -/
def singleRecord : Memory :=
  ((runtimeMachine onePool crc32fast).run fillPool (freshConfig onePool)).shared

theorem run_stalled_onePool {config : Config Call Memory} {count : ℕ}
    (htail : loadWord config.shared hdrReserveTail 8 = 1) (hcount : count + 1 = 2 ^ 64) :
    (runtimeMachine onePool crc32fast).run
        (flood (.append secondEntry) config.threads.length count) config =
      { shared := storeWord config.shared hdrReserveTail 8 0
        threads := config.threads ++ (List.range count).map fun i ↦
          .append secondEntry (.running (.undo (1 + i))) } := by
  have hsize : secondEntry.data.length ≤ onePool.payloadSize := by decide
  have hfull : onePool.capacity ≤ loadWord config.shared hdrReserveTail 8 := by
    rw [htail]
    decide
  have hwrap : loadWord config.shared hdrReserveTail 8 + count = 2 ^ 64 := by omega
  have hrun : (runtimeMachine onePool crc32fast).run _ config = _ :=
    run_stalled hsize hfull (Nat.le_of_eq hwrap)
  rw [hwrap, Nat.mod_self, htail] at hrun
  exact hrun

/-- After the wrap the next append gets the slot as on an empty pool, and runs alone. -/
theorem run_wrapped {config : Config Call Memory} {count : ℕ} (turns : ℕ)
    (htail : loadWord config.shared hdrReserveTail 8 = 1) (hcount : count + 1 = 2 ^ 64) :
    let later := (runtimeMachine onePool crc32fast).solo turns
      ((runtimeMachine onePool crc32fast).start (.append secondEntry))
      (storeWord config.shared hdrReserveTail 8 0)
    (runtimeMachine onePool crc32fast).run
        (alone (.append secondEntry) (config.threads.length + count) turns)
        ((runtimeMachine onePool crc32fast).run
          (flood (.append secondEntry) config.threads.length count) config) =
      { shared := later.2
        threads := config.threads ++ (List.range count).map (fun i ↦
          .append secondEntry (.running (.undo (1 + i)))) ++ [later.1] } := by
  have halone : (runtimeMachine onePool crc32fast).run _
      ⟨storeWord config.shared hdrReserveTail 8 0, config.threads ++ (List.range count).map fun i ↦
        .append secondEntry (.running (.undo (1 + i)))⟩ = _ :=
    run_alone (.append secondEntry) turns _
  simp only [List.length_append, List.length_map, List.length_range] at halone
  rw [run_stalled_onePool htail hcount]
  exact halone

theorem run_fillPool : (runtimeMachine onePool crc32fast).run fillPool (freshConfig onePool) =
    { shared := singleRecord, threads := [.append firstEntry (.returned (.ok 1))] } := by
  have hthreads : ((runtimeMachine onePool crc32fast).run fillPool
      (freshConfig onePool)).threads = [.append firstEntry (.returned (.ok 1))] := by
    decide +kernel
  exact Config.ext rfl hthreads

theorem reserveTail_singleRecord : loadWord singleRecord hdrReserveTail 8 = 1 := by
  decide +kernel

/-- The append that fills the pool, the ones that stall, and the one after the wrap. -/
theorem run_fillPool_wrapped {count : ℕ} (turns : ℕ) (hcount : count + 1 = 2 ^ 64) :
    let later := (runtimeMachine onePool crc32fast).solo turns
      ((runtimeMachine onePool crc32fast).start (.append secondEntry))
      (storeWord singleRecord hdrReserveTail 8 0)
    (runtimeMachine onePool crc32fast).run
        (fillPool ++ flood (.append secondEntry) 1 count ++
          alone (.append secondEntry) (1 + count) turns) (freshConfig onePool) =
      { shared := later.2
        threads := [.append firstEntry (.returned (.ok 1))] ++ (List.range count).map (fun i ↦
          .append secondEntry (.running (.undo (1 + i)))) ++ [later.1] } := by
  rw [run_append, run_append, run_fillPool]
  exact run_wrapped turns reserveTail_singleRecord hcount

end Fence
