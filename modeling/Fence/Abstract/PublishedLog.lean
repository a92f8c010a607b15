import Fence.Abstract.Log
import Mathlib.Data.List.Induction

/-!
# How the log that readers see can change

Readers see the entries below the committed tail. This part of the log changes in two ways only:
entries are published at its end, and one entry at a time is marked (`Log.Change`). Any number of
changes leaves every entry under its index, and a marked entry marked (`Log.Grows`). So a later
read of the same index returns the same record or finds it gone, and whatever index was in bounds
stays in bounds (`Log.Grows.read`), and entries that are marked stay so (`Log.MarkedTo.grows`).
-/

set_option autoImplicit false
set_option relaxedAutoImplicit false

namespace Fence

/-- What a read returns of an entry that is there. -/
def LogEntry.view (item : LogEntry) (index : ℕ) : Option Record :=
  if item.trimmed then none
  else some ⟨index, item.entry.term.toNat, item.entry.hostId.toNat, item.entry.data⟩

namespace Log

/-- The log with one entry marked. -/
def markAt (log : Log) (slot : ℕ) : Log :=
  log.modify slot fun item ↦ { item with trimmed := true }

/-- What one action can make of the published log. -/
inductive Change (log : Log) : Log → Prop
  | stay : Change log log
  | publish (items : List LogEntry) : Change log (log ++ items)
  | mark (slot : ℕ) : Change log (log.markAt slot)

/-- Every entry is still there, and still marked if it was. -/
def Grows (log later : Log) : Prop :=
  ∀ (slot : ℕ) (item : LogEntry), log[slot]? = some item → ∃ after : LogEntry,
    later[slot]? = some after ∧ after.entry = item.entry ∧
      (item.trimmed = true → after.trimmed = true)

variable {log middle later : Log}

theorem Grows.refl (log : Log) : log.Grows log := fun _ item hitem ↦
  ⟨item, hitem, rfl, id⟩

theorem Grows.trans (hfirst : log.Grows middle) (hsecond : middle.Grows later) :
    log.Grows later := by
  intro slot item hitem
  obtain ⟨between, hbetween, hentry, hmarked⟩ := hfirst slot item hitem
  obtain ⟨after, hafter, hentry', hmarked'⟩ := hsecond slot between hbetween
  exact ⟨after, hafter, hentry'.trans hentry, fun htrimmed ↦ hmarked' (hmarked htrimmed)⟩

/-- A change takes no entry away. -/
theorem Change.grows (hchange : log.Change later) : log.Grows later := by
  intro slot item hitem
  cases hchange with
  | stay => exact ⟨item, hitem, rfl, id⟩
  | publish items =>
    obtain ⟨hinside, -⟩ := List.getElem?_eq_some_iff.mp hitem
    exact ⟨item, (List.getElem?_append_left hinside).trans hitem, rfl, id⟩
  | mark marked =>
    refine ⟨if marked = slot then { item with trimmed := true } else item, ?_, ?_, ?_⟩
    · rw [markAt, List.getElem?_modify, hitem]
      split_ifs <;> rfl
    · split_ifs <;> rfl
    · intro htrimmed
      split_ifs
      · rfl
      · exact htrimmed

/-! ### Reading -/

/-- A read in bounds returns its view of the entry. -/
theorem read_eq_ok_iff {index : ℕ} {outcome : Option Record} :
    log.read index = .ok outcome ↔
      0 < index ∧ ∃ item, log[index - 1]? = some item ∧ item.view index = outcome := by
  rw [read]
  split_ifs with hbounds
  · constructor
    · intro herror
      cases herror
    · rintro ⟨hpos, item, hitem, -⟩
      obtain ⟨hinside, -⟩ := List.getElem?_eq_some_iff.mp hitem
      omega
  · have hinside : index - 1 < log.length := by omega
    rw [List.getElem?_eq_getElem hinside, Option.bind_some, Except.ok.injEq]
    constructor
    · intro hview
      exact ⟨by omega, _, rfl, hview⟩
    · rintro ⟨-, item, hitem, hview⟩
      obtain rfl := Option.some.inj hitem
      exact hview

theorem read_eq_error {index : ℕ} (hbounds : index = 0 ∨ log.length < index) :
    log.read index = .error (.indexOutOfBounds index log.length) :=
  if_pos hbounds

/-- A later read of an index that was in bounds is in bounds. Of the same index it returns the same
record, or finds the entry marked. -/
theorem Grows.read (hgrows : log.Grows later) {index other : ℕ} {outcome : Option Record}
    (hread : log.read index = .ok outcome) (hpos : 0 < other) (hle : other ≤ index) :
    ∃ second, later.read other = .ok second ∧
      (other = index → second = outcome ∨ second = none) := by
  obtain ⟨-, item, hitem, hview⟩ := read_eq_ok_iff.mp hread
  obtain ⟨hinside, -⟩ := List.getElem?_eq_some_iff.mp hitem
  have hother : other - 1 < log.length := by omega
  obtain ⟨after, hafter, hentry, hmarked⟩ := hgrows _ _ (List.getElem?_eq_getElem hother)
  refine ⟨after.view other, read_eq_ok_iff.mpr ⟨hpos, after, hafter, rfl⟩, ?_⟩
  rintro rfl
  obtain rfl := Option.some.inj ((List.getElem?_eq_getElem hother).symm.trans hitem)
  rw [LogEntry.view] at hview ⊢
  cases htrimmed : after.trimmed with
  | true => exact Or.inr rfl
  | false =>
    refine Or.inl ?_
    rw [← hview, hentry]
    cases hbefore : log[other - 1].trimmed with
    | true => rw [hmarked hbefore] at htrimmed; cases htrimmed
    | false => rfl

/-! ### Marked entries -/

/-- The first entries are there, and all of them are marked. -/
def MarkedTo (log : Log) (bound : ℕ) : Prop :=
  ∀ slot < bound, ∃ item : LogEntry, log[slot]? = some item ∧ item.trimmed = true

theorem MarkedTo.mono {bound lower : ℕ} (hmarked : log.MarkedTo bound) (hle : lower ≤ bound) :
    log.MarkedTo lower := fun slot hslot ↦ hmarked slot (Nat.lt_of_lt_of_le hslot hle)

/-- One more entry is marked. -/
theorem MarkedTo.succ {bound : ℕ} (hmarked : log.MarkedTo bound) {item : LogEntry}
    (hitem : log[bound]? = some item) (htrimmed : item.trimmed = true) :
    log.MarkedTo (bound + 1) := by
  intro slot hslot
  rcases Nat.lt_succ_iff_lt_or_eq.mp hslot with hbelow | rfl
  · exact hmarked slot hbelow
  · exact ⟨item, hitem, htrimmed⟩

theorem MarkedTo.grows {bound : ℕ} (hmarked : log.MarkedTo bound) (hgrows : log.Grows later) :
    later.MarkedTo bound := by
  intro slot hslot
  obtain ⟨item, hitem, htrimmed⟩ := hmarked slot hslot
  obtain ⟨after, hafter, -, hstill⟩ := hgrows slot item hitem
  exact ⟨after, hafter, hstill htrimmed⟩

/-- A marked entry is there, but no read returns it. -/
theorem MarkedTo.read {bound index : ℕ} (hmarked : log.MarkedTo bound) (hpos : 0 < index)
    (hle : index ≤ bound) : log.read index = .ok none := by
  obtain ⟨item, hitem, htrimmed⟩ := hmarked (index - 1) (by omega)
  exact read_eq_ok_iff.mpr ⟨hpos, item, hitem, if_pos htrimmed⟩

/-! ### Ranges -/

/-- Successive indices, each read from a log of its own. The records that are found are the result,
up to the first error. -/
def readRange (startIndex : ℕ) (logs : List Log) : Except FenceError (List Record) :=
  (logs.zipIdx startIndex).foldlM (fun records place ↦
    (place.1.read place.2).map fun found ↦ records ++ found.toList) []

theorem readRange_concat (startIndex : ℕ) (logs : List Log) (log : Log) :
    readRange startIndex (logs ++ [log]) = (readRange startIndex logs).bind fun records ↦
      (log.read (startIndex + logs.length)).map fun found ↦ records ++ found.toList := by
  rw [readRange, List.zipIdx_append, List.foldlM_append]
  refine congrArg (Except.bind _) (funext fun records ↦ ?_)
  simp [List.zipIdx]

/-- A range with one more index is the range before it, and a read of that index. -/
theorem readRange_concat_eq_ok_iff {startIndex : ℕ} {logs : List Log} {log : Log}
    {records : List Record} :
    readRange startIndex (logs ++ [log]) = .ok records ↔ ∃ earlier found,
      readRange startIndex logs = .ok earlier ∧
        log.read (startIndex + logs.length) = .ok found ∧ records = earlier ++ found.toList := by
  rw [readRange_concat]
  cases readRange startIndex logs with
  | error error => simp [Except.bind]
  | ok earlier =>
    cases log.read (startIndex + logs.length) with
    | error error => simp [Except.bind, Except.map]
    | ok found => simp [Except.bind, Except.map, eq_comm]

/-- A record that is read has the index it was read under. -/
theorem index_of_read {index : ℕ} {record : Record} (hread : log.read index = .ok (some record)) :
    record.index = index := by
  obtain ⟨-, item, -, hview⟩ := read_eq_ok_iff.mp hread
  rw [LogEntry.view] at hview
  split_ifs at hview
  rw [← Option.some.inj hview]

section ReadRange

variable {startIndex : ℕ} {logs : List Log} {records : List Record}
  (hread : readRange startIndex logs = .ok records)

include hread

/-- Every index of a range was read. -/
theorem read_of_readRange {place : ℕ} (hlog : logs[place]? = some log) :
    ∃ found, log.read (startIndex + place) = .ok found ∧
      ∀ record, found = some record → record ∈ records := by
  induction logs using List.reverseRecOn generalizing records with
  | nil => cases hlog
  | append_singleton earlier last ih =>
    obtain ⟨before, found, hbefore, hfound, rfl⟩ := readRange_concat_eq_ok_iff.mp hread
    rcases Nat.lt_trichotomy place earlier.length with hlt | rfl | hgt
    · rw [List.getElem?_append_left hlt] at hlog
      obtain ⟨other, hother, hmem⟩ := ih hbefore hlog
      exact ⟨other, hother, fun record hsome ↦ List.mem_append_left _ (hmem record hsome)⟩
    · rw [List.getElem?_concat_length, Option.some.injEq] at hlog
      subst hlog
      exact ⟨found, hfound, fun record hsome ↦ List.mem_append_right _ (by simp [hsome])⟩
    · rw [List.getElem?_eq_none (by simp; omega)] at hlog
      cases hlog

/-- Every record of a range was read from one of its logs. -/
theorem exists_of_mem_readRange {record : Record} (hmem : record ∈ records) :
    ∃ (place : ℕ) (log : Log), logs[place]? = some log ∧
      log.read (startIndex + place) = .ok (some record) := by
  induction logs using List.reverseRecOn generalizing records with
  | nil =>
    obtain rfl : [] = records := Except.ok.inj hread
    cases hmem
  | append_singleton earlier last ih =>
    obtain ⟨before, found, hbefore, hfound, rfl⟩ := readRange_concat_eq_ok_iff.mp hread
    rcases List.mem_append.mp hmem with hold | hnew
    · obtain ⟨place, log, hlog, hanswer⟩ := ih hbefore hold
      obtain ⟨hplace, -⟩ := List.getElem?_eq_some_iff.mp hlog
      exact ⟨place, log, (List.getElem?_append_left hplace).trans hlog, hanswer⟩
    · rw [Option.mem_toList] at hnew
      exact ⟨earlier.length, last, List.getElem?_concat_length, hnew ▸ hfound⟩

/-- The records of a range come in the order of their indices. -/
theorem pairwise_readRange : (records.map Record.index).Pairwise (· < ·) := by
  induction logs using List.reverseRecOn generalizing records with
  | nil =>
    obtain rfl : [] = records := Except.ok.inj hread
    exact .nil
  | append_singleton earlier last ih =>
    obtain ⟨before, found, hbefore, hfound, rfl⟩ := readRange_concat_eq_ok_iff.mp hread
    rw [List.map_append, List.pairwise_append]
    refine ⟨ih hbefore, ?_, ?_⟩
    · cases found with
      | none => exact .nil
      | some record => exact List.pairwise_singleton _ _
    · intro index hindex next hnext
      obtain ⟨record, hmem, rfl⟩ := List.mem_map.mp hindex
      obtain ⟨second, hsecond, rfl⟩ := List.mem_map.mp hnext
      obtain ⟨place, log, hlog, hanswer⟩ := exists_of_mem_readRange hbefore hmem
      obtain ⟨hplace, -⟩ := List.getElem?_eq_some_iff.mp hlog
      rw [Option.mem_toList] at hsecond
      rw [index_of_read hanswer, index_of_read (hsecond ▸ hfound)]
      omega

end ReadRange

/-- What a range of indices gives when it is read while the log grows: the records come in order,
none of them was gone at the beginning, and what can be read at the end is among them. -/
structure RangeBetween (opened closed : Log) (startIndex endIndex : ℕ) (records : List Record) :
    Prop where
  ordered : (records.map Record.index).Pairwise (· < ·)
  inside : ∀ record ∈ records, startIndex ≤ record.index ∧ record.index < endIndex
  genuine : ∀ record ∈ records, ∃ item : LogEntry, closed[record.index - 1]? = some item ∧
    record = ⟨record.index, item.entry.term.toNat, item.entry.hostId.toNat, item.entry.data⟩
  present : ∀ record ∈ records, opened.read record.index ≠ .ok none
  complete : ∀ index, startIndex ≤ index → index < endIndex → ∃ found,
    closed.read index = .ok found ∧ ∀ record, found = some record → record ∈ records

/-- A range whose reads were answered while the log grew. -/
theorem rangeBetween_of_readRange {opened closed : Log} {startIndex endIndex : ℕ}
    {logs : List Log} {records : List Record} (hread : readRange startIndex logs = .ok records)
    (hlength : startIndex + logs.length = max startIndex endIndex)
    (hopened : ∀ log ∈ logs, opened.Grows log) (hclosed : ∀ log ∈ logs, log.Grows closed) :
    RangeBetween opened closed startIndex endIndex records where
  ordered := pairwise_readRange hread
  inside := by
    intro record hmem
    obtain ⟨place, log, hlog, hanswer⟩ := exists_of_mem_readRange hread hmem
    obtain ⟨hplace, -⟩ := List.getElem?_eq_some_iff.mp hlog
    rw [index_of_read hanswer]
    omega
  genuine := by
    intro record hmem
    obtain ⟨place, log, hlog, hanswer⟩ := exists_of_mem_readRange hread hmem
    obtain ⟨hpos, item, hitem, hview⟩ := read_eq_ok_iff.mp hanswer
    obtain ⟨after, hafter, hentry, -⟩ := hclosed log (List.mem_of_getElem? hlog) _ item hitem
    rw [LogEntry.view] at hview
    split_ifs at hview
    rw [index_of_read hanswer]
    refine ⟨after, hafter, ?_⟩
    rw [hentry]
    exact (Option.some.inj hview).symm
  present := by
    intro record hmem hgone
    obtain ⟨place, log, hlog, hanswer⟩ := exists_of_mem_readRange hread hmem
    obtain ⟨hpos, -⟩ := read_eq_ok_iff.mp hgone
    obtain ⟨second, hsecond, hsame⟩ :=
      (hopened log (List.mem_of_getElem? hlog)).read hgone hpos (Nat.le_refl _)
    rw [index_of_read hanswer, hanswer] at hsecond
    obtain rfl := Except.ok.inj hsecond
    rcases hsame rfl with hnone | hnone <;> cases hnone
  complete := by
    intro index hfrom hto
    obtain ⟨place, rfl⟩ : ∃ place, index = startIndex + place := ⟨index - startIndex, by omega⟩
    have hlog := List.getElem?_eq_getElem (by omega : place < logs.length)
    obtain ⟨found, hanswer, hfound⟩ := read_of_readRange hread hlog
    obtain ⟨hpos, -⟩ := read_eq_ok_iff.mp hanswer
    obtain ⟨second, hsecond, hsame⟩ :=
      (hclosed _ (List.getElem_mem _)).read hanswer hpos (Nat.le_refl _)
    refine ⟨second, hsecond, fun record hsome ↦ ?_⟩
    rcases hsame rfl with rfl | rfl
    · exact hfound record hsome
    · cases hsome

end Log

end Fence
