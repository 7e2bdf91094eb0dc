/-
Making logs of every capacity. Where the slots of a log fit into no allocation, their bytes are counted for the report,
and from 2⁵⁹ slots on their number is no word. Main statement: below that, making a log, or a store around one, comes to
the right end for every capacity, and a new log takes entries with every step checked; from there on it breaks off.

A store is made around a log, so what holds of making a log (`creates_ring`) is carried over to stores by one lemma
(`Creates.map`).
-/
import LineRing.Proofs.Checked.Ring
import LineRing.Store

namespace LineRing

/-! ## What it comes to -/

/-- An empty log with this many slots that takes any entry. -/
structure Checked.IsNew (capacity : Nat) (log : Log) : Prop where
  size_slots : log.slots.size = capacity
  count_eq : count log = .ok 0
  toList_eq : toList log = .ok []
  insert_eq : ∀ e, ∃ more, insert log e = .ok (more, none) ∧ toList more = .ok [e]

/-- What making something around a new log of this capacity comes to, where `log` is the log in what was made. -/
structure Creates {β : Type} (capacity : Nat) (made : Except Unmade β) (log : β → Log) : Prop where
  /-- No slots: the capacity is refused. -/
  zero : capacity = 0 → made = .error (.failed (.needsOne "capacity"))
  /-- Slots that fit into one allocation: there is a new log. -/
  fits : 0 < capacity → 32 * capacity < 2 ^ 63 → ∃ b, made = .ok b ∧ Checked.IsNew capacity (log b)
  /-- More slots than fit: the bytes asked for are reported, while their number is a word. -/
  large : 2 ^ 63 ≤ 32 * capacity → 32 * capacity < 2 ^ 64 → made = .error (.failed (.allocation (32 * capacity)))
  /-- More bytes than a word can count: nothing is reported. -/
  overflow : 2 ^ 64 ≤ 32 * capacity → made = .error .brokenOff

/-! ## Logs -/

theorem slots_le_iff (capacity : Nat) : Ring.slotSize * capacity ≤ allocationLimit ↔ 32 * capacity < 2 ^ 63 := by
  unfold Ring.slotSize allocationLimit UInt64.size
  omega

theorem Checked.isNew_empty {capacity : Nat} (hpos : 0 < capacity) (hslots : 32 * capacity < 2 ^ 63) :
    IsNew capacity (Ring.empty capacity : Log) := by
  have hwf : (Ring.empty capacity : Log).WF := Ring.empty_wf hpos
  have hfits : (Ring.empty capacity : Log).Fits :=
    ⟨hwf, by rw [Ring.capacity_empty]; exact (slots_le_iff capacity).2 hslots⟩
  have hnil : (Ring.empty capacity : Log).toList = [] := Ring.toList_empty capacity
  refine ⟨Ring.capacity_empty capacity, ?_, by rw [toList_eq hfits, hnil], fun e => ?_⟩
  · rw [count_eq hfits, ← hwf.length_toList, hnil]; rfl
  · refine ⟨((Ring.empty capacity).insert e).1, ?_, ?_⟩
    · rw [insert_eq hfits]; rfl
    · rw [toList_eq (hfits.insert e), Ring.toList_insert hwf, hnil]; rfl

/-- Where the slots do not fit, there is a report just where the number of their bytes is a word. -/
theorem create_of_large {α : Type} {capacity : Nat} (hslots : 2 ^ 63 ≤ 32 * capacity) :
    (Ring.create capacity : Except Unmade (Ring α)) =
      if 32 * capacity < 2 ^ 64 then .error (.failed (.allocation (32 * capacity))) else .error .brokenOff := by
  have hle := mt (slots_le_iff capacity).1 (Nat.not_lt.2 hslots)
  unfold Ring.create
  rw [if_neg (by omega), if_neg hle]
  rfl

theorem creates_ring (capacity : Nat) : Creates capacity (Ring.create capacity) (fun log => log) where
  zero hzero := if_pos hzero
  fits hpos hslots :=
    ⟨_, Ring.create_eq_ok_iff.2 ⟨hpos, (slots_le_iff capacity).2 hslots, rfl⟩, Checked.isNew_empty hpos hslots⟩
  large hslots hword := (create_of_large hslots).trans (if_pos hword)
  overflow hword := (create_of_large (by omega)).trans (if_neg (Nat.not_lt.2 hword))

/-! ## Stores -/

/-- What is made around something that is made around a new log. -/
theorem Creates.map {β γ : Type} {capacity : Nat} {made : Except Unmade β} {log : β → Log} (h : Creates capacity made log)
    {f : β → γ} {log' : γ → Log} (hlog : ∀ b, log' (f b) = log b) : Creates capacity (made.map f) log' where
  zero hzero := by rw [h.zero hzero]; rfl
  fits hpos hslots := by
    obtain ⟨b, hmade, hnew⟩ := h.fits hpos hslots
    rw [hmade]
    exact ⟨f b, rfl, by rw [hlog]; exact hnew⟩
  large hslots hword := by rw [h.large hslots hword]; rfl
  overflow hword := by rw [h.overflow hword]; rfl

theorem creates_store (capacity : Nat) : Creates capacity (Store.create capacity) Store.log := by
  have hmade : Store.create capacity = (Ring.create capacity).map fun log => { log := log } := by
    unfold Store.create
    cases (Ring.create capacity : Except Unmade Log) <;> rfl
  rw [hmade]
  exact (creates_ring capacity).map fun _ => rfl

/-- A configuration whose other sizes can be used. Its capacity is refused, if it is, by either of two checks, for one
and the same reason. -/
theorem creates_ofConfig {c : Config} (h : ({ c with capacity := 1 } : Config).validate = .ok ()) :
    Creates c.capacity (Store.ofConfig c) Store.log := by
  rcases Nat.eq_zero_or_pos c.capacity with hzero | hpos
  · have hvalid : c.validate = .error (.needsOne "capacity") := if_pos hzero
    have hmade : Store.ofConfig c = .error (.failed (.needsOne "capacity")) := by
      unfold Store.ofConfig; rw [hvalid]; rfl
    rw [hmade]
    exact ⟨fun _ => rfl, fun hpos => by omega, fun hslots => by omega, fun hword => by omega⟩
  · have hvalid : c.validate = .ok () := by
      unfold Config.validate at h ⊢
      rw [if_neg (by omega)]
      exact h
    have hmade : Store.ofConfig c = (Ring.create c.capacity).map fun log =>
        { log := log, patience := c.lockWait?.map (1000 * ·), draftLimit := some c.commandLimit } := by
      unfold Store.ofConfig
      rw [hvalid]
      cases (Ring.create c.capacity : Except Unmade Log) <;> rfl
    rw [hmade]
    exact (creates_ring c.capacity).map fun _ => rfl

/-! ## The main statement -/

namespace Store

/-- Making a log of any capacity, by itself, in a store without bounds, or in a store set up from a configuration whose
other sizes can be used. A capacity of zero is refused. Below 2⁵⁸ slots there is a new log, which takes entries; from
there on the bytes asked for are reported, 32 for each slot, while their number is a word. So it is below 2⁵⁹ slots;
from there on nothing is reported, since the making breaks off. -/
theorem creation_exact_while_bytes_are_word (c : Config) (h : ({ c with capacity := 1 } : Config).validate = .ok ()) :
    Creates c.capacity (Ring.create c.capacity) (fun log => log) ∧
    Creates c.capacity (Store.create c.capacity) Store.log ∧
    Creates c.capacity (Store.ofConfig c) Store.log :=
  ⟨creates_ring c.capacity, creates_store c.capacity, creates_ofConfig h⟩

/-- The largest capacity for which there is a log, and the largest one whose bytes are reported. -/
theorem creation_exact_while_bytes_are_word_largest :
    let c : Config := { capacity := 2 ^ 58 - 1 }
    let d : Config := { capacity := 2 ^ 59 - 1, chunk := 1 }
    ({ c with capacity := 1 } : Config).validate = .ok () ∧ ({ d with capacity := 1 } : Config).validate = .ok () ∧
    (∃ store, Store.ofConfig c = .ok store ∧ Checked.IsNew c.capacity store.log) ∧
    32 * d.capacity = 2 ^ 64 - 32 ∧ Store.ofConfig d = .error (.failed (.allocation (32 * d.capacity))) := by
  intro c d
  have hvalid : ({ c with capacity := 1 } : Config).validate = .ok () := rfl
  have hvalid' : ({ d with capacity := 1 } : Config).validate = .ok () := rfl
  obtain ⟨-, -, hfits⟩ := creation_exact_while_bytes_are_word c hvalid
  obtain ⟨-, -, hlarge⟩ := creation_exact_while_bytes_are_word d hvalid'
  exact ⟨hvalid, hvalid', hfits.fits (by decide) (by decide), by decide, hlarge.large (by decide) (by decide)⟩

/-- The smallest capacity whose bytes are no word. A configuration with it is accepted; more bytes are asked for than
fit into an allocation, and their number is not reported. -/
theorem creation_breaks_off :
    let c : Config := { capacity := 2 ^ 59 }
    c.validate = .ok () ∧ 2 ^ 63 - 1 < 32 * c.capacity ∧
    (Ring.create c.capacity : Except Unmade Log) = .error .brokenOff ∧
    (Ring.create c.capacity : Except Unmade Log) ≠ .error (.failed (.allocation (32 * c.capacity))) ∧
    Store.create c.capacity = .error .brokenOff ∧ Store.ofConfig c = .error .brokenOff := by
  intro c
  have hword : 2 ^ 64 ≤ 32 * c.capacity := by decide
  have hring : (Ring.create c.capacity : Except Unmade Log) = .error .brokenOff :=
    (creates_ring c.capacity).overflow hword
  refine ⟨rfl, by decide, hring, ?_, (creates_store c.capacity).overflow hword, ?_⟩
  · rw [hring]
    simp
  · exact (creates_ofConfig (c := c) rfl).overflow hword

end Store

end LineRing
