/-
Seeks over the integers and in words. A seek moves just to the integers from zero to the size of the log, both included
(`seeksTo_target`). In words, a position and a size are 64 bits without a sign and a distance is 64 bits with one; the place
asked for is computed in 128 bits with a sign, and a place within the log is cut to 64 bits again. Nothing is lost by
that (`toInt_wideTarget`, `wideSeek_eq`).
-/
import LineRing.Handle
import Mathlib.Algebra.GroupWithZero.Nat

namespace LineRing

/-! ## Seeks over the integers -/

namespace Handle

variable {store : Store} {lock : Lock}

/-- Whether a seek goes to the integer `t`: it moves there and says so where the log has that place, or ends there, and
otherwise it is refused and moves nothing. -/
def SeeksTo (store : Store) (lock : Lock) (h : Handle) (whence : Whence) (t : Int) : Prop :=
  (0 ≤ t ∧ t ≤ store.log.size → ∃ n : Nat, (n : Int) = t ∧
    h.seek store lock whence = ({ h with position := n }, .ok n)) ∧
  (¬ (0 ≤ t ∧ t ≤ store.log.size) → ∃ text,
    h.seek store lock whence = (h, .error (.stream ⟨.invalidInput, some text⟩)))

theorem size_eq_of_acquire (hlock : store.acquire lock = .ok ()) : store.size lock = .ok store.log.size := by
  unfold Store.size
  rw [hlock]; rfl

theorem seek_eq (hlock : store.acquire lock = .ok ()) (h : Handle) (whence : Whence) :
    h.seek store lock whence =
      if 0 ≤ h.target store.log.size whence ∧ h.target store.log.size whence ≤ store.log.size then
        ({ h with position := (h.target store.log.size whence).toNat }, .ok (h.target store.log.size whence).toNat)
      else (h, .error (.stream (seekFault (h.target store.log.size whence) store.log.size))) := by
  unfold seek
  rw [size_eq_of_acquire hlock]

theorem seeksTo_target (hlock : store.acquire lock = .ok ()) (h : Handle) (whence : Whence) :
    h.SeeksTo store lock whence (h.target store.log.size whence) := by
  constructor
  · intro hwithin
    refine ⟨(h.target store.log.size whence).toNat, Int.toNat_of_nonneg hwithin.1, ?_⟩
    rw [seek_eq hlock, if_pos hwithin]
  · intro houtside
    rw [seek_eq hlock, if_neg houtside]
    exact ⟨_, rfl⟩

theorem seek_start (hlock : store.acquire lock = .ok ()) (h : Handle) {offset : Nat} (hle : offset ≤ store.log.size) :
    h.seek store lock (.start offset) = ({ h with position := offset }, .ok offset) := by
  obtain ⟨n, hn, hseek⟩ := (h.seeksTo_target hlock (.start offset)).1 ⟨Int.natCast_nonneg _, Int.ofNat_le.2 hle⟩
  obtain rfl : n = offset := Int.ofNat.inj hn
  exact hseek

end Handle

/-! ## Seeks in words -/

/-- What a seek counts from, in words. -/
inductive WordWhence where
  | start (offset : UInt64)
  | current (distance : Int64)
  | fromEnd (distance : Int64)
  deriving DecidableEq, Repr

namespace WordWhence

/-- The numbers that the words stand for. -/
def whence : WordWhence → Whence
  | start offset => .start offset.toNat
  | current distance => .current distance.toInt
  | fromEnd distance => .fromEnd distance.toInt

/-- A word without a sign, in 128 bits. -/
def wide (n : UInt64) : BitVec 128 := n.toBitVec.setWidth 128

/-- A word with a sign, in 128 bits. -/
def wideSigned (d : Int64) : BitVec 128 := d.toBitVec.signExtend 128

/-- The place that is asked for, in 128 bits, whether or not the log has it. Sums wrap around. -/
def wideTarget (position size : UInt64) : WordWhence → BitVec 128
  | start offset => wide offset
  | current distance => wide position + wideSigned distance
  | fromEnd distance => wide size + wideSigned distance

/-! ### No wrapping around -/

@[simp] theorem toInt_wide (n : UInt64) : (wide n).toInt = n.toNat := by
  have hn := n.toNat_lt
  have hwide : (wide n).toNat = n.toNat := by
    simp [wide]; omega
  rw [BitVec.toInt_eq_toNat_of_lt (by rw [hwide]; omega), hwide]

@[simp] theorem toInt_wideSigned (d : Int64) : (wideSigned d).toInt = d.toInt :=
  BitVec.toInt_signExtend_of_le (by decide)

/-- The sum of a word without a sign and one with a sign is far from what 128 bits can hold. -/
theorem toInt_wide_add (n : UInt64) (d : Int64) : (wide n + wideSigned d).toInt = n.toNat + d.toInt := by
  have hn := n.toNat_lt
  have hlow := d.le_toInt
  have hhigh := d.toInt_lt
  rw [BitVec.toInt_add, toInt_wide, toInt_wideSigned]
  apply Int.bmod_eq_of_le
  · omega
  · omega

/-- The place computed in 128 bits is the one over the integers. -/
theorem toInt_wideTarget {h : Handle} {position size : UInt64} (hposition : position.toNat = h.position)
    (w : WordWhence) : (w.wideTarget position size).toInt = h.target size.toNat w.whence := by
  cases w with
  | start offset => exact toInt_wide offset
  | current distance =>
    show (wide position + wideSigned distance).toInt = h.position + distance.toInt
    rw [toInt_wide_add, hposition]
  | fromEnd distance => exact toInt_wide_add size distance

end WordWhence

namespace Handle

/-- A seek as it is computed in words, of a handle and a log of which these are the position and the size. -/
def wideSeek (store : Store) (lock : Lock) (h : Handle) (position size : UInt64) (w : WordWhence) :
    Handle × Except Failure Nat :=
  match store.acquire lock with
  | .error failure => (h, .error failure)
  | .ok () =>
    let target := w.wideTarget position size
    if target.slt 0 || (WordWhence.wide size).slt target then
      (h, .error (.stream (seekFault target.toInt size.toNat)))
    else
      -- the place is within the log here, so that a word holds it
      let place : UInt64 := ⟨target.setWidth 64⟩
      ({ h with position := place.toNat }, .ok place.toNat)

theorem toNat_setWidth_of_toInt_le {target : BitVec 128} {size : UInt64} (hpos : 0 ≤ target.toInt)
    (hle : target.toInt ≤ size.toNat) : (target.setWidth 64).toNat = target.toInt.toNat := by
  have hsize := size.toNat_lt
  have htarget := BitVec.toInt_eq_toNat_cond target
  rw [BitVec.toNat_setWidth]
  split at htarget <;> omega

theorem outside_iff {target : BitVec 128} {size : UInt64} :
    (target.slt 0 || (WordWhence.wide size).slt target) = true ↔ ¬ (0 ≤ target.toInt ∧ target.toInt ≤ size.toNat) := by
  rw [Bool.or_eq_true, BitVec.slt_iff_toInt_lt, BitVec.slt_iff_toInt_lt, WordWhence.toInt_wide]
  show target.toInt < 0 ∨ _ ↔ _
  omega

/-- A seek in words is a seek over the integers. -/
theorem wideSeek_eq {store : Store} {lock : Lock} {h : Handle} {position size : UInt64}
    (hposition : position.toNat = h.position) (hsize : size.toNat = store.log.size) (w : WordWhence) :
    h.wideSeek store lock position size w = h.seek store lock w.whence := by
  have htarget : (w.wideTarget position size).toInt = h.target size.toNat w.whence :=
    WordWhence.toInt_wideTarget hposition w
  rw [hsize] at htarget
  unfold wideSeek
  cases hlock : store.acquire lock with
  | error failure =>
    unfold seek Store.size
    rw [hlock]; rfl
  | ok u =>
    rw [seek_eq hlock, ← htarget, ← hsize]
    dsimp only
    by_cases hwithin : 0 ≤ (w.wideTarget position size).toInt ∧ (w.wideTarget position size).toInt ≤ size.toNat
    · rw [if_neg fun hout => outside_iff.1 hout hwithin, if_pos hwithin, UInt64.toNat_ofBitVec,
        toNat_setWidth_of_toInt_le hwithin.1 hwithin.2]
    · rw [if_pos (outside_iff.2 hwithin), if_neg hwithin]

end Handle

end LineRing
