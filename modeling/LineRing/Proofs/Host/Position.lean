/-
Positioning of handles. Main statement: on a host that has come about in any way, a seek by a number moves to just the
place that is asked for, computed without wrapping around, and a seek by a directive is the seek to the offset of what
it names; each offset below the size is named by one directive and no other, as far as its numbers have 32 bits, and no
directive names the end (`positioning_is_exact`).
-/
import LineRing.Proofs.Handle.Seek
import LineRing.Proofs.Host.Seek
import LineRing.Proofs.Log.Addresses
import Mathlib.Logic.ExistsUnique

namespace LineRing

/-! ## Directives as addresses -/

namespace Directive

theorem address_injective : Function.Injective address := by
  intro d d' h
  obtain ⟨command, byte⟩ := d
  obtain ⟨command', byte'⟩ := d'
  obtain ⟨hcommand, hbyte⟩ := Address.mk.inj h
  obtain rfl := UInt32.toNat_inj.1 hcommand
  obtain rfl := UInt32.toNat_inj.1 hbyte
  rfl

/-- An address is named by one directive where its numbers have 32 bits, and otherwise by none. -/
theorem existsUnique_address_iff (a : Address) :
    (∃! d : Directive, d.address = a) ↔ a.command < UInt32.size ∧ a.byte < UInt32.size := by
  constructor
  · rintro ⟨d, rfl, -⟩
    exact ⟨d.command.toNat_lt_size, d.byte.toNat_lt_size⟩
  · rintro ⟨hcommand, hbyte⟩
    have haddress : (⟨.ofNat a.command, .ofNat a.byte⟩ : Directive).address = a := by
      unfold address
      rw [UInt32.toNat_ofNat_of_lt' hcommand, UInt32.toNat_ofNat_of_lt' hbyte]
    exact ⟨_, haddress, fun d hd => address_injective (hd.trans haddress.symm)⟩

end Directive

/-! ## Seeks by a directive -/

namespace Handle

variable {store : Store} {lock : Lock} {h : Handle} {d : Directive} {offset : Nat}

theorem seekTo_eq_ok_iff (hwf : store.log.WF) (hlock : store.acquire lock = .ok ()) :
    (h.seekTo store lock d).2 = .ok offset ↔ store.log.locate offset = some d.address := by
  rw [Log.locate_eq_some_iff hwf]
  unfold seekTo
  rw [hlock]
  cases store.log.offsetOf d.address with
  | error failure => simp
  | ok found => simp

theorem seekTo_of_ok (hlock : store.acquire lock = .ok ()) (hok : (h.seekTo store lock d).2 = .ok offset) :
    h.seekTo store lock d = ({ h with position := offset }, .ok offset) := by
  unfold seekTo at hok ⊢
  rw [hlock] at hok ⊢
  cases ho : store.log.offsetOf d.address with
  | error failure => rw [ho] at hok; cases hok
  | ok found => rw [ho] at hok; cases hok; rfl

/-- The place that a directive leads to is within the log, and the seek by its number leads there too. -/
theorem seekTo_eq_seek (hwf : store.log.WF) (hlock : store.acquire lock = .ok ())
    (hok : (h.seekTo store lock d).2 = .ok offset) :
    offset < store.log.size ∧ h.seekTo store lock d = h.seek store lock (.start offset) := by
  have hlt : offset < store.log.size := by
    rw [← Log.isSome_locate_iff hwf, (seekTo_eq_ok_iff hwf hlock).1 hok]; rfl
  rw [seekTo_of_ok hlock hok, seek_start hlock h (Nat.le_of_lt hlt)]
  exact ⟨hlt, rfl⟩

end Handle

namespace Host

/-! ## What a seek leaves as it was -/

/-- Whether an action is a seek through a handle. -/
def Action.isSeek : Action → Bool
  | seek .. | seekTo .. => true
  | _ => false

theorem Move.store_after_seek {m : Move} (hs : m.action.isSeek = true) : m.after.store = m.before.store := by
  obtain ⟨host, lock, action⟩ := m
  cases action with
  | seek | seekTo => exact readHandle_store _ _ _ _
  | _ => cases hs

/-- A seek leaves what every handle has written and every session as they were. -/
theorem Move.pending_after_seek {m : Move} (hs : m.action.isSeek = true) :
    (∀ id, (m.after.handles id).map (·.draft) = (m.before.handles id).map (·.draft)) ∧
      m.after.sessions = m.before.sessions := by
  obtain ⟨host, lock, action⟩ := m
  cases action with
  | seek id whence | seekTo id d =>
    refine ⟨fun other => ?_, withHandle_sessions _ _ _ _⟩
    by_cases hother : other = id
    · subst hother
      refine (congrArg _ (withHandle_handles_self _ _ _ _)).trans ?_
      rw [Option.map_map]
      congr 1
      funext h
      simp
    · exact congrArg _ (withHandle_handles_of_ne _ _ _ _ hother)
  | _ => cases hs

/-! ## The main statement -/

/-- Positioning is exact, and the two kinds of seek agree. Take a host that actions of its clients lead to and a handle,
wherever it stands, past the end too. A seek by a number moves to the integer that is asked for, counted from the start,
from the position or from the end, where that is within the log, and is refused otherwise; and so it is computed in
words. A directive that leads anywhere leads to where the seek by that offset does, before the end; of each offset
before the end there is one directive and no other, if the numbers of its address have 32 bits. Neither kind of seek
changes the store, a session, what a handle has written, or another handle. -/
theorem positioning_is_exact {host : Host} (hhost : host.Reachable) {lock : Lock}
    (hlock : host.store.acquire lock = .ok ()) (h : Handle) :
    let store := host.store
    let size := store.log.size
    (∀ offset : Nat, h.SeeksTo store lock (.start offset) offset) ∧
    (∀ distance : Int, h.SeeksTo store lock (.current distance) (h.position + distance)) ∧
    (∀ distance : Int, h.SeeksTo store lock (.fromEnd distance) (size + distance)) ∧
    (∀ position last : UInt64, position.toNat = h.position → last.toNat = size →
      ∀ w, h.wideSeek store lock position last w = h.seek store lock w.whence) ∧
    (∀ d offset, (h.seekTo store lock d).2 = .ok offset →
      h.seekTo store lock d = ({ h with position := offset }, .ok offset) ∧
        h.seek store lock (.start offset) = ({ h with position := offset }, .ok offset)) ∧
    (∀ offset < size, ∃ a, store.log.locate offset = some a ∧
      ((∃! d : Directive, (h.seekTo store lock d).2 = .ok offset) ↔
        a.command < UInt32.size ∧ a.byte < UInt32.size)) ∧
    (∀ d, (h.seekTo store lock d).2 ≠ .ok size) ∧
    (∀ other action, action.isSeek = true →
      let after := (host.step other action).1
      after.store = store ∧ after.sessions = host.sessions ∧
        (∀ id, (after.handles id).map (·.draft) = (host.handles id).map (·.draft)) ∧
        ∀ id, action.client ≠ .handle id → after.handles id = host.handles id) := by
  intro store size
  have hwf : store.log.WF := hhost.wf
  refine ⟨fun offset => h.seeksTo_target hlock (.start offset), fun distance => h.seeksTo_target hlock (.current distance),
    fun distance => h.seeksTo_target hlock (.fromEnd distance), ?_, ?_, ?_, ?_, ?_⟩
  · intro position last hposition hlast w
    exact Handle.wideSeek_eq hposition hlast w
  · intro d offset hok
    have hmoved := Handle.seekTo_of_ok hlock hok
    exact ⟨hmoved, (Handle.seekTo_eq_seek hwf hlock hok).2.symm.trans hmoved⟩
  · intro offset hlt
    obtain ⟨a, ha⟩ := Option.isSome_iff_exists.1 ((Log.isSome_locate_iff hwf).2 hlt)
    refine ⟨a, ha, ?_⟩
    -- a directive leads to the offset just if it is the address of it
    simp only [Handle.seekTo_eq_ok_iff hwf hlock, ha, Option.some_inj, eq_comm (a := a)]
    exact Directive.existsUnique_address_iff a
  · intro d hok
    exact absurd (Handle.seekTo_eq_seek hwf hlock hok).1 (Nat.lt_irrefl size)
  · intro other action hs
    have hpending := Move.pending_after_seek (m := ⟨host, other, action⟩) hs
    exact ⟨Move.store_after_seek (m := ⟨host, other, action⟩) hs, hpending.2, hpending.1,
      fun id hne => Move.handles_after_of_ne ⟨host, other, action⟩ hne⟩

/-- A handle that has read to the end of a log of which the first entry is then evicted: it stands past the end, from
where a seek can lead back, and no directive leads to where it stands. -/
theorem positioning_is_exact_past_end :
    let host := (run { store := { log := Ring.empty 1 } }
      [(.free, .commit [97, 98, 10]), (.free, .openHandle 0), (.free, .readAll 0), (.free, .commit [10])]).1
    host.Reachable ∧ host.store.acquire .free = .ok () ∧ ∃ h, host.handles 0 = some h ∧ h.position = 3 ∧
      host.store.log.size = 1 ∧ h.seek host.store .free (.current (-2)) = ({ h with position := 1 }, .ok 1) ∧
      h.seekTo host.store .free ⟨0, 0⟩ = h.seek host.store .free (.start 0) ∧
      h.wideSeek host.store .free 3 1 (.current (-2)) = h.seek host.store .free (.current (-2)) := by
  intro host
  have hhost : host.Reachable := ⟨1, _, _, rfl, rfl⟩
  have hlock : host.store.acquire .free = .ok () := rfl
  let h : Handle := { position := 3, draft := {} }
  have hopen : host.handles 0 = some h := by decide
  obtain ⟨-, hcurrent, -, hwide, hdirective, -⟩ := positioning_is_exact hhost hlock h
  obtain ⟨n, hn, hseek⟩ := (hcurrent (-2)).1 (by decide)
  obtain rfl : n = 1 := Int.ofNat.inj hn
  obtain ⟨hmoved, hstart⟩ := hdirective ⟨0, 0⟩ 0 (by decide)
  exact ⟨hhost, hlock, h, hopen, rfl, by decide, hseek, hmoved.trans hstart.symm,
    hwide 3 1 (by decide) (by decide) (.current (-2))⟩

end Host

end LineRing
