/-
Look-ups and reads with every step checked. Main statement: on a log that insertions and clearings lead to from a new
one, with fewer bytes than a word counts, nothing breaks off, whatever is asked for: the checked operations of the log,
of a handle that reads into a buffer, and of a reply, are the operations (`lookups_break_off_nowhere`).

Each search adds up sizes of entries from the oldest one on, so that no sum is above the size of the log, and it looks
for the difference only in the entry that the offset is in. The entries are all looked up before they are searched: one
that looks them up as it goes makes some of the same checks. A reply ends because its place goes up by a byte at least
and is a word.
-/
import LineRing.Handle
import LineRing.Proofs.Checked.Ring
import LineRing.Proofs.Log.Slices
import LineRing.Sink

namespace LineRing

namespace Checked

/-! ## Look-ups -/

/-- The number of bytes that entries have together. -/
def sum (l : List Entry) : Except Breach Nat := l.foldlM (fun composed e => add composed e.length) 0

/-- The number of retained bytes. -/
def size (log : Log) : Except Breach Nat := do
  let entries ← toList log
  sum entries

/-- The entry that holds the byte at `offset`, and where in it, in entries that begin at `composed`. -/
def findFrom (composed : Nat) : List Entry → (offset : Nat) → Except Breach (Option (Entry × Nat))
  | [], _ => .ok none
  | e :: rest, offset => do
    let stop ← add composed e.length
    if offset < stop then
      let inner ← sub offset composed
      return some (e, inner)
    else findFrom stop rest offset

/-- The command that holds the byte at an offset, and where in it. -/
def find (log : Log) (offset : Nat) : Except Breach (Option (Entry × Nat)) := do
  let entries ← toList log
  findFrom 0 entries offset

/-- The address of the byte at `offset` in entries of which the first has this index and begins at `composed`. The sum
is made once to compare it and once to go on. -/
def locateFrom (index composed : Nat) : List Entry → (offset : Nat) → Except Breach (Option Address)
  | [], _ => .ok none
  | e :: rest, offset => do
    let next ← add index 1
    let stop ← add composed e.length
    if offset < stop then
      let inner ← sub offset composed
      return some ⟨index, inner⟩
    else
      let composed ← add composed e.length
      locateFrom next composed rest offset

/-- The address of the byte at an offset. -/
def locate (log : Log) (offset : Nat) : Except Breach (Option Address) := do
  let entries ← toList log
  locateFrom 0 0 entries offset

/-- The offset of the byte at an address. -/
def offsetOf (log : Log) (a : Address) : Except Breach (Except Failure Nat) := do
  let retained ← count log
  let found ← get log a.command
  match found with
  | none => return .error (.noSuchCommand a.command retained)
  | some e =>
    if a.byte < e.length then
      let entries ← toList log
      let preceding ← sum (entries.take a.command)
      let offset ← add preceding a.byte
      return .ok offset
    else return .error (.noSuchByte a.byte e.length)

/-! ## Reads -/

/-- The bytes of an entry from `lo` up to `hi`. -/
def cut (e : Entry) (lo hi : Nat) : Except Breach Bytes :=
  match e.slice? lo hi with
  | none => .error .outOfBounds
  | some slice => .ok slice

/-- Up to `most` bytes from an offset on, and how many they are. -/
def slice (log : Log) (offset most : Nat) : Except Breach (Option (Bytes × Nat)) := do
  let found ← find log offset
  match found with
  | none => return none
  | some (e, inner) =>
    let left ← sub e.length inner
    let stop ← add inner (min most left)
    let bytes ← cut e inner stop
    return some (bytes, min most left)

/-- A buffer with bytes copied to the first `count` places of it. They have to be as many. -/
def copyTo (buffer : Bytes) (count : Nat) (bytes : Bytes) : Except Breach Bytes :=
  if count ≤ buffer.length ∧ bytes.length = count then .ok (bytes ++ buffer.drop count) else .error .outOfBounds

/-- A read into a buffer: the handle, the number of bytes read, and the buffer afterwards. -/
def read (store : Store) (lock : Lock) (h : Handle) (buffer : Bytes) :
    Except Breach (Handle × Except Failure Nat × Bytes) :=
  match store.acquire lock with
  | .error failure => .ok (h, .error failure, buffer)
  | .ok () => do
    let found ← slice store.log h.position buffer.length
    match found with
    | none => return (h, .ok 0, buffer)
    | some (bytes, count) =>
      let filled ← copyTo buffer count bytes
      let position ← add h.position count
      return ({ h with position := position }, .ok count, filled)

/-! ## Replies -/

/-- A place that is found is within its entry. -/
theorem findFrom_eq_ok {composed offset : Nat} {l : List Entry} {e : Entry} {inner : Nat}
    (h : findFrom composed l offset = .ok (some (e, inner))) : inner < e.length := by
  induction l generalizing composed with
  | nil => cases h
  | cons first rest ih =>
    obtain ⟨stop, hstop, hrest⟩ := bind_eq_ok h
    obtain ⟨rfl, -⟩ := add_eq_ok hstop
    split at hrest
    · obtain ⟨inner', hinner, hsome⟩ := bind_eq_ok hrest
      obtain ⟨rfl, hle⟩ := sub_eq_ok hinner
      cases hsome
      omega
    · exact ih hrest

/-- A slice that may have a byte has one. -/
theorem slice_eq_ok {log : Log} {offset most count : Nat} {bytes : Bytes}
    (h : slice log offset most = .ok (some (bytes, count))) (hmost : 0 < most) : 0 < count := by
  obtain ⟨found, hfind, hfound⟩ := bind_eq_ok h
  cases found with
  | none => cases hfound
  | some place =>
    obtain ⟨entries, -, hentries⟩ := bind_eq_ok hfind
    have hinner := findFrom_eq_ok hentries
    obtain ⟨left, hleft, hrest⟩ := bind_eq_ok hfound
    obtain ⟨rfl, -⟩ := sub_eq_ok hleft
    obtain ⟨stop, -, hcut⟩ := bind_eq_ok hrest
    obtain ⟨bytes', -, hsome⟩ := bind_eq_ok hcut
    cases hsome
    omega

section Replies

variable {σ : Type}

/-- What is left of a reply that began at `start` and is at `place`, slice by slice; the answer is the number of bytes
sent. -/
def streamFrom (log : Log) (chunk start : Nat) (sink : Sink σ) (place : Nat) (s : σ) :
    Except Breach (σ × Except Failure Nat) :=
  match _hslice : slice log place (max chunk 1) with
  | .error breach => .error breach
  | .ok none =>
    match sink.flush s with
    | (s, .error fault) => .ok (s, .error (.stream fault))
    | (s, .ok ()) => do
      let sent ← sub place start
      return (s, .ok sent)
  | .ok (some (bytes, count)) =>
    match sink.write s bytes with
    | (s, .error fault) => .ok (s, .error (.stream fault))
    | (s, .ok written) =>
      if written = count then
        match _hnext : add place count with
        | .error breach => .error breach
        | .ok next => streamFrom log chunk start sink next s
      else .ok (s, .error (.shortWrite count written))
termination_by wordRange - place
decreasing_by
  obtain ⟨rfl, hlt⟩ := add_eq_ok _hnext
  have hpos := slice_eq_ok _hslice (by omega)
  omega

/-- Sends the log from an offset on, in slices of at most `chunk` bytes. -/
def stream (log : Log) (offset chunk : Nat) (sink : Sink σ) (s : σ) : Except Breach (σ × Except Failure Nat) :=
  streamFrom log chunk offset sink offset s

/-- What a reply of so many bytes comes to, once its slices have been sent. -/
def ended (sink : Sink σ) (sent : Nat) : σ × Except Failure Unit → σ × Except Failure Nat
  | (s, .error failure) => (s, .error failure)
  | (s, .ok ()) =>
    match sink.flush s with
    | (s, .error fault) => (s, .error (.stream fault))
    | (s, .ok ()) => (s, .ok sent)

end Replies

/-! ## Sums -/

section

variable {log : Log}

theorem foldlM_add_eq (l : List Entry) :
    ∀ {composed : Nat}, composed + totalLength l < wordRange →
      l.foldlM (fun composed e => add composed e.length) composed = .ok (composed + totalLength l) := by
  induction l with
  | nil => exact fun _ => rfl
  | cons e rest ih =>
    intro composed h
    rw [totalLength_cons, ← Nat.add_assoc] at h
    rw [List.foldlM_cons, add_eq (by omega), ok_bind, ih h, totalLength_cons, Nat.add_assoc]

theorem sum_eq {l : List Entry} (h : totalLength l < wordRange) : sum l = .ok (totalLength l) := by
  unfold sum
  rw [foldlM_add_eq l (by omega), Nat.zero_add]

theorem size_eq (hfits : log.Fits) (hsize : log.size < wordRange) : size log = .ok log.size := by
  unfold size
  rw [toList_eq hfits, ok_bind]
  exact sum_eq hsize

/-! ## Searches -/

/-- The sum at an entry that is passed is not above the offset, and so the difference is taken where there is one. -/
theorem findFrom_eq {offset : Nat} (l : List Entry) :
    ∀ {composed : Nat}, composed ≤ offset → composed + totalLength l < wordRange →
      findFrom composed l offset = .ok (Log.findFrom composed l offset) := by
  induction l with
  | nil => exact fun _ _ => rfl
  | cons e rest ih =>
    intro composed hle h
    rw [totalLength_cons, ← Nat.add_assoc] at h
    rw [findFrom, Log.findFrom, add_eq (by omega), ok_bind]
    by_cases hlt : offset < composed + e.length
    · rw [if_pos hlt, if_pos hlt, sub_eq hle]
      rfl
    · rw [if_neg hlt, if_neg hlt]
      exact ih (Nat.le_of_not_lt hlt) h

theorem find_eq (hfits : log.Fits) (hsize : log.size < wordRange) (offset : Nat) :
    find log offset = .ok (log.find? offset) := by
  unfold find
  rw [toList_eq hfits, ok_bind]
  exact findFrom_eq log.toList (Nat.zero_le _) (by rw [Nat.zero_add]; exact hsize)

theorem locateFrom_eq {offset : Nat} (l : List Entry) :
    ∀ {index composed : Nat}, composed ≤ offset → composed + totalLength l < wordRange →
      index + l.length < wordRange → locateFrom index composed l offset = .ok (Log.locateFrom index composed l offset) := by
  induction l with
  | nil => exact fun _ _ _ => rfl
  | cons e rest ih =>
    intro index composed hle h hindex
    rw [totalLength_cons, ← Nat.add_assoc] at h
    rw [List.length_cons] at hindex
    rw [locateFrom, Log.locateFrom, add_eq (by omega), ok_bind, add_eq (by omega), ok_bind]
    by_cases hlt : offset < composed + e.length
    · rw [if_pos hlt, if_pos hlt, sub_eq hle]
      rfl
    · rw [if_neg hlt, if_neg hlt, ok_bind]
      exact ih (Nat.le_of_not_lt hlt) h (by omega)

theorem locate_eq (hfits : log.Fits) (hsize : log.size < wordRange) (offset : Nat) :
    locate log offset = .ok (log.locate offset) := by
  have hcount := hfits.add_lt hfits.wf.count_le (Nat.le_refl _)
  unfold locate
  rw [toList_eq hfits, ok_bind]
  apply locateFrom_eq log.toList (Nat.zero_le _)
  · rw [Nat.zero_add]; exact hsize
  · rw [hfits.wf.length_toList]; omega

theorem offsetOf_eq (hfits : log.Fits) (hsize : log.size < wordRange) (a : Address) :
    offsetOf log a = .ok (log.offsetOf a) := by
  unfold offsetOf
  rw [count_eq hfits, ok_bind, get_eq hfits, ok_bind]
  cases hget : log.get? a.command with
  | none =>
    unfold Log.offsetOf
    rw [hget]
    rfl
  | some e =>
    dsimp only
    by_cases hbyte : a.byte < e.length
    · have hoffset : log.offsetOf a = .ok (totalLength (log.toList.take a.command) + a.byte) := by
        unfold Log.offsetOf
        rw [hget]
        exact if_pos hbyte
      -- the bytes before the offset, and the offset, are bytes of the log
      have hlt := Log.offsetOf_lt_size hfits.wf hoffset
      rw [hoffset, if_pos hbyte, toList_eq hfits, ok_bind, sum_eq (by omega), ok_bind, add_eq (by omega)]
      rfl
    · unfold Log.offsetOf
      rw [hget, if_neg hbyte]
      exact congrArg Except.ok (if_neg hbyte).symm

/-! ## Reads -/

theorem cut_eq {e : Entry} {inner count : Nat} (h : inner + count ≤ e.length) :
    cut e inner (inner + count) = .ok ((e.drop inner).take count) := by
  have hslice : e.slice? inner (inner + count) = some ((e.drop inner).take count) := by
    unfold Entry.slice?
    rw [if_pos ⟨Nat.le_add_right _ _, h⟩, Nat.add_sub_cancel_left]
  unfold cut
  rw [hslice]

theorem slice_eq (hfits : log.Fits) (hsize : log.size < wordRange) (offset most : Nat) :
    slice log offset most = .ok ((log.slice? offset most).map fun bytes => (bytes, bytes.length)) := by
  unfold slice Log.slice?
  rw [find_eq hfits hsize, ok_bind]
  cases hfind : log.find? offset with
  | none => rfl
  | some place =>
    obtain ⟨e, inner⟩ := place
    obtain ⟨before, after, hl, hinner, -⟩ := (Log.findFrom_eq_some_iff (Nat.zero_le _)).1 hfind
    have hle : e.length ≤ log.size := by
      unfold Log.size
      rw [hl, totalLength_append, totalLength_cons]
      omega
    have hlen : ((e.drop inner).take (min most (e.length - inner))).length = min most (e.length - inner) := by
      rw [List.length_take, List.length_drop]
      omega
    dsimp only
    rw [sub_eq (Nat.le_of_lt hinner), ok_bind, add_eq (by omega), ok_bind, cut_eq (by omega), Option.map_some,
      Option.map_some, hlen]
    rfl

/-- What a buffer holds after a read into it. -/
def overlaid (buffer : Bytes) : Except Failure Bytes → Bytes
  | .ok bytes => bytes ++ buffer.drop bytes.length
  | .error _ => buffer

theorem add_length_le_of_slice? {offset most : Nat} {bytes : Bytes} (h : log.slice? offset most = some bytes) :
    offset + bytes.length ≤ log.size := by
  have hlt : offset < log.size := by
    refine Nat.lt_of_not_le fun hle => ?_
    rw [Log.slice?_eq_none_iff.2 hle] at h
    cases h
  have hle := (Log.prefix_of_slice? h).length_le
  rw [List.length_drop, Log.length_bytes] at hle
  omega

theorem read_eq {store : Store} (hfits : store.log.Fits) (hsize : store.log.size < wordRange) (lock : Lock) (h : Handle)
    (buffer : Bytes) :
    let moved := h.read store lock buffer.length
    read store lock h buffer = .ok (moved.1, moved.2.map List.length, overlaid buffer moved.2) := by
  unfold read Handle.read
  cases store.acquire lock with
  | error failure => rfl
  | ok u =>
    dsimp only
    rw [slice_eq hfits hsize, ok_bind]
    cases hslice : store.log.slice? h.position buffer.length with
    | none => rfl
    | some bytes =>
      have hend := add_length_le_of_slice? hslice
      have hcopy : copyTo buffer bytes.length bytes = .ok (bytes ++ buffer.drop bytes.length) :=
        if_pos ⟨(Log.slice?_eq_some hslice).2.1, rfl⟩
      dsimp only [Option.map_some]
      rw [hcopy, ok_bind, add_eq (by omega)]
      rfl

/-! ## Replies -/

section

variable {σ : Type} {sink : Sink σ} {chunk start place : Nat}

theorem streamFrom_of_none (hslice : slice log place (max chunk 1) = .ok none) (hle : start ≤ place) (s : σ) :
    streamFrom log chunk start sink place s = .ok (ended sink (place - start) (s, .ok ())) := by
  rw [streamFrom]
  split
  · next breach hbreach => rw [hslice] at hbreach; cases hbreach
  · rw [sub_eq hle, ended]
    rcases sink.flush s with ⟨s', fault | u⟩
    · rfl
    · rfl
  · next bytes count hsome => rw [hslice] at hsome; cases hsome

theorem streamFrom_of_some {bytes : Bytes} {count : Nat} (hslice : slice log place (max chunk 1) = .ok (some (bytes, count)))
    (hlt : place + count < wordRange) (s : σ) :
    streamFrom log chunk start sink place s =
      match sink.write s bytes with
      | (s, .error fault) => .ok (s, .error (.stream fault))
      | (s, .ok written) =>
        if written = count then streamFrom log chunk start sink (place + count) s
        else .ok (s, .error (.shortWrite count written)) := by
  conv => lhs; rw [streamFrom]
  split
  · next breach hbreach => rw [hslice] at hbreach; cases hbreach
  · next hnone => rw [hslice] at hnone; cases hnone
  · next bytes' count' hsome =>
    rw [hslice] at hsome
    cases hsome
    rcases sink.write s bytes with ⟨s', fault | written⟩
    · rfl
    · dsimp only
      split
      · split
        · next breach hbreach => rw [add_eq hlt] at hbreach; cases hbreach
        · next next hnext => rw [add_eq hlt] at hnext; cases hnext; rfl
      · rfl

/-- What is left of a reply sends the slices that a reading from its place brings. The induction is on that reading. -/
theorem streamFrom_eq (hfits : log.Fits) (hsize : log.size < wordRange) {sizes : Nat → Nat} {slices : List Bytes}
    (hread : log.ReadOut place sizes slices) (hsizes : ∀ i, sizes i = max chunk 1) (hle : start ≤ place) (s : σ) :
    streamFrom log chunk start sink place s =
      .ok (ended sink (place - start + totalLength slices) (sink.sendAll s slices)) := by
  induction hread generalizing s with
  | @done place sizes hend =>
    rw [hsizes 0] at hend
    have hslice : slice log place (max chunk 1) = .ok none := by rw [slice_eq hfits hsize, hend]; rfl
    exact streamFrom_of_none hslice hle s
  | @more place sizes bytes rest hbytes hrest ih =>
    rw [hsizes 0] at hbytes
    have hslice : slice log place (max chunk 1) = .ok (some (bytes, bytes.length)) := by
      rw [slice_eq hfits hsize, hbytes]; rfl
    have hend := add_length_le_of_slice? hbytes
    have hsum : place + bytes.length - start + totalLength rest = place - start + totalLength (bytes :: rest) := by
      rw [totalLength_cons]; omega
    rw [streamFrom_of_some hslice (by omega), Sink.sendAll]
    rcases sink.write s bytes with ⟨s', fault | written⟩
    · rfl
    · dsimp only
      split
      · rw [ih (fun i => hsizes (i + 1)) (by omega), hsum]
      · rfl

end

theorem stream_eq {σ : Type} (hfits : log.Fits) (hsize : log.size < wordRange) (offset chunk : Nat) (sink : Sink σ) (s : σ) :
    stream log offset chunk sink s = .ok (log.stream offset chunk sink s) := by
  unfold stream
  rw [streamFrom_eq hfits hsize (log.readOut_slicesFrom offset chunk) (fun _ => rfl) (Nat.le_refl _), Nat.sub_self,
    Nat.zero_add, Log.stream]
  rcases sink.sendAll s (log.slicesFrom offset chunk) with ⟨s', failure | u⟩
  · rfl
  · rfl

end

end Checked

/-! ## The main statement -/

namespace Log

/-- Look-ups, reads and replies break off nowhere. Take any log that insertions and clearings lead to from a new one, by
steps that do not break off themselves, and that has fewer bytes than a word counts. Each checked operation on it is the
operation, whatever is asked for: an insertion, the number of entries, the entries, their size, an entry by its index,
what is at an offset, the offset of an address, a slice, a read of a handle into a buffer, wherever the handle stands,
and a reply from any offset on, whatever the writer does. -/
theorem lookups_break_off_nowhere {capacity : Nat} {new : Log} (hnew : Ring.create capacity = .ok new)
    (ops : List (Ring.Op Entry)) (hsize : size (new.run ops).1 < wordRange) :
    let log : Log := (new.run ops).1
    Checked.run new ops = .ok (new.run ops) ∧
    (∀ e : Entry, Checked.insert log e = .ok (log.insert e)) ∧
    (Checked.count log = .ok log.count ∧ Checked.toList log = .ok log.toList ∧ Checked.size log = .ok log.size) ∧
    (∀ index, Checked.get log index = .ok (log.get? index)) ∧
    (∀ offset, Checked.find log offset = .ok (log.find? offset) ∧ Checked.locate log offset = .ok (log.locate offset)) ∧
    (∀ a, Checked.offsetOf log a = .ok (log.offsetOf a)) ∧
    (∀ offset most,
      Checked.slice log offset most = .ok ((log.slice? offset most).map fun bytes => (bytes, bytes.length))) ∧
    (∀ (store : Store) lock (h : Handle) (buffer : Bytes), store.log = log →
      let moved := h.read store lock buffer.length
      Checked.read store lock h buffer =
        .ok (moved.1, moved.2.map List.length, Checked.overlaid buffer moved.2)) ∧
    (∀ (σ : Type) (sink : Sink σ) (s : σ) offset chunk,
      Checked.stream log offset chunk sink s = .ok (log.stream offset chunk sink s)) := by
  intro log
  have hfits : Ring.Fits log := Ring.Fits.run hnew ops
  refine ⟨Checked.run_eq (Ring.fits_create hnew) ops, Checked.insert_eq hfits, ?_, Checked.get_eq hfits, ?_, ?_, ?_, ?_, ?_⟩
  · exact ⟨Checked.count_eq hfits, Checked.toList_eq hfits, Checked.size_eq hfits hsize⟩
  · intro offset
    exact ⟨Checked.find_eq hfits hsize offset, Checked.locate_eq hfits hsize offset⟩
  · intro a
    exact Checked.offsetOf_eq hfits hsize a
  · intro offset most
    exact Checked.slice_eq hfits hsize offset most
  · intro store lock h buffer hstore
    rw [← hstore] at hfits
    exact Checked.read_eq hfits (by rw [hstore]; exact hsize) lock h buffer
  · intro σ sink s offset chunk
    exact Checked.stream_eq hfits hsize offset chunk sink s

/-- After an eviction, with an empty entry before the one that has bytes, asked for the largest words. -/
theorem lookups_break_off_nowhere_largest_words :
    let log : Log := ((Ring.empty 2 : Log).run [.insert [97, 10], .insert [], .insert [98, 10]]).1
    (Ring.create 2 : Except Unmade Log) = .ok (Ring.empty 2) ∧ log.size < wordRange ∧
      Checked.get log (wordRange - 1) = .ok none ∧ Checked.find log (wordRange - 1) = .ok none ∧
      Checked.offsetOf log ⟨0, wordRange - 1⟩ = .ok (.error (.noSuchByte (wordRange - 1) 0)) ∧
      Checked.slice log 1 (wordRange - 1) = .ok (some ([10], 1)) ∧
      Checked.stream log 0 0 Outlet.accepting.sink [] = .ok (log.stream 0 0 Outlet.accepting.sink []) := by
  intro log
  have hnew : (Ring.create 2 : Except Unmade Log) = .ok (Ring.empty 2) := rfl
  have hsize : log.size < wordRange := by decide
  obtain ⟨-, -, -, hget, hfind, hoffset, hslice, -, hstream⟩ :=
    lookups_break_off_nowhere hnew [.insert [97, 10], .insert [], .insert [98, 10]] hsize
  refine ⟨hnew, hsize, (hget _).trans (by decide), (hfind _).1.trans (by decide), (hoffset _).trans (by decide),
    (hslice _ _).trans (by decide), hstream _ _ _ _ _⟩

end Log

end LineRing
