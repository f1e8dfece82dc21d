/-
Events on the socket (`lorieEvent` in `lorie.h`, `ancil_send_fd`, `ancil_recv_fd`).

Both ends are built from the same sources for the same 64-bit ABI, so an event is
the 24 bytes of the union in memory, numbers little-endian, the bytes no member
covers zero.  A descriptor travels with a byte of its own.

* `Cell` — a byte in the stream, with the descriptor passed along with it;
* `eventBytes`, `field` — an event written and read back;
* `read`, `ancilRecvFd` — taking cells off the stream;
* `receive` — the loop of both receivers, which take one event after another.
-/
import KaliGui.Lib.ByteStream

namespace Lorie

open ByteStream

/-- A byte of the stream; `fd` is the open file passed with it. -/
structure Cell where
  byte : UInt8
  fd : Option ℕ
  deriving DecidableEq, Repr

/-- Bytes written with `write`. -/
def plain (bs : List UInt8) : List Cell := bs.map fun b => ⟨b, none⟩

@[simp] theorem plain_length (bs : List UInt8) : (plain bs).length = bs.length :=
  List.length_map _

@[simp] theorem map_byte_plain (bs : List UInt8) : (plain bs).map Cell.byte = bs := by
  rw [plain, List.map_map]
  exact List.map_id bs

/-- `sizeof(lorieEvent)` -/
def sizeofEvent : ℕ := 24

/-! ### Event types -/

def eventSharedServerState : UInt8 := 1
def eventAddBuffer : UInt8 := 2
def eventRemoveBuffer : UInt8 := 3
def eventScreenSize : UInt8 := 4
def eventClipboardRequest : UInt8 := 13
def eventClipboardSend : UInt8 := 14
def eventWindowFocusChanged : UInt8 := 15
def eventRendererWakeupCond : UInt8 := 16
def eventGpuCopyDone : UInt8 := 17
def eventSyncReply : UInt8 := 20

/-! ### Events in memory -/

/-- An event with the type `t` and the bytes `members` after it. -/
def eventBytes (t : UInt8) (members : List UInt8) : List UInt8 :=
  (t :: members) ++ List.replicate (sizeofEvent - (members.length + 1)) 0

/-- The type of an event. -/
def eventType (event : List UInt8) : UInt8 := event.headD 0

/-- The number a member of `size` bytes at `offset` holds. -/
def field (offset size : ℕ) (event : List UInt8) : ℕ := leNat ((event.drop offset).take size)

theorem eventBytes_length {members : List UInt8} (t : UInt8) (h : members.length < sizeofEvent) :
    (eventBytes t members).length = sizeofEvent := by
  simp only [eventBytes, List.length_append, List.length_cons, List.length_replicate]
  omega

@[simp] theorem eventType_eventBytes (t : UInt8) (members : List UInt8) :
    eventType (eventBytes t members) = t := rfl

/-- What a member of `size` bytes can hold. -/
theorem field_lt (offset size : ℕ) (event : List UInt8) : field offset size event < 256 ^ size := by
  have hlen : ((event.drop offset).take size).length ≤ size := by
    rw [List.length_take]
    exact Nat.min_le_left _ _
  exact Nat.lt_of_lt_of_le (leNat_lt _) (Nat.pow_le_pow_right (by decide) hlen)

/-- A member is read back as it was written, as far as its size goes. -/
theorem field_eventBytes (t : UInt8) (before : List UInt8) (size n : ℕ) (after : List UInt8) :
    field (before.length + 1) size (eventBytes t (before ++ leBytes size n ++ after)) =
      n % 256 ^ size := by
  have hdrop : (eventBytes t (before ++ leBytes size n ++ after)).drop (before.length + 1) =
      leBytes size n ++ (after ++ List.replicate
        (sizeofEvent - ((before ++ leBytes size n ++ after).length + 1)) 0) := by
    rw [eventBytes, List.cons_append, List.drop_succ_cons, List.append_assoc, List.append_assoc,
      List.drop_left]
  rw [field, hdrop, ← leNat_leBytes]
  congr 1
  exact List.take_left' (leBytes_length size n)

/-! ### Reading -/

/-- `read` of `size` bytes, with everything there that was sent: `none` where it
blocks, the stream being empty. -/
def read (size : ℕ) (stream : List Cell) : Option (List UInt8 × List Cell) :=
  if size ≠ 0 ∧ stream = [] then none
  else some ((stream.take size).map Cell.byte, stream.drop size)

theorem read_plain {bs : List UInt8} {size : ℕ} (h : bs.length = size) (rest : List Cell) :
    read size (plain bs ++ rest) = some (bs, rest) := by
  subst h
  have hblock : ¬ (bs.length ≠ 0 ∧ plain bs ++ rest = []) := by
    rintro ⟨hne, hnil⟩
    refine hne ?_
    rw [← plain_length, (List.append_eq_nil_iff.mp hnil).1, List.length_nil]
  rw [read, if_neg hblock, List.take_left' (plain_length bs), List.drop_left' (plain_length bs),
    map_byte_plain]

/-- A read that asks for more than there is. -/
theorem read_plain_short {bs : List UInt8} {size : ℕ} (hne : bs ≠ []) (h : bs.length ≤ size) :
    read size (plain bs) = some (bs, []) := by
  have hblock : ¬ (size ≠ 0 ∧ plain bs = []) := by
    rintro ⟨-, hnil⟩
    exact hne (List.map_eq_nil_iff.mp hnil)
  rw [read, if_neg hblock, List.take_of_length_le (by rwa [plain_length]),
    List.drop_of_length_le (by rwa [plain_length]), map_byte_plain]

/-- A read takes what it returns off the stream. -/
theorem read_length {size : ℕ} {stream rest : List Cell} {bs : List UInt8}
    (h : read size stream = some (bs, rest)) :
    bs.length ≤ size ∧ bs.length + rest.length = stream.length ∧
      (rest ≠ [] → bs.length = size) := by
  rw [read] at h
  split at h <;> [simp at h; skip]
  obtain ⟨rfl, rfl⟩ := Prod.mk.inj (Option.some_inj.mp h)
  rw [List.length_map, List.length_take, List.length_drop]
  refine ⟨Nat.min_le_left _ _, by omega, fun hne => ?_⟩
  have hlt := List.length_pos_iff.mpr hne
  rw [List.length_drop] at hlt
  omega

/-- `ancil_send_fd`. -/
def ancilSendFd (fd : ℕ) : List Cell := [⟨33, some fd⟩]

/-- `ancil_recv_fd`; the inner `none` is -1. -/
def ancilRecvFd : List Cell → Option (Option ℕ × List Cell)
  | [] => none
  | c :: rest => some (c.fd, rest)

theorem ancilRecvFd_length {stream rest : List Cell} {fd : Option ℕ}
    (h : ancilRecvFd stream = some (fd, rest)) : rest.length + 1 = stream.length := by
  rcases stream with _ | ⟨c, stream⟩
  · simp [ancilRecvFd] at h
  · obtain ⟨-, rfl⟩ := Prod.mk.inj (Option.some_inj.mp h)
    rfl

@[simp] theorem ancilRecvFd_send (fd : ℕ) (rest : List Cell) :
    ancilRecvFd (ancilSendFd fd ++ rest) = some (some fd, rest) := rfl

/-! ### The receivers' loop -/

variable {M : Type*}

/-- The callback of a receiver, called for as long as there is something to read: the
messages it makes of the stream, and what is left at the end, too short for an event.
`handle` is the switch on an event: it reads on and returns a message, or none for an
event it ignores.  `fuel` bounds the events. -/
def receive (handle : List UInt8 → List Cell → Option (Option M × List Cell)) :
    ℕ → List Cell → Option (List M × List Cell)
  | 0, stream => some ([], stream)
  | fuel + 1, stream =>
    if stream.length < sizeofEvent then some ([], stream)
    else
      (handle ((stream.take sizeofEvent).map Cell.byte) (stream.drop sizeofEvent)).bind
        fun (msg, stream) => (receive handle fuel stream).map fun (msgs, left) =>
          (msg.toList ++ msgs, left)

variable {handle : List UInt8 → List Cell → Option (Option M × List Cell)}

theorem receive_nil (fuel : ℕ) : receive handle fuel [] = some ([], []) := by
  cases fuel <;> rfl

/-- One turn of the loop, on a stream that begins with a whole event. -/
theorem receive_event (fuel : ℕ) {event : List UInt8} (hlen : event.length = sizeofEvent)
    (stream : List Cell) :
    receive handle (fuel + 1) (plain event ++ stream) =
      (handle event stream).bind fun (msg, stream) =>
        (receive handle fuel stream).map fun (msgs, left) => (msg.toList ++ msgs, left) := by
  have hcells : (plain event).length = sizeofEvent := by rw [plain_length, hlen]
  have hlong : ¬ (plain event ++ stream).length < sizeofEvent := by
    rw [List.length_append]
    omega
  rw [receive, if_neg hlong, List.take_left' hcells, List.drop_left' hcells, map_byte_plain]

/-- What is received of a list of messages is known, if it is known of each what its event is
handled as, whatever is behind it. -/
theorem receive_filterMap {event : M → List UInt8} {payload : M → List Cell} {seen : M → Option M}
    {msgs : List M} (hevent : ∀ msg ∈ msgs, (event msg).length = sizeofEvent)
    (hhandle : ∀ msg after, msg :: after <:+ msgs →
      handle (event msg) (payload msg ++ after.flatMap fun m => plain (event m) ++ payload m) =
        some (seen msg, after.flatMap fun m => plain (event m) ++ payload m))
    {fuel : ℕ} (hfuel : (msgs.flatMap fun m => plain (event m) ++ payload m).length ≤ fuel) :
    receive handle fuel (msgs.flatMap fun m => plain (event m) ++ payload m) =
      some (msgs.filterMap seen, []) := by
  induction msgs generalizing fuel with
  | nil => exact receive_nil fuel
  | cons msg msgs ih =>
    rw [List.flatMap_cons, List.append_assoc] at hfuel ⊢
    have hlen : (event msg).length = sizeofEvent := hevent msg List.mem_cons_self
    rw [List.length_append, List.length_append, plain_length, hlen, sizeofEvent] at hfuel
    obtain ⟨fuel, rfl⟩ : ∃ k, fuel = k + 1 := Nat.exists_eq_succ_of_ne_zero (by omega)
    rw [receive_event fuel hlen, hhandle msg msgs List.suffix_rfl, Option.bind_some]
    show (receive handle fuel (msgs.flatMap fun m => plain (event m) ++ payload m)).map _ = _
    rw [ih (fun m hm => hevent m (List.mem_cons_of_mem _ hm))
      (fun m after hm => hhandle m after (hm.trans (List.suffix_cons msg msgs))) (by omega)]
    rw [Option.map_some, List.filterMap_cons]
    cases seen msg <;> rfl

/-- A list of messages is received as it was sent, if each event is handled as the
message it was written for, whatever is behind it. -/
theorem receive_flatMap {event : M → List UInt8} {payload : M → List Cell} {msgs : List M}
    (hevent : ∀ msg ∈ msgs, (event msg).length = sizeofEvent)
    (hhandle : ∀ msg after, msg :: after <:+ msgs →
      handle (event msg) (payload msg ++ after.flatMap fun m => plain (event m) ++ payload m) =
        some (some msg, after.flatMap fun m => plain (event m) ++ payload m))
    {fuel : ℕ} (hfuel : (msgs.flatMap fun m => plain (event m) ++ payload m).length ≤ fuel) :
    receive handle fuel (msgs.flatMap fun m => plain (event m) ++ payload m) =
      some (msgs, []) := by
  have hall : receive handle fuel (msgs.flatMap fun m => plain (event m) ++ payload m) =
      some (msgs.filterMap some, []) :=
    receive_filterMap hevent hhandle hfuel
  rwa [List.filterMap_some] at hall

end Lorie
