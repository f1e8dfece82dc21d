/-
Short reads in `handleLorieEvents` (`cmdentrypoint.cpp`).

A `read` returns what is there, up to what it was asked for.  The server reads an
event, and for some a name or a text after it, with one `read` each and no loop: what
a short read of an event returned is dropped, and what a short read of a name or a text
did not return stays zero and is read as an event.  A text is read from `conn_fd`,
whichever connection the event came from.

* `Kernel` — what the reads return, and what else the callback finds;
* `handleLorieEvents`, `received` — one call of the callback, and all of them;
* `ReadWell` — reads that do a message no harm;
* `unchanged_iff` — the messages are those of full reads exactly if every message is
  read well.
-/
import KaliGui.Lorie.ToServer
import Mathlib.Logic.Relation

namespace Lorie.ToServer

open ByteStream Relation

/-! ### The environment of the callback -/

/-- What the callback meets.  A run comes to each rest of the stream once, so that a
function of the rest is any history. -/
structure Kernel where
  /-- the bytes a read of so many returns, if there are as many -/
  got : List Cell → ℕ → ℕ
  got_pos : ∀ stream n, 0 < n → 0 < got stream n
  got_le : ∀ stream n, got stream n ≤ n
  /-- the answer to `FIONREAD` -/
  waiting : List Cell → ℕ
  waiting_le : ∀ stream, waiting stream ≤ stream.length
  /-- `conn_fd`; `none` is -1 -/
  connFd : List Cell → Option ℕ
  /-- what a read of `conn_fd` returns where that is another connection; `none` where it
  blocks -/
  elsewhere : List Cell → Option (List UInt8)

/-- A message with the descriptor its payload was read from, if it has one. -/
structure Delivery where
  msg : Msg
  payloadFrom : Option ℕ
  deriving DecidableEq, Repr

/-- A buffer from `calloc` with `bytes` read into it. -/
def calloced (size : ℕ) (bytes : List UInt8) : List UInt8 :=
  bytes ++ List.replicate (size - bytes.length) 0

variable (K : Kernel) (fd : ℕ)

/-- `read(fd, buffer, size)`, with a zeroed buffer. -/
def readInto (size : ℕ) (stream : List Cell) : Option (List UInt8 × List Cell) :=
  (read (K.got stream size) stream).map fun (bytes, rest) => (calloced size bytes, rest)

/-- `read(conn_fd, data, count)` -/
def readConnFd (count : ℕ) (stream : List Cell) : Option (List UInt8 × List Cell) :=
  if K.connFd stream = some fd then readInto K count stream
  else if K.connFd stream = none ∨ count = 0 then some (calloced count [], stream)
  else (K.elsewhere stream).map fun bytes => (calloced count (bytes.take count), stream)

/-- The descriptor read from, if there was something to read. -/
def source (size : ℕ) (fd : Option ℕ) : Option ℕ := if size = 0 then none else fd

/-- The switch of `handleLorieEvents`; `none` where a read blocks. -/
def handleRead (event : List UInt8) (stream : List Cell) :
    Option (Option Delivery × List Cell) :=
  if eventType event = eventScreenSize then
    (readInto K (field 8 8 event) stream).map fun (name, stream) =>
      (some ⟨.screenSize (UInt16.ofNat (field 2 2 event)) (UInt16.ofNat (field 4 2 event))
        (UInt16.ofNat (field 6 2 event)) name, source (field 8 8 event) (some fd)⟩, stream)
  else if eventType event = eventClipboardSend then
    (readConnFd K fd (field 4 4 event) stream).map fun (data, rest) =>
      (some ⟨.clipboardSend data, source (field 4 4 event) (K.connFd stream)⟩, rest)
  else if eventType event = eventRendererWakeupCond then
    (ancilRecvFd stream).map fun (wakeupFd, stream) =>
      (some ⟨.rendererWakeupCond wakeupFd, some fd⟩, stream)
  else if eventType event ∈ fixedTypes then some (some ⟨.event event, none⟩, stream)
  else some (none, stream)

/-- From `again` on: whether a whole event was read, what it was, and the rest. -/
def turn (stream : List Cell) : Option (Bool × Option Delivery × List Cell) :=
  (read (K.got stream sizeofEvent) stream).bind fun (event, rest) =>
    if event.length = sizeofEvent then
      (handleRead K fd event rest).map fun (delivery, rest) => (true, delivery, rest)
    else some (false, none, rest)

/-- One call: what is delivered and what is left of the stream, `none` where the call
does not return.  `fuel` bounds the turns. -/
def handleLorieEvents : ℕ → List Cell → List Delivery × Option (List Cell)
  | 0, stream => ([], some stream)
  | fuel + 1, stream =>
    match turn K fd stream with
    | none => ([], none)
    | some (whole, delivery, rest) =>
      if whole ∧ sizeofEvent < K.waiting rest then
        let (deliveries, left) := handleLorieEvents fuel rest
        (delivery.toList ++ deliveries, left)
      else (delivery.toList, some rest)

/-- Calls for as long as there is something to read. -/
def received : ℕ → List Cell → List Delivery
  | 0, _ => []
  | fuel + 1, stream =>
    if stream = [] then []
    else
      let (deliveries, left) := handleLorieEvents K fd stream.length stream
      deliveries ++ left.elim [] (received fuel)

/-- A message, its payload read from the descriptor its event came from. -/
def delivery (msg : Msg) : Delivery := ⟨msg, if payload msg = [] then none else some fd⟩

/-- The calls deliver what full reads of the stream give, payloads read from `fd`. -/
def Unchanged (msgs : List Msg) : Prop :=
  ∃ full, decode (encodeAll msgs) = some (full, []) ∧
    received K fd (encodeAll msgs).length (encodeAll msgs) = full.map (delivery fd)

/-! ### Reads that do no harm -/

/-- A read for an event, from one rest of the stream to the next. -/
def EventRead (stream rest : List Cell) : Prop := rest = stream.drop (K.got stream sizeofEvent)

/-- Of a payload nothing but zeros is missing, and the reads that take these zeros for
events stop where the payload ends, unless it is the end of the stream. -/
def PayloadReadWell (bytes : List UInt8) (after : List Cell) : Prop :=
  (∀ b ∈ bytes.drop (K.got (plain bytes ++ after) bytes.length), b = 0) ∧
    (after = [] ∨ ReflTransGen (EventRead K)
      (plain (bytes.drop (K.got (plain bytes ++ after) bytes.length)) ++ after) after)

/-- What follows the event is read well, a text from `fd`. -/
def RestReadWell : Msg → List Cell → Prop
  | .screenSize _ _ _ name, after => PayloadReadWell K name after
  | .clipboardSend data, after =>
    (data ≠ [] → K.connFd (plain data ++ after) = some fd) ∧ PayloadReadWell K data after
  | .event _, _ => True
  | .rendererWakeupCond _, _ => True

/-- The event is read in one piece, and what follows it well. -/
def ReadWell (msg : Msg) (after : List Cell) : Prop :=
  K.got (encode msg ++ after) sizeofEvent = sizeofEvent ∧ RestReadWell K fd msg after

/-! ### Turn by turn -/

variable {K : Kernel} {fd : ℕ}

theorem read_eq_some {size : ℕ} {stream : List Cell} (h : stream ≠ []) :
    read size stream = some ((stream.take size).map Cell.byte, stream.drop size) := by
  rw [read, if_neg fun hblock => h hblock.2]

theorem readInto_length_le {size : ℕ} {stream rest : List Cell} {bytes : List UInt8}
    (h : readInto K size stream = some (bytes, rest)) : rest.length ≤ stream.length := by
  obtain ⟨⟨taken, left⟩, hread, heq⟩ := Option.map_eq_some_iff.mp h
  obtain ⟨-, rfl⟩ := Prod.mk.inj heq
  have hlen := (read_length hread).2.1
  omega

theorem readConnFd_length_le {count : ℕ} {stream rest : List Cell} {data : List UInt8}
    (h : readConnFd K fd count stream = some (data, rest)) : rest.length ≤ stream.length := by
  rw [readConnFd] at h
  split_ifs at h with hfd hnone
  · exact readInto_length_le h
  · obtain ⟨-, rfl⟩ := Prod.mk.inj (Option.some_inj.mp h)
    exact Nat.le_refl _
  · obtain ⟨bytes, -, heq⟩ := Option.map_eq_some_iff.mp h
    obtain ⟨-, rfl⟩ := Prod.mk.inj heq
    exact Nat.le_refl _

/-- The switch reads on, and does not put anything back. -/
theorem handleRead_length_le {event : List UInt8} {stream rest : List Cell}
    {d : Option Delivery} (h : handleRead K fd event stream = some (d, rest)) :
    rest.length ≤ stream.length := by
  rw [handleRead] at h
  split_ifs at h with hsize hclip hcond hfixed
  · obtain ⟨⟨name, left⟩, hread, heq⟩ := Option.map_eq_some_iff.mp h
    obtain ⟨-, rfl⟩ := Prod.mk.inj heq
    exact readInto_length_le hread
  · obtain ⟨⟨data, left⟩, hread, heq⟩ := Option.map_eq_some_iff.mp h
    obtain ⟨-, rfl⟩ := Prod.mk.inj heq
    exact readConnFd_length_le hread
  · obtain ⟨⟨wakeupFd, left⟩, hrecv, heq⟩ := Option.map_eq_some_iff.mp h
    obtain ⟨-, rfl⟩ := Prod.mk.inj heq
    have hlen := ancilRecvFd_length hrecv
    omega
  · obtain ⟨-, rfl⟩ := Prod.mk.inj (Option.some_inj.mp h)
    exact Nat.le_refl _
  · obtain ⟨-, rfl⟩ := Prod.mk.inj (Option.some_inj.mp h)
    exact Nat.le_refl _

theorem got_event_pos (K : Kernel) (stream : List Cell) : 0 < K.got stream sizeofEvent :=
  K.got_pos stream sizeofEvent (by decide)

theorem turn_nil : turn K fd [] = none := by
  have hpos := got_event_pos K []
  rw [turn, read, if_pos ⟨by omega, rfl⟩, Option.bind_none]

theorem turn_of_ne_nil (K : Kernel) (fd : ℕ) {stream : List Cell} (h : stream ≠ []) :
    turn K fd stream =
      if ((stream.take (K.got stream sizeofEvent)).map Cell.byte).length = sizeofEvent then
        (handleRead K fd ((stream.take (K.got stream sizeofEvent)).map Cell.byte)
          (stream.drop (K.got stream sizeofEvent))).map fun (d, rest) => (true, d, rest)
      else some (false, none, stream.drop (K.got stream sizeofEvent)) := by
  rw [turn, read_eq_some h, Option.bind_some]

/-- Each turn takes something off the stream. -/
theorem turn_length_lt {stream rest : List Cell} {whole : Bool} {d : Option Delivery}
    (h : turn K fd stream = some (whole, d, rest)) : rest.length < stream.length := by
  have hne : stream ≠ [] := by
    rintro rfl
    rw [turn_nil] at h
    cases h
  have hpos := got_event_pos K stream
  have hlen := List.length_pos_iff.mpr hne
  have hdrop : (stream.drop (K.got stream sizeofEvent)).length < stream.length := by
    rw [List.length_drop]
    omega
  rw [turn_of_ne_nil K fd hne] at h
  split_ifs at h with hwhole
  · obtain ⟨⟨d', left⟩, hhandle, heq⟩ := Option.map_eq_some_iff.mp h
    obtain ⟨-, heq⟩ := Prod.mk.inj heq
    obtain ⟨-, rfl⟩ := Prod.mk.inj heq
    exact Nat.lt_of_le_of_lt (handleRead_length_le hhandle) hdrop
  · obtain ⟨-, heq⟩ := Prod.mk.inj (Option.some_inj.mp h)
    obtain ⟨-, rfl⟩ := Prod.mk.inj heq
    exact hdrop

/-- Turn after turn, whether in one call or in several. -/
def turns (K : Kernel) (fd : ℕ) : ℕ → List Cell → List Delivery
  | 0, _ => []
  | fuel + 1, stream =>
    (turn K fd stream).elim [] fun (_, d, rest) => d.toList ++ turns K fd fuel rest

theorem turns_nil (fuel : ℕ) : turns K fd fuel [] = [] := by
  cases fuel with
  | zero => rfl
  | succ fuel => rw [turns, turn_nil, Option.elim_none]

theorem turns_fuel {stream : List Cell} {f g : ℕ} (hf : stream.length ≤ f)
    (hg : stream.length ≤ g) : turns K fd f stream = turns K fd g stream := by
  induction f generalizing g stream with
  | zero =>
    obtain rfl := List.length_eq_zero_iff.mp (Nat.le_zero.mp hf)
    rw [turns_nil, turns_nil]
  | succ f ih =>
    cases g with
    | zero =>
      obtain rfl := List.length_eq_zero_iff.mp (Nat.le_zero.mp hg)
      rw [turns_nil, turns_nil]
    | succ g =>
      rw [turns, turns]
      cases hturn : turn K fd stream with
      | none => rfl
      | some result =>
        obtain ⟨whole, d, rest⟩ := result
        have hlt := turn_length_lt hturn
        exact congrArg (d.toList ++ ·) (ih (by omega) (by omega))

/-- All that the stream gives. -/
def deliveries (K : Kernel) (fd : ℕ) (stream : List Cell) : List Delivery :=
  turns K fd stream.length stream

theorem deliveries_nil : deliveries K fd [] = [] := turns_nil 0

theorem deliveries_of_none {stream : List Cell} (h : turn K fd stream = none) :
    deliveries K fd stream = [] := by
  rw [deliveries]
  cases stream.length with
  | zero => rfl
  | succ fuel => rw [turns, h, Option.elim_none]

theorem deliveries_of_turn {stream rest : List Cell} {whole : Bool} {d : Option Delivery}
    (h : turn K fd stream = some (whole, d, rest)) :
    deliveries K fd stream = d.toList ++ deliveries K fd rest := by
  have hlt := turn_length_lt h
  obtain ⟨fuel, hfuel⟩ : ∃ k, stream.length = k + 1 := Nat.exists_eq_succ_of_ne_zero (by omega)
  rw [deliveries, hfuel, turns, h]
  exact congrArg (d.toList ++ ·) (turns_fuel (by omega) (Nat.le_refl _))

/-- A call delivers what its turns give, and leaves the rest for the next. -/
theorem handleLorieEvents_spec (K : Kernel) (fd : ℕ) {fuel : ℕ} {stream : List Cell}
    (hfuel : stream.length ≤ fuel) :
    deliveries K fd stream = (handleLorieEvents K fd fuel stream).1 ++
        (handleLorieEvents K fd fuel stream).2.elim [] (deliveries K fd) ∧
      (stream ≠ [] → ∀ left, (handleLorieEvents K fd fuel stream).2 = some left →
        left.length < stream.length) := by
  induction fuel generalizing stream with
  | zero =>
    obtain rfl := List.length_eq_zero_iff.mp (Nat.le_zero.mp hfuel)
    exact ⟨rfl, fun hne => absurd rfl hne⟩
  | succ fuel ih =>
    rw [handleLorieEvents]
    cases hturn : turn K fd stream with
    | none => exact ⟨deliveries_of_none hturn, fun _ left hleft => by cases hleft⟩
    | some result =>
      obtain ⟨whole, d, rest⟩ := result
      have hlt := turn_length_lt hturn
      rw [deliveries_of_turn hturn]
      by_cases hagain : whole ∧ sizeofEvent < K.waiting rest
      · obtain ⟨hrest, hleft⟩ := ih (show rest.length ≤ fuel by omega)
        have hne : rest ≠ [] := by
          rintro rfl
          have := K.waiting_le []
          rw [List.length_nil] at this
          omega
        simp only [hagain, and_self, if_true]
        refine ⟨by rw [hrest, List.append_assoc], fun _ left h => ?_⟩
        exact Nat.lt_trans (hleft hne left h) hlt
      · simp only [hagain, if_false]
        refine ⟨rfl, fun _ left h => ?_⟩
        obtain rfl := Option.some_inj.mp h
        exact hlt

/-- Where a call stops and the next begins makes no difference. -/
theorem received_eq_deliveries {fuel : ℕ} {stream : List Cell} (hfuel : stream.length ≤ fuel) :
    received K fd fuel stream = deliveries K fd stream := by
  induction fuel generalizing stream with
  | zero =>
    obtain rfl := List.length_eq_zero_iff.mp (Nat.le_zero.mp hfuel)
    rfl
  | succ fuel ih =>
    rw [received]
    split_ifs with hnil
    · rw [hnil, deliveries_nil]
    · obtain ⟨hspec, hlt⟩ := handleLorieEvents_spec K fd (Nat.le_refl stream.length)
      rw [hspec]
      refine congrArg (_ ++ ·) ?_
      show (handleLorieEvents K fd stream.length stream).2.elim [] (received K fd fuel) = _
      cases hleft : (handleLorieEvents K fd stream.length stream).2 with
      | none => rfl
      | some left =>
        have hlen := hlt hnil left hleft
        exact ih (by omega)

/-! ### What is delivered was in the stream -/

/-- The cells that are not plain zeros. -/
def weight (cells : List Cell) : ℕ := cells.countP fun c => c.byte ≠ 0 ∨ c.fd.isSome

theorem weight_append (cells cells' : List Cell) :
    weight (cells ++ cells') = weight cells + weight cells' := List.countP_append

theorem weight_take_add_drop (n : ℕ) (cells : List Cell) :
    weight (cells.take n) + weight (cells.drop n) = weight cells := by
  rw [← weight_append, List.take_append_drop]

theorem weight_plain_append (bs bs' : List UInt8) :
    weight (plain (bs ++ bs')) = weight (plain bs) + weight (plain bs') := by
  rw [plain, List.map_append]
  exact weight_append _ _

theorem weight_plain_split (n : ℕ) (bs : List UInt8) :
    weight (plain bs) = weight (plain (bs.take n)) + weight (plain (bs.drop n)) := by
  rw [← weight_plain_append, List.take_append_drop]

theorem weight_plain_zeros {bs : List UInt8} (h : ∀ b ∈ bs, b = 0) : weight (plain bs) = 0 := by
  rw [weight, plain, List.countP_map, List.countP_eq_zero]
  intro b hb
  simp [h b hb]

theorem weight_plain_replicate (n : ℕ) : weight (plain (List.replicate n 0)) = 0 :=
  weight_plain_zeros fun _ hb => List.eq_of_mem_replicate hb

theorem calloced_length {size : ℕ} {bs : List UInt8} (h : bs.length ≤ size) :
    (calloced size bs).length = size := by
  rw [calloced, List.length_append, List.length_replicate]
  omega

theorem weight_plain_calloced (size : ℕ) (bs : List UInt8) :
    weight (plain (calloced size bs)) = weight (plain bs) := by
  rw [calloced, weight_plain_append, weight_plain_replicate, Nat.add_zero]

/-- Bytes read weigh no more than the cells they were in. -/
theorem weight_plain_map_byte (cells : List Cell) :
    weight (plain (cells.map Cell.byte)) ≤ weight cells := by
  rw [weight, weight, plain, List.map_map, List.countP_map]
  exact List.countP_mono_left fun c _ h => by
    simp only [Function.comp_apply, Option.isSome_none, Bool.false_eq_true, or_false,
      decide_eq_true_eq] at h ⊢
    exact Or.inl h

theorem readInto_weight_le {size : ℕ} {stream rest : List Cell} {bytes : List UInt8}
    (h : readInto K size stream = some (bytes, rest)) :
    bytes.length = size ∧ weight (plain bytes) + weight rest ≤ weight stream := by
  obtain ⟨⟨taken, left⟩, hread, heq⟩ := Option.map_eq_some_iff.mp h
  obtain ⟨rfl, rfl⟩ := Prod.mk.inj heq
  have hgot := K.got_le stream size
  have htaken := (read_length hread).1
  rw [read] at hread
  split_ifs at hread
  obtain ⟨rfl, rfl⟩ := Prod.mk.inj (Option.some_inj.mp hread)
  refine ⟨?_, ?_⟩
  · exact calloced_length (Nat.le_trans htaken hgot)
  · rw [weight_plain_calloced, ← weight_take_add_drop (K.got stream size) stream]
    exact Nat.add_le_add_right (weight_plain_map_byte _) _

/-- A member read from an event, as the bytes it was read from. -/
theorem weight_field (offset size next : ℕ) (hnext : offset + size = next)
    {event : List UInt8} (h : next ≤ event.length) :
    weight (plain (event.drop offset)) = weight (plain (leBytes size (field offset size event))) +
      weight (plain (event.drop next)) := by
  subst hnext
  have hlen : ((event.drop offset).take size).length = size := by
    rw [List.length_take, List.length_drop]
    omega
  have hbytes := leBytes_leNat ((event.drop offset).take size)
  rw [hlen] at hbytes
  rw [field, hbytes, ← List.drop_drop]
  exact weight_plain_split size _

theorem weight_type_add_drop {t : UInt8} {event : List UInt8} (hne : event ≠ [])
    (ht : eventType event = t) :
    weight (plain event) = weight (plain [t]) + weight (plain (event.drop 1)) := by
  obtain ⟨b, event, rfl⟩ := List.exists_cons_of_ne_nil hne
  obtain rfl : b = t := ht
  exact weight_plain_append [b] event

theorem weight_eventBytes (t : UInt8) (members : List UInt8) :
    weight (plain (eventBytes t members)) = weight (plain [t]) + weight (plain members) := by
  rw [eventBytes, weight_plain_append, weight_plain_replicate, Nat.add_zero]
  exact weight_plain_append [t] members

/-- The event a message was made of weighs at least as much as the one it is sent with. -/
theorem weight_screenSize_le {event name : List UInt8} (hlen : event.length = sizeofEvent)
    (ht : eventType event = eventScreenSize) (hname : name.length = field 8 8 event) :
    weight (plain (ToServer.event (.screenSize (UInt16.ofNat (field 2 2 event))
      (UInt16.ofNat (field 4 2 event)) (UInt16.ofNat (field 6 2 event)) name))) ≤
      weight (plain event) := by
  have hsize : event.length = 24 := hlen
  have hne : event ≠ [] := List.ne_nil_of_length_pos (by omega)
  have hword (offset : ℕ) :
      (UInt16.ofNat (field offset 2 event)).toNat = field offset 2 event := by
    have hlt := field_lt offset 2 event
    rw [UInt16.toNat_ofNat']
    exact Nat.mod_eq_of_lt hlt
  have htype := weight_type_add_drop hne ht
  have hpad : weight (plain (event.drop 1)) =
      weight (plain ((event.drop 1).take 1)) + weight (plain (event.drop 2)) := by
    rw [weight_plain_split 1, List.drop_drop]
  have hwidth := weight_field 2 2 4 rfl (show _ ≤ event.length by omega)
  have hheight := weight_field 4 2 6 rfl (show _ ≤ event.length by omega)
  have hframerate := weight_field 6 2 8 rfl (show _ ≤ event.length by omega)
  have hcount := weight_field 8 8 16 rfl (show _ ≤ event.length by omega)
  have hzero : weight (plain [0]) = 0 := rfl
  rw [ToServer.event, weight_eventBytes, hword, hword, hword, hname, weight_plain_append,
    weight_plain_append, weight_plain_append, weight_plain_append]
  omega

theorem weight_clipboardSend_le {event data : List UInt8} (hlen : event.length = sizeofEvent)
    (ht : eventType event = eventClipboardSend) (hdata : data.length = field 4 4 event) :
    weight (plain (ToServer.event (.clipboardSend data))) ≤ weight (plain event) := by
  have hsize : event.length = 24 := hlen
  have hne : event ≠ [] := List.ne_nil_of_length_pos (by omega)
  have htype := weight_type_add_drop hne ht
  have hpad : weight (plain (event.drop 1)) =
      weight (plain ((event.drop 1).take 3)) + weight (plain (event.drop 4)) := by
    rw [weight_plain_split 3, List.drop_drop]
  have hcount := weight_field 4 4 8 rfl (show _ ≤ event.length by omega)
  have hzero : weight (plain [0, 0, 0]) = 0 := rfl
  rw [ToServer.event, weight_eventBytes, hdata, weight_plain_append]
  omega

theorem weight_rendererWakeupCond_le (cell : Cell) :
    weight (payload (.rendererWakeupCond cell.fd)) ≤ weight [cell] := by
  obtain ⟨byte, fd⟩ := cell
  cases fd with
  | none => exact Nat.zero_le _
  | some fd => simp [payload, ancilSendFd, weight]

/-- What one event and its payload are delivered as was in the cells they were read
from, if the payload was. -/
theorem handleRead_weight_le {event : List UInt8} {stream rest : List Cell} {d : Delivery}
    (hlen : event.length = sizeofEvent) (h : handleRead K fd event stream = some (some d, rest))
    (hd : d = delivery fd d.msg) :
    weight (encode d.msg) + weight rest ≤ weight (plain event) + weight stream := by
  rw [handleRead] at h
  -- one goal for each payload: a name, a text, a descriptor, none
  split_ifs at h with hsize hclip hcond hfixed
  · obtain ⟨⟨name, left⟩, hread, heq⟩ := Option.map_eq_some_iff.mp h
    obtain ⟨hd', rfl⟩ := Prod.mk.inj heq
    obtain rfl := Option.some_inj.mp hd'
    obtain ⟨hname, hweight⟩ := readInto_weight_le hread
    -- what was read weighs no more than the cells it was read from
    have hevent := weight_screenSize_le hlen hsize hname
    show weight (encode (.screenSize _ _ _ name)) + weight left ≤ _
    rw [encode, weight_append, payload]
    omega
  · obtain ⟨⟨data, left⟩, hread, heq⟩ := Option.map_eq_some_iff.mp h
    obtain ⟨hd', rfl⟩ := Prod.mk.inj heq
    obtain rfl := Option.some_inj.mp hd'
    have hread' : data.length = field 4 4 event ∧
        weight (plain data) + weight left ≤ weight stream := by
      rw [readConnFd] at hread
      split_ifs at hread with hfd hnone
      · exact readInto_weight_le hread
      · obtain ⟨rfl, rfl⟩ := Prod.mk.inj (Option.some_inj.mp hread)
        rw [calloced, List.nil_append, List.length_replicate, weight_plain_replicate]
        exact ⟨Nat.sub_zero _, by omega⟩
      · -- the text was not read from `fd`
        obtain ⟨bytes, -, heq⟩ := Option.map_eq_some_iff.mp hread
        obtain ⟨hdata, rfl⟩ := Prod.mk.inj heq
        obtain ⟨hconn, hcount⟩ := not_or.mp hnone
        have hlength : data.length = field 4 4 event := by
          rw [← hdata, calloced_length (List.length_take_le _ _)]
        have hplain : plain data ≠ [] := List.ne_nil_of_length_pos (by
          rw [plain_length]
          omega)
        have hsource : source (field 4 4 event) (K.connFd stream) =
            if plain data = [] then none else some fd := congrArg Delivery.payloadFrom hd
        rw [source, if_neg hcount, if_neg hplain] at hsource
        exact absurd hsource hfd
    obtain ⟨hdata, hweight⟩ := hread'
    have hevent := weight_clipboardSend_le hlen hclip hdata
    show weight (encode (.clipboardSend data)) + weight left ≤ _
    rw [encode, weight_append, payload]
    omega
  · obtain ⟨⟨wakeupFd, left⟩, hrecv, heq⟩ := Option.map_eq_some_iff.mp h
    obtain ⟨hd', rfl⟩ := Prod.mk.inj heq
    obtain rfl := Option.some_inj.mp hd'
    have hsize : event.length = 24 := hlen
    have hevent := weight_type_add_drop (List.ne_nil_of_length_pos (by omega)) hcond
    rcases stream with _ | ⟨cell, stream⟩
    · cases hrecv
    obtain ⟨rfl, rfl⟩ := Prod.mk.inj (Option.some_inj.mp hrecv)
    show weight (encode (.rendererWakeupCond cell.fd)) + weight stream ≤ _
    rw [encode, weight_append, ToServer.event, weight_eventBytes]
    have hcell := weight_append [cell] stream
    have hpayload := weight_rendererWakeupCond_le cell
    have hnil : weight (plain []) = 0 := rfl
    rw [List.singleton_append] at hcell
    omega
  · obtain ⟨hd', rfl⟩ := Prod.mk.inj (Option.some_inj.mp h)
    obtain rfl := Option.some_inj.mp hd'
    rw [encode, weight_append]
    exact Nat.le_refl _
  · cases (Prod.mk.inj (Option.some_inj.mp h)).1

/-- An event of another type is passed over. -/
theorem handleRead_none {event : List UInt8} {stream rest : List Cell}
    (h : handleRead K fd event stream = some (none, rest)) : rest = stream := by
  rw [handleRead] at h
  split_ifs at h
  · obtain ⟨_, -, heq⟩ := Option.map_eq_some_iff.mp h
    cases (Prod.mk.inj heq).1
  · obtain ⟨_, -, heq⟩ := Option.map_eq_some_iff.mp h
    cases (Prod.mk.inj heq).1
  · obtain ⟨_, -, heq⟩ := Option.map_eq_some_iff.mp h
    cases (Prod.mk.inj heq).1
  · cases (Prod.mk.inj (Option.some_inj.mp h)).1
  · exact ((Prod.mk.inj (Option.some_inj.mp h)).2).symm

theorem eventType_ne_zero {msg : Msg} (hsend : msg.Sendable) : eventType (event msg) ≠ 0 := by
  rcases msg with bytes | ⟨width, height, framerate, name⟩ | data | fd
  · intro hzero
    have htype : eventType bytes ∈ fixedTypes := hsend.2
    rw [show eventType bytes = 0 from hzero] at htype
    exact absurd htype (by decide)
  all_goals exact fun hzero => absurd hzero (by simp [event, eventScreenSize,
    eventClipboardSend, eventRendererWakeupCond])

theorem encodeAll_cons (msg : Msg) (msgs : List Msg) :
    encodeAll (msg :: msgs) = encode msg ++ encodeAll msgs := rfl

/-- What a stream gives weighs no more than the stream, if the payloads are from it. -/
theorem deliveries_weight_le {stream : List Cell} {msgs : List Msg}
    (h : deliveries K fd stream = msgs.map (delivery fd)) :
    weight (encodeAll msgs) ≤ weight stream := by
  induction hlen : stream.length using Nat.strongRecOn generalizing stream msgs with
  | _ n ih =>
    subst hlen
    cases hturn : turn K fd stream with
    | none =>
      rw [deliveries_of_none hturn] at h
      obtain rfl := List.map_eq_nil_iff.mp h.symm
      exact Nat.zero_le _
    | some result =>
      obtain ⟨whole, d, rest⟩ := result
      have hlt := turn_length_lt hturn
      rw [deliveries_of_turn hturn] at h
      have hne : stream ≠ [] := by
        rintro rfl
        exact absurd hlt (Nat.not_lt_zero _)
      rw [turn_of_ne_nil K fd hne] at hturn
      have hsplit := weight_take_add_drop (K.got stream sizeofEvent) stream
      have htaken := weight_plain_map_byte (stream.take (K.got stream sizeofEvent))
      -- a turn that delivers nothing only drops cells
      split_ifs at hturn with hwhole
      · obtain ⟨⟨d', left⟩, hhandle, heq⟩ := Option.map_eq_some_iff.mp hturn
        obtain ⟨-, heq⟩ := Prod.mk.inj heq
        obtain ⟨rfl, rfl⟩ := Prod.mk.inj heq
        cases d' with
        | none =>
          have hrest := ih left.length hlt h rfl
          rw [handleRead_none hhandle] at hrest
          omega
        | some d =>
          cases msgs with
          | nil => cases h
          | cons msg msgs =>
            obtain ⟨rfl, htail⟩ := List.cons.inj h
            have hrest := ih left.length hlt htail rfl
            have hmsg := handleRead_weight_le hwhole hhandle rfl
            have hcons : weight (encode msg) + weight left ≤ _ := hmsg
            rw [encodeAll_cons, weight_append]
            omega
      · obtain ⟨-, heq⟩ := Prod.mk.inj (Option.some_inj.mp hturn)
        obtain ⟨rfl, rfl⟩ := Prod.mk.inj heq
        have hrest := ih _ hlt h rfl
        omega

/-- A message cannot do without its first byte. -/
theorem weight_drop_lt {msg : Msg} (hsend : msg.Sendable) (after : List Cell) {n : ℕ}
    (hn : 0 < n) : weight ((encode msg ++ after).drop n) < weight (encode msg ++ after) := by
  have hlen := event_length hsend
  have hsize : (event msg).length = 24 := hlen
  obtain ⟨b, bytes, hevent⟩ := List.exists_cons_of_length_pos (l := event msg) (by omega)
  obtain ⟨n, rfl⟩ := Nat.exists_eq_succ_of_ne_zero (Nat.pos_iff_ne_zero.mp hn)
  have hb : b ≠ 0 := by
    have htype := eventType_ne_zero hsend
    rw [hevent] at htype
    exact htype
  have hstream : encode msg ++ after = [⟨b, none⟩] ++ (plain bytes ++ payload msg ++ after) := by
    rw [encode, hevent]
    rfl
  have hfirst : weight [⟨b, none⟩] = 1 := by simp [weight, hb]
  have hsplit := weight_take_add_drop n (plain bytes ++ payload msg ++ after)
  rw [hstream, weight_append, hfirst]
  show weight ((plain bytes ++ payload msg ++ after).drop n) < _
  omega

/-! ### Zeros read as events -/

/-- A read for an event that begins with a zero, or is short, delivers nothing. -/
theorem deliveries_skip {stream : List Cell} (hne : stream ≠ [])
    (h : eventType ((stream.take (K.got stream sizeofEvent)).map Cell.byte) = 0 ∨
      K.got stream sizeofEvent < sizeofEvent) :
    deliveries K fd stream = deliveries K fd (stream.drop (K.got stream sizeofEvent)) := by
  have hturn := turn_of_ne_nil K fd hne
  split_ifs at hturn with hwhole
  · have htype : eventType ((stream.take (K.got stream sizeofEvent)).map Cell.byte) = 0 := by
      refine h.resolve_right fun hshort => ?_
      rw [List.length_map, List.length_take] at hwhole
      omega
    have hhandle : handleRead K fd ((stream.take (K.got stream sizeofEvent)).map Cell.byte)
        (stream.drop (K.got stream sizeofEvent)) =
        some (none, stream.drop (K.got stream sizeofEvent)) := by
      rw [handleRead, htype]
      rfl
    rw [hhandle] at hturn
    exact deliveries_of_turn hturn
  · exact deliveries_of_turn hturn

/-- The first byte of zeros and what is behind them. -/
theorem deliveries_skip_zeros (K : Kernel) (fd : ℕ) {z : UInt8} (zeros : List UInt8) (hz : z = 0)
    (after : List Cell) :
    deliveries K fd (plain (z :: zeros) ++ after) =
      deliveries K fd ((plain (z :: zeros) ++ after).drop
        (K.got (plain (z :: zeros) ++ after) sizeofEvent)) := by
  refine deliveries_skip (List.cons_ne_nil _ _) (Or.inl ?_)
  obtain ⟨n, hn⟩ := Nat.exists_eq_succ_of_ne_zero
    (Nat.pos_iff_ne_zero.mp (got_event_pos K (plain (z :: zeros) ++ after)))
  rw [hn]
  exact hz

theorem drop_plain (bs : List UInt8) (n : ℕ) : (plain bs).drop n = plain (bs.drop n) := by
  rw [plain, plain, List.map_drop]

theorem deliveries_zeros {zeros : List UInt8} (hzeros : ∀ b ∈ zeros, b = 0) :
    deliveries K fd (plain zeros) = [] := by
  induction hlen : zeros.length using Nat.strongRecOn generalizing zeros with
  | _ n ih =>
    subst hlen
    rcases zeros with _ | ⟨z, zeros⟩
    · exact deliveries_nil
    have hskip := deliveries_skip_zeros K fd zeros
      (hzeros z List.mem_cons_self) []
    have hpos := got_event_pos K (plain (z :: zeros))
    rw [List.append_nil] at hskip
    rw [hskip, drop_plain]
    refine ih _ ?_ (fun b hb => hzeros b (List.mem_of_mem_drop hb)) rfl
    rw [List.length_drop, List.length_cons]
    omega

theorem drop_plain_append {bs : List UInt8} {n : ℕ} (h : n ≤ bs.length) (after : List Cell) :
    (plain bs ++ after).drop n = plain (bs.drop n) ++ after := by
  rw [List.drop_append_of_le_length (by rwa [plain_length]), drop_plain]

theorem eventReads_length_le {stream rest : List Cell}
    (h : ReflTransGen (EventRead K) stream rest) : rest.length ≤ stream.length := by
  induction h with
  | refl => exact Nat.le_refl _
  | tail _ hread ih =>
    rw [hread, List.length_drop]
    omega

/-- Zeros before messages do no harm exactly if the reads stop where the messages begin. -/
theorem deliveries_zeros_append {zeros : List UInt8} {msg : Msg} {msgs : List Msg}
    (hzeros : ∀ b ∈ zeros, b = 0) (hsend : msg.Sendable) :
    deliveries K fd (plain zeros ++ encodeAll (msg :: msgs)) = (msg :: msgs).map (delivery fd) ↔
      ReflTransGen (EventRead K) (plain zeros ++ encodeAll (msg :: msgs))
          (encodeAll (msg :: msgs)) ∧
        deliveries K fd (encodeAll (msg :: msgs)) = (msg :: msgs).map (delivery fd) := by
  induction hlen : zeros.length using Nat.strongRecOn generalizing zeros with
  | _ n ih =>
    subst hlen
    rcases zeros with _ | ⟨z, zeros⟩
    · exact ⟨fun h => ⟨.refl, h⟩, fun h => h.2⟩
    have hskip := deliveries_skip_zeros K fd zeros
      (hzeros z List.mem_cons_self) (encodeAll (msg :: msgs))
    have hpos := got_event_pos K (plain (z :: zeros) ++ encodeAll (msg :: msgs))
    generalize hgot : K.got (plain (z :: zeros) ++ encodeAll (msg :: msgs)) sizeofEvent = k
      at hskip hpos
    have hread : EventRead K (plain (z :: zeros) ++ encodeAll (msg :: msgs))
        ((plain (z :: zeros) ++ encodeAll (msg :: msgs)).drop k) := by rw [EventRead, hgot]
    -- the first read stops among the zeros or goes on into the message
    rcases Nat.lt_or_ge (z :: zeros).length k with hover | hwithin
    · have hlost : ∃ m, 0 < m ∧ (plain (z :: zeros) ++ encodeAll (msg :: msgs)).drop k =
          (encodeAll (msg :: msgs)).drop m := by
        refine ⟨k - (z :: zeros).length, by omega, ?_⟩
        rw [List.drop_append, List.drop_of_length_le (by rw [plain_length]; omega), plain_length]
        rfl
      obtain ⟨m, hm, hdrop⟩ := hlost
      have hlt := weight_drop_lt hsend (encodeAll msgs) hm
      rw [← encodeAll_cons] at hlt
      constructor
      · intro h
        rw [hskip, hdrop] at h
        exact absurd (deliveries_weight_le h) (Nat.not_le_of_lt hlt)
      · rintro ⟨hreads, -⟩
        rcases hreads.cases_head with heq | ⟨rest, hfirst, hreads⟩
        · have hlength := congrArg List.length heq
          rw [List.length_append, plain_length, List.length_cons] at hlength
          omega
        · have hle := eventReads_length_le hreads
          rw [hfirst, hgot, hdrop, List.length_drop] at hle
          have hne : (encodeAll (msg :: msgs)).length ≠ 0 := fun hnil => by
            rw [List.length_eq_zero_iff.mp hnil] at hlt
            exact absurd hlt (by simp [weight])
          omega
    · have hdrop := drop_plain_append hwithin (encodeAll (msg :: msgs))
      have hlt : ((z :: zeros).drop k).length < (z :: zeros).length := by
        rw [List.length_drop, List.length_cons]
        omega
      have hrest := ih _ hlt (fun b hb => hzeros b (List.mem_of_mem_drop hb)) rfl
      rw [hskip, hdrop, hrest]
      refine and_congr_left fun _ => ⟨fun hreads => ?_, fun hreads => ?_⟩
      · rw [hdrop] at hread
        exact .head hread hreads
      · rcases hreads.cases_head with heq | ⟨rest, hfirst, hreads⟩
        · have hlength := congrArg List.length heq
          rw [List.length_append, plain_length, List.length_cons] at hlength
          omega
        · rw [hfirst, hgot, hdrop] at hreads
          exact hreads

/-! ### Message by message -/

theorem calloced_take_eq_iff {bs : List UInt8} {n : ℕ} (h : n ≤ bs.length) :
    calloced bs.length (bs.take n) = bs ↔ ∀ b ∈ bs.drop n, b = 0 := by
  have hlen : bs.length - (bs.take n).length = (bs.drop n).length := by
    rw [List.length_take, List.length_drop, Nat.min_eq_left h]
  have hzeros : List.replicate (bs.drop n).length 0 = bs.drop n ↔ ∀ b ∈ bs.drop n, b = 0 := by
    rw [eq_comm, List.eq_replicate_iff]
    exact and_iff_right rfl
  rw [calloced, hlen, ← hzeros]
  constructor
  · intro heq
    conv at heq => rhs; rw [← List.take_append_drop n bs]
    exact List.append_cancel_left heq
  · intro heq
    rw [heq, List.take_append_drop]

/-- One read of a payload that is there. -/
theorem readInto_plain (bs : List UInt8) (after : List Cell) :
    readInto K bs.length (plain bs ++ after) =
      some (calloced bs.length (bs.take (K.got (plain bs ++ after) bs.length)),
        plain (bs.drop (K.got (plain bs ++ after) bs.length)) ++ after) := by
  have hle := K.got_le (plain bs ++ after) bs.length
  have hpos := K.got_pos (plain bs ++ after) bs.length
  generalize hgot : K.got (plain bs ++ after) bs.length = k at hle hpos
  have hread : read k (plain bs ++ after) = some (bs.take k, plain (bs.drop k) ++ after) := by
    rw [read, if_neg, List.take_append_of_le_length (by rwa [plain_length]),
      drop_plain_append hle, plain, ← List.map_take]
    · exact congrArg (fun taken => some (taken, _)) (map_byte_plain (bs.take k))
    · rintro ⟨hk, hnil⟩
      have hbs : bs = [] := List.map_eq_nil_iff.mp (List.append_eq_nil_iff.mp hnil).1
      rw [hbs, List.length_nil] at hle
      omega
  rw [readInto, hgot, hread, Option.map_some]

/-- What follows a payload that was read well is delivered as if nothing was missing. -/
theorem payloadRead_iff (bs : List UInt8) {msgs : List Msg} (hsend : ∀ msg ∈ msgs, msg.Sendable) :
    calloced bs.length (bs.take (K.got (plain bs ++ encodeAll msgs) bs.length)) = bs ∧
        deliveries K fd (plain (bs.drop (K.got (plain bs ++ encodeAll msgs) bs.length)) ++
          encodeAll msgs) = msgs.map (delivery fd) ↔
      PayloadReadWell K bs (encodeAll msgs) ∧
        deliveries K fd (encodeAll msgs) = msgs.map (delivery fd) := by
  rw [calloced_take_eq_iff (K.got_le _ _), PayloadReadWell, and_assoc]
  refine and_congr_right fun hzeros => ?_
  generalize bs.drop (K.got (plain bs ++ encodeAll msgs) bs.length) = zeros at hzeros ⊢
  cases msgs with
  | nil =>
    have hnil : encodeAll [] = [] := rfl
    rw [hnil, List.append_nil, deliveries_zeros hzeros, deliveries_nil]
    simp
  | cons msg msgs =>
    have hne : encodeAll (msg :: msgs) ≠ [] := fun hnil => by
      have hlt := weight_drop_lt (hsend msg List.mem_cons_self) (encodeAll msgs) Nat.one_pos
      rw [← encodeAll_cons, hnil] at hlt
      exact absurd hlt (Nat.lt_irrefl _)
    rw [deliveries_zeros_append hzeros (hsend msg List.mem_cons_self), or_iff_right hne]

/-- A message whose event is read in one piece. -/
theorem deliveries_of_event {msg : Msg} (hsend : msg.Sendable) {after : List Cell}
    (hgot : K.got (encode msg ++ after) sizeofEvent = sizeofEvent) :
    deliveries K fd (encode msg ++ after) =
      (handleRead K fd (event msg) (payload msg ++ after)).elim [] fun (d, rest) =>
        d.toList ++ deliveries K fd rest := by
  have hlen := event_length hsend
  have hread : read (K.got (encode msg ++ after) sizeofEvent) (encode msg ++ after) =
      some (event msg, payload msg ++ after) := by
    rw [hgot, encode, List.append_assoc, read_plain hlen]
  have hturn : turn K fd (encode msg ++ after) =
      (handleRead K fd (event msg) (payload msg ++ after)).map fun (d, rest) =>
        (true, d, rest) := by
    rw [turn, hread, Option.bind_some]
    exact if_pos hlen
  cases hhandle : handleRead K fd (event msg) (payload msg ++ after) with
  | none =>
    rw [hhandle] at hturn
    exact deliveries_of_none hturn
  | some result =>
    rw [hhandle] at hturn
    exact deliveries_of_turn hturn

theorem source_length (bs : List UInt8) :
    source bs.length (some fd) = if plain bs = [] then none else some fd := by
  cases bs with
  | nil => rfl
  | cons b bs => rfl

/-- What is left to compare when a message has been delivered. -/
theorem toList_append_eq_iff {d : Delivery} {ds : List Delivery} {msg : Msg} {msgs : List Msg} :
    (some d).toList ++ ds = (msg :: msgs).map (delivery fd) ↔
      d = delivery fd msg ∧ ds = msgs.map (delivery fd) := by
  rw [List.map_cons]
  exact List.cons_eq_cons

theorem handleRead_event {bytes : List UInt8} (h : eventType bytes ∈ fixedTypes)
    (stream : List Cell) :
    handleRead K fd bytes stream = some (some (delivery fd (.event bytes)), stream) := by
  have hne (t : UInt8) (ht : t ∉ fixedTypes) : eventType bytes ≠ t := by
    rintro rfl
    exact ht h
  rw [handleRead, if_neg (hne eventScreenSize (by decide)),
    if_neg (hne eventClipboardSend (by decide)),
    if_neg (hne eventRendererWakeupCond (by decide)), if_pos h]
  rfl

theorem screenSize_deliveries_iff {width height framerate : UInt16} {name : List UInt8}
    {msgs : List Msg} (hname : name.length < 2 ^ 64) (hmsgs : ∀ m ∈ msgs, m.Sendable) :
    ((handleRead K fd (event (.screenSize width height framerate name))
        (plain name ++ encodeAll msgs)).elim [] fun (d, rest) => d.toList ++ deliveries K fd rest) =
        (.screenSize width height framerate name :: msgs).map (delivery fd) ↔
      PayloadReadWell K name (encodeAll msgs) ∧
        deliveries K fd (encodeAll msgs) = msgs.map (delivery fd) := by
  obtain ⟨hw, hh, hf, hsize⟩ := event_screenSize_fields width height framerate hname
  have htype : eventType (event (.screenSize width height framerate name)) =
    eventScreenSize := rfl
  rw [handleRead, if_pos htype, hsize, readInto_plain, Option.map_some, hw, hh, hf,
    UInt16.ofNat_toNat, UInt16.ofNat_toNat, UInt16.ofNat_toNat, Option.elim_some,
    toList_append_eq_iff, source_length, ← payloadRead_iff name hmsgs]
  refine and_congr_left fun _ => ⟨fun h => ?_, fun h => by rw [h]; rfl⟩
  exact (Msg.screenSize.inj (congrArg Delivery.msg h)).2.2.2

theorem clipboardSend_deliveries_iff {data : List UInt8} {msgs : List Msg}
    (hdata : data.length < 2 ^ 31) (hmsgs : ∀ m ∈ msgs, m.Sendable) :
    ((handleRead K fd (event (.clipboardSend data))
        (plain data ++ encodeAll msgs)).elim [] fun (d, rest) => d.toList ++ deliveries K fd rest) =
        (.clipboardSend data :: msgs).map (delivery fd) ↔
      ((data ≠ [] → K.connFd (plain data ++ encodeAll msgs) = some fd) ∧
          PayloadReadWell K data (encodeAll msgs)) ∧
        deliveries K fd (encodeAll msgs) = msgs.map (delivery fd) := by
  have hcount := field_eventBytes eventClipboardSend [0, 0, 0] 4 data.length []
  rw [List.append_nil, Nat.mod_eq_of_lt (by omega)] at hcount
  have hcount' : field 4 4 (event (.clipboardSend data)) = data.length := hcount
  have htype : eventType (event (.clipboardSend data)) = eventClipboardSend := rfl
  rw [handleRead, if_neg (by rw [htype]; decide), if_pos htype, hcount', readConnFd, and_assoc,
    ← payloadRead_iff data hmsgs]
  by_cases hfd : K.connFd (plain data ++ encodeAll msgs) = some fd
  · rw [if_pos hfd, readInto_plain, Option.map_some, Option.elim_some, toList_append_eq_iff, hfd,
      source_length, and_iff_right fun _ => rfl]
    refine and_congr_left fun _ => ⟨fun h => ?_, fun h => by rw [h]; rfl⟩
    exact Msg.clipboardSend.inj (congrArg Delivery.msg h)
  · rw [if_neg hfd]
    rcases data with _ | ⟨b, data⟩
    · -- nothing to read
      have hcount : K.connFd (plain [] ++ encodeAll msgs) = none ∨ ([] : List UInt8).length = 0 :=
        Or.inr rfl
      have htake : calloced ([] : List UInt8).length (List.take (K.got (plain [] ++ encodeAll msgs)
          ([] : List UInt8).length) []) = [] := by rw [List.take_nil]; rfl
      rw [if_pos hcount, Option.map_some, Option.elim_some, toList_append_eq_iff,
        and_iff_right fun hne => absurd rfl hne, and_iff_right htake, List.drop_nil]
      exact and_iff_right rfl
    · -- the text was read from elsewhere, or is all zeros: the delivery says so
      refine iff_of_false (fun h => ?_) fun h => hfd (h.1 (List.cons_ne_nil b data))
      have hsource (d : List UInt8) (rest : List Cell) :
          ¬ (some (⟨.clipboardSend d, source (b :: data).length
            (K.connFd (plain (b :: data) ++ encodeAll msgs))⟩ : Delivery)).toList ++
              deliveries K fd rest = (.clipboardSend (b :: data) :: msgs).map (delivery fd) := by
        intro heq
        exact hfd (congrArg Delivery.payloadFrom (toList_append_eq_iff.mp heq).1)
      by_cases hnone : K.connFd (plain (b :: data) ++ encodeAll msgs) = none ∨
          (b :: data).length = 0
      · rw [if_pos hnone] at h
        exact hsource _ _ h
      · rw [if_neg hnone] at h
        cases hread : K.elsewhere (plain (b :: data) ++ encodeAll msgs) with
        | none =>
          rw [hread] at h
          cases h
        | some bytes =>
          rw [hread] at h
          exact hsource _ _ h

/-- The messages from one on are delivered if that one is read well and the others are
delivered. -/
theorem deliveries_cons_iff {msg : Msg} {msgs : List Msg}
    (hsend : ∀ m ∈ msg :: msgs, m.Sendable) :
    deliveries K fd (encodeAll (msg :: msgs)) = (msg :: msgs).map (delivery fd) ↔
      ReadWell K fd msg (encodeAll msgs) ∧
        deliveries K fd (encodeAll msgs) = msgs.map (delivery fd) := by
  have hmsg := hsend msg List.mem_cons_self
  have hmsgs : ∀ m ∈ msgs, m.Sendable := fun m hm => hsend m (List.mem_cons_of_mem msg hm)
  rw [encodeAll_cons, ReadWell, and_assoc]
  by_cases hgot : K.got (encode msg ++ encodeAll msgs) sizeofEvent = sizeofEvent
  · rw [and_iff_right hgot, deliveries_of_event hmsg hgot]
    rcases msg with bytes | ⟨width, height, framerate, name⟩ | data | wakeupFd
    · rw [show handleRead K fd (event (.event bytes)) (payload (.event bytes) ++ encodeAll msgs) =
        some (some (delivery fd (.event bytes)), encodeAll msgs) from handleRead_event hmsg.2 _,
        Option.elim_some, toList_append_eq_iff, RestReadWell]
      exact and_congr_left fun _ => iff_of_true rfl trivial
    · exact screenSize_deliveries_iff hmsg hmsgs
    · exact clipboardSend_deliveries_iff hmsg hmsgs
    · obtain ⟨wakeupFd, rfl⟩ := Option.isSome_iff_exists.mp hmsg
      show ((some (delivery fd (.rendererWakeupCond (some wakeupFd)))).toList ++
        deliveries K fd (encodeAll msgs)) = _ ↔ _
      rw [toList_append_eq_iff, RestReadWell]
      exact and_congr_left fun _ => iff_of_true rfl trivial
  · -- the event is lost, and its first byte with it
    refine iff_of_false (fun h => ?_) fun h => hgot h.1
    have hlt : K.got (encode msg ++ encodeAll msgs) sizeofEvent < sizeofEvent :=
      Nat.lt_of_le_of_ne (K.got_le _ _) hgot
    have hweight := weight_drop_lt hmsg (encodeAll msgs)
      (got_event_pos K (encode msg ++ encodeAll msgs))
    have hne : encode msg ++ encodeAll msgs ≠ [] := fun hnil => by
      rw [hnil] at hweight
      exact absurd hweight (by simp [weight])
    rw [deliveries_skip hne (Or.inr hlt)] at h
    have hle := deliveries_weight_le h
    rw [encodeAll_cons] at hle
    omega

theorem deliveries_iff {msgs : List Msg} (hsend : ∀ msg ∈ msgs, msg.Sendable) :
    deliveries K fd (encodeAll msgs) = msgs.map (delivery fd) ↔
      ∀ msg after, msg :: after <:+ msgs → ReadWell K fd msg (encodeAll after) := by
  induction msgs with
  | nil =>
    exact iff_of_true deliveries_nil fun msg after h => absurd (List.suffix_nil.mp h) (by simp)
  | cons m msgs ih =>
    rw [deliveries_cons_iff hsend, ih fun msg hmsg => hsend msg (List.mem_cons_of_mem m hmsg)]
    constructor
    · rintro ⟨hm, hmsgs⟩ msg after hsuffix
      rcases List.suffix_cons_iff.mp hsuffix with heq | hsuffix
      · obtain ⟨rfl, rfl⟩ := List.cons.inj heq
        exact hm
      · exact hmsgs msg after hsuffix
    · exact fun h => ⟨h m msgs List.suffix_rfl, fun msg after hsuffix =>
        h msg after (hsuffix.trans (List.suffix_cons m msgs))⟩

/-- However the kernel splits the stream, and whatever becomes of `conn_fd`: the
messages are those of full reads exactly if each of them is read well. -/
theorem unchanged_iff (K : Kernel) (fd : ℕ) {msgs : List Msg}
    (hsend : ∀ msg ∈ msgs, msg.Sendable) :
    Unchanged K fd msgs ↔
      ∀ msg after, msg :: after <:+ msgs → ReadWell K fd msg (encodeAll after) := by
  rw [Unchanged, decode_encodeAll hsend, ← deliveries_iff hsend,
    received_eq_deliveries (Nat.le_refl _)]
  constructor
  · rintro ⟨full, hfull, h⟩
    obtain ⟨rfl, -⟩ := Prod.mk.inj (Option.some_inj.mp hfull)
    exact h
  · exact fun h => ⟨msgs, rfl, h⟩

/-! ### A text that comes in two parts -/

/-- The connection 7 is up; events come whole, and of anything else a read returns one
byte. -/
def textsInParts : Kernel where
  got _ n := if n = sizeofEvent then n else min n 1
  got_pos stream n hn := by
    split_ifs <;> omega
  got_le stream n := by
    split_ifs <;> omega
  waiting stream := stream.length
  waiting_le _ := Nat.le_refl _
  connFd _ := some 7
  elsewhere _ := none

/-- Of the text "hi" the server takes the first letter, and a zero for the second. -/
theorem textsInParts_hi_changed : ¬ Unchanged textsInParts 7 [.clipboardSend [104, 105]] := by
  rintro ⟨full, hdecode, h⟩
  have hfull : decode (encodeAll [.clipboardSend [104, 105]]) =
      some ([.clipboardSend [104, 105]], []) := by decide
  have hreceived : received textsInParts 7 (encodeAll [.clipboardSend [104, 105]]).length
      (encodeAll [.clipboardSend [104, 105]]) = [⟨.clipboardSend [104, 0], some 7⟩] := by
    decide
  obtain ⟨rfl, -⟩ := Prod.mk.inj (Option.some_inj.mp (hfull.symm.trans hdecode))
  rw [hreceived] at h
  exact absurd h (by decide)

/-- A text that ends with the zero the server puts there is not changed. -/
theorem textsInParts_zero_unchanged : Unchanged textsInParts 7 [.clipboardSend [104, 0]] := by
  refine (unchanged_iff textsInParts 7 (by decide)).mpr fun msg after hsuffix => ?_
  rcases List.suffix_cons_iff.mp hsuffix with heq | hsuffix
  · obtain ⟨rfl, rfl⟩ := List.cons.inj heq
    exact ⟨rfl, fun _ => rfl, fun b hb => List.mem_singleton.mp hb, Or.inl rfl⟩
  · exact absurd (List.suffix_nil.mp hsuffix) (by simp)

end Lorie.ToServer
