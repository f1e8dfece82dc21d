/-
Messages from the activity to the X server (`activity.cpp`, `renderer.cpp`,
`cmdentrypoint.cpp`).

Two threads of the activity write to the socket, with no lock: the GUI thread, whose
messages are an event and, for some, a second `write` or `sendmsg` with what follows
it; and the renderer, which reports finished GPU copies with an event of its own.
The X server's input thread reads the stream in `handleLorieEvents`.

* `encode`, `decode` — a message written, and the messages read off a stream;
* `step` — the single writes of the two threads, in any order;
* `stream_intact_of_harmless` — the server reads an interleaving of what the two sent
  if the renderer does not write between an event and what follows it.
-/
import KaliGui.Lib.Run
import KaliGui.Lorie.Event

namespace Lorie.ToServer

open ByteStream Machine

/-! ### Messages -/

/-- `EVENT_TOUCH` … `EVENT_CLIPBOARD_ANNOUNCE`, `EVENT_GPU_COPY_DONE`,
`EVENT_LOCK_KEYS_STATE` and `EVENT_SYNC`: the types of the events that stand alone. -/
def fixedTypes : List UInt8 := [5, 6, 7, 8, 9, 10, 11, 12, 17, 18, 19]

inductive Msg
  /-- an event of one of the `fixedTypes`, as it is in memory -/
  | event (bytes : List UInt8)
  | screenSize (width height framerate : UInt16) (name : List UInt8)
  | clipboardSend (data : List UInt8)
  | rendererWakeupCond (fd : Option ℕ)
  deriving DecidableEq, Repr

/-- `EVENT_GPU_COPY_DONE`, as `notifyGpuCopyDone` writes it. -/
def gpuCopyDone : List UInt8 := eventBytes eventGpuCopyDone []

/-- What the threads can send: events of a type the switch knows, names and texts whose
lengths fit their members, a descriptor that is there. -/
def Msg.Sendable : Msg → Prop
  | .event bytes => bytes.length = sizeofEvent ∧ eventType bytes ∈ fixedTypes
  | .screenSize _ _ _ name => name.length < 2 ^ 64
  | .clipboardSend data => data.length < 2 ^ 31
  | .rendererWakeupCond fd => fd.isSome

/-! ### The activity's side -/

/-- The event written for a message. -/
def event : Msg → List UInt8
  | .event bytes => bytes
  | .screenSize width height framerate name =>
    eventBytes eventScreenSize
      ([0] ++ leBytes 2 width.toNat ++ leBytes 2 height.toNat ++ leBytes 2 framerate.toNat ++
        leBytes 8 name.length)
  | .clipboardSend data => eventBytes eventClipboardSend ([0, 0, 0] ++ leBytes 4 data.length)
  | .rendererWakeupCond _ => eventBytes eventRendererWakeupCond []

/-- The second write, or `ancil_send_fd`. -/
def payload : Msg → List Cell
  | .event _ => []
  | .screenSize _ _ _ name => plain name
  | .clipboardSend data => plain data
  | .rendererWakeupCond none => []
  | .rendererWakeupCond (some fd) => ancilSendFd fd

/-- `sendWindowChange`, `sendClipboardEvent`, `connect` and the senders of single events. -/
def encode (msg : Msg) : List Cell := plain (event msg) ++ payload msg

def encodeAll (msgs : List Msg) : List Cell := msgs.flatMap encode

/-! ### The server's side -/

/-- The switch of `handleLorieEvents`. -/
def handleEvent (event : List UInt8) (stream : List Cell) : Option (Option Msg × List Cell) :=
  if eventType event = eventScreenSize then
    (read (field 8 8 event) stream).map fun (name, stream) =>
      (some (.screenSize (UInt16.ofNat (field 2 2 event)) (UInt16.ofNat (field 4 2 event))
        (UInt16.ofNat (field 6 2 event)) name), stream)
  else if eventType event = eventClipboardSend then
    (read (field 4 4 event) stream).map fun (data, stream) => (some (.clipboardSend data), stream)
  else if eventType event = eventRendererWakeupCond then
    (ancilRecvFd stream).map fun (fd, stream) => (some (.rendererWakeupCond fd), stream)
  else if eventType event ∈ fixedTypes then some (some (.event event), stream)
  else some (none, stream)

/-- `handleLorieEvents`, for as long as there is something to read. -/
def decode (stream : List Cell) : Option (List Msg × List Cell) :=
  receive handleEvent stream.length stream

/-! ### Decoding what was encoded -/

theorem event_length {msg : Msg} (h : msg.Sendable) : (event msg).length = sizeofEvent := by
  rcases msg with bytes | ⟨width, height, framerate, name⟩ | data | fd
  · exact h.1
  · exact eventBytes_length _ (by simp [sizeofEvent])
  · exact eventBytes_length _ (by simp [sizeofEvent])
  · exact eventBytes_length _ (by simp [sizeofEvent])

theorem event_screenSize_fields (width height framerate : UInt16) {name : List UInt8}
    (hname : name.length < 2 ^ 64) :
    field 2 2 (event (.screenSize width height framerate name)) = width.toNat ∧
      field 4 2 (event (.screenSize width height framerate name)) = height.toNat ∧
      field 6 2 (event (.screenSize width height framerate name)) = framerate.toNat ∧
      field 8 8 (event (.screenSize width height framerate name)) = name.length := by
  have hw := field_eventBytes eventScreenSize [0] 2 width.toNat
    (leBytes 2 height.toNat ++ leBytes 2 framerate.toNat ++ leBytes 8 name.length)
  have hh := field_eventBytes eventScreenSize ([0] ++ leBytes 2 width.toNat) 2 height.toNat
    (leBytes 2 framerate.toNat ++ leBytes 8 name.length)
  have hf := field_eventBytes eventScreenSize
    ([0] ++ leBytes 2 width.toNat ++ leBytes 2 height.toNat) 2 framerate.toNat
    (leBytes 8 name.length)
  have hn := field_eventBytes eventScreenSize
    ([0] ++ leBytes 2 width.toNat ++ leBytes 2 height.toNat ++ leBytes 2 framerate.toNat) 8
    name.length []
  rw [Nat.mod_eq_of_lt (by exact width.toNat_lt)] at hw
  rw [Nat.mod_eq_of_lt (by exact height.toNat_lt)] at hh
  rw [Nat.mod_eq_of_lt (by exact framerate.toNat_lt)] at hf
  rw [Nat.mod_eq_of_lt (by omega)] at hn
  simp only [List.append_assoc, List.append_nil] at hw hh hf hn
  simp only [event, List.append_assoc]
  exact ⟨hw, hh, hf, hn⟩

/-- An event is handled as the message it was written for. -/
theorem handleEvent_encode {msg : Msg} (hsend : msg.Sendable) (rest : List Cell) :
    handleEvent (event msg) (payload msg ++ rest) = some (some msg, rest) := by
  rcases msg with bytes | ⟨width, height, framerate, name⟩ | data | fd
  · -- the types that stand alone are none of the others
    obtain ⟨-, htype⟩ := hsend
    have hsize : eventType bytes ≠ eventScreenSize := by
      rintro heq
      rw [heq] at htype
      exact absurd htype (by decide)
    have hclip : eventType bytes ≠ eventClipboardSend := by
      rintro heq
      rw [heq] at htype
      exact absurd htype (by decide)
    have hcond : eventType bytes ≠ eventRendererWakeupCond := by
      rintro heq
      rw [heq] at htype
      exact absurd htype (by decide)
    show handleEvent bytes rest = _
    rw [handleEvent, if_neg hsize, if_neg hclip, if_neg hcond, if_pos htype]
  · obtain ⟨hwidth, hheight, hframerate, hname⟩ :=
      event_screenSize_fields width height framerate hsend
    have htype : eventType (event (.screenSize width height framerate name)) =
      eventScreenSize := rfl
    rw [handleEvent, if_pos htype, payload, hname, read_plain rfl, Option.map_some, hwidth,
      hheight, hframerate, UInt16.ofNat_toNat, UInt16.ofNat_toNat, UInt16.ofNat_toNat]
  · have hcount := field_eventBytes eventClipboardSend [0, 0, 0] 4 data.length []
    have hdata : data.length < 2 ^ 31 := hsend
    have htype : eventType (event (.clipboardSend data)) = eventClipboardSend := rfl
    rw [List.append_nil, Nat.mod_eq_of_lt (by omega)] at hcount
    rw [handleEvent, if_neg (by rw [htype]; decide), if_pos htype, event]
    exact hcount.symm ▸ by rw [payload, read_plain rfl, Option.map_some]
  · obtain ⟨fd, rfl⟩ := Option.isSome_iff_exists.mp hsend
    rfl

/-- The server decodes what is written message by message. -/
theorem decode_encodeAll {msgs : List Msg} (hsend : ∀ msg ∈ msgs, msg.Sendable) :
    decode (encodeAll msgs) = some (msgs, []) :=
  receive_flatMap (fun msg hmsg => event_length (hsend msg hmsg))
    (fun msg _ hsuffix => handleEvent_encode (hsend msg (hsuffix.subset List.mem_cons_self)) _)
    (Nat.le_refl _)

theorem encodeAll_concat (msgs : List Msg) (msg : Msg) :
    encodeAll (msgs ++ [msg]) = encodeAll msgs ++ (plain (event msg) ++ payload msg) := by
  rw [encodeAll, encodeAll, List.flatMap_append, List.flatMap_singleton, encode]

theorem gpuCopyDone_sendable : (Msg.event gpuCopyDone).Sendable := ⟨by decide, by decide⟩

/-! ### The two threads -/

structure State where
  /-- what the GUI thread has yet to write of the message it is sending -/
  pending : List Cell := []
  stream : List Cell := []
  /-- the messages the GUI thread has begun to send -/
  gui : List Msg := []
  /-- the calls of `notifyGpuCopyDone` -/
  notified : ℕ := 0

/-- The writes, each one atomic. -/
inductive Act
  /-- the GUI thread writes a message's event -/
  | sendEvent (msg : Msg)
  /-- and what follows it -/
  | sendPayload
  /-- the renderer's `notifyGpuCopyDone` -/
  | notify

instance (msg : Msg) : Decidable msg.Sendable := by
  cases msg <;> unfold Msg.Sendable <;> infer_instance

def step (s : State) : Act → Option State
  | .sendEvent msg =>
    if s.pending = [] ∧ msg.Sendable then
      some { s with
        pending := payload msg
        stream := s.stream ++ plain (event msg)
        gui := s.gui ++ [msg] }
    else none
  | .sendPayload => some { s with pending := [], stream := s.stream ++ s.pending }
  | .notify =>
    some { s with stream := s.stream ++ plain gpuCopyDone, notified := s.notified + 1 }

/-- Whenever the GUI thread is between two messages, the server decodes from the stream
an interleaving of what the two threads sent, and nothing is left. -/
def Intact (s : State) : Prop :=
  s.pending = [] → ∃ msgs, decode s.stream = some (msgs, []) ∧
    Interleave s.gui (List.replicate s.notified (.event gpuCopyDone)) msgs

/-- The renderer does not write between an event and what follows it, unless the event
it writes and what follows are the same bytes in either order. -/
def HarmlessNotify (s : State) : Act → Prop
  | .notify => plain gpuCopyDone ++ s.pending = s.pending ++ plain gpuCopyDone
  | _ => True

/-- The stream and what is pending are messages written one by one. -/
def Framed (s : State) : Prop :=
  ∃ msgs : List Msg, s.stream ++ s.pending = encodeAll msgs ∧ (∀ msg ∈ msgs, msg.Sendable) ∧
    Interleave s.gui (List.replicate s.notified (.event gpuCopyDone)) msgs

theorem Framed.intact {s : State} (h : Framed s) : Intact s := by
  intro hpending
  obtain ⟨msgs, hstream, hsend, hinter⟩ := h
  rw [hpending, List.append_nil] at hstream
  exact ⟨msgs, by rw [hstream, decode_encodeAll hsend], hinter⟩

theorem Framed.initial : Framed {} := ⟨[], rfl, fun _ h => absurd h List.not_mem_nil, .nil⟩

theorem forall_mem_concat {P : Msg → Prop} {msgs : List Msg} {msg : Msg} (h : ∀ m ∈ msgs, P m)
    (hmsg : P msg) : ∀ m ∈ msgs ++ [msg], P m := by
  intro m hm
  rcases List.mem_append.mp hm with hm | hm
  · exact h m hm
  · rwa [List.mem_singleton.mp hm]

/-- One write keeps the framing. -/
theorem Framed.step {s s' : State} {a : Act} (h : Framed s) (hok : HarmlessNotify s a)
    (hstep : step s a = some s') : Framed s' := by
  obtain ⟨msgs, hstream, hsend, hinter⟩ := h
  cases a with
  | sendEvent msg =>
    simp only [ToServer.step] at hstep
    split at hstep
    next hen =>
      obtain rfl := Option.some_inj.mp hstep
      rw [hen.1, List.append_nil] at hstream
      refine ⟨msgs ++ [msg], ?_, forall_mem_concat hsend hen.2, hinter.append_left msg⟩
      rw [encodeAll_concat, List.append_assoc, hstream]
    · simp at hstep
  | sendPayload =>
    obtain rfl := Option.some_inj.mp hstep
    exact ⟨msgs, by rw [List.append_nil, hstream], hsend, hinter⟩
  | notify =>
    obtain rfl := Option.some_inj.mp hstep
    refine ⟨msgs ++ [.event gpuCopyDone], ?_, forall_mem_concat hsend gpuCopyDone_sendable, ?_⟩
    · -- the event and what is pending change places
      have hok : plain gpuCopyDone ++ s.pending = s.pending ++ plain gpuCopyDone := hok
      show s.stream ++ plain gpuCopyDone ++ s.pending = _
      rw [List.append_assoc, hok, ← List.append_assoc, hstream, encodeAll_concat]
      simp only [event, payload, List.append_nil]
    · have := hinter.append_right (.event gpuCopyDone)
      rwa [← List.replicate_succ'] at this

/-- In every run in which the renderer writes only where it does no harm, the server
decodes an interleaving of what the two threads sent. -/
theorem stream_intact_of_harmless {as : List Act} {s : State} (hrun : run step {} as = some s)
    (hok : Meets step HarmlessNotify {} as) : Intact s :=
  (run_invariant (fun _ _ _ h hok hstep => Framed.step h hok hstep) .initial hok hrun).intact

/-! ### A report between the text's event and the text -/

/-- A copy is done when the event of the text "hi" is written, and the text is not. -/
def notifyBetween : List Act :=
  [.sendEvent (.clipboardSend [104, 105]), .notify, .sendPayload]

/-- The server takes the first bytes of the report for the text. -/
theorem notifyBetween_not_intact :
    ∃ s, run step {} notifyBetween = some s ∧ ¬ Intact s := by
  refine ⟨_, rfl, fun hintact => ?_⟩
  obtain ⟨msgs, hdecode, hinter⟩ := hintact rfl
  have heval : decode (plain (event (.clipboardSend [104, 105])) ++ plain gpuCopyDone ++
      plain [104, 105]) = some ([.clipboardSend [17, 0]], []) := by decide
  obtain rfl : [Msg.clipboardSend [17, 0]] = msgs :=
    (Prod.mk.inj (Option.some_inj.mp (heval.symm.trans hdecode))).1
  cases hinter

/-- Copies are done before the text's event and after the text. -/
def notifyAround : List Act :=
  [.notify, .sendEvent (.clipboardSend [104, 105]), .sendPayload, .notify]

/-- Reports before and after a text do no harm. -/
theorem notifyAround_intact : ∃ s, run step {} notifyAround = some s ∧ Intact s := by
  have hok : Meets step HarmlessNotify {} notifyAround :=
    meets_cons_of_eq rfl rfl (meets_cons_of_eq rfl trivial (meets_cons_of_eq rfl trivial
      (meets_cons_of_eq rfl rfl trivial)))
  exact ⟨_, rfl, stream_intact_of_harmless rfl hok⟩

end Lorie.ToServer
