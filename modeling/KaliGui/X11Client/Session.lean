/-
The two threads that share an `X11Client` (`X11Client.kt`).

The network thread runs `connect`: it sets the fields, writes the setup request, parses the
reply and then asks for frames.  The UI thread injects input and disconnects.  Both write
through the buffered output stream of a connection, under one lock; a step is one access to
what they share.

The fields have their values at once for both threads.  `none` of `step` is a step that is
not enabled: a thread that waits for the lock, or that has nothing to do.

* `Request.chunks` — the writes that make a request;
* `Writing` — a request half written, with the lock held;
* `netStep`, `uiStep` — the threads; `step` — both, in any order.
-/
import KaliGui.Lib.Run
import KaliGui.Lib.ByteStream
import Mathlib.Algebra.Group.Int.Defs
import Mathlib.Data.Int.Notation
import Mathlib.Logic.Function.Basic

namespace X11Client

open ByteStream

/-! ### Requests -/

/-- A call of the `DataOutputStream`. -/
inductive Chunk
  | byte (n : ℤ)
  | short (n : ℤ)
  | int (n : ℤ)
  /-- `writeInt(rootWindow)` -/
  | rootWindow
  deriving DecidableEq, Repr

/-- The low `k` bytes of a number, the highest first. -/
def beBytes (k : ℕ) (n : ℤ) : List UInt8 := (leBytes k (n % 256 ^ k).toNat).reverse

def Chunk.bytes (rootWindow : ℕ) : Chunk → List UInt8
  | .byte n => beBytes 1 n
  | .short n => beBytes 2 n
  | .int n => beBytes 4 n
  | .rootWindow => beBytes 4 rootWindow

/-- The arguments of `inject`. -/
structure FakeInput where
  eventType : ℤ
  detail : ℤ
  x : ℤ
  y : ℤ
  deriving DecidableEq, Repr

inductive Request
  | setup
  | getImage (w h : ℤ)
  | fakeInput (e : FakeInput)
  deriving DecidableEq, Repr

/-- The writes of `handshake`, `getImage` and `inject`. -/
def Request.chunks : Request → List Chunk
  | .setup =>
    [.byte 0x42, .byte 0, .short 11, .short 0, .short 0, .short 0, .short 0]
  | .getImage w h =>
    [.byte 73, .byte 2, .short 5, .rootWindow, .short 0, .short 0, .short w, .short h,
      .int 0x00FFFFFF]
  | .fakeInput e =>
    [.byte 132, .byte 2, .short 9, .byte e.eventType, .byte e.detail, .short 0, .int 0,
      .rootWindow, .int 0, .int 0, .short e.x, .short e.y, .short e.x, .short e.y, .short 0,
      .byte 0, .byte 0]

/-- What the writes make if they all see one root window. -/
def render (rootWindow : ℕ) (chunks : List Chunk) : List UInt8 :=
  chunks.flatMap (Chunk.bytes rootWindow)

/-- The whole request. -/
def Request.bytes (r : Request) (rootWindow : ℕ) : List UInt8 := render rootWindow r.chunks

def Request.size : Request → ℕ
  | .setup => 12
  | .getImage _ _ => 20
  | .fakeInput _ => 36

inductive Thread
  | net
  | ui
  deriving DecidableEq, Repr

/-- The thread that makes such requests. -/
def Request.thread : Request → Thread
  | .setup => .net
  | .getImage _ _ => .net
  | .fakeInput _ => .ui

/-! ### The calls of the UI thread -/

def evKeyPress : ℤ := 2
def evKeyRelease : ℤ := 3
def evButtonPress : ℤ := 4
def evButtonRelease : ℤ := 5
def evMotion : ℤ := 6

inductive Call
  | sendPointer (x y button : ℤ) (pressed : Option Bool)
  | sendButton (button : ℤ) (pressed : Bool)
  | sendKey (keycode : ℤ) (pressed : Bool)
  deriving DecidableEq, Repr

/-- The injections a call makes. -/
def Call.injects : Call → List FakeInput
  | .sendPointer x y button pressed =>
    ⟨evMotion, 0, x, y⟩ ::
      match pressed with
      | none => []
      | some p => [⟨if p then evButtonPress else evButtonRelease, button, x, y⟩]
  | .sendButton button pressed =>
    [⟨if pressed then evButtonPress else evButtonRelease, button, 0, 0⟩]
  | .sendKey keycode pressed =>
    [⟨if pressed then evKeyPress else evKeyRelease, keycode, 0, 0⟩]

/-! ### State -/

/-- A connection: its socket, and the output stream on it. -/
structure Conn where
  /-- what its setup reply says -/
  root : ℕ
  width : ℕ
  height : ℕ
  /-- the bytes in the `BufferedOutputStream` -/
  buffer : List UInt8 := []
  /-- the bytes written to the socket -/
  written : List UInt8 := []
  /-- nothing more can be written to the socket -/
  closed : Bool := false
  /-- the requests that were flushed -/
  sent : List Request := []

/-- A thread in a `synchronized(writeLock)` block. -/
structure Writing where
  /-- the connection of its `out` -/
  out : ℕ
  request : Request
  /-- the writes it has still to make, before `flush` -/
  rest : List Chunk
  /-- the root window it has read -/
  root : Option ℕ
  deriving DecidableEq, Repr

def Writing.start (out : ℕ) (r : Request) : Writing := ⟨out, r, r.chunks, none⟩

/-- The statements of `closeQuietly`. -/
inductive Closing
  | closeSocket
  | dropSocket
  | dropInput
  | dropOutput
  deriving DecidableEq, Repr

/-- Where the network thread is; with the connection of its local variables. -/
inductive NetPc
  /-- not in `connect` -/
  | idle
  /-- before `socket = sock`, `input = ..`, `output = ..` and `running.set(true)` -/
  | setSocket (k : ℕ)
  | setInput (k : ℕ)
  | setOutput (k : ℕ)
  | setRunning (k : ℕ)
  /-- before `output!!` and `input!!` of `handshake` -/
  | handshake (k : ℕ)
  | setupReady (out inp : ℕ)
  | setup (w : Writing) (inp : ℕ)
  | awaitingReply (inp : ℕ)
  /-- before `running.get()` of `frameLoop` -/
  | frameLoop (k : ℕ)
  /-- before `output!!` and `input!!` of `getImage` -/
  | getImage (k : ℕ)
  | imageReady (k out inp : ℕ)
  | image (k : ℕ) (w : Writing) (inp : ℕ)
  | awaitingImage (k inp : ℕ)
  | closing (c : Closing)
  deriving DecidableEq, Repr

/-- Where the UI thread is. -/
inductive UiPc
  | idle
  /-- before `output ?: return` of `inject` -/
  | getOutput (e : FakeInput)
  | injectReady (e : FakeInput) (out : ℕ)
  | inject (w : Writing)
  | closing (c : Closing)
  deriving DecidableEq, Repr

structure State where
  conns : ℕ → Conn := fun _ => ⟨0, 0, 0, [], [], true, []⟩
  /-- the connections so far -/
  count : ℕ := 0
  socket : Option ℕ := none
  input : Option ℕ := none
  output : Option ℕ := none
  running : Bool := false
  rootWindow : ℕ := 0
  screenWidth : ℕ := 0
  screenHeight : ℕ := 0
  /-- the holder of `writeLock` -/
  writeLock : Option Thread := none
  net : NetPc := .idle
  ui : UiPc := .idle
  /-- the injections the current call has still to make -/
  todo : List FakeInput := []
  /-- the requests each thread has set out to make -/
  issued : Thread → List Request := fun _ => []

/-! ### Steps that both threads take -/

def State.setConn (s : State) (k : ℕ) (c : Conn) : State :=
  { s with conns := Function.update s.conns k c }

def State.issue (s : State) (r : Request) : State :=
  { s with issued := Function.update s.issued r.thread (s.issued r.thread ++ [r]) }

/-- A write goes to the buffer. -/
def State.put (s : State) (w : Writing) (c : Chunk) : State :=
  s.setConn w.out { s.conns w.out with
    buffer := (s.conns w.out).buffer ++ c.bytes s.rootWindow }

/-- After that write. -/
def Writing.next (w : Writing) (rootWindow : ℕ) (c : Chunk) (rest : List Chunk) : Writing :=
  { w with rest := rest, root := if c = .rootWindow then some rootWindow else w.root }

/-- `flush` of a whole request. -/
def State.flush (s : State) (w : Writing) : State :=
  s.setConn w.out { s.conns w.out with
    buffer := []
    written := (s.conns w.out).written ++ (s.conns w.out).buffer
    sent := (s.conns w.out).sent ++ [w.request] }

/-- `flush` throws: the connection is no more. -/
def State.breaks (s : State) (k : ℕ) : State :=
  s.setConn k { s.conns k with closed := true }

/-- A statement of `closeQuietly`; `none` after the last. -/
def State.close (s : State) : Closing → State × Option Closing
  | .closeSocket =>
    (match s.socket with
      | some k => s.breaks k
      | none => s, some .dropSocket)
  | .dropSocket => ({ s with socket := none }, some .dropInput)
  | .dropInput => ({ s with input := none }, some .dropOutput)
  | .dropOutput => ({ s with output := none }, none)

/-! ### The network thread -/

/-- What the network does in a step. -/
inductive NetEnv
  | ok
  /-- an `IOException` -/
  | fails
  /-- the reply was parsed, and then refused -/
  | refused
  deriving DecidableEq, Repr

/-- To the `finally` of `connect`. -/
def State.throws (s : State) : State := { s with net := .closing .closeSocket }

/-- `parseSetup`. -/
def State.parseSetup (s : State) (inp : ℕ) : State :=
  { s with
    rootWindow := (s.conns inp).root
    screenWidth := (s.conns inp).width
    screenHeight := (s.conns inp).height }

def netStep (s : State) (env : NetEnv) : Option State :=
  match s.net with
  | .idle => none
  | .setSocket k => some { s with socket := some k, net := .setInput k }
  | .setInput k =>
    if (s.conns k).closed then some s.throws
    else some { s with input := some k, net := .setOutput k }
  | .setOutput k =>
    if (s.conns k).closed then some s.throws
    else some { s with output := some k, net := .setRunning k }
  | .setRunning k => some { s with running := true, net := .handshake k }
  | .handshake _ =>
    match s.output, s.input with
    | some out, some inp => some { s.issue .setup with net := .setupReady out inp }
    | _, _ => some s.throws
  | .setupReady out inp =>
    if s.writeLock = none then
      some { s with writeLock := some .net, net := .setup (.start out .setup) inp }
    else none
  | .setup w inp =>
    match w.rest with
    | c :: rest => some { s.put w c with net := .setup (w.next s.rootWindow c rest) inp }
    | [] =>
      if env = .fails ∨ (s.conns w.out).closed = true then
        some { (s.breaks w.out).throws with writeLock := none }
      else some { s.flush w with writeLock := none, net := .awaitingReply inp }
  | .awaitingReply inp =>
    match env with
    | .ok => some { s.parseSetup inp with net := .frameLoop inp }
    | .refused => some (s.parseSetup inp).throws
    | .fails => some s.throws
  | .frameLoop k => if s.running then some { s with net := .getImage k } else some s.throws
  | .getImage k =>
    match s.output, s.input with
    | some out, some inp =>
      some { s.issue (.getImage s.screenWidth s.screenHeight) with net := .imageReady k out inp }
    | _, _ => some s.throws
  | .imageReady k out inp =>
    if s.writeLock = none then
      some { s with
        writeLock := some .net
        net := .image k (.start out (.getImage s.screenWidth s.screenHeight)) inp }
    else none
  | .image k w inp =>
    match w.rest with
    | c :: rest => some { s.put w c with net := .image k (w.next s.rootWindow c rest) inp }
    | [] =>
      if env = .fails ∨ (s.conns w.out).closed = true then
        some { (s.breaks w.out).throws with writeLock := none }
      else some { s.flush w with writeLock := none, net := .awaitingImage k inp }
  | .awaitingImage k _ =>
    if env = .ok then some { s with net := .frameLoop k } else some s.throws
  | .closing c =>
    match s.close c with
    | (s, some c) => some { s with net := .closing c }
    | (s, none) => some { s with net := .idle }

/-! ### The UI thread -/

def uiStep (s : State) (fails : Bool) : Option State :=
  match s.ui with
  | .idle =>
    match s.todo with
    | [] => none
    | e :: es =>
      some { s.issue (.fakeInput e) with
        todo := es, ui := if s.running then .getOutput e else .idle }
  | .getOutput e =>
    match s.output with
    | none => some { s with ui := .idle }
    | some out => some { s with ui := .injectReady e out }
  | .injectReady e out =>
    if s.writeLock = none then
      some { s with writeLock := some .ui, ui := .inject (.start out (.fakeInput e)) }
    else none
  | .inject w =>
    match w.rest with
    | c :: rest => some { s.put w c with ui := .inject (w.next s.rootWindow c rest) }
    | [] =>
      if fails = true ∨ (s.conns w.out).closed = true then
        some { s.breaks w.out with writeLock := none, ui := .idle }
      else some { s.flush w with writeLock := none, ui := .idle }
  | .closing c =>
    match s.close c with
    | (s, some c) => some { s with ui := .closing c }
    | (s, none) => some { s with ui := .idle }

/-! ### Runs -/

inductive Act
  /-- `connect` is called and the socket connects to a server -/
  | connect (root width height : ℕ)
  /-- `connect` is called and the socket does not connect -/
  | connectFails
  | net (env : NetEnv)
  | send (c : Call)
  | disconnect
  | ui (fails : Bool)
  deriving DecidableEq, Repr

def step (s : State) : Act → Option State
  | .connect root width height =>
    if s.net = .idle then
      some { s.setConn s.count ⟨root, width, height, [], [], false, []⟩ with
        count := s.count + 1, net := .setSocket s.count }
    else none
  | .connectFails => if s.net = .idle then some s.throws else none
  | .net env => netStep s env
  | .send c => if s.ui = .idle ∧ s.todo = [] then some { s with todo := c.injects } else none
  | .disconnect =>
    if s.ui = .idle ∧ s.todo = [] then
      some { s with running := false, ui := .closing .closeSocket }
    else none
  | .ui fails => uiStep s fails

/-! ### Small facts -/

@[simp] theorem render_nil (root : ℕ) : render root [] = [] := rfl

theorem render_cons (root : ℕ) (c : Chunk) (cs : List Chunk) :
    render root (c :: cs) = c.bytes root ++ render root cs := List.flatMap_cons

theorem Chunk.bytes_congr {c : Chunk} (h : c ≠ .rootWindow) (root root' : ℕ) :
    c.bytes root = c.bytes root' := by
  cases c with
  | rootWindow => exact absurd rfl h
  | _ => rfl

/-- Writes that do not read the root window. -/
theorem render_congr {cs : List Chunk} (h : .rootWindow ∉ cs) (root root' : ℕ) :
    render root cs = render root' cs := by
  induction cs with
  | nil => rfl
  | cons c cs ih =>
    rw [List.mem_cons, not_or] at h
    rw [render_cons, render_cons, ih h.2, Chunk.bytes_congr (Ne.symm h.1) root root']

/-- A request reads the root window at most once. -/
theorem Request.count_rootWindow (r : Request) : r.chunks.count .rootWindow ≤ 1 := by
  cases r with
  | setup => simp [chunks]
  | getImage w h => simp [chunks]
  | fakeInput e => simp [chunks]

@[simp] theorem State.setConn_same (s : State) (k : ℕ) (c : Conn) :
    (s.setConn k c).conns k = c := Function.update_self ..

theorem State.setConn_ne (s : State) {k j : ℕ} (h : j ≠ k) (c : Conn) :
    (s.setConn k c).conns j = s.conns j := Function.update_of_ne h ..

end X11Client
