/-
What is on the wire of a connection.

`output` and `running` are set before the setup request is written and the root window
parsed, so the other thread may write first, or with the root window of another server.

* `WellFormed` — the setup request, then whole requests with the reply's root window;
* `InvStream` — the lock, the buffers and the streams, over both threads;
* `request_stream_well_formed` — the runs in which every stream is well formed.
-/
import KaliGui.X11Client.Session
import Mathlib.Data.List.Basic

namespace X11Client

open Machine

/-! ### Well-formed streams -/

/-- The setup request comes first, and once. -/
def SetupFirst (rs : List Request) : Prop := rs = [] ∨ ∃ tl, rs = .setup :: tl ∧ .setup ∉ tl

/-- The bytes on the wire of a connection: whole requests, the setup request first, each with
the root window of the setup reply, and those of each thread in the order in which it set
out to make them. -/
def WellFormed (s : State) (k : ℕ) : Prop :=
  ∃ rs : List Request,
    (s.conns k).written = rs.flatMap (fun r => r.bytes (s.conns k).root) ∧
      SetupFirst rs ∧ ∀ t, (rs.filter fun r => r.thread == t).Sublist (s.issued t)

/-- The UI thread writes to an open socket only after the setup request, and reads the root
window only while it is the one of that connection's reply. -/
def SendsInSession (s : State) : Act → Prop
  | .ui _ =>
    match s.ui with
    | .injectReady _ out => (s.conns out).closed = true ∨ (s.conns out).written ≠ []
    | .inject w => w.rest.head? = some .rootWindow →
        (s.conns w.out).closed = true ∨ s.rootWindow = (s.conns w.out).root
    | _ => True
  | _ => True

instance SendsInSession.decidable (s : State) : DecidablePred (SendsInSession s)
  | .ui _ => by
    unfold SendsInSession
    cases s.ui <;> exact inferInstance
  | .net _ | .connect _ _ _ | .connectFails | .send _ | .disconnect =>
    inferInstanceAs (Decidable True)

/-! ### What each part of the state holds -/

/-- A request half written: with what is still to be written it will be whole. -/
structure WritingOk (conns : ℕ → Conn) (w : Writing) : Prop where
  buffer : (conns w.out).closed = false → ∀ root,
    (conns w.out).buffer ++ render root w.rest = w.request.bytes (w.root.getD root)
  once : w.rest.count .rootWindow ≤ 1
  read : w.root.isSome = true → .rootWindow ∉ w.rest

/-- Who holds the lock is writing, and nobody else. -/
structure Writers (conns : ℕ → Conn) (count : ℕ) (lock : Option Thread)
    (writing : Thread → Option Writing) : Prop where
  holder : ∀ t, lock = some t ↔ (writing t).isSome = true
  ok : ∀ t w, writing t = some w → WritingOk conns w ∧ w.out < count
  buffers : ∀ k, (conns k).closed = false → (∀ t w, writing t = some w → w.out ≠ k) →
    (conns k).buffer = []

/-- The streams are made of the requests that were flushed. -/
structure Streams (conns : ℕ → Conn) : Prop where
  written : ∀ k, (conns k).written = (conns k).sent.flatMap (fun r => r.bytes (conns k).root)
  first : ∀ k, SetupFirst (conns k).sent

/-- A thread's requests were flushed in its order; `current` is what it is making. -/
def Ordered (conns : ℕ → Conn) (t : Thread) (issued current : List Request) : Prop :=
  ∃ before, issued = before ++ current ∧
    ∀ k, ((conns k).sent.filter fun r => r.thread == t).Sublist before

def NetPc.writing : NetPc → Option Writing
  | .setup w _ => some w
  | .image _ w _ => some w
  | _ => none

def UiPc.writing : UiPc → Option Writing
  | .inject w => some w
  | _ => none

def State.writing (s : State) : Thread → Option Writing
  | .net => s.net.writing
  | .ui => s.ui.writing

/-- What a thread has set out to make and not finished. -/
def State.current (s : State) : Thread → List Request
  | .net =>
    match s.net with
    | .setupReady _ _ => [.setup]
    | .setup w _ => [w.request]
    | .imageReady _ _ _ => [.getImage s.screenWidth s.screenHeight]
    | .image _ w _ => [w.request]
    | _ => []
  | .ui =>
    match s.ui with
    | .getOutput e => [.fakeInput e]
    | .injectReady e _ => [.fakeInput e]
    | .inject w => [w.request]
    | _ => []

/-! ### The writers -/

section

variable {conns : ℕ → Conn} {count : ℕ} {lock : Option Thread} {writing : Thread → Option Writing}
  {t : Thread} {w : Writing}

theorem Writers.none_of_free (h : Writers conns count none writing) (t : Thread) :
    writing t = none := by
  rw [← Option.not_isSome_iff_eq_none, ← h.holder t]
  simp

/-- Only the holder of the lock writes. -/
theorem Writers.eq_of_writing (h : Writers conns count lock writing) {t' : Thread} {w' : Writing}
    (ht : writing t = some w) (ht' : writing t' = some w') : t = t' := by
  have hlock := (h.holder t).mpr (by rw [ht]; rfl)
  have hlock' := (h.holder t').mpr (by rw [ht']; rfl)
  exact Option.some_inj.mp (hlock.symm.trans hlock')

/-- A thread takes the lock. -/
theorem Writers.take (h : Writers conns count none writing) (t : Thread) {out : ℕ}
    (hout : out < count) (r : Request) :
    Writers conns count (some t) (Function.update writing t (some (.start out r))) where
  holder t' := by
    by_cases ht : t' = t
    · rw [ht, Function.update_self]
      simp
    · rw [Function.update_of_ne ht, h.none_of_free t']
      simpa using Ne.symm ht
  ok t' w hw := by
    by_cases ht : t' = t
    · rw [ht, Function.update_self, Option.some_inj] at hw
      subst hw
      refine ⟨⟨fun hopen root => ?_, r.count_rootWindow, fun h => ?_⟩, hout⟩
      swap
      · simp [Writing.start] at h
      have hempty := h.buffers out hopen fun t w hw => by simp [h.none_of_free t] at hw
      show (conns out).buffer ++ render root r.chunks = r.bytes root
      rw [hempty, List.nil_append]
      rfl
    · rw [Function.update_of_ne ht, h.none_of_free t'] at hw
      simp at hw
  buffers k hopen _ := h.buffers k hopen fun t w hw => by simp [h.none_of_free t] at hw

/-- A write of the holder. -/
theorem Writers.put (h : Writers conns count lock writing) (hw : writing t = some w) {c : Chunk}
    {rest : List Chunk} (hrest : w.rest = c :: rest) (rootWindow : ℕ) {conns' : ℕ → Conn}
    (hconns : conns' = Function.update conns w.out { conns w.out with
      buffer := (conns w.out).buffer ++ c.bytes rootWindow }) :
    Writers conns' count lock
      (Function.update writing t (some (w.next rootWindow c rest))) where
  holder t' := by
    rw [h.holder t']
    by_cases ht : t' = t
    · rw [ht, Function.update_self, hw]
      simp
    · rw [Function.update_of_ne ht]
  ok t' w' hw' := by
    by_cases ht : t' = t
    · rw [ht, Function.update_self, Option.some_inj] at hw'
      subst hw'
      obtain ⟨hok, hout⟩ := h.ok t w hw
      have honce := hok.once
      rw [hrest] at honce
      refine ⟨⟨fun hopen root => ?_, ?_, fun hread => ?_⟩, hout⟩
      · rw [hconns] at hopen ⊢
        rw [show (w.next rootWindow c rest).out = w.out from rfl, Function.update_self] at hopen ⊢
        have hbuffer := hok.buffer hopen
        rw [hrest] at hbuffer
        show (conns w.out).buffer ++ c.bytes rootWindow ++ render root rest =
          w.request.bytes ((w.next rootWindow c rest).root.getD root)
        by_cases hc : c = .rootWindow
        · -- the root window is read here, and the rest does not depend on it
          have hrest' : .rootWindow ∉ rest := by
            rw [hc, List.count_cons_self] at honce
            exact List.count_eq_zero.mp (by omega)
          have hroot : w.root = none := by
            by_contra hsome
            exact hok.read (Option.isSome_iff_ne_none.mpr hsome) (by rw [hrest, hc]; simp)
          have hwhole := hbuffer rootWindow
          rw [render_cons, hroot, ← List.append_assoc] at hwhole
          rw [render_congr hrest' root rootWindow, hwhole, Writing.next, if_pos hc]
          rfl
        · -- any other chunk is the same whichever root window it is written with
          have hwhole := hbuffer root
          rw [render_cons, ← List.append_assoc, Chunk.bytes_congr hc root rootWindow] at hwhole
          rw [hwhole, Writing.next, if_neg hc]
      · exact Nat.le_trans (List.Sublist.count_le (.rootWindow : Chunk)
          (List.sublist_cons_self c rest)) honce
      · show .rootWindow ∉ rest
        by_cases hc : c = .rootWindow
        · rw [hc, List.count_cons_self] at honce
          exact List.count_eq_zero.mp (by omega)
        · have hread' : w.root.isSome = true := by
            rw [Writing.next, if_neg hc] at hread
            exact hread
          have hnot := hok.read hread'
          rw [hrest, List.mem_cons, not_or] at hnot
          exact hnot.2
    · rw [Function.update_of_ne ht] at hw'
      exact absurd (h.eq_of_writing hw' hw) ht
  buffers k hopen hk := by
    -- nobody writes to another connection, as there is one holder only
    have hne : w.out ≠ k := hk t (w.next rootWindow c rest) (Function.update_self ..)
    rw [hconns, Function.update_of_ne (Ne.symm hne)] at hopen ⊢
    refine h.buffers k hopen fun t' w' hw' => ?_
    have ht := h.eq_of_writing hw' hw
    rw [ht, hw, Option.some_inj] at hw'
    exact hw' ▸ hne

/-- The holder is done, with its buffer flushed or the connection broken. -/
theorem Writers.done (h : Writers conns count lock writing) (hw : writing t = some w)
    {conns' : ℕ → Conn} (hsame : ∀ k, k ≠ w.out → conns' k = conns k)
    (hout : (conns' w.out).closed = false → (conns' w.out).buffer = []) :
    Writers conns' count none (Function.update writing t none) where
  holder t' := by
    by_cases ht : t' = t
    · rw [ht, Function.update_self]
      simp
    · rw [Function.update_of_ne ht]
      constructor
      · intro h
        simp at h
      · intro hsome
        obtain ⟨w', hw'⟩ := Option.isSome_iff_exists.mp hsome
        exact absurd (h.eq_of_writing hw' hw) ht
  ok t' w' hw' := by
    by_cases ht : t' = t
    · rw [ht, Function.update_self] at hw'
      simp at hw'
    · rw [Function.update_of_ne ht] at hw'
      exact absurd (h.eq_of_writing hw' hw) ht
  buffers k hopen _ := by
    by_cases hk : k = w.out
    · rw [hk] at hopen ⊢
      exact hout hopen
    · rw [hsame k hk] at hopen ⊢
      refine h.buffers k hopen fun t' w' hw' => ?_
      have ht := h.eq_of_writing hw' hw
      rw [ht, hw, Option.some_inj] at hw'
      exact hw' ▸ Ne.symm hk

/-- Connections that are closed, or opened under a new number. -/
theorem Writers.mono (h : Writers conns count lock writing) {conns' : ℕ → Conn} {count' : ℕ}
    (hcount : count ≤ count')
    (hconns : ∀ k, (conns' k).closed = false → k < count →
      (conns k).closed = false ∧ (conns' k).buffer = (conns k).buffer)
    (hnew : ∀ k, (conns' k).closed = false → ¬ k < count → (conns' k).buffer = []) :
    Writers conns' count' lock writing where
  holder := h.holder
  ok t w hw := by
    obtain ⟨hok, hout⟩ := h.ok t w hw
    refine ⟨⟨fun hopen root => ?_, hok.once, hok.read⟩, Nat.lt_of_lt_of_le hout hcount⟩
    obtain ⟨hopen', hbuffer⟩ := hconns w.out hopen hout
    rw [hbuffer]
    exact hok.buffer hopen' root
  buffers k hopen hk := by
    by_cases hlt : k < count
    · obtain ⟨hopen', hbuffer⟩ := hconns k hopen hlt
      rw [hbuffer]
      exact h.buffers k hopen' hk
    · exact hnew k hopen hlt

end

/-! ### The streams -/

/-- Nothing was flushed. -/
def Quiet (conns conns' : ℕ → Conn) : Prop :=
  ∀ k, (conns' k).root = (conns k).root ∧ (conns' k).written = (conns k).written ∧
    (conns' k).sent = (conns k).sent

theorem State.put_quiet (s : State) (w : Writing) (c : Chunk) :
    Quiet s.conns (s.put w c).conns := by
  intro k
  by_cases hk : k = w.out
  · rw [hk, State.put, setConn_same]
    exact ⟨rfl, rfl, rfl⟩
  · rw [State.put, setConn_ne _ hk]
    exact ⟨rfl, rfl, rfl⟩

theorem State.breaks_quiet (s : State) (j : ℕ) : Quiet s.conns (s.breaks j).conns := by
  intro k
  by_cases hk : k = j
  · rw [hk, State.breaks, setConn_same]
    exact ⟨rfl, rfl, rfl⟩
  · rw [State.breaks, setConn_ne _ hk]
    exact ⟨rfl, rfl, rfl⟩

theorem State.flush_same (s : State) (w : Writing) : (s.flush w).conns w.out =
    { s.conns w.out with
      buffer := []
      written := (s.conns w.out).written ++ (s.conns w.out).buffer
      sent := (s.conns w.out).sent ++ [w.request] } := State.setConn_same ..

theorem State.flush_ne (s : State) (w : Writing) {k : ℕ} (hk : k ≠ w.out) :
    (s.flush w).conns k = s.conns k := State.setConn_ne _ hk _

theorem Streams.quiet {conns conns' : ℕ → Conn} (h : Streams conns) (hq : Quiet conns conns') :
    Streams conns' where
  written k := by
    obtain ⟨hroot, hwritten, hsent⟩ := hq k
    rw [hroot, hwritten, hsent]
    exact h.written k
  first k := by
    rw [(hq k).2.2]
    exact h.first k

/-- Nothing is on the wire exactly if nothing was flushed. -/
theorem Streams.written_eq_nil {conns : ℕ → Conn} (h : Streams conns) {k : ℕ}
    (hwritten : (conns k).written ≠ []) : (conns k).sent ≠ [] := by
  intro hsent
  rw [h.written k, hsent] at hwritten
  exact hwritten rfl

/-- The setup request goes first, any other after it. -/
theorem SetupFirst.append {rs : List Request} (h : SetupFirst rs) {r : Request}
    (hr : r = .setup ∧ rs = [] ∨ r ≠ .setup ∧ rs ≠ []) : SetupFirst (rs ++ [r]) := by
  rcases hr with ⟨rfl, rfl⟩ | ⟨hr, hrs⟩
  · exact .inr ⟨[], rfl, by simp⟩
  · obtain ⟨tl, rfl, htl⟩ := h.resolve_left hrs
    refine .inr ⟨tl ++ [r], rfl, ?_⟩
    rw [List.mem_append, not_or, List.mem_singleton]
    exact ⟨htl, Ne.symm hr⟩

/-- A whole request is flushed. -/
theorem Streams.flush {s : State} (h : Streams s.conns) {w : Writing} (hok : WritingOk s.conns w)
    (hopen : (s.conns w.out).closed = false) (hrest : w.rest = [])
    (hroot : ∀ r ∈ w.root, r = (s.conns w.out).root)
    (hfirst : w.request = .setup ∧ (s.conns w.out).sent = [] ∨
      w.request ≠ .setup ∧ (s.conns w.out).sent ≠ []) : Streams (s.flush w).conns where
  written k := by
    by_cases hk : k = w.out
    · have hbuffer := hok.buffer hopen (s.conns w.out).root
      rw [hrest, render_nil, List.append_nil] at hbuffer
      have hread : w.root.getD (s.conns w.out).root = (s.conns w.out).root := by
        rcases hr : w.root with _ | r
        · rfl
        · exact hroot r hr
      rw [hread] at hbuffer
      rw [hk, State.flush_same]
      show (s.conns w.out).written ++ (s.conns w.out).buffer =
        ((s.conns w.out).sent ++ [w.request]).flatMap fun r => r.bytes (s.conns w.out).root
      rw [List.flatMap_append, ← h.written, hbuffer, List.flatMap_singleton]
    · rw [State.flush_ne _ _ hk]
      exact h.written k
  first k := by
    by_cases hk : k = w.out
    · rw [hk, State.flush_same]
      exact (h.first w.out).append hfirst
    · rw [State.flush_ne _ _ hk]
      exact h.first k

/-! ### The order -/

section

variable {conns conns' : ℕ → Conn} {t : Thread} {issued current : List Request} {r : Request}

theorem Ordered.quiet (h : Ordered conns t issued current) (hq : Quiet conns conns') :
    Ordered conns' t issued current := by
  obtain ⟨before, hissued, hsub⟩ := h
  refine ⟨before, hissued, fun k => ?_⟩
  rw [(hq k).2.2]
  exact hsub k

/-- What a thread was making is given up. -/
theorem Ordered.drop (h : Ordered conns t issued current) : Ordered conns t issued [] := by
  obtain ⟨before, rfl, hsub⟩ := h
  exact ⟨before ++ current, by simp, fun k =>
    (hsub k).trans (List.sublist_append_left before current)⟩

theorem State.issue_of_ne (s : State) (h : t ≠ r.thread) : (s.issue r).issued t = s.issued t :=
  Function.update_of_ne h _ _

theorem Ordered.issue (h : Ordered conns t issued []) (r : Request) :
    Ordered conns t (issued ++ [r]) [r] := by
  obtain ⟨before, rfl, hsub⟩ := h
  exact ⟨before, by simp, hsub⟩

theorem Ordered.sublist (h : Ordered conns t issued current) (k : ℕ) :
    ((conns k).sent.filter fun r => r.thread == t).Sublist issued := by
  obtain ⟨before, rfl, hsub⟩ := h
  exact (hsub k).trans (List.sublist_append_left before current)

/-- A flush finishes what its thread was making, and is nothing to the other. -/
theorem Ordered.flush {s : State} {w : Writing} (h : Ordered s.conns t issued current)
    (hw : w.request.thread = t → current = [w.request]) :
    Ordered (s.flush w).conns t issued (if w.request.thread = t then [] else current) := by
  obtain ⟨before, rfl, hsub⟩ := h
  by_cases ht : w.request.thread = t
  · rw [if_pos ht, hw ht]
    refine ⟨before ++ [w.request], by simp, fun k => ?_⟩
    by_cases hk : k = w.out
    · rw [hk, State.flush_same, List.filter_append, List.filter_cons_of_pos (by simpa using ht),
        List.filter_nil]
      exact (hsub w.out).append (List.Sublist.refl _)
    · rw [State.flush_ne _ _ hk]
      exact (hsub k).trans (List.sublist_append_left before [w.request])
  · rw [if_neg ht]
    refine ⟨before, rfl, fun k => ?_⟩
    by_cases hk : k = w.out
    · rw [hk, State.flush_same, List.filter_append, List.filter_cons_of_neg (by simpa using ht),
        List.filter_nil, List.append_nil]
      exact hsub w.out
    · rw [State.flush_ne _ _ hk]
      exact hsub k

end

/-! ### Where the threads are -/

/-- The session of the network thread is with `k`. -/
structure Session (s : State) (k : ℕ) : Prop where
  output : ∀ j ∈ s.output, j = k
  input : ∀ j ∈ s.input, j = k
  lt : k < s.count

/-- Before the setup request. -/
structure Fresh (s : State) (k : ℕ) : Prop extends Session s k where
  sent : (s.conns k).sent = []

/-- After it. -/
structure Greeted (s : State) (k : ℕ) : Prop extends Session s k where
  sent : (s.conns k).sent ≠ []

/-- After its reply. -/
structure Parsed (s : State) (k : ℕ) : Prop extends Greeted s k where
  root : s.rootWindow = (s.conns k).root

/-- What holds where the network thread is. -/
def State.Placed (s : State) : Prop :=
  match s.net with
  | .idle => s.output = none ∧ s.input = none
  | .setSocket k | .setInput k | .setOutput k | .setRunning k | .handshake k => Fresh s k
  | .setupReady out inp => out = inp ∧ Fresh s inp
  | .setup w inp => w.out = inp ∧ w.request = .setup ∧ w.root = none ∧
      .rootWindow ∉ w.rest ∧ Fresh s inp
  | .awaitingReply inp => Greeted s inp
  | .frameLoop k | .getImage k | .awaitingImage k _ => Parsed s k
  | .imageReady k out _ => out = k ∧ Parsed s k
  | .image k w _ => w.out = k ∧ w.request.thread = .net ∧ w.request ≠ .setup ∧
      (∀ r ∈ w.root, r = (s.conns k).root) ∧ Parsed s k
  | .closing .dropOutput => s.input = none
  | .closing _ => True

/-- What holds where the UI thread is: what it writes to an open socket has its place there. -/
def State.Sending (s : State) : Prop :=
  match s.ui with
  | .injectReady _ out => out < s.count
  | .inject w => w.request.thread = .ui ∧ ((s.conns w.out).closed = true ∨
      (s.conns w.out).sent ≠ [] ∧ ∀ r ∈ w.root, r = (s.conns w.out).root)
  | _ => True

/-- The invariant of the runs that send in session. -/
structure InvStream (s : State) : Prop where
  writers : Writers s.conns s.count s.writeLock s.writing
  streams : Streams s.conns
  ordered : ∀ t, Ordered s.conns t (s.issued t) (s.current t)
  placed : s.Placed
  sending : s.Sending
  output : ∀ k ∈ s.output, k < s.count

/-! ### What the other thread leaves -/

/-- What one thread's step leaves of the connections the other uses. -/
structure Kept (conns conns' : ℕ → Conn) (count : ℕ) : Prop where
  root : ∀ k < count, (conns' k).root = (conns k).root
  closed : ∀ k < count, (conns k).closed = true → (conns' k).closed = true
  sent : ∀ k < count, (conns k).sent ≠ [] → (conns' k).sent ≠ []

theorem Kept.of_quiet {conns conns' : ℕ → Conn} {count : ℕ} (h : Quiet conns conns')
    (hclosed : ∀ k < count, (conns k).closed = true → (conns' k).closed = true) :
    Kept conns conns' count where
  root k _ := (h k).1
  closed := hclosed
  sent k _ hsent := by
    rw [(h k).2.2]
    exact hsent

theorem State.put_closed (s : State) (w : Writing) (c : Chunk) (k : ℕ) :
    ((s.put w c).conns k).closed = (s.conns k).closed := by
  by_cases hk : k = w.out
  · rw [hk, State.put, setConn_same]
  · rw [State.put, setConn_ne _ hk]

theorem State.breaks_closed (s : State) (j k : ℕ) (h : (s.conns k).closed = true) :
    ((s.breaks j).conns k).closed = true := by
  by_cases hk : k = j
  · rw [hk, State.breaks, setConn_same]
  · rw [State.breaks, setConn_ne _ hk]
    exact h

theorem Kept.refl (conns : ℕ → Conn) (count : ℕ) : Kept conns conns count :=
  .of_quiet (fun _ => ⟨rfl, rfl, rfl⟩) fun _ _ h => h

theorem Kept.put (s : State) (w : Writing) (c : Chunk) (count : ℕ) :
    Kept s.conns (s.put w c).conns count :=
  .of_quiet (s.put_quiet w c) fun k _ h => (s.put_closed w c k).trans h

theorem Kept.breaks (s : State) (j count : ℕ) : Kept s.conns (s.breaks j).conns count :=
  .of_quiet (s.breaks_quiet j) fun k _ => s.breaks_closed j k

theorem Kept.flush (s : State) (w : Writing) (count : ℕ) :
    Kept s.conns (s.flush w).conns count := by
  have hat : ∀ k, ((s.flush w).conns k).root = (s.conns k).root ∧
      ((s.flush w).conns k).closed = (s.conns k).closed ∧
      ((s.conns k).sent ≠ [] → ((s.flush w).conns k).sent ≠ []) := by
    intro k
    by_cases hk : k = w.out
    · rw [hk, State.flush_same]
      exact ⟨rfl, rfl, fun _ => by simp⟩
    · rw [State.flush_ne _ _ hk]
      exact ⟨rfl, rfl, fun h => h⟩
  exact ⟨fun k _ => (hat k).1, fun k _ h => (hat k).2.1.trans h, fun k _ => (hat k).2.2⟩

theorem State.Sending.mono {s s' : State} (h : s.Sending) (hui : s'.ui = s.ui)
    (hcount : s.count ≤ s'.count) (hkept : Kept s.conns s'.conns s.count)
    (hlt : ∀ w, s.ui.writing = some w → w.out < s.count) : s'.Sending := by
  rw [Sending] at h ⊢
  rw [hui]
  rcases hpc : s.ui with _ | e | ⟨e, out⟩ | w | c
  · trivial
  · trivial
  · rw [hpc] at h
    exact Nat.lt_of_lt_of_le h hcount
  · rw [hpc] at h hlt
    have hout := hlt w rfl
    refine ⟨h.1, h.2.imp (hkept.closed w.out hout) fun hsent => ?_⟩
    refine ⟨hkept.sent w.out hout hsent.1, fun r hr => ?_⟩
    rw [hkept.root w.out hout]
    exact hsent.2 r hr
  · trivial

/-- What a step of the UI thread leaves: it may drop the fields. -/
structure Left (s s' : State) : Prop where
  net : s'.net = s.net
  rootWindow : s'.rootWindow = s.rootWindow
  count : s'.count = s.count
  output : ∀ j ∈ s'.output, j ∈ s.output
  input : ∀ j ∈ s'.input, j ∈ s.input
  root : ∀ k, (s'.conns k).root = (s.conns k).root
  sent : ∀ k, (s'.conns k).sent = [] ↔ (s.conns k).sent = []

section

variable {s s' : State} {k : ℕ}

theorem Session.mono (h : Session s k) (hleft : Left s s') : Session s' k where
  output j hj := h.output j (hleft.output j hj)
  input j hj := h.input j (hleft.input j hj)
  lt := hleft.count ▸ h.lt

theorem Fresh.mono (h : Fresh s k) (hleft : Left s s') : Fresh s' k :=
  { h.toSession.mono hleft with sent := (hleft.sent k).mpr h.sent }

theorem Greeted.mono (h : Greeted s k) (hleft : Left s s') : Greeted s' k :=
  { h.toSession.mono hleft with sent := fun hsent => h.sent ((hleft.sent k).mp hsent) }

theorem Parsed.mono (h : Parsed s k) (hleft : Left s s') : Parsed s' k :=
  { h.toGreeted.mono hleft with
    root := by rw [hleft.rootWindow, hleft.root]; exact h.root }

theorem eq_none_of_left {o o' : Option ℕ} (h : ∀ j ∈ o', j ∈ o) (ho : o = none) : o' = none := by
  rcases o' with _ | j
  · rfl
  · have hmem := h j rfl
    rw [ho] at hmem
    simp at hmem

theorem State.Placed.mono (h : s.Placed) (hleft : Left s s') : s'.Placed := by
  rw [Placed] at h ⊢
  rw [hleft.net]
  cases hpc : s.net with
  | idle =>
    rw [hpc] at h
    exact ⟨eq_none_of_left hleft.output h.1, eq_none_of_left hleft.input h.2⟩
  | setSocket k | setInput k | setOutput k | setRunning k | handshake k =>
    rw [hpc] at h
    exact Fresh.mono h hleft
  | setupReady out inp =>
    rw [hpc] at h
    exact ⟨h.1, h.2.mono hleft⟩
  | setup w inp =>
    rw [hpc] at h
    obtain ⟨hout, hreq, hroot, hrest, hfresh⟩ := h
    exact ⟨hout, hreq, hroot, hrest, hfresh.mono hleft⟩
  | awaitingReply inp =>
    rw [hpc] at h
    exact Greeted.mono h hleft
  | frameLoop k | getImage k | awaitingImage k inp =>
    rw [hpc] at h
    exact Parsed.mono h hleft
  | imageReady k out inp =>
    rw [hpc] at h
    exact ⟨h.1, h.2.mono hleft⟩
  | image k w inp =>
    -- the request that is being written names the root it was made for
    rw [hpc] at h
    obtain ⟨hout, hthread, hreq, hroot, hparsed⟩ := h
    refine ⟨hout, hthread, hreq, fun r hr => ?_, hparsed.mono hleft⟩
    rw [hleft.root]
    exact hroot r hr
  | closing c =>
    rw [hpc] at h
    cases c with
    | dropOutput => exact eq_none_of_left hleft.input h
    | _ => trivial

end

theorem Writers.breaks {s : State} {writing : Thread → Option Writing}
    (h : Writers s.conns s.count s.writeLock writing) (j : ℕ) :
    Writers (s.breaks j).conns s.count s.writeLock writing := by
  have hopen : ∀ k, ((s.breaks j).conns k).closed = false → (s.breaks j).conns k = s.conns k := by
    intro k hk
    by_cases hkj : k = j
    · rw [hkj, State.breaks, State.setConn_same] at hk
      simp at hk
    · exact State.setConn_ne s hkj _
  refine h.mono (Nat.le_refl _) (fun k hk _ => ?_) fun k hk hlt => ?_
  · have hsame := hopen k hk
    rw [hsame] at hk ⊢
    exact ⟨hk, rfl⟩
  · have hsame := hopen k hk
    rw [hsame] at hk ⊢
    exact h.buffers k hk fun t w hw hout => hlt (hout ▸ (h.ok t w hw).2)

/-! ### The network thread -/

section

variable {s s' : State}

theorem State.writing_of_ui (hui : s'.ui = s.ui) :
    s'.writing = Function.update s.writing .net s'.net.writing := by
  funext t
  cases t with
  | net => rw [Function.update_self]; rfl
  | ui =>
    rw [Function.update_of_ne (by decide)]
    show s'.ui.writing = s.ui.writing
    rw [hui]

theorem State.writing_of_net (hnet : s'.net = s.net) :
    s'.writing = Function.update s.writing .ui s'.ui.writing := by
  funext t
  cases t with
  | ui => rw [Function.update_self]; rfl
  | net =>
    rw [Function.update_of_ne (by decide)]
    show s'.net.writing = s.net.writing
    rw [hnet]

/-- A step of the network thread. -/
theorem InvStream.of_net (h : InvStream s) (hui : s'.ui = s.ui) (hcount : s.count ≤ s'.count)
    (hkept : Kept s.conns s'.conns s.count)
    (hwriters : Writers s'.conns s'.count s'.writeLock
      (Function.update s.writing .net s'.net.writing))
    (hstreams : Streams s'.conns)
    (hnet : Ordered s'.conns .net (s'.issued .net) (s'.current .net))
    (hord : Ordered s'.conns .ui (s'.issued .ui) (s.current .ui))
    (hplaced : s'.Placed) (houtput : ∀ k ∈ s'.output, k < s'.count) : InvStream s' where
  writers := by
    rw [State.writing_of_ui hui]
    exact hwriters
  streams := hstreams
  ordered t := by
    cases t with
    | net => exact hnet
    | ui =>
      have hcurrent : s'.current .ui = s.current .ui := by
        simp only [State.current]
        rw [hui]
      rw [hcurrent]
      exact hord
  placed := hplaced
  sending := h.sending.mono hui hcount hkept fun w hw => (h.writers.ok .ui w hw).2
  output := houtput

/-- A step of the network thread that touches no connection and not the lock. -/
theorem InvStream.net_move (h : InvStream s) (hconns : s'.conns = s.conns)
    (hcount : s'.count = s.count) (hlock : s'.writeLock = s.writeLock) (hui : s'.ui = s.ui)
    (hissued : s'.issued .ui = s.issued .ui) (hwriting : s'.net.writing = s.net.writing)
    (hnet : Ordered s.conns .net (s'.issued .net) (s'.current .net))
    (hplaced : s'.Placed) (houtput : ∀ k ∈ s'.output, k < s.count) : InvStream s' := by
  have hsame : Function.update s.writing .net s'.net.writing = s.writing := by
    rw [hwriting]
    exact Function.update_eq_self .net s.writing
  refine h.of_net hui (by omega) ?_ ?_ ?_ ?_ ?_ hplaced ?_
  · rw [hconns]
    exact .refl _ _
  · rw [hconns, hcount, hlock, hsame]
    exact h.writers
  · rw [hconns]
    exact h.streams
  · rw [hconns]
    exact hnet
  · rw [hconns, hissued]
    exact h.ordered .ui
  · rw [hcount]
    exact houtput

/-- To the `finally` from where no request is being written. -/
theorem InvStream.throws (h : InvStream s) (hwriting : s.net.writing = none) :
    InvStream s.throws :=
  h.net_move rfl rfl rfl rfl rfl hwriting.symm (h.ordered .net).drop trivial h.output

/-- The lock is taken, for the request the thread has set out to make. -/
theorem InvStream.net_take (h : InvStream s) (hlock : s.writeLock = none) {pc : NetPc} {out : ℕ}
    {r : Request} (hout : out < s.count) (hpc : pc.writing = some (.start out r))
    (hcurrent : s.current .net = [r])
    (hcurrent' : State.current { s with writeLock := some .net, net := pc } .net = [r])
    (hplaced : State.Placed { s with writeLock := some .net, net := pc }) :
    InvStream { s with writeLock := some .net, net := pc } := by
  have hwriters := h.writers
  rw [hlock] at hwriters
  have hord := h.ordered .net
  rw [hcurrent] at hord
  refine h.of_net rfl (Nat.le_refl _) (.refl _ _) ?_ h.streams ?_ (h.ordered .ui) hplaced h.output
  · show Writers s.conns s.count (some .net) (Function.update s.writing .net pc.writing)
    rw [hpc]
    exact hwriters.take .net hout r
  · rw [hcurrent']
    exact hord

/-- One of the writes. -/
theorem InvStream.net_put (h : InvStream s) {w : Writing} {c : Chunk} {rest : List Chunk}
    (hw : s.net.writing = some w) (hrest : w.rest = c :: rest) {pc : NetPc}
    (hpc : pc.writing = some (w.next s.rootWindow c rest))
    (hcurrent : State.current { s.put w c with net := pc } .net = s.current .net)
    (hplaced : State.Placed { s.put w c with net := pc }) :
    InvStream { s.put w c with net := pc } := by
  refine h.of_net rfl (Nat.le_refl _) (.put s w c s.count) ?_ (h.streams.quiet (s.put_quiet w c))
    ?_ ((h.ordered .ui).quiet (s.put_quiet w c)) hplaced h.output
  · show Writers (s.put w c).conns s.count s.writeLock
      (Function.update s.writing .net pc.writing)
    rw [hpc]
    exact h.writers.put (t := .net) hw hrest s.rootWindow rfl
  · rw [hcurrent]
    exact (h.ordered .net).quiet (s.put_quiet w c)

/-- `flush` throws. -/
theorem InvStream.net_breaks (h : InvStream s) {w : Writing} (hw : s.net.writing = some w) :
    InvStream { (s.breaks w.out).throws with writeLock := none } := by
  refine h.of_net rfl (Nat.le_refl _) (.breaks s w.out s.count) ?_
    (h.streams.quiet (s.breaks_quiet w.out)) ((h.ordered .net).drop.quiet (s.breaks_quiet w.out))
    ((h.ordered .ui).quiet (s.breaks_quiet w.out)) trivial h.output
  refine h.writers.done (t := .net) hw (fun k hk => State.setConn_ne s hk _) fun hopen => ?_
  have hclosed : ((s.breaks w.out).conns w.out).closed = true := by
    rw [State.breaks, State.setConn_same]
  exact absurd (hclosed.symm.trans hopen) (by decide)

/-- `flush` of a request that has its place. -/
theorem InvStream.net_flush (h : InvStream s) {w : Writing} (hw : s.net.writing = some w)
    (hrest : w.rest = []) (hopen : (s.conns w.out).closed = false)
    (hroot : ∀ r ∈ w.root, r = (s.conns w.out).root)
    (hfirst : w.request = .setup ∧ (s.conns w.out).sent = [] ∨
      w.request ≠ .setup ∧ (s.conns w.out).sent ≠ [])
    (hthread : w.request.thread = .net) (hcurrent : s.current .net = [w.request]) {pc : NetPc}
    (hpc : pc.writing = none)
    (hcurrent' : State.current { s.flush w with writeLock := none, net := pc } .net = [])
    (hplaced : State.Placed { s.flush w with writeLock := none, net := pc }) :
    InvStream { s.flush w with writeLock := none, net := pc } := by
  have hstreams := h.streams.flush (h.writers.ok .net w hw).1 hopen hrest hroot hfirst
  have hnet := (h.ordered .net).flush (w := w) fun _ => hcurrent
  have hui := (h.ordered .ui).flush (w := w) fun hui =>
    absurd (hthread.symm.trans hui) (by decide)
  rw [if_pos hthread] at hnet
  rw [if_neg (by rw [hthread]; decide)] at hui
  refine h.of_net rfl (Nat.le_refl _) (.flush s w s.count) ?_ hstreams ?_ hui hplaced h.output
  · show Writers (s.flush w).conns s.count none (Function.update s.writing .net pc.writing)
    rw [hpc]
    refine h.writers.done (t := .net) hw (fun k hk => State.flush_ne s w hk) fun _ => ?_
    rw [State.flush_same]
  · rw [hcurrent']
    exact hnet

/-- A statement of `closeQuietly` in the network thread. -/
theorem InvStream.net_close (h : InvStream s) {c : Closing} (hpc : s.net = .closing c) :
    InvStream (match s.close c with
      | (s, some c) => { s with net := .closing c }
      | (s, none) => { s with net := .idle }) := by
  have hwriting : s.net.writing = none := by rw [hpc]; rfl
  have hord := (h.ordered .net).drop
  have hplaced := h.placed
  rw [State.Placed, hpc] at hplaced
  cases c with
  | closeSocket =>
    rcases hsocket : s.socket with _ | k
    · simp only [State.close, hsocket]
      exact h.net_move rfl rfl rfl rfl rfl hwriting.symm hord trivial h.output
    · simp only [State.close, hsocket]
      have hsame : Function.update s.writing .net none = s.writing := by
        rw [← hwriting]
        exact Function.update_eq_self .net s.writing
      refine h.of_net rfl (Nat.le_refl _) (.breaks s k s.count) ?_
        (h.streams.quiet (s.breaks_quiet k)) (hord.quiet (s.breaks_quiet k))
        ((h.ordered .ui).quiet (s.breaks_quiet k)) trivial h.output
      show Writers (s.breaks k).conns s.count s.writeLock (Function.update s.writing .net none)
      rw [hsame]
      exact h.writers.breaks k
  | dropSocket => exact h.net_move rfl rfl rfl rfl rfl hwriting.symm hord trivial h.output
  | dropInput => exact h.net_move rfl rfl rfl rfl rfl hwriting.symm hord rfl h.output
  | dropOutput =>
    refine h.net_move rfl rfl rfl rfl rfl hwriting.symm hord ⟨rfl, hplaced⟩ ?_
    intro k hk
    simp [State.close] at hk

theorem Fresh.go {k : ℕ} (h : Fresh s k) (lock : Option Thread) (issued : Thread → List Request)
    (pc : NetPc) : Fresh { s with writeLock := lock, issued, net := pc } k :=
  { output := h.output, input := h.input, lt := h.lt, sent := h.sent }

theorem Parsed.go {k : ℕ} (h : Parsed s k) (lock : Option Thread)
    (issued : Thread → List Request) (pc : NetPc) :
    Parsed { s with writeLock := lock, issued, net := pc } k :=
  { output := h.output, input := h.input, lt := h.lt, sent := h.sent, root := h.root }

/-- The thread sets out to make a request. -/
theorem InvStream.net_issue (h : InvStream s) (hwriting : s.net.writing = none) {r : Request}
    (hr : r.thread = .net) {pc : NetPc} (hpc : pc.writing = none)
    (hcurrent : State.current { s.issue r with net := pc } .net = [r])
    (hplaced : State.Placed { s.issue r with net := pc }) :
    InvStream { s.issue r with net := pc } := by
  have hord := (h.ordered .net).drop
  have hui : (s.issue r).issued .ui = s.issued .ui :=
    s.issue_of_ne (by rw [hr]; decide)
  have hnet : (s.issue r).issued .net = s.issued .net ++ [r] := by
    rw [State.issue, ← hr]
    exact Function.update_self ..
  refine h.net_move rfl rfl rfl rfl hui (by rw [hwriting]; exact hpc) ?_ hplaced h.output
  rw [hcurrent]
  show Ordered s.conns .net ((s.issue r).issued .net) [r]
  rw [hnet]
  exact hord.issue r

/-- The fields are assigned one after another, to the connection that was made. -/
theorem InvStream.net_assigns (h : InvStream s) {env : NetEnv} {k : ℕ}
    (hpc : s.net = .setSocket k ∨ s.net = .setInput k ∨ s.net = .setOutput k ∨
      s.net = .setRunning k) (hstep : netStep s env = some s') : InvStream s' := by
  have hord := (h.ordered .net).drop
  have hplaced := h.placed
  have hwriting : s.net.writing = none := by
    rcases hpc with hpc | hpc | hpc | hpc <;> rw [hpc] <;> rfl
  have hfresh : Fresh s k := by
    rcases hpc with hpc | hpc | hpc | hpc <;> rw [State.Placed, hpc] at hplaced <;> exact hplaced
  rcases hpc with hpc | hpc | hpc | hpc
  · simp only [netStep, hpc, Option.some_inj] at hstep
    subst hstep
    refine h.net_move rfl rfl rfl rfl rfl hwriting.symm hord ?_ h.output
    exact { output := hfresh.output, input := hfresh.input, lt := hfresh.lt,
            sent := hfresh.sent }
  · simp only [netStep, hpc] at hstep
    split at hstep
    · cases hstep
      exact h.throws hwriting
    · cases hstep
      refine h.net_move rfl rfl rfl rfl rfl hwriting.symm hord ?_ h.output
      exact { output := hfresh.output, input := fun j hj => (Option.some_inj.mp hj).symm,
              lt := hfresh.lt, sent := hfresh.sent }
  · simp only [netStep, hpc] at hstep
    split at hstep
    · cases hstep
      exact h.throws hwriting
    · cases hstep
      refine h.net_move rfl rfl rfl rfl rfl hwriting.symm hord ?_ fun j hj => ?_
      · exact { output := fun j hj => (Option.some_inj.mp hj).symm, input := hfresh.input,
                lt := hfresh.lt, sent := hfresh.sent }
      · exact Option.some_inj.mp hj ▸ hfresh.lt
  · simp only [netStep, hpc, Option.some_inj] at hstep
    subst hstep
    refine h.net_move rfl rfl rfl rfl rfl hwriting.symm hord ?_ h.output
    exact { output := hfresh.output, input := hfresh.input, lt := hfresh.lt,
            sent := hfresh.sent }

/-- `handshake` reads the fields. -/
theorem InvStream.net_handshake (h : InvStream s) {env : NetEnv} {k : ℕ}
    (hpc : s.net = .handshake k) (hstep : netStep s env = some s') : InvStream s' := by
  have hplaced := h.placed
  have hwriting : s.net.writing = none := by rw [hpc]; rfl
  rw [State.Placed, hpc] at hplaced
  have hfresh : Fresh s k := hplaced
  simp only [netStep, hpc] at hstep
  split at hstep
  next out inp hout hinp =>
    cases hstep
    -- both fields name the new connection, as the other thread can only drop them
    obtain rfl : out = k := hfresh.output out hout
    obtain rfl : inp = out := hfresh.input inp hinp
    exact h.net_issue hwriting rfl rfl rfl ⟨rfl, hfresh.go ..⟩
  next =>
    cases hstep
    exact h.throws hwriting

/-- The lock is taken for the setup request. -/
theorem InvStream.net_setupReady (h : InvStream s) {env : NetEnv} {out inp : ℕ}
    (hpc : s.net = .setupReady out inp) (hstep : netStep s env = some s') : InvStream s' := by
  have hplaced := h.placed
  simp only [netStep, hpc] at hstep
  simp only [State.Placed, hpc] at hplaced
  obtain ⟨rfl, hfresh⟩ := hplaced
  split at hstep
  next hlock =>
    cases hstep
    refine h.net_take hlock hfresh.lt rfl (by simp only [State.current, hpc]) rfl ?_
    exact ⟨rfl, rfl, rfl, by simp [Writing.start, Request.chunks], hfresh.go ..⟩
  next => cases hstep

/-- The setup request is written and flushed: it is the first on its connection. -/
theorem InvStream.net_setup (h : InvStream s) {env : NetEnv} {w : Writing} {inp : ℕ}
    (hpc : s.net = .setup w inp) (hstep : netStep s env = some s') : InvStream s' := by
  have hplaced := h.placed
  simp only [netStep, hpc] at hstep
  simp only [State.Placed, hpc] at hplaced
  obtain ⟨rfl, hreq, hroot, hnot, hfresh⟩ := hplaced
  have hw : s.net.writing = some w := by rw [hpc]; rfl
  have hcurrent : s.current .net = [w.request] := by simp only [State.current, hpc]
  split at hstep
  next c rest hrest =>
    cases hstep
    rw [hrest, List.mem_cons, not_or] at hnot
    refine h.net_put hw hrest rfl hcurrent.symm ⟨rfl, hreq, ?_, hnot.2, ?_⟩
    · show (if c = .rootWindow then some s.rootWindow else w.root) = none
      rw [if_neg (Ne.symm hnot.1)]
      exact hroot
    · exact { output := hfresh.output, input := hfresh.input, lt := hfresh.lt,
              sent := ((s.put_quiet w c w.out).2.2).trans hfresh.sent }
  next hrest =>
    split at hstep
    · cases hstep
      exact h.net_breaks hw
    next hopen =>
      cases hstep
      have hclosed : (s.conns w.out).closed = false := by simpa using fun h => hopen (.inr h)
      refine h.net_flush hw hrest hclosed (by simp [hroot]) (.inl ⟨hreq, hfresh.sent⟩)
        (by rw [hreq]; rfl) hcurrent rfl rfl ?_
      refine { output := hfresh.output, input := hfresh.input, lt := hfresh.lt, sent := ?_ }
      show ((s.flush w).conns w.out).sent ≠ []
      rw [State.flush_same]
      simp

/-- The reply to the setup request is read. -/
theorem InvStream.net_awaitingReply (h : InvStream s) {env : NetEnv} {inp : ℕ}
    (hpc : s.net = .awaitingReply inp) (hstep : netStep s env = some s') : InvStream s' := by
  have hord := (h.ordered .net).drop
  have hplaced := h.placed
  have hwriting : s.net.writing = none := by rw [hpc]; rfl
  rw [State.Placed, hpc] at hplaced
  have hgreeted : Greeted s inp := hplaced
  simp only [netStep, hpc] at hstep
  cases env with
  | ok =>
    cases hstep
    refine h.net_move rfl rfl rfl rfl rfl hwriting.symm hord ?_ h.output
    exact { output := hgreeted.output, input := hgreeted.input, lt := hgreeted.lt,
            sent := hgreeted.sent, root := rfl }
  | refused =>
    cases hstep
    exact h.net_move rfl rfl rfl rfl rfl hwriting.symm hord trivial h.output
  | fails =>
    cases hstep
    exact h.throws hwriting

/-- The frame loop goes round. -/
theorem InvStream.net_frameLoop (h : InvStream s) {env : NetEnv} {k : ℕ}
    (hpc : s.net = .frameLoop k ∨ ∃ inp, s.net = .awaitingImage k inp)
    (hstep : netStep s env = some s') : InvStream s' := by
  have hord := (h.ordered .net).drop
  have hplaced := h.placed
  rcases hpc with hpc | ⟨inp, hpc⟩
  all_goals
    have hwriting : s.net.writing = none := by rw [hpc]; rfl
    rw [State.Placed, hpc] at hplaced
    have hparsed : Parsed s k := hplaced
    simp only [netStep, hpc] at hstep
    split at hstep
    · cases hstep
      exact h.net_move rfl rfl rfl rfl rfl hwriting.symm hord (hparsed.go ..) h.output
    · cases hstep
      exact h.throws hwriting

/-- `getImage` reads the fields. -/
theorem InvStream.net_getImage (h : InvStream s) {env : NetEnv} {k : ℕ}
    (hpc : s.net = .getImage k) (hstep : netStep s env = some s') : InvStream s' := by
  have hplaced := h.placed
  have hwriting : s.net.writing = none := by rw [hpc]; rfl
  rw [State.Placed, hpc] at hplaced
  have hparsed : Parsed s k := hplaced
  simp only [netStep, hpc] at hstep
  split at hstep
  next out inp hout hinp =>
    cases hstep
    obtain rfl : out = k := hparsed.output out hout
    exact h.net_issue hwriting rfl rfl rfl ⟨rfl, hparsed.go ..⟩
  next =>
    cases hstep
    exact h.throws hwriting

/-- The lock is taken for a request of the frame loop. -/
theorem InvStream.net_imageReady (h : InvStream s) {env : NetEnv} {k out inp : ℕ}
    (hpc : s.net = .imageReady k out inp) (hstep : netStep s env = some s') :
    InvStream s' := by
  have hplaced := h.placed
  simp only [netStep, hpc] at hstep
  simp only [State.Placed, hpc] at hplaced
  obtain ⟨rfl, hparsed⟩ := hplaced
  split at hstep
  next hlock =>
    cases hstep
    refine h.net_take hlock hparsed.lt rfl (by simp only [State.current, hpc]) rfl ?_
    exact ⟨rfl, rfl, by simp [Writing.start], by simp [Writing.start], hparsed.go ..⟩
  next => cases hstep

/-- A request of the frame loop is written and flushed, with the root of its connection. -/
theorem InvStream.net_image (h : InvStream s) {env : NetEnv} {k : ℕ} {w : Writing} {inp : ℕ}
    (hpc : s.net = .image k w inp) (hstep : netStep s env = some s') : InvStream s' := by
  have hplaced := h.placed
  simp only [netStep, hpc] at hstep
  simp only [State.Placed, hpc] at hplaced
  obtain ⟨rfl, hthread, hreq, hroot, hparsed⟩ := hplaced
  have hw : s.net.writing = some w := by rw [hpc]; rfl
  have hcurrent : s.current .net = [w.request] := by simp only [State.current, hpc]
  split at hstep
  next c rest hrest =>
    cases hstep
    obtain ⟨hsame, -, hsent⟩ := s.put_quiet w c w.out
    refine h.net_put hw hrest rfl hcurrent.symm ⟨rfl, hthread, hreq, fun r hr => ?_, ?_⟩
    · show r = ((s.put w c).conns w.out).root
      rw [hsame]
      rw [Writing.next] at hr
      split at hr
      · exact (Option.some_inj.mp hr).symm.trans hparsed.root
      · exact hroot r hr
    · exact { output := hparsed.output, input := hparsed.input, lt := hparsed.lt,
              sent := by rw [hsent]; exact hparsed.sent
              root := hparsed.root.trans hsame.symm }
  next hrest =>
    split at hstep
    · cases hstep
      exact h.net_breaks hw
    next hopen =>
      cases hstep
      have hclosed : (s.conns w.out).closed = false := by simpa using fun h => hopen (.inr h)
      have hkept := Kept.flush s w s.count
      refine h.net_flush hw hrest hclosed hroot (.inr ⟨hreq, hparsed.sent⟩) hthread hcurrent
        rfl rfl ?_
      exact { output := hparsed.output, input := hparsed.input, lt := hparsed.lt
              sent := hkept.sent w.out hparsed.lt hparsed.sent
              root := hparsed.root.trans (hkept.root w.out hparsed.lt).symm }

/-- The network thread makes its requests in session, whatever the other does. -/
theorem InvStream.net_step (h : InvStream s) {env : NetEnv} (hstep : netStep s env = some s') :
    InvStream s' := by
  cases hpc : s.net with
  | idle =>
    simp only [netStep, hpc] at hstep
    cases hstep
  | setSocket k | setInput k | setOutput k | setRunning k =>
    exact h.net_assigns (k := k) (by simp [hpc]) hstep
  | handshake k => exact h.net_handshake hpc hstep
  | setupReady out inp => exact h.net_setupReady hpc hstep
  | setup w inp => exact h.net_setup hpc hstep
  | awaitingReply inp => exact h.net_awaitingReply hpc hstep
  | frameLoop k => exact h.net_frameLoop (.inl hpc) hstep
  | getImage k => exact h.net_getImage hpc hstep
  | imageReady k out inp => exact h.net_imageReady hpc hstep
  | image k w inp => exact h.net_image hpc hstep
  | awaitingImage k inp => exact h.net_frameLoop (.inr ⟨inp, hpc⟩) hstep
  | closing c =>
    have hclose := h.net_close hpc
    simp only [netStep, hpc] at hstep
    cases c with
    | closeSocket | dropSocket | dropInput | dropOutput =>
      simp only [State.close, Option.some_inj] at hstep hclose
      subst hstep
      exact hclose

/-! ### The UI thread -/

/-- A step of the UI thread. -/
theorem InvStream.of_ui (h : InvStream s) (hleft : Left s s')
    (hwriters : Writers s'.conns s'.count s'.writeLock
      (Function.update s.writing .ui s'.ui.writing))
    (hstreams : Streams s'.conns)
    (hui : Ordered s'.conns .ui (s'.issued .ui) (s'.current .ui))
    (hord : Ordered s'.conns .net (s'.issued .net) (s.current .net))
    (hscreen : s'.screenWidth = s.screenWidth ∧ s'.screenHeight = s.screenHeight)
    (hsending : s'.Sending) : InvStream s' where
  writers := by
    rw [State.writing_of_net hleft.net]
    exact hwriters
  streams := hstreams
  ordered t := by
    cases t with
    | ui => exact hui
    | net =>
      have hcurrent : s'.current .net = s.current .net := by
        simp only [State.current]
        rw [hleft.net, hscreen.1, hscreen.2]
      rw [hcurrent]
      exact hord
  placed := h.placed.mono hleft
  sending := hsending
  output k hk := by
    rw [hleft.count]
    exact h.output k (hleft.output k hk)

/-- A step of the UI thread that touches no connection and not the lock. -/
theorem InvStream.ui_move (h : InvStream s) (hleft : Left s s') (hconns : s'.conns = s.conns)
    (hlock : s'.writeLock = s.writeLock) (hissued : s'.issued .net = s.issued .net)
    (hwriting : s'.ui.writing = s.ui.writing)
    (hscreen : s'.screenWidth = s.screenWidth ∧ s'.screenHeight = s.screenHeight)
    (hui : Ordered s.conns .ui (s'.issued .ui) (s'.current .ui))
    (hsending : s'.Sending) : InvStream s' := by
  have hsame : Function.update s.writing .ui s'.ui.writing = s.writing := by
    rw [hwriting]
    exact Function.update_eq_self .ui s.writing
  refine h.of_ui hleft ?_ ?_ ?_ ?_ hscreen hsending
  · rw [hconns, hleft.count, hlock, hsame]
    exact h.writers
  · rw [hconns]
    exact h.streams
  · rw [hconns]
    exact hui
  · rw [hconns, hissued]
    exact h.ordered .net

/-- The connections, where nothing was flushed. -/
theorem Left.of_quiet (hconns : Quiet s.conns s'.conns) (hnet : s'.net = s.net)
    (hroot : s'.rootWindow = s.rootWindow) (hcount : s'.count = s.count)
    (houtput : ∀ j ∈ s'.output, j ∈ s.output) (hinput : ∀ j ∈ s'.input, j ∈ s.input) :
    Left s s' where
  net := hnet
  rootWindow := hroot
  count := hcount
  output := houtput
  input := hinput
  root k := (hconns k).1
  sent k := by rw [(hconns k).2.2]

theorem Quiet.refl (conns : ℕ → Conn) : Quiet conns conns := fun _ => ⟨rfl, rfl, rfl⟩

/-- A statement of `closeQuietly` in the UI thread. -/
theorem InvStream.ui_close (h : InvStream s) {c : Closing} (hpc : s.ui = .closing c) :
    InvStream (match s.close c with
      | (s, some c) => { s with ui := .closing c }
      | (s, none) => { s with ui := .idle }) := by
  have hwriting : s.ui.writing = none := by rw [hpc]; rfl
  have hord := (h.ordered .ui).drop
  cases c with
  | closeSocket =>
    rcases hsocket : s.socket with _ | k
    · simp only [State.close, hsocket]
      exact h.ui_move (.of_quiet (.refl _) rfl rfl rfl (fun _ h => h) fun _ h => h) rfl rfl rfl
        hwriting.symm ⟨rfl, rfl⟩ hord trivial
    · simp only [State.close, hsocket]
      have hsame : Function.update s.writing .ui none = s.writing := by
        rw [← hwriting]
        exact Function.update_eq_self .ui s.writing
      refine h.of_ui (.of_quiet (s.breaks_quiet k) rfl rfl rfl (fun _ h => h) fun _ h => h) ?_
        (h.streams.quiet (s.breaks_quiet k)) (hord.quiet (s.breaks_quiet k))
        ((h.ordered .net).quiet (s.breaks_quiet k)) ⟨rfl, rfl⟩ trivial
      show Writers (s.breaks k).conns s.count s.writeLock (Function.update s.writing .ui none)
      rw [hsame]
      exact h.writers.breaks k
  | dropSocket =>
    exact h.ui_move (.of_quiet (.refl _) rfl rfl rfl (fun _ h => h) fun _ h => h) rfl rfl rfl
      hwriting.symm ⟨rfl, rfl⟩ hord trivial
  | dropInput =>
    refine h.ui_move (.of_quiet (.refl _) rfl rfl rfl (fun _ h => h) fun j hj => ?_) rfl rfl rfl
      hwriting.symm ⟨rfl, rfl⟩ hord trivial
    simp [State.close] at hj
  | dropOutput =>
    refine h.ui_move (.of_quiet (.refl _) rfl rfl rfl (fun j hj => ?_) fun _ h => h) rfl rfl rfl
      hwriting.symm ⟨rfl, rfl⟩ hord trivial
    simp [State.close] at hj

/-- An event is taken, and sent if the session is running. -/
theorem InvStream.ui_idle (h : InvStream s) {fails : Bool} (hpc : s.ui = .idle)
    (hstep : uiStep s fails = some s') : InvStream s' := by
  have hord := h.ordered .ui
  have hwriting : s.ui.writing = none := by rw [hpc]; rfl
  simp only [State.current, hpc] at hord
  simp only [uiStep, hpc] at hstep
  split at hstep
  · cases hstep
  next e es htodo =>
    cases hstep
    refine h.ui_move (.of_quiet (.refl _) rfl rfl rfl (fun _ h => h) fun _ h => h) rfl rfl ?_
      ?_ ⟨rfl, rfl⟩ ?_ ?_
    · exact s.issue_of_ne (r := .fakeInput e) (show Thread.net ≠ .ui by decide)
    · rw [hwriting]
      cases s.running <;> rfl
    · show Ordered s.conns .ui (Function.update s.issued .ui _ .ui) _
      rw [Function.update_self]
      cases s.running
      · exact (hord.issue (.fakeInput e)).drop
      · exact hord.issue (.fakeInput e)
    · simp only [State.Sending]
      cases s.running <;> trivial

/-- `output` is read. -/
theorem InvStream.ui_getOutput (h : InvStream s) {fails : Bool} {e : FakeInput}
    (hpc : s.ui = .getOutput e) (hstep : uiStep s fails = some s') : InvStream s' := by
  have hord := h.ordered .ui
  have hwriting : s.ui.writing = none := by rw [hpc]; rfl
  simp only [uiStep, hpc] at hstep
  split at hstep
  · cases hstep
    exact h.ui_move (.of_quiet (.refl _) rfl rfl rfl (fun _ h => h) fun _ h => h) rfl rfl rfl
      hwriting.symm ⟨rfl, rfl⟩ hord.drop trivial
  next out hout =>
    cases hstep
    simp only [State.current, hpc] at hord
    exact h.ui_move (.of_quiet (.refl _) rfl rfl rfl (fun _ h => h) fun _ h => h) rfl rfl rfl
      hwriting.symm ⟨rfl, rfl⟩ hord (h.output out hout)

/-- The lock is taken: the setup request is on the wire, or nothing will be. -/
theorem InvStream.ui_injectReady (h : InvStream s) {fails : Bool} {e : FakeInput} {out : ℕ}
    (hpc : s.ui = .injectReady e out) (hok : SendsInSession s (.ui fails))
    (hstep : uiStep s fails = some s') : InvStream s' := by
  have hord := h.ordered .ui
  have hsending := h.sending
  simp only [uiStep, hpc] at hstep
  simp only [State.Sending, hpc] at hsending
  simp only [SendsInSession, hpc] at hok
  split at hstep
  next hlock =>
    cases hstep
    have hwriters := h.writers
    rw [hlock] at hwriters
    simp only [State.current, hpc] at hord
    refine h.of_ui (.of_quiet (.refl _) rfl rfl rfl (fun _ h => h) fun _ h => h)
      (hwriters.take .ui hsending (.fakeInput e)) h.streams hord (h.ordered .net) ⟨rfl, rfl⟩ ?_
    refine ⟨rfl, hok.imp_right fun hwritten => ⟨h.streams.written_eq_nil hwritten, ?_⟩⟩
    intro r hr
    simp [Writing.start] at hr
  next => cases hstep

/-- One of the writes. -/
theorem InvStream.ui_put (h : InvStream s) {fails : Bool} {w : Writing} {c : Chunk}
    {rest : List Chunk} (hpc : s.ui = .inject w) (hok : SendsInSession s (.ui fails))
    (hrest : w.rest = c :: rest) :
    InvStream { s.put w c with ui := .inject (w.next s.rootWindow c rest) } := by
  have hord := h.ordered .ui
  have hsending := h.sending
  have hw : s.ui.writing = some w := by rw [hpc]; rfl
  have hcurrent : s.current .ui = [w.request] := by simp only [State.current, hpc]
  rw [hcurrent] at hord
  simp only [State.Sending, hpc] at hsending
  simp only [SendsInSession, hpc] at hok
  obtain ⟨hthread, hplace⟩ := hsending
  obtain ⟨hroot, -, hsent⟩ := s.put_quiet w c w.out
  refine h.of_ui (.of_quiet (s.put_quiet w c) rfl rfl rfl (fun _ h => h) fun _ h => h)
    (h.writers.put (t := .ui) hw hrest s.rootWindow rfl)
    (h.streams.quiet (s.put_quiet w c)) (hord.quiet (s.put_quiet w c))
    ((h.ordered .net).quiet (s.put_quiet w c)) ⟨rfl, rfl⟩ ⟨hthread, ?_⟩
  show ((s.put w c).conns w.out).closed = true ∨ ((s.put w c).conns w.out).sent ≠ [] ∧
    ∀ r ∈ (w.next s.rootWindow c rest).root, r = ((s.put w c).conns w.out).root
  rw [State.put_closed, hroot, hsent, Writing.next]
  by_cases hc : c = .rootWindow
  · -- the one write that reads the root window
    rw [if_pos hc]
    rcases hplace with hclosed | ⟨hne, -⟩
    · exact .inl hclosed
    · refine (hok (by rw [hrest, hc]; rfl)).imp_right fun hread => ⟨hne, fun r hr => ?_⟩
      exact (Option.some_inj.mp hr).symm.trans hread
  · rw [if_neg hc]
    exact hplace

/-- `flush` throws. -/
theorem InvStream.ui_breaks (h : InvStream s) {w : Writing} (hpc : s.ui = .inject w) :
    InvStream { s.breaks w.out with writeLock := none, ui := .idle } := by
  have hw : s.ui.writing = some w := by rw [hpc]; rfl
  refine h.of_ui (.of_quiet (s.breaks_quiet w.out) rfl rfl rfl (fun _ h => h) fun _ h => h)
    ?_ (h.streams.quiet (s.breaks_quiet w.out))
    ((h.ordered .ui).drop.quiet (s.breaks_quiet w.out))
    ((h.ordered .net).quiet (s.breaks_quiet w.out)) ⟨rfl, rfl⟩ trivial
  refine h.writers.done (t := .ui) hw (fun k hk => State.setConn_ne s hk _) fun hopen => ?_
  have hclosed : ((s.breaks w.out).conns w.out).closed = true := by
    rw [State.breaks, State.setConn_same]
  exact absurd (hclosed.symm.trans hopen) (by decide)

/-- What a flush leaves of a connection on which something was flushed before. -/
theorem Left.flush {w : Writing} (hne : (s.conns w.out).sent ≠ []) :
    Left s { s.flush w with writeLock := none, ui := .idle } where
  net := rfl
  rootWindow := rfl
  count := rfl
  output _ h := h
  input _ h := h
  root k := by
    by_cases hk : k = w.out
    · show ((s.flush w).conns k).root = _
      rw [hk, State.flush_same]
    · exact congrArg Conn.root (State.flush_ne s w hk)
  sent k := by
    show ((s.flush w).conns k).sent = [] ↔ _
    by_cases hk : k = w.out
    · rw [hk, State.flush_same]
      simp [hne]
    · rw [State.flush_ne s w hk]

/-- `flush` of an event that has its place. -/
theorem InvStream.ui_flush (h : InvStream s) {w : Writing} (hpc : s.ui = .inject w)
    (hrest : w.rest = []) (hopen : (s.conns w.out).closed = false) :
    InvStream { s.flush w with writeLock := none, ui := .idle } := by
  have hord := h.ordered .ui
  have hsending := h.sending
  have hw : s.ui.writing = some w := by rw [hpc]; rfl
  have hcurrent : s.current .ui = [w.request] := by simp only [State.current, hpc]
  rw [hcurrent] at hord
  simp only [State.Sending, hpc] at hsending
  obtain ⟨hthread, hplace⟩ := hsending
  obtain ⟨hne, hroot⟩ := hplace.resolve_left (by rw [hopen]; decide)
  have hreq : w.request ≠ .setup := by
    intro hsetup
    rw [hsetup] at hthread
    exact absurd hthread (by decide)
  have hui := hord.flush (w := w) fun _ => rfl
  have hnet := (h.ordered .net).flush (w := w) fun hnet =>
    absurd (hthread.symm.trans hnet) (by decide)
  rw [if_pos hthread] at hui
  rw [if_neg (by rw [hthread]; decide)] at hnet
  refine h.of_ui (.flush hne) ?_ (h.streams.flush (h.writers.ok .ui w hw).1 hopen hrest hroot
    (.inr ⟨hreq, hne⟩)) hui hnet ⟨rfl, rfl⟩ trivial
  refine h.writers.done (t := .ui) hw (fun k hk => State.flush_ne s w hk) fun _ => ?_
  show ((s.flush w).conns w.out).buffer = []
  rw [State.flush_same]

/-- The UI thread, where it sends in session. -/
theorem InvStream.ui_step (h : InvStream s) {fails : Bool} (hok : SendsInSession s (.ui fails))
    (hstep : uiStep s fails = some s') : InvStream s' := by
  cases hpc : s.ui with
  | idle => exact h.ui_idle hpc hstep
  | getOutput e => exact h.ui_getOutput hpc hstep
  | injectReady e out => exact h.ui_injectReady hpc hok hstep
  | inject w =>
    simp only [uiStep, hpc] at hstep
    split at hstep
    next c rest hrest =>
      cases hstep
      exact h.ui_put hpc hok hrest
    next hrest =>
      split at hstep
      · cases hstep
        exact h.ui_breaks hpc
      next hopen =>
        cases hstep
        exact h.ui_flush hpc hrest (by simpa using fun h => hopen (.inr h))
  | closing c =>
    have hclose := h.ui_close hpc
    simp only [uiStep, hpc] at hstep
    cases c with
    | closeSocket | dropSocket | dropInput | dropOutput =>
      simp only [State.close, Option.some_inj] at hstep hclose
      subst hstep
      exact hclose

end

/-! ### Runs -/

/-- A new connection, under the next number. -/
theorem InvStream.connect {s : State} (h : InvStream s) (hidle : s.net = .idle)
    (root width height : ℕ) :
    InvStream { s.setConn s.count ⟨root, width, height, [], [], false, []⟩ with
      count := s.count + 1, net := .setSocket s.count } := by
  have hplaced := h.placed
  simp only [State.Placed, hidle] at hplaced
  have hwriting : s.net.writing = none := by rw [hidle]; rfl
  have hold : ∀ k < s.count,
      (s.setConn s.count ⟨root, width, height, [], [], false, []⟩).conns k = s.conns k :=
    fun k hk => s.setConn_ne (by omega) _
  have hnew := s.setConn_same s.count ⟨root, width, height, [], [], false, []⟩
  -- nothing was flushed to the number before
  have hsent : ∀ {t issued current}, Ordered s.conns t issued current → Ordered
      (s.setConn s.count ⟨root, width, height, [], [], false, []⟩).conns t issued current := by
    rintro t issued current ⟨before, hissued, hsub⟩
    refine ⟨before, hissued, fun k => ?_⟩
    by_cases hk : k = s.count
    · rw [hk, hnew]
      exact List.nil_sublist before
    · rw [s.setConn_ne hk]
      exact hsub k
  refine h.of_net rfl (Nat.le_succ s.count) ?_ ?_ ⟨fun k => ?_, fun k => ?_⟩
    (hsent (h.ordered .net).drop) (hsent (h.ordered .ui)) ?_ ?_
  · refine ⟨fun k hk => ?_, fun k hk hclosed => ?_, fun k hk hne => ?_⟩
    · exact congrArg Conn.root (hold k hk)
    · exact (congrArg Conn.closed (hold k hk)).trans hclosed
    · show ((s.setConn s.count _).conns k).sent ≠ []
      rw [hold k hk]
      exact hne
  · show Writers (s.setConn s.count ⟨root, width, height, [], [], false, []⟩).conns (s.count + 1)
      s.writeLock (Function.update s.writing .net none)
    rw [← hwriting]
    rw [show Function.update s.writing .net s.net.writing = s.writing from
      Function.update_eq_self .net s.writing]
    refine h.writers.mono (Nat.le_succ s.count) (fun k hk hlt => ?_) fun k hk hlt => ?_
    · rw [hold k hlt] at hk ⊢
      exact ⟨hk, rfl⟩
    · by_cases hkc : k = s.count
      · rw [hkc, hnew]
      · rw [s.setConn_ne hkc] at hk ⊢
        exact h.writers.buffers k hk fun t w hw hout => hlt (hout ▸ (h.writers.ok t w hw).2)
  · by_cases hk : k = s.count
    · show ((s.setConn s.count _).conns k).written = _
      rw [hk, hnew]
      rfl
    · show ((s.setConn s.count _).conns k).written = _
      rw [s.setConn_ne hk]
      exact h.streams.written k
  · by_cases hk : k = s.count
    · show SetupFirst ((s.setConn s.count _).conns k).sent
      rw [hk, hnew]
      exact .inl rfl
    · show SetupFirst ((s.setConn s.count _).conns k).sent
      rw [s.setConn_ne hk]
      exact h.streams.first k
  · refine { output := fun j hj => ?_, input := fun j hj => ?_, lt := Nat.lt_succ_self s.count
             sent := congrArg Conn.sent hnew }
    · exact absurd (hplaced.1.symm.trans hj) (by simp)
    · exact absurd (hplaced.2.symm.trans hj) (by simp)
  · intro k hk
    exact Nat.lt_succ_of_lt (h.output k hk)

theorem InvStream.init : InvStream {} where
  writers :=
    { holder := fun t => by cases t <;> exact ⟨fun h => by simp at h, fun h => by cases h⟩
      ok := fun t w hw => by cases t <;> cases hw
      buffers := fun _ _ _ => rfl }
  streams := ⟨fun _ => rfl, fun _ => .inl rfl⟩
  ordered t := ⟨[], by cases t <;> rfl, fun _ => List.nil_sublist []⟩
  placed := ⟨rfl, rfl⟩
  sending := trivial
  output k hk := by cases hk

theorem InvStream.step {s s' : State} (h : InvStream s) {a : Act} (hok : SendsInSession s a)
    (hstep : step s a = some s') : InvStream s' := by
  cases a with
  | connect root width height =>
    simp only [X11Client.step] at hstep
    split at hstep
    next hidle =>
      cases hstep
      exact h.connect hidle root width height
    next => cases hstep
  | connectFails =>
    simp only [X11Client.step] at hstep
    split at hstep
    next hidle =>
      cases hstep
      exact h.throws (by rw [hidle]; rfl)
    next => cases hstep
  | net env => exact h.net_step hstep
  | send c =>
    -- nothing is written yet: the UI thread has only come to the lock
    simp only [X11Client.step] at hstep
    split at hstep
    next hidle =>
      cases hstep
      refine h.ui_move (.of_quiet (.refl _) rfl rfl rfl (fun _ h => h) fun _ h => h) rfl rfl rfl
        rfl ⟨rfl, rfl⟩ (h.ordered .ui) ?_
      simp only [State.Sending, hidle.1]
    next => cases hstep
  | disconnect =>
    simp only [X11Client.step] at hstep
    split at hstep
    next hidle =>
      cases hstep
      exact h.ui_move (.of_quiet (.refl _) rfl rfl rfl (fun _ h => h) fun _ h => h) rfl rfl rfl
        (by rw [hidle.1]; rfl) ⟨rfl, rfl⟩ (h.ordered .ui).drop trivial
    next => cases hstep
  | ui fails => exact h.ui_step hok hstep

/-- A stream that is well formed begins with the setup request. -/
theorem WellFormed.head {s : State} {k : ℕ} (h : WellFormed s k) :
    (s.conns k).written.head? = none ∨ (s.conns k).written.head? = some 0x42 := by
  obtain ⟨rs, hwritten, hfirst, -⟩ := h
  rw [hwritten]
  rcases hfirst with rfl | ⟨tl, rfl, -⟩
  · exact .inl rfl
  · exact .inr rfl

/-- A key pressed between `running.set(true)` and the setup request. -/
def keyBeforeSetup : List Act :=
  Act.connect 7 800 600 :: List.replicate 4 (Act.net .ok) ++ Act.send (.sendKey 38 true) ::
    List.replicate 21 (Act.ui false)

/-- A key pressed after the handshake, and a frame. -/
def keyInSession : List Act :=
  Act.connect 7 800 600 :: List.replicate 17 (Act.net .ok) ++ Act.send (.sendKey 38 true) ::
    List.replicate 21 (Act.ui false) ++ List.replicate 11 (Act.net .ok)

end X11Client
