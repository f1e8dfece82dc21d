/-
How old the text is that the server's selection hands out (`clipboard.c`).

The activity is the other party: its clipboard changes, it announces each change, and it
answers a request with the text it has when it sends.  Its messages arrive in the order
in which they were sent; how long they travel, and what the server does meanwhile, is
open.  The thread that reads them only calls `QueueWorkProc` (`cmdentrypoint.cpp`): they are
processed when the server's thread runs the items.

* `Serves` — what the server hands out while it converts;
* `System.step` — the clipboard of Android, the messages on their way, the work queue, and the
  server;
* `Fresh` — a text on its way is as new as every announcement ahead of it;
* `TextsFirst` — no announcement is processed before a text that was queued before it;
* `served_not_older` — what a client is given in such runs;
* `textsFirst_of_inOrder` — the runs of the queue that keep the order are such runs.
-/
import KaliGui.Lorie.Clipboard
import KaliGui.WorkQueue.Order

namespace Lorie.Clipboard

open Machine

/-! ### What a client is given -/

/-- A client's doing, not a message of the activity. -/
def Act.ofClient : Act → Bool
  | .announce _ => false
  | .data _ _ => false
  | _ => true

/-- The text of a property change. -/
def PropertyData.text? : PropertyData → Option Data
  | .latin1 text => some text
  | .utf8 text => some text
  | _ => none

/-- From `s` to `s'` no text but `data` was handed out, and the cache stays. -/
structure Serves (data : Option Data) (s s' : State) : Prop where
  cachedData : s'.cachedData = s.cachedData
  changes : ∃ new, s'.changes = s.changes ++ new ∧
    ∀ c ∈ new, ∀ text, c.data.text? = some text → data = some text

variable {s s' s'' : State} {t : DataTarget} {data : Option Data}

theorem Serves.of_eq (hcached : s'.cachedData = s.cachedData) (h : s'.changes = s.changes) :
    Serves data s s' :=
  ⟨hcached, [], by rw [h, List.append_nil], fun _ hc => absurd hc List.not_mem_nil⟩

theorem Serves.refl (data : Option Data) (s : State) : Serves data s s := .of_eq rfl rfl

theorem Serves.use (h : Serves data s s') (t : DataTarget) (call : Call) :
    Serves data s (s'.use t call) := ⟨h.cachedData, h.changes⟩

theorem Serves.trans (h : Serves data s s') (h' : Serves data s' s'') : Serves data s s'' := by
  obtain ⟨new, hnew, hserved⟩ := h.changes
  obtain ⟨new', hnew', hserved'⟩ := h'.changes
  refine ⟨h'.cachedData.trans h.cachedData, new ++ new', ?_, fun c hc => ?_⟩
  · rw [hnew', hnew, List.append_assoc]
  rcases List.mem_append.mp hc with hc | hc
  · exact hserved c hc
  · exact hserved' c hc

theorem Serves.notifyChanged (h : Serves data s s') (t : DataTarget) {change : PropertyData}
    (rc : Status) (hchange : ∀ text, change.text? = some text → data = some text) :
    Serves data s (notifyChanged t change rc s').2 := by
  rw [Clipboard.notifyChanged]
  split
  · refine h.trans ⟨rfl, [⟨t.requestor, t.property.getD t.target, change⟩], rfl, ?_⟩
    intro c hc
    rw [List.mem_singleton.mp hc]
    exact hchange
  · exact h

theorem Serves.convertText (h : Serves data s s') (env : Env) (t : DataTarget) :
    Serves data s (convertText env t data s').2 := by
  cases data with
  | none =>
    simp only [Clipboard.convertText]
    split
    · exact h
    split
    · exact h
    · exact ⟨h.cachedData, h.changes⟩
  | some data =>
    simp only [Clipboard.convertText]
    split
    · split
      · exact h
      · exact h.notifyChanged t _ fun _ htext => htext
    split
    · exact h.notifyChanged t _ fun _ htext => htext
    · exact h

theorem Serves.lorieConvertSelection (env : Env) (t : DataTarget) (data : Option Data)
    (s : State) : Serves data s (lorieConvertSelection env t data s).2 := by
  have hnone : ∀ text : Data, none = some text → data = some text :=
    fun text hnot => absurd hnot.symm (Option.some_ne_none text)
  have h₁ := (Serves.refl data s).use t .lookupSelection
  have h₂ := h₁.use t (.lookupWindow t.requestor)
  simp only [Clipboard.lorieConvertSelection]
  split
  · exact h₁
  split
  · exact h₂
  split
  · exact h₂.notifyChanged t _ hnone
  split
  · exact h₂.notifyChanged t _ hnone
  · exact h₂.convertText env t

theorem Serves.answer {r : Status × State} (h : Serves data s r.2) (t : DataTarget) :
    Serves data s (answer t r) := by
  rw [Clipboard.answer]
  split
  · exact h
  · exact h.use t _

/-- A request is served from the cache. -/
theorem Serves.lorieProcConvertSelection (env : Env) (c connection : ℕ) (r : Request) :
    Serves s.cachedData s (lorieProcConvertSelection env c connection r s).2 := by
  rw [Clipboard.lorieProcConvertSelection]
  split
  · exact .refl _ s
  split
  · exact .refl _ s
  split
  · exact (Serves.lorieConvertSelection ..).answer _
  · exact .refl _ s

/-- The requests that waited are served with the text that came. -/
theorem Serves.answerAll (env : ℕ → Env) (data : Data) :
    ∀ (ts : List DataTarget) (turn : ℕ) (s : State),
      Serves (some data) s (answerAll env data turn ts s) := by
  intro ts
  induction ts with
  | nil => exact fun _ s => .refl _ s
  | cons t ts ih =>
    intro turn s
    have hturn := (Serves.lorieConvertSelection (env turn) t (some data) s).answer t
    have hpopped : Serves (some data) s { Clipboard.answer t
        (Clipboard.lorieConvertSelection (env turn) t (some data) s) with
          lorieDataTargetHead := ts } := ⟨hturn.cachedData, hturn.changes⟩
    exact hpopped.trans (ih (turn + 1) _)

/-- What clients do hands out the cached text alone. -/
theorem Serves.ofClient {a : Act} (ha : a.ofClient = true) (hstep : Clipboard.step s a = some s') :
    Serves s.cachedData s s' := by
  cases a with
  | connect c =>
    obtain ⟨-, rfl⟩ := step_connect hstep
    exact .of_eq rfl rfl
  | disconnect c =>
    obtain rfl := step_disconnect hstep
    exact .of_eq rfl rfl
  | convertSelection c r env =>
    obtain ⟨connection, -, rfl⟩ := Option.map_eq_some_iff.mp hstep
    exact .lorieProcConvertSelection env c connection r
  | setOwner c =>
    obtain ⟨connection, -, rfl⟩ := Option.map_eq_some_iff.mp hstep
    exact .of_eq rfl rfl
  | dropOwner =>
    obtain rfl := Option.some_inj.mp hstep
    exact .of_eq rfl rfl
  | announce rc => simp [Act.ofClient] at ha
  | data data env => simp [Act.ofClient] at ha

/-! ### The two parties -/

inductive Message
  /-- `EVENT_CLIPBOARD_ANNOUNCE`, for the change to `contents[n]` -/
  | announce (n : ℕ)
  /-- `EVENT_CLIPBOARD_SEND` -/
  | send (text : Data)
  deriving DecidableEq, Repr

def Message.text? : Message → Option Data
  | .announce _ => none
  | .send text => some text

def Message.change? : Message → Option ℕ
  | .announce n => some n
  | .send _ => none

structure System where
  /-- the texts Android's clipboard has had; each change adds one -/
  contents : List Data
  /-- the announcements sent -/
  announced : ℕ := 0
  /-- the requests of the server answered -/
  answered : ℕ := 0
  /-- on the socket, the oldest first -/
  inFlight : List Message := []
  queue : WorkQueue.State := WorkQueue.initial
  /-- the messages that are queued as work, each by its call of `QueueWorkProc`, the oldest
  first -/
  items : List (ℕ × Message) := []
  /-- the change whose announcement the server has processed last -/
  handled : ℕ := 0
  server : State := {}

/-- The thread that reads the socket, as a producer of the queue. -/
def reader : ℕ := 1

inductive SystemAct
  /-- Android's clipboard changes -/
  | change (text : Data)
  | sendAnnounce
  /-- the activity answers a request -/
  | sendText
  /-- the reader takes the oldest message, and calls `QueueWorkProc` -/
  | receive
  /-- any other step of the queue; what the functions ask of others is answered so -/
  | work (a : WorkQueue.Act) (rc : Status) (env : ℕ → Env)
  /-- what clients do -/
  | server (a : Act)

/-- The server handles a message. -/
def State.handle (s : State) (rc : Status) (env : ℕ → Env) : Message → State
  | .announce _ => lorieHandleClipboardAnnounce rc s
  | .send text => lorieHandleClipboardData env text s

/-- The message that is queued with the item. -/
def System.queued (sys : System) (item : WorkQueue.WorkItem) : Option Message :=
  (sys.items.find? (·.1 = item.function)).map (·.2)

/-- The function of the item is called. -/
def System.call (sys : System) (rc : Status) (env : ℕ → Env) (item : WorkQueue.WorkItem) :
    System :=
  match sys.queued item with
  | none => sys
  | some message =>
    { sys with
      items := sys.items.eraseP (·.1 = item.function)
      handled := message.change?.getD sys.handled
      server := sys.server.handle rc env message }

/-- Both functions return `TRUE`, and their items are queued for no client. -/
def System.mayWork (sys : System) : WorkQueue.Act → Bool
  | .server result spurious =>
    result || ((sys.queue.calls (.server result spurious)).bind sys.queued).isNone
  | .clientGone tag => tag < sys.queue.queued && (sys.queued (.of tag)).isNone
  | _ => true

def System.step (sys : System) : SystemAct → Option System
  | .change text => some { sys with contents := sys.contents ++ [text] }
  | .sendAnnounce =>
    if sys.announced + 1 < sys.contents.length then
      some { sys with
        announced := sys.announced + 1
        inFlight := sys.inFlight ++ [.announce (sys.announced + 1)] }
    else none
  | .sendText =>
    if sys.answered < sys.server.requests then
      sys.contents.getLast?.map fun text =>
        { sys with answered := sys.answered + 1, inFlight := sys.inFlight ++ [.send text] }
    else none
  | .receive =>
    match sys.inFlight with
    | [] => none
    | message :: rest =>
      (WorkQueue.step sys.queue (.queueWorkProc reader)).map fun queue => { sys with
        inFlight := rest
        queue := queue
        items := sys.items ++ [(sys.queue.queued, message)] }
  | .work a rc env =>
    if sys.mayWork a then
      (WorkQueue.step sys.queue a).map fun queue =>
        { (sys.queue.calls a).elim sys (sys.call rc env) with queue := queue }
    else none
  | .server a =>
    if a.ofClient then (Clipboard.step sys.server a).map fun s => { sys with server := s }
    else none

/-- Before the first change. -/
def System.initial (text : Data) : System := { contents := [text] }

/-- What the step hands to clients is a text of the change whose announcement was processed
last, or of a later one. -/
def ServedNotOlder (sys sys' : System) : Prop :=
  ∃ new, sys'.server.changes = sys.server.changes ++ new ∧
    ∀ c ∈ new, ∀ text, c.data.text? = some text →
      ∃ v, sys'.handled ≤ v ∧ sys'.contents[v]? = some text

/-- The texts that were queued before the item. -/
def System.textsBefore (sys : System) (item : WorkQueue.WorkItem) : List Data :=
  (sys.items.takeWhile (·.1 ≠ item.function)).filterMap (·.2.text?)

/-- No announcement is processed before a text that was queued before it. -/
def TextsFirst (sys : System) : SystemAct → Prop
  | .work a _ _ => ∀ item ∈ sys.queue.calls a,
    ((sys.queued item).bind Message.change?).isSome = true → sys.textsBefore item = []
  | _ => True

instance (sys : System) : DecidablePred (TextsFirst sys)
  | .work a _ _ => inferInstanceAs (Decidable (∀ item ∈ sys.queue.calls a, _ → _))
  | .change _ | .sendAnnounce | .sendText | .receive | .server _ =>
    inferInstanceAs (Decidable True)

/-! ### How new a text is -/

/-- The text is one the clipboard got with the change `n`, or later. -/
def NotOlder (contents : List Data) (n : ℕ) (text : Data) : Prop :=
  ∃ v, n ≤ v ∧ contents[v]? = some text

/-- Each text on its way is not older than `n` and the announcements ahead of it. -/
def Fresh (contents : List Data) : ℕ → List Message → Prop
  | _, [] => True
  | n, .announce k :: rest => Fresh contents (max n k) rest
  | n, .send text :: rest => NotOlder contents n text ∧ Fresh contents n rest

variable {contents : List Data} {n m k : ℕ} {text : Data} {messages pre post : List Message}

theorem NotOlder.append (h : NotOlder contents n text) (more : List Data) :
    NotOlder (contents ++ more) n text := by
  obtain ⟨v, hv, htext⟩ := h
  have hlt := (List.getElem?_eq_some_iff.mp htext).1
  exact ⟨v, hv, (List.getElem?_append_left hlt).trans htext⟩

theorem NotOlder.mono (h : NotOlder contents n text) (hle : m ≤ n) : NotOlder contents m text := by
  obtain ⟨v, hv, htext⟩ := h
  exact ⟨v, Nat.le_trans hle hv, htext⟩

/-- The text the clipboard has now is not older than any change before. -/
theorem notOlder_getLast (htext : contents.getLast? = some text) (hn : n < contents.length) :
    NotOlder contents n text := by
  rw [List.getLast?_eq_getElem?] at htext
  exact ⟨contents.length - 1, by omega, htext⟩

theorem Fresh.append_contents (h : Fresh contents n messages) (more : List Data) :
    Fresh (contents ++ more) n messages := by
  induction messages generalizing n with
  | nil => trivial
  | cons message rest ih =>
    cases message with
    | announce k => exact ih h
    | send text => exact ⟨h.1.append more, ih h.2⟩

/-- A message joins the others at the end. -/
theorem Fresh.snoc_announce (h : Fresh contents n messages) (k : ℕ) :
    Fresh contents n (messages ++ [.announce k]) := by
  induction messages generalizing n with
  | nil => trivial
  | cons message rest ih =>
    cases message with
    | announce _ => exact ih h
    | send text => exact ⟨h.1, ih h.2⟩

theorem Fresh.snoc_send (h : Fresh contents n messages) (hn : n ≤ m)
    (hmessages : ∀ k, .announce k ∈ messages → k ≤ m) (htext : NotOlder contents m text) :
    Fresh contents n (messages ++ [.send text]) := by
  induction messages generalizing n with
  | nil => exact ⟨htext.mono hn, trivial⟩
  | cons message rest ih =>
    have hrest : ∀ k, .announce k ∈ rest → k ≤ m := fun k hk =>
      hmessages k (List.mem_cons_of_mem _ hk)
    cases message with
    | announce k => exact ih h (Nat.max_le.mpr ⟨hn, hmessages k List.mem_cons_self⟩) hrest
    | send other => exact ⟨h.1, ih h.2 hn hrest⟩

/-- A text is taken from anywhere. -/
theorem Fresh.take_send (h : Fresh contents n (pre ++ .send text :: post)) :
    NotOlder contents n text ∧ Fresh contents n (pre ++ post) := by
  induction pre generalizing n with
  | nil => exact h
  | cons message pre ih =>
    cases message with
    | announce k =>
      obtain ⟨htext, hrest⟩ := ih h
      exact ⟨htext.mono (Nat.le_max_left n k), hrest⟩
    | send other =>
      obtain ⟨htext, hrest⟩ := ih h.2
      exact ⟨htext, h.1, hrest⟩

/-- An announcement is taken that no text is ahead of. -/
theorem Fresh.take_announce (h : Fresh contents n (pre ++ .announce k :: post))
    (hpre : ∀ message ∈ pre, message.text? = none) :
    Fresh contents (max n k) (pre ++ post) := by
  induction pre generalizing n with
  | nil => exact h
  | cons message pre ih =>
    have hrest := fun m hm => hpre m (List.mem_cons_of_mem _ hm)
    cases message with
    | announce j =>
      have hswap : max (max n j) k = max (max n k) j := by omega
      have htaken := ih h hrest
      rw [hswap] at htaken
      exact htaken
    | send text => exact absurd (hpre _ List.mem_cons_self) (Option.some_ne_none text)

/-! ### What every run keeps -/

/-- The messages the server has not processed, the oldest first. -/
def System.waiting (sys : System) : List Message := sys.items.map (·.2) ++ sys.inFlight

/-- From `n` on, the cached text and each text on its way are as new as what was announced
before. -/
structure FreshFrom (sys : System) (n : ℕ) : Prop where
  announced : n ≤ sys.announced
  handled : sys.handled ≤ n
  waiting : Fresh sys.contents n sys.waiting
  cached : ∀ text, sys.server.cachedData = some text → NotOlder sys.contents n text

structure Coherent (sys : System) : Prop where
  announced : sys.announced < sys.contents.length
  changes : ∀ k, .announce k ∈ sys.waiting → k ≤ sys.announced
  fresh : ∃ n, FreshFrom sys n

variable {sys sys' : System}

theorem coherent_initial (text : Data) : Coherent (.initial text) :=
  ⟨Nat.one_pos, fun _ hk => absurd hk List.not_mem_nil, 0, Nat.le_refl _, Nat.le_refl _, trivial,
    fun text hnot => absurd hnot.symm (Option.some_ne_none text)⟩

/-- Where a step leaves the waiting messages as they are, and the server's cache. -/
theorem Coherent.of_same (h : Coherent sys) (hcontents : sys'.contents = sys.contents)
    (hannounced : sys'.announced = sys.announced) (hwaiting : sys'.waiting = sys.waiting)
    (hhandled : sys'.handled = sys.handled)
    (hcached : sys'.server.cachedData = sys.server.cachedData) : Coherent sys' := by
  obtain ⟨n, hn⟩ := h.fresh
  refine ⟨?_, ?_, n, ?_, ?_, ?_, ?_⟩
  · rw [hannounced, hcontents]
    exact h.announced
  · rw [hannounced, hwaiting]
    exact h.changes
  · exact hannounced ▸ hn.announced
  · exact hhandled ▸ hn.handled
  · rw [hcontents, hwaiting]
    exact hn.waiting
  · rw [hcontents, hcached]
    exact hn.cached

/-- The server has the text that came in its cache, and none after an announcement. -/
theorem cachedData_handle (s : State) (rc : Status) (env : ℕ → Env) (message : Message) :
    (s.handle rc env message).cachedData =
      match message with
      | .announce _ => none
      | .send text => some text := by
  cases message with
  | announce n =>
    rw [State.handle, lorieHandleClipboardAnnounce]
    split
    · rfl
    · rfl
  | send text =>
    exact (Serves.answerAll env text s.lorieDataTargetHead 0
      { s with cachedData := some text }).cachedData

/-- What the server hands out when a message comes is the text of the message. -/
theorem changes_handle (s : State) (rc : Status) (env : ℕ → Env) (message : Message) :
    ∃ new, (s.handle rc env message).changes = s.changes ++ new ∧
      ∀ c ∈ new, ∀ text, c.data.text? = some text → message = .send text := by
  cases message with
  | announce n =>
    refine ⟨[], ?_, fun c hc => absurd hc List.not_mem_nil⟩
    rw [State.handle, lorieHandleClipboardAnnounce, List.append_nil]
    split
    · rfl
    · rfl
  | send text =>
    obtain ⟨new, hnew, hserved⟩ := (Serves.answerAll env text s.lorieDataTargetHead 0
      { s with cachedData := some text }).changes
    refine ⟨new, hnew, fun c hc text' htext' => ?_⟩
    rw [Option.some_inj.mp (hserved c hc text' htext')]

/-! ### Items of the queue -/

/-- Where the item's message stands in the queue. -/
theorem System.queued_eq_some {item : WorkQueue.WorkItem} {message : Message}
    (h : sys.queued item = some message) : ∃ before after,
      sys.items = before ++ (item.function, message) :: after ∧
      sys.items.eraseP (·.1 = item.function) = before ++ after ∧
      sys.textsBefore item = before.filterMap (·.2.text?) := by
  obtain ⟨⟨tag, found⟩, hfind, rfl⟩ := Option.map_eq_some_iff.mp h
  obtain ⟨htag, before, after, hitems, hbefore⟩ := List.find?_eq_some_iff_append.mp hfind
  obtain rfl : tag = item.function := of_decide_eq_true htag
  have hne : ∀ p ∈ before, ¬ p.1 = item.function := by simpa using hbefore
  refine ⟨before, after, hitems, ?_, ?_⟩
  · rw [hitems, List.eraseP_append_right _ (by simpa using hne), List.eraseP_cons_of_pos (by simp)]
  · rw [System.textsBefore, hitems, List.takeWhile_append_of_pos (by simpa using hne),
      List.takeWhile_cons_of_neg (by simp), List.append_nil]

theorem System.call_eq {item : WorkQueue.WorkItem} {message : Message}
    (h : sys.queued item = some message) (rc : Status) (env : ℕ → Env) :
    sys.call rc env item = { sys with
      items := sys.items.eraseP (·.1 = item.function)
      handled := message.change?.getD sys.handled
      server := sys.server.handle rc env message } := by
  simp only [System.call, h]

theorem System.call_of_none {item : WorkQueue.WorkItem} (h : sys.queued item = none) (rc : Status)
    (env : ℕ → Env) : sys.call rc env item = sys := by
  simp only [System.call, h]

theorem Coherent.call (h : Coherent sys) (rc : Status) (env : ℕ → Env)
    {item : WorkQueue.WorkItem}
    (htexts : ((sys.queued item).bind Message.change?).isSome = true → sys.textsBefore item = []) :
    Coherent (sys.call rc env item) := by
  cases hqueued : sys.queued item with
  | none =>
    rw [System.call_of_none hqueued]
    exact h
  | some message =>
    obtain ⟨before, after, hitems, herase, hbefore⟩ := System.queued_eq_some hqueued
    rw [System.call_eq hqueued, herase]
    obtain ⟨n, hn⟩ := h.fresh
    have hwaiting : sys.waiting =
        before.map (·.2) ++ message :: (after.map (·.2) ++ sys.inFlight) := by
      rw [System.waiting, hitems, List.map_append, List.map_cons, List.append_assoc,
        List.cons_append]
    have hrest : (before ++ after).map (·.2) ++ sys.inFlight =
        before.map (·.2) ++ (after.map (·.2) ++ sys.inFlight) := by
      rw [List.map_append, List.append_assoc]
    have hfresh := hn.waiting
    rw [hwaiting] at hfresh
    have hchanges : ∀ k, .announce k ∈ (before ++ after).map (·.2) ++ sys.inFlight →
        k ≤ sys.announced := by
      intro k hk
      refine h.changes k ?_
      rw [hrest] at hk
      rw [hwaiting]
      simp only [List.mem_append, List.mem_cons] at hk ⊢
      tauto
    cases message with
    | announce k =>
      -- it empties the cache, and no text is ahead of it
      have hk : k ≤ sys.announced := by
        refine h.changes k ?_
        rw [hwaiting]
        exact List.mem_append_right _ List.mem_cons_self
      have hnone : ∀ message ∈ before.map (·.2), message.text? = none := by
        have hnil := htexts (by rw [hqueued]; rfl)
        rw [hbefore, List.filterMap_eq_nil_iff] at hnil
        intro message hmessage
        obtain ⟨p, hp, rfl⟩ := List.mem_map.mp hmessage
        exact hnil p hp
      refine ⟨h.announced, hchanges, max n k, Nat.max_le.mpr ⟨hn.announced, hk⟩,
        Nat.le_max_right n k, ?_, fun text hcached => ?_⟩
      · rw [System.waiting, hrest]
        exact hfresh.take_announce hnone
      · rw [cachedData_handle] at hcached
        exact absurd hcached.symm (Option.some_ne_none text)
    | send text =>
      obtain ⟨htext, hfresh⟩ := hfresh.take_send
      refine ⟨h.announced, hchanges, n, hn.announced, hn.handled, ?_, fun text' hcached => ?_⟩
      · rw [System.waiting, hrest]
        exact hfresh
      · rw [cachedData_handle] at hcached
        exact Option.some_inj.mp hcached ▸ htext

theorem Coherent.step {a : SystemAct} (h : Coherent sys) (htexts : TextsFirst sys a)
    (hstep : sys.step a = some sys') : Coherent sys' := by
  cases a with
  | change text =>
    obtain rfl := Option.some_inj.mp hstep
    obtain ⟨n, hn⟩ := h.fresh
    have hlength : (sys.contents ++ [text]).length = sys.contents.length + 1 :=
      List.length_append
    -- what was not older stays so when the clipboard changes again
    refine ⟨?_, h.changes, n, hn.announced, hn.handled, hn.waiting.append_contents _,
      fun text' hcached => (hn.cached text' hcached).append _⟩
    exact hlength ▸ Nat.lt_succ_of_lt h.announced
  | sendAnnounce =>
    obtain ⟨hroom, rfl⟩ := enabled_eq_some.mp hstep
    obtain ⟨n, hn⟩ := h.fresh
    have hwaiting : sys.items.map (·.2) ++ (sys.inFlight ++ [.announce (sys.announced + 1)]) =
        sys.waiting ++ [.announce (sys.announced + 1)] := (List.append_assoc ..).symm
    refine ⟨hroom, fun k hk => ?_, n, Nat.le_succ_of_le hn.announced, hn.handled, ?_, hn.cached⟩
    · rw [System.waiting, hwaiting] at hk
      rcases List.mem_append.mp hk with hk | hk
      · exact Nat.le_succ_of_le (h.changes k hk)
      · exact Nat.le_of_eq (Message.announce.inj (List.mem_singleton.mp hk))
    · rw [System.waiting, hwaiting]
      exact hn.waiting.snoc_announce _
  | sendText =>
    simp only [System.step] at hstep
    split at hstep
    · obtain ⟨text, htext, rfl⟩ := Option.map_eq_some_iff.mp hstep
      obtain ⟨n, hn⟩ := h.fresh
      have hwaiting : sys.items.map (·.2) ++ (sys.inFlight ++ [.send text]) =
          sys.waiting ++ [.send text] := (List.append_assoc ..).symm
      refine ⟨h.announced, fun k hk => ?_, n, hn.announced, hn.handled, ?_, hn.cached⟩
      · rw [System.waiting, hwaiting] at hk
        rcases List.mem_append.mp hk with hk | hk
        · exact h.changes k hk
        · cases List.mem_singleton.mp hk
      · -- the text is the current one, so it is as new as everything announced so far
        rw [System.waiting, hwaiting]
        exact hn.waiting.snoc_send hn.announced h.changes (notOlder_getLast htext h.announced)
    · simp at hstep
  | receive =>
    simp only [System.step] at hstep
    split at hstep
    · simp at hstep
    · next message rest hflight =>
      obtain ⟨queue, -, rfl⟩ := Option.map_eq_some_iff.mp hstep
      refine h.of_same rfl rfl ?_ rfl rfl
      rw [System.waiting, System.waiting, hflight, List.map_append, List.append_assoc]
      rfl
  | work a rc env =>
    simp only [System.step] at hstep
    split at hstep
    · obtain ⟨queue, -, rfl⟩ := Option.map_eq_some_iff.mp hstep
      cases hcalls : sys.queue.calls a with
      | none => exact h.of_same rfl rfl rfl rfl rfl
      | some item =>
        exact (h.call rc env (htexts item hcalls)).of_same rfl rfl rfl rfl rfl
    · simp at hstep
  | server a =>
    simp only [System.step] at hstep
    split at hstep
    · next ha =>
      obtain ⟨s', hs', rfl⟩ := Option.map_eq_some_iff.mp hstep
      exact h.of_same rfl rfl rfl rfl (Serves.ofClient ha hs').cachedData
    · simp at hstep

/-- A text handed out in one step is not older than the last announcement processed. -/
theorem Coherent.serves {a : SystemAct} (h : Coherent sys) (hstep : sys.step a = some sys') :
    ServedNotOlder sys sys' := by
  have hsame : ∀ {t : System}, t.server.changes = sys.server.changes → ServedNotOlder sys t :=
    fun heq => ⟨[], heq.trans (List.append_nil _).symm, fun _ hc => absurd hc List.not_mem_nil⟩
  obtain ⟨n, hn⟩ := h.fresh
  cases a with
  | change text =>
    obtain rfl := Option.some_inj.mp hstep
    exact hsame rfl
  | sendAnnounce =>
    obtain ⟨-, rfl⟩ := enabled_eq_some.mp hstep
    exact hsame rfl
  | sendText =>
    simp only [System.step] at hstep
    split at hstep
    · obtain ⟨text, -, rfl⟩ := Option.map_eq_some_iff.mp hstep
      exact hsame rfl
    · simp at hstep
  | receive =>
    simp only [System.step] at hstep
    split at hstep
    · simp at hstep
    · obtain ⟨queue, -, rfl⟩ := Option.map_eq_some_iff.mp hstep
      exact hsame rfl
  | work a rc env =>
    simp only [System.step] at hstep
    split at hstep
    · obtain ⟨queue, -, rfl⟩ := Option.map_eq_some_iff.mp hstep
      cases hcalls : sys.queue.calls a with
      | none => exact hsame rfl
      | some item =>
        cases hqueued : sys.queued item with
        | none =>
          refine hsame ?_
          rw [Option.elim_some, System.call_of_none hqueued]
        | some message =>
          rw [Option.elim_some, System.call_eq hqueued]
          obtain ⟨before, after, hitems, -, -⟩ := System.queued_eq_some hqueued
          obtain ⟨new, hnew, hserved⟩ := changes_handle sys.server rc env message
          refine ⟨new, hnew, fun c hc text htext => ?_⟩
          -- a text was read from the clipboard when it was sent, after what is processed now
          obtain rfl := hserved c hc text htext
          have hfresh := hn.waiting
          rw [System.waiting, hitems, List.map_append, List.map_cons, List.append_assoc,
            List.cons_append] at hfresh
          exact hfresh.take_send.1.mono hn.handled
    · simp at hstep
  | server a =>
    simp only [System.step] at hstep
    split at hstep
    · next ha =>
      obtain ⟨s', hs', rfl⟩ := Option.map_eq_some_iff.mp hstep
      obtain ⟨new, hnew, hserved⟩ := (Serves.ofClient ha hs').changes
      exact ⟨new, hnew, fun c hc text htext =>
        (hn.cached text (hserved c hc text htext)).mono hn.handled⟩
    · simp at hstep

/-! ### Every run -/

/-- In any run of both parties in which no announcement is processed before a text that was
queued before it, what the next step hands to clients is a text of the change announced last, or
of a later one: from the cache and with a message alike. -/
theorem served_not_older {first : Data} {as : List SystemAct} {a : SystemAct}
    (htexts : Meets System.step TextsFirst (.initial first) as)
    (hrun : run System.step (.initial first) as = some sys) (hstep : sys.step a = some sys') :
    ServedNotOlder sys sys' := by
  have h : Coherent sys :=
    run_invariant (fun _ _ _ h hok hs => h.step hok hs) (coherent_initial first) htexts hrun
  exact h.serves hstep

/-- A client asks for the text, as UTF-8. -/
def asks (time : ℕ) : SystemAct :=
  .server (.convertSelection 1
    ⟨.clipboard, .utf8String, none, 7, time, .success, .success, true⟩ {})

/-- A step of the queue; what the functions ask for succeeds. -/
def works (a : WorkQueue.Act) : SystemAct := .work a .success fun _ => {}

/-- The reader queues the oldest message. -/
def receives : List SystemAct := .receive :: List.replicate 7 (works (.push (some reader) false))

/-- The server's thread calls `ProcessWorkQueue` for one item in the ring, and is about to call
its function. -/
def pops : List SystemAct :=
  works (.processWorkQueue false) :: List.replicate 9 (works (.server true false))

/-- It calls the function, and `ProcessWorkQueue` returns. -/
def calls : List SystemAct := List.replicate 6 (works (.server true false))

/-- The answer to a request crosses an announcement: the client asks, the clipboard changes
before the answer, and the announcement goes out after it.  The answer is processed, then the
announcement; the client asks again, and the server is about to process the second answer. -/
def answerCrosses : List SystemAct :=
  .server (.connect 1) :: .change [98] :: .sendAnnounce :: receives ++ pops ++ calls ++
    asks 0 :: .change [99] :: .sendText :: .sendAnnounce :: receives ++ receives ++
    works (.processWorkQueue false) :: List.replicate 23 (works (.server true false)) ++
    asks 1 :: .change [100] :: .sendText :: receives ++ pops

theorem answerCrosses_notOlder : ∃ sys sys',
    run System.step (.initial [97]) answerCrosses = some sys ∧
    sys.step (works (.server true false)) = some sys' ∧
    sys'.server.changes = sys.server.changes ++ [⟨7, .utf8String, .utf8 [100]⟩] ∧
    sys'.handled = 2 ∧ ServedNotOlder sys sys' := by
  have hrun : ((run (restrict System.step TextsFirst) (.initial [97]) answerCrosses).bind fun sys =>
      (sys.step (works (.server true false))).map fun sys' =>
        (sys'.server.changes, sys.server.changes ++ [⟨7, .utf8String, .utf8 [100]⟩],
          sys'.handled)) =
      some ([⟨7, .utf8String, .utf8 [99]⟩, ⟨7, .utf8String, .utf8 [100]⟩],
        [⟨7, .utf8String, .utf8 [99]⟩, ⟨7, .utf8String, .utf8 [100]⟩], 2) := by decide +kernel
  obtain ⟨sys, hsys, hstep⟩ := Option.bind_eq_some_iff.mp hrun
  obtain ⟨sys', hsys', hchanges⟩ := Option.map_eq_some_iff.mp hstep
  obtain ⟨hsys, htexts⟩ := run_restrict_eq_some hsys
  simp only [Prod.mk.injEq] at hchanges
  obtain ⟨hafter, hbefore, hhandled⟩ := hchanges
  exact ⟨sys, sys', hsys, hsys', hafter.trans hbefore.symm, hhandled,
    served_not_older htexts hsys hsys'⟩

/-- The client's request is answered before the clipboard changes again.  The server's thread
has counted an empty ring when the reader queues the answer, 127 other items, which fill the
ring, and the announcement, which goes to the list. -/
def announceOvertakes : List SystemAct :=
  .server (.connect 1) :: .change [98] :: .sendAnnounce :: receives ++ pops ++ calls ++
    asks 0 :: .sendText :: .change [99] :: .sendAnnounce ::
    works (.processWorkQueue false) :: List.replicate 2 (works (.server true false)) ++
    receives ++
    (List.replicate 127 (works (.queueWorkProc reader) ::
      List.replicate 7 (works (.push (some reader) false)))).flatten ++
    receives ++ List.replicate 10 (works (.server true false)) ++ pops

/-- The announcement is processed first; then the client is given the text that is older. -/
theorem announceOvertakes_older : ∃ sys sys',
    run System.step (.initial [97]) announceOvertakes = some sys ∧
    sys.step (works (.server true false)) = some sys' ∧ ¬ ServedNotOlder sys sys' := by
  have hrun : ((run System.step (.initial [97]) announceOvertakes).bind fun sys =>
      (sys.step (works (.server true false))).map fun sys' =>
        (sys.server.changes, sys'.server.changes, sys'.handled, sys'.contents)) =
      some ([], [⟨7, .utf8String, .utf8 [98]⟩], 2, [[97], [98], [99]]) := by decide +kernel
  obtain ⟨sys, hsys, hstep⟩ := Option.bind_eq_some_iff.mp hrun
  obtain ⟨sys', hsys', hchanges⟩ := Option.map_eq_some_iff.mp hstep
  simp only [Prod.mk.injEq] at hchanges
  obtain ⟨hbefore, hafter, hhandled, hcontents⟩ := hchanges
  refine ⟨sys, sys', hsys, hsys', ?_⟩
  rintro ⟨new, hnew, hserved⟩
  rw [hbefore, hafter, List.nil_append] at hnew
  obtain ⟨v, hv, htext⟩ := hserved _ (hnew ▸ List.mem_singleton_self _) [98] rfl
  rw [hcontents] at htext
  have hlt : v < 3 := (List.getElem?_eq_some_iff.mp htext).1
  -- the last change is the third text
  obtain rfl : v = 2 := by omega
  exact absurd htext (by decide)

/-! ### The order of the queue -/

/-- What a step does in the queue. -/
def SystemAct.queueAct : SystemAct → Option WorkQueue.Act
  | .receive => some (.queueWorkProc reader)
  | .work a _ _ => some a
  | _ => none

/-- The reader alone queues, and puts items in the ring and in the list only as
`WorkQueue.Orderly` says. -/
def InOrder (sys : System) (a : SystemAct) : Prop :=
  ∀ w ∈ a.queueAct, WorkQueue.Single reader w ∧ WorkQueue.Orderly sys.queue w

/-- The queue runs its items in order, and those of the messages are still to come. -/
structure Lined (sys : System) : Prop where
  queue : WorkQueue.Simulates reader sys.queue
  ahead : ∀ p ∈ sys.items, sys.queue.log.length ≤ p.1 ∧ p.1 < sys.queue.queued
  sorted : sys.items.Pairwise fun p q => p.1 < q.1

theorem lined_initial (text : Data) : Lined (.initial text) :=
  ⟨.initial reader, fun _ hp => absurd hp List.not_mem_nil, List.Pairwise.nil⟩

theorem Lined.of_same (h : Lined sys) (hqueue : sys'.queue = sys.queue)
    (hitems : sys'.items = sys.items) : Lined sys' :=
  ⟨hqueue ▸ h.queue, by rw [hqueue, hitems]; exact h.ahead, hitems ▸ h.sorted⟩

/-- Nothing is ahead of the item that is run next. -/
theorem Lined.nothing_before (h : Lined sys) {item : WorkQueue.WorkItem} {message : Message}
    (hitem : item = .of sys.queue.log.length) {before after : List (ℕ × Message)}
    (hitems : sys.items = before ++ (item.function, message) :: after) : before = [] := by
  rcases before with _ | ⟨p, before⟩
  · rfl
  have hle := (h.ahead p (by rw [hitems]; exact List.mem_cons_self)).1
  have hlt : p.1 < item.function := by
    have hsorted := h.sorted
    rw [hitems, List.cons_append] at hsorted
    exact List.rel_of_pairwise_cons hsorted (List.mem_append_right _ List.mem_cons_self)
  rw [hitem] at hlt
  exact absurd hlt (Nat.not_lt.mpr hle)

theorem Lined.textsFirst (h : Lined sys) {a : SystemAct} (horder : InOrder sys a)
    (hstep : sys.step a = some sys') : TextsFirst sys a := by
  cases a with
  | work a rc env =>
    intro item hcall hannounce
    obtain ⟨hsingle, horderly⟩ := horder a rfl
    obtain ⟨message, hqueued, -⟩ := Option.bind_eq_some_iff.mp
      (Option.isSome_iff_exists.mp hannounce).choose_spec
    simp only [System.step] at hstep
    split at hstep
    · obtain ⟨queue, hqueue, -⟩ := Option.map_eq_some_iff.mp hstep
      obtain ⟨before, after, hitems, -, htexts⟩ := System.queued_eq_some hqueued
      have hitem := (h.queue.calls hsingle horderly hqueue hcall).1
      rw [htexts, h.nothing_before hitem hitems, List.filterMap_nil]
    · simp at hstep
  | _ => trivial

theorem Lined.step (h : Lined sys) {a : SystemAct} (horder : InOrder sys a)
    (hstep : sys.step a = some sys') : Lined sys' := by
  cases a with
  | change text =>
    obtain rfl := Option.some_inj.mp hstep
    exact h.of_same rfl rfl
  | sendAnnounce =>
    obtain ⟨-, rfl⟩ := enabled_eq_some.mp hstep
    exact h.of_same rfl rfl
  | sendText =>
    simp only [System.step] at hstep
    split at hstep
    · obtain ⟨text, -, rfl⟩ := Option.map_eq_some_iff.mp hstep
      exact h.of_same rfl rfl
    · simp at hstep
  | receive =>
    obtain ⟨hsingle, horderly⟩ := horder _ rfl
    simp only [System.step] at hstep
    split at hstep
    · simp at hstep
    · obtain ⟨queue, hqueue, rfl⟩ := Option.map_eq_some_iff.mp hstep
      have hle := h.queue.length_le
      have hsim := h.queue.step hsingle horderly hqueue
      obtain ⟨-, rfl⟩ := WorkQueue.step_queueWorkProc hqueue
      refine ⟨hsim, fun p hp => ?_, List.pairwise_append.mpr ⟨h.sorted,
        List.pairwise_singleton _ _, fun p hp q hq => ?_⟩⟩
      · show sys.queue.log.length ≤ p.1 ∧ p.1 < sys.queue.queued + 1
        rcases List.mem_append.mp hp with hp | hp
        · have := h.ahead p hp
          omega
        · rw [List.mem_singleton.mp hp]
          exact ⟨hle, Nat.lt_succ_self _⟩
      · rw [List.mem_singleton.mp hq]
        exact (h.ahead p hp).2
  | work a rc env =>
    obtain ⟨hsingle, horderly⟩ := horder a rfl
    simp only [System.step] at hstep
    split at hstep
    · obtain ⟨queue, hqueue, rfl⟩ := Option.map_eq_some_iff.mp hstep
      have hsim := h.queue.step hsingle horderly hqueue
      have hqueued := WorkQueue.queued_le_step hqueue
      cases hcalls : sys.queue.calls a with
      | none =>
        have hlength : queue.log.length = sys.queue.log.length := by
          have hitems := WorkQueue.items_step hqueue
          rw [hcalls, Option.toList_none, List.append_nil] at hitems
          simpa using congrArg List.length hitems
        refine ⟨hsim, fun p hp => ?_, h.sorted⟩
        obtain ⟨hle, hlt⟩ := h.ahead p hp
        exact ⟨Nat.le_trans (Nat.le_of_eq hlength) hle, Nat.lt_of_lt_of_le hlt hqueued⟩
      | some item =>
        obtain ⟨hitem, hlength⟩ := h.queue.calls hsingle horderly hqueue hcalls
        rw [Option.elim_some]
        cases hfound : sys.queued item with
        | none =>
          rw [System.call_of_none hfound]
          refine ⟨hsim, fun p hp => ?_, h.sorted⟩
          obtain ⟨hle, hlt⟩ := h.ahead p hp
          -- the item that was run is none of the messages'
          have hne : p.1 ≠ sys.queue.log.length := by
            intro heq
            have hnot := List.find?_eq_none.mp (Option.map_eq_none_iff.mp hfound) p hp
            rw [hitem] at hnot
            exact hnot (decide_eq_true heq)
          show queue.log.length ≤ p.1 ∧ p.1 < queue.queued
          omega
        | some message =>
          obtain ⟨before, after, hitems, herase, -⟩ := System.queued_eq_some hfound
          obtain rfl := h.nothing_before hitem hitems
          rw [System.call_eq hfound, herase, List.nil_append]
          have hsorted := h.sorted
          rw [hitems, List.nil_append, hitem] at hsorted
          refine ⟨hsim, fun p hp => ?_, hsorted.of_cons⟩
          have hlt := (h.ahead p (hitems ▸ List.mem_cons_of_mem _ hp)).2
          have hgt : sys.queue.log.length < p.1 := List.rel_of_pairwise_cons hsorted hp
          show queue.log.length ≤ p.1 ∧ p.1 < queue.queued
          omega
    · simp at hstep
  | server a =>
    simp only [System.step] at hstep
    split at hstep
    · obtain ⟨s', hs', rfl⟩ := Option.map_eq_some_iff.mp hstep
      exact h.of_same rfl rfl
    · simp at hstep

/-- Where the queue keeps the order, no announcement overtakes a text. -/
theorem textsFirst_of_inOrder {first : Data} {as : List SystemAct}
    (horder : Meets System.step InOrder (.initial first) as)
    (hrun : run System.step (.initial first) as = some sys) :
    Meets System.step TextsFirst (.initial first) as :=
  Meets.of_run (fun _ _ _ h hok hs => ⟨h.step hok hs, h.textsFirst hok hs⟩)
    (lined_initial first) horder hrun

end Lorie.Clipboard
