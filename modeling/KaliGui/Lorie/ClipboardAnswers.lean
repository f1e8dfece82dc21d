/-
The answers to the conversions of the server's selection (`clipboard.c`).

Beside the state run the numbers of the requests that reached the selection while the
server owned it: which number stands for which request on the list, and which of them
the events were written for.

* `Tracked.step` — the steps of `Clipboard.step`, with the numbers;
* `answer_convert` — a conversion writes its one event, or puts the request on the list;
* `conversions_answered_once` — over any run, who is answered, when, and how often.
-/
import KaliGui.Lorie.Clipboard
import Mathlib.Data.List.Forall2
import Mathlib.Data.List.Nodup

namespace Lorie.Clipboard

open Machine

/-! ### Events -/

def Use.isEvent (u : Use) : Bool :=
  match u.call with
  | .writeEvent _ => true
  | _ => false

/-- The events written to clients, in order. -/
def State.written (s : State) : List Use := s.uses.filter Use.isEvent

/-- The conversion goes on the list: nothing refused it, and only the text is missing. -/
def NeedsText (env : Env) (t : DataTarget) (data : Option Data) : Prop :=
  data = none ∧ env.selection = .success ∧ env.window = .success ∧ env.allocates = true ∧
    (t.target = .string ∨ t.target = .text ∨ t.target = .utf8String)

instance (env : Env) (t : DataTarget) (data : Option Data) : Decidable (NeedsText env t data) :=
  inferInstanceAs (Decidable (_ ∧ _ ∧ _ ∧ _ ∧ (_ ∨ _ ∨ _)))

/-- The event answers the request, with its property or with none, and goes to the client
that asked. -/
def IsAnswer (t : DataTarget) (u : Use) : Prop :=
  ∃ property, (property = t.property ∨ property = none) ∧
    u = ⟨.writeEvent (t.notify property), some t.asked, t.asked⟩

/-- The checks of `lorieProcConvertSelection` that end in an error for the client. -/
def Request.Rejected (r : Request) : Prop := r.window ≠ .success ∨ r.validAtoms = false

instance (r : Request) : Decidable r.Rejected := inferInstanceAs (Decidable (_ ∨ _))

/-- The request is for the selection, and the server owns it. -/
def Reaches (s : State) (r : Request) : Prop :=
  ¬ r.Rejected ∧ r.lookup = .success ∧ r.selection = .clipboard ∧ s.owner = .server

instance (s : State) (r : Request) : Decidable (Reaches s r) :=
  inferInstanceAs (Decidable (_ ∧ _ ∧ _ ∧ _))

/-- What `lorieConvertSelection` is given for a request. -/
def Request.dataTarget (r : Request) (client connection : ℕ) : DataTarget :=
  ⟨client, connection, r.selection, r.target, r.property, r.requestor, r.time⟩

/-! ### One conversion -/

variable {s s' : State} {t : DataTarget}

@[simp] theorem written_use_lookupSelection (s : State) (t : DataTarget) :
    (s.use t .lookupSelection).written = s.written := by
  rw [State.written, State.use, List.filter_append]
  exact List.append_nil _

@[simp] theorem written_use_lookupWindow (s : State) (t : DataTarget) (requestor : ℕ) :
    (s.use t (.lookupWindow requestor)).written = s.written := by
  rw [State.written, State.use, List.filter_append]
  exact List.append_nil _

@[simp] theorem written_use_writeEvent (s : State) (t : DataTarget) (event : SelectionNotify) :
    (s.use t (.writeEvent event)).written =
      s.written ++ [⟨.writeEvent event, s.client t.client, t.asked⟩] := by
  rw [State.written, State.use, List.filter_append]
  rfl

/-- One event was written, for the request. -/
structure Answered (s : State) (t : DataTarget) (s' : State) : Prop where
  head : s'.lorieDataTargetHead = s.lorieDataTargetHead
  written : ∃ property, (property = t.property ∨ property = none) ∧
    s'.written = s.written ++ [⟨.writeEvent (t.notify property), s.client t.client, t.asked⟩]

/-- The request went on the list, and no event was written. -/
structure Parked (s : State) (t : DataTarget) (s' : State) : Prop where
  head : s'.lorieDataTargetHead = t :: s.lorieDataTargetHead
  written : s'.written = s.written

/-- A conversion so far: nobody is answered, and nobody new waits. -/
structure Quiet (s : State) (s' : State) : Prop where
  head : s'.lorieDataTargetHead = s.lorieDataTargetHead
  written : s'.written = s.written
  client : s'.client = s.client

/-- The callers answer a conversion that failed. -/
theorem Quiet.answer_error (h : Quiet s s') (t : DataTarget) {rc : Status} (hrc : rc ≠ .success) :
    Answered s t (answer t (rc, s')) := by
  rw [answer, if_neg hrc]
  refine ⟨h.head, none, .inr rfl, ?_⟩
  rw [written_use_writeEvent, h.written, h.client]

/-- A property change is followed by the event, or makes the conversion fail. -/
theorem Quiet.answer_notifyChanged (h : Quiet s s') (t : DataTarget) (change : PropertyData)
    (rc : Status) : Answered s t (answer t (notifyChanged t change rc s')) := by
  by_cases hrc : rc = .success
  · rw [notifyChanged, if_pos hrc, answer, if_pos rfl]
    refine ⟨h.head, t.property, .inl rfl, ?_⟩
    rw [written_use_writeEvent, ← h.written, ← h.client]
    rfl
  · rw [notifyChanged, if_neg hrc]
    exact h.answer_error t hrc

/-- A conversion with the text is answered. -/
theorem Quiet.answer_text (h : Quiet s s') (env : Env) (t : DataTarget) (data : Data) :
    Answered s t (answer t (convertText env t (some data) s')) := by
  simp only [convertText]
  split
  · split
    · exact h.answer_error t (by decide)
    · exact h.answer_notifyChanged t _ _
  split
  · exact h.answer_notifyChanged t _ _
  · exact h.answer_error t (by decide)

/-- Without the text, a conversion waits where it needs the text. -/
theorem Quiet.answer_noText (h : Quiet s s') {env : Env} {t : DataTarget}
    (hselection : env.selection = .success) (hwindow : env.window = .success) :
    if NeedsText env t none then Parked s t (answer t (convertText env t none s'))
    else Answered s t (answer t (convertText env t none s')) := by
  simp only [convertText]
  split_ifs with hneeds htarget hmemory htarget hmemory
  · -- a target that needs the text is one of the three the code knows
    obtain ⟨-, -, -, -, htext⟩ := hneeds
    obtain ⟨hstring, htext', hutf8⟩ := htarget
    rcases htext with heq | heq | heq
    · exact absurd heq hstring
    · exact absurd heq htext'
    · exact absurd heq hutf8
  · exact ⟨congrArg (t :: ·) h.head, h.written⟩
  · exact absurd hneeds.2.2.2.1 hmemory
  · exact h.answer_error t (by decide)
  · have htext : t.target = .string ∨ t.target = .text ∨ t.target = .utf8String := by
      by_contra hnot
      rw [not_or, not_or] at hnot
      exact htarget hnot
    exact absurd ⟨rfl, hselection, hwindow, hmemory, htext⟩ hneeds
  · exact h.answer_error t (by decide)

/-- The targets that need no text. -/
theorem not_needsText {env : Env} {data : Option Data}
    (htarget : t.target = .targets ∨ t.target = .timestamp) : ¬ NeedsText env t data := by
  rintro ⟨-, -, -, -, htext⟩
  rcases htarget with heq | heq
  · rw [heq] at htext
    simp at htext
  · rw [heq] at htext
    simp at htext

/-- A conversion writes its event, or waits for the text, and never both. -/
theorem answer_convert (env : Env) (t : DataTarget) (data : Option Data) (s : State) :
    if NeedsText env t data then
      Parked s t (answer t (lorieConvertSelection env t data s))
    else Answered s t (answer t (lorieConvertSelection env t data s)) := by
  have hquiet₁ : Quiet s (s.use t .lookupSelection) :=
    ⟨rfl, written_use_lookupSelection s t, rfl⟩
  have hquiet₂ : Quiet s ((s.use t .lookupSelection).use t (.lookupWindow t.requestor)) := by
    refine ⟨rfl, ?_, rfl⟩
    rw [written_use_lookupWindow, written_use_lookupSelection]
  simp only [lorieConvertSelection]
  -- the two lookups come first; where one fails, the caller answers with no property
  by_cases hselection : env.selection = .success
  swap
  · rw [if_neg (fun hneeds => hselection hneeds.2.1), if_pos hselection]
    exact hquiet₁.answer_error t hselection
  rw [if_neg (not_not.mpr hselection)]
  by_cases hwindow : env.window = .success
  swap
  · rw [if_neg (fun hneeds => hwindow hneeds.2.2.1), if_pos hwindow]
    exact hquiet₂.answer_error t hwindow
  rw [if_neg (not_not.mpr hwindow)]
  by_cases htargets : t.target = .targets
  · rw [if_neg (not_needsText (.inl htargets)), if_pos htargets]
    exact hquiet₂.answer_notifyChanged t _ _
  rw [if_neg htargets]
  by_cases htimestamp : t.target = .timestamp
  · rw [if_neg (not_needsText (.inr htimestamp)), if_pos htimestamp]
    exact hquiet₂.answer_notifyChanged t _ _
  rw [if_neg htimestamp]
  cases data with
  | none => exact hquiet₂.answer_noText hselection hwindow
  | some data =>
    rw [if_neg fun hneeds : NeedsText env t (some data) => Option.some_ne_none data hneeds.1]
    exact hquiet₂.answer_text env t data

/-- With the text, a conversion is answered; it does not wait again. -/
theorem answer_convert_some (env : Env) (t : DataTarget) (data : Data) (s : State) :
    Answered s t (answer t (lorieConvertSelection env t (some data) s)) := by
  have hconvert := answer_convert env t (some data) s
  rwa [if_neg fun hneeds : NeedsText env t (some data) => Option.some_ne_none data hneeds.1]
    at hconvert

/-! ### Numbers -/

/-- The state, and the requests that reached the selection: their numbers are their
places in `asked`. -/
structure Tracked where
  state : State := {}
  asked : List DataTarget := []
  /-- the numbers of the requests on the list, from its head -/
  waiting : List ℕ := []
  /-- the events written, each with the number of the request it was written for -/
  answers : List (ℕ × Use) := []

/-- What was written since `s` was written for the request `n`. -/
def writtenFor (n : ℕ) (s s' : State) : List (ℕ × Use) :=
  (s'.written.drop s.written.length).map (Prod.mk n)

/-- The events of the loop of `lorieHandleClipboardData`, by the request of the turn. -/
def answersOf (env : ℕ → Env) (data : Data) :
    ℕ → List ℕ → List DataTarget → State → List (ℕ × Use)
  | turn, n :: ns, t :: ts, s =>
    let s' := answer t (lorieConvertSelection (env turn) t (some data) s)
    writtenFor n s s' ++ answersOf env data (turn + 1) ns ts { s' with lorieDataTargetHead := ts }
  | _, _, _, _ => []

/-- A step of the code from `tr.state` to `s'`, with the numbers. -/
def Tracked.next (tr : Tracked) (s' : State) : Act → Tracked
  | .convertSelection c r _ =>
    if Reaches tr.state r then
      { state := s'
        asked := tr.asked ++ [r.dataTarget c ((tr.state.client c).getD 0)]
        waiting :=
          if s'.lorieDataTargetHead = tr.state.lorieDataTargetHead then tr.waiting
          else tr.asked.length :: tr.waiting
        answers := tr.answers ++ writtenFor tr.asked.length tr.state s' }
    else { tr with state := s' }
  | .data data env =>
    { tr with
      state := s'
      waiting := tr.waiting.drop tr.state.lorieDataTargetHead.length
      answers := tr.answers ++ answersOf env data 0 tr.waiting tr.state.lorieDataTargetHead
        { tr.state with cachedData := some data } }
  | _ => { tr with state := s' }

def Tracked.step (tr : Tracked) (a : Act) : Option Tracked :=
  (Clipboard.step tr.state a).map fun s' => tr.next s' a

/-- How often the request `n` was answered. -/
def Tracked.times (tr : Tracked) (n : ℕ) : ℕ := (tr.answers.map Prod.fst).count n

variable {tr tr' : Tracked}

@[simp] theorem next_state (tr : Tracked) (s' : State) (a : Act) : (tr.next s' a).state = s' := by
  cases a with
  | convertSelection c r env =>
    rw [Tracked.next]
    split
    · rfl
    · rfl
  | _ => rfl

/-- The numbers do not change what the code does. -/
theorem step_state (tr : Tracked) (a : Act) :
    (tr.step a).map Tracked.state = Clipboard.step tr.state a := by
  rw [Tracked.step, Option.map_map]
  rcases Clipboard.step tr.state a with _ | s'
  · rfl
  · exact congrArg some (next_state tr s' a)

/-- What a conversion that was answered wrote, is written for the request. -/
theorem Answered.writtenFor (h : Answered s t s') (n : ℕ) (hlive : Live s t) :
    ∃ u, IsAnswer t u ∧ writtenFor n s s' = [(n, u)] ∧ s'.written = s.written ++ [u] := by
  obtain ⟨property, hproperty, hwritten⟩ := h.written
  refine ⟨_, ⟨property, hproperty, rfl⟩, ?_, ?_⟩
  · rw [Clipboard.writtenFor, hwritten, List.drop_left, hlive]
    rfl
  · rw [hwritten, hlive]

/-- Nothing was written for a request that waits. -/
theorem Parked.writtenFor (h : Parked s t s') (n : ℕ) : writtenFor n s s' = [] := by
  rw [Clipboard.writtenFor, h.written, List.drop_length]
  rfl

/-- The list grew exactly where the request waits. -/
theorem Parked.head_ne (h : Parked s t s') : s'.lorieDataTargetHead ≠ s.lorieDataTargetHead := by
  rw [h.head]
  exact List.cons_ne_self t _

/-! ### The loop -/

/-- Each turn of the loop writes one event, for the request of the turn. -/
theorem answersOf_spec (env : ℕ → Env) (data : Data) (asked : List DataTarget) :
    ∀ (ns : List ℕ) (ts : List DataTarget) (turn : ℕ) (s : State),
      List.Forall₂ (fun n t => asked[n]? = some t) ns ts → (∀ t ∈ ts, Live s t) →
      (answersOf env data turn ns ts s).map Prod.fst = ns ∧
        (∀ p ∈ answersOf env data turn ns ts s, ∃ t, asked[p.1]? = some t ∧ IsAnswer t p.2) ∧
        (answerAll env data turn ts s).written =
          s.written ++ (answersOf env data turn ns ts s).map Prod.snd := by
  -- along the two lists together: each turn pops one target and its number
  intro ns ts
  induction ns generalizing ts with
  | nil =>
    intro turn s hasked _
    cases hasked
    rw [answersOf]
    · refine ⟨rfl, fun p hp => absurd hp List.not_mem_nil, ?_⟩
      exact (List.append_nil s.written).symm
    · exact fun n _ _ _ hns => absurd hns (List.cons_ne_nil n _).symm
  | cons n ns ih =>
    intro turn s hasked hlive
    cases hasked with
    | cons ht hrest =>
    rename_i t ts
    have hanswered := answer_convert_some (env turn) t data s
    obtain ⟨u, hu, hfor, hwritten⟩ :=
      hanswered.writtenFor n (hlive t List.mem_cons_self)
    have hk : Kept s t (answer t (lorieConvertSelection (env turn) t (some data) s)) :=
      Kept.answer (Kept.lorieConvertSelection ..)
    -- an answer disconnects nobody, so the others still find their clients
    have hlive' : ∀ t' ∈ ts, Live
        { answer t (lorieConvertSelection (env turn) t (some data) s) with
          lorieDataTargetHead := ts } t' := by
      intro t' ht'
      refine (congrFun hk.client t'.client).trans ?_
      exact hlive t' (List.mem_cons_of_mem t ht')
    obtain ⟨hfst, hanswers, hrestWritten⟩ := ih ts (turn + 1) _ hrest hlive'
    refine ⟨?_, ?_, ?_⟩
    · rw [answersOf, hfor, List.map_append, hfst]
      rfl
    · intro p hp
      rw [answersOf, hfor] at hp
      rcases List.mem_cons.mp hp with rfl | hp
      · exact ⟨t, ht, hu⟩
      · exact hanswers p hp
    · rw [answerAll, hrestWritten, answersOf, hfor]
      show (answer t (lorieConvertSelection (env turn) t (some data) s)).written ++ _ = _
      rw [hwritten, List.append_assoc]
      rfl

/-! ### Accounts -/

/-- Of the requests so far, each is on the list or was answered once. -/
structure Accounts (tr : Tracked) : Prop where
  /-- no client that waits has gone -/
  live : AllLive tr.state
  waiting : List.Forall₂ (fun n t => tr.asked[n]? = some t) tr.waiting tr.state.lorieDataTargetHead
  nodup : tr.waiting.Nodup
  /-- an event is the answer to the request it was written for -/
  answers : ∀ p ∈ tr.answers, ∃ t, tr.asked[p.1]? = some t ∧ IsAnswer t p.2
  /-- every event is somebody's answer -/
  written : tr.state.written = tr.answers.map Prod.snd
  times : ∀ n < tr.asked.length, tr.times n = if n ∈ tr.waiting then 0 else 1

theorem accounts_initial : Accounts {} :=
  ⟨allLive_initial, .nil, List.nodup_nil, fun _ hp => absurd hp List.not_mem_nil, rfl,
    fun n hn => absurd hn (Nat.not_lt_zero n)⟩

/-- The numbers on the list are numbers of requests. -/
theorem Accounts.waiting_lt (h : Accounts tr) {n : ℕ} (hn : n ∈ tr.waiting) :
    n < tr.asked.length := by
  have hall : ∀ ns ts, List.Forall₂ (fun n t => tr.asked[n]? = some t) ns ts → n ∈ ns →
      ∃ t, tr.asked[n]? = some t := by
    intro ns ts hforall
    induction hforall with
    | nil => exact fun hmem => absurd hmem List.not_mem_nil
    | cons ht _ ih =>
      intro hmem
      rcases List.mem_cons.mp hmem with rfl | hmem
      · exact ⟨_, ht⟩
      · exact ih hmem
  obtain ⟨t, ht⟩ := hall _ _ h.waiting hn
  exact (List.getElem?_eq_some_iff.mp ht).1

/-- Nobody is answered before it asked. -/
theorem Accounts.times_eq_zero (h : Accounts tr) {n : ℕ} (hn : tr.asked.length ≤ n) :
    tr.times n = 0 := by
  refine List.count_eq_zero.mpr fun hmem => ?_
  obtain ⟨p, hp, rfl⟩ := List.mem_map.mp hmem
  obtain ⟨t, ht, -⟩ := h.answers p hp
  have hlt := (List.getElem?_eq_some_iff.mp ht).1
  omega

/-- No request is answered twice. -/
theorem Accounts.times_le_one (h : Accounts tr) (n : ℕ) : tr.times n ≤ 1 := by
  by_cases hn : n < tr.asked.length
  · rw [h.times n hn]
    split
    · exact Nat.zero_le 1
    · exact Nat.le_refl 1
  · rw [h.times_eq_zero (Nat.not_lt.mp hn)]
    exact Nat.zero_le 1

/-- A request that did not reach the selection changes nothing. -/
theorem proc_of_not_reaches {env : Env} {c connection : ℕ} {r : Request} (h : ¬ Reaches s r) :
    (lorieProcConvertSelection env c connection r s).2 = s := by
  rw [lorieProcConvertSelection]
  split_ifs with hwindow hatoms howned
  · rfl
  · exfalso
    refine h ⟨?_, howned⟩
    rintro (hrejected | hrejected)
    · exact hwindow hrejected
    · rw [hatoms] at hrejected
      exact absurd hrejected (by decide)
  · rfl
  · rfl

/-- A rejected request gets an error. -/
theorem proc_of_rejected {env : Env} {c connection : ℕ} {r : Request} (h : r.Rejected) :
    (lorieProcConvertSelection env c connection r s).1 ≠ .success := by
  rw [lorieProcConvertSelection]
  by_cases hwindow : r.window = .success
  · have hatoms : ¬ r.validAtoms = true := by
      rw [h.resolve_left (not_not.mpr hwindow)]
      decide
    rw [if_neg (not_not.mpr hwindow), if_pos hatoms]
    exact Status.noConfusion
  · rw [if_pos hwindow]
    exact hwindow

/-- One that reached it is converted, and answered if that failed. -/
theorem proc_of_reaches {env : Env} {c connection : ℕ} {r : Request} (h : Reaches s r) :
    (lorieProcConvertSelection env c connection r s).2 =
      answer (r.dataTarget c connection)
        (lorieConvertSelection env (r.dataTarget c connection) s.cachedData s) := by
  obtain ⟨hok, howned⟩ := h
  rw [Request.Rejected, not_or] at hok
  rw [lorieProcConvertSelection, if_neg hok.1, if_neg (not_not.mpr (eq_true_of_ne_false hok.2)),
    if_pos howned]
  rfl

/-! ### Steps -/

/-- What else happens writes no event, and leaves the list. -/
theorem quiet_step {a : Act} (hconvert : ∀ c r env, a ≠ .convertSelection c r env)
    (hdata : ∀ data env, a ≠ .data data env) (hstep : Clipboard.step s a = some s') :
    s'.written = s.written ∧ s'.lorieDataTargetHead = s.lorieDataTargetHead := by
  cases a with
  | connect c =>
    obtain ⟨-, rfl⟩ := step_connect hstep
    exact ⟨rfl, rfl⟩
  | disconnect c =>
    obtain rfl := step_disconnect hstep
    exact ⟨rfl, rfl⟩
  | convertSelection c r env => exact absurd rfl (hconvert c r env)
  | setOwner c =>
    obtain ⟨connection, -, rfl⟩ := Option.map_eq_some_iff.mp hstep
    exact ⟨rfl, rfl⟩
  | dropOwner =>
    obtain rfl := Option.some_inj.mp hstep
    exact ⟨rfl, rfl⟩
  | announce rc =>
    obtain rfl := Option.some_inj.mp hstep
    rw [lorieHandleClipboardAnnounce]
    split
    · exact ⟨rfl, rfl⟩
    · exact ⟨rfl, rfl⟩
  | data data env => exact absurd rfl (hdata data env)

/-- Where the numbers stay as they are, the accounts do. -/
theorem Accounts.of_quiet (h : Accounts tr) (hlive : AllLive s')
    (hwritten : s'.written = tr.state.written)
    (hhead : s'.lorieDataTargetHead = tr.state.lorieDataTargetHead) :
    Accounts { tr with state := s' } :=
  ⟨hlive, hhead ▸ h.waiting, h.nodup, h.answers, hwritten.trans h.written, h.times⟩

theorem Forall₂_of_append {asked more : List DataTarget} {ns : List ℕ} {ts : List DataTarget}
    (h : List.Forall₂ (fun n t => asked[n]? = some t) ns ts) :
    List.Forall₂ (fun n t => (asked ++ more)[n]? = some t) ns ts := by
  refine h.imp fun n t ht => ?_
  have hlt := (List.getElem?_eq_some_iff.mp ht).1
  rw [List.getElem?_append_left hlt, ht]

/-- The answers so far stay answers when another request comes. -/
theorem Accounts.answers_append (h : Accounts tr) (t : DataTarget) :
    ∀ p ∈ tr.answers, ∃ t', (tr.asked ++ [t])[p.1]? = some t' ∧ IsAnswer t' p.2 := by
  intro p hp
  obtain ⟨t', ht', hanswer⟩ := h.answers p hp
  have hlt := (List.getElem?_eq_some_iff.mp ht').1
  exact ⟨t', (List.getElem?_append_left hlt).trans ht', hanswer⟩

/-- The number of a new request is not on the list yet. -/
theorem Accounts.length_not_mem (h : Accounts tr) : tr.asked.length ∉ tr.waiting :=
  fun hmem => absurd (h.waiting_lt hmem) (Nat.lt_irrefl _)

theorem lt_or_eq_of_lt_append {asked : List DataTarget} {t : DataTarget} {n : ℕ}
    (hn : n < (asked ++ [t]).length) : n < asked.length ∨ n = asked.length := by
  rw [List.length_append, List.length_singleton] at hn
  omega

/-- A request that waits. -/
theorem Accounts.parked (h : Accounts tr) (hlive : AllLive s') (hparked : Parked tr.state t s') :
    Accounts
      { state := s'
        asked := tr.asked ++ [t]
        waiting := tr.asked.length :: tr.waiting
        answers := tr.answers } where
  live := hlive
  waiting := by
    rw [hparked.head]
    exact .cons List.getElem?_concat_length (Forall₂_of_append h.waiting)
  nodup := List.nodup_cons.mpr ⟨h.length_not_mem, h.nodup⟩
  answers := h.answers_append t
  written := hparked.written.trans h.written
  times := by
    intro n hn
    rcases lt_or_eq_of_lt_append hn with hlt | rfl
    · have hne : n ≠ tr.asked.length := Nat.ne_of_lt hlt
      refine (h.times n hlt).trans ?_
      simp only [List.mem_cons, hne, false_or]
    · rw [if_pos List.mem_cons_self]
      exact h.times_eq_zero (Nat.le_refl _)

/-- A request that is answered at once. -/
theorem Accounts.answered (h : Accounts tr) (hlive : AllLive s')
    (hhead : s'.lorieDataTargetHead = tr.state.lorieDataTargetHead) {u : Use} (hu : IsAnswer t u)
    (hwritten : s'.written = tr.state.written ++ [u]) :
    Accounts
      { state := s'
        asked := tr.asked ++ [t]
        waiting := tr.waiting
        answers := tr.answers ++ [(tr.asked.length, u)] } where
  live := hlive
  waiting := by
    rw [hhead]
    exact Forall₂_of_append h.waiting
  nodup := h.nodup
  answers := by
    intro p hp
    rcases List.mem_append.mp hp with hp | hp
    · exact h.answers_append t p hp
    · obtain rfl := List.mem_singleton.mp hp
      exact ⟨t, List.getElem?_concat_length, hu⟩
  written := by
    rw [hwritten, h.written, List.map_append]
    rfl
  times := by
    intro n hn
    have htimes : ((tr.answers ++ [(tr.asked.length, u)]).map Prod.fst).count n =
        tr.times n + [tr.asked.length].count n := by
      rw [List.map_append, List.count_append]
      rfl
    refine htimes.trans ?_
    rcases lt_or_eq_of_lt_append hn with hlt | rfl
    · have hne : tr.asked.length ≠ n := (Nat.ne_of_lt hlt).symm
      have hcount : [tr.asked.length].count n = 0 :=
        List.count_eq_zero.mpr fun hmem => hne (List.mem_singleton.mp hmem).symm
      rw [hcount, Nat.add_zero, h.times n hlt]
    · rw [h.times_eq_zero (Nat.le_refl _), List.count_singleton_self, if_neg h.length_not_mem]

/-- The text answers everybody on the list. -/
theorem Accounts.data (h : Accounts tr) (env : ℕ → Env) (data : Data) :
    let s' := lorieHandleClipboardData env data tr.state
    Accounts (tr.next s' (.data data env)) ∧ (tr.next s' (.data data env)).waiting = [] := by
  have hcached : State.written { tr.state with cachedData := some data } = tr.state.written := rfl
  obtain ⟨hfst, hanswers, hwritten⟩ := answersOf_spec env data tr.asked tr.waiting
    tr.state.lorieDataTargetHead 0 { tr.state with cachedData := some data } h.waiting h.live
  have hhead : (lorieHandleClipboardData env data tr.state).lorieDataTargetHead = [] :=
    answerAll_waiting env data _ 0 { tr.state with cachedData := some data } rfl
  have hdrop : tr.waiting.drop tr.state.lorieDataTargetHead.length = [] := by
    rw [← h.waiting.length_eq]
    exact List.drop_length
  refine ⟨⟨?_, ?_, ?_, ?_, ?_, ?_⟩, hdrop⟩
  · intro t ht
    rw [next_state, hhead] at ht
    exact absurd ht List.not_mem_nil
  · rw [next_state, hhead]
    show List.Forall₂ _ (tr.waiting.drop tr.state.lorieDataTargetHead.length) []
    rw [hdrop]
    exact .nil
  · show (tr.waiting.drop tr.state.lorieDataTargetHead.length).Nodup
    rw [hdrop]
    exact List.nodup_nil
  · intro p hp
    rcases List.mem_append.mp hp with hp | hp
    · exact h.answers p hp
    · exact hanswers p hp
  · rw [next_state]
    show _ = (tr.answers ++ _).map Prod.snd
    rw [List.map_append, ← h.written, ← hcached, ← hwritten]
    rfl
  · intro n hn
    -- Who waited is answered now, and nobody is left.
    have htimes : (tr.next (lorieHandleClipboardData env data tr.state) (.data data env)).times n =
        tr.times n + tr.waiting.count n := by
      rw [Tracked.times, Tracked.next, List.map_append, hfst, List.count_append]
      rfl
    rw [htimes, h.times n hn]
    show _ = if n ∈ tr.waiting.drop tr.state.lorieDataTargetHead.length then 0 else 1
    rw [hdrop, if_neg List.not_mem_nil]
    split_ifs with hmem
    · rw [List.count_eq_one_of_mem h.nodup hmem]
    · rw [List.count_eq_zero_of_not_mem hmem]

/-- When and how the step answers: a conversion that needs no text at once, one that does
with the next text; nobody else gets an event. -/
def Prompt (tr : Tracked) (a : Act) : Prop :=
  ∀ tr', tr.step a = some tr' →
    match a with
    | .convertSelection c r env =>
      let t := r.dataTarget c ((tr.state.client c).getD 0)
      if Reaches tr.state r then
        tr'.asked = tr.asked ++ [t] ∧
          if NeedsText env t tr.state.cachedData then
            tr'.answers = tr.answers ∧ tr'.waiting = tr.asked.length :: tr.waiting
          else ∃ u, IsAnswer t u ∧ tr'.answers = tr.answers ++ [(tr.asked.length, u)]
      else
        tr' = tr ∧ (r.Rejected →
          (lorieProcConvertSelection env c t.asked r tr.state).1 ≠ .success)
    | .data _ _ =>
      tr'.state.lorieDataTargetHead = [] ∧ ∀ n < tr'.asked.length, tr'.times n = 1
    | _ => tr'.asked = tr.asked ∧ tr'.answers = tr.answers

/-- A `ConvertSelection` request keeps the accounts, and is answered in time. -/
theorem Accounts.convertSelection (h : Accounts tr) {c connection : ℕ} (r : Request) (env : Env)
    (hc : tr.state.client c = some connection) :
    let s' := (lorieProcConvertSelection env c connection r tr.state).2
    let t := r.dataTarget c connection
    Accounts (tr.next s' (.convertSelection c r env)) ∧
      if Reaches tr.state r then
        (tr.next s' (.convertSelection c r env)).asked = tr.asked ++ [t] ∧
          if NeedsText env t tr.state.cachedData then
            (tr.next s' (.convertSelection c r env)).answers = tr.answers ∧
              (tr.next s' (.convertSelection c r env)).waiting = tr.asked.length :: tr.waiting
          else ∃ u, IsAnswer t u ∧ (tr.next s' (.convertSelection c r env)).answers =
            tr.answers ++ [(tr.asked.length, u)]
      else tr.next s' (.convertSelection c r env) = tr := by
  intro s' t
  have hlive' : AllLive s' := allLive_step (a := .convertSelection c r env) h.live trivial
    (by rw [Clipboard.step, hc]; rfl)
  by_cases hreaches : Reaches tr.state r
  swap
  · -- refused or not owned by Android: no number is given
    have hs' : s' = tr.state := proc_of_not_reaches hreaches
    have hnext : tr.next s' (.convertSelection c r env) = tr := by
      rw [Tracked.next, if_neg hreaches, hs']
    rw [if_neg hreaches, hnext]
    exact ⟨h, rfl⟩
  have hs' : s' = answer t (lorieConvertSelection env t tr.state.cachedData tr.state) :=
    proc_of_reaches hreaches
  have hconvert := answer_convert env t tr.state.cachedData tr.state
  rw [if_pos hreaches, Tracked.next, if_pos hreaches, hc]
  rw [← hs'] at hconvert
  -- the list grows exactly where the conversion waits, so the numbers follow it
  split_ifs at hconvert with hneeds
  · rw [if_neg hconvert.head_ne, hconvert.writtenFor, List.append_nil, if_pos hneeds]
    exact ⟨h.parked hlive' hconvert, rfl, rfl, rfl⟩
  · obtain ⟨u, hu, hfor, hwritten⟩ := hconvert.writtenFor tr.asked.length (show Live _ t from hc)
    rw [if_pos hconvert.head, hfor, if_neg hneeds]
    exact ⟨h.answered hlive' hconvert.head hu hwritten, rfl, u, hu, rfl⟩

theorem Accounts.step {a : Act} (h : Accounts tr) (hstay : StaysWhileWaiting tr.state a)
    (hstep : tr.step a = some tr') : Accounts tr' := by
  obtain ⟨s', hs', rfl⟩ := Option.map_eq_some_iff.mp hstep
  have hquiet (hconvert : ∀ c r env, a ≠ .convertSelection c r env)
      (hdata : ∀ data env, a ≠ .data data env) : Accounts { tr with state := s' } := by
    obtain ⟨hwritten, hhead⟩ := quiet_step hconvert hdata hs'
    exact h.of_quiet (allLive_step h.live hstay hs') hwritten hhead
  cases a with
  | convertSelection c r env =>
    obtain ⟨connection, hc, rfl⟩ := Option.map_eq_some_iff.mp hs'
    exact (h.convertSelection r env hc).1
  | data data env =>
    obtain rfl := Option.some_inj.mp hs'
    exact (h.data env data).1
  | connect c => exact hquiet (fun _ _ _ => Act.noConfusion) (fun _ _ => Act.noConfusion)
  | disconnect c => exact hquiet (fun _ _ _ => Act.noConfusion) (fun _ _ => Act.noConfusion)
  | setOwner c => exact hquiet (fun _ _ _ => Act.noConfusion) (fun _ _ => Act.noConfusion)
  | dropOwner => exact hquiet (fun _ _ _ => Act.noConfusion) (fun _ _ => Act.noConfusion)
  | announce rc => exact hquiet (fun _ _ _ => Act.noConfusion) (fun _ _ => Act.noConfusion)

theorem Accounts.prompt (h : Accounts tr) (a : Act) : Prompt tr a := by
  intro tr' hstep
  obtain ⟨s', hs', rfl⟩ := Option.map_eq_some_iff.mp hstep
  cases a with
  | convertSelection c r env =>
    obtain ⟨connection, hc, rfl⟩ := Option.map_eq_some_iff.mp hs'
    have hconvert := (h.convertSelection r env hc).2
    dsimp only
    rw [hc, Option.getD_some]
    split_ifs at hconvert ⊢ with hreaches hneeds
    · exact hconvert
    · exact hconvert
    · exact ⟨hconvert, fun hrejected => proc_of_rejected hrejected⟩
  | data data env =>
    obtain rfl := Option.some_inj.mp hs'
    obtain ⟨hafter, hwaiting⟩ := h.data env data
    refine ⟨?_, fun n hn => ?_⟩
    · rw [next_state]
      exact answerAll_waiting env data _ 0 { tr.state with cachedData := some data } rfl
    · rw [hafter.times n hn, hwaiting, if_neg List.not_mem_nil]
  | connect c => exact ⟨rfl, rfl⟩
  | disconnect c => exact ⟨rfl, rfl⟩
  | setOwner c => exact ⟨rfl, rfl⟩
  | dropOwner => exact ⟨rfl, rfl⟩
  | announce rc => exact ⟨rfl, rfl⟩

/-! ### Every conversion -/

/-- Over any run in which no client goes while it waits, every event is the answer to one
request, no request gets two, and each gets its answer at once or with the next text,
which leaves nobody waiting. -/
theorem conversions_answered_once {as : List Act}
    (hstay : Meets Clipboard.step StaysWhileWaiting {} as)
    (hrun : run Clipboard.step {} as = some s) :
    ∃ tr, run Tracked.step {} as = some tr ∧ tr.state = s ∧
      s.written = tr.answers.map Prod.snd ∧
      (∀ p ∈ tr.answers, ∃ t, tr.asked[p.1]? = some t ∧ IsAnswer t p.2) ∧
      (∀ n, tr.times n ≤ 1) ∧ Meets Tracked.step Prompt {} as := by
  have hmap := run_map step_state as {}
  rw [show run Clipboard.step (Tracked.state {}) as = some s from hrun] at hmap
  obtain ⟨tr, htr, rfl⟩ := Option.map_eq_some_iff.mp hmap
  have hstay' : Meets Tracked.step (fun tr a => StaysWhileWaiting tr.state a) {} as :=
    Meets.of_map step_state hstay
  have h : Accounts tr :=
    run_invariant (fun tr a tr' h hok => h.step hok) accounts_initial hstay' htr
  refine ⟨tr, htr, rfl, h.written, h.answers, h.times_le_one, ?_⟩
  exact Meets.of_invariant (fun tr a tr' h hok => h.step hok) (fun tr a h _ => h.prompt a)
    accounts_initial hstay'

/-- Two clients ask before the text is there, one of them for the targets; an announcement
comes before the text, and one asks again after it. -/
def asksAround : List Act :=
  [.connect 1, .connect 2, .announce .success,
   .convertSelection 1 ⟨.clipboard, .utf8String, none, 7, 0, .success, .success, true⟩ {},
   .convertSelection 2 ⟨.clipboard, .targets, none, 9, 0, .success, .success, true⟩ {},
   .announce .success, .data [104, 105] (fun _ => {}),
   .convertSelection 2 ⟨.clipboard, .string, some .text, 9, 1, .success, .success, true⟩ {}]

theorem asksAround_answered :
    ∃ tr, run Tracked.step {} asksAround = some tr ∧ (∀ n, tr.times n ≤ 1) ∧
      Meets Tracked.step Prompt {} asksAround := by
  have hstay : Meets Clipboard.step StaysWhileWaiting {} asksAround :=
    meets_cons_of_eq rfl trivial (meets_cons_of_eq rfl trivial (meets_cons_of_eq rfl trivial
      (meets_cons_of_eq rfl trivial (meets_cons_of_eq rfl trivial (meets_cons_of_eq rfl trivial
        (meets_cons_of_eq rfl trivial (meets_cons_of_eq rfl trivial (meets_nil _))))))))
  obtain ⟨tr, htr, -, -, -, htimes, hprompt⟩ := conversions_answered_once hstay
    (show run Clipboard.step {} asksAround = some _ from rfl)
  exact ⟨tr, htr, htimes, hprompt⟩

end Lorie.Clipboard
