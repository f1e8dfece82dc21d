/-
The selection the server owns for the activity's clipboard (`clipboard.c`).

A conversion that needs the text before it is there waits on a list, with the pointer to
the client that asked.  Clients come and go meanwhile; the memory of one that is gone
may be that of a later one.  `client` says which connection a pointer leads to.

What the server asks of others is part of an action (`Env`): lookups, property changes
and allocations, each with its status.

* `lorieConvertSelection`, `lorieHandleClipboardData` — the code;
* `step` — clients, conversions, announcements and texts, in any order;
* `answers_live_clients_iff` — when no pointer to a client that is gone is used.
-/
import KaliGui.Lib.Run
import Mathlib.Data.Nat.Notation
import Mathlib.Logic.Function.Basic

namespace Lorie.Clipboard

open Machine

/-! ### Data -/

/-- An atom; those the server interns are apart. -/
inductive Atom
  | targets
  | timestamp
  | string
  | text
  | utf8String
  | clipboard
  | other (n : ℕ)
  deriving DecidableEq, Repr

inductive Status
  | success
  | badMatch
  | badAlloc
  | badAtom
  /-- any other error of a lookup or a property change -/
  | error (code : ℕ)
  deriving DecidableEq, Repr

abbrev Data := List UInt8

/-- What `dixChangeWindowProperty` is given. -/
inductive PropertyData
  | targets (atoms : List Atom)
  | timestamp
  /-- `lorieUtf8ToLatin1` of the text -/
  | latin1 (text : Data)
  | utf8 (text : Data)
  deriving DecidableEq, Repr

structure PropertyChange where
  requestor : ℕ
  property : Atom
  data : PropertyData
  deriving DecidableEq, Repr

/-- The members of a `SelectionNotify` event. -/
structure SelectionNotify where
  time : ℕ
  requestor : ℕ
  selection : Atom
  target : Atom
  property : Option Atom
  deriving DecidableEq, Repr

/-- `LorieDataTarget`; `asked` is the connection that made the request. -/
structure DataTarget where
  client : ℕ
  asked : ℕ
  selection : Atom
  target : Atom
  property : Option Atom
  requestor : ℕ
  time : ℕ
  deriving DecidableEq, Repr

inductive Call
  | lookupSelection
  | lookupWindow (requestor : ℕ)
  | writeEvent (event : SelectionNotify)
  deriving DecidableEq, Repr

/-- A use of the pointer to a client: which connection it led to, and which one it was
meant for. -/
structure Use where
  call : Call
  reached : Option ℕ
  asked : ℕ
  deriving DecidableEq, Repr

/-- `pSel->client` of CLIPBOARD. -/
inductive Owner
  | nobody
  | server
  | client (c : ℕ)
  deriving DecidableEq, Repr

structure State where
  /-- the connection a pointer leads to -/
  client : ℕ → Option ℕ := fun _ => none
  /-- the connections so far -/
  connections : ℕ := 0
  owner : Owner := .nobody
  cachedData : Option Data := none
  lorieDataTargetHead : List DataTarget := []
  /-- the calls of `lorieRequestClipboard` -/
  requests : ℕ := 0
  changes : List PropertyChange := []
  /-- the clients that got a `SelectionClear` -/
  cleared : List ℕ := []
  uses : List Use := []

/-- What the code asks of others while it converts. -/
structure Env where
  /-- `dixLookupSelection` -/
  selection : Status := .success
  /-- `dixLookupWindow` -/
  window : Status := .success
  /-- `dixChangeWindowProperty` -/
  changes : Status := .success
  /-- `calloc` and `strdup` -/
  allocates : Bool := true

/-! ### Converting -/

/-- A use of the request's client. -/
def State.use (s : State) (t : DataTarget) (call : Call) : State :=
  { s with uses := s.uses ++ [⟨call, s.client t.client, t.asked⟩] }

def State.change (s : State) (c : PropertyChange) : State := { s with changes := s.changes ++ [c] }

def DataTarget.notify (t : DataTarget) (property : Option Atom) : SelectionNotify :=
  ⟨t.time, t.requestor, t.selection, t.target, property⟩

/-- The end of `lorieConvertSelection`, after a property change. -/
def notifyChanged (t : DataTarget) (change : PropertyData) (rc : Status) (s : State) :
    Status × State :=
  if rc = .success then
    (.success, (s.change ⟨t.requestor, t.property.getD t.target, change⟩).use t
      (.writeEvent (t.notify t.property)))
  else (rc, s)

/-- The branch of `lorieConvertSelection` for the targets that need the text. -/
def convertText (env : Env) (t : DataTarget) (data : Option Data) (s : State) : Status × State :=
  match data with
  | none =>
    if t.target ≠ .string ∧ t.target ≠ .text ∧ t.target ≠ .utf8String then (.badMatch, s)
    else if ¬ env.allocates then (.badAlloc, s)
    else
      (.success, { s with
        lorieDataTargetHead := t :: s.lorieDataTargetHead
        requests := s.requests + 1 })
  | some data =>
    if t.target = .string ∨ t.target = .text then
      if ¬ env.allocates then (.badAlloc, s)
      else notifyChanged t (.latin1 data) env.changes s
    else if t.target = .utf8String then notifyChanged t (.utf8 data) env.changes s
    else (.badMatch, s)

def lorieConvertSelection (env : Env) (t : DataTarget) (data : Option Data) (s : State) :
    Status × State :=
  let s := s.use t .lookupSelection
  if env.selection ≠ .success then (env.selection, s)
  else
    let s := s.use t (.lookupWindow t.requestor)
    if env.window ≠ .success then (env.window, s)
    else if t.target = .targets then
      notifyChanged t (.targets [.targets, .timestamp, .string, .text, .utf8String]) env.changes s
    else if t.target = .timestamp then notifyChanged t .timestamp env.changes s
    else convertText env t data s

/-- What the callers of `lorieConvertSelection` do when it fails. -/
def answer (t : DataTarget) (r : Status × State) : State :=
  if r.1 = .success then r.2 else r.2.use t (.writeEvent (t.notify none))

/-! ### The entry points -/

/-- A `ConvertSelection` request, with what its checks find. -/
structure Request where
  selection : Atom
  target : Atom
  property : Option Atom
  requestor : ℕ
  time : ℕ
  /-- the first `dixLookupWindow` -/
  window : Status := .success
  /-- the first `dixLookupSelection` -/
  lookup : Status := .success
  /-- `ValidAtom` of all three -/
  validAtoms : Bool := true

/-- `lorieProcConvertSelection` for a client that is connected. -/
def lorieProcConvertSelection (env : Env) (client connection : ℕ) (r : Request) (s : State) :
    Status × State :=
  if r.window ≠ .success then (r.window, s)
  else if ¬ r.validAtoms then (.badAtom, s)
  else if r.lookup = .success ∧ r.selection = .clipboard ∧ s.owner = .server then
    let t : DataTarget :=
      ⟨client, connection, r.selection, r.target, r.property, r.requestor, r.time⟩
    (.success, answer t (lorieConvertSelection env t s.cachedData s))
  else (.success, s)

/-- `lorieHandleClipboardAnnounce`, with `lorieOwnSelection`. -/
def lorieHandleClipboardAnnounce (rc : Status) (s : State) : State :=
  let s := { s with cachedData := none }
  if rc = .success then
    { s with
      owner := .server
      cleared := match s.owner with
        | .client c => s.cleared ++ [c]
        | _ => s.cleared }
  else s

/-- The loop of `lorieHandleClipboardData` over the list; `env` by turn. -/
def answerAll (env : ℕ → Env) (data : Data) : ℕ → List DataTarget → State → State
  | _, [], s => s
  | turn, t :: ts, s =>
    let s := answer t (lorieConvertSelection (env turn) t (some data) s)
    answerAll env data (turn + 1) ts { s with lorieDataTargetHead := ts }

def lorieHandleClipboardData (env : ℕ → Env) (data : Data) (s : State) : State :=
  answerAll env data 0 s.lorieDataTargetHead { s with cachedData := some data }

/-! ### Steps -/

inductive Act
  /-- a client connects; its memory is at the pointer -/
  | connect (client : ℕ)
  /-- a client goes, and is freed -/
  | disconnect (client : ℕ)
  | convertSelection (client : ℕ) (r : Request) (env : Env)
  /-- `SetSelectionOwner` of a client -/
  | setOwner (client : ℕ)
  /-- the owner gives the selection up, or its window is destroyed -/
  | dropOwner
  | announce (rc : Status)
  | data (data : Data) (env : ℕ → Env)

def step (s : State) : Act → Option State
  | .connect c =>
    match s.client c with
    | none => some { s with
        client := Function.update s.client c (some s.connections)
        connections := s.connections + 1 }
    | some _ => none
  | .disconnect c =>
    match s.client c with
    | none => none
    | some _ => some { s with
        client := Function.update s.client c none
        owner := if s.owner = .client c then .nobody else s.owner }
  | .convertSelection c r env =>
    (s.client c).map fun connection => (lorieProcConvertSelection env c connection r s).2
  | .setOwner c => (s.client c).map fun _ => { s with owner := .client c }
  | .dropOwner => some { s with owner := .nobody }
  | .announce rc => some (lorieHandleClipboardAnnounce rc s)
  | .data data env => some (lorieHandleClipboardData env data s)

/-! ### Live clients -/

/-- Every use of a client's pointer led to the client that asked. -/
def AnswersLive (s : State) : Prop := ∀ u ∈ s.uses, u.reached = some u.asked

/-- No client goes while a conversion it asked for waits for the text. -/
def StaysWhileWaiting (s : State) : Act → Prop
  | .disconnect c => ∀ t ∈ s.lorieDataTargetHead, t.client ≠ c
  | _ => True

/-- The request's pointer leads to the client that made it. -/
def Live (s : State) (t : DataTarget) : Prop := s.client t.client = some t.asked

def AllLive (s : State) : Prop := ∀ t ∈ s.lorieDataTargetHead, Live s t

/-- When the text comes, no client that waits for it has gone. -/
def TextFindsClients (s : State) : Act → Prop
  | .data _ _ => AllLive s
  | _ => True

theorem allLive_initial : AllLive {} := fun _ ht => absurd ht List.not_mem_nil

theorem answersLive_initial : AnswersLive {} := fun _ hu => absurd hu List.not_mem_nil

variable {s s' : State} {t : DataTarget}

/-! ### What converting keeps -/

/-- What a conversion for a client that is there may do. -/
structure Kept (s : State) (t : DataTarget) (s' : State) : Prop where
  client : s'.client = s.client
  waiting : s'.lorieDataTargetHead = s.lorieDataTargetHead ∨
    s'.lorieDataTargetHead = t :: s.lorieDataTargetHead
  uses : ∀ u ∈ s'.uses, u ∈ s.uses ∨ u.reached = s.client t.client ∧ u.asked = t.asked

theorem Kept.refl (s : State) (t : DataTarget) : Kept s t s := ⟨rfl, .inl rfl, fun _ => .inl⟩

theorem Kept.use (h : Kept s t s') (call : Call) : Kept s t (s'.use t call) := by
  refine ⟨h.client, h.waiting, fun u hu => ?_⟩
  rcases List.mem_append.mp hu with hu | hu
  · exact h.uses u hu
  · rw [List.mem_singleton.mp hu]
    exact .inr ⟨congrFun h.client t.client, rfl⟩

theorem Kept.change (h : Kept s t s') (c : PropertyChange) : Kept s t (s'.change c) :=
  ⟨h.client, h.waiting, h.uses⟩

theorem Kept.notifyChanged (h : Kept s t s') (change : PropertyData) (rc : Status) :
    Kept s t (notifyChanged t change rc s').2 := by
  rw [Clipboard.notifyChanged]
  split
  · exact (h.change _).use _
  · exact h

theorem Kept.lorieConvertSelection (env : Env) (t : DataTarget) (data : Option Data) (s : State) :
    Kept s t (lorieConvertSelection env t data s).2 := by
  have h₁ := (Kept.refl s t).use .lookupSelection
  have h₂ := h₁.use (.lookupWindow t.requestor)
  simp only [Clipboard.lorieConvertSelection]
  split
  · exact h₁
  split
  · exact h₂
  split
  · exact h₂.notifyChanged _ _
  split
  · exact h₂.notifyChanged _ _
  simp only [convertText]
  cases data with
  | none =>
    dsimp only
    split
    · exact h₂
    split
    · exact h₂
    · exact ⟨rfl, .inr rfl, h₂.uses⟩
  | some data =>
    dsimp only
    split
    · split
      · exact h₂
      · exact h₂.notifyChanged _ _
    split
    · exact h₂.notifyChanged _ _
    · exact h₂

theorem Kept.answer {r : Status × State} (h : Kept s t r.2) : Kept s t (answer t r) := by
  rw [Clipboard.answer]
  split
  · exact h
  · exact h.use _

/-! ### What a conversion for a client that is there keeps -/

theorem Kept.allLive (hk : Kept s t s') (ht : Live s t) (h : AllLive s) : AllLive s' := by
  intro t' ht'
  rw [Live, hk.client]
  rcases hk.waiting with hsame | hpushed
  · exact h t' (hsame ▸ ht')
  · rcases List.mem_cons.mp (hpushed ▸ ht') with rfl | ht'
    · exact ht
    · exact h t' ht'

theorem Kept.answersLive (hk : Kept s t s') (ht : Live s t) (h : AnswersLive s) :
    AnswersLive s' := by
  intro u hu
  rcases hk.uses u hu with hold | ⟨hreached, hasked⟩
  · exact h u hold
  · rw [hreached, hasked]
    exact ht

/-- The loop answers only clients that are there. -/
theorem AnswersLive.answerAll (env : ℕ → Env) (data : Data) :
    ∀ (ts : List DataTarget) (turn : ℕ) (s : State), AnswersLive s → (∀ t ∈ ts, Live s t) →
      AnswersLive (answerAll env data turn ts s) := by
  intro ts
  induction ts with
  | nil => exact fun _ _ h _ => h
  | cons t ts ih =>
    intro turn s h hts
    have ht := hts t List.mem_cons_self
    have hk : Kept s t (answer t (Clipboard.lorieConvertSelection (env turn) t (some data) s)) :=
      Kept.answer (Kept.lorieConvertSelection ..)
    have hlive : ∀ t' ∈ ts, Live (answer t
        (Clipboard.lorieConvertSelection (env turn) t (some data) s)) t' := by
      intro t' ht'
      rw [Live, hk.client]
      exact hts t' (List.mem_cons_of_mem t ht')
    exact ih (turn + 1) _ (hk.answersLive ht h) hlive

/-- The loop leaves nobody waiting. -/
theorem answerAll_waiting (env : ℕ → Env) (data : Data) :
    ∀ (ts : List DataTarget) (turn : ℕ) (s : State), s.lorieDataTargetHead = ts →
      (answerAll env data turn ts s).lorieDataTargetHead = [] := by
  intro ts
  induction ts with
  | nil => exact fun _ _ hs => hs
  | cons t ts ih => exact fun turn s _ => ih (turn + 1) _ rfl

/-- What a `ConvertSelection` request does, it does for its client. -/
theorem Kept.lorieProcConvertSelection (env : Env) {c connection : ℕ} (r : Request)
    (hc : s.client c = some connection) :
    ∃ t, Live s t ∧ Kept s t (lorieProcConvertSelection env c connection r s).2 := by
  let t : DataTarget :=
    ⟨c, connection, r.selection, r.target, r.property, r.requestor, r.time⟩
  refine ⟨t, hc, ?_⟩
  rw [Clipboard.lorieProcConvertSelection]
  split
  · exact Kept.refl s t
  split
  · exact Kept.refl s t
  split
  · exact Kept.answer (Kept.lorieConvertSelection ..)
  · exact Kept.refl s t

/-! ### Steps keep -/

theorem step_connect {c : ℕ} (hstep : step s (.connect c) = some s') :
    s.client c = none ∧ s' = { s with
      client := Function.update s.client c (some s.connections)
      connections := s.connections + 1 } := by
  simp only [step] at hstep
  split at hstep
  next hfree => exact ⟨hfree, (Option.some_inj.mp hstep).symm⟩
  · simp at hstep

theorem step_disconnect {c : ℕ} (hstep : step s (.disconnect c) = some s') :
    s' = { s with
      client := Function.update s.client c none
      owner := if s.owner = .client c then .nobody else s.owner } := by
  simp only [step] at hstep
  split at hstep
  · simp at hstep
  · exact (Option.some_inj.mp hstep).symm

theorem answersLive_step {a : Act} (h : AnswersLive s) (hok : TextFindsClients s a)
    (hstep : step s a = some s') : AnswersLive s' := by
  cases a with
  | connect c =>
    obtain ⟨-, rfl⟩ := step_connect hstep
    exact h
  | disconnect c =>
    obtain rfl := step_disconnect hstep
    exact h
  | convertSelection c r env =>
    obtain ⟨connection, hc, rfl⟩ := Option.map_eq_some_iff.mp hstep
    obtain ⟨t, ht, hk⟩ := Kept.lorieProcConvertSelection env r hc
    exact hk.answersLive ht h
  | setOwner c =>
    obtain ⟨connection, -, rfl⟩ := Option.map_eq_some_iff.mp hstep
    exact h
  | dropOwner =>
    obtain rfl := Option.some_inj.mp hstep
    exact h
  | announce rc =>
    obtain rfl := Option.some_inj.mp hstep
    rw [lorieHandleClipboardAnnounce]
    split
    · exact h
    · exact h
  | data data env =>
    obtain rfl := Option.some_inj.mp hstep
    exact AnswersLive.answerAll env data _ 0 { s with cachedData := some data } h hok

theorem allLive_step {a : Act} (h : AllLive s) (hok : StaysWhileWaiting s a)
    (hstep : step s a = some s') : AllLive s' := by
  cases a with
  | connect c =>
    obtain ⟨hfree, rfl⟩ := step_connect hstep
    intro t ht
    have hlive := h t ht
    -- the slot was free, so it is no waiting client's
    have hne : t.client ≠ c := by
      intro heq
      rw [Live, heq, hfree] at hlive
      simp at hlive
    exact (Function.update_of_ne hne ..).trans hlive
  | disconnect c =>
    obtain rfl := step_disconnect hstep
    exact fun t ht => (Function.update_of_ne (hok t ht) ..).trans (h t ht)
  | convertSelection c r env =>
    obtain ⟨connection, hc, rfl⟩ := Option.map_eq_some_iff.mp hstep
    obtain ⟨t, ht, hk⟩ := Kept.lorieProcConvertSelection env r hc
    exact hk.allLive ht h
  | setOwner c =>
    obtain ⟨connection, -, rfl⟩ := Option.map_eq_some_iff.mp hstep
    exact h
  | dropOwner =>
    obtain rfl := Option.some_inj.mp hstep
    exact h
  | announce rc =>
    obtain rfl := Option.some_inj.mp hstep
    rw [lorieHandleClipboardAnnounce]
    split
    · exact h
    · exact h
  | data data env =>
    obtain rfl := Option.some_inj.mp hstep
    have hdone : (lorieHandleClipboardData env data s).lorieDataTargetHead = [] :=
      answerAll_waiting env data s.lorieDataTargetHead 0 { s with cachedData := some data } rfl
    intro t ht
    rw [hdone] at ht
    exact absurd ht List.not_mem_nil

/-! ### A client that went -/

theorem mem_uses_use {u : Use} (hu : u ∈ s.uses) (t : DataTarget) (call : Call) :
    u ∈ (s.use t call).uses := List.mem_append_left _ hu

/-- A conversion forgets no use. -/
theorem mem_uses_notifyChanged {u : Use} (hu : u ∈ s.uses) (t : DataTarget)
    (change : PropertyData) (rc : Status) : u ∈ (notifyChanged t change rc s).2.uses := by
  rw [notifyChanged]
  split
  · exact mem_uses_use hu t _
  · exact hu

theorem mem_uses_convertText {u : Use} (hu : u ∈ s.uses) (env : Env) (t : DataTarget)
    (data : Option Data) : u ∈ (convertText env t data s).2.uses := by
  cases data with
  | none =>
    simp only [convertText]
    split
    · exact hu
    split
    · exact hu
    · exact hu
  | some data =>
    simp only [convertText]
    split
    · split
      · exact hu
      · exact mem_uses_notifyChanged hu ..
    split
    · exact mem_uses_notifyChanged hu ..
    · exact hu

/-- Every conversion starts with a use of its client, and forgets none. -/
theorem mem_uses_lorieConvertSelection {u : Use} (env : Env) (t : DataTarget) (data : Option Data)
    (hu : u ∈ (s.use t .lookupSelection).uses) :
    u ∈ (lorieConvertSelection env t data s).2.uses := by
  have hwindow := mem_uses_use hu t (.lookupWindow t.requestor)
  simp only [lorieConvertSelection]
  split
  · exact hu
  split
  · exact hwindow
  split
  · exact mem_uses_notifyChanged hwindow ..
  split
  · exact mem_uses_notifyChanged hwindow ..
  · exact mem_uses_convertText hwindow ..

theorem mem_uses_answer {u : Use} {r : Status × State} (hu : u ∈ r.2.uses) (t : DataTarget) :
    u ∈ (answer t r).uses := by
  rw [answer]
  split
  · exact hu
  · exact mem_uses_use hu t _

theorem mem_uses_answerAll {u : Use} (env : ℕ → Env) (data : Data) :
    ∀ (ts : List DataTarget) (turn : ℕ) (s : State), u ∈ s.uses →
      u ∈ (answerAll env data turn ts s).uses := by
  intro ts
  induction ts with
  | nil => exact fun _ _ hu => hu
  | cons t ts ih =>
    intro turn s hu
    have hfirst := mem_uses_lorieConvertSelection (env turn) t (some data)
      (mem_uses_use hu t .lookupSelection)
    exact ih (turn + 1) _ (mem_uses_answer hfirst t)

/-- The loop uses the pointer of every request that waits. -/
theorem answerAll_uses (env : ℕ → Env) (data : Data) :
    ∀ (ts : List DataTarget) (turn : ℕ) (s : State), t ∈ ts →
      ⟨.lookupSelection, s.client t.client, t.asked⟩ ∈ (answerAll env data turn ts s).uses := by
  intro ts
  induction ts with
  | nil => exact fun _ _ ht => absurd ht List.not_mem_nil
  | cons t' ts ih =>
    intro turn s ht
    have hk : Kept s t' (answer t' (lorieConvertSelection (env turn) t' (some data) s)) :=
      Kept.answer (Kept.lorieConvertSelection ..)
    rcases List.mem_cons.mp ht with rfl | ht
    · have hused : ⟨.lookupSelection, s.client t.client, t.asked⟩ ∈
          (s.use t .lookupSelection).uses :=
        List.mem_append_right _ (List.mem_singleton.mpr rfl)
      exact mem_uses_answerAll env data ts (turn + 1) _
        (mem_uses_answer (mem_uses_lorieConvertSelection (env turn) t (some data) hused) t)
    · rw [← hk.client]
      exact ih (turn + 1) _ ht

/-- Nothing takes a request off the list when its client goes, and the next text from the
activity uses the pointer. -/
theorem dead_client_used (ht : t ∈ s.lorieDataTargetHead) (hdead : ¬ Live s t) (env : ℕ → Env)
    (data : Data) : ¬ AnswersLive (lorieHandleClipboardData env data s) := by
  intro hlive
  exact hdead (hlive _ (answerAll_uses env data s.lorieDataTargetHead 0
    { s with cachedData := some data } ht))

/-- A text uses no dead pointer exactly when every client that waits for it is there. -/
theorem textFindsClients_iff {a : Act} (h : AnswersLive s) (hstep : step s a = some s') :
    TextFindsClients s a ↔ AnswersLive s' := by
  refine ⟨fun hok => answersLive_step h hok hstep, fun h' => ?_⟩
  cases a with
  | data data env =>
    obtain rfl := Option.some_inj.mp hstep
    intro t ht
    by_contra hdead
    exact dead_client_used ht hdead env data h'
  | _ => trivial

/-! ### When only live clients are answered -/

/-- Throughout a run, each use of a client's pointer leads to the client that asked if and
only if no text comes in it after a client that waits for one has gone; so it does where no
client goes while it waits. -/
theorem answers_live_clients_iff {as : List Act} (hrun : run step {} as = some s) :
    (Always step AnswersLive {} as ↔ Meets step TextFindsClients {} as) ∧
      (Meets step StaysWhileWaiting {} as → Meets step TextFindsClients {} as) := by
  constructor
  · exact always_iff_meets (fun _ h => h) (fun _ _ _ => textFindsClients_iff)
      (fun _ _ _ => answersLive_step) answersLive_initial hrun
  · refine Meets.of_invariant (fun _ _ _ => allLive_step) (fun s a h _ => ?_) allLive_initial
    cases a with
    | data data env => exact h
    | _ => trivial

/-- The client asks before the text is there, and is still there when it comes. -/
def requesterStays : List Act :=
  [.connect 1, .announce .success,
   .convertSelection 1 ⟨.clipboard, .utf8String, none, 7, 0, .success, .success, true⟩ {},
   .data [104, 105] (fun _ => {}), .disconnect 1]

theorem answers_requester : Always step AnswersLive {} requesterStays := by
  refine (answers_live_clients_iff (show run step {} requesterStays = some _ from rfl)).1.mpr ?_
  refine meets_cons_of_eq rfl trivial (meets_cons_of_eq rfl trivial (meets_cons_of_eq rfl trivial
    (meets_cons_of_eq rfl ?_ (meets_cons_of_eq rfl trivial (meets_nil _)))))
  intro t ht
  obtain rfl := List.mem_singleton.mp ht
  rfl

/-- The client asks before the text is there, and goes. -/
def requesterGoes : List Act :=
  [.connect 1, .announce .success,
   .convertSelection 1 ⟨.clipboard, .utf8String, none, 7, 0, .success, .success, true⟩ {},
   .disconnect 1, .data [104, 105] (fun _ => {})]

/-- The text is converted with the pointer to a client that was freed. -/
theorem uses_freed_client :
    ∃ s, run step {} requesterGoes = some s ∧ ¬ AnswersLive s := by
  refine ⟨_, rfl, dead_client_used (t := ⟨1, 0, .clipboard, .utf8String, none, 7, 0⟩) ?_ ?_ _ _⟩
  · exact List.mem_singleton.mpr rfl
  · exact fun hlive => nomatch hlive

end Lorie.Clipboard
