/-
What the answers to conversions say (`lorieConvertSelection` and its two callers in
`clipboard.c`).

An answer names the property that holds the converted text, or none.  The text goes to the
property of the request, and to one with the name of the target if the request has none; the
event names the property of the request.

* `replies` — the conversions that a step answers, with what was stored and written for each;
* `answer_stored_or_refused` — a conversion stores its text, or fails;
* `replies_truthful_iff` — when the answers of a step tell what was stored.
-/
import KaliGui.Lorie.ClipboardAnswers

namespace Lorie.Clipboard

/-! ### Types -/

/-- The types that `dixChangeWindowProperty` is given. -/
inductive PropertyType
  | atom
  | integer
  | string
  | utf8String
  deriving DecidableEq, Repr

def PropertyData.type : PropertyData → PropertyType
  | .targets _ => .atom
  | .timestamp => .integer
  | .latin1 _ => .string
  | .utf8 _ => .utf8String

/-- The type that belongs to a target. -/
def typeOf : Atom → Option PropertyType
  | .targets => some .atom
  | .timestamp => some .integer
  | .string => some .string
  | .text => some .string
  | .utf8String => some .utf8String
  | _ => none

/-! ### Replies -/

/-- A conversion that is answered. -/
structure Reply where
  env : Env
  target : DataTarget
  data : Option Data
  before : State
  after : State

def Reply.stored (r : Reply) : List PropertyChange := r.after.changes.drop r.before.changes.length

def Reply.written (r : Reply) : List Use := r.after.written.drop r.before.written.length

/-- A conversion with what its caller does if it fails. -/
def convert (env : Env) (t : DataTarget) (data : Option Data) (s : State) : Reply :=
  ⟨env, t, data, s, answer t (lorieConvertSelection env t data s)⟩

/-- The turns of `answerAll`. -/
def repliesInOrder (env : ℕ → Env) (data : Data) : ℕ → List DataTarget → State → List Reply
  | _, [], _ => []
  | turn, t :: ts, s =>
    let r := convert (env turn) t (some data) s
    r :: repliesInOrder env data (turn + 1) ts { r.after with lorieDataTargetHead := ts }

/-- The conversions that are answered at once, and those that had to wait for the text. -/
def replies (s : State) : Act → List Reply
  | .convertSelection c r env =>
    match s.client c with
    | none => []
    | some connection =>
      if Reaches s r ∧ ¬ NeedsText env (r.dataTarget c connection) s.cachedData then
        [convert env (r.dataTarget c connection) s.cachedData s]
      else []
  | .data data env =>
    repliesInOrder env data 0 s.lorieDataTargetHead { s with cachedData := some data }
  | _ => []

/-- One event is written.  The property it names is the one that was stored for the requestor,
with the type of the target; it names none if and only if nothing was stored. -/
def Reply.Truthful (r : Reply) : Prop :=
  ∃ event reached asked, r.written = [⟨.writeEvent event, reached, asked⟩] ∧
    (event.property = none ↔ r.stored = []) ∧
    ∀ property, event.property = some property → ∃ data,
      r.stored = [⟨event.requestor, property, data⟩] ∧ event.requestor = r.target.requestor ∧
        typeOf r.target.target = some data.type

/-- Nothing that a conversion needs fails. -/
def Stores (env : Env) (t : DataTarget) (data : Option Data) : Prop :=
  env.selection = .success ∧ env.window = .success ∧ env.changes = .success ∧
    (t.target = .targets ∨ t.target = .timestamp ∨
      data.isSome = true ∧ (t.target = .utf8String ∨
        (t.target = .string ∨ t.target = .text) ∧ env.allocates = true))

instance (env : Env) (t : DataTarget) (data : Option Data) : Decidable (Stores env t data) :=
  inferInstanceAs (Decidable (_ ∧ _ ∧ _ ∧ (_ ∨ _ ∨ _ ∧ (_ ∨ (_ ∨ _) ∧ _))))

/-! ### One conversion -/

variable {s s' : State} {t : DataTarget}

/-- The text is stored, and the event names the property of the request. -/
structure Stored (s : State) (t : DataTarget) (s' : State) : Prop where
  changes : ∃ data, s'.changes = s.changes ++ [⟨t.requestor, t.property.getD t.target, data⟩] ∧
    typeOf t.target = some data.type
  written : s'.written =
    s.written ++ [⟨.writeEvent (t.notify t.property), s.client t.client, t.asked⟩]

/-- Nothing is stored, and the event names no property. -/
structure Refused (s : State) (t : DataTarget) (s' : State) : Prop where
  changes : s'.changes = s.changes
  written : s'.written = s.written ++ [⟨.writeEvent (t.notify none), s.client t.client, t.asked⟩]

/-- A conversion so far. -/
structure Untouched (s s' : State) : Prop where
  changes : s'.changes = s.changes
  written : s'.written = s.written
  client : s'.client = s.client

theorem Untouched.answer_error (h : Untouched s s') (t : DataTarget) {rc : Status}
    (hrc : rc ≠ .success) : Refused s t (answer t (rc, s')) := by
  rw [answer, if_neg hrc]
  refine ⟨h.changes, ?_⟩
  rw [written_use_writeEvent, h.written, h.client]

theorem Untouched.answer_stored (h : Untouched s s') {change : PropertyData} {rc : Status}
    (htype : typeOf t.target = some change.type) (hrc : rc = .success) :
    Stored s t (answer t (notifyChanged t change rc s')) := by
  rw [notifyChanged, if_pos hrc, answer, if_pos rfl]
  refine ⟨⟨change, ?_, htype⟩, ?_⟩
  · rw [← h.changes]
    rfl
  · rw [written_use_writeEvent, ← h.written, ← h.client]
    rfl

theorem Untouched.answer_notifyChanged (h : Untouched s s') {change : PropertyData} {rc : Status}
    {stores : Prop} [Decidable stores] (htype : typeOf t.target = some change.type)
    (hstores : stores ↔ rc = .success) :
    if stores then Stored s t (answer t (notifyChanged t change rc s'))
    else Refused s t (answer t (notifyChanged t change rc s')) := by
  by_cases hrc : rc = .success
  · rw [if_pos (hstores.mpr hrc)]
    exact h.answer_stored htype hrc
  · rw [if_neg (mt hstores.mp hrc), notifyChanged, if_neg hrc]
    exact h.answer_error t hrc

/-- A conversion with the text. -/
theorem Untouched.answer_text (h : Untouched s s') {env : Env} {t : DataTarget} (data : Data)
    (hselection : env.selection = .success) (hwindow : env.window = .success)
    (htargets : t.target ≠ .targets) (htimestamp : t.target ≠ .timestamp) :
    if Stores env t (some data) then Stored s t (answer t (convertText env t (some data) s'))
    else Refused s t (answer t (convertText env t (some data) s')) := by
  simp only [convertText]
  by_cases hlatin1 : t.target = .string ∨ t.target = .text
  · have hutf8 : t.target ≠ .utf8String := by
      rcases hlatin1 with heq | heq <;> rw [heq] <;> exact Atom.noConfusion
    rw [if_pos hlatin1]
    by_cases hmemory : env.allocates = true
    · rw [if_neg (not_not.mpr hmemory)]
      refine h.answer_notifyChanged ?_ ⟨fun hstores => hstores.2.2.1, fun hrc => ?_⟩
      · rcases hlatin1 with heq | heq <;> rw [heq] <;> rfl
      · exact ⟨hselection, hwindow, hrc, .inr (.inr ⟨rfl, .inr ⟨hlatin1, hmemory⟩⟩)⟩
    · rw [if_pos hmemory, if_neg]
      · exact h.answer_error t Status.noConfusion
      · rintro ⟨-, -, -, heq | heq | ⟨-, heq | ⟨-, hmem⟩⟩⟩
        · exact htargets heq
        · exact htimestamp heq
        · exact hutf8 heq
        · exact hmemory hmem
  · rw [if_neg hlatin1]
    by_cases hutf8 : t.target = .utf8String
    · rw [if_pos hutf8]
      refine h.answer_notifyChanged ?_ ⟨fun hstores => hstores.2.2.1, fun hrc => ?_⟩
      · rw [hutf8]
        rfl
      · exact ⟨hselection, hwindow, hrc, .inr (.inr ⟨rfl, .inl hutf8⟩)⟩
    · rw [if_neg hutf8, if_neg]
      · exact h.answer_error t Status.noConfusion
      · rintro ⟨-, -, -, heq | heq | ⟨-, heq | ⟨heq, -⟩⟩⟩
        · exact htargets heq
        · exact htimestamp heq
        · exact hutf8 heq
        · exact hlatin1 heq

/-- A conversion without the text that does not wait for it. -/
theorem Untouched.answer_noText (h : Untouched s s') {env : Env} {t : DataTarget}
    (hselection : env.selection = .success) (hwindow : env.window = .success)
    (hneeds : ¬ NeedsText env t none) : Refused s t (answer t (convertText env t none s')) := by
  simp only [convertText]
  by_cases htarget : t.target ≠ .string ∧ t.target ≠ .text ∧ t.target ≠ .utf8String
  · rw [if_pos htarget]
    exact h.answer_error t Status.noConfusion
  · rw [if_neg htarget]
    by_cases hmemory : env.allocates = true
    · have htext : t.target = .string ∨ t.target = .text ∨ t.target = .utf8String := by
        by_contra hnot
        rw [not_or, not_or] at hnot
        exact htarget hnot
      exact absurd ⟨rfl, hselection, hwindow, hmemory, htext⟩ hneeds
    · rw [if_pos hmemory]
      exact h.answer_error t Status.noConfusion

/-- A conversion that is answered stores its text if nothing fails, and nothing if anything
does. -/
theorem answer_stored_or_refused {env : Env} {t : DataTarget} {data : Option Data} (s : State)
    (hneeds : ¬ NeedsText env t data) :
    if Stores env t data then Stored s t (convert env t data s).after
    else Refused s t (convert env t data s).after := by
  have h₁ : Untouched s (s.use t .lookupSelection) :=
    ⟨rfl, written_use_lookupSelection s t, rfl⟩
  have h₂ : Untouched s ((s.use t .lookupSelection).use t (.lookupWindow t.requestor)) := by
    refine ⟨rfl, ?_, rfl⟩
    rw [written_use_lookupWindow, written_use_lookupSelection]
  simp only [convert, lorieConvertSelection]
  -- the two lookups come first; where one fails, the caller answers with no property
  by_cases hselection : env.selection = .success
  swap
  · rw [if_neg (fun hstores => hselection hstores.1), if_pos hselection]
    exact h₁.answer_error t hselection
  rw [if_neg (not_not.mpr hselection)]
  by_cases hwindow : env.window = .success
  swap
  · rw [if_neg (fun hstores => hwindow hstores.2.1), if_pos hwindow]
    exact h₂.answer_error t hwindow
  rw [if_neg (not_not.mpr hwindow)]
  by_cases htargets : t.target = .targets
  · rw [if_pos htargets]
    refine h₂.answer_notifyChanged ?_ ⟨fun hstores => hstores.2.2.1, fun hrc => ?_⟩
    · rw [htargets]
      rfl
    · exact ⟨hselection, hwindow, hrc, .inl htargets⟩
  rw [if_neg htargets]
  by_cases htimestamp : t.target = .timestamp
  · rw [if_pos htimestamp]
    refine h₂.answer_notifyChanged ?_ ⟨fun hstores => hstores.2.2.1, fun hrc => ?_⟩
    · rw [htimestamp]
      rfl
    · exact ⟨hselection, hwindow, hrc, .inr (.inl htimestamp)⟩
  rw [if_neg htimestamp]
  cases data with
  | some data => exact h₂.answer_text data hselection hwindow htargets htimestamp
  | none =>
    rw [if_neg]
    · exact h₂.answer_noText hselection hwindow hneeds
    · rintro ⟨-, -, -, heq | heq | ⟨hnone, -⟩⟩
      · exact htargets heq
      · exact htimestamp heq
      · cases hnone

/-- The answer names none where the text went to the property with the name of the target. -/
theorem convert_truthful_iff {env : Env} {t : DataTarget} {data : Option Data} (s : State)
    (hneeds : ¬ NeedsText env t data) :
    (convert env t data s).Truthful ↔ t.property ≠ none ∨ ¬ Stores env t data := by
  have hanswer := answer_stored_or_refused s hneeds
  by_cases hstores : Stores env t data
  · rw [if_pos hstores] at hanswer
    obtain ⟨⟨change, hchanges, htype⟩, hwritten⟩ := hanswer
    have hstored : (convert env t data s).stored =
        [⟨t.requestor, t.property.getD t.target, change⟩] := by
      rw [Reply.stored, hchanges]
      exact List.drop_left
    have hevent : (convert env t data s).written =
        [⟨.writeEvent (t.notify t.property), s.client t.client, t.asked⟩] := by
      rw [Reply.written, hwritten]
      exact List.drop_left
    rw [or_iff_left (not_not.mpr hstores)]
    constructor
    · rintro ⟨event, reached, asked, hone, hnone, -⟩ hproperty
      have heq : event = t.notify t.property := by
        rw [hevent] at hone
        cases hone
        rfl
      rw [heq, hstored] at hnone
      exact absurd (hnone.mp hproperty) (List.cons_ne_nil _ _)
    · intro hproperty
      refine ⟨_, _, _, hevent, ⟨fun hnone => absurd hnone hproperty, fun hnil => ?_⟩,
        fun property hsome => ⟨change, ?_, rfl, htype⟩⟩
      · rw [hstored] at hnil
        cases hnil
      · have hsome' : t.property = some property := hsome
        rw [hstored, hsome']
        rfl
  · rw [if_neg hstores] at hanswer
    refine iff_of_true ⟨t.notify none, s.client t.client, t.asked, ?_, ⟨fun _ => ?_,
      fun _ => rfl⟩, ?_⟩ (.inr hstores)
    · rw [Reply.written, hanswer.written]
      exact List.drop_left
    · rw [Reply.stored, hanswer.changes]
      exact List.drop_length
    · intro property hsome
      cases hsome

/-! ### Steps -/

/-- What a conversion stored and wrote is all that it stored and wrote. -/
theorem convert_accounts {env : Env} {t : DataTarget} (data : Option Data) (s : State)
    (hneeds : ¬ NeedsText env t data) :
    (convert env t data s).after.changes = s.changes ++ (convert env t data s).stored ∧
      (convert env t data s).after.written = s.written ++ (convert env t data s).written := by
  have hanswer := answer_stored_or_refused s hneeds
  rw [Reply.stored, Reply.written]
  by_cases hstores : Stores env t data
  · rw [if_pos hstores] at hanswer
    obtain ⟨⟨change, hchanges, -⟩, hwritten⟩ := hanswer
    rw [hchanges, hwritten]
    exact ⟨congrArg (s.changes ++ ·) List.drop_left.symm,
      congrArg (s.written ++ ·) List.drop_left.symm⟩
  · rw [if_neg hstores] at hanswer
    rw [hanswer.changes, hanswer.written]
    refine ⟨?_, congrArg (s.written ++ ·) List.drop_left.symm⟩
    rw [show (convert env t data s).before = s from rfl, List.drop_length, List.append_nil]

theorem not_needsText_some (env : Env) (t : DataTarget) (data : Data) :
    ¬ NeedsText env t (some data) := fun hneeds => Option.some_ne_none data hneeds.1

/-- The loop of `lorieHandleClipboardData`, turn by turn. -/
theorem answerAll_accounts (env : ℕ → Env) (data : Data) (turn : ℕ) (ts : List DataTarget)
    (s : State) :
    (answerAll env data turn ts s).changes =
        s.changes ++ (repliesInOrder env data turn ts s).flatMap Reply.stored ∧
      (answerAll env data turn ts s).written =
        s.written ++ (repliesInOrder env data turn ts s).flatMap Reply.written := by
  induction ts generalizing turn s with
  | nil => exact ⟨(List.append_nil _).symm, (List.append_nil _).symm⟩
  | cons t ts ih =>
    obtain ⟨hchanges, hwritten⟩ :=
      convert_accounts (some data) s (not_needsText_some (env turn) t data)
    obtain ⟨hchanges', hwritten'⟩ :=
      ih (turn + 1) { (convert (env turn) t (some data) s).after with lorieDataTargetHead := ts }
    rw [repliesInOrder, List.flatMap_cons, List.flatMap_cons, ← List.append_assoc,
      ← List.append_assoc, ← hchanges, ← hwritten]
    exact ⟨hchanges', hwritten'⟩

/-- A conversion that waits for the text stores nothing yet. -/
theorem parked_changes {env : Env} {t : DataTarget} {data : Option Data} (s : State)
    (hneeds : NeedsText env t data) :
    (convert env t data s).after.changes = s.changes := by
  obtain ⟨rfl, hselection, hwindow, hmemory, htext⟩ := hneeds
  have htargets : t.target ≠ .targets := by
    rcases htext with heq | heq | heq <;> rw [heq] <;> exact Atom.noConfusion
  have htimestamp : t.target ≠ .timestamp := by
    rcases htext with heq | heq | heq <;> rw [heq] <;> exact Atom.noConfusion
  have hknown : ¬ (t.target ≠ .string ∧ t.target ≠ .text ∧ t.target ≠ .utf8String) := by
    rintro ⟨hstring, htext', hutf8⟩
    exact htext.elim hstring (·.elim htext' hutf8)
  simp only [convert, lorieConvertSelection, convertText]
  rw [if_neg (not_not.mpr hselection), if_neg (not_not.mpr hwindow), if_neg htargets,
    if_neg htimestamp, if_neg hknown, if_neg (not_not.mpr hmemory), answer, if_pos rfl]
  rfl

theorem accounts_nothing {a : Act} (h : replies s a = []) (hchanges : s'.changes = s.changes)
    (hwritten : s'.written = s.written) :
    s'.changes = s.changes ++ (replies s a).flatMap Reply.stored ∧
      s'.written = s.written ++ (replies s a).flatMap Reply.written := by
  rw [h, List.flatMap_nil, List.flatMap_nil, List.append_nil, List.append_nil]
  exact ⟨hchanges, hwritten⟩

/-- A request is answered, or waits for the text, or does not get to its conversion. -/
theorem proc_accounts {c connection : ℕ} (r : Request) (env : Env)
    (hconnection : s.client c = some connection) :
    (lorieProcConvertSelection env c connection r s).2.changes =
        s.changes ++ (replies s (.convertSelection c r env)).flatMap Reply.stored ∧
      (lorieProcConvertSelection env c connection r s).2.written =
        s.written ++ (replies s (.convertSelection c r env)).flatMap Reply.written := by
  simp only [replies, hconnection]
  by_cases hreaches : Reaches s r
  · rw [proc_of_reaches hreaches]
    by_cases hneeds : NeedsText env (r.dataTarget c connection) s.cachedData
    · have hparked := answer_convert env (r.dataTarget c connection) s.cachedData s
      rw [if_pos hneeds] at hparked
      rw [if_neg fun hanswered => hanswered.2 hneeds, List.flatMap_nil, List.flatMap_nil,
        List.append_nil, List.append_nil]
      exact ⟨parked_changes s hneeds, hparked.written⟩
    · rw [if_pos ⟨hreaches, hneeds⟩, List.flatMap_singleton, List.flatMap_singleton]
      exact convert_accounts _ s hneeds
  · rw [proc_of_not_reaches hreaches, if_neg fun hanswered => hreaches hanswered.1,
      List.flatMap_nil, List.flatMap_nil, List.append_nil, List.append_nil]
    exact ⟨rfl, rfl⟩

/-- All that a step stores and writes belongs to the conversions that it answers. -/
theorem step_accounts {a : Act} (hstep : step s a = some s') :
    s'.changes = s.changes ++ (replies s a).flatMap Reply.stored ∧
      s'.written = s.written ++ (replies s a).flatMap Reply.written := by
  cases a with
  | convertSelection c r env =>
    obtain ⟨connection, hconnection, rfl⟩ := Option.map_eq_some_iff.mp hstep
    exact proc_accounts r env hconnection
  | data data env =>
    cases hstep
    exact answerAll_accounts env data 0 s.lorieDataTargetHead { s with cachedData := some data }
  | connect c =>
    rw [step] at hstep
    split at hstep
    · cases hstep
      exact accounts_nothing rfl rfl rfl
    · cases hstep
  | disconnect c =>
    rw [step] at hstep
    split at hstep
    · cases hstep
    · cases hstep
      exact accounts_nothing rfl rfl rfl
  | setOwner c =>
    obtain ⟨connection, -, rfl⟩ := Option.map_eq_some_iff.mp hstep
    exact accounts_nothing rfl rfl rfl
  | dropOwner =>
    cases hstep
    exact accounts_nothing rfl rfl rfl
  | announce rc =>
    cases hstep
    rw [lorieHandleClipboardAnnounce]
    dsimp only
    split
    · exact accounts_nothing rfl rfl rfl
    · exact accounts_nothing rfl rfl rfl

/-- Every answer is to a conversion that does not wait for the text. -/
theorem replies_eq_convert {a : Act} {r : Reply} (h : r ∈ replies s a) :
    ¬ NeedsText r.env r.target r.data ∧ r = convert r.env r.target r.data r.before := by
  have hloop : ∀ (env : ℕ → Env) (data : Data) (turn : ℕ) (ts : List DataTarget) (s : State),
      r ∈ repliesInOrder env data turn ts s →
        ¬ NeedsText r.env r.target r.data ∧ r = convert r.env r.target r.data r.before := by
    intro env data turn ts
    induction ts generalizing turn with
    | nil => exact fun _ hr => absurd hr List.not_mem_nil
    | cons t ts ih =>
      intro s hr
      rcases List.mem_cons.mp hr with rfl | hr
      · exact ⟨not_needsText_some _ _ _, rfl⟩
      · exact ih _ _ hr
  cases a with
  | convertSelection c request env =>
    rw [replies] at h
    split at h
    · cases h
    · split at h
      next hanswered =>
        rw [List.mem_singleton.mp h]
        exact ⟨hanswered.2, rfl⟩
      next => cases h
  | data data env => exact hloop _ _ _ _ _ h
  | connect c => cases h
  | disconnect c => cases h
  | setOwner c => cases h
  | dropOwner => cases h
  | announce rc => cases h

/-- Whatever a step does, what it stores and writes are the answers to conversions, and an
answer tells what was stored if and only if the request has a property or nothing is stored. -/
theorem replies_truthful_iff {a : Act} (hstep : step s a = some s') :
    s'.changes = s.changes ++ (replies s a).flatMap Reply.stored ∧
      s'.written = s.written ++ (replies s a).flatMap Reply.written ∧
      ∀ r ∈ replies s a,
        (r.Truthful ↔ r.target.property ≠ none ∨ ¬ Stores r.env r.target r.data) := by
  obtain ⟨hchanges, hwritten⟩ := step_accounts hstep
  refine ⟨hchanges, hwritten, fun r hr => ?_⟩
  obtain ⟨hneeds, heq⟩ := replies_eq_convert hr
  have hiff := convert_truthful_iff r.before hneeds
  rw [← heq] at hiff
  exact hiff

/-- The server owns the selection and has the text; a client is connected. -/
def withText : State where
  client pointer := if pointer = 0 then some 0 else none
  connections := 1
  owner := .server
  cachedData := some [0x61]

/-- The answer to a request with a property. -/
theorem withText_named :
    (convert {} ⟨0, 0, .clipboard, .utf8String, some (.other 7), 5, 1⟩ (some [0x61])
      withText).Truthful := by
  obtain ⟨-, -, hiff⟩ := replies_truthful_iff (s := withText) (a := .convertSelection 0
    { selection := .clipboard, target := .utf8String, property := some (.other 7),
      requestor := 5, time := 1 } {}) rfl
  exact (hiff _ (List.mem_singleton.mpr rfl)).mpr (.inl (Option.some_ne_none _))

/-- The answer to a request without one: the text is stored, and the event says that nothing
is. -/
theorem withText_none :
    let r := convert {} ⟨0, 0, .clipboard, .utf8String, none, 5, 1⟩ (some [0x61]) withText
    r ∈ replies withText (.convertSelection 0
        { selection := .clipboard, target := .utf8String, property := none,
          requestor := 5, time := 1 } {}) ∧
      r.stored = [⟨5, .utf8String, .utf8 [0x61]⟩] ∧
      r.written = [⟨.writeEvent ⟨1, 5, .clipboard, .utf8String, none⟩, some 0, 0⟩] ∧
      ¬ r.Truthful := by
  refine ⟨List.mem_singleton.mpr rfl, rfl, rfl, ?_⟩
  rintro ⟨event, reached, asked, hwritten, hnone, -⟩
  have heq : event.property = none := by
    have hone : [(⟨.writeEvent ⟨1, 5, .clipboard, .utf8String, none⟩, some 0, 0⟩ : Use)] =
        [⟨.writeEvent event, reached, asked⟩] := hwritten
    cases hone
    rfl
  exact List.cons_ne_nil _ _ (hnone.mp heq)

end Lorie.Clipboard
