/-
Which answer a call of `getImage` takes (`X11Client.kt`).

The server handles the requests in order: it replies to `GetImage`, may answer any request
with an error, and may send events between its answers.  The client reads packets off one
stream; it skips events and takes the first reply or error for the answer to the `GetImage`
it has just sent.

* `Packet.bytes` — what the server sends;
* `readReplyType`, `getImage` — the reads of the client;
* `Correlated` — every call has taken its own answer, and only that;
* `replies_correlated` — the runs in which it is so.
-/
import KaliGui.Lib.Run
import KaliGui.Lib.DataInput
import KaliGui.X11Client.Session
import KaliGui.X11Client.Frame

namespace X11Client.Replies

open DataInput Machine

/-! ### What the server sends -/

/-- A core event: 32 bytes, of which the first is no reply and no error. -/
structure Event where
  type : UInt8
  body : List UInt8
  type_ne : type ≠ 0 ∧ type ≠ 1
  body_length : body.length = 31

/-- The fields of an error after its first byte. -/
structure Error where
  /-- code and sequence number -/
  head : List UInt8
  badValue : List UInt8
  tail : List UInt8
  head_length : head.length = 3
  badValue_length : badValue.length = 4
  tail_length : tail.length = 24

/-- The fields of a reply to `GetImage` after its first byte. -/
structure Reply where
  /-- depth and sequence number -/
  head : List UInt8
  /-- the visual and what is unused -/
  tail : List UInt8
  data : List UInt8
  /-- the length field -/
  words : ℕ
  head_length : head.length = 3
  tail_length : tail.length = 24
  data_length : data.length = 4 * words
  words_lt : words < 2 ^ 32

/-- A request as the server sees it: the call of `getImage` that made it, or an injection. -/
inductive Asked
  | image (call : ℕ)
  | fakeInput
  deriving DecidableEq, Repr

inductive Packet
  | event (e : Event)
  | error (re : Asked) (e : Error)
  | reply (call : ℕ) (r : Reply)

def Packet.bytes : Packet → List UInt8
  | .event e => e.type :: e.body
  | .error _ e => 0 :: (e.head ++ (e.badValue ++ e.tail))
  | .reply _ r => 1 :: (r.head ++ (beBytes 4 r.words ++ r.tail) ++ r.data)

/-- The request that a packet answers. -/
def Packet.answers : Packet → Option Asked
  | .event _ => none
  | .error re _ => some re
  | .reply call _ => some (.image call)

/-! ### What the client reads -/

/-- A turn of the loop; `none` goes round again. -/
def readReplyType : Reader (Option ℕ) := do
  let type ← readUnsignedByte
  if type = 1 ∨ type = 0 then return some type
  else
    skipBytes 31
    return none

/-- The other 31 bytes of a reply or an error; the length field. -/
def readHeader : Reader ℤ := do
  let _depth ← readUnsignedByte
  let _sequence ← readUnsignedShort
  let length ← readInt
  let _visual ← readInt
  skipBytes 20
  return length

/-- How a call of `getImage` ends. -/
inductive Outcome
  /-- it returns 0 -/
  | rejected
  | image (bytes : List UInt8)
  | throws
  deriving DecidableEq, Repr

/-- The image, into a buffer of `rawSize` bytes. -/
def readImage (rawSize : ℕ) (length : ℤ) : Reader (Option Outcome) :=
  let bytes := int32 (length * 4)
  if bytes ≤ 0 ∨ rawSize < bytes then return some .throws
  else do
    let image ← readFully bytes.toNat
    return some (.image image)

def readAnswer (rawSize : ℕ) : Option ℕ → Reader (Option Outcome)
  | none => return none
  | some type => do
    let length ← readHeader
    if type = 0 then return some .rejected
    else if type ≠ 1 then return some .throws
    else readImage rawSize length

/-- What `getImage` reads in a turn; `none` goes round again. -/
def getImage (rawSize : ℕ) : Reader (Option Outcome) := do
  let type ← readReplyType
  readAnswer rawSize type

/-! ### Runs -/

inductive Phase
  | idle
  /-- in a call of `getImage`, after its request was flushed -/
  | reading
  /-- an exception has ended the session -/
  | ended
  deriving DecidableEq, Repr

structure State where
  /-- `raw.size` -/
  rawSize : ℕ
  /-- the calls of `getImage` so far -/
  calls : ℕ := 0
  /-- the requests the server has not handled -/
  asked : List Asked := []
  /-- what was sent and not read -/
  stream : List UInt8 := []
  /-- the packets of the stream -/
  packets : List Packet := []
  phase : Phase := .idle
  /-- the calls that took an answer, with the request it was the answer to -/
  taken : List (ℕ × Option Asked) := []

inductive Act
  | getImage
  | inject
  /-- the server -/
  | event (e : Event)
  | reply (r : Reply)
  | error (e : Error)
  | accept
  /-- a turn of the call -/
  | read
  /-- a timeout, or the end of the stream -/
  | fails

def State.send (s : State) (p : Packet) : State :=
  { s with stream := s.stream ++ p.bytes, packets := s.packets ++ [p] }

def step (s : State) : Act → Option State
  | .getImage =>
    if s.phase = .idle then
      some { s with
        calls := s.calls + 1
        asked := s.asked ++ [.image s.calls]
        phase := .reading }
    else none
  | .inject => some { s with asked := s.asked ++ [.fakeInput] }
  | .event e => some (s.send (.event e))
  | .reply r =>
    match s.asked with
    | .image call :: rest => some { s.send (.reply call r) with asked := rest }
    | _ => none
  | .error e =>
    match s.asked with
    | a :: rest => some { s.send (.error a e) with asked := rest }
    | [] => none
  | .accept =>
    match s.asked with
    | .fakeInput :: rest => some { s with asked := rest }
    | _ => none
  | .read =>
    if s.phase = .reading then
      match getImage s.rawSize s.stream with
      | none => none
      | some (none, rest) => some { s with stream := rest, packets := s.packets.tail }
      | some (some outcome, rest) =>
        some { s with
          stream := rest
          packets := s.packets.tail
          taken := s.taken ++ [(s.calls - 1, s.packets.head?.bind Packet.answers)]
          phase := if outcome = .throws then .ended else .idle }
    else none
  | .fails => if s.phase = .reading then some { s with phase := .ended } else none

/-- The packets of the stream are known to the byte, every answer taken was the answer to
the call that took it, one each, and when the last call has returned no answer to any is
still to be read. -/
structure Correlated (s : State) : Prop where
  aligned : s.phase ≠ .ended → s.stream = s.packets.flatMap Packet.bytes
  own : s.taken = (List.range s.taken.length).map fun k => (k, some (.image k))
  returned : s.phase = .idle → s.taken.length = s.calls ∧
    ∀ p ∈ s.packets, ∀ k, p.answers ≠ some (.image k)

/-- The length of the data as an `Int` is right, or the client refuses it. -/
def Reply.Fits (r : Reply) (rawSize : ℕ) : Prop :=
  4 * r.words < 2 ^ 31 ∨ int32 (4 * r.words : ℕ) ≤ 0 ∨ rawSize < int32 (4 * r.words : ℕ)

instance (r : Reply) (rawSize : ℕ) : Decidable (r.Fits rawSize) :=
  inferInstanceAs (Decidable (_ ∨ _ ∨ _))

/-- No injection is answered with an error, and no reply is longer than an `Int` can say. -/
def AnswersImages (s : State) : Act → Prop
  | .error _ => s.asked.head? ≠ some .fakeInput
  | .reply r => r.Fits s.rawSize
  | _ => True

instance AnswersImages.decidable (s : State) : DecidablePred (AnswersImages s)
  | .error _ => inferInstanceAs (Decidable (_ ≠ _))
  | .reply r => inferInstanceAs (Decidable (r.Fits s.rawSize))
  | .getImage | .inject | .event _ | .accept | .read | .fails => inferInstanceAs (Decidable True)

/-! ### A packet is read to its end -/

theorem reads_header {head mid tail : List UInt8} {n : ℤ} (hhead : head.length = 3)
    (hmid : Reads readInt mid n) (htail : tail.length = 24) :
    Reads readHeader (head ++ (mid ++ tail)) n := by
  match head, hhead, tail, htail with
  | [d, a, b], _, v₀ :: v₁ :: v₂ :: v₃ :: unused, hunused =>
    have hskip : Reads (do skipBytes 20; return n) (unused ++ []) n :=
      (reads_skipBytes (by simpa using hunused)).bind (.pure n)
    rw [List.append_nil] at hskip
    have hrest := hmid.bind (f := fun length => do
      let _ ← readInt
      skipBytes 20
      return length) ((reads_readInt v₀ v₁ v₂ v₃).bind hskip)
    exact (reads_readUnsignedByte d).bind ((reads_readUnsignedShort a b).bind hrest)

theorem exists_reads_readInt {l : List UInt8} (h : l.length = 4) : ∃ n, Reads readInt l n := by
  match l, h with
  | [a, b, c, d], _ => exact ⟨_, reads_readInt a b c d⟩

/-- A number written as an `Int` is read as that `Int`. -/
theorem reads_readInt_beBytes (n : ℕ) : Reads readInt (beBytes 4 n) (int32 n) := by
  have hcast : ((n : ℤ) % 256 ^ 4).toNat = n % 2 ^ 32 := rfl
  have hbytes : beBytes 4 n = [UInt8.ofNat (n % 2 ^ 32 / 256 / 256 / 256),
      UInt8.ofNat (n % 2 ^ 32 / 256 / 256), UInt8.ofNat (n % 2 ^ 32 / 256),
      UInt8.ofNat (n % 2 ^ 32)] := by
    rw [beBytes, hcast]
    rfl
  have hvalue : int32 n = ((n % 2 ^ 32 : ℕ) : ℤ).bmod (2 ^ 32) := by
    rw [int32, ← Int.emod_bmod]
    rfl
  have hsum : ∀ m < 2 ^ 32, (UInt8.ofNat (m / 256 / 256 / 256)).toNat * 2 ^ 24 +
      (UInt8.ofNat (m / 256 / 256)).toNat * 2 ^ 16 + (UInt8.ofNat (m / 256)).toNat * 2 ^ 8 +
      (UInt8.ofNat m).toNat = m := by
    intro m hm
    simp only [UInt8.toNat_ofNat']
    omega
  have hread := reads_readInt (UInt8.ofNat (n % 2 ^ 32 / 256 / 256 / 256))
    (UInt8.ofNat (n % 2 ^ 32 / 256 / 256)) (UInt8.ofNat (n % 2 ^ 32 / 256))
    (UInt8.ofNat (n % 2 ^ 32))
  rw [hsum _ (Nat.mod_lt n (by decide))] at hread
  rw [hbytes, hvalue]
  exact hread

theorem reads_readReplyType_event (e : Event) : Reads readReplyType (e.type :: e.body) none := by
  have htype : ¬ (e.type.toNat = 1 ∨ e.type.toNat = 0) := by
    rintro (h | h)
    · exact e.type_ne.2 (UInt8.toNat_inj.mp h)
    · exact e.type_ne.1 (UInt8.toNat_inj.mp h)
  refine (reads_readUnsignedByte e.type).bind (m := e.body) ?_
  rw [if_neg htype]
  have hskip : Reads (do skipBytes 31; return (none : Option ℕ)) (e.body ++ []) none :=
    (reads_skipBytes e.body_length).bind (.pure none)
  rwa [List.append_nil] at hskip

theorem reads_readReplyType_error : Reads readReplyType [0] (some 0) := fun _ => rfl

theorem reads_readReplyType_reply : Reads readReplyType [1] (some 1) := fun _ => rfl

/-- An event is skipped whole. -/
theorem getImage_event (rawSize : ℕ) (e : Event) :
    Reads (getImage rawSize) (Packet.event e).bytes none := by
  have hread := (reads_readReplyType_event e).bind (f := readAnswer rawSize) (.pure none)
  rw [List.append_nil] at hread
  exact hread

/-- An error is read whole. -/
theorem getImage_error (rawSize : ℕ) (a : Asked) (e : Error) :
    Reads (getImage rawSize) (Packet.error a e).bytes (some .rejected) := by
  obtain ⟨n, hvalue⟩ := exists_reads_readInt e.badValue_length
  have hheader := reads_header e.head_length hvalue e.tail_length
  have hread := hheader.bind (f := fun _ => Pure.pure (some Outcome.rejected)) (.pure _)
  rw [List.append_nil] at hread
  exact reads_readReplyType_error.bind (f := readAnswer rawSize) hread

/-- The length of a reply. -/
theorem Reply.int32_words (r : Reply) :
    int32 (int32 r.words * 4) = int32 (4 * r.words : ℕ) := by
  rw [int32, int32, Int.bmod_mul_bmod, int32]
  congr 1
  omega

/-- A reply that fits is read whole, or the call throws. -/
theorem getImage_reply {rawSize : ℕ} (call : ℕ) {r : Reply} (hfits : r.Fits rawSize) :
    Reads (getImage rawSize) (Packet.reply call r).bytes (some (.image r.data)) ∨
      ∀ rest, ∃ rest', getImage rawSize ((Packet.reply call r).bytes ++ rest) =
        some (some .throws, rest') := by
  have hheader := reads_header r.head_length (reads_readInt_beBytes r.words) r.tail_length
  by_cases hrefused : int32 (4 * r.words : ℕ) ≤ 0 ∨ rawSize < int32 (4 * r.words : ℕ)
  · refine .inr fun rest => ⟨r.data ++ rest, ?_⟩
    have himage : Reads (readImage rawSize (int32 r.words)) [] (some .throws) := by
      rw [readImage, r.int32_words, if_pos hrefused]
      exact .pure _
    have hread := reads_readReplyType_reply.bind (f := readAnswer rawSize)
      (hheader.bind (f := readImage rawSize) himage) (r.data ++ rest)
    rw [List.append_nil, ← List.append_assoc] at hread
    exact hread
  · left
    have hlt : 4 * r.words < 2 ^ 31 := hfits.resolve_right hrefused
    have hbytes : (int32 (4 * r.words : ℕ)).toNat = 4 * r.words := by
      rw [int32_of_lt (by omega) (by omega)]
      rfl
    have himage : Reads (readImage rawSize (int32 r.words)) (r.data ++ [])
        (some (.image r.data)) := by
      rw [readImage, r.int32_words, if_neg hrefused]
      exact (reads_readFully (by rw [hbytes]; exact r.data_length)).bind (.pure _)
    rw [List.append_nil] at himage
    exact reads_readReplyType_reply.bind (f := readAnswer rawSize)
      (hheader.bind (f := readImage rawSize) himage)

/-- Where nothing was sent, the call waits. -/
theorem getImage_nil (rawSize : ℕ) : getImage rawSize [] = none := rfl

/-! ### The invariant -/

/-- The calls whose answer is still to be taken. -/
def State.current (s : State) : List Asked :=
  match s.phase with
  | .reading => [.image (s.calls - 1)]
  | _ => []

structure Inv (s : State) : Prop where
  aligned : s.phase ≠ .ended → s.stream = s.packets.flatMap Packet.bytes
  /-- the answers under way and the requests not handled are those of the call -/
  queue : s.phase ≠ .ended → s.packets.filterMap Packet.answers ++
    s.asked.filter (fun a => a ≠ Asked.fakeInput) = s.current
  fits : ∀ call r, .reply call r ∈ s.packets → r.Fits s.rawSize
  own : s.taken = (List.range s.taken.length).map fun k => (k, some (.image k))
  idle : s.phase = .idle → s.taken.length = s.calls
  reading : s.phase = .reading → s.taken.length + 1 = s.calls

theorem Inv.correlated {s : State} (h : Inv s) : Correlated s where
  aligned := h.aligned
  own := h.own
  returned hidle := by
    refine ⟨h.idle hidle, fun p hp k hk => ?_⟩
    have hqueue := h.queue (by rw [hidle]; decide)
    rw [State.current, hidle] at hqueue
    have hmem : Asked.image k ∈ s.packets.filterMap Packet.answers :=
      List.mem_filterMap.mpr ⟨p, hp, hk⟩
    rw [(List.append_eq_nil_iff.mp hqueue).1] at hmem
    exact List.not_mem_nil hmem

theorem Inv.start (rawSize : ℕ) : Inv { rawSize := rawSize } where
  aligned _ := rfl
  queue _ := rfl
  fits call r h := absurd h List.not_mem_nil
  own := rfl
  idle _ := rfl
  reading h := by cases h

section

variable {s s' : State}

/-- The server sends a packet for the requests `handled`. -/
theorem Inv.send (h : Inv s) {p : Packet} (handled : List Asked) {asked : List Asked}
    (hasked : s.asked = handled ++ asked)
    (hanswers : p.answers.toList = handled.filter (fun a => a ≠ Asked.fakeInput))
    (hfits : ∀ call r, p = .reply call r → r.Fits s.rawSize) :
    Inv { s.send p with asked := asked } where
  aligned hphase := by
    show s.stream ++ p.bytes = (s.packets ++ [p]).flatMap Packet.bytes
    rw [h.aligned hphase, List.flatMap_append, List.flatMap_singleton]
  queue hphase := by
    have hqueue := h.queue hphase
    show (s.packets ++ [p]).filterMap Packet.answers ++
      asked.filter (fun a => a ≠ Asked.fakeInput) = s.current
    rw [← hqueue, hasked, List.filterMap_append, List.filter_append, ← hanswers,
      List.append_assoc]
    congr 2
  fits call r hmem := by
    rcases List.mem_append.mp hmem with hmem | hmem
    · exact h.fits call r hmem
    · exact hfits call r (List.mem_singleton.mp hmem).symm
  own := h.own
  idle := h.idle
  reading := h.reading

/-- A turn that takes an event. -/
theorem Inv.skip (h : Inv s) {e : Event} {ps : List Packet}
    (hpackets : s.packets = .event e :: ps) :
    Inv { s with stream := ps.flatMap Packet.bytes, packets := ps } where
  aligned _ := rfl
  queue hne := by
    have hqueue := h.queue hne
    rw [hpackets] at hqueue
    exact hqueue
  fits call r hmem := h.fits call r (by rw [hpackets]; exact List.mem_cons_of_mem _ hmem)
  own := h.own
  idle := h.idle
  reading := h.reading

/-- A turn that takes an answer: it can only be to the request of the call. -/
theorem Inv.take (h : Inv s) {p : Packet} {ps : List Packet} {a : Asked}
    (hpackets : s.packets = p :: ps) (hanswers : p.answers = some a)
    (hphase : s.phase = .reading) {phase : Phase}
    (hdone : phase ≠ .reading) {rest : List UInt8}
    (hrest : phase ≠ .ended → rest = ps.flatMap Packet.bytes) :
    Inv { s with
      stream := rest
      packets := s.packets.tail
      taken := s.taken ++ [(s.calls - 1, s.packets.head?.bind Packet.answers)]
      phase := phase } := by
  have hqueue := h.queue (by rw [hphase]; decide)
  rw [hpackets, List.filterMap_cons_some hanswers, State.current, hphase, List.cons_append,
    List.cons.injEq] at hqueue
  obtain ⟨rfl, hnone⟩ := hqueue
  have hcalls := h.reading hphase
  rw [hpackets]
  refine { aligned := hrest, queue := fun _ => ?_, fits := fun call r hmem => ?_, own := ?_,
           idle := fun _ => ?_, reading := fun h => absurd h hdone }
  · show ps.filterMap Packet.answers ++ s.asked.filter (fun a => a ≠ Asked.fakeInput) =
      State.current { s with phase := phase }
    rw [hnone, State.current]
    cases phase with
    | reading => exact absurd rfl hdone
    | _ => rfl
  · exact h.fits call r (by rw [hpackets]; exact List.mem_cons_of_mem _ hmem)
  · show s.taken ++ [(s.calls - 1, p.answers)] = _
    rw [hanswers, List.length_append, List.length_singleton, List.range_succ, List.map_append,
      ← h.own, ← hcalls]
    rfl
  · show (s.taken ++ [_]).length = s.calls
    rw [List.length_append, List.length_singleton]
    exact hcalls

/-- A turn of `getImage`: what it takes off the stream is the first packet. -/
theorem Inv.read (h : Inv s) (hstep : step s .read = some s') : Inv s' := by
  simp only [Replies.step] at hstep
  split at hstep
  next hphase =>
    have haligned := h.aligned (by rw [hphase]; decide)
    cases hpackets : s.packets with
    | nil =>
      rw [haligned, hpackets, List.flatMap_nil, getImage_nil] at hstep
      cases hstep
    | cons p ps =>
      rw [haligned, hpackets, List.flatMap_cons] at hstep
      cases p with
      | event e =>
        rw [getImage_event] at hstep
        cases hstep
        exact h.skip hpackets
      | error a e =>
        -- an error throws with nothing of the next packet read
        rw [getImage_error] at hstep
        cases hstep
        rw [← hpackets]
        exact h.take hpackets rfl hphase (by decide) fun _ => rfl
      | reply call r =>
        have hfits := h.fits call r (by rw [hpackets]; exact List.mem_cons_self)
        rcases getImage_reply call hfits with hread | hthrows
        · rw [hread] at hstep
          cases hstep
          rw [← hpackets]
          exact h.take hpackets rfl hphase (by simp) fun _ => rfl
        · -- a depth or a size that is not supported: the session ends in the middle of the reply
          obtain ⟨rest', hread⟩ := hthrows (ps.flatMap Packet.bytes)
          rw [hread] at hstep
          cases hstep
          rw [← hpackets]
          exact h.take hpackets rfl hphase (by simp) fun hended => absurd rfl hended
  next => cases hstep

theorem Inv.step (h : Inv s) {a : Act} (hok : AnswersImages s a) (hstep : step s a = some s') :
    Inv s' := by
  cases a with
  | getImage =>
    simp only [Replies.step] at hstep
    split at hstep
    next hphase =>
      cases hstep
      refine { aligned := fun _ => h.aligned (by rw [hphase]; decide), queue := fun _ => ?_,
               fits := h.fits, own := h.own, idle := fun h => Phase.noConfusion h
               reading := fun _ => congrArg (· + 1) (h.idle hphase) }
      -- nothing was on the way, so the new request is all there is to answer
      have hqueue := h.queue (by rw [hphase]; decide)
      rw [State.current, hphase] at hqueue
      show s.packets.filterMap Packet.answers ++
        (s.asked ++ [Asked.image s.calls]).filter (fun a => a ≠ Asked.fakeInput) = [.image s.calls]
      rw [List.filter_append, ← List.append_assoc, hqueue]
      rfl
    next => cases hstep
  | inject =>
    cases hstep
    refine { aligned := h.aligned, queue := fun hphase => ?_, fits := h.fits, own := h.own,
             idle := h.idle, reading := h.reading }
    show s.packets.filterMap Packet.answers ++
      (s.asked ++ [Asked.fakeInput]).filter (fun a => a ≠ Asked.fakeInput) = s.current
    rw [List.filter_append, ← List.append_assoc, h.queue hphase]
    exact List.append_nil _
  | event e =>
    cases hstep
    exact h.send [] rfl rfl fun _ _ h => by cases h
  | reply r =>
    simp only [Replies.step] at hstep
    split at hstep
    next call rest hasked =>
      cases hstep
      refine h.send [.image call] hasked rfl fun call' r' hp => ?_
      cases hp
      exact hok
    next => cases hstep
  | error e =>
    simp only [Replies.step] at hstep
    split at hstep
    next a rest hasked =>
      cases hstep
      -- the error goes to the image that is asked for: no injection may fail
      have ha : a ≠ .fakeInput := by
        intro ha
        exact hok (by rw [hasked, ha]; rfl)
      refine h.send [a] hasked ?_ fun _ _ h => by cases h
      rw [List.filter_cons_of_pos (by simpa using ha)]
      rfl
    next => cases hstep
  | accept =>
    simp only [Replies.step] at hstep
    split at hstep
    next rest hasked =>
      cases hstep
      refine { aligned := h.aligned, queue := fun hphase => ?_, fits := h.fits, own := h.own,
               idle := h.idle, reading := h.reading }
      have hqueue := h.queue hphase
      rw [hasked] at hqueue
      exact hqueue
    next => cases hstep
  | read => exact h.read hstep
  | fails =>
    simp only [Replies.step] at hstep
    split at hstep
    · cases hstep
      exact { aligned := fun h => absurd rfl h, queue := fun h => absurd rfl h, fits := h.fits,
              own := h.own, idle := fun h => Phase.noConfusion h
              reading := fun h => Phase.noConfusion h }
    · cases hstep

end

/-- In every run in which no injection is answered with an error and no reply is too long,
every call has taken the answer to its own request and no other. -/
theorem replies_correlated (rawSize : ℕ) {as : List Act} {s : State}
    (hok : Meets step AnswersImages { rawSize := rawSize } as)
    (hrun : run step { rawSize := rawSize } as = some s) : Correlated s := by
  have hinv : Inv s :=
    run_invariant (fun _ _ _ h hok hstep => h.step hok hstep) (.start rawSize) hok hrun
  exact hinv.correlated

/-- An error whose other fields are zero. -/
def zeroError : Error where
  head := [2, 0, 1]
  badValue := [0, 0, 0, 0]
  tail := List.replicate 24 0
  head_length := rfl
  badValue_length := rfl
  tail_length := rfl

def onePixel : Reply where
  head := [24, 0, 2]
  tail := List.replicate 24 0
  data := [1, 2, 3, 4]
  words := 1
  head_length := rfl
  tail_length := rfl
  data_length := rfl
  words_lt := by decide

def mappingNotify : Event where
  type := 34
  body := List.replicate 31 0
  type_ne := by decide
  body_length := rfl

/-- An injection that is refused, and a frame: the call takes the error for its answer. -/
def refusedKey : List Act := [.inject, .getImage, .error zeroError, .reply onePixel, .read]

theorem refusedKey_not_correlated :
    ∃ s, run step { rawSize := 4 } refusedKey = some s ∧ ¬ Correlated s := by
  refine ⟨_, rfl, fun h => ?_⟩
  have hown := h.own
  revert hown
  decide

/-- An injection that is accepted and an event, and a frame. -/
def acceptedKey : List Act :=
  [.inject, .getImage, .accept, .event mappingNotify, .reply onePixel, .read, .read]

theorem acceptedKey_correlated :
    ∃ s, run step { rawSize := 4 } acceptedKey = some s ∧ s.taken = [(0, some (.image 0))] ∧
      Correlated s :=
  have hok : Meets step AnswersImages { rawSize := 4 } acceptedKey := by decide +kernel
  ⟨_, rfl, rfl, replies_correlated 4 hok rfl⟩

end X11Client.Replies
