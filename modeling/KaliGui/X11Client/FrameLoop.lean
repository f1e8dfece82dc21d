/-
The polling loop (`X11Client.kt`).

`frameLoop` asks for the image over and over and reads it into the same buffer.  A second
buffer tells it whether the image has changed, and only then it decodes the buffer, into two
arrays in turn, and hands the array over.

`none` is an exception, which ends the loop.

* `State`, `step` — an iteration, by what its call of `getImage` came to;
* `Iteration` — the frames that are handed over, and when;
* `Mirrors` — the invariant: `previous` is `raw`, and the last frame is decoded from it;
* `dirty_check_iff` — the screens on which no frame is dropped and none is repeated.
-/
import KaliGui.X11Client.FrameSizes
import KaliGui.X11Client.Replies
import Mathlib.Data.List.Induction

namespace X11Client.FrameLoop

open Machine Replies

/-! ### The loop -/

/-- A call of `onFramebuffer`: which of the arrays it gets, and what that holds. -/
structure Handed where
  isFrameA : Bool
  pixels : List ℕ
  deriving DecidableEq, Repr

structure State where
  raw : List UInt8
  previous : List UInt8
  havePrevious : Bool
  frameA : List ℕ
  frameB : List ℕ
  publishA : Bool
  /-- the calls of `onFramebuffer`, the last one first -/
  handed : List Handed

/-- The loop begins with new buffers; `publishA` is as an earlier loop has left it. -/
def start (size n : ℕ) (publishA : Bool) : State where
  raw := List.replicate size 0
  previous := List.replicate size 0
  havePrevious := false
  frameA := List.replicate n 0
  frameB := List.replicate n 0
  publishA := publishA
  handed := []

/-- The first bytes of `src` over those of `dest`: `System.arraycopy`, and the buffer after
`readFully`. -/
def arraycopy (src dest : List UInt8) (bytes : ℕ) : List UInt8 :=
  src.take bytes ++ dest.drop bytes

/-- The dirty check. -/
def differs (raw previous : List UInt8) (bytes : ℕ) : Bool :=
  (List.range bytes).any fun i => raw[i]? != previous[i]?

def State.frame (s : State) (isFrameA : Bool) : List ℕ := if isFrameA then s.frameA else s.frameB

/-- The pixels in the array whose turn it is, and that with the listener. -/
def State.handOver (s : State) (pixels : List ℕ) : State :=
  { s with
    frameA := if s.publishA then pixels else s.frameA
    frameB := if s.publishA then s.frameB else pixels
    publishA := !s.publishA
    handed := ⟨s.publishA, pixels⟩ :: s.handed }

section Screen

variable (format : PixelFormat) (imageLsbFirst : Bool) (n : ℕ)

/-- `publishFrame`, with the array it writes to and the call of the listener. -/
def State.publish (s : State) : Option State := do
  let pixels ← publishFrame format.bitsPerPixel imageLsbFirst s.raw n
  return s.handOver pixels

/-- The rest of an iteration, where the first `bytes` of `raw` have been read. -/
def State.check (s : State) (bytes : ℕ) : Option State :=
  let changed := !s.havePrevious || differs s.raw s.previous bytes
  if changed then
    State.publish format imageLsbFirst n { s with
      previous := arraycopy s.raw s.previous bytes
      havePrevious := true }
  else some s

/-- What `getImage` returns to the loop, or leaves in `raw`, of `rawSize` bytes. -/
def Accepted (rawSize : ℕ) : Outcome → Prop
  | .rejected => True
  | .image bytes => 0 < bytes.length ∧ bytes.length ≤ rawSize
  | .throws => False

instance Accepted.decidable (rawSize : ℕ) : DecidablePred (Accepted rawSize)
  | .rejected => inferInstanceAs (Decidable True)
  | .image _ => inferInstanceAs (Decidable (_ ∧ _))
  | .throws => inferInstanceAs (Decidable False)

def step (s : State) (a : Outcome) : Option State :=
  if Accepted s.raw.length a then
    match a with
    | .image bytes =>
      State.check format imageLsbFirst n { s with raw := arraycopy bytes s.raw bytes.length }
        bytes.length
    | _ => some s
  else none

/-! ### What the listener is owed -/

/-- Among the outcomes there is an image. -/
def Received (as : List Outcome) : Prop := ∃ bytes, Outcome.image bytes ∈ as

/-- An iteration from `s` to `t` got the first image after the outcomes `as`, or one that
changed `raw`. -/
def Due (as : List Outcome) (a : Outcome) (s t : State) : Prop :=
  (∃ bytes, a = .image bytes) ∧ (¬ Received as ∨ t.raw ≠ s.raw)

/-- The last frame handed over is decoded from `raw`, and its array still holds it. -/
def ShowsRaw (s : State) : Prop :=
  ∃ f, s.handed.head? = some f ∧
    publishFrame format.bitsPerPixel imageLsbFirst s.raw n = some f.pixels ∧
    s.frame f.isFrameA = f.pixels

/-- An iteration, after the outcomes `as`, does what the dirty check is for. -/
structure Iteration (as : List Outcome) (a : Outcome) (s t : State) : Prop where
  mirrored : Received (as ++ [a]) → t.previous = t.raw ∧ ShowsRaw format imageLsbFirst n t
  /-- a frame that is due is handed over, in the array that was not handed over before -/
  handsOver : Due as a s t → ∃ f, t.handed = f :: s.handed ∧
    ∀ g, s.handed.head? = some g → f.isFrameA ≠ g.isFrameA
  /-- and no other -/
  handsOverNothing : ¬ Due as a s t → t.handed = s.handed

end Screen

/-- On a screen of this size, every iteration of every run of the loop ends and does what the
dirty check is for. -/
def DirtyCheckRight (format : PixelFormat) (imageLsbFirst : Bool) (w h : ℕ) : Prop :=
  ∀ size n, allocate format.bitsPerPixel w h = some (size, n) → ∀ (publishA : Bool)
    (as : List Outcome) (s : State),
    run (step format imageLsbFirst n) (start size n publishA) as = some s →
      ∀ a, Accepted size a → ∃ t, step format imageLsbFirst n s a = some t ∧
        Iteration format imageLsbFirst n as a s t

/-! ### Copying and comparing -/

theorem arraycopy_length {bytes raw : List UInt8} (h : bytes.length ≤ raw.length) :
    (arraycopy bytes raw bytes.length).length = raw.length := by
  rw [arraycopy, List.length_append, List.length_take, List.length_drop]
  omega

/-- What was read is copied to where it was read before. -/
theorem arraycopy_arraycopy (bytes raw : List UInt8) :
    arraycopy (arraycopy bytes raw bytes.length) raw bytes.length =
      arraycopy bytes raw bytes.length := by
  rw [arraycopy, arraycopy, List.take_length, List.take_left]

theorem differs_eq_false_iff (raw previous : List UInt8) (bytes : ℕ) :
    differs raw previous bytes = false ↔ raw.take bytes = previous.take bytes := by
  rw [differs, List.any_eq_false]
  constructor
  · intro hall
    refine List.ext_getElem? fun i => ?_
    rw [List.getElem?_take, List.getElem?_take]
    by_cases hi : i < bytes
    · have hsame := hall i (List.mem_range.mpr hi)
      rw [bne_iff_ne, not_not] at hsame
      rw [hsame]
    · rw [if_neg hi, if_neg hi]
  · intro hsame i hi
    have hlt := List.mem_range.mp hi
    rw [bne_iff_ne, not_not, ← List.getElem?_take_of_lt hlt, hsame, List.getElem?_take_of_lt hlt]

/-- The bytes of the image are compared, and the others are as they were. -/
theorem differs_arraycopy (bytes raw : List UInt8) :
    differs (arraycopy bytes raw bytes.length) raw bytes.length = true ↔
      arraycopy bytes raw bytes.length ≠ raw := by
  rw [← Bool.not_eq_false, not_iff_not, differs_eq_false_iff, arraycopy, List.take_length,
    List.take_left]
  constructor
  · intro hsame
    calc bytes ++ raw.drop bytes.length
        = raw.take bytes.length ++ raw.drop bytes.length := congrArg (· ++ _) hsame
      _ = raw := List.take_append_drop ..
  · intro hsame
    conv_rhs => rw [← hsame]
    rw [List.take_left]

/-! ### One iteration -/

section Steps

variable {format : PixelFormat} {imageLsbFirst : Bool} {n size : ℕ} {as : List Outcome}
  {bytes : List UInt8} {s t : State}

/-- The invariant, after the outcomes `as`. -/
structure Mirrors (format : PixelFormat) (imageLsbFirst : Bool) (n size : ℕ) (as : List Outcome)
    (s : State) : Prop where
  raw_length : s.raw.length = size
  previous_eq : s.previous = s.raw
  havePrevious_iff : s.havePrevious = true ↔ Received as
  /-- the next frame goes to the other array -/
  shown : Received as → ∃ pixels,
    publishFrame format.bitsPerPixel imageLsbFirst s.raw n = some pixels ∧
    s.handed.head? = some ⟨!s.publishA, pixels⟩ ∧ s.frame (!s.publishA) = pixels
  nothing : ¬ Received as → s.handed = []

theorem mirrors_start (size n : ℕ) (publishA : Bool) :
    Mirrors format imageLsbFirst n size [] (start size n publishA) where
  raw_length := List.length_replicate
  previous_eq := rfl
  havePrevious_iff := by
    constructor
    · nofun
    · rintro ⟨bytes, hmem⟩
      exact absurd hmem List.not_mem_nil
  shown := fun ⟨_, hmem⟩ => absurd hmem List.not_mem_nil
  nothing := fun _ => rfl

theorem received_image (as : List Outcome) (bytes : List UInt8) :
    Received (as ++ [.image bytes]) :=
  ⟨bytes, List.mem_append_right as List.mem_cons_self⟩

theorem received_rejected : Received (as ++ [.rejected]) ↔ Received as := by
  constructor
  · rintro ⟨bytes, hmem⟩
    rcases List.mem_append.mp hmem with hmem | hmem
    · exact ⟨bytes, hmem⟩
    · exact absurd (List.mem_singleton.mp hmem) nofun
  · rintro ⟨bytes, hmem⟩
    exact ⟨bytes, List.mem_append_left _ hmem⟩

theorem Mirrors.showsRaw (h : Mirrors format imageLsbFirst n size as s) (has : Received as) :
    ShowsRaw format imageLsbFirst n s := by
  obtain ⟨pixels, hpixels, hhanded, hframe⟩ := h.shown has
  exact ⟨_, hhanded, hpixels, hframe⟩

theorem publish_eq {pixels : List ℕ}
    (h : publishFrame format.bitsPerPixel imageLsbFirst s.raw n = some pixels) :
    s.publish format imageLsbFirst n = some (s.handOver pixels) := by
  rw [State.publish, h]
  rfl

theorem exists_of_publish (h : s.publish format imageLsbFirst n = some t) :
    ∃ pixels, publishFrame format.bitsPerPixel imageLsbFirst s.raw n = some pixels ∧
      t = s.handOver pixels := by
  obtain ⟨pixels, hpixels, ht⟩ := Option.bind_eq_some_iff.mp h
  exact ⟨pixels, hpixels, (Option.some_inj.mp ht).symm⟩

@[simp] theorem State.handOver_publishA (s : State) (pixels : List ℕ) :
    (s.handOver pixels).publishA = !s.publishA := rfl

theorem State.handOver_frame (s : State) (pixels : List ℕ) :
    (s.handOver pixels).frame s.publishA = pixels := by
  rw [State.frame, State.handOver]
  cases s.publishA <;> rfl

/-- `raw` after an image has been read. -/
def State.received (s : State) (bytes : List UInt8) : List UInt8 :=
  arraycopy bytes s.raw bytes.length

/-- `changed`, for an image that has been read. -/
theorem Mirrors.changed_iff (h : Mirrors format imageLsbFirst n size as s) :
    (!s.havePrevious || differs (s.received bytes) s.previous bytes.length) = true ↔
      ¬ Received as ∨ s.received bytes ≠ s.raw := by
  rw [Bool.or_eq_true, Bool.not_eq_true', ← Bool.not_eq_true, h.havePrevious_iff, h.previous_eq,
    State.received, differs_arraycopy]

/-- The first image, and one that changes `raw`, is copied whole and published. -/
theorem step_due (h : Mirrors format imageLsbFirst n size as s)
    (hbytes : Accepted size (.image bytes)) (hdue : ¬ Received as ∨ s.received bytes ≠ s.raw) :
    step format imageLsbFirst n s (.image bytes) = State.publish format imageLsbFirst n { s with
      raw := s.received bytes
      previous := s.received bytes
      havePrevious := true } := by
  rw [← h.raw_length] at hbytes
  rw [step, if_pos hbytes]
  simp only [State.check]
  rw [← State.received, if_pos (h.changed_iff.mpr hdue), h.previous_eq, State.received,
    arraycopy_arraycopy]

/-- Another image leaves everything as it was. -/
theorem step_not_due (h : Mirrors format imageLsbFirst n size as s)
    (hbytes : Accepted size (.image bytes))
    (hdue : ¬ (¬ Received as ∨ s.received bytes ≠ s.raw)) :
    step format imageLsbFirst n s (.image bytes) = some s := by
  have hsame : s.received bytes = s.raw := by
    by_contra hne
    exact hdue (.inr hne)
  rw [← h.raw_length] at hbytes
  rw [step, if_pos hbytes]
  simp only [State.check]
  rw [← State.received, if_neg (mt h.changed_iff.mp hdue), hsame]

theorem step_rejected (s : State) : step format imageLsbFirst n s .rejected = some s := rfl

theorem accepted_of_step {a : Outcome} (hs : step format imageLsbFirst n s a = some t) :
    Accepted s.raw.length a := by
  by_contra hnot
  unfold step at hs
  rw [if_neg hnot] at hs
  cases hs

/-- The invariant, when a frame has just been handed over. -/
theorem mirrors_handOver {pixels : List ℕ} (hlength : s.raw.length = size)
    (hprevious : s.previous = s.raw) (hhave : s.havePrevious = true) (has : Received as)
    (hpixels : publishFrame format.bitsPerPixel imageLsbFirst s.raw n = some pixels) :
    Mirrors format imageLsbFirst n size as (s.handOver pixels) where
  raw_length := hlength
  previous_eq := hprevious
  havePrevious_iff := iff_of_true hhave has
  shown := fun _ => by
    rw [State.handOver_publishA, Bool.not_not]
    exact ⟨pixels, hpixels, rfl, State.handOver_frame ..⟩
  nothing := fun hnot => absurd has hnot

theorem Mirrors.image (h : Mirrors format imageLsbFirst n size as s)
    (hbytes : Accepted size (.image bytes))
    (hs : step format imageLsbFirst n s (.image bytes) = some t) :
    Mirrors format imageLsbFirst n size (as ++ [.image bytes]) t ∧
      Iteration format imageLsbFirst n as (.image bytes) s t := by
  have hreceived := received_image as bytes
  by_cases hdue : ¬ Received as ∨ s.received bytes ≠ s.raw
  · rw [step_due h hbytes hdue] at hs
    obtain ⟨pixels, hpixels, rfl⟩ := exists_of_publish hs
    have hlength : (s.received bytes).length = size :=
      (arraycopy_length (h.raw_length ▸ hbytes.2)).trans h.raw_length
    have hmirrors := mirrors_handOver hlength rfl rfl hreceived hpixels
    refine ⟨hmirrors, fun _ => ⟨rfl, hmirrors.showsRaw hreceived⟩, fun _ => ⟨_, rfl, ?_⟩,
      fun hnot => absurd ⟨⟨bytes, rfl⟩, hdue⟩ hnot⟩
    intro g hg
    by_cases has : Received as
    · obtain ⟨pixels', -, hhanded, -⟩ := h.shown has
      rw [hhanded, Option.some_inj] at hg
      subst hg
      exact mt (Bool.eq_not_self _).mp not_false
    · rw [h.nothing has] at hg
      cases hg
  · rw [step_not_due h hbytes hdue, Option.some_inj] at hs
    subst hs
    have has : Received as := by
      by_contra hnot
      exact hdue (.inl hnot)
    refine ⟨⟨h.raw_length, h.previous_eq, ?_, fun _ => h.shown has, fun hnot =>
      absurd hreceived hnot⟩, fun _ => ⟨h.previous_eq, h.showsRaw has⟩, ?_, fun _ => rfl⟩
    · exact iff_of_true (h.havePrevious_iff.mpr has) hreceived
    · rintro ⟨-, hnot | hne⟩
      · exact absurd has hnot
      · exact absurd rfl hne

theorem Mirrors.rejected (h : Mirrors format imageLsbFirst n size as s) :
    Mirrors format imageLsbFirst n size (as ++ [.rejected]) s ∧
      Iteration format imageLsbFirst n as .rejected s s := by
  refine ⟨⟨h.raw_length, h.previous_eq, ?_, fun has => ?_, fun hnot => ?_⟩, fun has => ?_, ?_,
    fun _ => rfl⟩
  · rw [received_rejected]
    exact h.havePrevious_iff
  · exact h.shown (received_rejected.mp has)
  · exact h.nothing (mt received_rejected.mpr hnot)
  · exact ⟨h.previous_eq, h.showsRaw (received_rejected.mp has)⟩
  · rintro ⟨⟨bytes, hnot⟩, -⟩
    cases hnot

/-- An iteration that ends keeps the invariant, and hands over what is due. -/
theorem Mirrors.step {a : Outcome} (h : Mirrors format imageLsbFirst n size as s)
    (hs : step format imageLsbFirst n s a = some t) :
    Mirrors format imageLsbFirst n size (as ++ [a]) t ∧
      Iteration format imageLsbFirst n as a s t := by
  have haccepted := accepted_of_step hs
  rw [h.raw_length] at haccepted
  cases a with
  | rejected =>
    rw [step_rejected, Option.some_inj] at hs
    subst hs
    exact h.rejected
  | image bytes => exact h.image haccepted hs
  | throws => exact haccepted.elim

theorem mirrors_of_run {publishA : Bool}
    (hrun : run (FrameLoop.step format imageLsbFirst n) (start size n publishA) as = some s) :
    Mirrors format imageLsbFirst n size as s := by
  induction as using List.reverseRecOn generalizing s with
  | nil =>
    rw [run_nil, Option.some_inj] at hrun
    subst hrun
    exact mirrors_start size n publishA
  | append_singleton as a ih =>
    rw [run_append] at hrun
    obtain ⟨s', hrun', hlast⟩ := Option.bind_eq_some_iff.mp hrun
    rw [run_singleton] at hlast
    exact ((ih hrun').step hlast).1

/-- With room for all pixels, every iteration ends. -/
theorem Mirrors.exists_step {a : Outcome} (h : Mirrors format imageLsbFirst n size as s)
    (hroom : format.bytesPerPixel * n ≤ size) (ha : Accepted size a) :
    ∃ t, FrameLoop.step format imageLsbFirst n s a = some t := by
  cases a with
  | rejected => exact ⟨s, step_rejected s⟩
  | throws => exact ha.elim
  | image bytes =>
    by_cases hdue : ¬ Received as ∨ s.received bytes ≠ s.raw
    · have hlength : (s.received bytes).length = size :=
        (arraycopy_length (h.raw_length ▸ ha.2)).trans h.raw_length
      obtain ⟨pixels, hpixels, -⟩ := publishFrame_total (hlength ▸ hroom) imageLsbFirst
      rw [step_due h ha hdue]
      exact ⟨_, publish_eq hpixels⟩
    · exact ⟨s, step_not_due h ha hdue⟩

/-- On the first image a frame is decoded, whose last pixel is in `raw`. -/
theorem lt_of_first {publishA : Bool} {m : ℕ} (hbytes : Accepted size (.image bytes))
    (hs : step format imageLsbFirst (m + 1) (start size (m + 1) publishA) (.image bytes) = some t) :
    format.bytesPerPixel * m + 1 < size := by
  have h : Mirrors format imageLsbFirst (m + 1) size [] (start size (m + 1) publishA) :=
    mirrors_start size (m + 1) publishA
  have hnone : ¬ Received [] := fun ⟨_, hmem⟩ => absurd hmem List.not_mem_nil
  rw [step_due h hbytes (.inl hnone)] at hs
  obtain ⟨pixels, hpixels, -⟩ := exists_of_publish hs
  have hlength : ((start size (m + 1) publishA).received bytes).length = size :=
    (arraycopy_length (h.raw_length.symm ▸ hbytes.2)).trans h.raw_length
  exact hlength ▸ lt_of_publishFrame hpixels

end Steps

/-! ### What `getImage` returns -/

/-- The loop accepts whatever a call returns without an exception. -/
theorem accepted_of_getImage {rawSize : ℕ} {stream rest : List UInt8} {a : Outcome}
    (h : Replies.getImage rawSize stream = some (some a, rest)) :
    a = .throws ∨ Accepted rawSize a := by
  obtain ⟨⟨type, afterType⟩, -, h⟩ := Option.bind_eq_some_iff.mp h
  cases type with
  | none => cases h
  | some type =>
    obtain ⟨⟨length, afterHeader⟩, -, h⟩ := Option.bind_eq_some_iff.mp h
    simp only [readImage] at h
    split at h
    · cases h
      exact .inr trivial
    · split at h
      · cases h
        exact .inl rfl
      · split at h
        · cases h
          exact .inl rfl
        · rename_i hbounds
          obtain ⟨⟨image, afterImage⟩, himage, h⟩ := Option.bind_eq_some_iff.mp h
          cases h
          have hlength := DataInput.length_of_readFully himage
          right
          rw [Accepted]
          omega

/-! ### Screens with room -/

/-- The size of `raw` is no `Int`, and what it wraps to is positive. -/
def Wraps (format : PixelFormat) (w h : ℕ) : Prop :=
  format = .rgb888 ∧ 2 ^ 30 < w * h ∧ w * h < 2 ^ 30 + 2 ^ 29

theorem area_lt {w h : ℕ} (hw : w < 2 ^ 16) (hh : h < 2 ^ 16) : w * h < 2 ^ 32 :=
  calc w * h ≤ (2 ^ 16 - 1) * (2 ^ 16 - 1) := Nat.mul_le_mul (by omega) (by omega)
    _ < 2 ^ 32 := by decide

/-- The sizes as `Int`s, for `k` bytes a pixel. -/
theorem room_of_int32 {k area : ℕ} (hk : k = 2 ∨ k = 4) (harea : area < 2 ^ 32)
    (hpos : ¬ (int32 (k * area : ℕ) < 0 ∨ int32 area < 0))
    (hwraps : k = 4 → 2 ^ 30 < area → ¬ area < 2 ^ 30 + 2 ^ 29) :
    (int32 (k * area : ℕ)).toNat = 0 ∨
      k * (int32 area).toNat ≤ (int32 (k * area : ℕ)).toNat := by
  obtain ⟨q, hq, hlo, hhi⟩ := int32_spec (k * area : ℕ)
  obtain ⟨q', hq', hlo', hhi'⟩ := int32_spec area
  rcases hk with rfl | rfl
  · omega
  · have hnot := hwraps rfl
    omega

/-- `raw` has room for the frame, or for no image at all. -/
theorem room_of_allocate {format : PixelFormat} {w h size n : ℕ} (hw : w < 2 ^ 16)
    (hh : h < 2 ^ 16) (hwraps : ¬ Wraps format w h)
    (halloc : allocate format.bitsPerPixel w h = some (size, n)) :
    size = 0 ∨ format.bytesPerPixel * n ≤ size := by
  have harea := area_lt hw hh
  rw [allocate_eq format hw] at halloc
  split at halloc <;> [cases halloc; skip]
  rename_i hpos
  obtain ⟨rfl, rfl⟩ := Prod.mk.inj (Option.some_inj.mp halloc)
  have hbytes : w * format.bytesPerPixel * h = format.bytesPerPixel * (w * h) := by
    rw [Nat.mul_comm w, Nat.mul_assoc]
  rw [hbytes] at hpos ⊢
  cases format with
  | rgb888 => exact room_of_int32 (.inr rfl) harea hpos fun _ hlo hhi => hwraps ⟨rfl, hlo, hhi⟩
  | rgb565 => exact room_of_int32 (.inl rfl) harea hpos nofun

/-- If the product wraps to a size, `raw` is too small. -/
theorem allocate_of_wraps {format : PixelFormat} {w h : ℕ} (hw : w < 2 ^ 16)
    (hwraps : Wraps format w h) :
    allocate format.bitsPerPixel w h = some (4 * (w * h) - 2 ^ 32, w * h) := by
  obtain ⟨rfl, hlo, hhi⟩ := hwraps
  have hbytes : w * PixelFormat.rgb888.bytesPerPixel * h = 4 * (w * h) := by
    rw [PixelFormat.bytesPerPixel, Nat.mul_comm w, Nat.mul_assoc]
  rw [allocate_eq _ hw, hbytes]
  generalize w * h = area at *
  obtain ⟨q, hq, hlo', hhi'⟩ := int32_spec ((4 * area : ℕ) : ℤ)
  rw [int32_of_lt (n := area) (by omega) (by omega), if_neg (by omega), Option.some_inj]
  exact Prod.ext (by omega) (by omega)

end X11Client.FrameLoop
