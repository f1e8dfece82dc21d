/-
Flips to a client's pixmap (`present_check_flip` in `present_scmd.c`, `loriePresentFlip` in
`InitOutput.c`).

Present offers a pixmap that fills the screen, the server takes it if its buffer can be
shared, and the renderer shows it as the root if it is of the size it waits for.

* `presentCheckFlip`, `loriePresentFlip` — the code;
* `loriePresentFlip_eq_true` — what the server takes;
* `flips_right_iff` — the screens on which it takes what can be shown, and nothing else.
-/
import KaliGui.Lorie.PixmapBuffer
import KaliGui.Lorie.RootSize

namespace Lorie.Flip

open Lorie.Buffer

/-! ### Present's check -/

structure Box where
  x1 : ℤ
  y1 : ℤ
  x2 : ℤ
  y2 : ℤ
  deriving DecidableEq

/-- `RegionRec`, in bands. -/
abbrev Region := List Box

/-- `pvfb->root`, of a size that the root pixmap can have. -/
structure Root where
  width : ℕ
  height : ℕ
  legacyDrawing : Bool
  width_bounds : 0 < width ∧ width ≤ 32767
  height_bounds : 0 < height ∧ height ≤ 32767

/-- `root->winSize` -/
def Root.winSize (r : Root) : Region := [⟨0, 0, r.width, r.height⟩]

/-- What `present_check_flip` is told of a window; pixmaps go by numbers. -/
structure Request where
  crtc : Bool
  /-- `GetWindowPixmap`, `GetScreenPixmap`, and the pixmaps flipped to and to be flipped to -/
  windowPixmap : ℕ
  screenPixmap : ℕ
  flipPixmap : Option ℕ
  flipPendingPixmap : Option ℕ
  x : ℤ
  y : ℤ
  width : ℕ
  height : ℕ
  clipList : Region
  valid : Option Region
  xOff : Int16
  yOff : Int16
  /-- `screen_x` and `screen_y` of the pixmap -/
  screenX : ℤ
  screenY : ℤ

/-- `present_check_flip`; the server's own `check_flip` is `TrueNoop`. -/
def presentCheckFlip (root : Root) (q : Request) (p : Pixmap) : Bool :=
  q.crtc ∧
    (q.windowPixmap = q.screenPixmap ∨ some q.windowPixmap = q.flipPixmap ∨
      some q.windowPixmap = q.flipPendingPixmap) ∧
    q.clipList = root.winSize ∧
    (q.xOff = 0 ∧ q.yOff = 0) ∧
    (∀ valid ∈ q.valid, valid = root.winSize) ∧
    ((q.x = 0 ∧ q.y = 0) ∧ q.x = q.screenX ∧ q.y = q.screenY) ∧
    q.width = p.width ∧ q.height = p.height

/-! ### The server's flip -/

/-- The buffers that the activity was told of, when one is connected. -/
abbrev Registered := Option (List UInt64)

/-- `lorieRegisterBuffer` -/
def lorieRegisterBuffer (registered : Registered) (b : LorieBuffer) : Registered :=
  registered.map fun ids => if b.desc.id ∈ ids then ids else b.desc.id :: ids

/-- The type that root buffers have. -/
def Root.bufferType (r : Root) : BufferType := if r.legacyDrawing then .fd else .ahardwarebuffer

/-- `loriePresentFlip`, with the value of `LINUX_X11_FORCE_FLIP`. -/
def loriePresentFlip (os : Os) (m : Memory) (root : Root) (forceFlip : Option String)
    (registered : Registered) (p : Pixmap) : Bool × Pixmap × Registered :=
  match p.priv.buffer with
  | none => (false, p, registered)
  | some b =>
    -- the width is compared with both, the height with neither
    if p.priv.mem ≠ none ∨ root.width ≠ p.width ∨ root.width ≠ p.height then
      (false, p, registered)
    else if b.desc.type = .fd ∧ p.priv.imported ∧ forceFlip ≠ some "1" then (false, p, registered)
    else
      let p' := (lorieEnsureGpuSampleable os m p root.bufferType).2.1
      match p'.priv.buffer with
      | some b' =>
        if b'.desc.type = .fd ∨ b'.desc.type = .ahardwarebuffer then
          (true, p', lorieRegisterBuffer registered b')
        else (false, p', registered)
      | none => (false, p', registered)

/-! ### What a flip should do -/

/-- A pixmap as the server makes and imports them: a buffer is of the pixmap's size, and
one in the heap has its block. -/
structure WellFormed (p : Pixmap) : Prop where
  width : ∀ b ∈ p.priv.buffer, p.priv.mem = none → b.desc.width.toInt = p.width
  height : ∀ b ∈ p.priv.buffer, p.priv.mem = none → b.desc.height.toInt = p.height
  data : ∀ b ∈ p.priv.buffer, b.desc.type = .regular → ∃ src, b.desc.data = some src
  type : ∀ b ∈ p.priv.buffer, b.desc.type ≠ .unknown

/-- The buffer can be shared, or be converted to one that can. -/
def Shareable (os : Os) (root : Root) (b : LorieBuffer) : Prop :=
  b.desc.type ≠ .regular ∨ target os b root.bufferType formatR8G8B8X8 ≠ none

/-- What makes a pixmap one that can be shown: it covers the root exactly, and its buffer
holds the pixels, is not an imported file and can be shared. -/
structure Showable (os : Os) (root : Root) (q : Request) (p : Pixmap) : Prop where
  checked : presentCheckFlip root q p = true
  covers : p.width = root.width ∧ p.height = root.height
  mem : p.priv.mem = none
  buffer : ∃ b, p.priv.buffer = some b ∧ ¬ (b.desc.type = .fd ∧ p.priv.imported = true) ∧
    Shareable os root b

/-- The renderer accepts the buffer wherever it accepts one of the root's size. -/
def Accepted (root : Root) (b : LorieBuffer) : Prop :=
  ∀ expectedW expectedH,
    RootSize.SizeAccepted expectedW expectedH ⟨root.width, root.height, 0, []⟩ →
      RootSize.SizeAccepted expectedW expectedH
        ⟨b.desc.width.toInt.toNat, b.desc.height.toInt.toNat, 0, []⟩

/-- The pixmap has the root's size, and a buffer that is shared with the activity, if there
is one. -/
structure Shown (root : Root) (p : Pixmap) (registered : Registered) : Prop where
  width : p.width = root.width
  height : p.height = root.height
  buffer : ∃ b, p.priv.buffer = some b ∧
    (b.desc.type = .fd ∨ b.desc.type = .ahardwarebuffer) ∧
    (∀ ids ∈ registered, b.desc.id ∈ ids) ∧ Accepted root b

/-- All flips of a screen are taken if they can be shown, and can be shown if taken. -/
def FlipsRight (root : Root) : Prop :=
  ∀ (os : Os) (m : Memory) (forceFlip : Option String) (registered : Registered) (q : Request)
    (p : Pixmap), WellFormed p → presentCheckFlip root q p = true →
    (Showable os root q p → (loriePresentFlip os m root forceFlip registered p).1 = true) ∧
      ((loriePresentFlip os m root forceFlip registered p).1 = true →
        Shown root (loriePresentFlip os m root forceFlip registered p).2.1
          (loriePresentFlip os m root forceFlip registered p).2.2)

/-- The pixmaps of the server are well formed. -/
theorem wellFormed_created {os : Os} {id : UInt64} {width height depth : ℕ}
    {backed legacyDrawing : Bool} {p : Pixmap}
    (h : createPixmap os id width height depth backed legacyDrawing = some p) : WellFormed p := by
  have hspec : ∀ b ∈ p.priv.buffer,
      (b.desc.width.toInt = p.width ∧ b.desc.height.toInt = p.height) ∧
        (b.desc.type = .regular → ∃ src, b.desc.data = some src) ∧ b.desc.type ≠ .unknown := by
    intro b hb
    obtain ⟨⟨hwidth, -, hheight⟩, ⟨hw, hh, -⟩, -, -, b₀, hb₀, rfl⟩ := createPixmap_spec h hb
    obtain ⟨hbw, hbh⟩ := lorieBufferAllocate_size hb₀
    have htype := lorieBufferAllocate_type hb₀
    rw [lorieBufferLock_desc, hbw, hbh, hw, hh]
    refine ⟨⟨toInt_ofNat_small hwidth.2, toInt_ofNat_small hheight⟩, fun hregular => ?_, ?_⟩
    · rw [← htype, hregular] at hb₀
      obtain ⟨-, block, -, hmade⟩ := allocate_regular hb₀
      exact ⟨_, by rw [hmade]⟩
    · rw [htype]
      split
      · exact nofun
      · split
        · exact nofun
        · exact nofun
  exact {
    width := fun b hb _ => (hspec b hb).1.1
    height := fun b hb _ => (hspec b hb).1.2
    data := fun b hb => (hspec b hb).2.1
    type := fun b hb => (hspec b hb).2.2 }

/-- So are those made of a client's file. -/
theorem wellFormed_imported {os : Os} {id : UInt64} {legacyDrawing : Bool} {i : Import}
    {p : Pixmap} (h : loriePixmapFromFds os id legacyDrawing i = some p) (hraw : i.Raw) :
    WellFormed p := by
  obtain ⟨file, data, -, -, hbuffer, ⟨hw, hh, -⟩, -⟩ := loriePixmapFromFds_raw h hraw
  exact {
    width := fun b hb _ => by
      obtain rfl := Option.some.inj (hbuffer.symm.trans hb)
      rw [hw]
      exact toInt_ofNat_small i.width_bounds.2
    height := fun b hb _ => by
      obtain rfl := Option.some.inj (hbuffer.symm.trans hb)
      rw [hh]
      exact toInt_ofNat_small i.height_bounds.2
    data := fun b hb htype => by
      obtain rfl := Option.some.inj (hbuffer.symm.trans hb)
      contradiction
    type := fun b hb => by
      obtain rfl := Option.some.inj (hbuffer.symm.trans hb)
      exact nofun }

/-! ### What it does -/

variable {os : Os} {m : Memory} {root : Root} {forceFlip : Option String}
  {registered : Registered} {p : Pixmap} {b : LorieBuffer}

theorem bufferType_shared (root : Root) :
    root.bufferType = .fd ∨ root.bufferType = .ahardwarebuffer := by
  rw [Root.bufferType]
  split
  · exact Or.inl rfl
  · exact Or.inr rfl

/-- The pixmap that `lorieEnsureGpuSampleable` leaves, and whether its buffer can be shared. -/
theorem ensure_shared (hp : WellFormed p) (hb : p.priv.buffer = some b)
    (hmem : p.priv.mem = none) :
    ∃ b', (lorieEnsureGpuSampleable os m p root.bufferType).2.1.priv.buffer = some b' ∧
      ((lorieEnsureGpuSampleable os m p root.bufferType).2.1.width = p.width ∧
        (lorieEnsureGpuSampleable os m p root.bufferType).2.1.height = p.height) ∧
      (b'.desc.width = b.desc.width ∧ b'.desc.height = b.desc.height) ∧
      (b'.desc.type = .fd ∨ b'.desc.type = .ahardwarebuffer ↔ Shareable os root b) := by
  by_cases htype : b.desc.type = .regular
  · obtain ⟨src, hsrc⟩ := hp.data b hb htype
    cases ht : target os b root.bufferType formatR8G8B8X8 with
    | none =>
      rw [lorieEnsureGpuSampleable_kept hb hmem (Or.inr ⟨src, hsrc, ht⟩)]
      refine ⟨b, hb, ⟨rfl, rfl⟩, ⟨rfl, rfl⟩, ?_⟩
      rw [Shareable, ht, htype]
      exact iff_of_false (by decide) (by simp)
    | some t =>
      rw [lorieEnsureGpuSampleable_moved hb hmem htype hsrc ht]
      refine ⟨_, rfl, ⟨rfl, rfl⟩, ?_, ?_⟩
      · rw [lorieBufferLock_desc]
        cases t <;> exact ⟨rfl, rfl⟩
      · rw [lorieBufferLock_desc, moved_type ht, Shareable, ht]
        exact iff_of_true (bufferType_shared root) (Or.inr nofun)
  · rw [lorieEnsureGpuSampleable_kept hb hmem (Or.inl htype)]
    refine ⟨b, hb, ⟨rfl, rfl⟩, ⟨rfl, rfl⟩, iff_of_true ?_ (Or.inl htype)⟩
    have hknown := hp.type b hb
    cases hkind : b.desc.type with
    | unknown => exact absurd hkind hknown
    | regular => exact absurd hkind htype
    | fd => exact Or.inl rfl
    | ahardwarebuffer => exact Or.inr rfl

theorem mem_lorieRegisterBuffer (registered : Registered) (b : LorieBuffer) :
    ∀ ids ∈ lorieRegisterBuffer registered b, b.desc.id ∈ ids := by
  intro ids hids
  obtain ⟨old, -, rfl⟩ := Option.map_eq_some_iff.mp hids
  split
  · assumption
  · exact List.mem_cons_self

/-- The checks that come before the conversion. -/
def Checked (root : Root) (forceFlip : Option String) (p : Pixmap) (b : LorieBuffer) : Prop :=
  (p.priv.mem = none ∧ root.width = p.width ∧ root.width = p.height) ∧
    ¬ (b.desc.type = .fd ∧ p.priv.imported = true ∧ forceFlip ≠ some "1")

/-- The server takes a pixmap whose width and height are both the root's width, and whose
buffer can be shared and is no imported file, unless that is forced. -/
theorem loriePresentFlip_eq_true (hp : WellFormed p) :
    (loriePresentFlip os m root forceFlip registered p).1 = true ↔
      ∃ b, p.priv.buffer = some b ∧ Checked root forceFlip p b ∧ Shareable os root b := by
  rw [loriePresentFlip]
  cases hb : p.priv.buffer with
  | none =>
    refine iff_of_false (by simp) ?_
    rintro ⟨b, hnone, -⟩
    contradiction
  | some b =>
    dsimp only
    by_cases hsize : p.priv.mem ≠ none ∨ root.width ≠ p.width ∨ root.width ≠ p.height
    · rw [if_pos hsize]
      refine iff_of_false (by simp) ?_
      rintro ⟨_, -, ⟨⟨hmem, hw, hh⟩, -⟩, -⟩
      exact hsize.elim (· hmem) fun h => h.elim (· hw) (· hh)
    rw [if_neg hsize]
    simp only [not_or, not_not] at hsize
    obtain ⟨hmem, hw, hh⟩ := hsize
    by_cases himported : b.desc.type = .fd ∧ p.priv.imported = true ∧ forceFlip ≠ some "1"
    · rw [if_pos himported]
      refine iff_of_false (by simp) ?_
      rintro ⟨b', hb', ⟨-, hnot⟩, -⟩
      obtain rfl := Option.some.inj hb'
      exact hnot himported
    rw [if_neg himported]
    -- past the checks, the type of the buffer decides that the conversion leaves
    obtain ⟨b', hb', -, -, hshared⟩ := @ensure_shared os m root _ _ hp hb hmem
    rw [hb']
    dsimp only
    constructor
    · intro htaken
      refine ⟨b, rfl, ⟨⟨hmem, hw, hh⟩, himported⟩, hshared.mp ?_⟩
      by_contra hno
      rw [if_neg hno] at htaken
      contradiction
    · rintro ⟨b₀, hb₀, -, hshareable⟩
      obtain rfl := Option.some.inj hb₀
      rw [if_pos (hshared.mpr hshareable)]

/-- A pixmap that is taken has both sizes equal to the root's width, and a buffer of those
sizes that the activity knows. -/
theorem shown_of_taken (hp : WellFormed p) (hsquare : root.width = root.height)
    (h : (loriePresentFlip os m root forceFlip registered p).1 = true) :
    Shown root (loriePresentFlip os m root forceFlip registered p).2.1
      (loriePresentFlip os m root forceFlip registered p).2.2 := by
  obtain ⟨b, hb, ⟨⟨hmem, hw, hh⟩, himported⟩, hshareable⟩ := (loriePresentFlip_eq_true hp).mp h
  obtain ⟨b', hb', ⟨hw', hh'⟩, ⟨hbw, hbh⟩, hshared⟩ :=
    @ensure_shared os m root _ _ hp hb hmem
  have htype := hshared.mpr hshareable
  have hflip : loriePresentFlip os m root forceFlip registered p =
      (true, (lorieEnsureGpuSampleable os m p root.bufferType).2.1,
        lorieRegisterBuffer registered b') := by
    rw [loriePresentFlip, hb]
    dsimp only
    rw [if_neg (by simp [hmem, ← hw, ← hh]), if_neg himported, hb']
    exact if_pos htype
  rw [hflip]
  have hwidth : b'.desc.width.toInt = root.width := by
    rw [hbw, hp.width b hb hmem, hw]
  have hheight : b'.desc.height.toInt = root.height := by
    rw [hbh, hp.height b hb hmem, ← hsquare, hh]
  exact {
    width := hw'.trans hw.symm
    height := hh'.trans (hh.symm.trans hsquare)
    buffer := ⟨b', hb', htype, mem_lorieRegisterBuffer registered b', fun eW eH haccepted => by
      rwa [hwidth, hheight]⟩ }

/-! ### Screens -/

/-- The request of a window on the root that covers it. -/
def Root.fullScreen (r : Root) : Request where
  crtc := true
  windowPixmap := 0
  screenPixmap := 0
  flipPixmap := none
  flipPendingPixmap := none
  x := 0
  y := 0
  width := r.width
  height := r.height
  clipList := r.winSize
  valid := none
  xOff := 0
  yOff := 0
  screenX := 0
  screenY := 0

/-- A pixmap of the root's size on a hardware buffer. -/
def Root.client (r : Root) : Pixmap where
  width := r.width
  height := r.height
  depth := 24
  bitsPerPixel := 32
  devKind := Int32.ofNat r.width * 4
  priv :=
    { buffer := some (initial 0 (Int32.ofNat r.width) (Int32.ofNat r.width) (Int32.ofNat r.height)
        formatR8G8B8X8 .ahardwarebuffer none none 0 0) }

theorem wellFormed_client (r : Root) : WellFormed r.client where
  width b hb _ := by
    obtain rfl := Option.some.inj hb
    exact toInt_ofNat_small r.width_bounds.2
  height b hb _ := by
    obtain rfl := Option.some.inj hb
    exact toInt_ofNat_small r.height_bounds.2
  data b hb htype := by
    obtain rfl := Option.some.inj hb
    contradiction
  type b hb := by
    obtain rfl := Option.some.inj hb
    exact nofun

theorem showable_client (os : Os) (r : Root) : Showable os r r.fullScreen r.client where
  checked := by simp [presentCheckFlip, Root.fullScreen, Root.client]
  covers := ⟨rfl, rfl⟩
  mem := rfl
  buffer := ⟨_, rfl, fun h => absurd (show BufferType.ahardwarebuffer = .fd from h.1) (by decide),
    Or.inl (show BufferType.ahardwarebuffer ≠ .regular by decide)⟩

/-- Flips go right on square screens, and on no others: the height of the pixmap is
compared with the root's width. -/
theorem flips_right_iff (root : Root) : FlipsRight root ↔ root.width = root.height := by
  constructor
  · intro hall
    have hshowable := showable_client Os.granting root
    have htaken := (hall Os.granting whiteHeap none none root.fullScreen root.client
      (wellFormed_client root) hshowable.checked).1 hshowable
    obtain ⟨b, -, ⟨⟨-, -, hheight⟩, -⟩, -⟩ :=
      (loriePresentFlip_eq_true (wellFormed_client root)).mp htaken
    exact hheight
  · intro hsquare os m forceFlip registered q p hp hchecked
    constructor
    · intro hshowable
      obtain ⟨b, hb, hown, hshareable⟩ := hshowable.buffer
      obtain ⟨hw, hh⟩ := hshowable.covers
      exact (loriePresentFlip_eq_true hp).mpr ⟨b, hb,
        ⟨⟨hshowable.mem, hw.symm, hsquare.trans hh.symm⟩, fun h => hown ⟨h.1, h.2.1⟩⟩, hshareable⟩
    · exact shown_of_taken hp hsquare

def fullHd : Root := ⟨1920, 1080, false, by decide, by decide⟩

/-- On a full HD screen the server refuses a pixmap that it could show. -/
theorem fullHd_flips_wrong : ¬ ∀ root : Root, FlipsRight root := by
  intro hall
  have hshowable := showable_client Os.granting fullHd
  have htaken := (hall fullHd Os.granting whiteHeap none none fullHd.fullScreen fullHd.client
    (wellFormed_client fullHd) hshowable.checked).1 hshowable
  exact absurd htaken (by decide)

end Lorie.Flip
