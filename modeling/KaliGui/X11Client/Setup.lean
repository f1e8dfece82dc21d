/-
The answer to the setup request (`X11Client.kt`, `Xproto.h`).

The server answers the setup request with a Failed reply, which carries a reason, or with a
Success reply, which describes its pixmap formats and its screens.  The client has announced
MSB first, so all numbers are sent the highest byte first.

* `SuccessReply.bytes`, `Refusal.bytes` — what the server sends;
* `handshake`, `parseSetup` — what the client reads;
* `handshake_success`, `handshake_refusal` — what it makes of either reply;
* `setup_never_obtained` — it always takes the image byte order for the other one;
* `refusal_never_decoded` — it leaves two bytes of every refusal.
-/
import KaliGui.X11Client.Replies
import Mathlib.Logic.Function.Basic
import Mathlib.Tactic.Ring

namespace X11Client.Setup

open DataInput

/-! ### What the server sends -/

def card16 (v : UInt16) : List UInt8 := beBytes 2 v.toNat

def card32 (v : UInt32) : List UInt8 := beBytes 4 v.toNat

/-- The bytes that fill up a number of them to a multiple of four. -/
def padding (n : ℕ) : ℕ := (4 - n % 4) % 4

/-- `xPixmapFormat`. -/
structure PixmapFormat where
  depth : UInt8
  bitsPerPixel : UInt8
  scanLinePad : UInt8
  pad1 : UInt8
  pad2 : UInt32

def PixmapFormat.bytes (f : PixmapFormat) : List UInt8 :=
  [f.depth] ++ ([f.bitsPerPixel] ++ ([f.scanLinePad, f.pad1] ++ card32 f.pad2))

/-- `xVisualType`. -/
structure VisualType where
  visualID : UInt32
  visualClass : UInt8
  bitsPerRGB : UInt8
  colormapEntries : UInt16
  redMask : UInt32
  greenMask : UInt32
  blueMask : UInt32
  pad : UInt32

def VisualType.bytes (v : VisualType) : List UInt8 :=
  card32 v.visualID ++ [v.visualClass, v.bitsPerRGB] ++ card16 v.colormapEntries ++
    card32 v.redMask ++ card32 v.greenMask ++ card32 v.blueMask ++ card32 v.pad

/-- `xDepth`, with its visuals. -/
structure Depth where
  depth : UInt8
  pad1 : UInt8
  visuals : List VisualType
  pad2 : UInt32
  visuals_lt : visuals.length < 2 ^ 16

def Depth.bytes (d : Depth) : List UInt8 :=
  [d.depth, d.pad1] ++ card16 (UInt16.ofNat d.visuals.length) ++ card32 d.pad2 ++
    d.visuals.flatMap VisualType.bytes

/-- `xWindowRoot`, with its depths. -/
structure WindowRoot where
  windowId : UInt32
  defaultColormap : UInt32
  whitePixel : UInt32
  blackPixel : UInt32
  currentInputMask : UInt32
  pixWidth : UInt16
  pixHeight : UInt16
  mmWidth : UInt16
  mmHeight : UInt16
  minInstalledMaps : UInt16
  maxInstalledMaps : UInt16
  rootVisualID : UInt32
  backingStore : UInt8
  saveUnders : UInt8
  rootDepth : UInt8
  depths : List Depth
  depths_lt : depths.length < 2 ^ 8

/-- The part of fixed size. -/
def WindowRoot.head (w : WindowRoot) : List UInt8 :=
  card32 w.windowId ++ (card32 w.defaultColormap ++ (card32 w.whitePixel ++
    (card32 w.blackPixel ++ (card32 w.currentInputMask ++ (card16 w.pixWidth ++
    (card16 w.pixHeight ++ (card16 w.mmWidth ++ (card16 w.mmHeight ++
    (card16 w.minInstalledMaps ++ (card16 w.maxInstalledMaps ++ (card32 w.rootVisualID ++
    ([w.backingStore] ++ ([w.saveUnders] ++ ([w.rootDepth] ++
    [UInt8.ofNat w.depths.length]))))))))))))))

def WindowRoot.bytes (w : WindowRoot) : List UInt8 := w.head ++ w.depths.flatMap Depth.bytes

/-- `xConnSetup` and what follows it. -/
structure SetupInfo where
  release : UInt32
  ridBase : UInt32
  ridMask : UInt32
  motionBufferSize : UInt32
  maxRequestSize : UInt16
  imageByteOrder : ByteOrder
  bitmapBitOrder : UInt8
  bitmapScanlineUnit : UInt8
  bitmapScanlinePad : UInt8
  minKeyCode : UInt8
  maxKeyCode : UInt8
  pad2 : UInt32
  vendor : List UInt8
  vendorPad : List UInt8
  formats : List PixmapFormat
  /-- screen 0 -/
  root : WindowRoot
  /-- the other screens -/
  roots : List WindowRoot
  vendor_lt : vendor.length < 2 ^ 16
  vendorPad_length : vendorPad.length = padding vendor.length
  formats_lt : formats.length < 2 ^ 8
  roots_lt : roots.length + 1 < 2 ^ 8
  depths_nodup : (formats.map fun f => f.depth).Nodup

/-- From the start to the fixed part of screen 0. -/
def SetupInfo.front (i : SetupInfo) : List UInt8 :=
  card32 i.release ++ (card32 i.ridBase ++ (card32 i.ridMask ++ (card32 i.motionBufferSize ++
    (card16 (UInt16.ofNat i.vendor.length) ++ (card16 i.maxRequestSize ++
    ([UInt8.ofNat (i.roots.length + 1)] ++ ([UInt8.ofNat i.formats.length] ++
    ([i.imageByteOrder.code] ++ ([i.bitmapBitOrder] ++ ([i.bitmapScanlineUnit] ++
    ([i.bitmapScanlinePad] ++ ([i.minKeyCode] ++ ([i.maxKeyCode] ++ (card32 i.pad2 ++
    ((i.vendor ++ i.vendorPad) ++ (i.formats.flatMap PixmapFormat.bytes ++
    i.root.head))))))))))))))))

def SetupInfo.bytes (i : SetupInfo) : List UInt8 :=
  i.front ++ (i.root.depths.flatMap Depth.bytes ++ i.roots.flatMap WindowRoot.bytes)

/-- A Success reply; the root depth is among the formats, and the whole in the length. -/
structure SuccessReply where
  unused : UInt8
  majorVersion : UInt16
  minorVersion : UInt16
  info : SetupInfo
  /-- the format listed for the depth of screen 0 -/
  rootFormat : PixmapFormat
  rootFormat_mem : rootFormat ∈ info.formats
  rootFormat_depth : rootFormat.depth = info.root.rootDepth
  length_lt : info.bytes.length < 4 * 2 ^ 16

def SuccessReply.bytes (r : SuccessReply) : List UInt8 :=
  [1] ++ ([r.unused] ++ (card16 r.majorVersion ++ (card16 r.minorVersion ++
    (card16 (UInt16.ofNat (r.info.bytes.length / 4)) ++ r.info.bytes))))

/-- A Failed reply. -/
structure Refusal where
  majorVersion : UInt16
  minorVersion : UInt16
  reason : List UInt8
  reasonPad : List UInt8
  reason_lt : reason.length < 2 ^ 8
  reasonPad_length : reasonPad.length = padding reason.length

/-- What follows the versions. -/
def Refusal.tail (r : Refusal) : List UInt8 :=
  card16 (UInt16.ofNat ((r.reason.length + r.reasonPad.length) / 4)) ++ (r.reason ++ r.reasonPad)

def Refusal.bytes (r : Refusal) : List UInt8 :=
  [0] ++ ([UInt8.ofNat r.reason.length] ++ (card16 r.majorVersion ++ (card16 r.minorVersion ++
    r.tail)))

/-! ### What the client reads -/

/-- The fields that `parseSetup` sets. -/
structure Fields where
  rootWindow : ℤ
  screenWidth : ℕ
  screenHeight : ℕ
  imageLsbFirst : Bool
  bitsPerPixel : ℕ
  deriving DecidableEq, Repr

inductive Failure
  | ioException (message : String)
  | indexOutOfBounds
  deriving DecidableEq, Repr

/-- How the handshake ends; `fields` are those it has set. -/
inductive Outcome
  | throws (failure : Failure) (fields : Option Fields)
  | connected (fields : Fields)
  deriving DecidableEq, Repr

def Outcome.fields : Outcome → Option Fields
  | .throws _ fields => fields
  | .connected fields => some fields

def pad4 (n : ℕ) : ℕ := (4 - (n &&& 3)) &&& 3

/-- `p += n` -/
def advance (n : ℕ) : Reader Unit := fun b => some ((), b.drop n)

/-- The loop over the pixmap formats, with `bppByDepth`. -/
def readFormats : ℕ → (ℕ → Option ℕ) → Reader (ℕ → Option ℕ)
  | 0, bppByDepth => return bppByDepth
  | n + 1, bppByDepth => do
    let depth ← readUnsignedByte
    let bpp ← readUnsignedByte
    let _scanlinePad ← readUnsignedShort
    advance 4
    readFormats n (Function.update bppByDepth depth (some bpp))

/-- Screen 0. -/
def readScreen (imageLsbFirst : Bool) (bppByDepth : ℕ → Option ℕ) : Reader Fields := do
  let rootWindow ← readInt
  let _colormap ← readInt
  let _whitePixel ← readInt
  let _blackPixel ← readInt
  let _inputMasks ← readInt
  let screenWidth ← readUnsignedShort
  let screenHeight ← readUnsignedShort
  let _mmWidth ← readUnsignedShort
  let _mmHeight ← readUnsignedShort
  let _minMaps ← readUnsignedShort
  let _maxMaps ← readUnsignedShort
  let _rootVisual ← readInt
  let _backingStore ← readUnsignedByte
  let _saveUnders ← readUnsignedByte
  let rootDepth ← readUnsignedByte
  let _depths ← readUnsignedByte
  return ⟨rootWindow, screenWidth, screenHeight, imageLsbFirst, (bppByDepth rootDepth).getD 32⟩

/-- The reads of `parseSetup`; `none` is a read past the end. -/
def readSetup : Reader (Except Failure Fields) := do
  let _release ← readInt
  let _resourceIdBase ← readInt
  let _resourceIdMask ← readInt
  let _motionBufferSize ← readInt
  let vendorLen ← readUnsignedShort
  let _maxRequestLength ← readUnsignedShort
  let screenCount ← readUnsignedByte
  let formatCount ← readUnsignedByte
  let imageByteOrder ← readUnsignedByte
  let _bitOrder ← readUnsignedByte
  let _scanlineUnit ← readUnsignedByte
  let _scanlinePad ← readUnsignedByte
  let _minKeycode ← readUnsignedByte
  let _maxKeycode ← readUnsignedByte
  advance 4
  advance (vendorLen + pad4 vendorLen)
  let bppByDepth ← readFormats formatCount fun _ => none
  if screenCount = 0 then return .error (.ioException "X server has no screens")
  else
    let fields ← readScreen (imageLsbFirst imageByteOrder) bppByDepth
    return .ok fields

def parseSetup (b : List UInt8) : Except Failure Fields :=
  match readSetup b with
  | none => .error .indexOutOfBounds
  | some (result, _) => result

/-- How the handshake goes on after `parseSetup`. -/
def checkScreen : Except Failure Fields → Outcome
  | .error failure => .throws failure none
  | .ok fields =>
    if fields.screenWidth = 0 ∨ fields.screenHeight = 0 then
      .throws (.ioException ("X server reported an empty screen (" ++
        toString fields.screenWidth ++ "x" ++ toString fields.screenHeight ++ ")")) (some fields)
    else .connected fields

/-- After the status of a Failed reply; `string` is `String(ByteArray)`. -/
def readRefusal (string : List UInt8 → String) : Reader Outcome := do
  let reasonLen ← readUnsignedByte
  let _major ← readUnsignedShort
  let _minor ← readUnsignedShort
  let reason ← readFully reasonLen
  skipBytes (pad4 reasonLen)
  return .throws (.ioException ("X server refused the connection: " ++ string reason)) none

/-- After the status of a Success reply. -/
def readSuccess : Reader Outcome := do
  let _unused ← readUnsignedByte
  let _major ← readUnsignedShort
  let _minor ← readUnsignedShort
  let extraWords ← readUnsignedShort
  if extraWords = 0 then
    return .throws (.ioException "X server returned an empty setup reply") none
  else
    let setup ← readFully (extraWords * 4)
    return checkScreen (parseSetup setup)

/-- `handshake`, once its request is written. -/
def handshake (string : List UInt8 → String) : Reader Outcome := do
  let status ← readUnsignedByte
  if status = 0 then readRefusal string
  else if status ≠ 1 then
    return .throws (.ioException ("X server requested authentication (status " ++
      toString status ++ ")")) none
  else readSuccess

/-! ### Numbers -/

theorem pad4_eq (n : ℕ) : pad4 n = padding n := by
  have hmask : ∀ m : ℕ, m &&& 3 = m % 4 := fun m => Nat.and_two_pow_sub_one_eq_mod m 2
  rw [pad4, padding, hmask, hmask]

theorem add_padding (n : ℕ) : (n + padding n) % 4 = 0 := by
  rw [padding]
  omega

theorem card16_length (v : UInt16) : (card16 v).length = 2 := by
  rw [card16, beBytes, List.length_reverse, ByteStream.leBytes_length]

theorem card32_length (v : UInt32) : (card32 v).length = 4 := by
  rw [card32, beBytes, List.length_reverse, ByteStream.leBytes_length]

theorem reads_card32 (v : UInt32) : Reads readInt (card32 v) (int32 v.toNat) :=
  Replies.reads_readInt_beBytes v.toNat

theorem card16_eq (v : UInt16) :
    card16 v = [UInt8.ofNat (v.toNat / 256), UInt8.ofNat v.toNat] := by
  have hcast : ((v.toNat : ℤ) % 256 ^ 2).toNat = v.toNat := by
    have hlt := v.toNat_lt
    omega
  rw [card16, beBytes, hcast]
  rfl

theorem reads_card16 (v : UInt16) : Reads readUnsignedShort (card16 v) v.toNat := by
  have hlt := v.toNat_lt
  have hsum : (UInt8.ofNat (v.toNat / 256)).toNat * 2 ^ 8 + (UInt8.ofNat v.toNat).toNat =
      v.toNat := by
    rw [UInt8.toNat_ofNat', UInt8.toNat_ofNat']
    omega
  have hread := reads_readUnsignedShort (UInt8.ofNat (v.toNat / 256)) (UInt8.ofNat v.toNat)
  rwa [hsum, ← card16_eq] at hread

theorem reads_advance {l : List UInt8} {n : ℕ} (h : l.length = n) : Reads (advance n) l () := by
  intro rest
  rw [advance, ← h, List.drop_left]

/-! ### The setup information -/

/-- `bppByDepth[depth] = bpp` -/
def put (bppByDepth : ℕ → Option ℕ) (f : PixmapFormat) : ℕ → Option ℕ :=
  Function.update bppByDepth f.depth.toNat (some f.bitsPerPixel.toNat)

theorem reads_readFormats (fs : List PixmapFormat) (bppByDepth : ℕ → Option ℕ) :
    Reads (readFormats fs.length bppByDepth) (fs.flatMap PixmapFormat.bytes)
      (fs.foldl put bppByDepth) := by
  induction fs generalizing bppByDepth with
  | nil => exact .pure _
  | cons f fs ih =>
    rw [List.flatMap_cons, PixmapFormat.bytes, List.append_assoc, List.append_assoc,
      List.append_assoc]
    exact (reads_readUnsignedByte _).bind ((reads_readUnsignedByte _).bind
      ((reads_readUnsignedShort _ _).bind ((reads_advance (card32_length _)).bind
        (ih (put bppByDepth f)))))

/-- Formats of other depths do not matter. -/
theorem foldl_put_of_notMem {fs : List PixmapFormat} {d : UInt8}
    (h : ∀ f ∈ fs, f.depth ≠ d) (bppByDepth : ℕ → Option ℕ) :
    fs.foldl put bppByDepth d.toNat = bppByDepth d.toNat := by
  induction fs generalizing bppByDepth with
  | nil => rfl
  | cons f fs ih =>
    have hne : d.toNat ≠ f.depth.toNat := fun heq =>
      h f List.mem_cons_self (UInt8.toNat_inj.mp heq.symm)
    rw [List.foldl_cons, ih (fun g hg => h g (List.mem_cons_of_mem f hg)), put,
      Function.update_of_ne hne]

/-- The format of a depth that is listed once. -/
theorem foldl_put_of_mem {fs : List PixmapFormat} (hnodup : (fs.map fun f => f.depth).Nodup)
    {f : PixmapFormat} (hf : f ∈ fs) (bppByDepth : ℕ → Option ℕ) :
    fs.foldl put bppByDepth f.depth.toNat = some f.bitsPerPixel.toNat := by
  induction fs generalizing bppByDepth with
  | nil => exact absurd hf List.not_mem_nil
  | cons g fs ih =>
    rw [List.map_cons, List.nodup_cons] at hnodup
    rw [List.foldl_cons]
    rcases List.mem_cons.mp hf with rfl | hf
    · have hother : ∀ g ∈ fs, g.depth ≠ f.depth := fun g hg heq =>
        hnodup.1 (List.mem_map.mpr ⟨g, hg, heq⟩)
      rw [foldl_put_of_notMem hother, put, Function.update_self]
    · exact ih hnodup.2 hf (put bppByDepth g)

theorem reads_readScreen (w : WindowRoot) (lsb : Bool) (bppByDepth : ℕ → Option ℕ) :
    Reads (readScreen lsb bppByDepth) w.head
      ⟨int32 w.windowId.toNat, w.pixWidth.toNat, w.pixHeight.toNat, lsb,
        (bppByDepth w.rootDepth.toNat).getD 32⟩ := by
  rw [WindowRoot.head]
  exact (reads_card32 _).bind <| (reads_card32 _).bind <| (reads_card32 _).bind <|
    (reads_card32 _).bind <| (reads_card32 _).bind <| (reads_card16 _).bind <|
    (reads_card16 _).bind <| (reads_card16 _).bind <| (reads_card16 _).bind <|
    (reads_card16 _).bind <| (reads_card16 _).bind <| (reads_card32 _).bind <|
    (reads_readUnsignedByte _).bind <| (reads_readUnsignedByte _).bind <|
    (reads_readUnsignedByte _).bind <| (reads_readUnsignedByte _).map _

/-- What the client makes of the setup information. -/
def SetupInfo.parsed (i : SetupInfo) : Fields where
  rootWindow := int32 i.root.windowId.toNat
  screenWidth := i.root.pixWidth.toNat
  screenHeight := i.root.pixHeight.toNat
  imageLsbFirst := imageLsbFirst i.imageByteOrder.code.toNat
  bitsPerPixel := (i.formats.foldl put (fun _ => none) i.root.rootDepth.toNat).getD 32

theorem reads_readSetup (i : SetupInfo) : Reads readSetup i.front (.ok i.parsed) := by
  have hvendor := reads_card16 (UInt16.ofNat i.vendor.length)
  rw [UInt16.toNat_ofNat_of_lt' i.vendor_lt] at hvendor
  have hscreens := reads_readUnsignedByte (UInt8.ofNat (i.roots.length + 1))
  rw [UInt8.toNat_ofNat_of_lt' i.roots_lt] at hscreens
  have hformats := reads_readUnsignedByte (UInt8.ofNat i.formats.length)
  rw [UInt8.toNat_ofNat_of_lt' i.formats_lt] at hformats
  have hstring : (i.vendor ++ i.vendorPad).length = i.vendor.length + pad4 i.vendor.length := by
    rw [List.length_append, i.vendorPad_length, pad4_eq]
  have hroot : Reads (if i.roots.length + 1 = 0 then
        return .error (.ioException "X server has no screens")
      else do
        let fields ← readScreen (imageLsbFirst i.imageByteOrder.code.toNat)
          (i.formats.foldl put fun _ => none)
        return .ok fields : Reader (Except Failure Fields)) i.root.head (.ok i.parsed) := by
    rw [if_neg (Nat.succ_ne_zero _)]
    exact (reads_readScreen i.root _ _).map Except.ok
  rw [SetupInfo.front]
  exact (reads_card32 _).bind <| (reads_card32 _).bind <| (reads_card32 _).bind <|
    (reads_card32 _).bind <| hvendor.bind <| (reads_card16 _).bind <| hscreens.bind <|
    hformats.bind <| (reads_readUnsignedByte _).bind <| (reads_readUnsignedByte _).bind <|
    (reads_readUnsignedByte _).bind <| (reads_readUnsignedByte _).bind <|
    (reads_readUnsignedByte _).bind <| (reads_readUnsignedByte _).bind <|
    (reads_advance (card32_length _)).bind <| (reads_advance hstring).bind <|
    (reads_readFormats i.formats _).bind hroot

theorem parseSetup_eq (i : SetupInfo) : parseSetup i.bytes = .ok i.parsed := by
  rw [parseSetup, SetupInfo.bytes, reads_readSetup i]

/-! ### Whole words -/

theorem dvd_length_flatMap {α : Type} {f : α → List UInt8} {l : List α}
    (h : ∀ a ∈ l, 4 ∣ (f a).length) : 4 ∣ (l.flatMap f).length := by
  induction l with
  | nil => exact Nat.dvd_zero 4
  | cons a l ih =>
    rw [List.flatMap_cons, List.length_append]
    exact Nat.dvd_add (h a List.mem_cons_self) (ih fun b hb => h b (List.mem_cons_of_mem a hb))

theorem Depth.dvd_length (d : Depth) : 4 ∣ d.bytes.length := by
  have hvisuals : 4 ∣ (d.visuals.flatMap VisualType.bytes).length := by
    refine dvd_length_flatMap fun v _ => ?_
    simp only [VisualType.bytes, List.length_append, card16_length, card32_length,
      List.length_cons, List.length_nil]
    decide
  simp only [Depth.bytes, List.length_append, card16_length, card32_length, List.length_cons,
    List.length_nil]
  omega

theorem WindowRoot.head_length (w : WindowRoot) : w.head.length = 40 := by
  simp only [WindowRoot.head, List.length_append, card16_length, card32_length,
    List.length_cons, List.length_nil]

theorem WindowRoot.dvd_length (w : WindowRoot) : 4 ∣ w.bytes.length := by
  have hdepths := dvd_length_flatMap fun d (_ : d ∈ w.depths) => d.dvd_length
  rw [WindowRoot.bytes, List.length_append, w.head_length]
  omega

theorem SetupInfo.front_length (i : SetupInfo) :
    i.front.length = 72 + (i.vendor.length + padding i.vendor.length) + 8 * i.formats.length := by
  have hformats : (i.formats.flatMap PixmapFormat.bytes).length = i.formats.length * 8 := by
    refine ByteStream.length_flatMap_of_length fun f _ => ?_
    simp only [PixmapFormat.bytes, List.length_append, card32_length, List.length_cons,
      List.length_nil]
  simp only [SetupInfo.front, List.length_append, card16_length, card32_length, List.length_cons,
    List.length_nil, i.root.head_length, hformats, i.vendorPad_length]
  ring

/-- The setup information is a number of whole words, and not none. -/
theorem SetupInfo.words (i : SetupInfo) : 4 ∣ i.bytes.length ∧ 72 ≤ i.bytes.length := by
  have hdepths := dvd_length_flatMap fun d (_ : d ∈ i.root.depths) => d.dvd_length
  have hroots := dvd_length_flatMap fun w (_ : w ∈ i.roots) => w.dvd_length
  have hpadding := add_padding i.vendor.length
  rw [SetupInfo.bytes, List.length_append, List.length_append, i.front_length]
  omega

/-! ### A Success reply -/

/-- The client reads the whole reply and sets the fields to what it parsed. -/
theorem handshake_success (string : List UInt8 → String) (r : SuccessReply) :
    Reads (handshake string) r.bytes (checkScreen (.ok r.info.parsed)) := by
  obtain ⟨hwords, hlength⟩ := r.info.words
  have hlt := r.length_lt
  have hread := reads_card16 (UInt16.ofNat (r.info.bytes.length / 4))
  rw [UInt16.toNat_ofNat_of_lt' (by rw [UInt16.size]; omega)] at hread
  have hexact : r.info.bytes.length / 4 * 4 = r.info.bytes.length := Nat.div_mul_cancel hwords
  have hinfo : Reads (if r.info.bytes.length / 4 = 0 then
        return .throws (.ioException "X server returned an empty setup reply") none
      else do
        let setup ← readFully (r.info.bytes.length / 4 * 4)
        return checkScreen (parseSetup setup) : Reader Outcome) r.info.bytes
      (checkScreen (.ok r.info.parsed)) := by
    rw [if_neg (by omega), hexact, ← parseSetup_eq]
    exact (reads_readFully rfl).map fun setup => checkScreen (parseSetup setup)
  have hsuccess : Reads (if (1 : UInt8).toNat = 0 then readRefusal string
      else if (1 : UInt8).toNat ≠ 1 then
        return .throws (.ioException ("X server requested authentication (status " ++
          toString (1 : UInt8).toNat ++ ")")) none
      else readSuccess) ([r.unused] ++ (card16 r.majorVersion ++ (card16 r.minorVersion ++
        (card16 (UInt16.ofNat (r.info.bytes.length / 4)) ++ r.info.bytes))))
      (checkScreen (.ok r.info.parsed)) := by
    rw [if_neg (by decide), if_neg (by decide)]
    exact (reads_readUnsignedByte _).bind <| (reads_card16 _).bind <| (reads_card16 _).bind <|
      hread.bind hinfo
  exact (reads_readUnsignedByte 1).bind hsuccess

/-- What a reply says. -/
def SuccessReply.fields (r : SuccessReply) : Fields where
  rootWindow := int32 r.info.root.windowId.toNat
  screenWidth := r.info.root.pixWidth.toNat
  screenHeight := r.info.root.pixHeight.toNat
  imageLsbFirst := r.info.imageByteOrder == .lsbFirst
  bitsPerPixel := r.rootFormat.bitsPerPixel.toNat

/-- It is what the client obtains, but for the order of bytes. -/
theorem parsed_eq (r : SuccessReply) :
    r.info.parsed = { r.fields with imageLsbFirst := !r.fields.imageLsbFirst } := by
  have hbits := foldl_put_of_mem r.info.depths_nodup r.rootFormat_mem fun _ => none
  rw [r.rootFormat_depth] at hbits
  have horder : imageLsbFirst r.info.imageByteOrder.code.toNat =
      !(r.info.imageByteOrder == .lsbFirst) := by
    cases r.info.imageByteOrder <;> rfl
  rw [SetupInfo.parsed, hbits, horder, SuccessReply.fields, Option.getD_some]

theorem checkScreen_fields (fields : Fields) : (checkScreen (.ok fields)).fields = some fields := by
  rw [checkScreen]
  split <;> rfl

/-- The handshake consumes exactly the reply and obtains what it says. -/
def Obtained (string : List UInt8 → String) (r : SuccessReply) : Prop :=
  ∃ outcome, Reads (handshake string) r.bytes outcome ∧ outcome.fields = some r.fields

/-- It never does: it consumes the reply and obtains the rest, but takes the byte order of
images for the other one. -/
theorem setup_never_obtained (string : List UInt8 → String) (r : SuccessReply) :
    (∃ outcome, Reads (handshake string) r.bytes outcome ∧
      outcome.fields = some { r.fields with imageLsbFirst := !r.fields.imageLsbFirst }) ∧
      ¬ Obtained string r := by
  have hread := handshake_success string r
  rw [parsed_eq] at hread
  refine ⟨⟨_, hread, checkScreen_fields _⟩, ?_⟩
  rintro ⟨outcome, hread', hfields⟩
  have hsame := (hread' []).symm.trans (hread [])
  obtain ⟨rfl, -⟩ := Prod.mk.inj (Option.some_inj.mp hsame)
  rw [checkScreen_fields, Option.some_inj] at hfields
  have horder : (!r.fields.imageLsbFirst) = r.fields.imageLsbFirst :=
    congrArg Fields.imageLsbFirst hfields
  exact absurd horder (by simp)

/-- Text of one byte a character. -/
def ascii (bytes : List UInt8) : String := String.ofList (bytes.map fun b => Char.ofNat b.toNat)

/-- A screen of 1024 by 768 pixels of 24 bits, on a server that sends the lowest byte first. -/
def plainScreen : SuccessReply where
  unused := 0
  majorVersion := 11
  minorVersion := 0
  info :=
    { release := 0, ridBase := 0x200000, ridMask := 0x1FFFFF, motionBufferSize := 256
      maxRequestSize := 0xFFFF, imageByteOrder := .lsbFirst, bitmapBitOrder := 0
      bitmapScanlineUnit := 32, bitmapScanlinePad := 32, minKeyCode := 8, maxKeyCode := 255
      pad2 := 0, vendor := [], vendorPad := [], formats := [⟨24, 32, 32, 0, 0⟩]
      root :=
        { windowId := 0x30F, defaultColormap := 0x20, whitePixel := 0xFFFFFF, blackPixel := 0
          currentInputMask := 0, pixWidth := 1024, pixHeight := 768, mmWidth := 270
          mmHeight := 203, minInstalledMaps := 1, maxInstalledMaps := 1, rootVisualID := 0x21
          backingStore := 0, saveUnders := 0, rootDepth := 24, depths := []
          depths_lt := by decide }
      roots := [], vendor_lt := by decide, vendorPad_length := rfl, formats_lt := by decide
      roots_lt := by decide, depths_nodup := by decide }
  rootFormat := ⟨24, 32, 32, 0, 0⟩
  rootFormat_mem := by simp
  rootFormat_depth := rfl
  length_lt := by decide +kernel

/-- The client takes it for one that sends the highest byte first. -/
theorem plainScreen_msbFirst :
    (handshake ascii plainScreen.bytes).map (fun p => p.1.fields.map Fields.imageLsbFirst) =
      some (some false) ∧ ¬ Obtained ascii plainScreen := by
  have heval : (handshake ascii plainScreen.bytes).map
      (fun p => p.1.fields.map Fields.imageLsbFirst) = some (some false) := by decide +kernel
  refine ⟨heval, ?_⟩
  rintro ⟨outcome, hread, hfields⟩
  have hread := hread []
  rw [List.append_nil] at hread
  rw [hread, Option.map_some, hfields] at heval
  exact absurd (Option.some_inj.mp heval) (by decide)

/-! ### A Failed reply -/

theorem handshake_failed (string : List UInt8 → String) (l : List UInt8) :
    handshake string (0 :: l) = readRefusal string l := rfl

theorem Refusal.tail_length (r : Refusal) :
    r.tail.length = 2 + (r.reason.length + padding r.reason.length) := by
  rw [Refusal.tail, List.length_append, List.length_append, card16_length, r.reasonPad_length]

/-- What is read as the reason, what is skipped, and what is left. -/
theorem Refusal.tail_split (r : Refusal) : ∃ skipped, skipped.length = pad4 r.reason.length ∧
    r.tail = r.tail.take r.reason.length ++
      (skipped ++ r.tail.drop (r.reason.length + padding r.reason.length)) := by
  refine ⟨(r.tail.drop r.reason.length).take (padding r.reason.length), ?_, ?_⟩
  · rw [List.length_take, List.length_drop, r.tail_length, pad4_eq]
    omega
  · rw [← List.drop_drop, List.take_append_drop, List.take_append_drop]

/-- The client takes the additional length for the first two bytes of the reason, and leaves
the last two bytes of the reply. -/
theorem handshake_refusal (string : List UInt8 → String) (r : Refusal) (rest : List UInt8) :
    handshake string (r.bytes ++ rest) =
      some (.throws (.ioException ("X server refused the connection: " ++
          string (r.tail.take r.reason.length))) none,
        r.tail.drop (r.reason.length + padding r.reason.length) ++ rest) := by
  obtain ⟨skipped, hskip, hsplit⟩ := r.tail_split
  have hcount := reads_readUnsignedByte (UInt8.ofNat r.reason.length)
  rw [UInt8.toNat_ofNat_of_lt' r.reason_lt] at hcount
  have hreason : (r.tail.take r.reason.length).length = r.reason.length := by
    rw [List.length_take, r.tail_length]
    omega
  have hread : Reads (readRefusal string) ([UInt8.ofNat r.reason.length] ++
      (card16 r.majorVersion ++ (card16 r.minorVersion ++
        (r.tail.take r.reason.length ++ skipped))))
      (.throws (.ioException ("X server refused the connection: " ++
        string (r.tail.take r.reason.length))) none) :=
    hcount.bind <| (reads_card16 _).bind <| (reads_card16 _).bind <|
      (reads_readFully hreason).bind <| (reads_skipBytes hskip).map fun _ => _
  have hbytes : r.bytes ++ rest = 0 :: (([UInt8.ofNat r.reason.length] ++
      (card16 r.majorVersion ++ (card16 r.minorVersion ++
        (r.tail.take r.reason.length ++ skipped)))) ++
          (r.tail.drop (r.reason.length + padding r.reason.length) ++ rest)) := by
    rw [Refusal.bytes]
    conv_lhs => rw [hsplit]
    simp only [List.append_assoc, List.cons_append, List.nil_append]
  rw [hbytes, handshake_failed]
  exact hread _

/-- The handshake fails with the reason, and consumes exactly the reply. -/
def Decoded (string : List UInt8 → String) (r : Refusal) : Prop :=
  Reads (handshake string) r.bytes
    (.throws (.ioException ("X server refused the connection: " ++ string r.reason)) none)

/-- It never does. -/
theorem refusal_never_decoded (string : List UInt8 → String) (r : Refusal) :
    ¬ Decoded string r := by
  intro h
  have hsame := (h []).symm.trans (handshake_refusal string r [])
  obtain ⟨-, hleft⟩ := Prod.mk.inj (Option.some_inj.mp hsame)
  have hlength := congrArg List.length hleft
  rw [List.append_nil, List.length_drop, r.tail_length, List.length_nil] at hlength
  omega

/-- A server that refuses a client in two letters. -/
def no : Refusal where
  majorVersion := 11
  minorVersion := 0
  reason := [78, 111]
  reasonPad := [0, 0]
  reason_lt := by decide
  reasonPad_length := rfl

/-- The text has the length of the reason in place of the reason, which stays in the stream. -/
theorem no_not_decoded :
    handshake ascii no.bytes = some (.throws (.ioException
      ("X server refused the connection: " ++ ascii [0, 1])) none, [0, 0]) ∧
      ¬ Decoded ascii no := by
  have heval : (handshake ascii no.bytes).map Prod.snd = some [0, 0] := by decide +kernel
  refine ⟨rfl, fun h => ?_⟩
  have hread := h []
  rw [List.append_nil] at hread
  rw [hread] at heval
  exact absurd (Option.some_inj.mp heval) (by decide)

end X11Client.Setup
