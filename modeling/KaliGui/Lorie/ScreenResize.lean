/-
The windows' pixmaps when the screen gets a new size (`InitOutput.c`, lines 590 to 668, with
`TraverseTree` of `dix/window.c`).

The screen gets a new pixmap, and every window that had the old one gets the new one; then the
old one is destroyed.  The windows are found by a walk through their tree, which goes below a
window only if that had the old pixmap; windows that are redirected have pixmaps of their own.

The pixmap of the root window is kept locked, so that it can be drawn to.  A lock may fail; the
buffer is marked as locked all the same, and asked for its address again it has none.

* `lorieSetWindowPixmap`, `lorieSetPixmapVisitWindow`, `traverseTree`, `lorieRRScreenSetSize` —
  the code;
* `reached` — the windows that get the new pixmap;
* `visit_windows` — what the walk does to the windows;
* `createPixmap_locked` — a new pixmap is locked if and only if the lock was granted;
* `old_pixmap_unused` — every window with the old pixmap gets the new one, and no other does.
-/
import KaliGui.Lib.TreeWalk
import KaliGui.Lorie.PixmapLocks
import Mathlib.Data.List.Nodup
import Mathlib.Logic.Function.Basic

namespace Lorie.ScreenResize

open TreeWalk
open Buffer (Os LorieBuffer LoriePixmapPriv Pixmap createPixmap lorieCreatePixmap
  lorieBufferAllocate lorieBufferLock)

/-! ### State -/

variable {W P : Type*} [DecidableEq W] [DecidableEq P]

structure Screen (W P : Type*) where
  root : W
  windows : Links W
  /-- `GetWindowPixmap` -/
  windowPixmap : W → P
  /-- `GetScreenPixmap` -/
  screenPixmap : P
  priv : P → LoriePixmapPriv
  rootDepth : ℕ
  legacyDrawing : Bool
  /-- the pixmap under `damage` -/
  damaged : Option P := none
  destroyed : List P := []
  /-- the buffers that were sent to the activity -/
  registered : List P := []

/-! ### The code -/

/-- What `lorieSetWindowPixmap` does with the locks, for the root window. -/
def relock (os : Os) (oldPixmap newPixmap : P) (priv : P → LoriePixmapPriv) :
    P → LoriePixmapPriv :=
  let old := priv oldPixmap
  let priv :=
    if old.buffer.isSome ∧ old.locked.isSome then
      Function.update priv oldPixmap { old.unlock with wasLocked := false }
    else priv
  let new := priv newPixmap
  if new.buffer.isSome ∧ ¬new.locked.isSome then
    Function.update priv newPixmap { new.lock os with wasLocked := false }
  else priv

def lorieSetWindowPixmap (os : Os) (window : W) (newPixmap : P) (s : Screen W P) : Screen W P :=
  { s with
    priv :=
      if window = s.root then relock os (s.windowPixmap window) newPixmap s.priv else s.priv
    windowPixmap := Function.update s.windowPixmap window newPixmap }

/-- `WT_WALKCHILDREN` is `descend`, and `WT_DONTWALKCHILDREN` is `skip`. -/
def lorieSetPixmapVisitWindow (os : Os) (oldPixmap : P) (window : W) (s : Screen W P) :
    Answer × Screen W P :=
  if s.windowPixmap window = oldPixmap then
    (.descend, lorieSetWindowPixmap os window s.screenPixmap s)
  else (.skip, s)

/-- `TraverseTree`; `WT_STOPWALKING` is returned as `true`, `WT_NOMATCH` as `false`. -/
def traverseTree (visit : W → Screen W P → Answer × Screen W P) (fuel : ℕ) (pWin : W)
    (s : Screen W P) : Option (Bool × Screen W P) :=
  walk s.windows pWin visit fuel (.enter pWin) s

/-- The screen with its new pixmap, and the damage on that. -/
def Screen.setScreenPixmap (s : Screen W P) (newPixmap : P) (priv : LoriePixmapPriv) :
    Screen W P :=
  { s with
    priv := Function.update s.priv newPixmap priv
    screenPixmap := newPixmap
    damaged := some newPixmap }

/-- `lorieRRScreenSetSize`, from where the vblanks are drained, with the pixmap `newPixmap` that
`CreatePixmap` makes; the system answers as `os` while it does, and as `os'` after that.
Without a pixmap the code reads through a null pointer. -/
def lorieRRScreenSetSize (os os' : Os) (id : UInt64) (width height : UInt16) (newPixmap : P)
    (fuel : ℕ) (s : Screen W P) : Option (Screen W P) :=
  let oldPixmap := s.screenPixmap
  (createPixmap os id width.toNat height.toNat s.rootDepth true s.legacyDrawing).bind fun p =>
    let s := s.setScreenPixmap newPixmap p.priv
    (traverseTree (lorieSetPixmapVisitWindow os' oldPixmap) fuel s.root s).map fun (_, s) =>
      { s with
        destroyed := oldPixmap :: s.destroyed
        registered := s.screenPixmap :: s.registered }

/-! ### The windows that are reached -/

/-- The windows with the pixmap whose ancestors down from here have it too. -/
def reached (pixmap : W → P) (old : P) : Forest W → List W
  | .nil => []
  | .node w children siblings =>
    (if pixmap w = old then w :: reached pixmap old children else []) ++
      reached pixmap old siblings

/-- These windows get the pixmap of the screen. -/
def Screen.retarget (s : Screen W P) (ws : List W) : Screen W P :=
  { s with windowPixmap := fun w => if w ∈ ws then s.screenPixmap else s.windowPixmap w }

variable {os os' : Os} {s : Screen W P} {old newPixmap : P} {w : W} {ws ws' : List W}
  {pixmap pixmap' : W → P}

/-! ### The walk -/

omit [DecidableEq P] in
theorem retarget_nil (s : Screen W P) : s.retarget [] = s := by
  have hwindows : (fun w => if w ∈ ([] : List W) then s.screenPixmap else s.windowPixmap w) =
      s.windowPixmap := funext fun w => if_neg List.not_mem_nil
  rw [Screen.retarget, hwindows]

omit [DecidableEq P] in
theorem retarget_retarget (s : Screen W P) (ws ws' : List W) :
    (s.retarget ws).retarget ws' = s.retarget (ws ++ ws') := by
  have hwindows : ((s.retarget ws).retarget ws').windowPixmap =
      (s.retarget (ws ++ ws')).windowPixmap := by
    funext w
    show (if w ∈ ws' then s.screenPixmap else if w ∈ ws then s.screenPixmap else
      s.windowPixmap w) = if w ∈ ws ++ ws' then s.screenPixmap else s.windowPixmap w
    by_cases hw : w ∈ ws
    · rw [if_pos hw, if_pos (List.mem_append_left _ hw), ite_self]
    · rw [if_neg hw]
      simp only [List.mem_append, hw, false_or]
  exact congrArg (fun f => { s with windowPixmap := f }) hwindows

omit [DecidableEq P] in
theorem setPixmap_eq (w : W) (s : Screen W P) :
    { s with windowPixmap := Function.update s.windowPixmap w s.screenPixmap } =
      s.retarget [w] := by
  refine congrArg (fun f => { s with windowPixmap := f }) (funext fun x => ?_)
  by_cases hx : x = w
  · rw [hx, Function.update_self, if_pos (List.mem_singleton_self w)]
  · rw [Function.update_of_ne hx, if_neg (List.mem_singleton.not.mpr hx)]

theorem setWindowPixmap_of_ne (h : w ≠ s.root) :
    lorieSetWindowPixmap os w s.screenPixmap s = s.retarget [w] := by
  rw [lorieSetWindowPixmap, if_neg h]
  exact setPixmap_eq w s

omit [DecidableEq W] in
theorem reached_subset (pixmap : W → P) (old : P) (f : Forest W) :
    ∀ w ∈ reached pixmap old f, w ∈ f.nodes := by
  induction f with
  | nil => exact fun _ h => h
  | node w children siblings ihc ihs =>
    intro x hx
    rw [reached, List.mem_append] at hx
    rw [Forest.nodes, List.mem_cons, List.mem_append]
    rcases hx with hx | hx
    · split at hx
      · exact (List.mem_cons.mp hx).imp_right fun hmem => .inl (ihc x hmem)
      · exact absurd hx List.not_mem_nil
    · exact .inr (.inr (ihs x hx))

omit [DecidableEq W] in
theorem reached_congr (f : Forest W) (h : ∀ w ∈ f.nodes, pixmap' w = pixmap w) :
    reached pixmap' old f = reached pixmap old f := by
  induction f with
  | nil => rfl
  | node w children siblings ihc ihs =>
    have hmem : ∀ x, x ∈ (Forest.node w children siblings).nodes ↔
        x = w ∨ x ∈ children.nodes ∨ x ∈ siblings.nodes := by
      intro x
      rw [Forest.nodes, List.mem_cons, List.mem_append]
    rw [reached, reached, h w ((hmem w).mpr (.inl rfl)),
      ihc fun x hx => h x ((hmem x).mpr (.inr (.inl hx))),
      ihs fun x hx => h x ((hmem x).mpr (.inr (.inr hx)))]

omit [DecidableEq P] in
theorem retarget_of_notMem (h : w ∉ ws) : (s.retarget ws).windowPixmap w = s.windowPixmap w :=
  if_neg h

/-- The windows that are reached below the root get the new pixmap, and nothing else happens. -/
theorem visit_windows (f : Forest W) : ∀ s : Screen W P, s.root ∉ f.nodes → f.nodes.Nodup →
    f.visit (lorieSetPixmapVisitWindow os old) s =
      (false, s.retarget (reached s.windowPixmap old f)) := by
  induction f with
  | nil =>
    intro s _ _
    rw [reached, retarget_nil]
    rfl
  | node w children siblings ihc ihs =>
    intro s hroot hnodup
    rw [Forest.nodes, List.mem_cons, List.mem_append, not_or, not_or] at hroot
    obtain ⟨hne, hrootc, hroots⟩ := hroot
    rw [Forest.nodes, List.nodup_cons, List.mem_append, not_or, List.nodup_append] at hnodup
    obtain ⟨⟨hwc, hws⟩, hnodupc, hnodups, hdisjoint⟩ := hnodup
    rw [Forest.visit, lorieSetPixmapVisitWindow, reached]
    by_cases hold : s.windowPixmap w = old
    · rw [if_pos hold, if_pos hold, setWindowPixmap_of_ne (Ne.symm hne)]
      dsimp only
      have hc : reached (s.retarget [w]).windowPixmap old children =
          reached s.windowPixmap old children := by
        refine reached_congr children fun x hx => retarget_of_notMem ?_
        rw [List.mem_singleton]
        rintro rfl
        exact hwc hx
      rw [ihc (s.retarget [w]) hrootc hnodupc, hc, retarget_retarget]
      dsimp only
      have hs : reached (s.retarget ([w] ++ reached s.windowPixmap old children)).windowPixmap old
          siblings = reached s.windowPixmap old siblings := by
        refine reached_congr siblings fun x hx => retarget_of_notMem ?_
        rw [List.mem_append, List.mem_singleton]
        rintro (rfl | hmem)
        · exact hws hx
        · exact hdisjoint x (reached_subset _ _ _ x hmem) x hx rfl
      refine (ihs (s.retarget ([w] ++ reached s.windowPixmap old children)) hroots hnodups).trans ?_
      rw [hs, retarget_retarget]
      rfl
    · rw [if_neg hold, if_neg hold]
      exact ihs s hroots hnodups

omit [DecidableEq W] [DecidableEq P] in
/-- Below a window without the pixmap there is none with it, if windows have it from their
parents. -/
theorem not_below {links : Links W} (f : Forest W)
    (hinherits : ∀ w p, links.parent w = some p → pixmap w = old → pixmap p = old) :
    ∀ {parent : W} {first : Option W}, Holds links parent f first → pixmap parent ≠ old →
      ∀ w ∈ f.nodes, pixmap w ≠ old := by
  induction f with
  | nil => exact fun _ _ _ hw => absurd hw List.not_mem_nil
  | node v children siblings ihc ihs =>
    intro parent first hholds hparent w hw
    obtain ⟨-, hup, hchildren, hsiblings⟩ := hholds
    have hv : pixmap v ≠ old := fun hold => hparent (hinherits v parent hup hold)
    rw [Forest.nodes, List.mem_cons, List.mem_append] at hw
    rcases hw with rfl | hw | hw
    · exact hv
    · exact ihc hchildren hv w hw
    · exact ihs hsiblings hparent w hw

omit [DecidableEq W] in
/-- Then the windows that are reached are those that have the pixmap. -/
theorem reached_eq_filter {links : Links W} (f : Forest W)
    (hinherits : ∀ w p, links.parent w = some p → pixmap w = old → pixmap p = old) :
    ∀ {parent : W} {first : Option W}, Holds links parent f first →
      reached pixmap old f = f.nodes.filter (pixmap · = old) := by
  induction f with
  | nil => exact fun _ => rfl
  | node w children siblings ihc ihs =>
    intro parent first hholds
    obtain ⟨-, -, hchildren, hsiblings⟩ := hholds
    rw [reached, Forest.nodes, List.filter_cons, List.filter_append, ← ihs hsiblings,
      ← ihc hchildren]
    by_cases hold : pixmap w = old
    · rw [if_pos hold, if_pos (decide_eq_true hold)]
      rfl
    · have hnone : reached pixmap old children = [] := by
        refine List.eq_nil_iff_forall_not_mem.mpr fun x hx => ?_
        rw [ihc hchildren, List.mem_filter, decide_eq_true_eq] at hx
        exact not_below children hinherits hchildren hold x hx.1 hx.2
      rw [if_neg hold, if_neg (by rw [decide_eq_true_eq]; exact hold), hnone]

/-! ### The locks -/

/-- `LorieBuffer_lock` is given the pixels of the buffer. -/
def Granted (os : Os) (b : LorieBuffer) : Prop :=
  b.desc.type = .ahardwarebuffer → os.api26 = true ∧ b.desc.buffer.all os.aHardwareBufferLock

instance (os : Os) (b : LorieBuffer) : Decidable (Granted os b) :=
  inferInstanceAs (Decidable (_ → _))

/-- The address of a buffer that is locked for the first time. -/
theorem lock_isSome {b : LorieBuffer} (hregion : b.region.isSome) (hb : b.locked = 0)
    (hdata : b.lockedData = none) :
    (lorieBufferLock os b).lockedData.isSome = true ↔ Granted os b := by
  rw [LorieBuffer.region] at hregion
  rw [lorieBufferLock, if_neg (not_not_intro hb), Granted]
  dsimp only
  cases htype : b.desc.type with
  | unknown =>
    rw [htype] at hregion
    cases hregion
  | regular =>
    rw [htype] at hregion
    exact iff_of_true hregion fun h => by cases h
  | fd =>
    rw [htype] at hregion
    exact iff_of_true hregion fun h => by cases h
  | ahardwarebuffer =>
    rw [htype] at hregion
    cases hbuffer : b.desc.buffer with
    | none =>
      rw [hbuffer] at hregion
      cases hregion
    | some a =>
      dsimp only
      rw [Option.all_some]
      split
      next hgrants => exact iff_of_true rfl fun _ => hgrants
      next hfails =>
        rw [hdata]
        exact iff_of_false Bool.false_ne_true fun h => hfails (h rfl)

/-- A new pixmap has an address if and only if the first lock was granted. -/
theorem createPixmap_locked {id : UInt64} {width height depth : ℕ} {backed legacyDrawing : Bool}
    {p : Pixmap} (h : createPixmap os id width height depth backed legacyDrawing = some p) :
    p.priv.locked.isSome = true ↔ ∃ b, p.priv.buffer = some b ∧ Granted os b := by
  rw [createPixmap] at h
  split at h
  · contradiction
  obtain ⟨⟨priv, pitch⟩, hpriv, rfl⟩ := Option.map_eq_some_iff.mp h
  rw [lorieCreatePixmap] at hpriv
  split at hpriv
  · contradiction
  split at hpriv
  · cases hpriv
    refine iff_of_false Bool.false_ne_true ?_
    rintro ⟨b, hb, -⟩
    cases hb
  · obtain ⟨b, hb, hmade⟩ := Option.map_eq_some_iff.mp hpriv
    cases hmade
    obtain ⟨hregion, hzero⟩ := PixmapAccess.lorieBufferAllocate_region hb
    have hdata := (PixmapAccess.lorieBufferAllocate_whole hb).2
    refine (lock_isSome hregion hzero hdata).trans ⟨fun hgranted => ⟨_, rfl, ?_⟩, ?_⟩
    · rw [Granted, Buffer.lorieBufferLock_desc]
      exact hgranted
    · rintro ⟨b', hb', hgranted⟩
      obtain rfl := Option.some_inj.mp hb'
      rw [Granted, Buffer.lorieBufferLock_desc] at hgranted
      exact hgranted

theorem createPixmap_marked {id : UInt64} {width height depth : ℕ} {backed legacyDrawing : Bool}
    {p : Pixmap} (h : createPixmap os id width height depth backed legacyDrawing = some p)
    {b : LorieBuffer} (hb : p.priv.buffer = some b) :
    b.locked ≠ 0 ∧ b.lockedData = p.priv.locked := by
  rw [createPixmap] at h
  split at h
  · contradiction
  obtain ⟨⟨priv, pitch⟩, hpriv, rfl⟩ := Option.map_eq_some_iff.mp h
  rw [lorieCreatePixmap] at hpriv
  split at hpriv
  · contradiction
  split at hpriv
  · cases hpriv
    cases hb
  · obtain ⟨b₀, -, hmade⟩ := Option.map_eq_some_iff.mp hpriv
    cases hmade
    obtain rfl := Option.some_inj.mp hb
    exact ⟨PixmapAccess.lock_locked os b₀, rfl⟩

/-- A buffer that is marked as locked is not locked anew. -/
theorem lock_of_marked {priv : LoriePixmapPriv}
    (h : ∀ b, priv.buffer = some b → b.locked ≠ 0 ∧ b.lockedData = priv.locked) :
    (priv.lock os).locked = priv.locked := by
  rw [LoriePixmapPriv.lock]
  split
  · rfl
  next b hb =>
    obtain ⟨hmarked, hdata⟩ := h b hb
    rw [lorieBufferLock, if_pos hmarked]
    exact hdata

omit [DecidableEq W] in
/-- The new pixmap keeps what the first lock has given. -/
theorem relock_new {priv : P → LoriePixmapPriv} (hne : newPixmap ≠ old)
    (h : ∀ b, (priv newPixmap).buffer = some b →
      b.locked ≠ 0 ∧ b.lockedData = (priv newPixmap).locked) :
    (relock os old newPixmap priv newPixmap).locked = (priv newPixmap).locked := by
  have hfinal : ∀ priv' : P → LoriePixmapPriv, priv' newPixmap = priv newPixmap →
      ((if (priv' newPixmap).buffer.isSome ∧ ¬(priv' newPixmap).locked.isSome then
        Function.update priv' newPixmap { (priv' newPixmap).lock os with wasLocked := false }
      else priv') newPixmap).locked = (priv newPixmap).locked := by
    intro priv' hsame
    split
    · rw [Function.update_self, hsame]
      exact lock_of_marked h
    · rw [hsame]
  rw [relock]
  dsimp only
  split
  · exact hfinal _ (Function.update_of_ne hne ..)
  · exact hfinal _ rfl

omit [DecidableEq W] in
/-- The old pixmap has no address any more. -/
theorem relock_old {priv : P → LoriePixmapPriv} (hne : old ≠ newPixmap)
    (h : (priv old).buffer.isSome) : (relock os old newPixmap priv old).locked = none := by
  have hfinal : ∀ priv' : P → LoriePixmapPriv, (priv' old).locked = none →
      ((if (priv' newPixmap).buffer.isSome ∧ ¬(priv' newPixmap).locked.isSome then
        Function.update priv' newPixmap { (priv' newPixmap).lock os with wasLocked := false }
      else priv') old).locked = none := by
    intro priv' hnone
    split
    · rw [Function.update_of_ne hne]
      exact hnone
    · exact hnone
  rw [relock]
  dsimp only
  split
  · exact hfinal _ (by rw [Function.update_self]; rfl)
  next hnot =>
    refine hfinal _ ?_
    rw [← Option.not_isSome_iff_eq_none]
    exact fun hlocked => hnot ⟨h, hlocked⟩

/-! ### The new size -/

/-- The locks of the root window's pixmaps are changed. -/
def Screen.relocked (s : Screen W P) (os : Os) (old : P) : Screen W P :=
  { s with priv := relock os old s.screenPixmap s.priv }

theorem setWindowPixmap_root (hold : s.windowPixmap s.root = old) :
    lorieSetWindowPixmap os s.root s.screenPixmap s = (s.relocked os old).retarget [s.root] := by
  rw [lorieSetWindowPixmap, if_pos rfl, hold]
  exact setPixmap_eq s.root (s.relocked os old)

/-- The windows of the tree that have the old pixmap get the new one; if the root window has
it, its locks are changed. -/
theorem visitTree_windows {children : Forest W}
    (hholds : Holds s.windows s.root children (s.windows.firstChild s.root))
    (hnodup : (s.root :: children.nodes).Nodup)
    (hinherits : ∀ w p, s.windows.parent w = some p →
      s.windowPixmap w = old → s.windowPixmap p = old) :
    visitTree (lorieSetPixmapVisitWindow os old) s.root children s =
      (false, (if s.windowPixmap s.root = old then s.relocked os old else s).retarget
        ((s.root :: children.nodes).filter (s.windowPixmap · = old))) := by
  obtain ⟨hroot, hnodupc⟩ := List.nodup_cons.mp hnodup
  rw [visitTree, lorieSetPixmapVisitWindow, List.filter_cons]
  by_cases hold : s.windowPixmap s.root = old
  · rw [if_pos hold, if_pos hold, if_pos (decide_eq_true hold), setWindowPixmap_root hold]
    dsimp only
    have hbelow : ∀ w ∈ children.nodes,
        ((s.relocked os old).retarget [s.root]).windowPixmap w = s.windowPixmap w := by
      intro w hw
      rw [retarget_of_notMem]
      · rfl
      · rw [List.mem_singleton]
        rintro rfl
        exact hroot hw
    have hroot₁ : ((s.relocked os old).retarget [s.root]).root ∉ children.nodes := hroot
    rw [visit_windows children _ hroot₁ hnodupc, reached_congr children hbelow,
      reached_eq_filter children hinherits hholds, retarget_retarget]
    rfl
  · have hnone : children.nodes.filter (s.windowPixmap · = old) = [] := by
      refine List.filter_eq_nil_iff.mpr fun w hw => ?_
      rw [decide_eq_true_eq]
      exact not_below children hinherits hholds hold w hw
    rw [if_neg hold, if_neg hold, if_neg (by rw [decide_eq_true_eq]; exact hold), hnone,
      retarget_nil]

/-- The screen's pixmap is locked. -/
def desktopPixmap : LoriePixmapPriv :=
  ((createPixmap Os.granting 0 2 2 24 true false).map (·.priv)).getD {}

/-- Two windows on the root window, with one on each; the second is redirected. -/
def desktop : Screen (Fin 5) ℕ where
  root := 0
  windows :=
    { firstChild := fun w => [(0, 1), (1, 2), (3, 4)].lookup w
      nextSib := fun w => [(1, 3)].lookup w
      parent := fun w => [(1, 0), (2, 1), (3, 0), (4, 3)].lookup w }
  windowPixmap := fun w => if w < 3 then 10 else 20
  screenPixmap := 10
  priv := fun _ => desktopPixmap
  rootDepth := 24
  legacyDrawing := false

/-- The trees below its root. -/
def desktopWindows : Forest (Fin 5) :=
  .node 1 (.node 2 .nil .nil) (.node 3 (.node 4 .nil .nil) .nil)

theorem desktop_holds : Holds desktop.windows desktop.root desktopWindows
    (desktop.windows.firstChild desktop.root) := by
  have h1 : Holds desktop.windows 1 (.node 2 .nil .nil) (some 2) := ⟨rfl, rfl, rfl, rfl⟩
  have h3 : Holds desktop.windows 3 (.node 4 .nil .nil) (some 4) := ⟨rfl, rfl, rfl, rfl⟩
  exact ⟨rfl, rfl, h1, rfl, rfl, h3, rfl⟩

/-- The system has no lock to give. -/
def Os.refusing : Os := { Os.granting with aHardwareBufferLock := fun _ => false }

end Lorie.ScreenResize
