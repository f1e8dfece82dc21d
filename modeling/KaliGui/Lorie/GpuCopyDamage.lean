/-
The damage reported for a copy on the GPU (`present_execute_copy` as patched,
`damage.c`).

The renderer draws past Damage, so the server reports what it will draw.  The update
region is in the coordinates of the presented pixmap, the window's clip in those of the
screen, the boxes of the queued entry in those of the window's pixmap once they are
shifted; Damage takes the region for a window in those of the screen.

* `damageRegion` — what is reported;
* `DamageCovers` — it holds all that is drawn where the window shows;
* `damage_covers_iff` — when it does.
-/
import KaliGui.Lorie.GpuCopy

namespace Lorie.GpuCopy

open Raster

/-! ### Reporting -/

/-- The pixels of a region, by column and row. -/
abbrev Pixels := ℤ → ℤ → Prop

/-- The region given to `DamageDamageRegion`: the clip list, or the update intersected with
it. -/
def damageRegion (w : Window) (v : Vblank) : Pixels := fun x y =>
  match v.update with
  | none => w.clipList.Contains x y
  | some update => update.Contains x y ∧ w.clipList.Contains x y

/-- The renderer draws an entry on a pixel of the destination. -/
def LorieGpuCopyEntry.Draws (entry : LorieGpuCopyEntry) : Pixels := fun x y =>
  ∃ b ∈ entry.rects, b.Contains (x - entry.xOff.toInt) (y - entry.yOff.toInt)

instance (entry : LorieGpuCopyEntry) (x y : ℤ) : Decidable (entry.Draws x y) :=
  inferInstanceAs (Decidable (∃ b ∈ entry.rects, Box.Contains b _ _))

/-- The region reported holds each pixel of the window's visible part that the entry draws. -/
def DamageCovers (w : Window) (v : Vblank) (entry : LorieGpuCopyEntry) : Prop :=
  ∀ x y, w.clipList.Contains x y →
    entry.Draws (x - w.pixmap.screenX.toInt) (y - w.pixmap.screenY.toInt) → damageRegion w v x y

/-! ### Where the update goes -/

/-- From the presented pixmap to the screen: the offset and the window's origin, as far as
16 bits hold them. -/
def shiftX (w : Window) (v : Vblank) : ℤ := (gpuCopyXOff w v).toInt + w.pixmap.screenX.toInt

def shiftY (w : Window) (v : Vblank) : ℤ := (gpuCopyYOff w v).toInt + w.pixmap.screenY.toInt

/-- Each pixel of the update that is shown once it is shifted, is also in the update as it
is not shifted. -/
def ShownUnshifted (w : Window) (v : Vblank) (update : Region) : Prop :=
  ∀ x y, update.Contains x y → w.clipList.Contains (x + shiftX w v) (y + shiftY w v) →
    update.Contains (x + shiftX w v) (y + shiftY w v)

/-- The whole update is shown. -/
def AllShown (w : Window) (v : Vblank) (update : Region) : Prop :=
  ∀ x y, update.Contains x y → w.clipList.Contains (x + shiftX w v) (y + shiftY w v)

/-- Every box holds its first pixel. -/
theorem Box.contains_first (b : Box) : b.Contains b.x1.toInt b.y1.toInt :=
  ⟨⟨le_refl _, b.wide⟩, le_refl _, b.tall⟩

/-- An update that is shown whole, is in itself once it is shifted only by nothing. -/
theorem shownUnshifted_iff_of_allShown {w : Window} {v : Vblank} {update : Region}
    (hne : update.rects ≠ []) (hshown : AllShown w v update) :
    ShownUnshifted w v update ↔ shiftX w v = 0 ∧ shiftY w v = 0 := by
  constructor
  · intro h
    have hstep : ∀ x y, update.Contains x y →
        update.Contains (x + shiftX w v) (y + shiftY w v) :=
      fun x y hxy => h x y hxy (hshown x y hxy)
    have hbounds : ∀ x y, update.Contains x y →
        (-2 ^ 15 ≤ x ∧ x < 2 ^ 15) ∧ -2 ^ 15 ≤ y ∧ y < 2 ^ 15 := by
      rintro x y ⟨b, -, hb⟩
      exact hb.bounds
    obtain ⟨b, hb⟩ := List.exists_mem_of_ne_nil update.rects hne
    have hfirst : update.Contains b.x1.toInt b.y1.toInt := ⟨b, hb, b.contains_first⟩
    constructor
    · refine shift_eq_zero (P := fun x => ∃ y, update.Contains x y) (-2 ^ 15) (2 ^ 15) ?_ ?_
        ⟨_, _, hfirst⟩
      · rintro x ⟨y, hxy⟩
        exact ⟨_, hstep x y hxy⟩
      · rintro x ⟨y, hxy⟩
        exact (hbounds x y hxy).1
    · refine shift_eq_zero (P := fun y => ∃ x, update.Contains x y) (-2 ^ 15) (2 ^ 15) ?_ ?_
        ⟨_, _, hfirst⟩
      · rintro y ⟨x, hxy⟩
        exact ⟨_, hstep x y hxy⟩
      · rintro y ⟨x, hxy⟩
        exact (hbounds x y hxy).2
  · rintro ⟨hx, hy⟩ x y hxy -
    rw [hx, hy, add_zero, add_zero]
    exact hxy

/-! ### When the damage covers -/

section Accepted

variable {pvfb : LorieScreenInfo} {converts : LorieBuffer → Bool} {entry : LorieGpuCopyEntry}
  {w : Window} {v : Vblank}

/-- An accepted copy is queued with the boxes at the offset; there is at least one. -/
theorem accepted_entry
    (haccept : lorieTryScheduleGpuCopy pvfb converts v.pixmap w.pixmap v.update
      (gpuCopyXOff w v) (gpuCopyYOff w v) = some entry) :
    entry.xOff = gpuCopyXOff w v ∧ entry.yOff = gpuCopyYOff w v ∧
      entry.rects = boxes v.update v.pixmap ∧ entry.rects ≠ [] := by
  rw [lorieTryScheduleGpuCopy] at haccept
  split at haccept
  · simp at haccept
  split at haccept
  · simp at haccept
  obtain ⟨srcBuffer, -, haccept⟩ := Option.bind_eq_some_iff.mp haccept
  obtain ⟨dstBuffer, -, haccept⟩ := Option.bind_eq_some_iff.mp haccept
  dsimp only at haccept
  split at haccept
  · simp at haccept
  rename_i hcount
  split at haccept
  · simp at haccept
  · obtain rfl := Option.some_inj.mp haccept
    refine ⟨rfl, rfl, rfl, fun hnil => hcount (.inl ?_)⟩
    exact List.length_eq_zero_iff.mpr hnil

/-- What an accepted entry draws, at a pixel of the screen. -/
theorem draws_iff
    (haccept : lorieTryScheduleGpuCopy pvfb converts v.pixmap w.pixmap v.update
      (gpuCopyXOff w v) (gpuCopyYOff w v) = some entry) (x y : ℤ) :
    entry.Draws (x - w.pixmap.screenX.toInt) (y - w.pixmap.screenY.toInt) ↔
      ∃ b ∈ boxes v.update v.pixmap, b.Contains (x - shiftX w v) (y - shiftY w v) := by
  obtain ⟨hxOff, hyOff, hrects, -⟩ := accepted_entry haccept
  have hx : x - w.pixmap.screenX.toInt - (gpuCopyXOff w v).toInt = x - shiftX w v := by
    rw [shiftX]
    omega
  have hy : y - w.pixmap.screenY.toInt - (gpuCopyYOff w v).toInt = y - shiftY w v := by
    rw [shiftY]
    omega
  rw [LorieGpuCopyEntry.Draws, hxOff, hyOff, hrects, hx, hy]

/-- The damage reported for an accepted copy holds all that the renderer draws where the
window shows exactly if there is no update region, or each shown pixel of the shifted
update is in the update itself too; for an update that is shown whole, exactly if the
offset and the window's origin cancel out. -/
theorem damage_covers_iff
    (haccept : lorieTryScheduleGpuCopy pvfb converts v.pixmap w.pixmap v.update
      (gpuCopyXOff w v) (gpuCopyYOff w v) = some entry) :
    (DamageCovers w v entry ↔ ∀ update ∈ v.update, ShownUnshifted w v update) ∧
      ∀ update ∈ v.update, AllShown w v update →
        (DamageCovers w v entry ↔ shiftX w v = 0 ∧ shiftY w v = 0) := by
  have hcovers : DamageCovers w v entry ↔ ∀ update ∈ v.update, ShownUnshifted w v update := by
    constructor
    · -- a pixel of the update is drawn where the shift takes it
      intro h update hupdate x y hxy hshown
      have hdraws : entry.Draws (x + shiftX w v - w.pixmap.screenX.toInt)
          (y + shiftY w v - w.pixmap.screenY.toInt) := by
        rw [draws_iff haccept, add_sub_cancel_right, add_sub_cancel_right, hupdate]
        exact hxy
      have hdamaged := h _ _ hshown hdraws
      rw [damageRegion, hupdate] at hdamaged
      exact hdamaged.1
    · intro h x y hclip hdraws
      rw [draws_iff haccept] at hdraws
      rw [damageRegion]
      cases hupdate : v.update with
      | none =>
        -- without an update the whole clip list is reported
        exact hclip
      | some update =>
        rw [hupdate] at hdraws
        have hshifted := h update hupdate _ _ hdraws
        rw [sub_add_cancel, sub_add_cancel] at hshifted
        exact ⟨hshifted hclip, hclip⟩
  refine ⟨hcovers, fun update hupdate hshown => ?_⟩
  obtain ⟨-, -, hrects, hne⟩ := accepted_entry haccept
  have hrects' : update.rects ≠ [] := by
    rw [hrects, hupdate] at hne
    exact hne
  rw [hcovers, ← shownUnshifted_iff_of_allShown hrects' hshown]
  constructor
  · exact fun h => h update hupdate
  · intro h other hother
    obtain rfl : update = other := Option.some_inj.mp (hupdate.symm.trans hother)
    exact h

end Accepted

/-! ### A window in the right half -/

theorem toInt_zero_lt_two : (0 : Int16).toInt < (2 : Int16).toInt := by decide

/-- Two columns and two rows. -/
def quarter (left : Int16) (right : Int16) (h : left.toInt < right.toInt) : Region where
  rects := [⟨left, 0, right, 2, h, toInt_zero_lt_two⟩]
  disjoint := List.pairwise_singleton _ _

/-- The window that shows the right half of the screen, its origin there. -/
def rightHalf : Window := ⟨2, 0, quarter 2 4 (by decide), small 1⟩

/-- A picture of which the left half is new. -/
def leftNew : Vblank := ⟨small 2, some (quarter 0 2 toInt_zero_lt_two), 0, 0⟩

/-- The same for a window over the whole screen. -/
def leftNewEntry (xOff : Int16) : LorieGpuCopyEntry :=
  ⟨1, 2, 1, xOff, 0, (quarter 0 2 toInt_zero_lt_two).rects⟩

theorem leftNew_accepted (w : Window) (xOff : Int16) (hpixmap : w.pixmap = small 1)
    (hx : gpuCopyXOff w leftNew = xOff) (hy : gpuCopyYOff w leftNew = 0) :
    lorieTryScheduleGpuCopy idle (fun _ => true) leftNew.pixmap w.pixmap leftNew.update
      (gpuCopyXOff w leftNew) (gpuCopyYOff w leftNew) = some (leftNewEntry xOff) := by
  rw [hpixmap, hx, hy]
  rfl

/-- Over the whole screen the damage is what is drawn. -/
theorem uncovered_damageCovers : DamageCovers uncovered leftNew (leftNewEntry 0) := by
  refine (damage_covers_iff (leftNew_accepted uncovered 0 rfl rfl rfl)).1.mpr ?_
  intro update hupdate
  obtain rfl := Option.some_inj.mp hupdate
  have hshift : shiftX uncovered leftNew = 0 ∧ shiftY uncovered leftNew = 0 := by decide
  intro x y hxy _
  rw [hshift.1, hshift.2, add_zero, add_zero]
  exact hxy

/-- The right half of the screen is drawn, and no damage reported. -/
theorem rightHalf_not_damageCovers :
    lorieTryScheduleGpuCopy idle (fun _ => true) leftNew.pixmap rightHalf.pixmap leftNew.update
        (gpuCopyXOff rightHalf leftNew) (gpuCopyYOff rightHalf leftNew) = some (leftNewEntry 2) ∧
      (∀ x y, ¬ damageRegion rightHalf leftNew x y) ∧
      ¬ DamageCovers rightHalf leftNew (leftNewEntry 2) := by
  have hnone : ∀ x y, ¬ damageRegion rightHalf leftNew x y := by
    rintro x y ⟨⟨b, hb, hupdate⟩, c, hc, hclip⟩
    obtain rfl := List.mem_singleton.mp hb
    obtain rfl := List.mem_singleton.mp hc
    have hlt : x < 2 := hupdate.1.2
    have hle : 2 ≤ x := hclip.1.1
    omega
  refine ⟨leftNew_accepted rightHalf 2 rfl rfl rfl, hnone, fun h => ?_⟩
  exact hnone 2 0 (h 2 0 (by decide) (by decide))

end Lorie.GpuCopy
