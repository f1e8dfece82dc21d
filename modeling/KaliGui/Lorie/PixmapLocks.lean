/-
The locks of pixmaps' buffers where the hardware grants them (`InitOutput.c`, as before).

`LorieBuffer_lock` complains of a buffer that is locked, and fails; `LorieBuffer_unlock` of one
that is not.  A lock that fails otherwise leaves the buffer marked as locked, with no address.

* `Kept` — a buffer is locked only if `priv->locked` says so;
* `Paired` — no complaint, and the root window's buffer is locked;
* `locks_paired` — so it is in every run, and no access fails.
-/
import KaliGui.Lorie.PixmapAccess

namespace Lorie.PixmapAccess

open Machine Buffer

variable {os : Os} {s t : Server} {b : LorieBuffer} {priv : LoriePixmapPriv} {p : Pixmap} {k : ℕ}

/-! ### Locks that are granted -/

/-- The hardware grants every lock. -/
structure Grants (os : Os) : Prop where
  api26 : os.api26 = true
  lock : ∀ a, os.aHardwareBufferLock a = true

/-- The action is answered by such a system. -/
def Action.Granted : Action → Prop
  | .create os _ _ _ _ _ _ _ => Grants os
  | .fromFds os _ _ _ _ => Grants os
  | .sample os _ _ => Grants os
  | .setRoot os _ => Grants os
  | .relock os _ => Grants os
  | .prepare os _ => Grants os
  | _ => True

/-- The buffer has storage, and where it is locked `priv->locked` says so. -/
def Kept (priv : LoriePixmapPriv) : Prop :=
  ∀ b, priv.buffer = some b → b.region.isSome ∧ (b.locked ≠ 0 → priv.locked.isSome)

theorem Kept.congr {priv' : LoriePixmapPriv} (h : Kept priv) (hbuffer : priv'.buffer = priv.buffer)
    (hlocked : priv'.locked = priv.locked) : Kept priv' := by
  intro b hb
  rw [hlocked]
  exact h b (hbuffer ▸ hb)

/-- A lock that is granted leads to the pixels. -/
theorem lock_granted (hos : Grants os) (hb : b.locked = 0) (hregion : b.region.isSome) :
    (lorieBufferLock os b).lockedData = b.region := by
  rw [lorieBufferLock, if_neg (not_not_intro hb), LorieBuffer.region]
  rw [LorieBuffer.region] at hregion
  dsimp only
  cases htype : b.desc.type with
  | regular => rfl
  | fd => rfl
  | unknown =>
    rw [htype] at hregion
    cases hregion
  | ahardwarebuffer =>
    rw [htype] at hregion
    cases hbuffer : b.desc.buffer with
    | none =>
      rw [hbuffer] at hregion
      cases hregion
    | some a => exact if_pos ⟨hos.api26, hos.lock a⟩

theorem Kept.unlock (h : Kept priv) : Kept priv.unlock := by
  intro b hb
  obtain ⟨b₀, hb₀, rfl⟩ := Option.map_eq_some_iff.mp hb
  have hregion : (lorieBufferUnlock b₀).region = b₀.region := by
    rw [LorieBuffer.region, LorieBuffer.region, unlock_desc]
  refine ⟨hregion ▸ (h b₀ hb₀).1, fun hlocked => absurd ?_ hlocked⟩
  rw [lorieBufferUnlock]
  split
  next hzero => exact hzero
  · rfl

theorem Kept.lock (h : Kept priv) (hos : Grants os)
    (hzero : ∀ b, priv.buffer = some b → b.locked = 0) : Kept (priv.lock os) := by
  rw [LoriePixmapPriv.lock]
  split
  · exact h
  next b hb =>
    intro b' hb'
    obtain rfl := Option.some_inj.mp hb'
    have hregion := (h b hb).1
    refine ⟨by rw [lock_region]; exact hregion, fun _ => ?_⟩
    rw [lock_granted hos (hzero b hb) hregion]
    exact hregion

theorem lock_complaint (hzero : ∀ b, priv.buffer = some b → b.locked = 0) :
    priv.lockComplaint = 0 := by
  rw [LoriePixmapPriv.lockComplaint]
  cases hb : priv.buffer with
  | none => rfl
  | some b =>
    exact if_neg fun hne => (of_decide_eq_true hne : b.locked ≠ 0) (hzero b hb)

theorem unlock_complaint (h : ∀ b, priv.buffer = some b → b.locked ≠ 0) :
    priv.unlockComplaint = 0 := by
  rw [LoriePixmapPriv.unlockComplaint]
  cases hb : priv.buffer with
  | none => rfl
  | some b =>
    exact if_neg fun hzero => h b hb (of_decide_eq_true hzero)

/-- Where `priv->locked` is set the buffer is locked. -/
theorem Sound.locked (h : Sound priv) (hlocked : priv.locked.isSome) (hb : priv.buffer = some b) :
    b.locked ≠ 0 := by
  obtain ⟨r, hr⟩ := Option.isSome_iff_exists.mp hlocked
  obtain ⟨b', hb', hdata⟩ := h.pointer r hr
  obtain rfl := Option.some_inj.mp (hb.symm.trans hb')
  exact ((h.whole b hb).data r hdata).1

theorem Kept.zero (h : Kept priv) (hlocked : ¬priv.locked.isSome) (hb : priv.buffer = some b) :
    b.locked = 0 := by
  by_contra hne
  exact hlocked ((h b hb).2 hne)

theorem unlock_zero (priv : LoriePixmapPriv) (hb : priv.unlock.buffer = some b) :
    b.locked = 0 := by
  obtain ⟨b₀, -, rfl⟩ := Option.map_eq_some_iff.mp hb
  rw [lorieBufferUnlock]
  split
  next hzero => exact hzero
  · rfl

theorem lock_buffer (hb : (priv.lock os).buffer = some b) : b.locked ≠ 0 := by
  rw [LoriePixmapPriv.lock] at hb
  split at hb
  next hnone =>
    rw [hnone] at hb
    cases hb
  · obtain rfl := Option.some_inj.mp hb
    exact lock_locked os _

/-- An open access that has locked the buffer, which is not the root window's then. -/
def Locking (s : Server) (a : ℕ × Option Region) : Prop :=
  ∀ p, s.pixmap a.1 = some p → p.priv.wasLocked = false →
    (∀ b, p.priv.buffer = some b → b.locked ≠ 0) ∧ s.root ≠ some a.1

/-- What holds where the hardware grants every lock. -/
structure Paired (s : Server) : Prop where
  kept : ∀ k p, s.pixmap k = some p → Kept p.priv
  complaints : s.complaints = 0
  shown : ∀ k, s.root = some k → s.pixmap k ≠ none
  root : ∀ k p b, s.root = some k → s.pixmap k = some p → p.priv.buffer = some b → b.locked ≠ 0
  access : ∀ a ∈ s.access, Locking s a

/-- Accesses to other pixmaps than the one that changes stay as they are. -/
theorem locking_of_ne {a : ℕ × Option Region} (h : Locking s a)
    (hpixmap : t.pixmap a.1 = s.pixmap a.1) (hroot : t.root = s.root) : Locking t a := by
  intro p hp
  rw [hroot]
  exact h p (hpixmap ▸ hp)

theorem Paired.others (h : Paired s) (hk : s.Closed k)
    (hpixmap : ∀ j, j ≠ k → t.pixmap j = s.pixmap j) (hroot : t.root = s.root) :
    ∀ a ∈ s.access, Locking t a :=
  fun a ha => locking_of_ne (h.access a ha) (hpixmap a.1 (hk.ne ha)) hroot

/-- A pixmap changes. -/
theorem Paired.change {r : Pixmap} (h : Paired s) (haccess : ∀ a ∈ t.access, Locking t a)
    (hkept : Kept r.priv)
    (hroot : s.root = some k → ∀ b, r.priv.buffer = some b → b.locked ≠ 0)
    (hpixmap : t.pixmap = Function.update s.pixmap k (some r)) (hrooted : t.root = s.root)
    (hcomplaints : t.complaints = 0) : Paired t := by
  have hcases : ∀ j q, t.pixmap j = some q → j = k ∧ q = r ∨ j ≠ k ∧ s.pixmap j = some q := by
    intro j q hq
    rw [hpixmap] at hq
    by_cases hj : j = k
    · rw [hj, Function.update_self, Option.some_inj] at hq
      exact .inl ⟨hj, hq.symm⟩
    · rw [Function.update_of_ne hj] at hq
      exact .inr ⟨hj, hq⟩
  refine ⟨fun j q hq => ?_, hcomplaints, fun j hj => ?_, fun j q b hj hq hb => ?_, haccess⟩
  · rcases hcases j q hq with ⟨-, rfl⟩ | ⟨-, hq⟩
    · exact hkept
    · exact h.kept j q hq
  · rw [hpixmap]
    by_cases hjk : j = k
    · rw [hjk, Function.update_self]
      exact Option.some_ne_none r
    · rw [Function.update_of_ne hjk]
      exact h.shown j (hrooted ▸ hj)
  · rw [hrooted] at hj
    rcases hcases j q hq with ⟨rfl, rfl⟩ | ⟨-, hq⟩
    · exact hroot hj b hb
    · exact h.root j q b hj hq hb

theorem allocate_region {id : UInt64} {width stride height : Int32} {format : UInt8}
    {type : BufferType} {buf : Option AHardwareBuffer} {fd : Option ℕ} {size : ℕ} {offset : ℤ}
    {takeFd : Bool}
    (h : allocate os id width stride height format type buf fd size offset takeFd = some b) :
    b.region.isSome ∧ b.locked = 0 := by
  obtain ⟨hmade, -⟩ := Option.filter_eq_some_iff.mp h
  dsimp only at hmade
  cases type with
  | unknown => contradiction
  | regular =>
    dsimp only at hmade
    split at hmade
    · obtain ⟨block, -, rfl⟩ := Option.map_eq_some_iff.mp hmade
      exact ⟨rfl, rfl⟩
    · contradiction
  | fd =>
    dsimp only at hmade
    split at hmade
    · obtain ⟨file, -, hmap⟩ := Option.bind_eq_some_iff.mp hmade
      obtain ⟨data, -, rfl⟩ := Option.map_eq_some_iff.mp hmap
      exact ⟨rfl, rfl⟩
    · contradiction
  | ahardwarebuffer =>
    obtain ⟨a, rfl, hb⟩ := Option.map_eq_some_iff.mp hmade
    rw [← hb]
    split
    · exact ⟨rfl, rfl⟩
    · exact ⟨rfl, rfl⟩

theorem lorieBufferAllocate_region {id : UInt64} {width height : Int32} {format : UInt8}
    {type : BufferType} (h : lorieBufferAllocate os id width height format type = some b) :
    b.region.isSome ∧ b.locked = 0 := by
  rw [lorieBufferAllocate.eq_def] at h
  split at h
  · obtain ⟨file, -, h⟩ := Option.bind_eq_some_iff.mp h
    exact allocate_region h
  · exact allocate_region h
  · exact allocate_region h

theorem createPixmap_kept {id : UInt64} {width height depth : ℕ} {backed legacyDrawing : Bool}
    (h : createPixmap os id width height depth backed legacyDrawing = some p) (hos : Grants os) :
    Kept p.priv := by
  rw [createPixmap] at h
  split at h
  · contradiction
  obtain ⟨⟨priv, pitch⟩, hpriv, rfl⟩ := Option.map_eq_some_iff.mp h
  rw [lorieCreatePixmap] at hpriv
  split at hpriv
  · contradiction
  split at hpriv
  · cases hpriv
    exact fun b hb => by cases hb
  · obtain ⟨b₀, hb₀, hmade⟩ := Option.map_eq_some_iff.mp hpriv
    cases hmade
    intro b hb
    cases hb
    have hfresh := lorieBufferAllocate_region hb₀
    have hdata := lock_granted hos hfresh.2 hfresh.1
    refine ⟨by rw [lock_region]; exact hfresh.1, fun _ => ?_⟩
    show (lorieBufferLock os b₀).lockedData.isSome
    rw [hdata]
    exact hfresh.1

theorem loriePixmapFromFds_kept {id : UInt64} {legacyDrawing : Bool} {i : Import}
    (h : loriePixmapFromFds os id legacyDrawing i = some p) : Kept p.priv := by
  rw [loriePixmapFromFds] at h
  split at h
  · contradiction
  split at h
  · contradiction
  obtain ⟨pixmap, hpixmap, h⟩ := Option.bind_eq_some_iff.mp h
  have himported : ∀ (priv : LoriePixmapPriv) (buffer : LorieBuffer), buffer.region.isSome ∧
      buffer.locked = 0 → priv.buffer = some buffer → Kept priv := by
    intro priv buffer hbuffer hb b hb'
    obtain rfl := Option.some_inj.mp (hb.symm.trans hb')
    exact ⟨hbuffer.1, fun hne => absurd hbuffer.2 hne⟩
  dsimp only at h
  split at h
  · split at h
    · obtain ⟨buffer, hbuffer, rfl⟩ := Option.map_eq_some_iff.mp h
      exact himported _ buffer (allocate_region hbuffer) rfl
    · contradiction
  · split at h
    · split at h
      · obtain ⟨buffer, hbuffer, rfl⟩ := Option.map_eq_some_iff.mp h
        exact himported _ buffer (allocate_region hbuffer) rfl
      · contradiction
    · contradiction

theorem add_same (hadd : s.add k p = some t) :
    t.pixmap = Function.update s.pixmap k (some p) ∧ t.root = s.root ∧ t.access = s.access ∧
      t.complaints = s.complaints := by
  rw [Server.add] at hadd
  split at hadd
  · cases hadd
    exact ⟨rfl, rfl, rfl, rfl⟩
  · obtain ⟨-, rfl⟩ := disabled_eq_some.mp hadd
    exact ⟨rfl, rfl, rfl, rfl⟩

theorem Paired.add (hinv : Inv s) (h : Paired s) (hk : s.pixmap k = none)
    (hkept : Kept p.priv) (hadd : s.add k p = some t) : Paired t := by
  obtain ⟨hpixmap, hroot, haccess, hcomplaints⟩ := add_same hadd
  refine h.change ?_ hkept (fun hr => absurd hk (h.shown k hr)) hpixmap hroot
    (hcomplaints.trans h.complaints)
  rw [haccess]
  refine h.others (hinv.closed hk) (fun j hj => ?_) hroot
  rw [hpixmap, Function.update_of_ne hj]

/-- A buffer that is converted is locked again. -/
theorem sample_locked (hos : Grants os) (m : Memory) (type : BufferType) (h : Sound p.priv) :
    (lorieEnsureGpuSampleable os m p type).2.1 = p ∨
      Kept (lorieEnsureGpuSampleable os m p type).2.1.priv ∧
        ∀ b, (lorieEnsureGpuSampleable os m p type).2.1.priv.buffer = some b → b.locked ≠ 0 := by
  cases hb : p.priv.buffer with
  | none =>
    rw [lorieEnsureGpuSampleable, hb]
    exact .inl rfl
  | some b =>
    cases hmem : p.priv.mem with
    | some data =>
      rw [lorieEnsureGpuSampleable, hb, hmem]
      exact .inl rfl
    | none =>
      by_cases htype : b.desc.type = .regular
      · obtain ⟨block, n, hdata⟩ := (h.whole b hb).regular htype
        cases ht : target os b type formatR8G8B8X8 with
        | none =>
          rw [lorieEnsureGpuSampleable_kept hb hmem (.inr ⟨_, hdata, ht⟩)]
          exact .inl rfl
        | some g =>
          rw [lorieEnsureGpuSampleable_moved hb hmem htype hdata ht]
          have hregion : (b.moved formatR8G8B8X8 g).region.isSome ∧
              (b.moved formatR8G8B8X8 g).locked = 0 := by
            cases g with
            | file file size data => exact ⟨rfl, rfl⟩
            | hardware a => exact ⟨rfl, rfl⟩
          refine .inr ⟨fun b' hb' => ?_, fun b' hb' => ?_⟩
          · cases hb'
            refine ⟨by rw [lock_region]; exact hregion.1, fun _ => ?_⟩
            show (lorieBufferLock os (b.moved formatR8G8B8X8 g)).lockedData.isSome
            rw [lock_granted hos hregion.2 hregion.1]
            exact hregion.1
          · cases hb'
            exact lock_locked os _
      · rw [lorieEnsureGpuSampleable_kept hb hmem (.inl htype)]
        exact .inl rfl

/-- While the root window gets another pixmap. -/
theorem Paired.unroot (h : Paired s) : Paired { s with root := none } := by
  refine ⟨h.kept, h.complaints, fun k hk => ?_, fun k p b hk => ?_, fun a ha p hp hwas => ?_⟩
  · cases hk
  · cases hk
  · exact ⟨(h.access a ha p hp hwas).1, fun hroot => Option.some_ne_none _ hroot.symm⟩

theorem Paired.setRoot (h : Paired { s with root := none }) (hk : s.Closed k)
    (hp : s.pixmap k = some p) (hlocked : ∀ b, p.priv.buffer = some b → b.locked ≠ 0) :
    Paired { s with root := some k } := by
  refine ⟨h.kept, h.complaints, fun j hj => ?_, fun j q b hj hq hb => ?_, fun a ha q hq hwas => ?_⟩
  · obtain rfl := Option.some_inj.mp hj
    rw [show s.pixmap k = some p from hp]
    exact Option.some_ne_none p
  · obtain rfl := Option.some_inj.mp hj
    obtain rfl := Option.some_inj.mp (hp.symm.trans hq)
    exact hlocked b hb
  · exact ⟨(h.access a ha q hq hwas).1, fun hroot => hk.ne ha (Option.some_inj.mp hroot).symm⟩

theorem paired_unlockRoot (hinv : Inv s) (h : Paired s)
    (hclosed : ∀ old, s.root = some old → s.Closed old) :
    Paired { s.unlockRoot with root := none } := by
  have hroot := h.unroot
  rw [Server.unlockRoot]
  split
  · exact hroot
  next old hold =>
    split
    · exact hroot
    next p hp =>
      split
      next hboth =>
        have hzero : p.priv.unlockComplaint = 0 :=
          unlock_complaint fun b hb => (hinv.sound old p hp).locked hboth.2 hb
        have hkept : Kept { p.priv.unlock with wasLocked := false } :=
          (h.kept old p hp).unlock.congr rfl rfl
        refine hroot.change (r := { p with priv := { p.priv.unlock with wasLocked := false } })
          (hroot.others (hclosed old hold) (fun j hj => Function.update_of_ne hj ..) rfl) hkept
          (fun hr => by cases hr) rfl rfl ?_
        show s.complaints + p.priv.unlockComplaint = 0
        rw [h.complaints, hzero]
      · exact hroot

theorem paired_setRoot (hinv : Inv s) (h : Paired s) (hk : s.Closed k)
    (hclosed : ∀ old, s.root = some old → s.Closed old) (hos : Grants os)
    (hs : lorieSetWindowPixmap os s k = some t) : Paired t := by
  have h₁ := paired_unlockRoot hinv h hclosed
  have hinv₁ := inv_unlockRoot hinv hclosed
  have hk₁ : s.unlockRoot.Closed k := unlockRoot_closed hk
  obtain ⟨p, hp, rfl⟩ := Option.map_eq_some_iff.mp hs
  dsimp only
  split
  next hboth =>
    have hzero : ∀ b, p.priv.buffer = some b → b.locked = 0 :=
      fun b hb => (h₁.kept k p hp).zero hboth.2 hb
    have hkept : Kept { p.priv.lock os with wasLocked := false } :=
      ((h₁.kept k p hp).lock hos hzero).congr rfl rfl
    have hlocked : ∀ b, (p.priv.lock os).buffer = some b → b.locked ≠ 0 :=
      fun b hb => lock_buffer hb
    have hset : Paired { s.unlockRoot.setPriv k p { p.priv.lock os with wasLocked := false }
        p.priv.lockComplaint with root := none } := by
      refine h₁.change (r := { p with priv := { p.priv.lock os with wasLocked := false } })
        (h₁.others hk₁ (fun j hj => Function.update_of_ne hj ..) rfl) hkept
        (fun hr => by cases hr) rfl rfl ?_
      show s.unlockRoot.complaints + p.priv.lockComplaint = 0
      rw [lock_complaint hzero, show s.unlockRoot.complaints = 0 from h₁.complaints]
    exact hset.setRoot hk₁ (Function.update_self ..) hlocked
  next hnot =>
    refine h₁.setRoot hk₁ hp fun b hb => (hinv₁.sound k p hp).locked ?_ hb
    by_contra hlocked
    exact hnot ⟨Option.isSome_iff_exists.mpr ⟨b, hb⟩, hlocked⟩

theorem paired_relock (hinv : Inv s) (h : Paired s) (hk : s.Closed k) (hos : Grants os)
    (hp : s.pixmap k = some p) (hs : relock os s k p = some t) : Paired t := by
  rw [relock] at hs
  split at hs
  next hlocked =>
    obtain ⟨-, rfl⟩ := enabled_eq_some.mp hs
    have hzero : p.priv.unlockComplaint = 0 :=
      unlock_complaint fun b hb => (hinv.sound k p hp).locked hlocked hb
    have hunlocked : ∀ b, p.priv.unlock.buffer = some b → b.locked = 0 :=
      fun b hb => unlock_zero p.priv hb
    refine h.change (r := { p with priv := p.priv.unlock.lock os })
      (h.others hk (fun j hj => Function.update_of_ne hj ..) rfl)
      ((h.kept k p hp).unlock.lock hos hunlocked) (fun _ b hb => lock_buffer hb) rfl rfl ?_
    show s.complaints + (p.priv.unlockComplaint + p.priv.unlock.lockComplaint) = 0
    rw [h.complaints, hzero, lock_complaint hunlocked]
  · cases hs
    exact h

/-- The access that is opened says whether it has locked the buffer. -/
theorem locking_open {n : ℕ} {ptr : Option Region} (h : priv.wasLocked = false →
    (∀ b, priv.buffer = some b → b.locked ≠ 0) ∧ s.root ≠ some k) :
    Locking ((s.setPriv k p priv n).open k priv) (k, ptr) := by
  intro q hq hwas
  have hself : Function.update s.pixmap k (some { p with priv := priv }) k = some q := hq
  rw [Function.update_self, Option.some_inj] at hself
  rw [← hself] at hwas ⊢
  exact h hwas

theorem paired_prepare (h : Paired s) (hk : s.Closed k)
    (hos : Grants os) (hp : s.pixmap k = some p) (hs : loriePrepareAccess os s k p = some t) :
    Paired t := by
  have hothers : ∀ (priv : LoriePixmapPriv) (n : ℕ), ∀ a ∈ s.access,
      Locking (s.setPriv k p priv n) a :=
    fun priv n => h.others hk (fun j hj => Function.update_of_ne hj ..) rfl
  rw [loriePrepareAccess] at hs
  split at hs
  next hboth =>
    obtain ⟨hlocks, rfl⟩ := enabled_eq_some.mp hs
    have hzero : ∀ b, p.priv.buffer = some b → b.locked = 0 :=
      fun b hb => (h.kept k p hp).zero hboth.1 hb
    have hkept : Kept { p.priv.lock os with wasLocked := false } :=
      ((h.kept k p hp).lock hos hzero).congr rfl rfl
    have hlocked : ∀ b, (p.priv.lock os).buffer = some b → b.locked ≠ 0 :=
      fun b hb => lock_buffer hb
    -- the root window's buffer would have been locked
    have hroot : s.root ≠ some k := by
      intro hr
      cases hb : p.priv.buffer with
      | none =>
        rw [LoriePixmapPriv.locks, hb] at hlocks
        cases hlocks
      | some b => exact h.root k p b hr hp hb (hzero b hb)
    refine h.change (r := { p with priv := { p.priv.lock os with wasLocked := false } })
      (fun a ha => ?_) hkept (fun hr => absurd hr hroot) rfl rfl ?_
    · rcases List.mem_cons.mp ha with rfl | ha
      · exact locking_open (n := p.priv.lockComplaint) fun _ => ⟨hlocked, hroot⟩
      · exact hothers _ p.priv.lockComplaint a ha
    · show s.complaints + p.priv.lockComplaint = 0
      rw [h.complaints, lock_complaint hzero]
  · cases hs
    have hkept : Kept { p.priv with wasLocked := true } := (h.kept k p hp).congr rfl rfl
    refine h.change (r := { p with priv := { p.priv with wasLocked := true } })
      (fun a ha => ?_) hkept (fun hr b hb => h.root k p b hr hp hb) rfl rfl h.complaints
    rcases List.mem_cons.mp ha with rfl | ha
    · exact locking_open (n := 0) fun hwas => absurd hwas Bool.noConfusion
    · exact hothers _ 0 a ha

theorem paired_finish (h : Paired s) (hp : s.pixmap k = some p) (hk : ¬s.Closed k) :
    Paired { lorieFinishAccess s k p with access := s.access.filter (·.1 ≠ k) } := by
  have hclosed : Paired { s with access := s.access.filter (·.1 ≠ k) } :=
    ⟨h.kept, h.complaints, h.shown, h.root, fun a ha => h.access a (List.mem_of_mem_filter ha)⟩
  rw [lorieFinishAccess]
  split
  next hwas =>
    obtain ⟨a, ha, rfl⟩ := List.mem_map.mp (not_not.mp hk)
    obtain ⟨hlocked, hroot⟩ := h.access a ha p hp (Bool.not_eq_true _ ▸ hwas)
    have hkept : Kept { p.priv.unlock with wasLocked := false } :=
      (h.kept a.1 p hp).unlock.congr rfl rfl
    refine hclosed.change (r := { p with priv := { p.priv.unlock with wasLocked := false } })
      (fun a' ha' => ?_) hkept (fun hr => absurd hr hroot) rfl rfl ?_
    · have hne : a'.1 ≠ a.1 := of_decide_eq_true (List.mem_filter.mp ha').2
      exact locking_of_ne (hclosed.access a' ha') (Function.update_of_ne hne ..) rfl
    · show s.complaints + p.priv.unlockComplaint = 0
      rw [h.complaints, unlock_complaint hlocked]
  · exact hclosed

theorem paired_destroy (hinv : Inv s) (h : Paired s) (hclosed : s.Closed k)
    (hk : s.root ≠ some k) (hp : s.pixmap k = some p) :
    Paired (lorieExaDestroyPixmap s k p) := by
  have hcases : ∀ j q, (lorieExaDestroyPixmap s k p).pixmap j = some q →
      s.pixmap j = some q := by
    intro j q hq
    by_cases hj : j = k
    · rw [hj] at hq
      exact absurd ((Function.update_self ..).symm.trans hq) (Option.some_ne_none q).symm
    · exact (Function.update_of_ne hj ..).symm.trans hq
  refine ⟨fun j q hq => h.kept j q (hcases j q hq), ?_, fun j hj => ?_,
    fun j q b hj hq => h.root j q b hj (hcases j q hq),
    h.others hclosed (fun j hj => Function.update_of_ne hj ..) rfl⟩
  · show s.complaints + (if p.priv.locked.isSome then p.priv.unlockComplaint else 0) = 0
    rw [h.complaints]
    split
    next hlocked =>
      rw [unlock_complaint fun b hb => (hinv.sound k p hp).locked hlocked hb]
    · rfl
  · have hne : j ≠ k := by
      rintro rfl
      exact hk hj
    rw [show (lorieExaDestroyPixmap s k p).pixmap j = s.pixmap j from Function.update_of_ne hne ..]
    exact h.shown j hj

theorem paired_step {a : Action} (hinv : Inv s) (h : Paired s) (ha : a.Granted)
    (hs : step s a = some t) : Paired t := by
  cases a with
  | create os id k width height depth backed legacyDrawing =>
    obtain ⟨hk, hs⟩ := Option.ite_none_right_eq_some.mp hs
    obtain ⟨p, hp, hs⟩ := Option.bind_eq_some_iff.mp hs
    exact Paired.add hinv h hk (createPixmap_kept hp ha) hs
  | fromFds os id k legacyDrawing i =>
    obtain ⟨hk, hs⟩ := Option.ite_none_right_eq_some.mp hs
    obtain ⟨p, hp, hs⟩ := Option.bind_eq_some_iff.mp hs
    exact Paired.add hinv h hk (loriePixmapFromFds_kept hp) hs
  | sample os k type =>
    obtain ⟨hk, hs⟩ := Option.ite_none_right_eq_some.mp hs
    obtain ⟨p, hp, rfl⟩ := Option.map_eq_some_iff.mp hs
    have hspec := sample_locked ha s.memory type (hinv.sound k p hp)
    generalize lorieEnsureGpuSampleable os s.memory p type = result at hspec ⊢
    obtain ⟨buffer, p', m'⟩ := result
    -- the other pixmaps keep their buffers, and so their locks
    have hothers := h.others (t := { s with
      pixmap := Function.update s.pixmap k (some p'), memory := m' }) hk
        (fun j hj => Function.update_of_ne hj ..) rfl
    rcases hspec with hsame | ⟨hkept, hlocked⟩
    · obtain rfl : p' = p := hsame
      exact h.change hothers (h.kept k p' hp) (fun hr b hb => h.root k p' b hr hp hb)
        rfl rfl h.complaints
    · exact h.change hothers hkept (fun _ => hlocked) rfl rfl h.complaints
  | modify k data =>
    obtain ⟨hk, hs⟩ := Option.ite_none_right_eq_some.mp hs
    obtain ⟨p, hp, rfl⟩ := Option.map_eq_some_iff.mp hs
    have hkept : Kept { p.priv with mem := some data } := (h.kept k p hp).congr rfl rfl
    exact h.change (r := { p with priv := { p.priv with mem := some data } })
      (h.others hk (fun j hj => Function.update_of_ne hj ..) rfl) hkept
      (fun hr b hb => h.root k p b hr hp hb) rfl rfl h.complaints
  | setRoot os k =>
    obtain ⟨⟨hk, hroot⟩, hs⟩ := Option.ite_none_right_eq_some.mp hs
    exact paired_setRoot hinv h hk (fun old => closed_root hroot) ha hs
  | relock os k =>
    obtain ⟨hk, hs⟩ := Option.ite_none_right_eq_some.mp hs
    obtain ⟨p, hp, hs⟩ := Option.bind_eq_some_iff.mp hs
    exact paired_relock hinv h hk ha hp hs
  | prepare os k =>
    obtain ⟨hk, hs⟩ := Option.ite_none_right_eq_some.mp hs
    obtain ⟨p, hp, hs⟩ := Option.bind_eq_some_iff.mp hs
    exact paired_prepare h hk ha hp hs
  | finish k =>
    obtain ⟨hk, hs⟩ := Option.ite_none_left_eq_some.mp hs
    obtain ⟨p, hp, rfl⟩ := Option.map_eq_some_iff.mp hs
    exact paired_finish h hp hk
  | destroy k =>
    obtain ⟨⟨hclosed, hk⟩, hs⟩ := Option.ite_none_right_eq_some.mp hs
    obtain ⟨p, hp, rfl⟩ := Option.map_eq_some_iff.mp hs
    exact paired_destroy hinv h hclosed hk hp

/-- Where the hardware grants every lock, no buffer is locked or unlocked twice, the root
window's is locked, and no access to a pixmap that has pixels fails. -/
theorem locks_paired {m : Memory} {as : List Action} (hm : m.freed = [])
    (has : ∀ a ∈ as, a.Granted) (h : run step { memory := m } as = some s) :
    s.complaints = 0 ∧
      (∀ k p b, s.root = some k → s.pixmap k = some p → p.priv.buffer = some b → b.locked ≠ 0) ∧
      ∀ os k p, Grants os → s.pixmap k = some p → s.Closed k →
        (p.priv.buffer.isSome ∨ p.priv.mem.isSome) → (step s (.prepare os k)).isSome := by
  have hstart : Inv { memory := m } ∧ Paired { memory := m } :=
    ⟨inv_start m hm, fun k p hp => (by cases hp), rfl, fun k hk => (by cases hk),
      fun k p b hk => (by cases hk), fun a ha => absurd ha List.not_mem_nil⟩
  have hstep : ∀ s a t, Inv s ∧ Paired s → a.Granted → step s a = some t → Inv t ∧ Paired t :=
    fun s a t hs ha hst => ⟨inv_step hs.1 hst, paired_step hs.1 hs.2 ha hst⟩
  obtain ⟨-, hpaired⟩ := run_invariant hstep hstart (meets_of_forall_mem has _) h
  refine ⟨hpaired.complaints, hpaired.root, fun os k p hos hp hk hpixels => ?_⟩
  rw [step, if_pos hk, hp, Option.bind_some, loriePrepareAccess]
  split
  next hboth =>
    obtain ⟨b, hb⟩ := Option.isSome_iff_exists.mp (hpixels.resolve_right hboth.2)
    have hlocks : p.priv.locks os = true := by
      rw [LoriePixmapPriv.locks, hb]
      refine decide_eq_true ⟨(hpaired.kept k p hp).zero hboth.1 hb, fun _ _ => ?_⟩
      rw [Option.all_eq_true]
      exact fun a _ => hos.lock a
    rw [if_pos hlocks]
    rfl
  · rfl

/-- The root window's pixmap is exchanged for one that was converted, and destroyed; while the
new one is drawn to, a third is made, drawn to and destroyed. -/
def exchanged : List Action :=
  [.create Os.granting 0 0 2 2 24 true false, .setRoot Os.granting 0,
    .create Os.granting 1 1 2 2 24 false false, .prepare Os.granting 1, .finish 1,
    .sample Os.granting 1 .ahardwarebuffer, .setRoot Os.granting 1, .destroy 0,
    .relock Os.granting 1, .prepare Os.granting 1, .create Os.nextBlock 2 2 1 1 1 false false,
    .prepare Os.granting 2, .finish 2, .destroy 2, .finish 1]

theorem exchanged_paired : ∃ s, run step { memory := cleanMemory } exchanged = some s ∧
    s.complaints = 0 ∧ s.root = some 1 := by
  have hroot : (run step { memory := cleanMemory } exchanged).map (·.root) = some (some 1) := by
    decide +kernel
  obtain ⟨s, hs, hone⟩ := Option.map_eq_some_iff.mp hroot
  have hos : Grants Os.granting := ⟨rfl, fun _ => rfl⟩
  have hnext : Grants Os.nextBlock := ⟨rfl, fun _ => rfl⟩
  have hgranted : ∀ a ∈ exchanged, a.Granted := by
    simp only [exchanged, List.forall_mem_cons, Action.Granted, hos, hnext, true_and]
    exact fun a ha => absurd ha List.not_mem_nil
  exact ⟨s, hs, (locks_paired rfl hgranted hs).1, hone⟩

end Lorie.PixmapAccess
