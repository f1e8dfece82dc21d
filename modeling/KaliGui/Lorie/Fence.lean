/-
The fences that clients share with the server (`xshmfence.c`).

A client makes the fence with the `libxshmfence` it has, and the server cannot tell which
one that is but by the size of the shared memory: one word is a futex, all else is taken
for a mutex and a condition variable.  Each function then calls the one of that kind.

* `Xshmfence`, `xshmfenceMapShm` — the two kinds, and which one is chosen;
* `fence_atomic` — for either kind, any number of threads use the fence as they would an
  event whose operations each take effect at one moment;
* `await_finishes` — for either kind, who waits for a triggered fence can return with no
  further call being made for it.
-/
import KaliGui.Lorie.FencePthread

namespace Lorie.Fence

open ManualEvent (Op Phase)
open Machine

variable {T : Type*}

/-- `struct xshmfence`, with what `real` points to. -/
inductive Xshmfence (T : Type*)
  /-- with `is_futex` set -/
  | futex (real : Futex.State T)
  | pthread (real : Pthread.State T)

/-- `xshmfence_map_shm`, of memory as its maker leaves it; `size` is `st_size`, which stays 0
if `fstat` fails. -/
def xshmfenceMapShm (allocates maps : Bool) (size : ℕ) : Option (Xshmfence T) :=
  if ¬ allocates then none
  else
    let isFutex := size = 4
    if ¬ maps then none else some (if isFutex then .futex {} else .pthread {})

def Xshmfence.event : Xshmfence T → ManualEvent.State T
  | .futex real => real.event
  | .pthread real => real.event

variable [DecidableEq T]

/-- `xshmfence_trigger`, `xshmfence_await`, `xshmfence_query` and `xshmfence_reset`. -/
def step : Xshmfence T → Act T → Option (Xshmfence T)
  | .futex real, a => (Futex.step real a).map .futex
  | .pthread real, a => (Pthread.step real a).map .pthread

variable {allocates maps : Bool} {size : ℕ} {fence s : Xshmfence T} {as : List (Act T)} {t : T}

/-- A run of a fence is one of what it stands for. -/
theorem run_futex (real : Futex.State T) (as : List (Act T)) :
    (run Futex.step real as).map Xshmfence.futex = run step (.futex real) as :=
  run_map (fun _ _ => rfl) as real

theorem run_pthread (real : Pthread.State T) (as : List (Act T)) :
    (run Pthread.step real as).map Xshmfence.pthread = run step (.pthread real) as :=
  run_map (fun _ _ => rfl) as real

/-- Every run is one of a fence of either kind. -/
theorem run_cases (hmap : xshmfenceMapShm allocates maps size = some fence)
    (hrun : run step fence as = some s) :
    (∃ r, run Futex.step {} as = some r ∧ s = .futex r) ∨
      ∃ r, run Pthread.step {} as = some r ∧ s = .pthread r := by
  rw [xshmfenceMapShm] at hmap
  split at hmap
  · exact absurd hmap.symm (Option.some_ne_none fence)
  dsimp only at hmap
  split at hmap
  · exact absurd hmap.symm (Option.some_ne_none fence)
  obtain rfl := Option.some_inj.mp hmap
  split at hrun
  · rw [← run_futex] at hrun
    obtain ⟨r, hr, hs⟩ := Option.map_eq_some_iff.mp hrun
    exact .inl ⟨r, hr, hs.symm⟩
  · rw [← run_pthread] at hrun
    obtain ⟨r, hr, hs⟩ := Option.map_eq_some_iff.mp hrun
    exact .inr ⟨r, hr, hs.symm⟩

/-- Whatever kind of fence is mapped, and whatever its threads do: there are moments for the
calls, each between its start and its return, at which they take effect one by one as on an
event, with the results that the threads see. -/
theorem fence_atomic (hmap : xshmfenceMapShm allocates maps size = some fence)
    (hrun : run step fence as = some s) :
    ∃ bs, run ManualEvent.step (ManualEvent.initial false) bs = some s.event ∧
      bs.filterMap ManualEvent.Act.seen = as.filterMap Act.seen := by
  rcases run_cases hmap hrun with ⟨r, hr, rfl⟩ | ⟨r, hr, rfl⟩
  · refine ⟨trace Futex.step Futex.effect {} as, ?_, ?_⟩
    · exact Futex.simulation.run_trace (s := ({} : Futex.State T)) (.inr (.inl rfl)) hr
    · exact trace_filterMap (fun s a _ _ => Futex.seen_effect s a) hr
  · refine ⟨trace Pthread.step Pthread.effect {} as, ?_, ?_⟩
    · exact Pthread.simulation.run_trace Pthread.inv_initial hr
    · exact trace_filterMap (fun s a _ _ => Pthread.seen_effect s a) hr

/-- One thread goes to sleep on the word, another triggers the fence and wakes it. -/
def sleeperWoken : List (Act Bool) :=
  [.call true .await, .move true, .move true, .call false .trigger, .move false, .move false,
   .move false, .move true, .ret true 0, .ret false 0]

theorem sleeperWoken_atomic :
    ∃ (s : Xshmfence Bool) (bs : List (ManualEvent.Act Bool)),
      run step (.futex {}) sleeperWoken = some s ∧
        run ManualEvent.step (ManualEvent.initial false) bs = some s.event ∧
        bs.filterMap ManualEvent.Act.seen = sleeperWoken.filterMap Act.seen := by
  have hrun : run step (.futex {}) sleeperWoken = some _ := rfl
  have hmap : xshmfenceMapShm true true 4 = some (.futex ({} : Futex.State Bool)) := rfl
  exact ⟨_, (fence_atomic hmap hrun).choose, hrun, (fence_atomic hmap hrun).choose_spec⟩

/-- In every state that a fence gets to: for a thread that waits while the fence is triggered,
and no reset is under way, some schedule of at most eight steps of calls that are under way
already lets it return 0.  Nobody sleeps through a trigger. -/
theorem await_finishes (hmap : xshmfenceMapShm allocates maps size = some fence)
    (hrun : run step fence as = some s) (htriggered : s.event.triggered = true)
    (hreset : ∀ u, s.event.phase u ≠ .called .reset)
    (hwaits : s.event.phase t = .called .await) :
    ∃ (us : List T) (s' : Xshmfence T), us.length ≤ 8 ∧
      run step s (us.map .move ++ [.ret t 0]) = some s' := by
  rcases run_cases hmap hrun with ⟨r, hr, rfl⟩ | ⟨r, hr, rfl⟩
  · have hsleepers : Futex.Sleepers r :=
      run_invariant_of_step (fun _ _ _ => Futex.sleepers_step) (s := ({} : Futex.State T))
        (fun _ h => Futex.Pc.noConfusion h) hr
    obtain ⟨us, r', hlength, hmoves, hdone⟩ :=
      Futex.finishes hsleepers (of_decide_eq_true htriggered) hwaits
    refine ⟨us, .futex (r'.at t .idle), by omega, ?_⟩
    have hret : Futex.step r' (.ret t 0) = some (r'.at t .idle) := if_pos hdone
    rw [← run_futex, run_append_of_eq hmoves, run_singleton, hret]
    rfl
  · have hinv : Pthread.Inv r := Pthread.simulation.invariant Pthread.inv_initial hr
    have hfree : ∀ u, r.pc u ≠ .enter .reset := fun u hu => hreset u (congrArg Pthread.Pc.phase hu)
    obtain ⟨us, r', hlength, hmoves, hdone⟩ := Pthread.finishes hinv htriggered hfree hwaits
    refine ⟨us, .pthread (r'.at t .idle), hlength, ?_⟩
    have hret : Pthread.step r' (.ret t 0) = some (r'.at t .idle) := if_pos hdone
    rw [← run_pthread, run_append_of_eq hmoves, run_singleton, hret]
    rfl

/-- One thread sleeps on the condition variable, another has set the value and not yet looked
whether somebody waits. -/
def sleeperMarked : List (Act Bool) :=
  [.call true .await, .move true, .move true, .move true, .move true,
   .call false .trigger, .move false, .move false, .move false]

theorem sleeperMarked_finishes :
    ∃ (s : Xshmfence Bool) (us : List Bool) (s' : Xshmfence Bool),
      run step (.pthread {}) sleeperMarked = some s ∧ us.length ≤ 8 ∧
        run step s (us.map .move ++ [.ret true 0]) = some s' := by
  have hrun : run step (.pthread {}) sleeperMarked = some _ := rfl
  have hmap : xshmfenceMapShm true true 88 = some (.pthread ({} : Pthread.State Bool)) := rfl
  obtain ⟨us, s', hfinishes⟩ := await_finishes hmap hrun rfl
    (fun u => by cases u <;> exact fun h => by cases h) (t := true) rfl
  exact ⟨_, us, s', hrun, hfinishes⟩

end Lorie.Fence
