import CppRpc.Lib.Progress
import CppRpc.Server.OneShot

/-!
# No descriptor stays disarmed

A descriptor is disarmed when one of its events is reported, and `modify_event`
at the end of the event arms it again.  Here are the runs of `Poll`, numbers of
descriptors reused or not, with callbacks that block and workers that leave
`poll`: a descriptor that is registered and disarmed has an event that some
worker has not finished, so this worker is still in `poll`.  It is in a call that
blocks, or not stuck, and with 71 more steps of its own it arms the descriptor,
unless somebody unregisters it before (`rearmed_of_reachable`).  How long a call
blocks is up to the kernel, and its start and its end are not counted.

`Poll.Effect` says what one step does to the worker that takes it and to
`epoll`; `effect_of_step` is the case analysis of the steps, and the proofs go
by it.  `stepsTo` is the rank: ten events in a batch, and at most seven steps
for each of them.

`listener_armed_of_reachable` adds that the listener is never unregistered.  The
server stops accepting connections only while all workers have left `poll`, or
are in their callbacks.
-/

namespace CppRpc

open Runs

/-! ## What a step does to its worker -/

/-- The steps that the worker has left for its first event, behind the next
one. -/
def Stage.rank : Stage → Nat
  | .waiting => 7
  | .read => 6
  | .inside .E_READ _ .body | .inside .E_READ _ .blocked => 5
  | .inside .E_READ _ _ => 4
  | .write => 3
  | .inside _ _ .body | .inside _ _ .blocked => 2
  | .inside _ _ _ => 1
  | .rearm | .stopped => 0

theorem Stage.rank_le (stage : Stage) : stage.rank ≤ 7 := by
  unfold rank
  split <;> omega

theorem Stage.behind_ne_waiting (e : IoEvent) : Stage.behind e ≠ .waiting := by
  cases e <;> exact nofun

namespace PollWorker

/-- A worker with an event that is not finished goes on with it. -/
structure WF (p : PollWorker) : Prop where
  length_le : p.batch.length ≤ 10
  busy : p.stage ≠ .waiting → p.stage ≠ .stopped → p.batch ≠ []
  stopped : p.stage = .stopped → p.batch = []
  unregistered : ∀ e o, p.stage = .inside e o .unregistered → ∃ c, o = .connection c

/-- The worker has an unfinished event with the number. -/
def Holds (p : PollWorker) (fd : Nat) : Prop := ∃ ev ∈ p.batch, ev.fd = fd

/-- The worker is in a call that blocks. -/
def Blocked (p : PollWorker) : Prop := ∃ e o, p.stage = .inside e o .blocked

/-- The steps of the worker in front of the one that finishes its first event
with the number. -/
def stepsTo (p : PollWorker) (fd : Nat) : Nat :=
  7 * p.batch.findIdx (·.fd = fd) +
    if p.stage = .waiting then 17 - p.batch.length else p.stage.rank

/-- The start and the end of a call that blocks. -/
inductive Pause : PollWorker → PollWorker → Prop
  | block {batch : List EpollEvent} (e : IoEvent) (o : Owner) :
      Pause ⟨batch, .inside e o .body⟩ ⟨batch, .inside e o .blocked⟩
  | unblock {batch : List EpollEvent} (e : IoEvent) (o : Owner) :
      Pause ⟨batch, .inside e o .blocked⟩ ⟨batch, .inside e o .body⟩

/-- The other steps of a worker, one by one. -/
inductive Move : PollWorker → PollWorker → Prop
  | report {batch : List EpollEvent} (ev : EpollEvent) : batch.length < 10 →
      Move ⟨batch, .waiting⟩ ⟨batch ++ [ev], .waiting⟩
  | process {batch : List EpollEvent} : batch ≠ [] → Move ⟨batch, .waiting⟩ ⟨batch, .read⟩
  | stop : Move ⟨[], .waiting⟩ ⟨[], .stopped⟩
  | call {batch : List EpollEvent} {stage : Stage} (e : IoEvent) (o : Owner) :
      (Stage.inside e o .body).rank < stage.rank → stage ≠ .waiting →
      Move ⟨batch, stage⟩ ⟨batch, .inside e o .body⟩
  | skip {batch : List EpollEvent} {stage : Stage} (e : IoEvent) :
      (Stage.behind e).rank < stage.rank → stage ≠ .waiting →
      Move ⟨batch, stage⟩ ⟨batch, Stage.behind e⟩
  | unregister {batch : List EpollEvent} (c : Nat) :
      Move ⟨batch, .inside .E_READ (.connection c) .body⟩
        ⟨batch, .inside .E_READ (.connection c) .unregistered⟩
  | accept {batch : List EpollEvent} (e : IoEvent) (o : Owner) (id : Nat) :
      Move ⟨batch, .inside e o .body⟩ ⟨batch, .inside e o (.accepted id)⟩
  | finish {batch : List EpollEvent} (ev : EpollEvent) :
      Move ⟨ev :: batch, .rearm⟩ ⟨batch, if batch.isEmpty then .waiting else .read⟩

variable {p p' : PollWorker} {fd : Nat}

theorem Pause.wf (h : Pause p p') (hp : p.WF) : p'.WF := by
  obtain ⟨hlength, hbusy, -, -⟩ := hp
  cases h with
  | block e o => exact ⟨hlength, fun _ _ => hbusy (by simp) (by simp), nofun, nofun⟩
  | unblock e o => exact ⟨hlength, fun _ _ => hbusy (by simp) (by simp), nofun, nofun⟩

theorem Move.wf (h : Move p p') (hp : p.WF) : p'.WF := by
  obtain ⟨hlength, hbusy, hstopped, hunregistered⟩ := hp
  cases h with
  | report ev hroom =>
    refine ⟨?_, fun h => absurd rfl h, nofun, nofun⟩
    simp only [List.length_append, List.length_singleton]
    omega
  | process hne => exact ⟨hlength, fun _ _ => hne, nofun, nofun⟩
  | stop => exact ⟨hlength, fun _ h => absurd rfl h, fun _ => rfl, nofun⟩
  | call e o hrank hstage =>
    refine ⟨hlength, fun _ _ => hbusy hstage ?_, nofun, nofun⟩
    rintro rfl
    exact absurd hrank (Nat.not_lt_zero _)
  | skip e hrank hstage =>
    refine ⟨hlength, fun _ _ => hbusy hstage ?_, fun hbehind => ?_, fun _ _ hbehind => ?_⟩
    · rintro rfl
      exact absurd hrank (Nat.not_lt_zero _)
    · cases e <;> cases hbehind
    · cases e <;> cases hbehind
  | unregister c =>
    refine ⟨hlength, fun _ _ => hbusy (by simp) (by simp), nofun, fun e o hinside => ?_⟩
    cases hinside
    exact ⟨c, rfl⟩
  | accept e o id => exact ⟨hlength, fun _ _ => hbusy (by simp) (by simp), nofun, nofun⟩
  | @finish batch ev =>
    refine ⟨Nat.le_trans (Nat.le_succ _) hlength, fun hstage _ hnil => ?_, fun hstage => ?_,
      fun e o hinside => ?_⟩
    · dsimp only at hnil
      subst hnil
      exact hstage rfl
    · cases batch <;> cases hstage
    · cases batch <;> cases hinside

theorem findIdx_lt (h : p.Holds fd) : p.batch.findIdx (·.fd = fd) < p.batch.length := by
  obtain ⟨ev, hev, hfd⟩ := h
  exact List.findIdx_lt_length_of_exists ⟨ev, hev, decide_eq_true hfd⟩

theorem stepsTo_le (hp : p.WF) (h : p.Holds fd) : p.stepsTo fd ≤ 70 := by
  have hidx := findIdx_lt h
  have hlength := hp.length_le
  have hrank := Stage.rank_le p.stage
  unfold stepsTo
  split <;> omega

/-- A call that blocks changes nothing but the place of the worker. -/
theorem Pause.stepsTo_eq (h : Pause p p') (fd : Nat) :
    p'.batch = p.batch ∧ p'.stepsTo fd = p.stepsTo fd := by
  cases h with
  | block e o => cases e <;> exact ⟨rfl, rfl⟩
  | unblock e o => cases e <;> exact ⟨rfl, rfl⟩

/-- A step of the worker brings the end of its event with the number nearer,
unless it is this end. -/
theorem Move.stepsTo_lt (h : Move p p') (hp : p.WF) (hfd : p.Holds fd) :
    (∃ ev batch, p = ⟨ev :: batch, .rearm⟩ ∧ ev.fd = fd) ∨
      p'.Holds fd ∧ p'.stepsTo fd < p.stepsTo fd := by
  have hlength := hp.length_le
  have hidx := findIdx_lt hfd
  cases h with
  | report ev hroom =>
    obtain ⟨ev', hev', heq⟩ := hfd
    refine Or.inr ⟨⟨ev', List.mem_append_left _ hev', heq⟩, ?_⟩
    simp only [stepsTo, List.findIdx_append, if_true, List.length_append, List.length_singleton]
      at hidx ⊢
    rw [if_pos hidx]
    omega
  | process hne =>
    refine Or.inr ⟨hfd, ?_⟩
    simp only [stepsTo, if_true, reduceCtorEq, if_false, Stage.rank] at hlength ⊢
    omega
  | stop =>
    obtain ⟨ev, hev, -⟩ := hfd
    cases hev
  | call e o hrank hstage =>
    refine Or.inr ⟨hfd, ?_⟩
    simp only [stepsTo, if_neg hstage, reduceCtorEq, if_false]
    omega
  | skip e hrank hstage =>
    refine Or.inr ⟨hfd, ?_⟩
    simp only [stepsTo, if_neg hstage, if_neg (Stage.behind_ne_waiting e)]
    omega
  | unregister c =>
    refine Or.inr ⟨hfd, ?_⟩
    simp [stepsTo, Stage.rank]
  | accept e o id =>
    refine Or.inr ⟨hfd, ?_⟩
    cases e <;> simp [stepsTo, Stage.rank]
  | @finish batch ev =>
    by_cases hev : ev.fd = fd
    · exact Or.inl ⟨ev, batch, rfl, hev⟩
    · have hrest : PollWorker.Holds ⟨batch, if batch.isEmpty then .waiting else .read⟩ fd := by
        obtain ⟨ev', hev', heq⟩ := hfd
        refine ⟨ev', (List.mem_cons.mp hev').resolve_left ?_, heq⟩
        rintro rfl
        exact hev heq
      refine Or.inr ⟨hrest, ?_⟩
      have hne : batch.isEmpty = false := by
        obtain ⟨ev', hev', -⟩ := hrest
        cases batch with
        | nil => cases hev'
        | cons => rfl
      simp [stepsTo, Stage.rank, hne, List.findIdx_cons, hev]
      omega

end PollWorker

/-! ## What a step does -/

namespace Poll

variable {ω : Type}

/-- The worker that takes a step. -/
def Action.worker : Action ω → ω
  | .report w _ _ _ | .process w | .stop w | .dispatch w | .block w | .unblock w | .leave w
  | .unregister w | .close w | .accept w _ | .reject w | .register w | .registerFails w
  | .modifyEvent w => w

/-- The start or the end of a call that blocks. -/
def Action.pauses : Action ω → Bool
  | .block _ | .unblock _ => true
  | _ => false

/-- What a step does to its worker. -/
def Action.Moves (a : Action ω) : PollWorker → PollWorker → Prop :=
  if a.pauses then PollWorker.Pause else PollWorker.Move

/-- The descriptor is armed, or not registered. -/
def Attended (s : Poll ω) (fd : Nat) : Prop := ∀ o, s.epoll fd ≠ some (o, false)

/-- What a step of the worker `w` does. -/
structure Effect (moves : PollWorker → PollWorker → Prop) (s s' : Poll ω) (w : ω) : Prop where
  others : ∀ w', w' ≠ w → s'.workers w' = s.workers w'
  move : moves (s.workers w) (s'.workers w)
  disarmed : ∀ fd, s.Attended fd → s'.Attended fd ∨ (s'.workers w).Holds fd
  rearmed : ∀ ev batch, s.workers w = ⟨ev :: batch, .rearm⟩ → s'.Attended ev.fd

/-- A step arms or forgets descriptors only. -/
def Attends (s s' : Poll ω) : Prop := ∀ fd, s.Attended fd → s'.Attended fd

theorem Forgets.attends {s s' : Poll ω} (h : Forgets s s') : Attends s s' :=
  fun _ hfd o ho => hfd o (h.epoll_some ho)

theorem attends_registerIo (s : Poll ω) (fd : Nat) (o : Owner) : Attends s (s.registerIo fd o) := by
  intro fd' hfd' o' ho'
  change Function.update s.epoll fd (some (o, true)) fd' = _ at ho'
  by_cases heq : fd' = fd
  · subst heq
    rw [Function.update_self] at ho'
    cases ho'
  · rw [Function.update_of_ne heq] at ho'
    exact hfd' o' ho'

variable [DecidableEq ω] {s s₀ s' : Poll ω} {w : ω}

/-- The worker goes on with its event. -/
theorem effect_goto {moves : PollWorker → PollWorker → Prop} {stage stage' : Stage}
    (hstage : (s.workers w).stage = stage) (hworkers : s₀.workers = s.workers)
    (hattends : Attends s s₀) (hrearm : stage ≠ .rearm)
    (hmove : moves ⟨(s.workers w).batch, stage⟩ ⟨(s.workers w).batch, stage'⟩) :
    Effect moves s (s₀.goto w stage') w where
  others w' hw' := by
    rw [goto, setWorker_of_ne s₀ _ hw', hworkers]
  move := by
    rw [goto, setWorker_self, hworkers]
    subst hstage
    exact hmove
  disarmed fd hfd := Or.inl (hattends fd hfd)
  rearmed ev batch h := by
    rw [h] at hstage
    exact absurd hstage.symm hrearm

theorem effect_report {fd : Nat} {o : Owner} (hstage : (s.workers w).stage = .waiting)
    (hlength : (s.workers w).batch.length < 10) (epollIn epollOut : Bool) :
    Effect PollWorker.Move s
      { s.setWorker w ⟨(s.workers w).batch ++ [⟨fd, epollIn, epollOut, o⟩], .waiting⟩ with
        epoll := Function.update s.epoll fd (some (o, false)) } w where
  others w' hw' := s.setWorker_of_ne _ hw'
  move := by
    dsimp only
    rw [setWorker_self]
    have hw : s.workers w = ⟨(s.workers w).batch, .waiting⟩ := by rw [← hstage]
    nth_rewrite 1 [hw]
    exact .report _ hlength
  disarmed fd' hfd' := by
    by_cases heq : fd' = fd
    · right
      dsimp only
      rw [setWorker_self]
      exact ⟨_, List.mem_append_right _ (List.mem_singleton.mpr rfl), heq.symm⟩
    · left
      intro o' ho'
      dsimp only at ho'
      rw [Function.update_of_ne heq] at ho'
      exact hfd' o' ho'
  rearmed ev batch h := by
    rw [h] at hstage
    cases hstage

omit [DecidableEq ω] in
theorem epoll_modifyEvent (s : Poll ω) (ev : EpollEvent) (fd : Nat) :
    (fd ≠ ev.fd → (s.modifyEvent ev).epoll fd = s.epoll fd) ∧
      (s.modifyEvent ev).Attended ev.fd := by
  unfold modifyEvent
  split
  · refine ⟨fun hne => Function.update_of_ne hne .., fun o ho => ?_⟩
    dsimp only at ho
    rw [Function.update_self] at ho
    cases ho
  · rename_i hnone
    refine ⟨fun _ => rfl, fun o ho => ?_⟩
    rw [hnone] at ho
    cases ho

theorem effect_modifyEvent {ev : EpollEvent} {batch : List EpollEvent}
    (hw : s.workers w = ⟨ev :: batch, .rearm⟩) :
    Effect PollWorker.Move s ((s.modifyEvent ev).setWorker w
      ⟨batch, if batch.isEmpty then .waiting else .read⟩) w where
  others w' hw' := by
    rw [setWorker_of_ne _ _ hw']
    unfold modifyEvent
    split <;> rfl
  move := by
    rw [setWorker_self, hw]
    exact .finish ev
  disarmed fd hfd := by
    left
    by_cases heq : fd = ev.fd
    · subst heq
      exact (epoll_modifyEvent s ev ev.fd).2
    · intro o ho
      exact hfd o (((epoll_modifyEvent s ev fd).1 heq).symm.trans ho)
  rearmed ev' batch' h := by
    rw [hw] at h
    cases h
    exact (epoll_modifyEvent s ev ev.fd).2

theorem effect_responseEvent {stage : Stage} (hstage : (s.workers w).stage = stage)
    (hrearm : stage ≠ .rearm) (hwaiting : stage ≠ .waiting) (ev : EpollEvent) {e : IoEvent}
    (hbody : ∀ o, (Stage.inside e o .body).rank < stage.rank)
    (hbehind : (Stage.behind e).rank < stage.rank) :
    Effect PollWorker.Move s (s.responseEvent w ev e) w := by
  have hsame : Attends s s := fun _ h => h
  unfold responseEvent
  split
  · rename_i target _
    have heffect := effect_goto hstage rfl hsame hrearm
      (PollWorker.Move.call e target (hbody target) hwaiting)
    exact ⟨heffect.others, heffect.move, heffect.disarmed, heffect.rearmed⟩
  · exact effect_goto hstage rfl hsame hrearm (PollWorker.Move.skip e hbehind hwaiting)

/-- A callback returns. -/
theorem effect_behind {e : IoEvent} {o : Owner} {k : Callback}
    (hstage : (s.workers w).stage = .inside e o k) (hworkers : s₀.workers = s.workers)
    (hattends : Attends s s₀) : Effect PollWorker.Move s (s₀.goto w (Stage.behind e)) w := by
  refine effect_goto hstage hworkers hattends nofun (PollWorker.Move.skip e ?_ nofun)
  cases e <;> cases k <;> simp [Stage.rank, Stage.behind]

theorem effect_of_step {a : Action ω} (hs : s.step a = some s') :
    Effect a.Moves s s' a.worker := by
  have hsame : Attends s s := fun _ h => h
  cases a with
  | report w fd epollIn epollOut =>
    simp only [step] at hs
    split at hs
    · rename_i hstage _
      split at hs
      · rename_i hlength
        cases hs
        exact effect_report hstage hlength epollIn epollOut
      · cases hs
    · cases hs
  | process w =>
    simp only [step] at hs
    split at hs
    · rename_i hstage hbatch
      cases hs
      refine effect_goto hstage rfl hsame (by simp) (PollWorker.Move.process ?_)
      rw [hbatch]
      exact List.cons_ne_nil _ _
    · cases hs
  | stop w =>
    simp only [step] at hs
    split at hs
    · rename_i hstage hbatch
      cases hs
      refine effect_goto hstage rfl hsame (by simp) ?_
      rw [hbatch]
      exact PollWorker.Move.stop
    · cases hs
  | dispatch w =>
    simp only [step] at hs
    split at hs
    · rename_i ev _ hstage _
      cases hs
      split
      · exact effect_responseEvent hstage (by simp) (by simp) ev (fun _ => by simp [Stage.rank])
          (by decide)
      · exact effect_goto hstage rfl hsame (by simp)
          (PollWorker.Move.skip .E_READ (by decide) (by simp))
    · rename_i ev _ hstage _
      cases hs
      split
      · exact effect_responseEvent hstage (by simp) (by simp) ev (fun _ => by simp [Stage.rank])
          (by decide)
      · exact effect_goto hstage rfl hsame (by simp)
          (PollWorker.Move.skip .E_WRITE (by decide) (by simp))
    · cases hs
  | block w =>
    simp only [step] at hs
    split at hs
    · rename_i e o hstage
      cases hs
      exact effect_goto hstage rfl hsame (by simp) (PollWorker.Pause.block e o)
    · cases hs
  | unblock w =>
    simp only [step] at hs
    split at hs
    · rename_i e o hstage
      cases hs
      exact effect_goto hstage rfl hsame (by simp) (PollWorker.Pause.unblock e o)
    · cases hs
  | leave w =>
    simp only [step] at hs
    split at hs
    · rename_i hstage
      cases hs
      exact effect_behind hstage rfl hsame
    · cases hs
  | unregister w =>
    simp only [step] at hs
    split at hs
    · rename_i c hstage
      cases hs
      split
      · exact effect_goto hstage rfl hsame (by simp) (PollWorker.Move.unregister c)
      · have hf := forgets_unregisterIo s (s.fds c)
        exact effect_goto hstage hf.workers hf.attends (by simp) (PollWorker.Move.unregister c)
    · cases hs
  | close w =>
    simp only [step] at hs
    split at hs
    · rename_i c hstage
      cases hs
      split
      · exact effect_behind hstage rfl hsame
      · have hf := forgets_closeFd s (s.fds c)
        exact effect_behind hstage hf.workers hf.attends
    · cases hs
  | accept w fd =>
    simp only [step] at hs
    split at hs
    · rename_i e hstage
      split at hs
      · cases hs
      · split at hs
        · cases hs
          exact effect_goto hstage rfl hsame (by simp)
            (PollWorker.Move.accept e .listener s.next)
        · cases hs
          exact effect_behind hstage rfl hsame
    · cases hs
  | reject w =>
    simp only [step] at hs
    split at hs
    · rename_i id hstage
      cases hs
      have hf := forgets_closeFd s (s.fds id)
      exact effect_behind hstage hf.workers hf.attends
    · cases hs
  | register w =>
    simp only [step] at hs
    split at hs
    · rename_i id hstage
      split at hs
      · cases hs
        exact effect_behind hstage rfl (attends_registerIo s (s.fds id) (.connection id))
      · cases hs
    · cases hs
  | registerFails w =>
    simp only [step] at hs
    split at hs
    · rename_i id hstage
      cases hs
      have hf := forgets_unregisterIo s (s.fds id)
      have hf' := forgets_closeFd (s.unregisterIo (s.fds id)) (s.fds id)
      exact effect_behind hstage (hf'.workers.trans hf.workers) fun fd hfd =>
        hf'.attends fd (hf.attends fd hfd)
    · cases hs
  | modifyEvent w =>
    simp only [step] at hs
    split at hs
    · rename_i ev batch hstage hbatch
      cases hs
      apply effect_modifyEvent
      rw [← hstage, ← hbatch]
    · cases hs

/-! ## No descriptor stays disarmed -/

/-- The invariant. -/
structure Watched (s : Poll ω) : Prop where
  wf : ∀ w, (s.workers w).WF
  held : ∀ fd, s.Attended fd ∨ ∃ w, (s.workers w).Holds fd

omit [DecidableEq ω] in
theorem watched_new (listenFd : Nat) : (new listenFd : Poll ω).Watched := by
  refine ⟨fun w => ⟨Nat.zero_le _, fun h => absurd rfl h, nofun, nofun⟩, fun fd => Or.inl ?_⟩
  intro o ho
  simp only [new] at ho
  split at ho <;> cases ho

omit [DecidableEq ω] in
theorem Action.Moves.wf {a : Action ω} {p p' : PollWorker} (h : a.Moves p p') (hp : p.WF) :
    p'.WF := by
  unfold Action.Moves at h
  split at h
  · exact h.wf hp
  · exact h.wf hp

omit [DecidableEq ω] in
theorem Effect.wf {a : Action ω} (h : Effect a.Moves s s' w) (hwf : ∀ w, (s.workers w).WF)
    (w' : ω) : (s'.workers w').WF := by
  by_cases hw : w' = w
  · subst hw
    exact h.move.wf (hwf w')
  · rw [h.others w' hw]
    exact hwf w'

omit [DecidableEq ω] in
/-- The worker finishes its event with the number, or comes nearer to it, or is
where it was: at the start or the end of a call that blocks. -/
theorem Effect.stepsTo {a : Action ω} (h : Effect a.Moves s s' w) (hwf : (s.workers w).WF)
    {fd : Nat} (hfd : (s.workers w).Holds fd) :
    s'.Attended fd ∨ (s'.workers w).Holds fd ∧
      (s'.workers w).stepsTo fd + (if a.pauses then 0 else 1) ≤ (s.workers w).stepsTo fd := by
  have hmove := h.move
  unfold Action.Moves at hmove
  split at hmove
  · obtain ⟨hbatch, heq⟩ := hmove.stepsTo_eq fd
    rw [if_pos ‹_›, PollWorker.Holds, hbatch]
    exact Or.inr ⟨hfd, Nat.le_of_eq heq⟩
  · rw [if_neg ‹_›]
    rcases hmove.stepsTo_lt hwf hfd with ⟨ev, batch, hw, rfl⟩ | hnext
    · exact Or.inl (h.rearmed ev batch hw)
    · exact Or.inr hnext

theorem Watched.step (h : s.Watched) {a : Action ω} (hs : s.step a = some s') : s'.Watched := by
  have heffect := effect_of_step hs
  refine ⟨heffect.wf h.wf, fun fd => ?_⟩
  rcases h.held fd with hattended | ⟨w, hw⟩
  · exact (heffect.disarmed fd hattended).imp_right fun hholds => ⟨_, hholds⟩
  · by_cases hworker : w = a.worker
    · subst hworker
      exact (heffect.stepsTo (h.wf _) hw).imp_right fun hnext => ⟨_, hnext.1⟩
    · right
      refine ⟨w, ?_⟩
      rw [heffect.others w hworker]
      exact hw

/-- A worker with an unfinished event is in a call that blocks, or not stuck. -/
theorem exists_step (hwf : (s.workers w).WF) {fd : Nat} (hfd : (s.workers w).Holds fd) :
    (s.workers w).Blocked ∨
      ∃ a : Action ω, a.worker = w ∧ a.pauses = false ∧ (s.step a).isSome := by
  obtain ⟨ev, batch, hbatch⟩ : ∃ ev batch, (s.workers w).batch = ev :: batch := by
    obtain ⟨ev, hev, -⟩ := hfd
    cases hb : (s.workers w).batch with
    | nil =>
      rw [hb] at hev
      cases hev
    | cons ev batch => exact ⟨ev, batch, rfl⟩
  cases hstage : (s.workers w).stage with
  | waiting => exact Or.inr ⟨.process w, rfl, rfl, by simp [Poll.step, hstage, hbatch]⟩
  | read => exact Or.inr ⟨.dispatch w, rfl, rfl, by simp [Poll.step, hstage, hbatch]⟩
  | write => exact Or.inr ⟨.dispatch w, rfl, rfl, by simp [Poll.step, hstage, hbatch]⟩
  | rearm => exact Or.inr ⟨.modifyEvent w, rfl, rfl, by simp [Poll.step, hstage, hbatch]⟩
  | stopped =>
    rw [hwf.stopped hstage] at hbatch
    cases hbatch
  | inside e o k =>
    cases k with
    | body => exact Or.inr ⟨.leave w, rfl, rfl, by simp [Poll.step, hstage]⟩
    | blocked => exact Or.inl ⟨e, o, hstage⟩
    | accepted id => exact Or.inr ⟨.reject w, rfl, rfl, by simp [Poll.step, hstage]⟩
    | unregistered =>
      obtain ⟨c, rfl⟩ := hwf.unregistered e o hstage
      exact Or.inr ⟨.close w, rfl, rfl, by simp [Poll.step, hstage]⟩

theorem watched_of_reachable {listenFd : Nat} (h : Reachable step (new listenFd) s) : s.Watched :=
  h.invariant (watched_new listenFd) fun _ _ _ h _ hs => h.step hs

/-- The worker has an unfinished event with the number, and goes on with it: it is
in a call that blocks, or not stuck, and in every run in which it takes 71 more
steps, between any steps of the others, the descriptor is armed or unregistered. -/
def Tends (s : Poll ω) (w : ω) (fd : Nat) : Prop :=
  (s.workers w).Holds fd ∧
    ((s.workers w).Blocked ∨
      ∃ a : Action ω, a.worker = w ∧ a.pauses = false ∧ (s.step a).isSome) ∧
    ∀ as s', run step s as = some s' →
      71 ≤ as.countP (fun a => a.worker = w ∧ a.pauses = false) →
      Passes step (fun _ _ => True) (Attended · fd) s as

theorem Watched.exists_tends (h : s.Watched) {fd : Nat} {o : Owner}
    (hfd : s.epoll fd = some (o, false)) : ∃ w, s.Tends w fd := by
  obtain ⟨w, hw⟩ := (h.held fd).resolve_left fun hattended => hattended o hfd
  refine ⟨w, hw, exists_step (h.wf w) hw, fun as s' hr hcount => ?_⟩
  have hrank := PollWorker.stepsTo_le (h.wf w) hw
  refine passes_of_rank (fun a => a.worker = w ∧ a.pauses = false)
    (fun s => (∀ w, (s.workers w).WF) ∧ (s.workers w).Holds fd)
    (fun s => (s.workers w).stepsTo fd) ?_ ?_ ⟨h.wf, hw⟩ hr (by omega)
  · rintro s a s' ⟨hwf, hholds⟩ - hmine hs
    obtain ⟨rfl, hpauses⟩ : a.worker = w ∧ a.pauses = false := of_decide_eq_true hmine
    have heffect := effect_of_step hs
    refine (heffect.stepsTo (hwf _) hholds).imp_right fun ⟨hnext, hlt⟩ => ?_
    rw [hpauses] at hlt
    exact ⟨⟨heffect.wf hwf, hnext⟩, hlt⟩
  · rintro s a s' ⟨hwf, hholds⟩ - hother hs
    have heffect := effect_of_step hs
    by_cases hworker : a.worker = w
    · subst hworker
      refine (heffect.stepsTo (hwf _) hholds).imp_right fun ⟨hnext, hle⟩ => ?_
      exact ⟨⟨heffect.wf hwf, hnext⟩, Nat.le_trans (Nat.le_add_right ..) hle⟩
    · right
      rw [heffect.others w (Ne.symm hworker)]
      exact ⟨⟨heffect.wf hwf, hholds⟩, Nat.le_refl _⟩

/-- In every run: a registered descriptor that is disarmed is in the hands of a
worker that goes on with it. -/
theorem rearmed_of_reachable {listenFd : Nat} (h : Reachable step (new listenFd) s) {fd : Nat}
    {o : Owner} (hfd : s.epoll fd = some (o, false)) : ∃ w, s.Tends w fd :=
  (watched_of_reachable h).exists_tends hfd

/-- The other worker is in the read callback of a connection, and blocked, and a
third one has left `poll`. -/
theorem rearmed_of_reachable_read_callback :
    ∃ s : Poll (Fin 3), (s.epoll 5 = some (.connection 0, false) ∧
      (s.workers 1).stage = .inside .E_READ (.connection 0) .blocked ∧
      (s.workers 2).stage = .stopped) ∧ ∃ w, s.Tends w 5 := by
  obtain ⟨s, hs, hP⟩ : ∃ s : Poll (Fin 3), Reachable step (new 3) s ∧
      (s.epoll 5 = some (.connection 0, false) ∧
        (s.workers 1).stage = .inside .E_READ (.connection 0) .blocked ∧
        (s.workers 2).stage = .stopped) :=
    exists_reachable_of_run
      [.stop 2, .report 0 3 true false, .process 0, .dispatch 0, .accept 0 5, .register 0,
        .dispatch 0, .modifyEvent 0, .report 1 5 true true, .process 1, .dispatch 1, .block 1]
      (by decide +kernel)
  exact ⟨s, hP, rearmed_of_reachable hs hP.1⟩

/-! ## The listener -/

/-- The invariant.  The numbers of the connections differ from the one of the
listener, which stays open. -/
structure ListenerInv (listenFd : Nat) (s : Poll ω) : Prop where
  opened : s.openFds listenFd = true
  registered : ∃ armed, s.epoll listenFd = some (.listener, armed)
  callback : ∀ e, e ≠ .E_RW → s.callbackMap (listenFd, e) = some .listener
  fds : ∀ id, id < s.next → s.fds id ≠ listenFd
  known : ∀ key id, s.callbackMap key = some (.connection id) → id < s.next
  target : ∀ w id, (s.workers w).target = some (.connection id) → id < s.next
  accepted : ∀ w id, (s.workers w).accepted = some id → id < s.next

variable {listenFd : Nat}

omit [DecidableEq ω] in
theorem listenerInv_new (listenFd : Nat) : (new listenFd : Poll ω).ListenerInv listenFd where
  opened := decide_eq_true rfl
  registered := ⟨true, if_pos rfl⟩
  callback _ he := if_pos ⟨rfl, he⟩
  fds _ hid := absurd hid (Nat.not_lt_zero _)
  known _ _ hkey := by
    simp only [new] at hkey
    split at hkey <;> cases hkey
  target := nofun
  accepted := nofun

omit [DecidableEq ω] in
/-- Another descriptor is forgotten. -/
theorem ListenerInv.forget (h : s.ListenerInv listenFd) (hf : Forgets s s')
    (hopened : s'.openFds listenFd = s.openFds listenFd)
    (hepoll : s'.epoll listenFd = s.epoll listenFd)
    (hcallback : ∀ e, s'.callbackMap (listenFd, e) = s.callbackMap (listenFd, e)) :
    s'.ListenerInv listenFd where
  opened := hopened.trans h.opened
  registered := hepoll ▸ h.registered
  callback e he := (hcallback e).trans (h.callback e he)
  fds := by
    rw [hf.fds, hf.next]
    exact h.fds
  known key id hkey := by
    rw [hf.next]
    exact h.known key id (hf.callback_some hkey)
  target := by
    rw [hf.workers, hf.next]
    exact h.target
  accepted := by
    rw [hf.workers, hf.next]
    exact h.accepted

omit [DecidableEq ω] in
theorem ListenerInv.unregisterIo (h : s.ListenerInv listenFd) {fd : Nat} (hfd : fd ≠ listenFd) :
    (s.unregisterIo fd).ListenerInv listenFd := by
  refine h.forget (forgets_unregisterIo s fd) ?_ ?_ fun e => ?_
  · unfold Poll.unregisterIo
    split <;> rfl
  · unfold Poll.unregisterIo
    split
    · exact Function.update_of_ne hfd.symm ..
    · rfl
  · unfold Poll.unregisterIo
    split
    · exact if_neg hfd.symm
    · rfl

omit [DecidableEq ω] in
theorem ListenerInv.closeFd (h : s.ListenerInv listenFd) {fd : Nat} (hfd : fd ≠ listenFd) :
    (s.closeFd fd).ListenerInv listenFd :=
  h.forget (forgets_closeFd s fd) (Function.update_of_ne hfd.symm ..)
    (Function.update_of_ne hfd.symm ..) fun _ => rfl

omit [DecidableEq ω] in
/-- The number of a new connection is not in use. -/
theorem ListenerInv.accept (h : s.ListenerInv listenFd) {fd : Nat} (hfd : s.openFds fd = false) :
    (s.accept fd).ListenerInv listenFd := by
  have hne : fd ≠ listenFd := by
    rintro rfl
    exact absurd (h.opened.symm.trans hfd) (by decide)
  have hlt : ∀ {id}, id < s.next → id < (s.accept fd).next := fun hid => Nat.lt_succ_of_lt hid
  refine ⟨?_, h.registered, h.callback, fun id hid => ?_,
    fun key id hkey => hlt (h.known key id hkey), fun w id ht => hlt (h.target w id ht),
    fun w id ha => hlt (h.accepted w id ha)⟩
  · show Function.update s.openFds fd true listenFd = true
    rw [Function.update_of_ne hne.symm]
    exact h.opened
  · show Function.update s.fds s.next fd id ≠ listenFd
    by_cases hnew : id = s.next
    · rw [hnew, Function.update_self]
      exact hne
    · rw [Function.update_of_ne hnew]
      exact h.fds id (Nat.lt_of_le_of_ne (Nat.le_of_lt_succ hid) hnew)

omit [DecidableEq ω] in
theorem ListenerInv.registerIo (h : s.ListenerInv listenFd) {id : Nat} (hid : id < s.next) :
    (s.registerIo (s.fds id) (.connection id)).ListenerInv listenFd := by
  have hne : listenFd ≠ s.fds id := (h.fds id hid).symm
  refine ⟨h.opened, ?_, fun e he => ?_, h.fds, fun key id' hkey => ?_, h.target, h.accepted⟩
  · show ∃ armed, Function.update s.epoll (s.fds id) _ listenFd = _
    rw [Function.update_of_ne hne]
    exact h.registered
  · exact (if_neg fun hkey => hne hkey.1).trans (h.callback e he)
  · change (if _ then _ else _) = _ at hkey
    split at hkey
    · cases hkey
      exact hid
    · exact h.known key id' hkey

omit [DecidableEq ω] in
/-- A registered descriptor is armed or disarmed. -/
theorem ListenerInv.setArmed (h : s.ListenerInv listenFd) {fd : Nat} {o : Owner} {armed : Bool}
    (hepoll : s.epoll fd = some (o, armed)) (armed' : Bool) :
    ({ s with epoll := Function.update s.epoll fd (some (o, armed')) } : Poll ω).ListenerInv
      listenFd := by
  refine { h with registered := ?_ }
  by_cases hfd : listenFd = fd
  · subst hfd
    obtain ⟨armed₀, hlistener⟩ := h.registered
    rw [hepoll] at hlistener
    cases hlistener
    exact ⟨armed', Function.update_self ..⟩
  · obtain ⟨armed₀, hlistener⟩ := h.registered
    exact ⟨armed₀, (Function.update_of_ne hfd ..).trans hlistener⟩

omit [DecidableEq ω] in
theorem ListenerInv.modifyEvent (h : s.ListenerInv listenFd) (ev : EpollEvent) :
    (s.modifyEvent ev).ListenerInv listenFd := by
  unfold Poll.modifyEvent
  split
  · rename_i o armed hepoll
    exact { h.setArmed hepoll true with }
  · exact h

theorem ListenerInv.setWorker (h : s.ListenerInv listenFd) {p : PollWorker}
    (htarget : ∀ id, p.target = some (.connection id) → id < s.next)
    (haccepted : ∀ id, p.accepted = some id → id < s.next) :
    (s.setWorker w p).ListenerInv listenFd := by
  refine { h with target := ?_, accepted := ?_ }
  · exact (Function.forall_update_iff s.workers fun _ p => ∀ id, p.target = some (.connection id) →
      id < s.next).mpr ⟨htarget, fun w' _ => h.target w'⟩
  · exact (Function.forall_update_iff s.workers fun _ p => ∀ id, p.accepted = some id →
      id < s.next).mpr ⟨haccepted, fun w' _ => h.accepted w'⟩

/-- The worker goes on, outside the callbacks. -/
theorem ListenerInv.set_outside (h : s.ListenerInv listenFd) {batch : List EpollEvent}
    {stage : Stage} (hstage : ∀ e o k, stage ≠ .inside e o k) :
    (s.setWorker w ⟨batch, stage⟩).ListenerInv listenFd := by
  cases stage with
  | inside e o k => exact absurd rfl (hstage e o k)
  | _ => exact h.setWorker nofun nofun

theorem behind_ne_inside (e e' : IoEvent) (o : Owner) (k : Callback) :
    Stage.behind e ≠ .inside e' o k := by
  cases e <;> exact nofun

/-- Between two places of a callback, the owner stays. -/
theorem ListenerInv.goto_inside (h : s.ListenerInv listenFd) {e : IoEvent} {o : Owner}
    {k k' : Callback} (hw : (s.workers w).stage = .inside e o k)
    (haccepted : ∀ id, k' = .accepted id → id < s.next) :
    (s.goto w (.inside e o k')).ListenerInv listenFd := by
  refine h.setWorker (fun id hid => ?_) fun id hid => ?_
  · cases hid
    exact h.target w id (by rw [PollWorker.target, hw])
  · cases k' with
    | accepted id' =>
      cases hid
      exact haccepted id rfl
    | body => cases hid
    | blocked => cases hid
    | unregistered => cases hid

theorem ListenerInv.responseEvent (h : s.ListenerInv listenFd) (ev : EpollEvent) (e : IoEvent) :
    (s.responseEvent w ev e).ListenerInv listenFd := by
  unfold Poll.responseEvent
  split
  · rename_i target htarget
    have hgoto : (s.goto w (.inside e target .body)).ListenerInv listenFd := by
      refine h.setWorker (fun id hid => ?_) nofun
      cases hid
      exact h.known _ id htarget
    exact { hgoto with }
  · exact h.set_outside (behind_ne_inside e)

theorem ListenerInv.step (h : s.ListenerInv listenFd) {a : Action ω} (hs : s.step a = some s') :
    s'.ListenerInv listenFd := by
  cases a with
  | report w fd epollIn epollOut =>
    simp only [Poll.step] at hs
    split at hs
    · rename_i o _ hepoll
      split at hs
      · cases hs
        have hset : (s.setWorker w ⟨(s.workers w).batch ++ [⟨fd, epollIn, epollOut, o⟩],
            .waiting⟩).ListenerInv listenFd := h.set_outside (by simp)
        exact { h.setArmed hepoll false with target := hset.target, accepted := hset.accepted }
      · cases hs
    · cases hs
  | process w =>
    simp only [Poll.step] at hs
    split at hs
    · cases hs
      exact h.set_outside (by simp)
    · cases hs
  | stop w =>
    simp only [Poll.step] at hs
    split at hs
    · cases hs
      exact h.set_outside (by simp)
    · cases hs
  | dispatch w =>
    simp only [Poll.step] at hs
    split at hs
    · cases hs
      split
      · exact h.responseEvent _ _
      · exact h.set_outside (by simp)
    · cases hs
      split
      · exact h.responseEvent _ _
      · exact h.set_outside (by simp)
    · cases hs
  | block w | unblock w =>
    simp only [Poll.step] at hs
    split at hs
    · rename_i hw
      cases hs
      exact h.goto_inside hw (by simp)
    · cases hs
  | leave w =>
    simp only [Poll.step] at hs
    split at hs
    · cases hs
      exact h.set_outside (behind_ne_inside _)
    · cases hs
  | unregister w =>
    simp only [Poll.step] at hs
    split at hs
    · rename_i c hw
      cases hs
      have hc : c < s.next := h.target w c (by rw [PollWorker.target, hw])
      split
      · exact h.goto_inside hw (by simp)
      · exact (h.unregisterIo (h.fds c hc)).goto_inside
          ((forgets_unregisterIo s (s.fds c)).workers ▸ hw) (by simp)
    · cases hs
  | close w =>
    simp only [Poll.step] at hs
    split at hs
    · rename_i e c hw
      cases hs
      have hc : c < s.next := h.target w c (by rw [PollWorker.target, hw])
      apply ListenerInv.set_outside _ (behind_ne_inside e)
      split
      · exact { h with }
      · exact { h.closeFd (h.fds c hc) with }
    · cases hs
  | accept w fd =>
    simp only [Poll.step] at hs
    split at hs
    · rename_i e hw
      split at hs
      · cases hs
      · rename_i hfree
        have hfd : s.openFds fd = false := Bool.eq_false_iff.mpr hfree
        split at hs
        · cases hs
          have hw' : ((s.accept fd).workers w).stage = .inside e .listener .body := hw
          refine (h.accept hfd).goto_inside hw' fun id hid => ?_
          cases hid
          exact Nat.lt_succ_self s.next
        · cases hs
          apply ListenerInv.set_outside _ (behind_ne_inside e)
          refine { h with opened := ?_ }
          show Function.update s.openFds fd true listenFd = true
          rw [Function.update_apply, h.opened, ite_self]
    · cases hs
  | reject w =>
    simp only [Poll.step] at hs
    split at hs
    · rename_i e o id hw
      cases hs
      have hid : id < s.next := h.accepted w id (by rw [PollWorker.accepted, hw])
      exact (h.closeFd (h.fds id hid)).set_outside (behind_ne_inside e)
    · cases hs
  | register w =>
    simp only [Poll.step] at hs
    split at hs
    · rename_i e o id hw
      split at hs
      · cases hs
        have hid : id < s.next := h.accepted w id (by rw [PollWorker.accepted, hw])
        exact (h.registerIo hid).set_outside (behind_ne_inside e)
      · cases hs
    · cases hs
  | registerFails w =>
    simp only [Poll.step] at hs
    split at hs
    · rename_i e o id hw
      cases hs
      have hid : id < s.next := h.accepted w id (by rw [PollWorker.accepted, hw])
      apply ListenerInv.set_outside _ (behind_ne_inside e)
      exact { (h.unregisterIo (h.fds id hid)).closeFd (h.fds id hid) with }
    · cases hs
  | modifyEvent w =>
    simp only [Poll.step] at hs
    split at hs
    · rename_i ev batch hstage hbatch
      cases hs
      refine (h.modifyEvent ev).set_outside fun e o k => ?_
      split <;> simp
    · cases hs

/-- In every run: the listener keeps its callbacks and stays registered.  It is
armed, or in the hands of a worker that goes on with it, and then armed again. -/
theorem listener_armed_of_reachable (h : Reachable step (new listenFd) s) :
    (∀ e, e ≠ .E_RW → s.callbackMap (listenFd, e) = some .listener) ∧
      (s.epoll listenFd = some (.listener, true) ∨
        ∃ w, s.Tends w listenFd ∧ ∀ as s', run step s as = some s' →
          71 ≤ as.countP (fun a => a.worker = w ∧ a.pauses = false) →
          Passes step (fun _ _ => True) (·.epoll listenFd = some (.listener, true)) s as) := by
  have hinv : ∀ {s : Poll ω}, Reachable step (new listenFd) s → s.ListenerInv listenFd :=
    fun h => h.invariant (listenerInv_new listenFd) fun _ _ _ h _ hs => h.step hs
  refine ⟨(hinv h).callback, ?_⟩
  obtain ⟨armed, hepoll⟩ := (hinv h).registered
  cases armed with
  | true => exact Or.inl hepoll
  | false =>
    obtain ⟨w, htends⟩ := (watched_of_reachable h).exists_tends hepoll
    refine Or.inr ⟨w, htends, fun as s' hr hcount => ?_⟩
    obtain ⟨bs, cs, s₁, heq, hr₁, hattended⟩ := htends.2.2 as s' hr hcount
    refine ⟨bs, cs, s₁, heq, hr₁, ?_⟩
    obtain ⟨armed, hepoll₁⟩ := (hinv (h.runIf hr₁)).registered
    cases armed with
    | true => exact hepoll₁
    | false => exact absurd hepoll₁ (hattended .listener)

/-- A connection is closed, and the next one gets its number while a worker
still has an event with it. -/
theorem listener_armed_of_reachable_reused_number :
    ∃ s : Poll (Fin 2), (.connection 0, .connection 1) ∈ s.dispatched ∧
      (∀ e, e ≠ .E_RW → s.callbackMap (3, e) = some .listener) ∧
        (s.epoll 3 = some (.listener, true) ∨
          ∃ w, s.Tends w 3 ∧ ∀ as s', run step s as = some s' →
            71 ≤ as.countP (fun a => a.worker = w ∧ a.pauses = false) →
            Passes step (fun _ _ => True) (·.epoll 3 = some (.listener, true)) s as) := by
  obtain ⟨s, hs, hP⟩ : ∃ s : Poll (Fin 2), Reachable step (new 3) s ∧
      (.connection 0, .connection 1) ∈ s.dispatched :=
    exists_reachable_of_run
      [.report 0 3 true false, .process 0, .dispatch 0, .accept 0 5, .register 0, .dispatch 0,
        .modifyEvent 0, .report 1 5 true true, .process 1, .dispatch 1, .unregister 1, .close 1,
        .report 0 3 true false, .process 0, .dispatch 0, .accept 0 5, .register 0, .dispatch 1]
      (by decide +kernel)
  exact ⟨s, hP, listener_armed_of_reachable hs⟩

end Poll

end CppRpc
