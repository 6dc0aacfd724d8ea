import CppRpc.Lib.Runs
import CppRpc.Server.Poll

/-!
# One-shot events on the server

`poll` uses the number of a descriptor from the report of an event to its
`modify_event`, without asking whose it is by then.

`Exclusive` is the property: at most one worker is inside the callbacks of one
owner, and no event is dispatched to another owner than the one it was reported
for, nor arms another one.  It fails when a number is registered anew while a
worker still has an event with it.  `NoReuse` excludes this,
`exclusive_of_noReuse` is the result, and `event_reaches_other_connection` a
run that reuses a number too early.

The invariant ties an unfinished event to the owner it was reported for: the
owner still has the number, and whatever epoll and the map hold for it belongs
to this owner.  The steps of the kernel come first, those of a worker after
them.
-/

namespace CppRpc

open Runs

namespace Poll

variable {ω : Type}

/-- The property. -/
def Exclusive (s : Poll ω) : Prop :=
  (∀ w w', ∀ o ∈ (s.workers w).target, (s.workers w').target = some o → w = w') ∧
    (∀ p ∈ s.dispatched, p.1 = p.2) ∧ ∀ p ∈ s.rearmed, p.1 = p.2

/-- The condition on the state before a step: a connection is registered only
when no worker has an unfinished event with the number of its descriptor. -/
def NoReuse (s : Poll ω) : Action ω → Prop
  | .register w => ∀ id ∈ (s.workers w).accepted, ∀ w', ∀ ev ∈ (s.workers w').batch,
      ev.fd ≠ s.fds id
  | _ => True

/-! ## The invariant -/

/-- The number of the descriptor of an owner. -/
def fdOf (listenFd : Nat) (s : Poll ω) : Owner → Nat
  | .listener => listenFd
  | .connection id => s.fds id

/-- The owner exists. -/
def Known (s : Poll ω) : Owner → Prop
  | .listener => True
  | .connection id => id < s.next

/-- An unfinished event: its descriptor still belongs to its origin, if to
anybody, and is not armed. -/
structure EventOk (listenFd : Nat) (s : Poll ω) (ev : EpollEvent) : Prop where
  fd_eq : s.fdOf listenFd ev.origin = ev.fd
  known : s.Known ev.origin
  epoll : ∀ o armed, s.epoll ev.fd = some (o, armed) → o = ev.origin ∧ armed = false
  callback : ∀ e o, e ≠ .E_RW → s.callbackMap (ev.fd, e) = some o → o = ev.origin

/-- The invariant. -/
structure Inv (listenFd : Nat) (s : Poll ω) : Prop where
  owner : ∀ fd o armed, s.epoll fd = some (o, armed) → s.fdOf listenFd o = fd ∧ s.Known o
  callback : ∀ fd e o o' armed, e ≠ .E_RW → s.epoll fd = some (o, armed) →
    s.callbackMap (fd, e) = some o' → o' = o
  events : ∀ w, ∀ ev ∈ (s.workers w).batch, s.EventOk listenFd ev
  distinct : ∀ w, ((s.workers w).batch.map EpollEvent.fd).Nodup
  disjoint : ∀ w w', ∀ ev ∈ (s.workers w).batch, ∀ ev' ∈ (s.workers w').batch,
    ev.fd = ev'.fd → w = w'
  inside : ∀ w, ∀ o ∈ (s.workers w).target, ∃ ev batch,
    (s.workers w).batch = ev :: batch ∧ ev.origin = o
  accepted : ∀ w, ∀ id ∈ (s.workers w).accepted, id < s.next
  dispatched : ∀ p ∈ s.dispatched, p.1 = p.2
  rearmed : ∀ p ∈ s.rearmed, p.1 = p.2

variable {listenFd : Nat} {s s' : Poll ω} {w : ω}

theorem inv_new : (new listenFd : Poll ω).Inv listenFd where
  owner := by
    intro fd o armed h
    simp only [new] at h
    split at h
    · rename_i hfd
      obtain ⟨rfl, -⟩ := Prod.mk.inj (Option.some.inj h)
      exact ⟨hfd.symm, trivial⟩
    · cases h
  callback := by
    intro fd e o o' armed _ h h'
    simp only [new] at h h'
    split at h
    · split at h'
      · obtain ⟨rfl, -⟩ := Prod.mk.inj (Option.some.inj h)
        exact (Option.some.inj h').symm
      · cases h'
    · cases h
  events := fun _ _ h => absurd h List.not_mem_nil
  distinct := fun _ => List.nodup_nil
  disjoint := fun _ _ _ h => absurd h List.not_mem_nil
  inside := fun _ _ h => by cases h
  accepted := fun _ _ h => by cases h
  dispatched := fun _ h => absurd h List.not_mem_nil
  rearmed := fun _ h => absurd h List.not_mem_nil

/-- Two workers inside the callbacks of one owner have an event with one
number, so they are the same worker. -/
theorem Inv.exclusive (h : s.Inv listenFd) : s.Exclusive := by
  refine ⟨fun w w' o ho ho' => ?_, h.dispatched, h.rearmed⟩
  obtain ⟨ev, batch, hbatch, horigin⟩ := h.inside w o ho
  obtain ⟨ev', batch', hbatch', horigin'⟩ := h.inside w' o ho'
  have hev : ev ∈ (s.workers w).batch := hbatch ▸ List.mem_cons_self ..
  have hev' : ev' ∈ (s.workers w').batch := hbatch' ▸ List.mem_cons_self ..
  have hfd : ev.fd = ev'.fd := by
    rw [← (h.events w ev hev).fd_eq, ← (h.events w' ev' hev').fd_eq, horigin, horigin']
  exact h.disjoint w w' ev hev ev' hev' hfd

/-! ## Steps of the kernel -/

/-- Descriptors and callbacks are forgotten, and nothing else changes. -/
structure Forgets (s s' : Poll ω) : Prop where
  epoll : ∀ fd, s'.epoll fd = s.epoll fd ∨ s'.epoll fd = none
  callbackMap : ∀ key, s'.callbackMap key = s.callbackMap key ∨ s'.callbackMap key = none
  fds : s'.fds = s.fds
  next : s'.next = s.next
  workers : s'.workers = s.workers
  dispatched : s'.dispatched = s.dispatched
  rearmed : s'.rearmed = s.rearmed

theorem Forgets.epoll_some (h : Forgets s s') {fd : Nat} {x : Owner × Bool}
    (hx : s'.epoll fd = some x) : s.epoll fd = some x := by
  rcases h.epoll fd with he | he
  · rw [← he]
    exact hx
  · rw [he] at hx
    cases hx

theorem Forgets.callback_some (h : Forgets s s') {key : Nat × IoEvent} {o : Owner}
    (ho : s'.callbackMap key = some o) : s.callbackMap key = some o := by
  rcases h.callbackMap key with he | he
  · rw [← he]
    exact ho
  · rw [he] at ho
    cases ho

theorem Forgets.fdOf_eq (h : Forgets s s') (o : Owner) :
    s'.fdOf listenFd o = s.fdOf listenFd o := by
  cases o with
  | listener => rfl
  | connection id => exact congrFun h.fds id

theorem Forgets.known_iff (h : Forgets s s') (o : Owner) : s'.Known o ↔ s.Known o := by
  cases o with
  | listener => exact Iff.rfl
  | connection id =>
    show id < s'.next ↔ id < s.next
    rw [h.next]

theorem Forgets.inv (hf : Forgets s s') (h : s.Inv listenFd) : s'.Inv listenFd where
  owner := by
    intro fd o armed he
    obtain ⟨hfd, hknown⟩ := h.owner fd o armed (hf.epoll_some he)
    exact ⟨(hf.fdOf_eq o).trans hfd, (hf.known_iff o).mpr hknown⟩
  callback := fun fd e o o' armed hrw he hc =>
    h.callback fd e o o' armed hrw (hf.epoll_some he) (hf.callback_some hc)
  events := by
    intro w ev hev
    rw [hf.workers] at hev
    have hok := h.events w ev hev
    exact ⟨(hf.fdOf_eq _).trans hok.fd_eq, (hf.known_iff _).mpr hok.known,
      fun o armed he => hok.epoll o armed (hf.epoll_some he),
      fun e o hrw hc => hok.callback e o hrw (hf.callback_some hc)⟩
  distinct := by
    rw [hf.workers]
    exact h.distinct
  disjoint := by
    rw [hf.workers]
    exact h.disjoint
  inside := by
    rw [hf.workers]
    exact h.inside
  accepted := by
    rw [hf.workers, hf.next]
    exact h.accepted
  dispatched := by
    rw [hf.dispatched]
    exact h.dispatched
  rearmed := by
    rw [hf.rearmed]
    exact h.rearmed

theorem forgets_unregisterIo (s : Poll ω) (fd : Nat) : Forgets s (s.unregisterIo fd) := by
  unfold unregisterIo
  split
  · refine ⟨fun fd' => ?_, fun key => ?_, rfl, rfl, rfl, rfl, rfl⟩
    · by_cases hfd : fd' = fd
      · exact Or.inr (by rw [hfd]; exact Function.update_self ..)
      · exact Or.inl (Function.update_of_ne hfd ..)
    · by_cases hkey : key.1 = fd
      · exact Or.inr (if_pos hkey)
      · exact Or.inl (if_neg hkey)
  · exact ⟨fun _ => Or.inl rfl, fun _ => Or.inl rfl, rfl, rfl, rfl, rfl, rfl⟩

theorem forgets_closeFd (s : Poll ω) (fd : Nat) : Forgets s (s.closeFd fd) := by
  refine ⟨fun fd' => ?_, fun _ => Or.inl rfl, rfl, rfl, rfl, rfl, rfl⟩
  by_cases hfd : fd' = fd
  · exact Or.inr (by rw [hfd]; exact Function.update_self ..)
  · exact Or.inl (Function.update_of_ne hfd ..)

theorem forgets_setClosed (s : Poll ω) (closed : Nat → Bool) : Forgets s { s with closed } :=
  ⟨fun _ => Or.inl rfl, fun _ => Or.inl rfl, rfl, rfl, rfl, rfl, rfl⟩

theorem forgets_setOpenFds (s : Poll ω) (openFds : Nat → Bool) : Forgets s { s with openFds } :=
  ⟨fun _ => Or.inl rfl, fun _ => Or.inl rfl, rfl, rfl, rfl, rfl, rfl⟩

/-- A number that no unfinished event has is registered. -/
theorem Inv.registerIo (h : s.Inv listenFd) {id : Nat} (hid : id < s.next)
    (hfree : ∀ w, ∀ ev ∈ (s.workers w).batch, ev.fd ≠ s.fds id) :
    (s.registerIo (s.fds id) (.connection id)).Inv listenFd where
  owner := by
    intro fd o armed he
    change Function.update s.epoll (s.fds id) _ fd = _ at he
    by_cases hfd : fd = s.fds id
    · subst hfd
      rw [Function.update_self] at he
      obtain ⟨rfl, -⟩ := Prod.mk.inj (Option.some.inj he)
      exact ⟨rfl, hid⟩
    · rw [Function.update_of_ne hfd] at he
      exact h.owner fd o armed he
  callback := by
    intro fd e o o' armed hrw he hc
    change Function.update s.epoll (s.fds id) _ fd = _ at he
    change (if fd = s.fds id ∧ e ≠ .E_RW then _ else _) = _ at hc
    by_cases hfd : fd = s.fds id
    · subst hfd
      rw [Function.update_self] at he
      rw [if_pos ⟨rfl, hrw⟩] at hc
      obtain ⟨rfl, -⟩ := Prod.mk.inj (Option.some.inj he)
      exact (Option.some.inj hc).symm
    · rw [Function.update_of_ne hfd] at he
      rw [if_neg (fun hand => hfd hand.1)] at hc
      exact h.callback fd e o o' armed hrw he hc
  events := by
    intro w ev hev
    have hok := h.events w ev hev
    have hne := hfree w ev hev
    refine ⟨hok.fd_eq, hok.known, fun o armed he => ?_, fun e o hrw hc => ?_⟩
    · change Function.update s.epoll (s.fds id) _ ev.fd = _ at he
      rw [Function.update_of_ne hne] at he
      exact hok.epoll o armed he
    · change (if ev.fd = s.fds id ∧ e ≠ .E_RW then _ else _) = _ at hc
      rw [if_neg (fun hand => hne hand.1)] at hc
      exact hok.callback e o hrw hc
  distinct := h.distinct
  disjoint := h.disjoint
  inside := h.inside
  accepted := h.accepted
  dispatched := h.dispatched
  rearmed := h.rearmed

/-- A connection is accepted, with any number. -/
theorem Inv.accept (h : s.Inv listenFd) (fd : Nat) : (s.accept fd).Inv listenFd := by
  -- The connections that exist keep their numbers.
  have hfd : ∀ o, s.Known o → (s.accept fd).fdOf listenFd o = s.fdOf listenFd o := by
    intro o ho
    cases o with
    | listener => rfl
    | connection id => exact Function.update_of_ne (Nat.ne_of_lt ho) ..
  have hknown : ∀ o, s.Known o → (s.accept fd).Known o := by
    intro o ho
    cases o with
    | listener => trivial
    | connection id => exact Nat.lt_succ_of_lt ho
  refine ⟨fun fd' o armed he => ?_, h.callback, fun w ev hev => ?_, h.distinct, h.disjoint,
    h.inside, fun w id hid => Nat.lt_succ_of_lt (h.accepted w id hid), h.dispatched, h.rearmed⟩
  · obtain ⟨ho, hk⟩ := h.owner fd' o armed he
    exact ⟨(hfd o hk).trans ho, hknown o hk⟩
  · have hok := h.events w ev hev
    exact ⟨(hfd _ hok.known).trans hok.fd_eq, hknown _ hok.known, hok.epoll, hok.callback⟩

/-- A registered descriptor is armed, when no unfinished event has it, or
disarmed. -/
theorem Inv.setArmed (h : s.Inv listenFd) {fd : Nat} {o : Owner} {armed : Bool}
    (hepoll : s.epoll fd = some (o, armed)) {armed' : Bool}
    (hfree : armed' = true → ∀ w, ∀ ev ∈ (s.workers w).batch, ev.fd ≠ fd) :
    ({ s with epoll := Function.update s.epoll fd (some (o, armed')) } : Poll ω).Inv listenFd := by
  have hold : ∀ fd' o' armed'', Function.update s.epoll fd (some (o, armed')) fd' =
      some (o', armed'') → ∃ armed₀, s.epoll fd' = some (o', armed₀) := by
    intro fd' o' armed'' he
    by_cases hfd : fd' = fd
    · subst hfd
      rw [Function.update_self] at he
      obtain ⟨rfl, -⟩ := Prod.mk.inj (Option.some.inj he)
      exact ⟨armed, hepoll⟩
    · rw [Function.update_of_ne hfd] at he
      exact ⟨armed'', he⟩
  refine { h with
    owner := fun fd' o' armed'' he => ?_
    callback := fun fd' e o' o'' armed'' hrw he hc => ?_
    events := fun w ev hev => ?_ }
  · obtain ⟨armed₀, he₀⟩ := hold fd' o' armed'' he
    exact h.owner fd' o' armed₀ he₀
  · obtain ⟨armed₀, he₀⟩ := hold fd' o' armed'' he
    exact h.callback fd' e o' o'' armed₀ hrw he₀ hc
  · have hok := h.events w ev hev
    refine ⟨hok.fd_eq, hok.known, fun o' armed'' he => ?_, hok.callback⟩
    obtain ⟨armed₀, he₀⟩ := hold ev.fd o' armed'' he
    refine ⟨(hok.epoll o' armed₀ he₀).1, ?_⟩
    change Function.update s.epoll fd (some (o, armed')) ev.fd = _ at he
    by_cases hfd : ev.fd = fd
    · rw [hfd, Function.update_self] at he
      obtain ⟨-, rfl⟩ := Prod.mk.inj (Option.some.inj he)
      exact Bool.eq_false_iff.mpr fun harmed => hfree harmed w ev hev hfd
    · rw [Function.update_of_ne hfd] at he
      exact (hok.epoll o' armed'' he).2

/-! ## Steps of a worker -/

variable [DecidableEq ω]

/-- A worker gets a new batch and stage, and the invariant holds for them. -/
theorem Inv.setWorker (h : s.Inv listenFd) {p : PollWorker}
    (hevents : ∀ ev ∈ p.batch, s.EventOk listenFd ev)
    (hdistinct : (p.batch.map EpollEvent.fd).Nodup)
    (hdisjoint : ∀ w', w' ≠ w → ∀ ev ∈ p.batch, ∀ ev' ∈ (s.workers w').batch, ev.fd ≠ ev'.fd)
    (hinside : ∀ o ∈ p.target, ∃ ev batch, p.batch = ev :: batch ∧ ev.origin = o)
    (haccepted : ∀ id ∈ p.accepted, id < s.next) : (s.setWorker w p).Inv listenFd := by
  have hcases : ∀ w', (w' = w ∧ (s.setWorker w p).workers w' = p) ∨
      (w' ≠ w ∧ (s.setWorker w p).workers w' = s.workers w') := by
    intro w'
    by_cases hw : w' = w
    · exact Or.inl ⟨hw, hw ▸ s.setWorker_self w p⟩
    · exact Or.inr ⟨hw, s.setWorker_of_ne p hw⟩
  refine ⟨h.owner, h.callback, fun w' ev hev => ?_, fun w' => ?_,
    fun w' w'' ev hev ev' hev' hfd => ?_, fun w' o ho => ?_, fun w' id hid => ?_, h.dispatched,
    h.rearmed⟩
  · have hok : s.EventOk listenFd ev := by
      rcases hcases w' with ⟨-, hw⟩ | ⟨-, hw⟩
      · exact hevents ev (hw ▸ hev)
      · exact h.events w' ev (hw ▸ hev)
    exact ⟨hok.fd_eq, hok.known, hok.epoll, hok.callback⟩
  · rcases hcases w' with ⟨-, hw⟩ | ⟨-, hw⟩
    · rw [hw]
      exact hdistinct
    · rw [hw]
      exact h.distinct w'
  · rcases hcases w' with ⟨rfl, hw⟩ | ⟨hne, hw⟩
    · rcases hcases w'' with ⟨rfl, -⟩ | ⟨hne', hw'⟩
      · rfl
      · exact absurd hfd (hdisjoint w'' hne' ev (hw ▸ hev) ev' (hw' ▸ hev'))
    · rcases hcases w'' with ⟨rfl, hw'⟩ | ⟨-, hw'⟩
      · exact absurd hfd.symm (hdisjoint w' hne ev' (hw' ▸ hev') ev (hw ▸ hev))
      · exact h.disjoint w' w'' ev (hw ▸ hev) ev' (hw' ▸ hev') hfd
  · rcases hcases w' with ⟨-, hw⟩ | ⟨-, hw⟩
    · rw [hw] at ho ⊢
      exact hinside o ho
    · rw [hw] at ho ⊢
      exact h.inside w' o ho
  · rcases hcases w' with ⟨-, hw⟩ | ⟨-, hw⟩
    · rw [hw] at hid
      exact haccepted id hid
    · rw [hw] at hid
      exact h.accepted w' id hid

/-- The worker goes on with the same event. -/
theorem Inv.goto (h : s.Inv listenFd) {stage : Stage}
    (hinside : ∀ o ∈ (PollWorker.mk (s.workers w).batch stage).target, ∃ ev batch,
      (s.workers w).batch = ev :: batch ∧ ev.origin = o)
    (haccepted : ∀ id ∈ (PollWorker.mk (s.workers w).batch stage).accepted, id < s.next) :
    (s.goto w stage).Inv listenFd :=
  h.setWorker (h.events w) (h.distinct w)
    (fun w' hne ev hev ev' hev' hfd => hne (h.disjoint w w' ev hev ev' hev' hfd).symm)
    hinside haccepted

/-- The worker goes on behind a callback. -/
theorem Inv.goto_behind (h : s.Inv listenFd) (e : IoEvent) :
    (s.goto w (Stage.behind e)).Inv listenFd := by
  apply h.goto
  · intro o ho
    cases e <;> cases ho
  · intro id hid
    cases e <;> cases hid

/-- An event goes to its origin, if it goes to anybody. -/
theorem Inv.responseEvent (h : s.Inv listenFd) {ev : EpollEvent} {batch : List EpollEvent}
    (hbatch : (s.workers w).batch = ev :: batch) {e : IoEvent} (he : e ≠ .E_RW) :
    (s.responseEvent w ev e).Inv listenFd := by
  unfold Poll.responseEvent
  split
  · rename_i target htarget
    have horigin : target = ev.origin :=
      (h.events w ev (hbatch ▸ List.mem_cons_self ..)).callback e target he htarget
    have hgoto : (s.goto w (.inside e target .body)).Inv listenFd := by
      apply h.goto
      · intro o ho
        cases ho
        exact ⟨ev, batch, hbatch, horigin.symm⟩
      · intro id hid
        cases hid
    refine { hgoto with
      events := fun w' ev' hev' => ?_
      dispatched := fun p hp => ?_ }
    · have hok := hgoto.events w' ev' hev'
      exact ⟨hok.fd_eq, hok.known, hok.epoll, hok.callback⟩
    · rcases List.mem_append.mp hp with hp | hp
      · exact h.dispatched p hp
      · obtain rfl := List.mem_singleton.mp hp
        exact horigin.symm
  · exact h.goto_behind e

/-- A descriptor that is armed has no unfinished event, so it may get one. -/
theorem Inv.report (h : s.Inv listenFd) {fd : Nat} {o : Owner}
    (hepoll : s.epoll fd = some (o, true)) (epollIn epollOut : Bool) :
    ({ s.setWorker w ⟨(s.workers w).batch ++ [⟨fd, epollIn, epollOut, o⟩], .waiting⟩ with
      epoll := Function.update s.epoll fd (some (o, false)) } : Poll ω).Inv listenFd := by
  have hfree : ∀ w', ∀ ev ∈ (s.workers w').batch, ev.fd ≠ fd := by
    intro w' ev hev hfd
    exact absurd ((h.events w' ev hev).epoll o true (hfd ▸ hepoll)).2 (by decide)
  have hdisarmed : ({ s with epoll := Function.update s.epoll fd (some (o, false)) } :
      Poll ω).Inv listenFd := h.setArmed hepoll fun hf => by cases hf
  obtain ⟨hfd, hknown⟩ := h.owner fd o true hepoll
  refine hdisarmed.setWorker (fun ev hev => ?_) ?_ (fun w' hne ev hev ev' hev' => ?_)
    (fun _ ho => by cases ho) (fun _ hid => by cases hid)
  · rcases List.mem_append.mp hev with hev | hev
    · exact hdisarmed.events w ev hev
    · obtain rfl := List.mem_singleton.mp hev
      refine ⟨hfd, hknown, fun o' armed he => ?_, fun e o' hrw hc => ?_⟩
      · change Function.update s.epoll fd (some (o, false)) fd = _ at he
        rw [Function.update_self] at he
        obtain ⟨rfl, rfl⟩ := Prod.mk.inj (Option.some.inj he)
        exact ⟨rfl, rfl⟩
      · exact h.callback fd e o o' true hrw hepoll hc
  · rw [List.map_append]
    refine List.nodup_append.mpr ⟨h.distinct w, List.nodup_cons.mpr
      ⟨List.not_mem_nil, List.nodup_nil⟩, fun a ha b hb hab => ?_⟩
    obtain ⟨ev, hev, rfl⟩ := List.mem_map.mp ha
    obtain rfl := List.mem_singleton.mp hb
    exact hfree w ev hev hab
  · rcases List.mem_append.mp hev with hev | hev
    · exact fun heq => hne (h.disjoint w w' ev hev ev' hev' heq).symm
    · obtain rfl := List.mem_singleton.mp hev
      exact fun heq => hfree w' ev' hev' heq.symm

/-- The worker arms the descriptor of its event, and is done with the event. -/
theorem Inv.modifyEvent (h : s.Inv listenFd) {ev : EpollEvent} {batch : List EpollEvent}
    (hbatch : (s.workers w).batch = ev :: batch) {stage : Stage}
    (hstage : (PollWorker.mk batch stage).target = none ∧
      (PollWorker.mk batch stage).accepted = none) :
    ((s.modifyEvent ev).setWorker w ⟨batch, stage⟩).Inv listenFd := by
  have hdistinct := h.distinct w
  rw [hbatch, List.map_cons, List.nodup_cons] at hdistinct
  have hrest : ∀ ev' ∈ batch, ev' ∈ (s.workers w).batch := fun ev' hev' =>
    hbatch ▸ List.mem_cons_of_mem ev hev'
  have hdone : (s.setWorker w ⟨batch, stage⟩).Inv listenFd := by
    refine h.setWorker (fun ev' hev' => h.events w ev' (hrest ev' hev')) hdistinct.2
      (fun w' hne ev' hev' ev'' hev'' hfd =>
        hne (h.disjoint w w' ev' (hrest ev' hev') ev'' hev'' hfd).symm)
      (fun o ho => ?_) (fun id hid => ?_)
    · rw [hstage.1] at ho
      cases ho
    · rw [hstage.2] at hid
      cases hid
  -- No other unfinished event has the descriptor.
  have hfree : ∀ w', ∀ ev' ∈ ((s.setWorker w ⟨batch, stage⟩).workers w').batch,
      ev'.fd ≠ ev.fd := by
    intro w' ev' hev' hfd
    by_cases hw : w' = w
    · subst hw
      rw [setWorker_self] at hev'
      exact hdistinct.1 (hfd ▸ List.mem_map_of_mem hev')
    · rw [setWorker_of_ne s _ hw] at hev'
      exact hw (h.disjoint w' w ev' hev' ev (hbatch ▸ List.mem_cons_self ..) hfd)
  unfold Poll.modifyEvent
  split
  · rename_i o armed hepoll
    have horigin : o = ev.origin :=
      ((h.events w ev (hbatch ▸ List.mem_cons_self ..)).epoll o armed hepoll).1
    have harmed : ({ s.setWorker w ⟨batch, stage⟩ with
        epoll := Function.update s.epoll ev.fd (some (o, true)) } : Poll ω).Inv listenFd :=
      hdone.setArmed hepoll fun _ => hfree
    refine { harmed with
      events := fun w' ev' hev' => ?_
      rearmed := fun p hp => ?_ }
    · have hok := harmed.events w' ev' hev'
      exact ⟨hok.fd_eq, hok.known, hok.epoll, hok.callback⟩
    · rcases List.mem_append.mp hp with hp | hp
      · exact h.rearmed p hp
      · obtain rfl := List.mem_singleton.mp hp
        exact horigin.symm
  · exact hdone

/-- Between two places of a callback, the event and its owner stay. -/
theorem Inv.goto_inside (h : s.Inv listenFd) {e : IoEvent} {o : Owner} {k : Callback}
    (hw : (s.workers w).stage = .inside e o k) {k' : Callback}
    (haccepted : ∀ id, k' = .accepted id → id < s.next) :
    (s.goto w (.inside e o k')).Inv listenFd := by
  apply h.goto
  · intro o' ho'
    obtain rfl := Option.some.inj ho'
    exact h.inside w o (by rw [PollWorker.target, hw]; rfl)
  · intro id hid
    cases k' with
    | accepted id' =>
      cases hid
      exact haccepted id rfl
    | body => cases hid
    | blocked => cases hid
    | unregistered => cases hid

theorem Inv.step (h : s.Inv listenFd) {a : Action ω} (hok : s.NoReuse a)
    (hs : s.step a = some s') : s'.Inv listenFd := by
  cases a with
  | report w fd epollIn epollOut =>
    simp only [Poll.step] at hs
    split at hs
    · rename_i o hstage hepoll
      split at hs
      · cases hs
        exact h.report hepoll epollIn epollOut
      · cases hs
    · cases hs
  | process w =>
    simp only [Poll.step] at hs
    split at hs
    · cases hs
      exact h.goto (fun o ho => by cases ho) (fun id hid => by cases hid)
    · cases hs
  | stop w =>
    simp only [Poll.step] at hs
    split at hs
    · cases hs
      exact h.goto (fun o ho => by cases ho) (fun id hid => by cases hid)
    · cases hs
  | dispatch w =>
    simp only [Poll.step] at hs
    split at hs
    · rename_i ev batch _ hbatch
      cases hs
      split
      · exact h.responseEvent hbatch (by decide)
      · exact h.goto_behind .E_READ
    · rename_i ev batch _ hbatch
      cases hs
      split
      · exact h.responseEvent hbatch (by decide)
      · exact h.goto_behind .E_WRITE
    · cases hs
  | block w | unblock w =>
    simp only [Poll.step] at hs
    split at hs
    · rename_i hw
      cases hs
      exact h.goto_inside hw fun id hid => by cases hid
    · cases hs
  | leave w =>
    simp only [Poll.step] at hs
    split at hs
    · rename_i e _ _
      cases hs
      exact h.goto_behind e
    · cases hs
  | unregister w =>
    simp only [Poll.step] at hs
    split at hs
    · rename_i c hw
      cases hs
      split
      · exact h.goto_inside hw fun id hid => by cases hid
      · have hf := forgets_unregisterIo s (s.fds c)
        exact (hf.inv h).goto_inside (hf.workers ▸ hw) fun id hid => by cases hid
    · cases hs
  | close w =>
    simp only [Poll.step] at hs
    split at hs
    · rename_i e c hw
      cases hs
      refine ((forgets_setClosed _ _).inv ?_).goto_behind e
      split
      · exact h
      · exact (forgets_closeFd s (s.fds c)).inv h
    · cases hs
  | accept w fd =>
    simp only [Poll.step] at hs
    split at hs
    · rename_i e hw
      split at hs
      · cases hs
      · split at hs
        · cases hs
          have hw' : ((s.accept fd).workers w).stage = .inside e .listener .body := hw
          refine (h.accept fd).goto_inside hw' fun id hid => ?_
          obtain rfl := Callback.accepted.inj hid
          exact Nat.lt_succ_self s.next
        · cases hs
          exact ((forgets_setOpenFds s _).inv h).goto_behind e
    · cases hs
  | reject w =>
    simp only [Poll.step] at hs
    split at hs
    · rename_i e o id hw
      cases hs
      exact ((forgets_closeFd s (s.fds id)).inv h).goto_behind e
    · cases hs
  | register w =>
    simp only [Poll.step] at hs
    split at hs
    · rename_i e o id hw
      split at hs
      · cases hs
        have hid : id ∈ (s.workers w).accepted := by
          rw [PollWorker.accepted, hw]
          rfl
        exact (h.registerIo (h.accepted w id hid) (hok id hid)).goto_behind e
      · cases hs
    · cases hs
  | registerFails w =>
    simp only [Poll.step] at hs
    split at hs
    · rename_i e o id hw
      cases hs
      have hunregistered := (forgets_unregisterIo s (s.fds id)).inv h
      have hclosed := (forgets_closeFd _ (s.fds id)).inv hunregistered
      exact ((forgets_setClosed _ _).inv hclosed).goto_behind e
    · cases hs
  | modifyEvent w =>
    simp only [Poll.step] at hs
    split at hs
    · rename_i ev batch _ hbatch
      cases hs
      refine h.modifyEvent hbatch ?_
      split
      · exact ⟨rfl, rfl⟩
      · exact ⟨rfl, rfl⟩
    · cases hs

/-! ## Exclusive events -/

/-- In every run that registers a connection only when no worker has an
unfinished event with its number, the events are exclusive. -/
theorem exclusive_of_noReuse (h : ReachableIf step NoReuse (new listenFd) s) : s.Exclusive := by
  have hinv : s.Inv listenFd := h.invariant inv_new fun _ _ _ hs hok hstep => hs.step hok hstep
  exact hinv.exclusive

/-! ## Two runs -/

instance {n : Nat} : DecidablePred (@Exclusive (Fin n)) := fun _ =>
  inferInstanceAs (Decidable (_ ∧ _ ∧ _))

instance {n : Nat} (s : Poll (Fin n)) : DecidablePred s.NoReuse
  | .register w => inferInstanceAs (Decidable (∀ id ∈ (s.workers w).accepted, _))
  | .report _ _ _ _ | .process _ | .stop _ | .dispatch _ | .block _ | .unblock _ | .leave _
  | .unregister _ | .close _ | .accept _ _ | .reject _ | .registerFails _ | .modifyEvent _ =>
    isTrue trivial

/-- A connection is closed while the other worker accepts one, which gets
another number. -/
theorem exclusive_of_noReuse_fresh :
    ∃ s : Poll (Fin 2), ((s.workers 0).target = some .listener ∧
      (s.workers 1).target = some (.connection 1)) ∧ s.Exclusive := by
  obtain ⟨s, hs, hP⟩ : ∃ s : Poll (Fin 2), ReachableIf step NoReuse (new 3) s ∧
      ((s.workers 0).target = some .listener ∧ (s.workers 1).target = some (.connection 1)) :=
    exists_reachable_of_run
      [.report 0 3 true false, .process 0, .dispatch 0, .accept 0 5, .register 0, .dispatch 0,
        .modifyEvent 0, .report 1 5 true true, .process 1, .dispatch 1, .unregister 1, .close 1,
        .report 0 3 true false, .process 0, .dispatch 0, .accept 0 6, .register 0, .dispatch 0,
        .dispatch 1, .modifyEvent 0, .modifyEvent 1, .report 1 6 true true, .process 1,
        .report 0 3 true false, .process 0, .dispatch 0, .dispatch 1]
      (by decide +kernel)
  exact ⟨s, hP, exclusive_of_noReuse hs⟩

/-- A read callback closes its connection, the other worker accepts one with the
same number, and the event goes on to that one. -/
theorem event_reaches_other_connection :
    ∃ s : Poll (Fin 2), Reachable step (new 3) s ∧
      (.connection 0, .connection 1) ∈ s.dispatched ∧ ¬ s.Exclusive :=
  exists_reachable_of_run
    [.report 0 3 true false, .process 0, .dispatch 0, .accept 0 5, .register 0, .dispatch 0,
      .modifyEvent 0, .report 1 5 true true, .process 1, .dispatch 1, .unregister 1, .close 1,
      .report 0 3 true false, .process 0, .dispatch 0, .accept 0 5, .register 0, .dispatch 1]
    (by decide +kernel)

end Poll

end CppRpc
