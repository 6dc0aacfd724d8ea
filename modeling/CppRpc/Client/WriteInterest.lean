import CppRpc.Net.WritePump

/-!
# The write interest of the client

Any number of senders and the poll thread, on `m_write_cache` and the interest
of `m_fd` in epoll.  A sender calls `write_package`, whose result plays no part,
and then `modify_io_event` to `E_RW`.  The poll thread is in `write_socket` from
the report of `EPOLLOUT` to its own `modify_io_event` to `E_READ`.  On the cache
they are the `WritePump`: the two writes of a package are steps of their own, and
so are the reads in `have_a_look`, which takes no lock.

`Armed` is the property: while no sender is in its two calls and the poll thread
is outside `write_socket`, a cache that is not empty has `EPOLLOUT` in the
interest.  The last step of `write_socket` disarms whatever is in the cache.
That goes well when no package has come in since the last look read its size and
the socket took all that was there then, or when a sender has still to arm:
`Orderly`.  `Inv` says what the cache holds from the size to the disarming, and
`armed_of_orderly` is the result.  `disarmed_with_request_pending` is a run that
leaves a request in the cache.
-/

namespace CppRpc

open CData Runs BufferCacheBase

def PumpStage.isOut : PumpStage → Bool
  | .out => true
  | _ => false

/-- The next step is the read of `m_tail` that a `size()` returns. -/
def PumpStage.readsSize : PumpStage → Bool
  | .looking (.compareSize _) _ | .looking (.assignSize _) _ => true
  | _ => false

/-- The write side of the client.  `arming` counts the senders between their two
calls, and `leaving` says that `write_socket` is behind its loop.  The rest is
history.  `written`: a write has changed the cache since the last look read its
size.  `found` is what the cache held then, and `took` the answer of the last
`write` to the socket. -/
structure WriteInterest where
  pump : WritePump
  interest : IoEvent
  arming : Nat
  leaving : Bool
  written : Bool
  found : Nat
  took : Int

namespace WriteInterest

inductive Action
  | writeHeader (buffer : List UInt8) (len : Nat)
  | writePayload
  /-- The `modify_io_event` of a sender. -/
  | arm
  | enter
  | look
  | socketWrite (result : Int)
  | take
  /-- The `modify_io_event` of `write_socket`. -/
  | disarm

/-- After the constructor of `ClientService`. -/
def new (size : Int) : WriteInterest :=
  ⟨.init (BufferCacheBase.new size), .E_READ, 0, false, false, 0, 0⟩

/-- The cache after a write of a package. -/
def wrote (s : WriteInterest) (pump : WritePump) : WriteInterest :=
  { s with pump, written := s.written || pump.cache != s.pump.cache }

/-- One step.  A sender comes out of `write_package` with its second write, or
with the first one if there is no room for a header. -/
def step (s : WriteInterest) : Action → Option WriteInterest
  | .writeHeader buffer len =>
      (s.pump.step (.writeHeader buffer len)).map fun pump =>
        { s.wrote pump with arming := if pump.producer = none then s.arming + 1 else s.arming }
  | .writePayload =>
      (s.pump.step .writePayload).map fun pump => { s.wrote pump with arming := s.arming + 1 }
  | .arm =>
      if 0 < s.arming then some { s with interest := .E_RW, arming := s.arming - 1 } else none
  | .enter =>
      if s.interest.epollOut = true ∧ s.leaving = false then
        (s.pump.step .enter).map fun pump => { s with pump }
      else none
  | .look =>
      (s.pump.step .look).map fun pump =>
        if s.pump.stage.readsSize then
          { s with pump, written := false, found := s.pump.cache.size.toNat }
        else { s with pump }
  | .socketWrite result =>
      (s.pump.step (.socketWrite result)).map fun pump => { s with pump, took := result }
  | .take => (s.pump.step .take).map fun pump => { s with pump, leaving := pump.stage.isOut }
  | .disarm => if s.leaving then some { s with interest := .E_READ, leaving := false } else none

/-- No sender is in its two calls. -/
def SendersOut (s : WriteInterest) : Prop := s.pump.producer = none ∧ s.arming = 0

/-- The poll thread is not in `write_socket`. -/
def PollOut (s : WriteInterest) : Prop := s.pump.stage.isOut = true ∧ s.leaving = false

instance (s : WriteInterest) : Decidable s.SendersOut := inferInstanceAs (Decidable (_ ∧ _))

instance (s : WriteInterest) : Decidable s.PollOut := inferInstanceAs (Decidable (_ ∧ _))

/-- The property. -/
def Armed (s : WriteInterest) : Prop :=
  s.SendersOut → s.PollOut → s.pump.cache.isEmpty = false → s.interest.epollOut = true

instance : DecidablePred Armed := fun s => inferInstanceAs (Decidable (s.SendersOut → _))

/-- No package has come in since the last look read its size, and the socket
took all that was there then. -/
def SentAll (s : WriteInterest) : Prop := s.written = false ∧ s.took.toNat = s.found

instance (s : WriteInterest) : Decidable s.SentAll := inferInstanceAs (Decidable (_ ∧ _))

/-- The condition on the order of the steps. -/
def Orderly (s : WriteInterest) : Action → Prop
  | .disarm => ¬ s.SendersOut ∨ s.SentAll
  | _ => True

instance (s : WriteInterest) : DecidablePred s.Orderly
  | .disarm => inferInstanceAs (Decidable (_ ∨ _))
  | .writeHeader _ _ | .writePayload | .arm | .enter | .look | .socketWrite _ | .take =>
      isTrue trivial

/-! ## The invariant -/

/-- The cache holds what the last look found, if no package has come in since. -/
def Holds (s : WriteInterest) : Prop :=
  s.written = false → s.pump.cache.contents.length = s.found

/-- What is known at each place of `write_socket`: nothing, before the look has
read its size. -/
def AtStage (s : WriteInterest) : PumpStage → Prop
  | .out => s.leaving = true → s.SentAll → s.pump.cache.contents = []
  | .looking .test _ | .looking .copy _ | .writing _ => s.Holds
  | .looking _ _ => True
  | .taking _ result => s.Holds ∧ -1 ≤ result ∧ result = s.took

/-- The invariant. -/
structure Inv (s : WriteInterest) : Prop where
  wf : s.pump.cache.WF
  atStage : s.AtStage s.pump.stage

theorem inv_new (size : Int) : (new size).Inv := ⟨new_wf size, nofun⟩

variable {s s' : WriteInterest}

/-- A write of a package keeps what is known, as long as the cache is the same. -/
theorem Inv.wrote (h : s.Inv) {pump : WritePump} (w : pump.cache.WF)
    (hstage : pump.stage = s.pump.stage) (arming : Nat) :
    ({ s.wrote pump with arming } : WriteInterest).Inv := by
  refine ⟨w, ?_⟩
  have hsame : (s.written || pump.cache != s.pump.cache) = false →
      s.written = false ∧ pump.cache = s.pump.cache := fun hnone =>
    ⟨(Bool.or_eq_false_iff.mp hnone).1, bne_eq_false_iff_eq.mp (Bool.or_eq_false_iff.mp hnone).2⟩
  have hholds : s.Holds → Holds { s.wrote pump with arming } := by
    intro hn hnone
    obtain ⟨hwritten, hcache⟩ := hsame hnone
    show pump.cache.contents.length = s.found
    rw [hcache]
    exact hn hwritten
  have hat := h.atStage
  show AtStage _ pump.stage
  rw [hstage]
  cases hs : s.pump.stage with
  | out =>
    rw [hs] at hat
    intro hleaving hsent
    obtain ⟨hwritten, hcache⟩ := hsame hsent.1
    show pump.cache.contents = []
    rw [hcache]
    exact hat hleaving ⟨hwritten, hsent.2⟩
  | looking point tmp =>
    rw [hs] at hat
    cases point with
    | test | copy => exact hholds hat
    | compare | compareSize | assign | assignSize => trivial
  | writing tmp =>
    rw [hs] at hat
    exact hholds hat
  | taking tmp result =>
    rw [hs] at hat
    exact ⟨hholds hat.1, hat.2⟩

theorem Inv.writeHeader (h : s.Inv) {buffer : List UInt8} {len : Nat}
    (hs : s.step (.writeHeader buffer len) = some s') : s'.Inv := by
  obtain ⟨pump, hpump, rfl⟩ := Option.map_eq_some_iff.mp hs
  unfold WritePump.step at hpump
  dsimp only at hpump
  split at hpump
  · obtain ⟨r, hr, rfl⟩ := Option.map_eq_some_iff.mp hpump
    refine h.wrote ?_ ?_ _
    · exact (h.wf.write_keeps hr).1
    · rfl
  · cases hpump

theorem Inv.writePayload (h : s.Inv) (hs : s.step .writePayload = some s') : s'.Inv := by
  obtain ⟨pump, hpump, rfl⟩ := Option.map_eq_some_iff.mp hs
  obtain ⟨x, -, hpump⟩ := Option.bind_eq_some_iff.mp hpump
  obtain ⟨r, hr, rfl⟩ := Option.map_eq_some_iff.mp hpump
  refine h.wrote ?_ ?_ _
  · exact (h.wf.write_keeps hr).1
  · rfl

theorem Inv.enter (h : s.Inv) (hs : s.step .enter = some s') : s'.Inv := by
  simp only [WriteInterest.step] at hs
  split at hs
  · obtain ⟨pump, hpump, rfl⟩ := Option.map_eq_some_iff.mp hs
    unfold WritePump.step at hpump
    dsimp only at hpump
    split at hpump
    · cases hpump
      exact ⟨h.wf, trivial⟩
    · cases hpump
  · cases hs

/-- What a look finds stays known to its end. -/
theorem Inv.look (h : s.Inv) (hs : s.step .look = some s') : s'.Inv := by
  obtain ⟨pump, hpump, rfl⟩ := Option.map_eq_some_iff.mp hs
  unfold WritePump.step at hpump
  dsimp only at hpump
  split at hpump
  · rename_i point tmp hstage
    obtain ⟨r, hr, rfl⟩ := Option.map_eq_some_iff.mp hpump
    have hat := h.atStage
    have hfound : s.pump.cache.contents.length = s.pump.cache.size.toNat := by
      rw [h.wf.size_eq, Int.toNat_natCast]
    rw [hstage] at hat ⊢
    cases point with
    | compare | assign =>
      cases hr
      exact ⟨h.wf, trivial⟩
    | compareSize unwrapped =>
      cases hr
      refine ⟨h.wf, ?_⟩
      by_cases hlonger : tmp.length > s.pump.cache.sizeReturn unwrapped
      · simp [PumpStage.readsSize, hlonger, AtStage]
      · simp only [PumpStage.readsSize, if_true, hlonger, if_false]
        exact fun _ => hfound
    | assignSize unwrapped =>
      cases hr
      exact ⟨h.wf, fun _ => hfound⟩
    | test =>
      cases hr
      refine ⟨h.wf, ?_⟩
      cases hempty : s.pump.cache.isEmpty with
      | true => exact hat
      | false => exact hat
    | copy =>
      obtain ⟨data, -, rfl⟩ := Option.map_eq_some_iff.mp hr
      exact ⟨h.wf, hat⟩
  · cases hpump

theorem Inv.socketWrite (h : s.Inv) {result : Int} (hs : s.step (.socketWrite result) = some s') :
    s'.Inv := by
  obtain ⟨pump, hpump, rfl⟩ := Option.map_eq_some_iff.mp hs
  unfold WritePump.step at hpump
  dsimp only at hpump
  split at hpump
  · rename_i tmp hstage
    split at hpump
    · rename_i hresult
      cases hpump
      have hat := h.atStage
      rw [hstage] at hat
      exact ⟨h.wf, hat, hresult.1, rfl⟩
    · cases hpump
  · cases hpump

/-- If the socket took all that the look found and nothing has come in, the
removal empties the cache. -/
theorem Inv.take (h : s.Inv) (hs : s.step .take = some s') : s'.Inv := by
  obtain ⟨pump, hpump, rfl⟩ := Option.map_eq_some_iff.mp hs
  unfold WritePump.step at hpump
  dsimp only at hpump
  split at hpump
  · rename_i tmp result hstage
    split at hpump
    · obtain ⟨r, hr, rfl⟩ := Option.map_eq_some_iff.mp hpump
      have hat := h.atStage
      rw [hstage] at hat
      obtain ⟨hholds, hlow, htook⟩ := hat
      refine ⟨(takeTurn_keeps h.wf hr).1, ?_⟩
      dsimp only
      split
      · rintro - ⟨hwritten, hall⟩
        dsimp only at hwritten hall ⊢
        refine takeTurn_all h.wf hlow ?_ hr
        rw [hholds hwritten, htook, hall]
      · trivial
    · cases hpump
  · cases hpump

theorem Inv.step (h : s.Inv) {a : Action} (hs : s.step a = some s') : s'.Inv := by
  cases a with
  | writeHeader buffer len => exact h.writeHeader hs
  | writePayload => exact h.writePayload hs
  | enter => exact h.enter hs
  | look => exact h.look hs
  | socketWrite result => exact h.socketWrite hs
  | take => exact h.take hs
  | arm =>
    simp only [WriteInterest.step] at hs
    split at hs
    · cases hs
      exact ⟨h.wf, h.atStage⟩
    · cases hs
  | disarm =>
    simp only [WriteInterest.step] at hs
    split at hs
    · cases hs
      refine ⟨h.wf, ?_⟩
      have hat := h.atStage
      dsimp only
      cases hstage : s.pump.stage with
      | out => nofun
      | looking point tmp =>
        rw [hstage] at hat
        cases point with
        | test | copy => exact hat
        | compare | compareSize | assign | assignSize => trivial
      | writing tmp | taking tmp result =>
        rw [hstage] at hat
        exact hat
    · cases hs

/-! ## The property -/

/-- A step that is not the disarming one leads to a state with the property. -/
theorem armed_of_other {a : Action} (ha : a ≠ .disarm) (hs : s.step a = some s') : s'.Armed := by
  rintro ⟨hproducer, harming⟩ ⟨hout, hleaving⟩ -
  cases a with
  | writeHeader buffer len =>
    obtain ⟨pump, -, rfl⟩ := Option.map_eq_some_iff.mp hs
    dsimp only [wrote] at hproducer harming
    rw [if_pos hproducer] at harming
    exact absurd harming (Nat.succ_ne_zero _)
  | writePayload =>
    obtain ⟨pump, -, rfl⟩ := Option.map_eq_some_iff.mp hs
    exact absurd harming (Nat.succ_ne_zero _)
  | arm =>
    simp only [WriteInterest.step] at hs
    split at hs
    · cases hs
      rfl
    · cases hs
  | enter =>
    simp only [WriteInterest.step] at hs
    split at hs
    · obtain ⟨pump, hpump, rfl⟩ := Option.map_eq_some_iff.mp hs
      unfold WritePump.step at hpump
      dsimp only at hpump
      split at hpump
      · cases hpump
        cases hout
      · cases hpump
    · cases hs
  | look =>
    obtain ⟨pump, hpump, rfl⟩ := Option.map_eq_some_iff.mp hs
    unfold WritePump.step at hpump
    dsimp only at hpump
    split at hpump
    · obtain ⟨⟨next, tmp⟩, -, rfl⟩ := Option.map_eq_some_iff.mp hpump
      split at hout <;> cases next <;> cases hout
    · cases hpump
  | socketWrite result =>
    obtain ⟨pump, hpump, rfl⟩ := Option.map_eq_some_iff.mp hs
    unfold WritePump.step at hpump
    dsimp only at hpump
    split at hpump
    · split at hpump
      · cases hpump
        cases hout
      · cases hpump
    · cases hpump
  | take =>
    obtain ⟨pump, -, rfl⟩ := Option.map_eq_some_iff.mp hs
    exact absurd (hout.symm.trans hleaving) (by decide)
  | disarm => exact absurd rfl ha

/-- In order, `write_socket` disarms an empty cache, or a sender has still to
arm. -/
theorem Inv.armed_of_disarm (h : s.Inv) (hok : s.Orderly .disarm)
    (hs : s.step .disarm = some s') : s'.Armed := by
  simp only [WriteInterest.step] at hs
  split at hs
  · rename_i hleaving
    cases hs
    rintro hsenders ⟨hout, -⟩ hpending
    rcases hok with hsending | hsent
    · exact absurd hsenders hsending
    · have hat := h.atStage
      cases hstage : s.pump.stage with
      | out =>
        rw [hstage] at hat
        have hempty := h.wf.isEmpty_iff.mpr (hat hleaving hsent)
        exact absurd (hempty.symm.trans hpending) (by decide)
      | looking point tmp | writing tmp | taking tmp result =>
        dsimp only at hout
        rw [hstage] at hout
        cases hout
  · cases hs

theorem Inv.armed_of_step (h : s.Inv) {a : Action} (hok : s.Orderly a)
    (hs : s.step a = some s') : s'.Armed := by
  by_cases ha : a = .disarm
  · subst ha
    exact h.armed_of_disarm hok hs
  · exact armed_of_other ha hs

/-- In every run in which `write_socket` disarms only when the socket took all
that the last look found and no package has come in since, or while a sender has
still to arm, pending bytes always have the write event armed. -/
theorem armed_of_orderly (size : Int) (h : ReachableIf step Orderly (new size) s) : s.Armed := by
  have hboth : s.Inv ∧ s.Armed := by
    refine h.invariant (P := fun s => s.Inv ∧ s.Armed) ⟨inv_new size, ?_⟩
      fun s a s' hi hok hs => ⟨hi.1.step hs, hi.1.armed_of_step hok hs⟩
    intro _ _ hpending
    exact absurd hpending (by simp [new, WritePump.init, BufferCacheBase.new, isEmpty])
  exact hboth.2

/-- A request goes out in two writes.  A second one comes in behind the last look,
and its sender arms behind the disarming. -/
theorem armed_of_orderly_two_requests :
    ∃ s : WriteInterest, (s.interest = .E_RW ∧ s.PollOut ∧ s.SendersOut ∧
      s.pump.cache.size = 10) ∧ s.Armed := by
  obtain ⟨s, hs, hP⟩ : ∃ s, ReachableIf step Orderly (new 4096) s ∧
      (s.interest = .E_RW ∧ s.PollOut ∧ s.SendersOut ∧ s.pump.cache.size = 10) :=
    exists_reachable_of_run
      [.writeHeader (List.replicate 2052 7) 2052, .writePayload, .arm, .enter, .look, .look, .look,
        .look, .socketWrite 2048, .take, .look, .look, .look, .look, .look, .look, .socketWrite 12,
        .writeHeader [4, 5] 2, .writePayload, .take, .disarm, .arm]
      (by decide +kernel)
  exact ⟨s, hP, armed_of_orderly 4096 hs⟩

/-- A second request arrives, and arms, between the last look and the disarm. -/
theorem disarmed_with_request_pending :
    ∃ s, Reachable step (new 64) s ∧ ¬ s.Armed :=
  exists_reachable_of_run
    [.writeHeader [1, 2, 3] 3, .writePayload, .arm, .enter, .look, .look, .look, .look, .look,
      .look, .socketWrite 11, .writeHeader [4, 5] 2, .writePayload, .arm, .take, .disarm]
    (by decide +kernel)

end WriteInterest

end CppRpc
