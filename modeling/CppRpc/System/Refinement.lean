import CppRpc.Lib.CallService
import CppRpc.System.RoundTrip

/-!
# The system as a service of remote calls

The clients and the server, seen as a `CallService`: a call is requested when
`write_package` takes its request, executed when the server answers it, and
fails or returns with its stub.  `refines_of_reachable` says that each step of
every run is a step of the service that `contract` allows, or none.
-/

namespace CppRpc

open CData Proto3 Runs RequestServer

/-- What the caller sees of a call at this place. -/
def RpcStage.outcome : RpcStage → Outcome State Value
  | .thrown e => .failed e
  | .returned v => .returned v
  | .idle | .registering | .writing | .waiting => .pending

/-- The contract: an answer is that of the server's function, and only
`S_TIME_OUT` is an error of a call that was requested. -/
def Program.contract {κ ι : Type} (p : Program κ ι) : CallService.Contract ι State Value where
  once := p.resends = false
  answers i v := (p.call i).Served p.defs v
  unsent e := e ≠ .S_TIME_OUT

namespace Rpc

variable {κ ι ω υ : Type} [DecidableEq κ]

/-- What the callers know, and what the server has done. -/
def service (p : Program κ ι) (s : Rpc κ ι ω υ) : CallService ι State Value where
  requested := s.writes
  executed := executions p s
  outcome i := (s.stage i).outcome

variable {p : Program κ ι} {s s' : Rpc κ ι ω υ}

theorem service_new (fd : κ → Int) (clientCache serverCache : Int) :
    service p (new fd clientCache serverCache : Rpc κ ι ω υ) = .new := rfl

section Steps

variable [DecidableEq ι] [DecidableEq ω] [DecidableEq υ]

/-- With the loop in `send_request`, no call comes to wait. -/
theorem not_waiting_of_resends (hresends : p.resends = true) {fd : κ → Int}
    {clientCache serverCache : Int}
    (h : ReachableIf (step p) (Within p) (new fd clientCache serverCache) s) (i : ι) :
    s.stage i ≠ .waiting := by
  refine h.invariant (P := fun s => ∀ i, s.stage i ≠ .waiting) (by simp [new])
    (fun s a s' hs _ hstep => ?_) i
  cases effect_of_step hstep with
  | start i hstage =>
    refine forall_goto (P := fun _ stage => stage ≠ .waiting) ?_ hs
    split <;> exact nofun
  | register i hstage => exact forall_goto (P := fun _ stage => stage ≠ .waiting) nofun hs
  | writePackage i b l hstage =>
    refine forall_goto (P := fun _ stage => stage ≠ .waiting) ?_ hs
    rw [written, if_pos hresends]
    exact nofun
  | read i handle buf r hstage => exact absurd hstage (hs i)
  | timeOut | closeConnection | clientWrite | serverRead | serverWrite | clientRead | readPackage
  | execute | server | responseTag | write => exact hs

omit [DecidableEq κ] [DecidableEq ω] [DecidableEq υ] in
/-- A call goes to a place where its caller sees `o`. -/
theorem outcome_goto (s : Rpc κ ι ω υ) (i : ι) (stage : RpcStage) :
    (fun j => ((s.goto i stage).stage j).outcome) =
      Function.update (fun j => (s.stage j).outcome) i stage.outcome :=
  Function.comp_update RpcStage.outcome s.stage i stage

omit [DecidableEq ω] [DecidableEq υ] in
/-- A call moves on and its caller sees nothing of it. -/
theorem service_goto (s : Rpc κ ι ω υ) {i : ι} {stage : RpcStage}
    (h : stage.outcome = (s.stage i).outcome) : service p (s.goto i stage) = service p s := by
  show CallService.mk _ _ (fun j => ((s.goto i stage).stage j).outcome) = _
  rw [outcome_goto, h, Function.update_eq_self]
  rfl

omit [DecidableEq ω] [DecidableEq υ] in
/-- The response to a call is one more execution of this call. -/
theorem executions_append (hdistinct : p.DistinctTags) {i : ι} {out : List UInt8}
    {server : RequestServer κ ω υ}
    (hresponses : server.responses = s.server.responses ++ [(p.client i, out)])
    (hpair : pairOf out = (p.call i).pair) :
    executions p { s with server } =
      Function.update (executions p s) i (executions p s i + 1) := by
  funext j
  have hcount : executions p { s with server } j = executions p s j +
      (if p.client i = p.client j ∧ pairOf out = (p.call j).pair then 1 else 0) := by
    rw [executions, hresponses, pairsOn_append, Multiset.count_add]
    congr 1
    rw [pairsOn, Multiset.coe_singleton, Multiset.filter_singleton]
    by_cases hclient : p.client i = p.client j
    · simp [hclient, Multiset.count_singleton, eq_comm]
    · simp [hclient]
  rw [hcount]
  by_cases hj : j = i
  · subst hj
    rw [if_pos ⟨rfl, hpair⟩, Function.update_self]
  · rw [if_neg, add_zero, Function.update_of_ne hj]
    rintro ⟨hclient, hpair'⟩
    exact hj (hdistinct.eq_of_pair hclient (hpair.symm.trans hpair')).symm

omit [DecidableEq ω] [DecidableEq υ] in
/-- A call fails. -/
theorem step_fail (s : Rpc κ ι ω υ) (i : ι) (e : State) :
    (service p s).step (.fail i e) = some (service p (s.goto i (.thrown e))) :=
  congrArg (fun outcome => some (CallService.mk s.writes (executions p s) outcome))
    (outcome_goto s i (.thrown e)).symm

omit [DecidableEq ω] [DecidableEq υ] in
/-- A call returns. -/
theorem step_return (s : Rpc κ ι ω υ) (i : ι) (v : Value) :
    (service p s).step (.return i v) = some (service p (s.goto i (.returned v))) :=
  congrArg (fun outcome => some (CallService.mk s.writes (executions p s) outcome))
    (outcome_goto s i (.returned v)).symm

variable [Fintype ω] [Fintype υ] {fd : κ → Int} {clientCache serverCache : Int}

omit [DecidableEq ι] [DecidableEq ω] [DecidableEq υ] [Fintype ω] [Fintype υ] in
/-- A call that has not begun has not written its request. -/
theorem Traffic.writes_eq_zero (h : s.Traffic p) (hdistinct : p.DistinctTags) {i : ι}
    (hstage : s.stage i = .idle) : s.writes i = 0 := by
  by_contra hwrites
  have hholds := h.holds i
  rw [hstage] at hholds
  exact h.handle_of_writes hdistinct (Nat.pos_of_ne_zero hwrites) hholds

/-- A call that waits has written its request. -/
theorem writes_ne_zero_of_waiting (hdistinct : p.DistinctTags)
    (h : ReachableIf (step p) (Within p) (new fd clientCache serverCache) s) {i : ι}
    (hstage : s.stage i = .waiting) : s.writes i ≠ 0 := by
  cases hresends : p.resends with
  | true => exact absurd hstage (not_waiting_of_resends hresends h i)
  | false =>
    rw [(traffic_of_reachable hdistinct h).once hresends i, hstage]
    exact Nat.one_ne_zero

omit [DecidableEq ω] [DecidableEq υ] [Fintype ω] [Fintype υ] in
/-- `write_package`, which takes the request or not. -/
theorem keeps_writePackage (htraffic : s.Traffic p) {i : ι} (hstage : s.stage i = .writing)
    (b : Bool) (l : Link) :
    CallService.Keeps p.contract (service p s) (service p
      { (s.goto i (written p.resends b)).setRequests (p.client i) l with
        writes := if b then Function.update s.writes i (s.writes i + 1) else s.writes }) := by
  have hpending : (s.stage i).outcome = .pending := by rw [hstage]; rfl
  have honce : p.resends = false → s.writes i = 0 := fun hresends => by
    rw [htraffic.once hresends i, hstage]
    rfl
  cases b with
  | true =>
    have hsame : (written p.resends true).outcome = (s.stage i).outcome := by
      rw [hpending]
      unfold written
      split <;> rfl
    refine Or.inr ⟨.request i, ⟨hpending, honce⟩, ?_⟩
    have hgoto := congrArg CallService.outcome (service_goto (p := p) s hsame)
    exact congrArg (fun outcome => some (CallService.mk
      (Function.update s.writes i (s.writes i + 1)) (executions p s) outcome)) hgoto.symm
  | false =>
    cases hresends : p.resends with
    | true =>
      have hsame : RpcStage.writing.outcome = (s.stage i).outcome := by rw [hstage]
      exact Or.inl (service_goto s hsame)
    | false =>
      refine Or.inr ⟨.fail i .S_LOCAL_CACHE_FULL, ⟨hpending, ?_⟩, step_fail s i _⟩
      exact iff_of_true (honce hresends) nofun

/-- The end of the wait. -/
theorem keeps_read (hdistinct : p.DistinctTags) (hshared : p.SharedDefs)
    (h : ReachableIf (step p) (Within p) (new fd clientCache serverCache) s) {i : ι}
    {r : Int × List UInt8} (hstage : s.stage i = .waiting)
    (h' : ReachableIf (step p) (Within p) (new fd clientCache serverCache)
      (s.goto i (answered (p.call i) r))) :
    CallService.Keeps p.contract (service p s)
      (service p (s.goto i (answered (p.call i) r))) := by
  have hpending : (s.stage i).outcome = .pending := by rw [hstage]; rfl
  by_cases hr : r.1 = 0
  · rw [answered, if_pos hr]
    refine Or.inr ⟨.fail i .S_TIME_OUT, ⟨hpending, ?_⟩, step_fail s i _⟩
    exact iff_of_false (writes_ne_zero_of_waiting hdistinct h hstage) fun hne => hne rfl
  · rw [answered, if_neg hr] at h' ⊢
    obtain ⟨buf, hanswers, hv⟩ := (matching_of_reachable hdistinct h').returned i _
      (Function.update_self ..)
    refine Or.inr ⟨.return i _, ⟨hpending, hanswers.executions_pos, ?_⟩, step_return s i _⟩
    rw [hv]
    exact (p.call i).served_of_answer (hshared i) hanswers.caller

omit [DecidableEq ω] [DecidableEq υ] in
/-- The server answers a request. -/
theorem keeps_execute (hdistinct : p.DistinctTags) (h : s'.Traffic p) (hparts : s'.Parts p)
    {k : κ} {out : List UInt8} (hwrites : s'.writes = s.writes) (hstage : s'.stage = s.stage)
    (hresponses : s'.server.responses = s.server.responses ++ [(k, out)]) :
    CallService.Keeps p.contract (service p s) (service p s') := by
  have hmem : (k, out) ∈ s'.server.responses := by
    rw [hresponses]
    exact List.mem_append_right _ (List.mem_singleton.mpr rfl)
  obtain ⟨i, rfl, -, hanswers⟩ := h.answers hparts hmem
  have hexecutions : executions p s' = Function.update (executions p s) i (executions p s i + 1) :=
    executions_append hdistinct hresponses hanswers.pair
  have hle := h.executions_le hparts i
  rw [hexecutions, Function.update_self, hwrites] at hle
  refine Or.inr ⟨.execute i, hle, ?_⟩
  show some (CallService.mk _ _ _) = some (CallService.mk _ _ _)
  rw [hexecutions, hwrites, hstage]
  rfl

/-- What a step does, seen as a step of the service. -/
theorem keeps_of_step (hdistinct : p.DistinctTags) (hshared : p.SharedDefs)
    (h : ReachableIf (step p) (Within p) (new fd clientCache serverCache) s) {a : Action κ ι ω υ}
    (hok : s.Within p a) (hs : step p s a = some s') :
    CallService.Keeps p.contract (service p s) (service p s') := by
  have h' : ReachableIf (step p) (Within p) (new fd clientCache serverCache) s' := .step h hok hs
  have htraffic := traffic_of_reachable hdistinct h
  cases effect_of_step hs with
  | start i hstage =>
    have hpending : (s.stage i).outcome = .pending := by rw [hstage]; rfl
    by_cases hfd : s.fd (p.client i) < 0
    · rw [if_pos hfd]
      refine Or.inr ⟨.fail i .S_NO_CONNECTION, ⟨hpending, ?_⟩, step_fail s i _⟩
      exact iff_of_true (htraffic.writes_eq_zero hdistinct hstage) nofun
    · rw [if_neg hfd]
      exact Or.inl (service_goto s (by rw [hstage]; rfl))
  | register i hstage => exact Or.inl (service_goto s (by rw [hstage]; rfl))
  | writePackage i b l hstage => exact keeps_writePackage htraffic hstage b l
  | read i handle buf r hstage => exact keeps_read hdistinct hshared h hstage h'
  | execute u t out server b l _ _ _ _ _ hresponses =>
    exact keeps_execute hdistinct (traffic_of_reachable hdistinct h') (parts_of_reachable h') rfl
      rfl hresponses
  | server a b server _ _ hresponses =>
    left
    show CallService.mk _ (executions p { s with server }) _ = _
    unfold executions
    rw [hresponses]
    rfl
  | timeOut | closeConnection | clientWrite | serverRead | serverWrite | clientRead | readPackage
  | responseTag | write => exact Or.inl rfl

/-- In every run, the clients and the server are a service of remote calls that
keeps the contract, in the states that they reach and in each step. -/
theorem refines_of_reachable (hdistinct : p.DistinctTags) (hshared : p.SharedDefs)
    (h : ReachableIf (step p) (Within p) (new fd clientCache serverCache) s) :
    ReachableIf CallService.step (CallService.Allowed p.contract) .new (service p s) ∧
      ∀ a s', s.Within p a → step p s a = some s' →
        CallService.Keeps p.contract (service p s) (service p s') := by
  constructor
  · rw [← service_new (p := p) (ω := ω) (υ := υ) fd clientCache serverCache]
    exact h.refines (service p) fun _ _ _ hr hok hs => keeps_of_step hdistinct hshared hr hok hs
  · exact fun _ _ hok hs => keeps_of_step hdistinct hshared h hok hs

theorem refines_of_reachable_two_calls : ∃ s : Rpc (Fin 1) (Fin 2) (Fin 1) (Fin 1),
    s.stage 0 = .returned (.int32 299) ∧
      ReachableIf CallService.step (CallService.Allowed twoCalls.contract) .new
        (service twoCalls s) ∧
      ∀ a s', s.Within twoCalls a → step twoCalls s a = some s' →
        CallService.Keeps twoCalls.contract (service twoCalls s) (service twoCalls s') := by
  obtain ⟨s, hs, hcalls, -⟩ := exists_two_calls
  exact ⟨s, hcalls.1, refines_of_reachable distinctTags_twoCalls sharedDefs_twoCalls hs⟩

end Steps

end Rpc

end CppRpc
