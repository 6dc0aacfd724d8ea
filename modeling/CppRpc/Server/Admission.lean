import Mathlib.Data.Finset.Card
import CppRpc.Lib.Totals
import CppRpc.Server.Connections

/-!
# Admission control

The system of `Server.Connections` with two histories: the connections that
`new_connection` has admitted, those that pass the test of `m_clients`, and
those that `close_connection` has taken off `m_clients`.  A connection can be
closed by another worker, or by its own constructor, before `new_connection`
counts it, so `m_clients` is too low in between.

`Counted` is the property.  When nobody is in `new_connection` or
`close_connection`, the two counters and the number of open connections agree;
and the connections admitted and not taken off again are never more than
`max_client_count`.  The listening descriptor is one-shot (`OneListener`), so
whoever tests `m_clients` is the only one in `new_connection`, and everybody
admitted before has been counted.

The proof has two parts.  `ConnInv` is the invariant of one connection, which
says that nobody is admitted or taken off twice.  `Inv` compares the counters
with the histories, up to what the workers have still to add or remove, which
`pendingCount`, `pendingAdd` and `pendingRemove` say.
-/

namespace CppRpc

open Runs

/-- `ServerServiceConfig::max_client_count`, for the number that the
configuration has under this name, if any. -/
def maxClientCount : Option Int → Int
  | none => 2048
  | some count => if count ≤ 0 then 2048 else count

theorem maxClientCount_pos (count : Option Int) : 0 < maxClientCount count := by
  unfold maxClientCount
  split
  · decide
  · split <;> omega

/-- `close_connection` has passed `--m_clients`. -/
def Closing.uncounted : Closing → Bool
  | .unregistering | .uncounting => false
  | .removing | .dropping | .closing => true

namespace ServiceWorker

variable {ι : Type}

/-- The worker is in `new_connection`. -/
def isNew : ServiceWorker ι → Bool
  | .outside | .handling _ | .ending _ _ => false
  | _ => true

/-- The worker is in neither function. -/
def isQuiet : ServiceWorker ι → Bool
  | .outside | .handling _ => true
  | _ => false

/-- The connection that the worker closes. -/
def closes : ServiceWorker ι → Option ι
  | .failing c _ | .ending c _ => some c
  | _ => none

/-- The connection that `--m_clients` is next for. -/
@[simp] def uncounts : ServiceWorker ι → Option ι
  | .failing c .uncounting | .ending c .uncounting => some c
  | _ => none

/-- The connection that a step from `q` to `p` admits. -/
@[simp] def admits (q p : ServiceWorker ι) : Option ι :=
  match q, p with
  | .checking c, .constructing _ => some c
  | _, _ => none

/-- Where a step of the `close_connection` in the constructor leads. -/
@[simp] def goOn (c : ι) : Closing → ServiceWorker ι
  | .unregistering => .failing c .uncounting
  | .uncounting => .failing c .removing
  | .removing => .failing c .dropping
  | .dropping => .failing c .closing
  | .closing => .installing c

/-- The `++m_clients` still to come for an admitted connection. -/
@[simp] def pendingCount : ServiceWorker ι → Int
  | .constructing _ | .failing _ _ | .installing _ | .counting _ => 1
  | _ => 0

/-- The `add_connections` still to come for an admitted connection. -/
@[simp] def pendingAdd : ServiceWorker ι → Int
  | .constructing _ | .failing _ _ | .installing _ | .counting _ | .adding _ => 1
  | _ => 0

/-- The `remove_connections` still to come behind a `--m_clients`. -/
@[simp] def pendingRemove : ServiceWorker ι → Int
  | .failing _ .removing | .ending _ .removing => 1
  | _ => 0

variable {q p : ServiceWorker ι} {c : ι}

theorem eq_of_admits (h : admits q p = some c) : q = .checking c := by
  unfold admits at h
  split at h <;> cases h
  rfl

theorem eq_of_uncounts (h : q.uncounts = some c) :
    q = .failing c .uncounting ∨ q = .ending c .uncounting := by
  unfold uncounts at h
  split at h <;> cases h
  · exact Or.inl rfl
  · exact Or.inr rfl

theorem conn_of_admits (h : admits q p = some c) : q.conn = some c := by
  rw [eq_of_admits h]
  rfl

theorem conn_of_uncounts (h : q.uncounts = some c) : q.conn = some c := by
  rcases eq_of_uncounts h with rfl | rfl <;> rfl

theorem conn_of_inside (h : q.inside = some c) : q.conn = some c := by
  cases q <;> first | exact h | cases h

theorem conn_of_closes (h : q.closes = some c) : q.conn = some c := by
  cases q <;> first | exact h | cases h

end ServiceWorker

/-- The service with its two histories. -/
structure Admission (ι ω : Type) where
  service : Connections ι ω
  admitted : Finset ι
  uncounted : Finset ι

namespace Admission

open ServiceWorker Connections

variable {ι ω : Type}

def new : Admission ι ω := ⟨.new, ∅, ∅⟩

section Step

variable [DecidableEq ι] [DecidableEq ω] [Fintype ω]

/-- One step of the service. -/
def step (n : Int) (s : Admission ι ω) (a : Action ι ω) : Option (Admission ι ω) :=
  (s.service.step n a).map fun service =>
    let q := s.service.workers a.worker
    { service
      admitted := s.admitted ∪ (admits q (service.workers a.worker)).toFinset
      uncounted := s.uncounted ∪ q.uncounts.toFinset }

end Step

/-- The listening descriptor is one-shot. -/
def OneListener (s : Admission ι ω) : Action ι ω → Prop
  | .newConnection _ => ∀ v, (s.service.workers v).isNew = false
  | _ => True

instance [Fintype ω] (s : Admission ι ω) : DecidablePred s.OneListener
  | .newConnection _ => inferInstanceAs (Decidable (∀ _, _))
  | .accept _ _ | .acceptFails _ | .registerIo _ _ | .proceed _ | .notifySocket _ _ | .readEnd _
  | .endOfFile _ => isTrue trivial

/-- The property. -/
structure Counted [DecidableEq ι] (n : Int) (s : Admission ι ω) : Prop where
  quiet : (∀ v, (s.service.workers v).isQuiet = true) →
    s.service.clients = s.service.connections ∧
      s.service.connections = (s.admitted.filter fun c => (s.service.handles c).fdOpen).card
  bounded : ((s.admitted \ s.uncounted).card : Int) ≤ n

/-! ## What one step does -/

section Steps

variable [DecidableEq ι] [DecidableEq ω] [Fintype ω] {n : Int} {s s' : Connections ι ω}
  {a : Action ι ω}

/-- One step of `close_connection` in the constructor. -/
theorem fail_of_step (h : s.step n a = some s') {c : ι} {i : Closing}
    (hw : s.workers a.worker = .failing c i) :
    ((s'.handles c).registered = true → (s.handles c).registered = true) ∧
      (s'.handles c).fdOpen = (if i = .closing then false else (s.handles c).fdOpen) ∧
      s'.workers a.worker = goOn c i := by
  cases a with
  | proceed w =>
    simp only [Action.worker] at hw
    simp only [Connections.step, proceed, hw, Option.some.injEq] at h
    subst h
    cases i <;> simp [closeConnection, goto, setHandle, Action.worker]
  | _ =>
    simp only [Action.worker] at hw
    simp [Connections.step, hw] at h

/-- A callback is called while nobody is in the callbacks of the connection. -/
theorem inside_of_step (h : s.step n a = some s') {c : ι}
    (hp : (s'.workers a.worker).inside = some c) :
    (s.workers a.worker).inside = some c ∨ ∀ v, (s.workers v).inside ≠ some c := by
  cases a with
  | notifySocket w c' =>
    obtain ⟨⟨-, -, hfree⟩, h⟩ := Option.ite_none_right_eq_some.mp h
    cases h
    have hcc : c' = c := by simpa [goto, Action.worker, inside] using hp
    exact Or.inr (hcc ▸ hfree)
  | proceed w =>
    simp only [Connections.step, proceed] at h
    split at h <;> rename_i hw <;> cases h
    · split at hp <;> simp [goto, Action.worker, inside] at hp
    · simp [goto, Action.worker, inside] at hp
    · rename_i c' i
      cases i <;> simp [goto, closeConnection, Action.worker, inside] at hp
    · simp [goto, Action.worker, inside] at hp
    · simp [goto, Action.worker, inside] at hp
    · simp [goto, Action.worker, inside] at hp
    · rename_i c' i
      rw [Action.worker, hw]
      cases i <;> simp [goto, closeConnection, Action.worker, inside] at hp <;>
        exact Or.inl (congrArg some hp)
  | endOfFile w =>
    simp only [Connections.step] at h
    split at h
    · rename_i hw
      cases h
      rw [Action.worker, hw]
      exact Or.inl (by simpa [goto, Action.worker, inside] using hp)
    · cases h
  | registerIo w succeeds =>
    simp only [Connections.step] at h
    split at h
    · cases h
      cases succeeds <;> simp [goto, Action.worker, inside] at hp
    · cases h
  | _ =>
    simp only [Connections.step] at h
    split at h
    · cases h
      simp [goto, Action.worker, inside] at hp
    · cases h

/-- The counters, against what the moving worker has still to do. -/
theorem counters_of_step (h : s.step n a = some s') :
    let q := s.workers a.worker
    let p := s'.workers a.worker
    s'.clients + pendingCount p + (q.uncounts.toFinset.card : Int) =
        s.clients + pendingCount q + (admits q p).toFinset.card ∧
      s'.connections + pendingAdd p - pendingRemove p + (q.uncounts.toFinset.card : Int) =
        s.connections + pendingAdd q - pendingRemove q + (admits q p).toFinset.card := by
  cases a with
  | proceed w =>
    simp only [Connections.step, proceed] at h
    split at h <;> rename_i hw <;> cases h
    · split <;> simp [goto, Action.worker, hw]
    · simp [goto, setHandle, Action.worker, hw]
    · rename_i c i
      cases i <;> simp [goto, setHandle, closeConnection, Action.worker, hw]
    · simp [goto, setHandle, Action.worker, hw]
    · simp [goto, Action.worker, hw]
    · simp [goto, Action.worker, hw]
    · rename_i c i
      cases i <;> simp [goto, setHandle, closeConnection, Action.worker, hw]
  | newConnection w =>
    obtain ⟨hw, h⟩ := Option.ite_none_right_eq_some.mp h
    cases h
    simp [goto, Action.worker, hw]
  | accept w c =>
    obtain ⟨⟨hw, -⟩, h⟩ := Option.ite_none_right_eq_some.mp h
    cases h
    simp [goto, setHandle, Action.worker, hw]
  | acceptFails w =>
    obtain ⟨hw, h⟩ := Option.ite_none_right_eq_some.mp h
    cases h
    simp [goto, Action.worker, hw]
  | notifySocket w c =>
    obtain ⟨⟨hw, -⟩, h⟩ := Option.ite_none_right_eq_some.mp h
    cases h
    simp [goto, Action.worker, hw]
  | registerIo w succeeds =>
    simp only [Connections.step] at h
    split at h
    · rename_i hw
      cases h
      cases succeeds <;> simp [goto, setHandle, Action.worker, hw]
    · cases h
  | readEnd w | endOfFile w =>
    simp only [Connections.step] at h
    split at h
    · rename_i hw
      cases h
      simp [goto, Action.worker, hw]
    · cases h

/-- Who admits a connection has tested `m_clients`. -/
theorem clients_lt_of_admits (h : s.step n a = some s') {c : ι}
    (hadmits : admits (s.workers a.worker) (s'.workers a.worker) = some c) : s.clients < n := by
  have hw := eq_of_admits hadmits
  cases a with
  | proceed w =>
    simp only [Action.worker] at hw hadmits
    simp only [Connections.step, proceed, hw, Option.some.injEq] at h
    subst h
    by_contra hge
    rw [if_pos (Int.not_lt.mp hge)] at hadmits
    simp [goto, hw] at hadmits
  | _ =>
    simp only [Action.worker] at hw
    simp [Connections.step, hw] at h

/-- A worker gets into `new_connection` by its call only. -/
theorem isNew_of_step (h : s.step n a = some s') (hnew : (s'.workers a.worker).isNew = true) :
    (s.workers a.worker).isNew = true ∨ ∃ w, a = .newConnection w := by
  cases a with
  | newConnection w => exact Or.inr ⟨w, rfl⟩
  | accept w c =>
    obtain ⟨⟨hw, -⟩, -⟩ := Option.ite_none_right_eq_some.mp h
    exact Or.inl (by rw [Action.worker, hw]; rfl)
  | acceptFails w =>
    obtain ⟨hw, -⟩ := Option.ite_none_right_eq_some.mp h
    exact Or.inl (by rw [Action.worker, hw]; rfl)
  | registerIo w succeeds =>
    simp only [Connections.step] at h
    split at h
    · rename_i hw
      exact Or.inl (by rw [Action.worker, hw]; rfl)
    · cases h
  | proceed w =>
    simp only [Connections.step, proceed] at h
    split at h <;> rename_i hw <;> cases h
    case h_7 i =>
      cases i <;> simp [goto, closeConnection, Action.worker, isNew] at hnew
    all_goals exact Or.inl (by rw [Action.worker, hw]; rfl)
  | notifySocket w c =>
    obtain ⟨-, h⟩ := Option.ite_none_right_eq_some.mp h
    cases h
    simp [goto, Action.worker, isNew] at hnew
  | readEnd w | endOfFile w =>
    simp only [Connections.step] at h
    split at h
    · cases h
      simp [goto, Action.worker, isNew] at hnew
    · cases h

theorem workers_of_step (h : s.step n a = some s') :
    s'.workers = Function.update s.workers a.worker (s'.workers a.worker) := by
  obtain ⟨p, -, hp⟩ := move_of_step h
  rw [hp, Function.update_self]

end Steps

/-! ## One connection -/

/-- The invariant of one connection: whether it is admitted, and taken off
again, against its handle and the workers. -/
structure ConnInv (c : ι) (x : HandleState) (W : ω → ServiceWorker ι) (admitted uncounted : Prop) :
    Prop where
  fresh : x.accepted = false → ¬ admitted
  checking : ∀ v, W v = .checking c ∨ W v = .rejecting c →
    ¬ admitted ∧ x.fdOpen = true
  sub : uncounted → admitted
  constructing : ∀ v, W v = .constructing c →
    admitted ∧ ¬ uncounted ∧ x.fdOpen = true ∧ x.registered = false
  failing : ∀ v i, W v = .failing c i →
    admitted ∧ (uncounted ↔ i.uncounted = true) ∧ x.fdOpen = true ∧ x.registered = false
  handling : ∀ v, W v = .handling c → x.registered = true
  ending : ∀ v i, W v = .ending c i →
    admitted ∧ (uncounted ↔ i.uncounted = true) ∧ x.fdOpen = true ∧
      (x.registered = true → i = .unregistering)
  registered : x.registered = true → admitted ∧ ¬ uncounted ∧ x.fdOpen = true
  created : ∀ v, (W v).creates = some c →
    x.accepted = true ∧ ∀ v', (W v').creates = some c → v = v'
  alone : ∀ v v', (W v).inside = some c → (W v').inside = some c → v = v'
  apart : ∀ v v', (∃ i, W v = .failing c i) ∨ W v = .constructing c → (W v').inside ≠ some c
  open_ : uncounted → x.fdOpen = true → ∃ v, (W v).closes = some c
  closed : admitted → x.fdOpen = false → uncounted

/-- What a step of the worker `w` does to the connection `c`. -/
structure Turn (c : ι) (x : HandleState) (W : ω → ServiceWorker ι) (w : ω) (x' : HandleState)
    (p : ServiceWorker ι) : Prop where
  move : Move c x (W w) x' p
  enters : p.inside = some c → (W w).inside = some c ∨ ∀ v, (W v).inside ≠ some c
  fails : ∀ i, W w = .failing c i →
    (x'.registered = true → x.registered = true) ∧
      x'.fdOpen = (if i = .closing then false else x.fdOpen) ∧
      p = goOn c i

section Connection

variable [DecidableEq ω] {c : ι} {x x' : HandleState} {W : ω → ServiceWorker ι}
  {A U : Prop} {w : ω} {p : ServiceWorker ι}

theorem turn_of_step [DecidableEq ι] [Fintype ω] {n : Int} {s s' : Connections ι ω} {a : Action ι ω}
    (h : s.step n a = some s') (c : ι) :
    Turn c (s.handles c) s.workers a.worker (s'.handles c) (s'.workers a.worker) where
  move := by
    obtain ⟨p, hmove, hp⟩ := move_of_step h
    rw [hp, Function.update_self]
    exact hmove c
  enters := inside_of_step h
  fails _ := fail_of_step h

/-- A step that is not about the connection. -/
theorem ConnInv.frame (h : ConnInv c x W A U) (hq : (W w).conn ≠ some c) (hp : p.conn ≠ some c) :
    ConnInv c x (Function.update W w p) (A ∨ admits (W w) p = some c)
      (U ∨ (W w).uncounts = some c) := by
  have hat : ∀ v q, q.conn = some c → (Function.update W w p v = q ↔ W v = q) := by
    intro v q hc
    by_cases hv : v = w
    · subst hv
      rw [Function.update_self]
      constructor
      · rintro rfl
        exact absurd hc hp
      · rintro rfl
        exact absurd hc hq
    · rw [Function.update_of_ne hv]
  have hby : ∀ f : ServiceWorker ι → Option ι, (∀ q, f q = some c → q.conn = some c) →
      ∀ v, f (Function.update W w p v) = some c ↔ f (W v) = some c := by
    intro f hf v
    by_cases hv : v = w
    · subst hv
      rw [Function.update_self]
      exact iff_of_false (fun h => hp (hf _ h)) (fun h => hq (hf _ h))
    · rw [Function.update_of_ne hv]
  have hcreates := hby creates fun _ => conn_of_creates
  have hinside := hby inside fun _ => conn_of_inside
  have hcloses := hby closes fun _ => conn_of_closes
  simp only [or_iff_left fun h => hq (conn_of_admits h),
    or_iff_left fun h => hq (conn_of_uncounts h)]
  constructor
  case fresh => exact h.fresh
  case checking => simpa only [hat _ (.checking c) rfl, hat _ (.rejecting c) rfl] using h.checking
  case sub => exact h.sub
  case constructing => simpa only [hat _ (.constructing c) rfl] using h.constructing
  case failing => simpa only [hat _ (.failing c _) rfl] using h.failing
  case handling => simpa only [hat _ (.handling c) rfl] using h.handling
  case ending => simpa only [hat _ (.ending c _) rfl] using h.ending
  case registered => exact h.registered
  case created => simpa only [hcreates] using h.created
  case alone => simpa only [hinside] using h.alone
  case apart =>
    simpa only [hat _ (.failing c _) rfl, hat _ (.constructing c) rfl, ne_eq, hinside] using h.apart
  case open_ => simpa only [hcloses] using h.open_
  case closed => exact h.closed

theorem ConnInv.checking_turn (h : ConnInv c x W A U) (hm : Move c x (W w) x' p) {v : ω}
    (hv : Function.update W w p v = .checking c ∨ Function.update W w p v = .rejecting c) :
    ¬ (A ∨ admits (W w) p = some c) ∧ x'.fdOpen = true := by
  have hframe := h.frame (w := w) (p := p)
  obtain ⟨hfresh, hchecking, -, -, -, -, hending, -, hcreated, -, -, -, -⟩ := h
  generalize hq : W w = q at hm hframe
  cases hm with
  | other _ _ hc hc' => exact (hframe hc hc').checking v hv
  | _ => grind [admits, creates, Function.update_apply]

theorem ConnInv.constructing_turn (h : ConnInv c x W A U) (hm : Move c x (W w) x' p) {v : ω}
    (hv : Function.update W w p v = .constructing c) :
    (A ∨ admits (W w) p = some c) ∧ ¬ (U ∨ (W w).uncounts = some c) ∧ x'.fdOpen = true ∧
      x'.registered = false := by
  have hframe := h.frame (w := w) (p := p)
  obtain ⟨-, hchecking, hsub, hconstructing, -, -, -, hregistered, hcreated, -, hapart, -, -⟩ := h
  generalize hq : W w = q at hm hframe
  cases hm with
  | other _ _ hc hc' => exact (hframe hc hc').constructing v hv
  | _ => grind [uncounts, admits, creates, inside, Function.update_apply]

theorem ConnInv.failing_turn (h : ConnInv c x W A U) (ht : Turn c x W w x' p) {v : ω} {i : Closing}
    (hv : Function.update W w p v = .failing c i) :
    (A ∨ admits (W w) p = some c) ∧ (U ∨ (W w).uncounts = some c ↔ i.uncounted = true) ∧
      x'.fdOpen = true ∧ x'.registered = false := by
  have hframe := h.frame (w := w) (p := p)
  obtain ⟨-, -, -, hconstructing, hfailing, -, -, -, hcreated, -, hapart, -, -⟩ := h
  obtain ⟨hm, -, hfail⟩ := ht
  generalize hq : W w = q at hm hfail hframe
  cases hm with
  | other _ _ hc hc' => exact (hframe hc hc').failing v i hv
  | fail j j' =>
    cases j <;> grind [uncounts, goOn, creates, Closing.uncounted, Function.update_apply]
  | _ => grind [uncounts, creates, inside, Closing.uncounted, Function.update_apply]

theorem ConnInv.handling_turn (h : ConnInv c x W A U) (hm : Move c x (W w) x' p) {v : ω}
    (hv : Function.update W w p v = .handling c) : x'.registered = true := by
  have hframe := h.frame (w := w) (p := p)
  obtain ⟨hfresh, -, -, hconstructing, hfailing, hhandling, -, hregistered, -, halone, -, -, -⟩ := h
  generalize hq : W w = q at hm hframe
  cases hm with
  | other _ _ hc hc' => exact (hframe hc hc').handling v hv
  | _ => grind [inside, Function.update_apply]

theorem ConnInv.ending_turn (h : ConnInv c x W A U) (ht : Turn c x W w x' p) {v : ω} {i : Closing}
    (hv : Function.update W w p v = .ending c i) :
    (A ∨ admits (W w) p = some c) ∧ (U ∨ (W w).uncounts = some c ↔ i.uncounted = true) ∧
      x'.fdOpen = true ∧ (x'.registered = true → i = .unregistering) := by
  have hframe := h.frame (w := w) (p := p)
  obtain ⟨-, hchecking, hsub, -, -, hhandling, hending, hregistered, -, halone, hapart, -, -⟩ := h
  obtain ⟨hm, -, hfail⟩ := ht
  generalize hq : W w = q at hm hfail hframe
  cases hm with
  | other _ _ hc hc' => exact (hframe hc hc').ending v i hv
  | _ => grind [uncounts, inside, Closing.uncounted, Function.update_apply]

theorem ConnInv.created_turn (h : ConnInv c x W A U) (hm : Move c x (W w) x' p) {v : ω}
    (hv : (Function.update W w p v).creates = some c) :
    x'.accepted = true ∧ ∀ v', (Function.update W w p v').creates = some c → v = v' := by
  have hframe := h.frame (w := w) (p := p)
  obtain ⟨-, -, -, -, -, -, -, -, hcreated, -, -, -, -⟩ := h
  generalize hq : W w = q at hm hframe
  cases hm with
  | other _ _ hc hc' => exact (hframe hc hc').created v hv
  | _ => grind [creates, Function.update_apply]

theorem ConnInv.alone_turn (h : ConnInv c x W A U) (ht : Turn c x W w x' p) {v v' : ω}
    (hv : (Function.update W w p v).inside = some c)
    (hv' : (Function.update W w p v').inside = some c) : v = v' := by
  have hframe := h.frame (w := w) (p := p)
  have halone := h.alone
  obtain ⟨hm, henters, -⟩ := ht
  generalize hq : W w = q at hm henters hframe
  cases hm with
  | other _ _ hc hc' => exact (hframe hc hc').alone v v' hv hv'
  | _ => grind [inside, Function.update_apply]

omit [DecidableEq ω] in
theorem ConnInv.admitted_of_inside (h : ConnInv c x W A U) {v : ω} (hv : (W v).inside = some c) :
    A := by
  cases hw : W v with
  | handling c' =>
    have hc : c' = c := by simpa [hw, inside] using hv
    exact (h.registered (h.handling v (hc ▸ hw))).1
  | ending c' i =>
    have hc : c' = c := by simpa [hw, inside] using hv
    exact (h.ending v i (hc ▸ hw)).1
  | _ => simp [hw, inside] at hv

theorem ConnInv.apart_turn (h : ConnInv c x W A U) (hm : Move c x (W w) x' p) {v v' : ω}
    (hv : (∃ i, Function.update W w p v = .failing c i) ∨
      Function.update W w p v = .constructing c)
    (hv' : (Function.update W w p v').inside = some c) : False := by
  have hframe := h.frame (w := w) (p := p)
  have hadmitted : ∀ v, (W v).inside = some c → A := fun v => h.admitted_of_inside
  obtain ⟨-, hchecking, -, hconstructing, hfailing, -, -, -, -, -, hapart, -, -⟩ := h
  generalize hq : W w = q at hm hframe
  cases hm with
  | other _ _ hc hc' => exact (hframe hc hc').apart v v' hv hv'
  | _ => grind [inside, Function.update_apply]

/-- Whoever is to close a connection taken off `m_clients` still does so. -/
theorem ConnInv.open_turn (h : ConnInv c x W A U) (ht : Turn c x W w x' p)
    (huncounted : U ∨ (W w).uncounts = some c) (hfd : x'.fdOpen = true) :
    ∃ v, (Function.update W w p v).closes = some c := by
  have hframe := h.frame (w := w) (p := p)
  obtain ⟨hfresh, hchecking, hsub, -, -, -, -, -, -, -, -, hopen, -⟩ := h
  obtain ⟨hm, -, hfail⟩ := ht
  generalize hq : W w = q at hm hfail hframe huncounted
  cases hm with
  | other _ _ hc hc' => exact (hframe hc hc').open_ huncounted hfd
  | _ =>
    rw [Function.exists_update_iff W fun _ q => q.closes = some c]
    grind [closes, uncounts, goOn]

omit [DecidableEq ω] in
theorem accepted_of_move {q : ServiceWorker ι} (hm : Move c x q x' p) (h : x.accepted = true) :
    x'.accepted = true := by
  cases hm with
  | fail i j x' haccepted => exact haccepted.trans h
  | accept => rfl
  | _ => exact h

theorem ConnInv.registered_turn (h : ConnInv c x W A U) (ht : Turn c x W w x' p)
    (hx : x'.registered = true) :
    (A ∨ admits (W w) p = some c) ∧ ¬ (U ∨ (W w).uncounts = some c) ∧ x'.fdOpen = true := by
  have hframe := h.frame (w := w) (p := p)
  obtain ⟨-, hchecking, -, hconstructing, hfailing, -, hending, hregistered, -, -, -, -, -⟩ := h
  obtain ⟨hm, -, hfail⟩ := ht
  generalize hq : W w = q at hm hfail hframe
  cases hm with
  | other _ _ hc hc' => exact (hframe hc hc').registered hx
  | _ => grind [uncounts]

theorem ConnInv.closed_turn (h : ConnInv c x W A U) (ht : Turn c x W w x' p)
    (hadmitted : A ∨ admits (W w) p = some c) (hx : x'.fdOpen = false) :
    U ∨ (W w).uncounts = some c := by
  have hframe := h.frame (w := w) (p := p)
  obtain ⟨-, hchecking, -, -, hfailing, -, hending, -, -, -, -, -, hclosed⟩ := h
  obtain ⟨hm, -, hfail⟩ := ht
  generalize hq : W w = q at hm hfail hframe hadmitted
  cases hm with
  | other _ _ hc hc' => exact (hframe hc hc').closed hadmitted hx
  | _ => grind [admits, Closing.uncounted]

theorem ConnInv.turn (h : ConnInv c x W A U) (ht : Turn c x W w x' p) :
    ConnInv c x' (Function.update W w p) (A ∨ admits (W w) p = some c)
      (U ∨ (W w).uncounts = some c) := by
  constructor
  case fresh =>
    intro hx
    have hfresh : x.accepted = false := by
      by_contra haccepted
      rw [accepted_of_move ht.move (Bool.eq_true_of_not_eq_false haccepted)] at hx
      cases hx
    rintro (hadmitted | hadmits)
    · exact h.fresh hfresh hadmitted
    · have hcreates : (W w).creates = some c := congrArg creates (eq_of_admits hadmits)
      rw [(h.created w hcreates).1] at hfresh
      cases hfresh
  case sub =>
    rintro (huncounted | huncounts)
    · exact Or.inl (h.sub huncounted)
    · rcases eq_of_uncounts huncounts with hw | hw
      · exact Or.inl (h.failing w _ hw).1
      · exact Or.inl (h.ending w _ hw).1
  case checking => exact fun v => h.checking_turn ht.move
  case constructing => exact fun v => h.constructing_turn ht.move
  case failing => exact fun v i => h.failing_turn ht
  case handling => exact fun v => h.handling_turn ht.move
  case ending => exact fun v i => h.ending_turn ht
  case registered => exact h.registered_turn ht
  case created => exact fun v => h.created_turn ht.move
  case alone => exact fun v v' => h.alone_turn ht
  case apart => exact fun v v' => h.apart_turn ht.move
  case open_ => exact h.open_turn ht
  case closed => exact h.closed_turn ht

end Connection

/-! ## All connections -/

/-- The invariant of a run. -/
structure Inv [Fintype ω] (n : Int) (s : Admission ι ω) : Prop where
  conn : ∀ c, ConnInv c (s.service.handles c) s.service.workers (c ∈ s.admitted) (c ∈ s.uncounted)
  /-- Only one worker is in `new_connection`. -/
  one : ∀ v v', (s.service.workers v).isNew = true → (s.service.workers v').isNew = true → v = v'
  clients : s.service.clients + total pendingCount s.service.workers + s.uncounted.card =
    s.admitted.card
  connections : s.service.connections + total pendingAdd s.service.workers + s.uncounted.card =
    s.admitted.card + total pendingRemove s.service.workers
  bounded : (s.admitted.card : Int) ≤ n + s.uncounted.card

variable [Fintype ω] {n : Int} {s s' : Admission ι ω} {a : Action ι ω}

theorem inv_new (hn : 0 ≤ n) : Inv n (new : Admission ι ω) where
  conn c := by
    constructor <;> simp [new, Connections.new, creates, inside]
  one v v' hv := by cases hv
  clients := by simp [new, Connections.new, total]
  connections := by simp [new, Connections.new, total]
  bounded := by simpa [new] using hn

theorem Inv.admits_notMem (h : Inv n s) {w : ω} {p : ServiceWorker ι} {c : ι}
    (hadmits : admits (s.service.workers w) p = some c) : c ∉ s.admitted :=
  ((h.conn c).checking w (Or.inl (eq_of_admits hadmits))).1

theorem Inv.uncounts_notMem (h : Inv n s) {w : ω} {c : ι}
    (huncounts : (s.service.workers w).uncounts = some c) : c ∉ s.uncounted := by
  rcases eq_of_uncounts huncounts with hw | hw
  · simp [((h.conn c).failing w _ hw).2.1, Closing.uncounted]
  · simp [((h.conn c).ending w _ hw).2.1, Closing.uncounted]

/-- Who tests `m_clients` sees everybody counted. -/
theorem Inv.pendingCount_eq_zero (h : Inv n s) {w : ω} {c : ι}
    (hw : s.service.workers w = .checking c) : total pendingCount s.service.workers = 0 := by
  apply total_eq_zero
  intro v
  by_cases hv : v = w
  · rw [hv, hw]
    rfl
  · cases hp : s.service.workers v with
    | outside | handling _ | ending _ _ => rfl
    | _ => exact absurd (h.one v w (by rw [hp]; rfl) (by rw [hw]; rfl)) hv

theorem Inv.uncounted_subset (h : Inv n s) : s.uncounted ⊆ s.admitted :=
  fun c hc => (h.conn c).sub hc

variable [DecidableEq ι]

/-- When nobody closes a connection, the admitted ones that are still counted
are the open ones. -/
theorem Inv.filter_fdOpen (h : Inv n s) (hquiet : ∀ v, (s.service.workers v).isQuiet = true) :
    (s.admitted.filter fun c => (s.service.handles c).fdOpen) = s.admitted \ s.uncounted := by
  ext c
  rw [Finset.mem_filter, Finset.mem_sdiff]
  constructor
  · rintro ⟨hadmitted, hopen⟩
    refine ⟨hadmitted, fun huncounted => ?_⟩
    obtain ⟨v, hv⟩ := (h.conn c).open_ huncounted hopen
    have hq := hquiet v
    cases hw : s.service.workers v <;> simp [hw, closes, isQuiet] at hv hq
  · rintro ⟨hadmitted, hcounted⟩
    refine ⟨hadmitted, ?_⟩
    by_contra hclosed
    exact hcounted ((h.conn c).closed hadmitted (Bool.eq_false_of_not_eq_true hclosed))

theorem Inv.counted (h : Inv n s) : s.Counted n := by
  have hcard := Finset.card_sdiff_add_card_eq_card h.uncounted_subset
  have hbounded := h.bounded
  constructor
  case quiet =>
    intro hquiet
    have hpending : ∀ v, pendingCount (s.service.workers v) = 0 ∧
        pendingAdd (s.service.workers v) = 0 ∧ pendingRemove (s.service.workers v) = 0 := by
      intro v
      have hq := hquiet v
      cases hw : s.service.workers v <;> simp [hw, isQuiet] at hq ⊢
    have hclients := h.clients
    have hconnections := h.connections
    rw [total_eq_zero fun v => (hpending v).1] at hclients
    rw [total_eq_zero fun v => (hpending v).2.1, total_eq_zero fun v => (hpending v).2.2]
      at hconnections
    rw [h.filter_fdOpen hquiet]
    omega
  case bounded => omega

theorem card_union_toFinset {o : Option ι} {t : Finset ι} (h : ∀ c, o = some c → c ∉ t) :
    (t ∪ o.toFinset).card = t.card + o.toFinset.card := by
  apply Finset.card_union_of_disjoint
  rw [Finset.disjoint_right]
  intro c hc
  exact h c (Option.mem_toFinset.mp hc)

theorem mem_union_toFinset {o : Option ι} {t : Finset ι} {c : ι} :
    c ∈ t ∪ o.toFinset ↔ c ∈ t ∨ o = some c := by
  rw [Finset.mem_union, Option.mem_toFinset, Option.mem_def]

variable [DecidableEq ω]

theorem Inv.step (h : Inv n s) (hok : s.OneListener a) (hs : s.step n a = some s') : Inv n s' := by
  obtain ⟨service, hservice, rfl⟩ := Option.map_eq_some_iff.mp hs
  have hturn := turn_of_step hservice
  have hworkers := workers_of_step hservice
  obtain ⟨hclients, hconnections⟩ := counters_of_step hservice
  have hadmitted := card_union_toFinset fun c => h.admits_notMem (w := a.worker)
    (p := service.workers a.worker) (c := c)
  have huncounted := card_union_toFinset fun c => h.uncounts_notMem (w := a.worker) (c := c)
  constructor
  case conn =>
    intro c
    have hc := (h.conn c).turn (hturn c)
    rw [← hworkers] at hc
    simpa only [mem_union_toFinset] using hc
  case one =>
    -- a worker that was not in `new_connection` before gets there alone
    have hcame : (service.workers a.worker).isNew = true →
        (s.service.workers a.worker).isNew = true ∨ ∀ v, (s.service.workers v).isNew = false := by
      intro hnew
      rcases isNew_of_step hservice hnew with hwas | ⟨w, rfl⟩
      · exact Or.inl hwas
      · exact Or.inr hok
    have hone := h.one
    intro v v'
    rw [hworkers]
    grind [Function.update_apply]
  case clients =>
    have hmoved := total_update_add (w := pendingCount) (f := s.service.workers) (u := a.worker)
      (a := service.workers a.worker) (add_comm _ _)
    rw [← hworkers] at hmoved
    have hbefore := h.clients
    simp only [hadmitted, huncounted]
    omega
  case connections =>
    have hadd := total_update_add (w := pendingAdd) (f := s.service.workers) (u := a.worker)
      (a := service.workers a.worker) (add_comm _ _)
    have hremove := total_update_add (w := pendingRemove) (f := s.service.workers) (u := a.worker)
      (a := service.workers a.worker) (add_comm _ _)
    rw [← hworkers] at hadd hremove
    have hbefore := h.connections
    simp only [hadmitted, huncounted]
    omega
  case bounded =>
    have hbefore := h.bounded
    simp only [hadmitted, huncounted]
    cases hadmits : admits (s.service.workers a.worker) (service.workers a.worker) with
    | none =>
      simp only [Option.toFinset_none, Finset.card_empty]
      omega
    | some c =>
      have hlt := clients_lt_of_admits hservice hadmits
      have hcounted := h.clients
      rw [h.pendingCount_eq_zero (eq_of_admits hadmits)] at hcounted
      simp only [Option.toFinset_some, Finset.card_singleton]
      omega

/-- In every run in which the listening descriptor is one-shot, for every number
of epoll workers and every configured limit, the counters are right. -/
theorem counted_of_oneListener {count : Option Int}
    (h : ReachableIf (step (maxClientCount count)) OneListener new s) :
    s.Counted (maxClientCount count) := by
  have hinv : Inv (maxClientCount count) s := by
    apply h.invariant (inv_new (Int.le_of_lt (maxClientCount_pos count)))
    intro s a s' hs hok hstep
    exact hs.step hok hstep
  exact hinv.counted

/-- Two workers and a limit of one: the first connection is closed before
`new_connection` counts it, the second one stays and the third one is rejected. -/
theorem counted_of_oneListener_limit_one :
    ∃ s : Admission (Fin 3) (Fin 2),
      ((∀ v, s.service.workers v = .outside) ∧ s.admitted = {0, 1} ∧ s.uncounted = {0} ∧
        (s.service.handles 2).accepted = true ∧ s.service.clients = 1) ∧
      s.Counted (maxClientCount (some 1)) := by
  obtain ⟨s, hs, hP⟩ : ∃ s : Admission (Fin 3) (Fin 2),
      ReachableIf (step (maxClientCount (some 1))) OneListener new s ∧
        ((∀ v, s.service.workers v = .outside) ∧ s.admitted = {0, 1} ∧ s.uncounted = {0} ∧
          (s.service.handles 2).accepted = true ∧ s.service.clients = 1) :=
    exists_reachable_of_run
      [.newConnection 0, .accept 0 0, .proceed 0, .registerIo 0 true, .notifySocket 1 0,
        .endOfFile 1, .proceed 1, .proceed 1, .proceed 1, .proceed 1, .proceed 1, .proceed 0,
        .proceed 0, .proceed 0, .newConnection 1, .accept 1 1, .proceed 1, .registerIo 1 true,
        .proceed 1, .proceed 1, .proceed 1, .newConnection 0, .accept 0 2, .proceed 0, .proceed 0]
      (by decide +kernel)
  exact ⟨s, hP, counted_of_oneListener hs⟩

end Admission

end CppRpc
