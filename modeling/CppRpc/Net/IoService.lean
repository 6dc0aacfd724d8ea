import CppRpc.Lib.Runs
import CppRpc.Net.Socket

/-!
# `register_io` and `unregister_io`

`IoService` keeps a callback for each pair of a descriptor and an event, and
epoll keeps the events for each descriptor.  `E_RW` stands for two pairs.  Both
ends have the same two functions; only the flags of the server have
`EPOLLONESHOT` as well.

`InStep` is the property: the map has a callback for a pair exactly when the
descriptor is registered with the event.  `unregister_io` takes the whole
descriptor out of epoll, and only the callbacks of its argument out of the map.
`Matches` is the condition that nothing else was registered, `stores_in_step_iff`
the result, and `half_unregistered_keeps_callback` a descriptor that leaves its
write callback behind.
-/

namespace CppRpc

open Runs

/-- The two programs, each with an `IoService` of its own. -/
inductive Peer
  | server
  | client

/-- The flags of an `epoll_event`. -/
structure EpollFlags where
  epollIn : Bool
  epollOut : Bool
  oneShot : Bool
  deriving DecidableEq

/-- `epoll_event`. -/
def epollEvent (peer : Peer) (e : IoEvent) : EpollFlags :=
  match peer with
  | .server => ⟨e.epollIn, e.epollOut, true⟩
  | .client => ⟨e.epollIn, e.epollOut, false⟩

/-- The flags ask for the event. -/
def EpollFlags.has (flags : EpollFlags) : IoEvent → Bool
  | .E_READ => flags.epollIn
  | .E_WRITE => flags.epollOut
  | .E_RW => false

theorem has_epollEvent (peer : Peer) (e e' : IoEvent) :
    (epollEvent peer e).has e' = true ↔ e' ≠ .E_RW ∧ (e = .E_RW ∨ e = e') := by
  cases peer <;> cases e <;> cases e' <;> decide

/-- Whoever asks for no more than another one asks for the same event, unless
that one asks for both. -/
theorem has_epollEvent_imp_iff (peer : Peer) (e e' : IoEvent) :
    (∀ e₀, (epollEvent peer e').has e₀ = true → (epollEvent peer e).has e₀ = true) ↔
      e = .E_RW ∨ epollEvent peer e' = epollEvent peer e := by
  constructor
  · intro h
    have hread := h .E_READ
    have hwrite := h .E_WRITE
    cases peer <;> cases e <;> cases e' <;> revert hread hwrite <;> decide
  · rintro (rfl | heq) e₀ he₀
    · rw [has_epollEvent] at he₀ ⊢
      exact ⟨he₀.1, Or.inl rfl⟩
    · rwa [← heq]

/-- `m_callback_map`, with the descriptors that epoll has. -/
structure IoService (F : Type) where
  callbackMap : Int × IoEvent → Option F
  epoll : Int → Option EpollFlags

namespace IoService

variable {F : Type}

def new : IoService F := ⟨fun _ => none, fun _ => none⟩

/-- `add_event`: `EPOLL_CTL_ADD` fails for a descriptor that is there. -/
def addEvent (peer : Peer) (s : IoService F) (fd : Int) (e : IoEvent) : Int × IoService F :=
  match s.epoll fd with
  | none => (0, { s with epoll := Function.update s.epoll fd (some (epollEvent peer e)) })
  | some _ => (-1, s)

/-- `remove_event`: `EPOLL_CTL_DEL` takes the whole descriptor, whatever the
flags of its argument. -/
def removeEvent (s : IoService F) (fd : Int) : Int × IoService F :=
  match s.epoll fd with
  | none => (-1, s)
  | some _ => (0, { s with epoll := Function.update s.epoll fd none })

/-- `m_callback_map[FdEvent(fd, e)] = f`, or the `erase` of the key. -/
def setCallback (s : IoService F) (fd : Int) (e : IoEvent) (f : Option F) : IoService F :=
  { s with callbackMap := Function.update s.callbackMap (fd, e) f }

/-- The end of both functions: the callbacks for the events that `e` stands for. -/
def setCallbacks (s : IoService F) (fd : Int) (e : IoEvent) (f : Option F) : IoService F :=
  if e = .E_RW then (s.setCallback fd .E_READ f).setCallback fd .E_WRITE f
  else s.setCallback fd e f

def registerIo (peer : Peer) (s : IoService F) (fd : Int) (e : IoEvent) (f : F) :
    Int × IoService F :=
  let r := s.addEvent peer fd e
  if r.1 < 0 then (-1, r.2) else (0, r.2.setCallbacks fd e (some f))

def unregisterIo (s : IoService F) (fd : Int) (e : IoEvent) : Int × IoService F :=
  let r := s.removeEvent fd
  if r.1 < 0 then (-1, r.2) else (0, r.2.setCallbacks fd e none)

inductive Call (F : Type)
  | registerIo (fd : Int) (e : IoEvent) (f : F)
  | unregisterIo (fd : Int) (e : IoEvent)

def call (peer : Peer) (s : IoService F) : Call F → Int × IoService F
  | .registerIo fd e f => s.registerIo peer fd e f
  | .unregisterIo fd e => s.unregisterIo fd e

/-- One call, which always returns. -/
def next (peer : Peer) (s : IoService F) (c : Call F) : Option (Int × IoService F) :=
  some (s.call peer c)

/-- The descriptor is registered with the event. -/
def Registered (s : IoService F) (fd : Int) (e : IoEvent) : Prop :=
  ∃ flags, s.epoll fd = some flags ∧ flags.has e = true

/-- The two stores agree. -/
def InStep (s : IoService F) : Prop :=
  ∀ fd e, (s.callbackMap (fd, e)).isSome = true ↔ s.Registered fd e

/-- The property of a call. -/
structure KeepsStep (peer : Peer) (s : IoService F) (c : Call F) : Prop where
  inStep : (s.call peer c).2.InStep
  failed : (s.call peer c).1 = -1 → (s.call peer c).2 = s

/-- The condition on the state before a call: `unregister_io` is called with
`E_RW`, or with the flags of the descriptor. -/
def Matches (peer : Peer) (s : IoService F) : Call F → Prop
  | .registerIo _ _ _ => True
  | .unregisterIo fd e => ∀ flags, s.epoll fd = some flags → e = .E_RW ∨ flags = epollEvent peer e

/-! ## What a call does -/

variable {peer : Peer} {s : IoService F} {fd : Int} {e : IoEvent} {f : F} {flags : EpollFlags}
  {c : Call F}

@[simp] theorem setCallbacks_epoll (s : IoService F) (fd : Int) (e : IoEvent) (f : Option F) :
    (s.setCallbacks fd e f).epoll = s.epoll := by
  unfold setCallbacks
  split <;> rfl

/-- The callbacks that change are those of the events that `epoll_event` asks
for. -/
theorem setCallbacks_callbackMap (peer : Peer) (s : IoService F) (fd fd' : Int) (e e' : IoEvent)
    (f : Option F) :
    (s.setCallbacks fd e f).callbackMap (fd', e') =
      if fd' = fd ∧ (epollEvent peer e).has e' = true then f else s.callbackMap (fd', e') := by
  by_cases hfd : fd' = fd
  · cases e <;> cases e' <;> simp [setCallbacks, setCallback, has_epollEvent, hfd]
  · cases e <;> simp [setCallbacks, setCallback, hfd]

theorem registerIo_of_some (h : s.epoll fd = some flags) :
    s.registerIo peer fd e f = (-1, s) := by
  simp [registerIo, addEvent, h]

theorem registerIo_of_none (h : s.epoll fd = none) :
    s.registerIo peer fd e f =
      (0, { s with epoll := Function.update s.epoll fd (some (epollEvent peer e)) }.setCallbacks
        fd e (some f)) := by
  simp [registerIo, addEvent, h]

theorem unregisterIo_of_none (h : s.epoll fd = none) : s.unregisterIo fd e = (-1, s) := by
  simp [unregisterIo, removeEvent, h]

theorem unregisterIo_of_some (h : s.epoll fd = some flags) :
    s.unregisterIo fd e =
      (0, { s with epoll := Function.update s.epoll fd none }.setCallbacks fd e none) := by
  simp [unregisterIo, removeEvent, h]

theorem registered_of_some (h : s.epoll fd = some flags) :
    s.Registered fd e ↔ flags.has e = true := by
  simp [Registered, h]

theorem not_registered_of_none (h : s.epoll fd = none) : ¬ s.Registered fd e := by
  simp [Registered, h]

theorem InStep.registerIo (h : s.InStep) : (s.registerIo peer fd e f).2.InStep := by
  cases hfd : s.epoll fd with
  | some flags =>
    rw [registerIo_of_some hfd]
    exact h
  | none =>
    rw [registerIo_of_none hfd]
    intro fd' e'
    rw [setCallbacks_callbackMap peer]
    by_cases hne : fd' = fd
    · -- epoll had nothing for the descriptor, so the map had nothing either
      have hbefore : (s.callbackMap (fd, e')).isSome = true ↔ False :=
        (h fd e').trans (iff_false_intro (not_registered_of_none hfd))
      subst hne
      have hset : ({ s with epoll := Function.update s.epoll fd' (some (epollEvent peer e)) }
          |>.setCallbacks fd' e (some f)).epoll fd' = some (epollEvent peer e) := by simp
      rw [registered_of_some hset]
      split <;> simp_all
    · have hsame : s.Registered fd' e' ↔ _ := (h fd' e').symm
      simpa [Registered, hne] using hsame.symm

theorem InStep.unregisterIo_iff (h : s.InStep) (hfd : s.epoll fd = some flags) :
    (s.unregisterIo fd e).2.InStep ↔
      ∀ e', flags.has e' = true → (epollEvent peer e).has e' = true := by
  rw [unregisterIo_of_some hfd]
  constructor
  · intro h' e' he'
    have hafter := h' fd e'
    rw [setCallbacks_callbackMap peer, iff_false_right (not_registered_of_none (by simp))] at hafter
    by_contra hkept
    rw [if_neg fun hboth => hkept hboth.2] at hafter
    exact hafter ((h fd e').mpr ((registered_of_some hfd).mpr he'))
  · intro hall fd' e'
    rw [setCallbacks_callbackMap peer]
    by_cases hne : fd' = fd
    · subst hne
      rw [iff_false_right (not_registered_of_none (by simp))]
      split
      · simp
      · rename_i hkept
        intro hcallback
        exact hkept ⟨rfl, hall e' ((registered_of_some hfd).mp ((h fd' e').mp hcallback))⟩
    · have hsame := h fd' e'
      simpa [Registered, hne] using hsame

/-- The invariant: the flags in epoll come from a call. -/
structure Inv (peer : Peer) (s : IoService F) : Prop where
  inStep : s.InStep
  flags : ∀ fd flags, s.epoll fd = some flags → ∃ e, flags = epollEvent peer e

theorem inv_new : Inv peer (new : IoService F) where
  inStep fd e := by simp [new, Registered]
  flags := nofun

theorem Inv.keepsStep_iff (h : s.Inv peer) :
    s.KeepsStep peer c ↔ s.Matches peer c := by
  cases c with
  | registerIo fd e f =>
    refine iff_of_true ⟨h.inStep.registerIo, fun hfailed => ?_⟩ trivial
    cases hfd : s.epoll fd with
    | some flags => rw [call, registerIo_of_some hfd]
    | none =>
      rw [call, registerIo_of_none hfd] at hfailed
      cases hfailed
  | unregisterIo fd e =>
    cases hfd : s.epoll fd with
    | none =>
      rw [Matches, hfd]
      refine iff_of_true ⟨?_, ?_⟩ nofun
      · rw [call, unregisterIo_of_none hfd]
        exact h.inStep
      · rw [call, unregisterIo_of_none hfd]
        exact fun _ => rfl
    | some flags =>
      obtain ⟨e₀, rfl⟩ := h.flags fd flags hfd
      have hiff := (h.inStep.unregisterIo_iff (e := e) hfd).trans (has_epollEvent_imp_iff peer e e₀)
      rw [Matches, hfd]
      constructor
      · intro hkeeps flags hflags
        cases hflags
        exact hiff.mp hkeeps.inStep
      · intro hmatches
        refine ⟨hiff.mpr (hmatches _ rfl), fun hfailed => ?_⟩
        rw [call, unregisterIo_of_some hfd] at hfailed
        cases hfailed

/-- What a call leaves in epoll for a descriptor was there before, or comes from
the call. -/
theorem epoll_call (h : (s.call peer c).2.epoll fd = some flags) :
    s.epoll fd = some flags ∨ ∃ e, flags = epollEvent peer e := by
  cases c with
  | registerIo fd' e f =>
    cases hfd : s.epoll fd' with
    | some _ =>
      rw [call, registerIo_of_some hfd] at h
      exact Or.inl h
    | none =>
      simp only [call, registerIo_of_none hfd, setCallbacks_epoll, Function.update_apply] at h
      split at h
      · cases h
        exact Or.inr ⟨e, rfl⟩
      · exact Or.inl h
  | unregisterIo fd' e =>
    cases hfd : s.epoll fd' with
    | none =>
      rw [call, unregisterIo_of_none hfd] at h
      exact Or.inl h
    | some _ =>
      simp only [call, unregisterIo_of_some hfd, setCallbacks_epoll, Function.update_apply] at h
      split at h
      · cases h
      · exact Or.inl h

theorem Inv.call (h : s.Inv peer) (hok : s.KeepsStep peer c) : (s.call peer c).2.Inv peer where
  inStep := hok.inStep
  flags fd flags hflags := by
    rcases epoll_call hflags with hbefore | hnew
    · exact h.flags fd flags hbefore
    · exact hnew

/-- For every sequence of calls, on both ends: the two stores agree after every
call, and a call that fails changes neither, exactly when every call matches. -/
theorem stores_in_step_iff (peer : Peer) (calls : List (Call F)) :
    OkAlong (next peer) (KeepsStep peer) new calls ↔
      OkAlong (next peer) (Matches peer) new calls := by
  apply okAlong_iff (P := Inv peer) _ _ inv_new
  · intro s c h
    exact h.keepsStep_iff
  · intro s c r h hok hr
    cases hr
    exact h.call hok

/-- A descriptor is registered for both events and unregistered for one. -/
theorem half_unregistered_keeps_callback :
    ¬ OkAlong (next .server) (KeepsStep .server) new
      [.registerIo 5 .E_RW (), .unregisterIo 5 .E_READ] := by
  intro h
  have hsecond := ((h.2 _ rfl).1.inStep 5 .E_WRITE).mp rfl
  exact not_registered_of_none rfl hsecond

end IoService

end CppRpc
