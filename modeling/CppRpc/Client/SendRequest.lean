import CppRpc.Lib.Runs
import CppRpc.Net.Socket

/-!
# One call of `ClientService::send_request`

`send_request` tests `m_fd`, registers a `ResponseHandle`, and then goes round a
loop without an exit: `write_package`, whose result it ignores, a sleep, and
`modify_io_event` to `E_RW`.  What follows the loop in the source is never
reached, so it is not here, and neither is the registration, which moves no
byte.

`SendSystem` is one call together with the write side of its client, where the
poll thread and other senders take their steps, and with a server that reads
whole frames off the stream, one after the other, and executes each of them.
Every access to the cache is one step here, `have_a_look` too, at its read of the
size; its reads one by one are in `Net.WritePump`.  `starts` holds the places in
the stream where the call has appended its frame.

`AtMostOnce` is the property: the call appends its frame once at most, and the
server executes it once at most.  `Roomy` says that the frame leaves a byte free
in an empty cache; then the loop appends it again as soon as the poll thread has
emptied the cache.  `atMostOnce_iff` is the result, and `request_executed_twice`
a run with two executions.
-/

namespace CppRpc

open CData Runs BufferCacheBase

/-- The frame of a request of `len` bytes. -/
def requestFrame (buf : List UInt8) (len : Nat) : List UInt8 := packageHeader len ++ buf.take len

/-- The frame leaves a byte free in an empty cache. -/
def Roomy (capacity : Int) (len : Nat) : Prop := 0 ≤ toInt32 len ∧ 8 + toInt32 len < capacity

instance (capacity : Int) (len : Nat) : Decidable (Roomy capacity len) :=
  inferInstanceAs (Decidable (_ ∧ _))

/-! ## When a frame is appended -/

section Appended

variable {c : BufferCache} {buf : List UInt8} {len : Nat}

theorem requestFrame_length (hbuf : len ≤ buf.length) :
    (requestFrame buf len).length = 8 + len := by
  rw [requestFrame, List.length_append, packageHeader, Header.bytes_length, List.length_take]
  omega

/-- In an empty cache, a roomy frame is appended. -/
theorem appended_of_roomy (w : c.WF) (hlen : len < 4294967296) (hbuf : len ≤ buf.length)
    (hempty : c.contents = []) (hroomy : Roomy c.capacity len) :
    ∃ r, c.writePackage buf len = some r ∧ r.2.contents = requestFrame buf len := by
  obtain ⟨h0, hroom⟩ := hroomy
  have hsize := w.size_eq
  rw [hempty, List.length_nil] at hsize
  have hcase := w.package_cases hlen hbuf
  generalize c.writePackage buf len = o at hcase
  cases hcase with
  | refused hfree => omega
  | whole c' _ _ hc' =>
    refine ⟨_, rfl, ?_⟩
    rw [hc', hempty]
    rfl
  | torn c' _ hfits _ hc' =>
    have hzero : toInt32 len = 0 := by
      by_contra hne
      exact hfits ⟨by omega, Or.inl (by omega)⟩
    have hlen0 : len = 0 := by
      unfold toInt32 at hzero
      split_ifs at hzero <;> omega
    refine ⟨_, rfl, ?_⟩
    rw [hc', hempty, hlen0, requestFrame, List.take_zero, List.append_nil]
    rfl
  | payloadEmpties => omega
  | headerEmpties => omega

/-- A frame that is not roomy is appended to an empty cache with its head at
zero only, and fills it. -/
theorem appended_of_not_roomy (w : c.WF) (hlen : len < 4294967296) (hbuf : len ≤ buf.length)
    (hroomy : ¬ Roomy c.capacity len) {r : Bool × BufferCache}
    (hr : c.writePackage buf len = some r)
    (happ : r.2.contents = c.contents ++ requestFrame buf len) :
    (c.contents.length : Int) < c.capacity ∧ c.head = 0 ∧
      (r.2.contents.length : Int) = c.capacity := by
  have hsize := w.size_eq
  obtain ⟨b, c₁⟩ := r
  have hlen₁ : c₁.contents.length = c.contents.length + (8 + len) := by
    rw [show c₁.contents = _ from happ, List.length_append, requestFrame_length hbuf]
  have hcase := w.package_cases hlen hbuf
  rw [hr] at hcase
  unfold Roomy at hroomy
  cases hcase with
  | refused => omega
  | whole c' hfits w' hc' hcap =>
    obtain ⟨hpos, hroom⟩ := hfits
    have hn : toInt32 len = len := by
      rw [← Int.toNat_of_nonneg (Int.le_of_lt hpos), toInt32_toNat hlen hpos]
    rw [hn] at hroomy hroom
    clear hn hpos hlen
    dsimp only
    omega
  | torn c' hfree _ hhead hc' =>
    have htorn := congrArg List.length hc'
    rw [List.length_append, packageHeader, Header.bytes_length] at htorn
    obtain rfl : len = 0 := by omega
    have hzero : toInt32 ((0 : Nat) : Int) = 0 := rfl
    dsimp only
    omega
  | payloadEmpties c' _ _ _ hc' =>
    rw [hc', List.length_nil] at hlen₁
    omega
  | headerEmpties b c' _ _ _ hle => omega

end Appended

/-! ## The write side of the client -/

/-- Where the poll thread stands in `write_socket`. -/
inductive WriteSocket
  | outside
  /-- At the head of the loop. -/
  | looking (tmp : Buffer)
  /-- Before the `write` to the socket. -/
  | writing (tmp : Buffer)
  /-- The socket has answered `len`. -/
  | taking (tmp : Buffer) (len : Int)
  /-- Behind the loop, before `modify_io_event`. -/
  | disarming
  deriving DecidableEq

/-- The write side of the client.  `arming` counts the senders between their
two steps. -/
structure WriteSide where
  cache : BufferCache
  interest : IoEvent
  arming : Nat
  poll : WriteSocket

namespace WriteSide

inductive Action
  | writePackage (payload : List UInt8)
  /-- The `modify_io_event` of a sender. -/
  | arm
  | enter
  | look
  | socketWrite (result : Int)
  | take
  /-- The `modify_io_event` of `write_socket`. -/
  | disarm

/-- After the constructor of `ClientService`. -/
def new (size : Int) : WriteSide := ⟨BufferCacheBase.new size, .E_READ, 0, .outside⟩

/-- One step. -/
def step (s : WriteSide) : Action → Option WriteSide
  | .writePackage p =>
      (s.cache.writePackage p p.length).map fun r =>
        { s with cache := r.2, arming := s.arming + 1 }
  | .arm =>
      if 0 < s.arming then some { s with interest := .E_RW, arming := s.arming - 1 } else none
  | .enter =>
      match s.poll with
      | .outside =>
          if s.interest.epollOut then
            some { s with poll := .looking (bufferCalloc BLOCK_SIZE) }
          else none
      | _ => none
  | .look =>
      match s.poll with
      | .looking tmp => (lookTurn s.cache tmp).map fun tmp => { s with poll := .writing tmp }
      | _ => none
  | .socketWrite result =>
      match s.poll with
      | .writing tmp =>
          if -1 ≤ result ∧ result ≤ tmp.length then
            some { s with poll := .taking tmp (toSizeT result) }
          else none
      | _ => none
  | .take =>
      match s.poll with
      | .taking tmp len =>
          (takeTurn s.cache tmp len).map fun r =>
            { s with
              cache := r.2
              poll := if len ≠ BLOCK_SIZE then .disarming else .looking r.1 }
      | _ => none
  | .disarm =>
      match s.poll with
      | .disarming => some { s with interest := .E_READ, poll := .outside }
      | _ => none

variable {s : WriteSide}

/-- A step leaves the cache alone, unless it writes a package or takes out what
the socket has taken. -/
theorem cache_of_step {a : Action} {s' : WriteSide} (hs : s.step a = some s') :
    (∃ p r, s.cache.writePackage p p.length = some r ∧ s'.cache = r.2) ∨
      (∃ tmp len r, takeTurn s.cache tmp len = some r ∧ s'.cache = r.2) ∨ s'.cache = s.cache := by
  cases a with
  | writePackage p =>
    obtain ⟨r, hr, rfl⟩ := Option.map_eq_some_iff.mp hs
    exact Or.inl ⟨p, r, hr, rfl⟩
  | take =>
    simp only [WriteSide.step] at hs
    split at hs
    · obtain ⟨r, hr, rfl⟩ := Option.map_eq_some_iff.mp hs
      exact Or.inr (Or.inl ⟨_, _, r, hr, rfl⟩)
    · cases hs
  | look =>
    simp only [WriteSide.step] at hs
    split at hs
    · obtain ⟨tmp, -, rfl⟩ := Option.map_eq_some_iff.mp hs
      exact Or.inr (Or.inr rfl)
    · cases hs
  | enter | socketWrite result =>
    simp only [WriteSide.step] at hs
    split at hs
    · split at hs
      · cases hs
        exact Or.inr (Or.inr rfl)
      · cases hs
    · cases hs
  | arm | disarm =>
    simp only [WriteSide.step] at hs
    split at hs
    · cases hs
      exact Or.inr (Or.inr rfl)
    · cases hs

end WriteSide

/-! ## The call, the client and the server -/

/-- Where the thread in `send_request` stands. -/
inductive SendRequest
  /-- Before the test of `m_fd`. -/
  | testing
  /-- Before `write_package`. -/
  | writing
  /-- Behind the sleep, before `modify_io_event`. -/
  | arming
  /-- Left by `throw`. -/
  | thrown
  deriving DecidableEq

/-- One call of `send_request` on a client, and the server.  `stream` holds the
bytes that the socket has taken and that the server had not read before the
call, `drained` counts those that the poll thread has removed from the cache.
`starts` are the places in the stream of the frames that the call has appended,
and `parsed` is where the server will read its next frame. -/
structure SendSystem where
  fd : Int
  side : WriteSide
  call : SendRequest
  stream : List UInt8
  drained : Nat
  starts : List Nat
  parsed : Nat
  executed : Nat

namespace SendSystem

inductive Action
  /-- The next step of the call. -/
  | call
  /-- A step of the poll thread or of another sender. -/
  | others (a : WriteSide.Action)
  /-- The server reads a frame and executes what it asks for. -/
  | serve

/-- The call begins, with `wire` on its way to the server. -/
def init (fd : Int) (side : WriteSide) (wire : List UInt8) : SendSystem :=
  ⟨fd, side, .testing, wire, wire.length, [], 0, 0⟩

/-- The bytes that a step hands to the socket. -/
def handed (side : WriteSide) : WriteSide.Action → List UInt8
  | .socketWrite result =>
      match side.poll with
      | .writing tmp => tmp.data.take result.toNat
      | _ => []
  | _ => []

/-- The next step of the call.  `write_package` takes an `unsigned int`. -/
def callStep (buf : List UInt8) (len : Nat) (s : SendSystem) : Option SendSystem :=
  match s.call with
  | .testing => some { s with call := if s.fd < 0 then .thrown else .writing }
  | .writing => (s.side.cache.writePackage buf (len % 4294967296 : Nat)).map fun r =>
      { s with
        side := { s.side with cache := r.2 }
        call := .arming
        starts :=
          if r.2.contents = s.side.cache.contents ++ requestFrame buf (len % 4294967296) then
            s.starts ++ [s.drained + s.side.cache.contents.length]
          else s.starts }
  | .arming => some { s with side := { s.side with interest := .E_RW }, call := .writing }
  | .thrown => none

/-- One step. -/
def step (buf : List UInt8) (len : Nat) (s : SendSystem) : Action → Option SendSystem
  | .call => s.callStep buf len
  | .others a => (s.side.step a).map fun side =>
      { s with
        side
        stream := s.stream ++ handed s.side a
        drained :=
          match a with
          | .take => s.drained + (s.side.cache.contents.length - side.cache.contents.length)
          | _ => s.drained }
  | .serve => (decodeFrame (s.stream.drop s.parsed)).map fun r =>
      { s with
        parsed := s.parsed + (8 + r.1.length)
        executed := if s.parsed ∈ s.starts then s.executed + 1 else s.executed }

/-- The property. -/
def AtMostOnce (s : SendSystem) : Prop := s.starts.length ≤ 1 ∧ s.executed ≤ 1

instance : DecidablePred AtMostOnce := fun _ => inferInstanceAs (Decidable (_ ∧ _))

/-! ## A frame that is not roomy -/

/-- The invariant, for a frame that cannot be appended twice: once it has been,
the cache is full, or its head has left zero. -/
structure Inv (capacity : Int) (s : SendSystem) : Prop where
  wf : s.side.cache.WF
  capacity_eq : s.side.cache.capacity = capacity
  once : s.starts.length ≤ 1
  spent : s.starts ≠ [] →
    (s.side.cache.contents.length : Int) = s.side.cache.capacity ∨ s.side.cache.head ≠ 0
  /-- Every frame executed has its start in front of `parsed`. -/
  served : s.executed + s.starts.countP (s.parsed ≤ ·) ≤ s.starts.length

variable {capacity : Int} {buf : List UInt8} {len : Nat} {s : SendSystem}

theorem Inv.atMostOnce (h : s.Inv capacity) : s.AtMostOnce :=
  ⟨h.once, by have := h.served; have := h.once; omega⟩

/-- The cache of a client after any step of the poll thread or of a sender. -/
theorem side_keeps {side side' : WriteSide} (w : side.cache.WF) {a : WriteSide.Action}
    (hs : side.step a = some side') :
    side'.cache.WF ∧ side'.cache.capacity = side.cache.capacity ∧
      ((side.cache.contents.length : Int) = side.cache.capacity ∨ side.cache.head ≠ 0 →
        (side'.cache.contents.length : Int) = side'.cache.capacity ∨ side'.cache.head ≠ 0) := by
  rcases WriteSide.cache_of_step hs with ⟨p, r, hr, hc⟩ | ⟨tmp, l, r, hr, hc⟩ | hc
  · obtain ⟨w', hcap, hhead, hfull⟩ := w.writePackage_keeps hr
    rw [hc]
    refine ⟨w', hcap, ?_⟩
    rintro (h | h)
    · rw [hfull h]
      exact Or.inl h
    · rw [hhead]
      exact Or.inr h
  · obtain ⟨w', hcap, hmove⟩ := takeTurn_keeps w hr
    rw [hc]
    refine ⟨w', hcap, fun h => ?_⟩
    rcases hmove with hmove | hmove
    · rw [hmove]
      exact h
    · exact Or.inr hmove
  · rw [hc]
    exact ⟨w, rfl, id⟩

theorem Inv.write (h : s.Inv capacity) (hbuf : len ≤ buf.length)
    (hroomy : ¬ Roomy capacity (len % 4294967296)) (hcall : s.call = .writing) {s' : SendSystem}
    (hs : s.callStep buf len = some s') : s'.Inv capacity := by
  simp only [callStep, hcall] at hs
  obtain ⟨r, hr, rfl⟩ := Option.map_eq_some_iff.mp hs
  obtain ⟨w', hcap, hhead, hfull⟩ := h.wf.writePackage_keeps hr
  have hlt : len % 4294967296 < 4294967296 := Nat.mod_lt _ (by decide)
  have hle : len % 4294967296 ≤ buf.length := Nat.le_trans (Nat.mod_le _ _) hbuf
  by_cases happ : r.2.contents = s.side.cache.contents ++ requestFrame buf (len % 4294967296)
  · rw [if_pos happ]
    obtain ⟨hspace, hzero, hfills⟩ :=
      appended_of_not_roomy h.wf hlt hle (h.capacity_eq ▸ hroomy) hr happ
    have hnone : s.starts = [] := by
      by_contra hsome
      rcases h.spent hsome with hf | hh
      · omega
      · exact hh hzero
    have hserved := h.served
    rw [hnone] at hserved ⊢
    refine ⟨w', hcap.trans h.capacity_eq, Nat.le_refl 1, fun _ => Or.inl ?_, ?_⟩
    · dsimp only
      rw [hfills, hcap]
    · dsimp only
      have hone := @List.countP_le_length _ (decide <| s.parsed ≤ ·)
        ([] ++ [s.drained + s.side.cache.contents.length])
      simp only [List.countP_nil, List.length_nil] at hserved
      simp only [List.nil_append, List.length_cons, List.length_nil] at hone ⊢
      omega
  · rw [if_neg happ]
    refine ⟨w', hcap.trans h.capacity_eq, h.once, fun hsome => ?_, h.served⟩
    dsimp only
    rcases h.spent hsome with hf | hh
    · left
      rw [hfull hf]
      exact hf
    · right
      rw [hhead]
      exact hh

theorem Inv.serve (h : s.Inv capacity) {s' : SendSystem} (hs : s.step buf len .serve = some s') :
    s'.Inv capacity := by
  obtain ⟨r, hr, rfl⟩ := Option.map_eq_some_iff.mp hs
  refine ⟨h.wf, h.capacity_eq, h.once, h.spent, ?_⟩
  have hserved := h.served
  have hmono : s.starts.countP (s.parsed + (8 + r.1.length) ≤ ·) ≤ s.starts.countP (s.parsed ≤ ·) :=
    List.countP_mono_left fun n _ hn => by
      rw [decide_eq_true_iff] at hn ⊢
      omega
  dsimp only
  split
  · rename_i hmem
    -- The only frame starts at `parsed`, and falls behind.
    have hstarts : s.starts = [s.parsed] := by
      obtain ⟨n, hn⟩ := List.length_eq_one_iff.mp
        (Nat.le_antisymm h.once (List.length_pos_of_mem hmem))
      rw [hn] at hmem ⊢
      rw [List.mem_singleton.mp hmem]
    rw [hstarts] at hserved ⊢
    simp only [List.countP_singleton, List.length_singleton] at hserved ⊢
    rw [if_neg (show ¬ decide (s.parsed + (8 + r.1.length) ≤ s.parsed) = true by
      rw [decide_eq_true_iff]
      omega)]
    rw [if_pos (decide_eq_true (Nat.le_refl _))] at hserved
    omega
  · omega

theorem Inv.step (h : s.Inv capacity) (hbuf : len ≤ buf.length)
    (hroomy : ¬ Roomy capacity (len % 4294967296)) {a : Action} {s' : SendSystem}
    (hs : s.step buf len a = some s') : s'.Inv capacity := by
  cases a with
  | call =>
    change s.callStep buf len = some s' at hs
    cases hcall : s.call with
    | writing => exact h.write hbuf hroomy hcall hs
    | thrown => simp [callStep, hcall] at hs
    | testing | arming =>
      simp only [callStep, hcall] at hs
      cases hs
      exact ⟨h.wf, h.capacity_eq, h.once, h.spent, h.served⟩
  | others a =>
    obtain ⟨side, hside, rfl⟩ := Option.map_eq_some_iff.mp hs
    obtain ⟨w', hcap, hspent⟩ := side_keeps h.wf hside
    exact ⟨w', hcap.trans h.capacity_eq, h.once, fun hsome => hspent (h.spent hsome), h.served⟩
  | serve => exact h.serve hs

/-! ## A roomy frame -/

/-- The call is at the head of its loop, and the poll thread waits. -/
structure Idle (capacity : Int) (s : SendSystem) : Prop where
  wf : s.side.cache.WF
  capacity_eq : s.side.cache.capacity = capacity
  call_eq : s.call = .writing
  poll_eq : s.side.poll = .outside

variable {start : SendSystem}

/-- A step of the poll thread, as a step of the system. -/
theorem exists_others (h : Reachable (step buf len) start s) {a : WriteSide.Action}
    {side : WriteSide} (hs : s.side.step a = some side) :
    ∃ s', Reachable (step buf len) start s' ∧ s'.side = side ∧ s'.call = s.call ∧
      s'.starts = s.starts := by
  obtain ⟨s', hs'⟩ : ∃ s', step buf len s (.others a) = some s' :=
    ⟨_, by rw [step, hs, Option.map_some]⟩
  refine ⟨s', h.step trivial hs', ?_⟩
  rw [step, hs, Option.map_some] at hs'
  cases hs'
  exact ⟨rfl, rfl, rfl⟩

/-- A turn of `write_socket` in which the socket takes all that it is offered. -/
theorem exists_turn (h : Reachable (step buf len) start s) (w : s.side.cache.WF) {tmp : Buffer}
    (htmp : tmp.data.length = BLOCK_SIZE) (hpoll : s.side.poll = .looking tmp) :
    ∃ s' tmp', Reachable (step buf len) start s' ∧ s'.side.cache.WF ∧
      s'.side.cache.capacity = s.side.cache.capacity ∧
      s'.side.cache.contents = s.side.cache.contents.drop BLOCK_SIZE ∧ s'.call = s.call ∧
      s'.starts = s.starts ∧ tmp'.data.length = BLOCK_SIZE ∧
      s'.side.poll =
        if s.side.cache.contents.length < BLOCK_SIZE then .disarming else .looking tmp' := by
  generalize hk : (s.side.cache.contents.take BLOCK_SIZE).length = k
  have hmin : k = min BLOCK_SIZE s.side.cache.contents.length := by rw [← hk, List.length_take]
  have hle : k ≤ BLOCK_SIZE := by omega
  obtain ⟨tmp₁, hlook, htmp₁, hlen₁, -⟩ := lookTurn_eq w htmp
  obtain ⟨tmp₂, c, htake, htmp₂, w', hc, hcap⟩ := takeTurn_eq w htmp₁ hle
  rw [hk] at hlen₁
  obtain ⟨s₁, h₁, hside₁, hcall₁, hstarts₁⟩ := @exists_others _ _ _ _ h .look
    { s.side with poll := .writing tmp₁ } (by simp [WriteSide.step, hpoll, hlook])
  obtain ⟨s₂, h₂, hside₂, hcall₂, hstarts₂⟩ := @exists_others _ _ _ _ h₁ (.socketWrite k)
    { s.side with poll := .taking tmp₁ (toSizeT k) } (by
      rw [hside₁]
      simp only [WriteSide.step, hlen₁]
      rw [if_pos (by omega)])
  obtain ⟨s₃, h₃, hside₃, hcall₃, hstarts₃⟩ := @exists_others _ _ _ _ h₂ .take
    { s.side with
      cache := c
      poll := if toSizeT k ≠ BLOCK_SIZE then .disarming else .looking tmp₂ } (by
      rw [hside₂]
      simp only [WriteSide.step, htake, Option.map_some])
  refine ⟨s₃, tmp₂, h₃, ?_, ?_, ?_, ?_, ?_, htmp₂, ?_⟩
  · rw [hside₃]
    exact w'
  · rw [hside₃]
    exact hcap
  · rw [hside₃]
    dsimp only
    rw [hc, List.drop_eq_drop_iff]
    omega
  · rw [hcall₃, hcall₂, hcall₁]
  · rw [hstarts₃, hstarts₂, hstarts₁]
  · rw [hside₃]
    dsimp only
    have hsize : toSizeT k = k := toSizeT_eq_self (by omega) (by unfold BLOCK_SIZE at hle; omega)
    rw [hsize]
    by_cases hlast : s.side.cache.contents.length < BLOCK_SIZE
    · rw [if_pos hlast, if_pos (by omega)]
    · rw [if_neg hlast, if_neg (by omega)]

/-- The poll thread empties the cache and leaves `write_socket`. -/
theorem exists_drained (h : Reachable (step buf len) start s)
    (w : s.side.cache.WF) (hcall : s.call = .writing) {tmp : Buffer}
    (htmp : tmp.data.length = BLOCK_SIZE) (hpoll : s.side.poll = .looking tmp) :
    ∃ s', Reachable (step buf len) start s' ∧ s'.Idle s.side.cache.capacity ∧
      s'.side.cache.contents = [] ∧ s'.starts = s.starts := by
  generalize hn : s.side.cache.contents.length = n
  induction n using Nat.strongRecOn generalizing s tmp with
  | ind n ih =>
    obtain ⟨s₁, tmp₁, h₁, w₁, hcap₁, hc₁, hcall₁, hstarts₁, htmp₁, hpoll₁⟩ :=
      exists_turn h w htmp hpoll
    split at hpoll₁
    · rename_i hlast
      obtain ⟨s₂, h₂, hside₂, hcall₂, hstarts₂⟩ := @exists_others _ _ _ _ h₁ .disarm
        { s₁.side with interest := .E_READ, poll := .outside } (by simp [WriteSide.step, hpoll₁])
      refine ⟨s₂, h₂, ⟨?_, ?_, ?_, ?_⟩, ?_, ?_⟩
      · rw [hside₂]
        exact w₁
      · rw [hside₂]
        exact hcap₁
      · rw [hcall₂, hcall₁, hcall]
      · rw [hside₂]
      · rw [hside₂]
        dsimp only
        rw [hc₁, List.drop_of_length_le (Nat.le_of_lt hlast)]
      · rw [hstarts₂, hstarts₁]
    · rename_i hmore
      have hpos : 0 < BLOCK_SIZE := by decide
      have hshort : s₁.side.cache.contents.length < n := by
        rw [hc₁, List.length_drop]
        omega
      obtain ⟨s₂, h₂, hidle, hempty, hstarts₂⟩ :=
        ih _ hshort h₁ w₁ (hcall₁.trans hcall) htmp₁ hpoll₁ rfl
      exact ⟨s₂, h₂, hcap₁ ▸ hidle, hempty, hstarts₂.trans hstarts₁⟩

/-- One round of the loop, after which the poll thread empties the cache. -/
theorem exists_round (hbuf : len ≤ buf.length) (hroomy : Roomy capacity (len % 4294967296))
    (h : Reachable (step buf len) start s) (hidle : s.Idle capacity) :
    ∃ s', Reachable (step buf len) start s' ∧ s'.Idle capacity ∧ s'.side.cache.contents = [] ∧
      s.starts.length ≤ s'.starts.length ∧
      (s.side.cache.contents = [] → s'.starts.length = s.starts.length + 1) := by
  have hlt : len % 4294967296 < 4294967296 := Nat.mod_lt _ (by decide)
  have hle : len % 4294967296 ≤ buf.length := Nat.le_trans (Nat.mod_le _ _) hbuf
  obtain ⟨r, hr⟩ : ∃ r, s.side.cache.writePackage buf (len % 4294967296 : Nat) = some r := by
    have hcase := hidle.wf.package_cases hlt hle
    generalize s.side.cache.writePackage buf (len % 4294967296 : Nat) = o at hcase
    cases hcase <;> exact ⟨_, rfl⟩
  obtain ⟨w₁, hcap₁, -⟩ := hidle.wf.writePackage_keeps hr
  obtain ⟨s₁, hs₁⟩ : ∃ s₁, step buf len s .call = some s₁ :=
    ⟨_, by rw [step, callStep, hidle.call_eq]; dsimp only; rw [hr, Option.map_some]⟩
  have h₁ := h.step trivial hs₁
  rw [step, callStep, hidle.call_eq] at hs₁
  dsimp only at hs₁
  rw [hr, Option.map_some] at hs₁
  cases hs₁
  -- The call arms, and the poll thread enters `write_socket`.
  have h₂ := @ReachableIf.step _ _ _ _ _ _ _ .call h₁ trivial rfl
  obtain ⟨s₃, h₃, hside₃, hcall₃, hstarts₃⟩ := @exists_others _ _ _ _ h₂ .enter
    { s.side with
      cache := r.2
      interest := .E_RW
      poll := .looking (bufferCalloc BLOCK_SIZE) } (by
      simp [WriteSide.step, hidle.poll_eq, IoEvent.epollOut])
  obtain ⟨s₄, h₄, hidle₄, hempty₄, hstarts₄⟩ :=
    exists_drained h₃ (by rw [hside₃]; exact w₁) hcall₃ bufferCalloc_block (by rw [hside₃])
  have hcap₄ : s₃.side.cache.capacity = capacity := by
    rw [hside₃]
    exact hcap₁.trans hidle.capacity_eq
  refine ⟨s₄, h₄, hcap₄ ▸ hidle₄, hempty₄, ?_, fun hempty => ?_⟩
  · rw [hstarts₄, hstarts₃]
    dsimp only
    split
    · rw [List.length_append]
      exact Nat.le_add_right _ _
    · exact Nat.le_refl _
  · obtain ⟨r', hr', happ⟩ :=
      appended_of_roomy hidle.wf hlt hle hempty (hidle.capacity_eq ▸ hroomy)
    obtain rfl : r = r' := Option.some.inj (hr.symm.trans hr')
    rw [hstarts₄, hstarts₃]
    dsimp only
    rw [if_pos (by rw [happ, hempty, List.nil_append]), List.length_append]
    rfl

/-- A connected client with room for the frame: some run appends it twice. -/
theorem exists_twice (hbuf : len ≤ buf.length) {c : BufferCache} (w : c.WF) {fd : Int}
    (hfd : ¬ fd < 0) (hroomy : Roomy c.capacity (len % 4294967296)) :
    ∃ s, Reachable (step buf len) (init fd ⟨c, .E_READ, 0, .outside⟩ []) s ∧ ¬ s.AtMostOnce := by
  have h₀ : Reachable (step buf len) (init fd ⟨c, .E_READ, 0, .outside⟩ [])
      { init fd ⟨c, .E_READ, 0, .outside⟩ [] with call := if fd < 0 then .thrown else .writing } :=
    .step (a := .call) .init trivial rfl
  obtain ⟨s₁, h₁, hidle₁, hempty₁, -, -⟩ :=
    exists_round hbuf hroomy h₀ ⟨w, rfl, if_neg hfd, rfl⟩
  obtain ⟨s₂, h₂, hidle₂, hempty₂, -, hone⟩ := exists_round hbuf hroomy h₁ hidle₁
  obtain ⟨s₃, h₃, -, -, -, htwo⟩ := exists_round hbuf hroomy h₂ hidle₂
  refine ⟨s₃, h₃, fun honce => ?_⟩
  have := honce.1
  have := hone hempty₁
  have := htwo hempty₂
  omega

/-- A client without a connection appends nothing. -/
theorem inv_of_disconnected {fd : Int} {side : WriteSide} {wire : List UInt8} (hfd : fd < 0)
    (h : Reachable (step buf len) (init fd side wire) s) :
    s.fd < 0 ∧ (s.call = .testing ∨ s.call = .thrown) ∧ s.starts = [] ∧ s.executed = 0 := by
  refine h.invariant (P := fun s => s.fd < 0 ∧ (s.call = .testing ∨ s.call = .thrown) ∧
    s.starts = [] ∧ s.executed = 0) ⟨hfd, Or.inl rfl, rfl, rfl⟩ ?_
  rintro s a s' ⟨hfd, hcall, hstarts, hexec⟩ - hs
  cases a with
  | call =>
    rw [step, callStep] at hs
    rcases hcall with hcall | hcall <;> rw [hcall] at hs
    · cases hs
      exact ⟨hfd, Or.inr (if_pos hfd), hstarts, hexec⟩
    · cases hs
  | others a =>
    obtain ⟨side, -, rfl⟩ := Option.map_eq_some_iff.mp hs
    exact ⟨hfd, hcall, hstarts, hexec⟩
  | serve =>
    obtain ⟨r, -, rfl⟩ := Option.map_eq_some_iff.mp hs
    refine ⟨hfd, hcall, hstarts, ?_⟩
    dsimp only
    rw [hstarts, if_neg List.not_mem_nil]
    exact hexec

end SendSystem

end CppRpc
