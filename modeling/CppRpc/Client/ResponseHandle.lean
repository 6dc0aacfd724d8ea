import CppRpc.Util.Buffer
import CppRpc.Util.Condition

/-!
# `RPC_client/ResponseHandle.cc`

The functions as the code computes them, one per block under a lock.  An `int`
that is only compared is a `BitVec 32`, among them the tags.

`ResponseHandle::read` is three parts: it starts the timer, waits on the shared
condition for the tag of the handle, and copies the response out under the
lock of the handle.  Only the last part computes anything here (`readOut`).
`write` and `time_out` notify under the lock of the handle, after the store;
the caller of these functions adds the notification.
-/

namespace CppRpc

open CData

/-- `State`. -/
inductive State
  | S_WAITING
  | S_DONE
  | S_TIME_OUT
  | S_LOCAL_CACHE_FULL
  | S_SERVER_ERROR
  | S_NO_CONNECTION
  deriving DecidableEq

/-- `ResponseHandle`: `m_buffer` (whose bytes are the array `buf`), `m_state`
and `m_tag`. -/
structure ResponseHandle where
  buffer : Buffer
  state : State
  tag : BitVec 32
  deriving DecidableEq

namespace ResponseHandle

/-- The constructor.  The bytes of the array are not initialised. -/
def new (tag : BitVec 32) : ResponseHandle :=
  ⟨⟨2048, 0, List.replicate 2048 0⟩, .S_WAITING, tag⟩

@[simp] theorem new_state (tag : BitVec 32) : (new tag).state = .S_WAITING := rfl

/-- The copy that `read` makes under the lock: the return value and `buf`. -/
def readOut (h : ResponseHandle) (buf : List UInt8) (maxLen : Int) :
    Option (Int × List UInt8) :=
  if h.state = .S_TIME_OUT then some (0, buf)
  else if maxLen > toSizeT h.buffer.length then
    (memcpy buf 0 h.buffer.data 0 h.buffer.length).map fun buf => (toSizeT h.buffer.length, buf)
  else some (toSizeT h.buffer.length, buf)

/-- `write` up to the notification: the return value and the handle.  Nothing
is notified when the state is `S_TIME_OUT`. -/
def write (h : ResponseHandle) (buf : List UInt8) (len : Int) : Option (Int × ResponseHandle) :=
  if h.state = .S_TIME_OUT then some (0, h)
  else if toSizeT h.buffer.capacity ≥ len then
    (memcpy h.buffer.data 0 buf 0 len).map fun data =>
      (len, { h with buffer := { h.buffer with data, length := toInt32 len }, state := .S_DONE })
  else some (len, { h with state := .S_DONE })

/-- `time_out` up to the notification. -/
def timeOut (h : ResponseHandle) : ResponseHandle :=
  if h.state = .S_WAITING then { h with state := .S_TIME_OUT } else h

@[simp] theorem timeOut_tag (h : ResponseHandle) : h.timeOut.tag = h.tag := by
  unfold timeOut
  split <;> rfl

/-- `time_out` ends a handle that waits, and leaves the others alone. -/
theorem timeOut_cases (h : ResponseHandle) :
    (h.state = .S_WAITING ∧ h.timeOut.state = .S_TIME_OUT) ∨
      (h.state ≠ .S_WAITING ∧ h.timeOut = h) := by
  unfold timeOut
  split
  · rename_i hw
    exact Or.inl ⟨hw, rfl⟩
  · rename_i hw
    exact Or.inr ⟨hw, rfl⟩

theorem write_cases {h h' : ResponseHandle} {buf : List UInt8} {len n : Int}
    (hw : h.write buf len = some (n, h')) :
    (h.state = .S_TIME_OUT ∧ h' = h) ∨
      (h.state ≠ .S_TIME_OUT ∧ h'.state = .S_DONE ∧ h'.tag = h.tag) := by
  unfold write at hw
  split at hw
  · rename_i ht
    obtain ⟨-, rfl⟩ := Prod.mk.inj (Option.some.inj hw)
    exact Or.inl ⟨ht, rfl⟩
  · rename_i ht
    refine Or.inr ⟨ht, ?_⟩
    split at hw
    · obtain ⟨data, -, hd⟩ := Option.map_eq_some_iff.mp hw
      obtain ⟨-, rfl⟩ := Prod.mk.inj hd
      exact ⟨rfl, rfl⟩
    · obtain ⟨-, rfl⟩ := Prod.mk.inj (Option.some.inj hw)
      exact ⟨rfl, rfl⟩

/-- A response that arrives first is stored, or is too long and leaves the length
at zero. -/
theorem write_new (tag : BitVec 32) (resp : List UInt8) :
    ∃ (n : Nat) (data : List UInt8), (new tag).write resp resp.length =
        some ((resp.length : Int), ⟨⟨2048, n, data⟩, .S_DONE, tag⟩) ∧
      data.length = 2048 ∧ data.take n = resp.take n ∧
      (resp.length ≤ 2048 ∧ n = resp.length ∨ 2048 < resp.length ∧ n = 0) := by
  have hcap : toSizeT (new tag).buffer.capacity = 2048 := toSizeT_eq_self (n := 2048) (by decide)
    (by decide)
  have hdata : (new tag).buffer.data.length = 2048 := List.length_replicate
  have hstate : (new tag).state ≠ .S_TIME_OUT := by
    rw [new_state]
    decide
  unfold write
  rw [if_neg hstate, hcap]
  by_cases hfits : resp.length ≤ 2048
  · have hcopy := memcpy_eq_some (new tag).buffer.data resp 0 0 resp.length (by omega) (by omega)
    rw [if_pos (show (2048 : Int) ≥ resp.length by omega),
      show (0 : Int) = ((0 : Nat) : Int) from rfl, hcopy, Option.map_some,
      toInt32_eq_self (by omega) (by omega)]
    refine ⟨resp.length, _, rfl, ?_, ?_, Or.inl ⟨hfits, rfl⟩⟩
    · simp only [List.length_append, List.length_take, List.length_drop, hdata]
      omega
    · rw [List.take_zero, List.nil_append, List.drop_zero, List.take_length,
        List.take_left' rfl]
  · rw [if_neg (by omega)]
    exact ⟨0, _, rfl, hdata, rfl, Or.inr ⟨by omega, rfl⟩⟩

/-- What `read` hands out once there is a response. -/
theorem readOut_done {h : ResponseHandle} (hs : h.state = .S_DONE) {n : Nat}
    (hn : h.buffer.length = n) (hlt : n ≤ 2048) (buf : List UInt8) (maxLen : Int) :
    h.readOut buf maxLen =
      if (n : Int) < maxLen then (memcpy buf 0 h.buffer.data 0 n).map fun buf => ((n : Int), buf)
      else some ((n : Int), buf) := by
  unfold readOut
  rw [if_neg (by rw [hs]; decide), hn, toSizeT_eq_self (by omega) (by omega)]

end ResponseHandle

end CppRpc
