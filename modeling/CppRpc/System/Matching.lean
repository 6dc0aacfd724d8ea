import CppRpc.System.Traffic

/-!
# Handles and their responses

The invariant of the client's end.  `Open` says that a response may still come
to a handle: it is in the map, or the poll thread has taken it out and is about
to write.  `Matching` says that an open handle has nothing in it yet, and that
the others have timed out or hold the response that the server's function wrote
for this very call.  It needs different tags: then nobody takes a handle's place
in the map, and a response with its tag is its own (`Traffic.response_of`).
-/

namespace CppRpc

open CData Proto3 Runs RequestServer

/-! ## One handle -/

namespace ResponseHandle

theorem timeOut_timeOut (h : ResponseHandle) : h.timeOut.timeOut = h.timeOut := by
  rcases h.timeOut_cases with ⟨-, htimeOut⟩ | ⟨-, hsame⟩
  · rcases h.timeOut.timeOut_cases with ⟨hwaiting, -⟩ | ⟨-, hsame⟩
    · rw [htimeOut] at hwaiting
      cases hwaiting
    · exact hsame
  · rw [hsame, hsame]

/-- Whatever is not longer than the array of the stub is copied out. -/
theorem readOut_write {tag : BitVec 32} {resp buf : List UInt8} {h : ResponseHandle} {n : Int}
    (hresp : resp.length ≤ BLOCK) (hbuf : buf.length = BLOCK)
    (hw : (new tag).write resp resp.length = some (n, h)) :
    ∃ buf', h.readOut buf BLOCK_SIZE = some ((resp.length : Int), buf') ∧
      buf'.take resp.length = resp := by
  have hblock : BLOCK = 1024 := rfl
  have hlimit : BLOCK_SIZE = 2048 := rfl
  obtain ⟨m, data, hwrite, hdata, hfront, hm⟩ := write_new tag resp
  obtain rfl : h = ⟨⟨2048, m, data⟩, .S_DONE, tag⟩ :=
    (Prod.mk.inj (Option.some.inj (hw.symm.trans hwrite))).2
  obtain rfl : m = resp.length := by omega
  have hcopy := memcpy_eq_some buf data 0 0 resp.length (by omega) (by omega)
  rw [readOut_done rfl rfl (by omega), if_pos (by omega),
    show (0 : Int) = ((0 : Nat) : Int) from rfl, hcopy, Option.map_some]
  refine ⟨_, rfl, ?_⟩
  rw [List.take_zero, List.nil_append, List.drop_zero, hfront, List.take_length,
    List.take_left' rfl]

end ResponseHandle

namespace Rpc

variable {κ ι ω υ : Type}

/-! ## The invariant -/

/-- A response may still come to the handle of the call. -/
def Open (p : Program κ ι) (s : Rpc κ ι ω υ) (i : ι) : Prop :=
  s.responseHandles (p.client i) (p.tag i) = some i ∨
    ∃ buf, s.delivering (p.client i) = some (i, buf)

/-- The handle has timed out, or holds the response to the call. -/
def Settled (p : Program κ ι) (s : Rpc κ ι ω υ) (i : ι) (h : ResponseHandle) : Prop :=
  h.state = .S_TIME_OUT ∨ ∃ buf, Answers p s i buf ∧
    (ResponseHandle.new (p.tag i)).write buf buf.length = some ((buf.length : Int), h)

/-- The invariant. -/
structure Matching (p : Program κ ι) (s : Rpc κ ι ω υ) : Prop where
  registered : ∀ k tag i, s.responseHandles k tag = some i →
    p.client i = k ∧ p.tag i = tag ∧ s.handles i ≠ none
  /-- No response so far had the tag of a handle in the map. -/
  unmatched : ∀ k tag i, s.responseHandles k tag = some i →
    ∀ x ∈ (s.responses k).handed.take (s.matched k), tagOfResponse p.strHash x.bytes ≠ tag
  matched_le : ∀ k, s.matched k ≤ (s.responses k).handed.length
  delivering : ∀ k i buf, s.delivering k = some (i, buf) →
    p.client i = k ∧ s.responseHandles k (p.tag i) = none ∧ s.handles i ≠ none ∧ Answers p s i buf
  fresh : ∀ i h, s.handles i = some h → Open p s i →
    h = .new (p.tag i) ∨ h = (ResponseHandle.new (p.tag i)).timeOut
  settled : ∀ i h, s.handles i = some h → ¬ Open p s i → Settled p s i h
  returned : ∀ i v, s.stage i = .returned v → ∃ buf, Answers p s i buf ∧ v = (p.call i).result buf

variable {p : Program κ ι} {s s' : Rpc κ ι ω υ}

theorem matching_new (fd : κ → Int) (clientCache serverCache : Int) :
    Matching p (new fd clientCache serverCache : Rpc κ ι ω υ) :=
  ⟨nofun, nofun, fun _ => Nat.le_refl _, nofun, nofun, nofun, nofun⟩

theorem Answers.mono {i : ι} {buf : List UInt8} (h : Answers p s i buf)
    (hmem : ∀ x ∈ s.server.responses, x ∈ s'.server.responses) : Answers p s' i buf :=
  ⟨h.caller, h.pair, hmem _ h.mem⟩

theorem Settled.mono {i : ι} {handle : ResponseHandle} (h : Settled p s i handle)
    (hmem : ∀ x ∈ s.server.responses, x ∈ s'.server.responses) : Settled p s' i handle := by
  rcases h with h | ⟨buf, hanswers, hwrite⟩
  · exact Or.inl h
  · exact Or.inr ⟨buf, hanswers.mono hmem, hwrite⟩

/-- A timeout leaves a settled handle alone. -/
theorem Settled.timeOut {i : ι} {handle : ResponseHandle} (h : Settled p s i handle) :
    Settled p s i handle.timeOut := by
  have hsame : handle.timeOut = handle := by
    rcases handle.timeOut_cases with ⟨hwaiting, -⟩ | ⟨-, hsame⟩
    · rcases h with h | ⟨buf, -, hwrite⟩
      · rw [h] at hwaiting
        cases hwaiting
      · rcases ResponseHandle.write_cases hwrite with ⟨hstate, -⟩ | ⟨-, hdone, -⟩
        · cases hstate
        · rw [hdone] at hwaiting
          cases hwaiting
    · exact hsame
  rw [hsame]
  exact h

/-- A step that leaves the handles and the map alone. -/
theorem Matching.keep (h : s.Matching p) (hmap : s'.responseHandles = s.responseHandles)
    (hdelivering : s'.delivering = s.delivering) (hmatched : s'.matched = s.matched)
    (hhandles : s'.handles = s.handles)
    (hhanded : ∀ k, ∃ more, (s'.responses k).handed = (s.responses k).handed ++ more)
    (hmem : ∀ x ∈ s.server.responses, x ∈ s'.server.responses)
    (hreturned : ∀ i v, s'.stage i = .returned v →
      ∃ buf, Answers p s i buf ∧ v = (p.call i).result buf) : s'.Matching p := by
  have hopen : ∀ i, Open p s' i ↔ Open p s i := fun i => by rw [Open, Open, hmap, hdelivering]
  refine ⟨?_, fun k tag i hi => ?_, fun k => ?_, fun k i buf hi => ?_, fun i handle hi ho => ?_,
    fun i handle hi ho => ?_, fun i v hv => ?_⟩
  · rw [hmap, hhandles]
    exact h.registered
  · obtain ⟨more, hmore⟩ := hhanded k
    rw [hmap] at hi
    rw [hmatched, hmore, List.take_append_of_le_length (h.matched_le k)]
    exact h.unmatched k tag i hi
  · obtain ⟨more, hmore⟩ := hhanded k
    have hle := h.matched_le k
    rw [hmatched, hmore, List.length_append]
    omega
  · rw [hdelivering] at hi
    rw [hmap, hhandles]
    obtain ⟨hclient, hnone, hhandle, hanswers⟩ := h.delivering k i buf hi
    exact ⟨hclient, hnone, hhandle, hanswers.mono hmem⟩
  · rw [hhandles] at hi
    exact h.fresh i handle hi ((hopen i).mp ho)
  · rw [hhandles] at hi
    exact (h.settled i handle hi (mt (hopen i).mpr ho)).mono hmem
  · obtain ⟨buf, hanswers, hresult⟩ := hreturned i v hv
    exact ⟨buf, hanswers.mono hmem, hresult⟩

/-! ## The steps -/

theorem update_map_eq_some [DecidableEq κ] {map : κ → BitVec 32 → Option ι} {k k' : κ}
    {tag tag' : BitVec 32} {o : Option ι} {j : ι} :
    Function.update map k (Function.update (map k) tag o) k' tag' = some j ↔
      if k' = k ∧ tag' = tag then o = some j else map k' tag' = some j := by
  by_cases hk : k' = k
  · subst hk
    rw [Function.update_self]
    by_cases htag : tag' = tag
    · subst htag
      rw [Function.update_self]
      simp
    · rw [Function.update_of_ne htag]
      simp [htag]
  · rw [Function.update_of_ne hk]
    simp [hk]

/-- The poll thread takes the next response, and its handle out of the map. -/
theorem Matching.responseTag [DecidableEq κ] [Fintype ω] [Fintype υ] (h : s.Matching p)
    (htraffic : s.Traffic p) (hparts : s.Parts p) (hdistinct : p.DistinctTags) {k : κ}
    {x : Payload} (hnone : s.delivering k = none)
    (hx : (s.responses k).handed[s.matched k]? = some x) :
    Matching p { s with
      matched := Function.update s.matched k (s.matched k + 1)
      responseHandles := Function.update s.responseHandles k
        (Function.update (s.responseHandles k) (tagOfResponse p.strHash x.bytes) none)
      delivering := Function.update s.delivering k
        ((s.responseHandles k (tagOfResponse p.strHash x.bytes)).map fun i => (i, x.bytes)) } := by
  obtain ⟨hlt, hget⟩ := List.getElem?_eq_some_iff.mp hx
  have hmem : x ∈ (s.responses k).handed := hget ▸ List.getElem_mem hlt
  have hsub : ∀ {k' tag j}, Function.update s.responseHandles k
      (Function.update (s.responseHandles k) (tagOfResponse p.strHash x.bytes) none) k' tag =
        some j → s.responseHandles k' tag = some j ∧
          ¬ (k' = k ∧ tag = tagOfResponse p.strHash x.bytes) := by
    intro k' tag j hj
    rw [update_map_eq_some] at hj
    split at hj
    · cases hj
    · rename_i hkeys
      exact ⟨hj, hkeys⟩
  refine ⟨fun k' tag j hj => h.registered k' tag j (hsub hj).1, fun k' tag j hj y hy => ?_,
    fun k' => ?_, fun k' j buf hj => ?_, fun j handle hj ho => ?_, fun j handle hj ho => ?_,
    fun j v hv => ?_⟩
  · obtain ⟨hj', hkeys⟩ := hsub hj
    dsimp only at hy
    by_cases hk : k' = k
    · subst hk
      rw [Function.update_self, List.take_add_one, hx] at hy
      rcases List.mem_append.mp hy with hy | hy
      · exact h.unmatched k' tag j hj' y hy
      · rw [Option.toList_some, List.mem_singleton] at hy
        subst hy
        exact fun htag => hkeys ⟨rfl, htag.symm⟩
    · rw [Function.update_of_ne hk] at hy
      exact h.unmatched k' tag j hj' y hy
  · dsimp only
    by_cases hk : k' = k
    · subst hk
      rw [Function.update_self]
      exact hlt
    · rw [Function.update_of_ne hk]
      exact h.matched_le k'
  · dsimp only at hj ⊢
    by_cases hk : k' = k
    · subst hk
      rw [Function.update_self] at hj
      obtain ⟨j', hj', hpair⟩ := Option.map_eq_some_iff.mp hj
      cases hpair
      obtain ⟨hclient, htag, hhandle⟩ := h.registered _ _ _ hj'
      refine ⟨hclient, ?_, hhandle, ?_⟩
      · rw [htag, Function.update_self, Function.update_self]
      · have hwritten := (hparts.responses k').mem_written hmem
        rw [← hclient] at hwritten
        exact (htraffic.response_of hparts hdistinct hwritten htag.symm).2.mono fun _ => id
    · rw [Function.update_of_ne hk] at hj ⊢
      obtain ⟨hclient, hfree, hhandle, hanswers⟩ := h.delivering k' j buf hj
      exact ⟨hclient, hfree, hhandle, hanswers.mono fun _ => id⟩
  · apply h.fresh j handle hj
    rcases ho with ho | ⟨buf, ho⟩
    · exact Or.inl (hsub ho).1
    · dsimp only at ho
      by_cases hk : p.client j = k
      · subst hk
        rw [Function.update_self] at ho
        obtain ⟨j', hj', hpair⟩ := Option.map_eq_some_iff.mp ho
        cases hpair
        left
        rw [(h.registered _ _ _ hj').2.1]
        exact hj'
      · rw [Function.update_of_ne hk] at ho
        exact Or.inr ⟨buf, ho⟩
  · refine (h.settled j handle hj fun ho' => ho ?_).mono fun _ => id
    rcases ho' with ho' | ⟨buf, ho'⟩
    · by_cases hkeys : p.client j = k ∧ p.tag j = tagOfResponse p.strHash x.bytes
      · obtain ⟨rfl, htag⟩ := hkeys
        right
        dsimp only
        rw [Function.update_self, ← htag, ho']
        exact ⟨x.bytes, rfl⟩
      · left
        dsimp only
        rw [update_map_eq_some, if_neg hkeys]
        exact ho'
    · right
      dsimp only
      rw [Function.update_of_ne]
      · exact ⟨buf, ho'⟩
      · rintro rfl
        rw [hnone] at ho'
        cases ho'
  · obtain ⟨buf, hanswers, hresult⟩ := h.returned j v hv
    exact ⟨buf, hanswers.mono fun _ => id, hresult⟩

section Handles

variable [DecidableEq ι]

/-- A step that changes one handle, and what comes to it. -/
theorem Matching.setHandle (h : s.Matching p) {i : ι} {handle : ResponseHandle}
    {delivering : κ → Option (ι × List UInt8)}
    (hdelivering : ∀ k j buf, delivering k = some (j, buf) → s.delivering k = some (j, buf))
    (hother : ∀ j, j ≠ i → ∀ buf, s.delivering (p.client j) = some (j, buf) →
      delivering (p.client j) = some (j, buf))
    (hfresh : Open p { s with delivering } i →
      handle = .new (p.tag i) ∨ handle = (ResponseHandle.new (p.tag i)).timeOut)
    (hsettled : ¬ Open p { s with delivering } i → Settled p s i handle) :
    Matching p { s.setHandle i handle with delivering } := by
  have hmono : ∀ j, s.handles j ≠ none → Function.update s.handles i (some handle) j ≠ none :=
    forall_setHandle (P := fun j handle => s.handles j ≠ none → handle ≠ none) (fun _ => nofun)
      fun _ => id
  refine ⟨fun k tag j hj => ?_, h.unmatched, h.matched_le, fun k j buf hj => ?_,
    fun j handle' hj ho => ?_, fun j handle' hj ho => ?_, fun j v hv => ?_⟩
  · obtain ⟨hclient, htag, hhandle⟩ := h.registered k tag j hj
    exact ⟨hclient, htag, hmono j hhandle⟩
  · obtain ⟨hclient, hfree, hhandle, hanswers⟩ := h.delivering k j buf (hdelivering k j buf hj)
    exact ⟨hclient, hfree, hmono j hhandle, hanswers.mono fun _ => id⟩
  · dsimp only [Rpc.setHandle] at hj
    by_cases hji : j = i
    · subst hji
      rw [Function.update_self] at hj
      cases hj
      exact hfresh ho
    · rw [Function.update_of_ne hji] at hj
      apply h.fresh j handle' hj
      rcases ho with ho | ⟨buf, ho⟩
      · exact Or.inl ho
      · exact Or.inr ⟨buf, hdelivering _ _ _ ho⟩
  · dsimp only [Rpc.setHandle] at hj
    by_cases hji : j = i
    · subst hji
      rw [Function.update_self] at hj
      cases hj
      exact (hsettled ho).mono fun _ => id
    · rw [Function.update_of_ne hji] at hj
      refine (h.settled j handle' hj fun ho' => ho ?_).mono fun _ => id
      rcases ho' with ho' | ⟨buf, ho'⟩
      · exact Or.inl ho'
      · exact Or.inr ⟨buf, hother j hji buf ho'⟩
  · obtain ⟨buf, hanswers, hresult⟩ := h.returned j v hv
    exact ⟨buf, hanswers.mono fun _ => id, hresult⟩

theorem Matching.timeOut (h : s.Matching p) {i : ι} {handle : ResponseHandle}
    (hhandle : s.handles i = some handle) : Matching p (s.setHandle i handle.timeOut) := by
  show Matching p { s.setHandle i handle.timeOut with delivering := s.delivering }
  refine h.setHandle (fun _ _ _ => id) (fun _ _ _ => id) ?_ ?_
  · intro ho
    rcases h.fresh i handle hhandle ho with rfl | rfl
    · exact Or.inr rfl
    · exact Or.inr (ResponseHandle.timeOut_timeOut _)
  · exact fun ho => (h.settled i handle hhandle ho).timeOut

/-- The poll thread writes into an open handle, which it closes. -/
theorem Matching.write [DecidableEq κ] (h : s.Matching p) {k : κ} {i : ι} {buf : List UInt8}
    {handle : ResponseHandle} {r : Int × ResponseHandle} (hd : s.delivering k = some (i, buf))
    (hhandle : s.handles i = some handle) (hr : handle.write buf buf.length = some r) :
    Matching p { s.setHandle i r.2 with delivering := Function.update s.delivering k none } := by
  obtain ⟨rfl, hfree, -, hanswers⟩ := h.delivering k i buf hd
  apply h.setHandle
  · intro k' j buf' hj
    by_cases hk : k' = p.client i
    · subst hk
      rw [Function.update_self] at hj
      cases hj
    · rw [Function.update_of_ne hk] at hj
      exact hj
  · intro j hji buf' hj
    by_cases hk : p.client j = p.client i
    · rw [hk, hd] at hj
      cases hj
      exact absurd rfl hji
    · rw [Function.update_of_ne hk]
      exact hj
  · rintro (ho | ⟨buf', ho⟩)
    · rw [show s.responseHandles (p.client i) (p.tag i) = some i from ho] at hfree
      cases hfree
    · dsimp only at ho
      rw [Function.update_self] at ho
      cases ho
  · intro _
    rcases h.fresh i handle hhandle (Or.inr ⟨buf, hd⟩) with rfl | rfl
    · obtain ⟨n, data, hwrite, -⟩ := ResponseHandle.write_new (p.tag i) buf
      obtain rfl : r = _ := Option.some.inj (hr.symm.trans hwrite)
      exact Or.inr ⟨buf, hanswers, hwrite⟩
    · have hsame : r = (0, (ResponseHandle.new (p.tag i)).timeOut) :=
        (Option.some.inj hr).symm
      rw [hsame]
      exact Or.inl rfl

/-- A new handle goes into the map, where its tag is free. -/
theorem Matching.register [DecidableEq κ] [Fintype ω] [Fintype υ] (h : s.Matching p)
    (htraffic : s.Traffic p) (hparts : s.Parts p) (hdistinct : p.DistinctTags) {i : ι}
    (hstage : s.stage i = .registering) :
    Matching p { (s.goto i .writing).setHandle i (.new (p.tag i)) with
      responseHandles := Function.update s.responseHandles (p.client i)
        (Function.update (s.responseHandles (p.client i)) (p.tag i) (some i)) } := by
  have hnone : s.handles i = none := by
    have hholds := htraffic.holds i
    rw [hstage] at hholds
    exact hholds
  have hmono : ∀ j, s.handles j ≠ none →
      Function.update s.handles i (some (.new (p.tag i))) j ≠ none :=
    forall_setHandle (P := fun j handle => s.handles j ≠ none → handle ≠ none) (fun _ => nofun)
      fun _ => id
  -- The key of another call is another one.
  have hkey : ∀ j, p.client j = p.client i ∧ p.tag j = p.tag i → j = i := fun j hj =>
    hdistinct j i hj.1 hj.2
  refine ⟨fun k tag j hj => ?_, fun k tag j hj x hx => ?_, h.matched_le, fun k j buf hj => ?_,
    fun j handle hj ho => ?_, fun j handle hj ho => ?_, fun j v hv => ?_⟩
  · dsimp only [Rpc.setHandle, goto] at hj ⊢
    rw [update_map_eq_some] at hj
    split at hj
    · rename_i hkeys
      cases hj
      rw [Function.update_self]
      exact ⟨hkeys.1.symm, hkeys.2.symm, nofun⟩
    · obtain ⟨hclient, htag, hhandle⟩ := h.registered k tag j hj
      exact ⟨hclient, htag, hmono j hhandle⟩
  · dsimp only [Rpc.setHandle, goto] at hj hx
    rw [update_map_eq_some] at hj
    split at hj
    · rename_i hkeys
      obtain ⟨rfl, rfl⟩ := hkeys
      intro htag
      have hwritten := (hparts.responses (p.client i)).mem_written (List.mem_of_mem_take hx)
      exact (htraffic.response_of hparts hdistinct hwritten htag).1 hnone
    · exact h.unmatched k tag j hj x hx
  · dsimp only [Rpc.setHandle, goto] at hj ⊢
    obtain ⟨hclient, hfree, hhandle, hanswers⟩ := h.delivering k j buf hj
    refine ⟨hclient, ?_, hmono j hhandle, hanswers.mono fun _ => id⟩
    rw [Option.eq_none_iff_forall_ne_some]
    intro j' hj'
    rw [update_map_eq_some] at hj'
    split at hj'
    · rename_i hkeys
      obtain rfl := hkey j ⟨hclient.trans hkeys.1, hkeys.2⟩
      exact hhandle hnone
    · rw [hfree] at hj'
      cases hj'
  · dsimp only [Rpc.setHandle, goto] at hj
    by_cases hji : j = i
    · subst hji
      rw [Function.update_self] at hj
      cases hj
      exact Or.inl rfl
    · rw [Function.update_of_ne hji] at hj
      apply h.fresh j handle hj
      rcases ho with ho | ho
      · dsimp only [Rpc.setHandle, goto] at ho
        rw [update_map_eq_some] at ho
        split at ho
        · cases ho
          exact absurd rfl hji
        · exact Or.inl ho
      · exact Or.inr ho
  · dsimp only [Rpc.setHandle, goto] at hj
    by_cases hji : j = i
    · subst hji
      refine absurd (Or.inl ?_) ho
      dsimp only [Rpc.setHandle, goto]
      rw [update_map_eq_some, if_pos ⟨rfl, rfl⟩]
    · rw [Function.update_of_ne hji] at hj
      refine (h.settled j handle hj fun ho' => ho ?_).mono fun _ => id
      rcases ho' with ho' | ho'
      · left
        dsimp only [Rpc.setHandle, goto]
        rw [update_map_eq_some, if_neg fun hkeys => hji (hkey j hkeys)]
        exact ho'
      · exact Or.inr ho'
  · dsimp only [Rpc.setHandle, goto] at hv
    by_cases hji : j = i
    · subst hji
      rw [Function.update_self] at hv
      cases hv
    · rw [Function.update_of_ne hji] at hv
      obtain ⟨buf, hanswers, hresult⟩ := h.returned j v hv
      exact ⟨buf, hanswers.mono fun _ => id, hresult⟩

end Handles

/-- What `read` copies out: nothing, or the response to the call. -/
theorem Matching.readOut [DecidableEq κ] (h : s.Matching p) (htraffic : s.Traffic p) {i : ι}
    {handle : ResponseHandle} (hhandle : s.handles i = some handle) {buf : List UInt8}
    (hbuf : buf.length = BLOCK) :
    ∃ r, handle.readOut buf BLOCK_SIZE = some r ∧
      (r.1 = 0 ∨ ∃ resp, Answers p s i resp ∧ r.2.take r.1.toNat = resp) := by
  have htimedOut : ∀ {h : ResponseHandle}, h.state = .S_TIME_OUT →
      h.readOut buf BLOCK_SIZE = some (0, buf) := fun hstate => if_pos hstate
  by_cases ho : Open p s i
  · rcases h.fresh i handle hhandle ho with rfl | rfl
    · refine ⟨(0, buf), ?_, Or.inl rfl⟩
      show (memcpy buf 0 (List.replicate 2048 0) 0 0).map (fun buf => ((0 : Int), buf)) = _
      generalize List.replicate 2048 (0 : UInt8) = data
      rw [show (0 : Int) = ((0 : Nat) : Int) from rfl,
        memcpy_eq_some buf data 0 0 0 (by omega) (by omega)]
      simp
    · exact ⟨_, htimedOut rfl, Or.inl rfl⟩
  · rcases h.settled i handle hhandle ho with hstate | ⟨resp, hanswers, hwrite⟩
    · exact ⟨_, htimedOut hstate, Or.inl rfl⟩
    · obtain ⟨buf', hread, hresp⟩ :=
        ResponseHandle.readOut_write (htraffic.short _ hanswers.mem) hbuf hwrite
      exact ⟨_, hread, Or.inr ⟨resp, hanswers, hresp⟩⟩

/-- The bytes that a handle holds. -/
def stored (handle : ResponseHandle) : List UInt8 :=
  handle.buffer.data.take handle.buffer.length.toNat

/-- A handle that has been written to holds the response to the call. -/
theorem Matching.stored [DecidableEq κ] (h : s.Matching p) (htraffic : s.Traffic p) {i : ι}
    {handle : ResponseHandle} (hhandle : s.handles i = some handle)
    (hdone : handle.state = .S_DONE) : Answers p s i (Rpc.stored handle) := by
  by_cases ho : Open p s i
  · rcases h.fresh i handle hhandle ho with rfl | rfl <;> cases hdone
  · rcases h.settled i handle hhandle ho with hstate | ⟨resp, hanswers, hwrite⟩
    · rw [hstate] at hdone
      cases hdone
    · have hblock : BLOCK = 1024 := rfl
      have hshort : resp.length ≤ BLOCK := htraffic.short _ hanswers.mem
      obtain ⟨n, data, hnew, -, hfront, hn⟩ := ResponseHandle.write_new (p.tag i) resp
      obtain rfl : handle = ⟨⟨2048, n, data⟩, .S_DONE, p.tag i⟩ :=
        (Prod.mk.inj (Option.some.inj (hwrite.symm.trans hnew))).2
      obtain rfl : n = resp.length := by omega
      rw [Rpc.stored, Int.toNat_natCast, hfront, List.take_length]
      exact hanswers

section Step

variable [DecidableEq κ] [DecidableEq ι] [DecidableEq ω] [DecidableEq υ] [Fintype ω] [Fintype υ]

theorem Matching.step (h : s.Matching p) (htraffic : s.Traffic p) (hparts : s.Parts p)
    (hdistinct : p.DistinctTags) {a : Action κ ι ω υ} (hs : Rpc.step p s a = some s') :
    s'.Matching p := by
  have hsame : ∀ k, ∃ more, (s.responses k).handed = (s.responses k).handed ++ more :=
    fun _ => ⟨[], (List.append_nil _).symm⟩
  have hreturned : ∀ {i stage}, (∀ v, stage = .returned v →
      ∃ buf, Answers p s i buf ∧ v = (p.call i).result buf) →
      ∀ j v, (s.goto i stage).stage j = .returned v →
        ∃ buf, Answers p s j buf ∧ v = (p.call j).result buf := fun hi j =>
    forall_goto (P := fun j stage => ∀ v, stage = .returned v →
      ∃ buf, Answers p s j buf ∧ v = (p.call j).result buf) hi h.returned j
  cases effect_of_step hs with
  | start i =>
    refine h.keep rfl rfl rfl rfl hsame (fun _ => id) (hreturned fun v hv => ?_)
    split at hv <;> cases hv
  | register i hstage => exact h.register htraffic hparts hdistinct hstage
  | writePackage i b l =>
    refine h.keep rfl rfl rfl rfl hsame (fun _ => id) (hreturned fun v hv => ?_)
    unfold Rpc.written at hv
    split_ifs at hv
  | timeOut i handle hhandle => exact h.timeOut hhandle
  | read i handle buf r hstage hhandle hbuf hr =>
    refine h.keep rfl rfl rfl rfl hsame (fun _ => id) (hreturned fun v hv => ?_)
    have hlength : buf.length = BLOCK := by
      rcases serializeToBlock_cases (p.call i).request with ⟨-, b, hb, hlen⟩ | ⟨-, hb⟩
      · cases hb.symm.trans hbuf
        exact hlen
      · cases hb.symm.trans hbuf
    obtain ⟨r', hr', hresp⟩ := h.readOut htraffic hhandle hlength
    cases hr'.symm.trans hr
    unfold answered at hv
    split at hv
    · cases hv
    · rename_i hne
      obtain ⟨resp, hanswers, hcopied⟩ := hresp.resolve_left hne
      rw [hcopied] at hv
      cases hv
      exact ⟨resp, hanswers, rfl⟩
  | closeConnection | clientWrite | serverRead | readPackage =>
    exact h.keep rfl rfl rfl rfl hsame (fun _ => id) h.returned
  | serverWrite k n l hl | clientRead k n l hl =>
    exact h.keep rfl rfl rfl rfl (fun j => (histories_update hl nofun j).2) (fun _ => id) h.returned
  | execute u t out server b l _ _ _ _ _ hresponses hsend =>
    refine h.keep rfl rfl rfl rfl (fun j => ?_) (fun x hx => ?_) h.returned
    · by_cases hj : j = t.handle
      · subst hj
        refine ⟨[], ?_⟩
        dsimp only [setResponses]
        rw [Function.update_self, (Link.send_histories hsend).2, List.append_nil]
      · refine ⟨[], ?_⟩
        dsimp only [setResponses]
        rw [Function.update_of_ne hj, List.append_nil]
    · rw [hresponses]
      exact List.mem_append_left _ hx
  | server a b server _ _ hresponses =>
    exact h.keep rfl rfl rfl rfl hsame (fun x hx => by rw [hresponses]; exact hx) h.returned
  | responseTag k x hnone hx => exact h.responseTag htraffic hparts hdistinct hnone hx
  | write k i buf handle r hd hhandle hr => exact h.write hd hhandle hr

theorem matching_of_reachable (hdistinct : p.DistinctTags) {fd : κ → Int}
    {clientCache serverCache : Int}
    (h : ReachableIf (Rpc.step p) (Within p) (new fd clientCache serverCache) s) : s.Matching p :=
  ReachableIf.invariant_under (Q := fun s => s.Parts p ∧ s.Traffic p)
    (fun _ hs => ⟨parts_of_reachable hs, traffic_of_reachable hdistinct hs⟩) (matching_new ..)
    (fun _ _ _ hQ _ hi _ hs => hi.step hQ.2 hQ.1 hdistinct hs) h

end Step

end Rpc

end CppRpc
