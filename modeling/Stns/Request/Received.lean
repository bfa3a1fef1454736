import Stns.Request.Request

/-!
# What a request receives

The response buffer as a reader of strings sees it: the body received so far,
and the string that the buffer starts with.  A failed attempt empties the body
and leaves the string.
-/

namespace Stns

structure Received where
  body : Bytes
  text : Bytes

namespace Received

/-- A chunk goes behind the body, and ends the string. -/
def take (r : Received) (chunk : Bytes) : Received :=
  ⟨r.body ++ chunk, r.body ++ chunk⟩

/-- The chunks up to the first that is too large. -/
def deliver (r : Received) : List Bytes -> Received
  | [] => r
  | chunk :: rest =>
      if chunk.length > maxBufferSize then r else deliver (r.take chunk) rest

def attempt (r : Received) (a : Attempt) : Received :=
  if a.Failed then { r.deliver a.chunks with body := [] }
  else r.deliver a.chunks

/-- What the first attempts leave, if all of them are made. -/
def after (outcomes : Nat -> Attempt) (r : Received) : Nat -> Received
  | 0 => r
  | n + 1 => (after outcomes r n).attempt (outcomes n)

/-- A body that is there is the string. -/
def Coherent (r : Received) : Prop :=
  r.body = [] ∨ r.body = r.text

theorem coherent_deliver {r : Received} (h : r.Coherent)
    (chunks : List Bytes) : (r.deliver chunks).Coherent := by
  induction chunks generalizing r with
  | nil => exact h
  | cons chunk rest ih =>
      unfold deliver
      split
      · exact h
      · exact ih (.inr rfl)

theorem coherent_after {r : Received} (h : r.Coherent)
    (outcomes : Nat -> Attempt) (n : Nat) : (after outcomes r n).Coherent := by
  induction n with
  | zero => exact h
  | succ n ih =>
      unfold after attempt
      split
      · exact .inl rfl
      · exact coherent_deliver ih _

end Received

/-- How contacting the backend ends. -/
structure BackendOutcome where
  result : CurlCode
  notFound : Bool
  received : Received

/-- What the query wrapper leaves: nothing unless it runs and writes. -/
def Received.command (path : CString) (output : Option Bytes) (text : Bytes) :
    Received :=
  match output with
  | none => ⟨[], text⟩
  | some stream =>
      if commandArgument path = false ∨ stream = [] then ⟨[], text⟩
      else
        ⟨Stdio.text (Stdio.fgets maxbuf stream),
          Stdio.text (Stdio.fgets maxbuf stream)⟩

/-- The outcome for a buffer that starts with {lit}`text`. -/
def Backend.outcome (backend : Backend) (c : StnsConf) (path : CString)
    (text : Bytes) : BackendOutcome :=
  match c.queryWrapper with
  | none =>
      let last := lastAttempt backend.transfers c.retries 0
      ⟨(backend.transfers last).finalResult,
        decide ((backend.transfers last).code = stnsHttpNotfound),
        Received.after backend.transfers ⟨[], text⟩ (last + 1)⟩
  | some _ =>
      let received := Received.command path backend.output text
      ⟨if received.body = [] then 1 else CurlCode.ok, false, received⟩

/-!
## The buffer of the code
-/

/-- The response has the body, and its buffer starts with the string. -/
structure Response.Shows (res : Response) (r : Received) : Prop where
  body : res.body = r.body
  text : res.data.cstring.chars = r.text
  nulFree : 0 ∉ r.body
  room : defaultBufferSize <= res.data.capacity

section Http

variable {res : Response} {r : Received}

theorem Response.Shows.take {chunk : Bytes} (h : res.Shows r)
    (hsmall : chunk.length <= maxBufferSize) (hfree : 0 ∉ chunk) :
    (responseCallback res chunk).2.Shows (r.take chunk) := by
  have hbody := (responseCallback_taken res hsmall).right.right.right
  have hnul := h.nulFree
  rw [← h.body] at hnul
  rcases responseCallback_data hsmall h.room hnul hfree with ⟨htext, hroom⟩
  rw [h.body] at hbody htext
  refine ⟨hbody, htext, ?_, hroom⟩
  show 0 ∉ r.body ++ chunk
  rw [List.mem_append, not_or]
  exact ⟨h.nulFree, hfree⟩

theorem Response.Shows.deliver (h : res.Shows r) {chunks : List Bytes}
    (hfree : forall chunk, chunk ∈ chunks -> 0 ∉ chunk) :
    (Stns.deliver res chunks).Shows (r.deliver chunks) := by
  induction chunks generalizing res r with
  | nil => exact h
  | cons chunk rest ih =>
      unfold Stns.deliver Received.deliver
      dsimp only
      by_cases hlarge : chunk.length > maxBufferSize
      · have hne : ¬ 0 = chunk.length := by omega
        rw [responseCallback_refused res hlarge, if_pos hlarge, if_neg hne]
        exact h
      · have hsmall := Nat.le_of_not_lt hlarge
        rw [if_pos (responseCallback_taken res hsmall).left, if_neg hlarge]
        exact ih (h.take hsmall (hfree chunk (List.mem_cons_self ..)))
          (fun next hmem => hfree next (List.mem_cons_of_mem _ hmem))

theorem Response.Shows.attempt (h : res.Shows r) {a : Attempt}
    (hfree : forall chunk, chunk ∈ a.chunks -> 0 ∉ chunk) :
    (innerHttpRequest a res).2.Shows (r.attempt a) := by
  have hdeliver := h.deliver hfree
  unfold innerHttpRequest Received.attempt
  dsimp only
  split
  · -- the size is reset, the bytes are not
    exact ⟨Block.load_zero _, hdeliver.text, List.not_mem_nil, hdeliver.room⟩
  · exact hdeliver

theorem Response.Shows.after (h : res.Shows r) {outcomes : Nat -> Attempt}
    (hfree : forall i chunk, chunk ∈ (outcomes i).chunks -> 0 ∉ chunk)
    (n : Nat) :
    (responseAfter outcomes res n).Shows (Received.after outcomes r n) := by
  induction n with
  | zero => exact h
  | succ n ih => exact ih.attempt (hfree n)

end Http

theorem shows_start {data : Block}
    (hdata : defaultBufferSize <= data.capacity) :
    (Response.start data).Shows ⟨[], data.cstring.chars⟩ :=
  ⟨Block.load_zero _, rfl, List.not_mem_nil, hdata⟩

/-!
## The backend of the code
-/

section Contact

variable {c : StnsConf} {path : CString} {data : Block}

theorem command_refused {output : Option Bytes} {text : Bytes}
    (harg : commandArgument path = false) :
    Received.command path output text = ⟨[], text⟩ := by
  unfold Received.command
  cases output with
  | none => rfl
  | some stream => exact if_pos (.inl harg)

theorem command_stream {stream text : Bytes}
    (harg : commandArgument path = true) (hstream : stream ≠ []) :
    Received.command path (some stream) text =
      ⟨Stdio.text (Stdio.fgets maxbuf stream),
        Stdio.text (Stdio.fgets maxbuf stream)⟩ := by
  unfold Received.command
  simp [harg, hstream]

/-- The query wrapper succeeds exactly when it leaves a body. -/
theorem stnsExecCmd_shows (path : CString)
    (hdata : defaultBufferSize <= data.capacity) (output : Option Bytes) :
    (stnsExecCmd path output (Response.start data)).1 =
        (if (Received.command path output data.cstring.chars).body = [] then 1
          else CurlCode.ok) ∧
      (stnsExecCmd path output (Response.start data)).2.Shows
        (Received.command path output data.cstring.chars) := by
  have hstart := shows_start hdata
  cases harg : commandArgument path with
  | false =>
      have hcode : stnsExecCmd path output (Response.start data) =
          (1, Response.start data) := if_pos harg
      simp only [command_refused harg, hcode]
      exact ⟨rfl, hstart⟩
  | true =>
      cases output with
      | none =>
          have hcode : stnsExecCmd path none (Response.start data) =
              (1, Response.start data) := ite_self _
          rw [hcode]
          exact ⟨rfl, hstart⟩
      | some stream =>
          rw [stnsExecCmd_stream harg]
          by_cases hstream : stream = []
          · rw [hstream]
            unfold Received.command
            simp only [or_true, if_true]
            exact ⟨rfl, hstart⟩
          · have hpieces : Stdio.fgets maxbuf stream ≠ [] :=
              fun h => hstream (Stdio.fgets_eq_nil_iff.mp h)
            have hload := Stdio.appendPieces_load grows_growPastDefault
              (Stdio.fgets maxbuf stream) data 0
            have htext := Stdio.appendPieces_cstring grows_growPastDefault
              hpieces hdata
            have hroom := Stdio.appendPieces_least grows_growPastDefault
              (Stdio.fgets maxbuf stream) 0 hdata
            rw [Block.load_zero, List.nil_append, Nat.zero_add] at hload
            simp only [command_stream harg hstream, List.length_eq_zero_iff]
            split
            · rename_i hnone
              refine ⟨rfl, ?_, htext, Stdio.nulFree_text _, hroom⟩
              rw [hnone]
              exact Block.load_zero _
            · exact ⟨rfl, hload, htext, Stdio.nulFree_text _, hroom⟩

/-- An attempt ends with "not found" exactly when its code is 404. -/
theorem notFound_iff {a : Attempt} {res : Response}
    (hres : res.statusCode < 400) :
    a.code = stnsHttpNotfound <->
      a.finalResult = CurlCode.httpReturnedError ∧
        (innerHttpRequest a res).2.statusCode = stnsHttpNotfound := by
  by_cases hfailed : a.Failed
  · rw [(innerHttpRequest_failed hfailed res).right]
    constructor
    · intro hcode
      refine ⟨if_pos ⟨hfailed, ?_⟩, hcode⟩
      rw [hcode]
      decide
    · intro h
      exact h.right
  · rw [(innerHttpRequest_served hfailed res).right.left]
    unfold Attempt.Failed at hfailed
    unfold stnsHttpNotfound
    omega

theorem contactBackend_outcome (c : StnsConf) (path : CString)
    {backend : Backend} (hdata : defaultBufferSize <= data.capacity)
    (hfree : forall i chunk, chunk ∈ (backend.transfers i).chunks ->
      0 ∉ chunk) :
    exists res contact, contact ≠ Contact.none ∧
      contactBackend c path backend (Response.start data) =
        ((backend.outcome c path data.cstring.chars).result, res, contact) ∧
      res.Shows (backend.outcome c path data.cstring.chars).received ∧
      ((backend.outcome c path data.cstring.chars).notFound = true <->
        (backend.outcome c path data.cstring.chars).result =
            CurlCode.httpReturnedError ∧
          res.statusCode = stnsHttpNotfound) := by
  unfold contactBackend contactBackendBy Backend.outcome
  cases c.queryWrapper with
  | some wrapper =>
      have hshows := stnsExecCmd_shows path hdata backend.output
      dsimp only
      refine ⟨_, .command (commandArgument path), Contact.noConfusion, ?_,
        hshows.right, Bool.noConfusion, ?_⟩
      · rw [← hshows.left]
      · intro h
        have hresult := h.left
        split at hresult
        · exact absurd hresult (by decide)
        · exact absurd hresult (by decide)
  | none =>
      have hretried : forall i,
          i < lastAttempt backend.transfers c.retries 0 ->
            (backend.transfers i).code < 400 := fun i hi =>
        (Attempt.not_final (not_final_of_lt_last (Nat.zero_le i) hi)).left
      dsimp only
      rw [httpBranch_eq, decide_eq_true_eq]
      refine ⟨_, _, ?_, rfl, (shows_start hdata).after hfree _,
        notFound_iff ?_⟩
      · exact Contact.noConfusion
      · have hstart : (200 : Int) < 400 := by decide
        exact responseAfter_statusCode_lt hstart hretried

theorem Backend.coherent_outcome (backend : Backend) (c : StnsConf)
    (path : CString) (text : Bytes) :
    (backend.outcome c path text).received.Coherent := by
  unfold Backend.outcome
  cases c.queryWrapper with
  | none => exact Received.coherent_after (.inl rfl) _ _
  | some wrapper =>
      dsimp only
      unfold Received.command
      cases backend.output with
      | none => exact .inl rfl
      | some stream =>
          dsimp only
          split
          · exact .inl rfl
          · exact .inr rfl

end Contact

end Stns
