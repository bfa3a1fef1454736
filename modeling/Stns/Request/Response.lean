import Stns.Document.Config
import Stns.Foundation.Block

/-!
# The response buffer

The body of a response arrives in chunks that {lit}`response_callback` copies
behind one another.  The buffer is shared by all attempts of a request.
-/

namespace Stns

/-- {lit}`stns_response_t`; the caller has allocated the data. -/
structure Response where
  data : Block
  size : Nat
  statusCode : Int

namespace Response

/-- What {lit}`data[0..size)` holds. -/
def body (res : Response) : Bytes :=
  res.data.load res.size

end Response

/-- {lit}`response_callback` on one chunk: the count it returns and the
response.  Reallocations succeed. -/
def responseCallback (res : Response) (buffer : Bytes) : Nat × Response :=
  let segsize := buffer.length
  if segsize > maxBufferSize then
    (0, res)
  else
    let data :=
      if res.size + segsize + 1 > defaultBufferSize then
        res.data.realloc (res.size + segsize + 1)
      else
        res.data
    (segsize,
      { res with
        data := data.storeString res.size buffer
        size := res.size + segsize })

/-- A transfer delivers its chunks until the callback refuses one. -/
def deliver (res : Response) : List Bytes -> Response
  | [] => res
  | chunk :: rest =>
      let next := responseCallback res chunk
      if next.1 = chunk.length then deliver next.2 rest else next.2

/-- The bytes of the chunks that the callback takes. -/
def deliveredBody : List Bytes -> Bytes
  | [] => []
  | chunk :: rest =>
      if chunk.length > maxBufferSize then [] else chunk ++ deliveredBody rest

section Chunk

variable {chunk : Bytes}

theorem responseCallback_refused (res : Response)
    (h : chunk.length > maxBufferSize) :
    responseCallback res chunk = (0, res) := by
  unfold responseCallback
  dsimp only
  rw [if_pos h]

theorem responseCallback_taken (res : Response)
    (h : chunk.length <= maxBufferSize) :
    (responseCallback res chunk).1 = chunk.length ∧
      (responseCallback res chunk).2.size = res.size + chunk.length ∧
      (responseCallback res chunk).2.statusCode = res.statusCode ∧
      (responseCallback res chunk).2.body = res.body ++ chunk := by
  unfold responseCallback Response.body
  dsimp only
  rw [if_neg (by omega)]
  refine ⟨rfl, rfl, rfl, ?_⟩
  split
  · exact Block.load_storeString _ _ _
  · exact Block.load_storeString _ _ _

/-- The buffer then starts with the body and the chunk, and has not shrunk
below the size it is allocated with. -/
theorem responseCallback_data {res : Response}
    (h : chunk.length <= maxBufferSize)
    (hroom : defaultBufferSize <= res.data.capacity) (hbody : 0 ∉ res.body)
    (hchunk : 0 ∉ chunk) :
    (responseCallback res chunk).2.data.cstring.chars = res.body ++ chunk ∧
      defaultBufferSize <=
        (responseCallback res chunk).2.data.capacity := by
  unfold responseCallback
  dsimp only
  rw [if_neg (by omega)]
  dsimp only
  split
  · rename_i hgrow
    refine ⟨Block.cstring_storeString ?_ hbody hchunk, Nat.le_of_lt hgrow⟩
    exact Nat.lt_succ_self _
  · exact ⟨Block.cstring_storeString (by omega) hbody hchunk, hroom⟩

end Chunk

theorem deliver_body (res : Response) (chunks : List Bytes) :
    (deliver res chunks).size = res.size + (deliveredBody chunks).length ∧
      (deliver res chunks).statusCode = res.statusCode ∧
      (deliver res chunks).body = res.body ++ deliveredBody chunks := by
  induction chunks generalizing res with
  | nil => simp [deliver, deliveredBody]
  | cons chunk rest ih =>
      unfold deliver deliveredBody
      dsimp only
      by_cases hlarge : chunk.length > maxBufferSize
      · have hne : ¬ 0 = chunk.length := by omega
        rw [responseCallback_refused res hlarge, if_pos hlarge, if_neg hne]
        simp
      · rcases responseCallback_taken res
          (Nat.le_of_not_lt hlarge) with ⟨hcount, hsize, hstatus, hbody⟩
        rcases ih (responseCallback res chunk).2 with
          ⟨hsize', hstatus', hbody'⟩
        rw [if_pos hcount, if_neg hlarge, hsize', hstatus', hbody', hsize,
          hstatus, hbody]
        simp [Nat.add_assoc]

end Stns
