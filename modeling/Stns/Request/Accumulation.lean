import Stns.Request.Http

/-!
# Accumulating a body

The buffer grows only past its default size, and then to the exact need, so it
may shrink when a body starts anew.  It always has room for the default size
and for the body so far with its terminator.
-/

namespace Stns

/-- What happens to the buffer of a request: a chunk arrives, or a failed
transfer gives its body up. -/
inductive BufferEvent where
  | chunk (buffer : Bytes)
  | reset

def BufferEvent.Small : BufferEvent -> Prop
  | .chunk buffer => buffer.length <= maxBufferSize
  | .reset => True

namespace Response

def bufferStep (res : Response) : BufferEvent -> Response
  | .chunk buffer => (responseCallback res buffer).2
  | .reset => { res with size := 0 }

def bufferRun (res : Response) (events : List BufferEvent) : Response :=
  events.foldl bufferStep res

/-- The buffer has room, and all that was written lies inside it. -/
structure Roomy (res : Response) : Prop where
  inBounds : res.data.inBounds = true
  default : defaultBufferSize <= res.data.capacity
  room : res.size < res.data.capacity

end Response

/-- One event after another: a chunk goes behind the bytes since the last
reset. -/
def appendEvent (body : Bytes) : BufferEvent -> Bytes
  | .chunk buffer => body ++ buffer
  | .reset => []

/-- The chunks since the last reset, joined. -/
def sinceReset (events : List BufferEvent) : Bytes :=
  events.foldl appendEvent []

/-!
## One event
-/

section Step

variable {res : Response}

theorem Response.Roomy.callback (h : res.Roomy) (buffer : Bytes) :
    (responseCallback res buffer).2.Roomy := by
  unfold responseCallback
  dsimp only
  by_cases hlarge : buffer.length > maxBufferSize
  · rw [if_pos hlarge]
    exact h
  · rw [if_neg hlarge]
    by_cases hgrow : res.size + buffer.length + 1 > defaultBufferSize
    · simp only [if_pos hgrow]
      have hfits : res.size + buffer.length <
          (res.data.realloc (res.size + buffer.length + 1)).capacity :=
        Nat.lt_succ_self _
      exact ⟨Block.storeString_inBounds h.inBounds hfits, Nat.le_of_lt hgrow,
        hfits⟩
    · simp only [if_neg hgrow]
      have hdefault := h.default
      have hfits : res.size + buffer.length < res.data.capacity := by
        omega
      exact ⟨Block.storeString_inBounds h.inBounds hfits, hdefault, hfits⟩

theorem Response.Roomy.reset (h : res.Roomy) : { res with size := 0 }.Roomy :=
  ⟨h.inBounds, h.default, Nat.zero_lt_of_lt h.room⟩

theorem Response.Roomy.bufferStep (h : res.Roomy) (event : BufferEvent) :
    (res.bufferStep event).Roomy := by
  cases event with
  | chunk buffer => exact h.callback buffer
  | reset => exact h.reset

theorem responseCallback_terminated {buffer : Bytes}
    (h : buffer.length <= maxBufferSize) :
    (responseCallback res buffer).2.data.bytes
      (responseCallback res buffer).2.size = 0 := by
  unfold responseCallback
  dsimp only
  rw [if_neg (Nat.not_lt.mpr h)]
  dsimp only
  split
  · exact Block.storeString_terminated _ _ _
  · exact Block.storeString_terminated _ _ _

/-- The body of the buffer follows the bytes since the last reset. -/
theorem Response.body_bufferStep {event : BufferEvent} (h : event.Small) :
    (res.bufferStep event).body = appendEvent res.body event := by
  cases event with
  | chunk buffer => exact (responseCallback_taken res h).right.right.right
  | reset => exact Block.load_zero _

end Step

/-!
## A run of events
-/

section Run

variable {res : Response}

theorem Response.bufferRun_cons (event : BufferEvent)
    (rest : List BufferEvent) :
    res.bufferRun (event :: rest) = (res.bufferStep event).bufferRun rest :=
  rfl

theorem Response.bufferRun_append (front back : List BufferEvent) :
    res.bufferRun (front ++ back) = (res.bufferRun front).bufferRun back :=
  List.foldl_append ..

/-- No event of a run stores past the capacity. -/
theorem Response.Roomy.bufferRun (h : res.Roomy) (events : List BufferEvent) :
    (res.bufferRun events).Roomy := by
  induction events generalizing res with
  | nil => exact h
  | cons event rest ih => exact ih (h.bufferStep event)

theorem Response.body_bufferRun {events : List BufferEvent}
    (hsmall : forall event, event ∈ events -> event.Small) :
    (res.bufferRun events).body = events.foldl appendEvent res.body := by
  induction events generalizing res with
  | nil => rfl
  | cons event rest ih =>
      have hrest : forall event, event ∈ rest -> event.Small :=
        fun event hmem => hsmall event (List.mem_cons_of_mem _ hmem)
      rw [bufferRun_cons, ih hrest,
        body_bufferStep (hsmall event List.mem_cons_self)]
      rfl

theorem Response.body_length (res : Response) : res.body.length = res.size :=
  Block.load_length _ _

theorem roomy_of_default {data : Block}
    (hdata : data.capacity = defaultBufferSize)
    (hbounds : data.inBounds = true) (status : Int) :
    (Response.mk data 0 status).Roomy := by
  have hpositive : 0 < defaultBufferSize := by decide
  refine ⟨hbounds, Nat.le_of_eq hdata.symm, ?_⟩
  show 0 < data.capacity
  rw [hdata]
  exact hpositive

/-- From a buffer of the default size on, whatever it holds, every store lies
inside the buffer, and after a chunk the buffer holds exactly the chunks since
the last reset and a terminator. -/
theorem accumulation_exact {data : Block}
    (hdata : data.capacity = defaultBufferSize)
    (hbounds : data.inBounds = true) (status : Int)
    {events : List BufferEvent}
    (hsmall : forall event, event ∈ events -> event.Small) :
    ((Response.mk data 0 status).bufferRun events).data.inBounds = true ∧
      forall front buffer, events = front ++ [.chunk buffer] ->
        let res := (Response.mk data 0 status).bufferRun events
        res.size = (sinceReset events).length ∧
          res.data.load res.size = sinceReset events ∧
          res.size < res.data.capacity ∧ res.data.bytes res.size = 0 := by
  have hroomy :=
    (roomy_of_default hdata hbounds status).bufferRun events
  refine ⟨hroomy.inBounds, ?_⟩
  intro front buffer hevents
  have hbody : ((Response.mk data 0 status).bufferRun events).body =
      sinceReset events := by
    rw [Response.body_bufferRun hsmall]
    rfl
  have hlast : BufferEvent.Small (.chunk buffer) := by
    apply hsmall
    rw [hevents]
    exact List.mem_append_right front List.mem_cons_self
  dsimp only
  refine ⟨?_, hbody, hroomy.room, ?_⟩
  · rw [← hbody, Response.body_length]
  · rw [hevents, Response.bufferRun_append]
    exact responseCallback_terminated hlast

/-- A transfer that is given up and the one that follows it, in a buffer of
zeros. -/
theorem accumulation_exact_second_transfer :
    let events : List BufferEvent :=
      [.chunk (ascii "[\x7b"), .reset, .chunk (ascii "["), .chunk (ascii "]")]
    ((Response.mk ⟨defaultBufferSize, fun _ => 0, true⟩ 0 200).bufferRun
        events).data.inBounds = true ∧
      forall front buffer, events = front ++ [.chunk buffer] ->
        let res := (Response.mk ⟨defaultBufferSize, fun _ => 0, true⟩ 0
          200).bufferRun events
        res.size = (sinceReset events).length ∧
          res.data.load res.size = sinceReset events ∧
          res.size < res.data.capacity ∧ res.data.bytes res.size = 0 := by
  refine accumulation_exact rfl rfl 200 ?_
  intro event hmem
  simp only [List.mem_cons, List.not_mem_nil, or_false] at hmem
  rcases hmem with rfl | rfl | rfl | rfl <;>
    simp [BufferEvent.Small, ascii, maxBufferSize]

end Run

/-!
## The events of a request

A transfer is a run of events: the chunks up to the first that is refused, and
a reset if it failed.
-/

/-- The chunks of a transfer that the callback takes. -/
def takenChunks (chunks : List Bytes) : List Bytes :=
  chunks.takeWhile (fun chunk => decide (chunk.length <= maxBufferSize))

theorem deliveredBody_flatten (chunks : List Bytes) :
    deliveredBody chunks = (takenChunks chunks).flatten := by
  induction chunks with
  | nil => rfl
  | cons chunk rest ih =>
      unfold deliveredBody takenChunks
      by_cases hsmall : chunk.length <= maxBufferSize
      · rw [if_neg (Nat.not_lt.mpr hsmall),
          List.takeWhile_cons_of_pos (by simpa using hsmall), ih]
        rfl
      · rw [if_pos (Nat.lt_of_not_le hsmall),
          List.takeWhile_cons_of_neg (by simpa using hsmall)]
        rfl

def Attempt.events (a : Attempt) : List BufferEvent :=
  (takenChunks a.chunks).map .chunk ++ if a.Failed then [.reset] else []

theorem deliver_events (res : Response) (chunks : List Bytes) :
    deliver res chunks =
      res.bufferRun ((takenChunks chunks).map .chunk) := by
  induction chunks generalizing res with
  | nil => rfl
  | cons chunk rest ih =>
      unfold deliver takenChunks
      dsimp only
      by_cases hsmall : chunk.length <= maxBufferSize
      · have hcount := (responseCallback_taken res hsmall).left
        rw [if_pos hcount, List.takeWhile_cons_of_pos (by simpa using hsmall),
          ih]
        rfl
      · have hne : ¬ 0 = chunk.length := by omega
        rw [responseCallback_refused res (Nat.lt_of_not_le hsmall),
          if_neg hne, List.takeWhile_cons_of_neg (by simpa using hsmall)]
        rfl

theorem innerHttpRequest_events (a : Attempt) (res : Response) :
    (innerHttpRequest a res).2.data = (res.bufferRun a.events).data ∧
      (innerHttpRequest a res).2.size = (res.bufferRun a.events).size := by
  unfold innerHttpRequest Attempt.events
  dsimp only
  rw [Response.bufferRun_append, ← deliver_events]
  split
  · exact ⟨rfl, rfl⟩
  · exact ⟨rfl, rfl⟩

theorem Response.Roomy.attempt {res : Response} (h : res.Roomy)
    (a : Attempt) : (innerHttpRequest a res).2.Roomy := by
  rcases innerHttpRequest_events a res with ⟨hdata, hsize⟩
  have hrun := h.bufferRun a.events
  refine ⟨?_, ?_, ?_⟩
  · rw [hdata]
    exact hrun.inBounds
  · rw [hdata]
    exact hrun.default
  · rw [hdata, hsize]
    exact hrun.room

/-- However often a request is retried, no transfer stores past the buffer. -/
theorem Response.Roomy.after {res : Response} (h : res.Roomy)
    (outcomes : Nat -> Attempt) (n : Nat) :
    (responseAfter outcomes res n).Roomy := by
  induction n with
  | zero => exact h
  | succ n ih => exact ih.attempt (outcomes n)

end Stns
