import Mathlib.Algebra.BigOperators.Intervals
import Stns.Request.Http

/-!
# The size limit of a response

The callback compares the length of one chunk with the limit.  What a request
collects is the sum of the chunks since the last attempt that failed, so the
limit holds for the whole response only if that sum stays below it.
-/

namespace Stns

/-- Every call of the callback in a transfer leaves a size within the limit, or
returns a count other than the chunk's and so ends the transfer. -/
def WithinLimit (res : Response) : List Bytes -> Prop
  | [] => True
  | chunk :: rest =>
      ((responseCallback res chunk).1 = chunk.length ->
        (responseCallback res chunk).2.size <= maxBufferSize ∧
          WithinLimit (responseCallback res chunk).2 rest)

/-- Some call of the callback in a transfer ends it. -/
def Aborted (res : Response) : List Bytes -> Prop
  | [] => False
  | chunk :: rest =>
      (responseCallback res chunk).1 = chunk.length ->
        Aborted (responseCallback res chunk).2 rest

/-- Over all attempts of a request, the response never exceeds the limit
without an abort, and no body above the limit gets through. -/
structure SizeLimited (c : StnsConf) (outcomes : Nat -> Attempt)
    (data : Block) : Prop where
  calls : forall i,
    i < (httpBranch c outcomes (Response.start data)).attempts ->
      WithinLimit (responseAfter outcomes (Response.start data) i)
        (outcomes i).chunks
  bodies : forall i,
    i < (httpBranch c outcomes (Response.start data)).attempts ->
      maxBufferSize < (outcomes i).chunks.flatten.length ->
        Aborted (responseAfter outcomes (Response.start data) i)
          (outcomes i).chunks

/-- The number of bytes that attempts deliver, from one up to another. -/
def deliveredLength (outcomes : Nat -> Attempt) (first next : Nat) : Nat :=
  (Finset.Ico first next).sum
    (fun i => (deliveredBody (outcomes i).chunks).length)

/-!
## One transfer
-/

section Transfer

variable {res : Response} {chunks : List Bytes}

/-- A transfer that starts within the limit stays there exactly when all it
delivers does. -/
theorem withinLimit_iff (hres : res.size <= maxBufferSize) :
    WithinLimit res chunks <->
      res.size + (deliveredBody chunks).length <= maxBufferSize := by
  induction chunks generalizing res with
  | nil =>
      simp only [WithinLimit, deliveredBody, List.length_nil, Nat.add_zero,
        hres]
  | cons chunk rest ih =>
      unfold WithinLimit deliveredBody
      by_cases hlarge : chunk.length > maxBufferSize
      · have hne : ¬ 0 = chunk.length := by omega
        rw [responseCallback_refused res hlarge, if_pos hlarge]
        simp only [hne, false_implies, true_iff]
        exact hres
      · rcases responseCallback_taken res (Nat.le_of_not_lt hlarge) with
          ⟨hcount, hsize, _, _⟩
        rw [if_neg hlarge, List.length_append, ← Nat.add_assoc, ← hsize]
        constructor
        · intro h
          rcases h hcount with ⟨hnext, hrest⟩
          exact (ih hnext).mp hrest
        · intro h _
          have hnext := Nat.le_trans (Nat.le_add_right _ _) h
          exact ⟨hnext, (ih hnext).mpr h⟩

theorem deliveredBody_of_not_aborted (h : ¬ Aborted res chunks) :
    deliveredBody chunks = chunks.flatten := by
  induction chunks generalizing res with
  | nil => rfl
  | cons chunk rest ih =>
      unfold Aborted at h
      rw [Classical.not_imp] at h
      rcases h with ⟨hcount, hrest⟩
      have hsmall : ¬ chunk.length > maxBufferSize := by
        intro hlarge
        rw [responseCallback_refused res hlarge] at hcount
        have hzero : 0 = chunk.length := hcount
        omega
      unfold deliveredBody
      rw [if_neg hsmall, ih hrest, List.flatten_cons]

theorem aborted_of_withinLimit (hres : res.size <= maxBufferSize)
    (h : WithinLimit res chunks)
    (hbody : maxBufferSize < chunks.flatten.length) : Aborted res chunks := by
  by_contra hfull
  have hdelivered := (withinLimit_iff hres).mp h
  rw [deliveredBody_of_not_aborted hfull] at hdelivered
  omega

end Transfer

/-!
## All attempts
-/

section Attempts

variable {outcomes : Nat -> Attempt} {data : Block}

theorem deliveredLength_succ {first next : Nat} (h : first <= next) :
    deliveredLength outcomes first (next + 1) =
      deliveredLength outcomes first next +
        (deliveredBody (outcomes next).chunks).length :=
  Finset.sum_Ico_succ_top h _

theorem deliveredLength_self (first : Nat) :
    deliveredLength outcomes first first = 0 := by
  unfold deliveredLength
  rw [Finset.Ico_self, Finset.sum_empty]

/-- The size counts what was delivered since an attempt that failed. -/
theorem size_responseAfter (outcomes : Nat -> Attempt) (data : Block)
    (n : Nat) :
    exists first, first <= n ∧
      (forall k, first <= k -> k < n -> ¬ (outcomes k).Failed) ∧
      (responseAfter outcomes (Response.start data) n).size =
        deliveredLength outcomes first n := by
  induction n with
  | zero =>
      refine ⟨0, Nat.le_refl 0, ?_, (deliveredLength_self 0).symm⟩
      intro k _ hk
      exact absurd hk (Nat.not_lt_zero k)
  | succ n ih =>
      rcases ih with ⟨first, hfirst, hserved, hsize⟩
      by_cases hfailed : (outcomes n).Failed
      · refine ⟨n + 1, Nat.le_refl _, ?_, ?_⟩
        · intro k hlow hhigh
          omega
        · rw [deliveredLength_self]
          exact (innerHttpRequest_failed hfailed _).left
      · refine ⟨first, Nat.le_succ_of_le hfirst, ?_, ?_⟩
        · intro k hlow hhigh
          rcases Nat.lt_succ_iff_lt_or_eq.mp hhigh with hlt | heq
          · exact hserved k hlow hlt
          · rw [heq]
            exact hfailed
        · rw [deliveredLength_succ hfirst, ← hsize]
          exact (innerHttpRequest_served hfailed _).left

/-- What attempts deliver that do not fail is still there. -/
theorem deliveredLength_le_size (data : Block) {first n : Nat}
    (hfirst : first <= n)
    (hserved : forall k, first <= k -> k < n -> ¬ (outcomes k).Failed) :
    deliveredLength outcomes first n <=
      (responseAfter outcomes (Response.start data) n).size := by
  induction n with
  | zero =>
      rw [Nat.le_zero.mp hfirst, deliveredLength_self]
      exact Nat.zero_le _
  | succ n ih =>
      rcases Nat.lt_or_eq_of_le hfirst with hlt | heq
      · have hle : first <= n := Nat.le_of_lt_succ hlt
        have hearlier := ih hle
          (fun k hlow hhigh => hserved k hlow (Nat.lt_succ_of_lt hhigh))
        have hlast := hserved n hle (Nat.lt_succ_self n)
        rw [deliveredLength_succ hle]
        show _ <= (innerHttpRequest (outcomes n) _).2.size
        rw [(innerHttpRequest_served hlast _).left]
        exact Nat.add_le_add_right hearlier _
      · rw [heq, deliveredLength_self]
        exact Nat.zero_le _

/-- If every transfer stays within the limit, so does the size between
them. -/
theorem size_le_of_withinLimit {n : Nat}
    (h : forall i, i < n ->
      WithinLimit (responseAfter outcomes (Response.start data) i)
        (outcomes i).chunks) :
    (responseAfter outcomes (Response.start data) n).size <=
      maxBufferSize := by
  induction n with
  | zero => exact Nat.zero_le _
  | succ n ih =>
      have hbefore := ih (fun i hi => h i (Nat.lt_succ_of_lt hi))
      have hdelivered :=
        (withinLimit_iff hbefore).mp (h n (Nat.lt_succ_self n))
      show (innerHttpRequest (outcomes n) _).2.size <= _
      by_cases hfailed : (outcomes n).Failed
      · rw [(innerHttpRequest_failed hfailed _).left]
        exact Nat.zero_le _
      · rw [(innerHttpRequest_served hfailed _).left]
        exact hdelivered

/-- The transfers up to one stay within the limit exactly when the attempts
since any failed one deliver no more than it together. -/
theorem withinLimit_attempts_iff (outcomes : Nat -> Attempt) (data : Block)
    (n : Nat) :
    (forall i, i <= n ->
      WithinLimit (responseAfter outcomes (Response.start data) i)
        (outcomes i).chunks) <->
      forall first last, first <= last -> last <= n ->
        (forall k, first <= k -> k < last -> ¬ (outcomes k).Failed) ->
          deliveredLength outcomes first (last + 1) <= maxBufferSize := by
  constructor
  · intro h first last hfirst hlast hserved
    have hbefore : (responseAfter outcomes (Response.start data) last).size <=
        maxBufferSize :=
      size_le_of_withinLimit
        (fun i hi => h i (Nat.le_trans (Nat.le_of_lt hi) hlast))
    have hdelivered := (withinLimit_iff hbefore).mp (h last hlast)
    have hstill := deliveredLength_le_size data hfirst hserved
    rw [deliveredLength_succ hfirst]
    exact Nat.le_trans (Nat.add_le_add_right hstill _) hdelivered
  · intro h i hi
    rcases size_responseAfter outcomes data i with
      ⟨first, hfirst, hserved, hsize⟩
    have hsum := h first i hfirst hi hserved
    rw [deliveredLength_succ hfirst, ← hsize] at hsum
    have hbefore := Nat.le_trans (Nat.le_add_right _ _) hsum
    exact (withinLimit_iff hbefore).mpr hsum

end Attempts

theorem httpBranch_attempts (c : StnsConf) (outcomes : Nat -> Attempt)
    (data : Block) :
    (httpBranch c outcomes (Response.start data)).attempts =
      lastAttempt outcomes c.retries 0 + 1 := by
  rw [httpBranch_eq]

/-- The limit holds for the whole response exactly when the attempts since any
failed one deliver no more than it together. -/
theorem sizeLimited_iff (c : StnsConf) (outcomes : Nat -> Attempt)
    (data : Block) :
    SizeLimited c outcomes data <->
      forall first last, first <= last ->
        last <= lastAttempt outcomes c.retries 0 ->
        (forall k, first <= k -> k < last -> ¬ (outcomes k).Failed) ->
          deliveredLength outcomes first (last + 1) <= maxBufferSize := by
  rw [← withinLimit_attempts_iff outcomes data]
  constructor
  · intro h i hi
    apply h.calls
    rw [httpBranch_attempts]
    exact Nat.lt_succ_of_le hi
  · intro h
    constructor
    · intro i hi
      rw [httpBranch_attempts] at hi
      exact h i (Nat.le_of_lt_succ hi)
    · intro i hi hbody
      rw [httpBranch_attempts] at hi
      have hle := Nat.le_of_lt_succ hi
      have hbefore : (responseAfter outcomes (Response.start data) i).size <=
          maxBufferSize :=
        size_le_of_withinLimit
          (fun k hk => h k (Nat.le_trans (Nat.le_of_lt hk) hle))
      exact aborted_of_withinLimit hbefore (h i hle) hbody

theorem deliveredBody_replicate {chunk : Bytes}
    (h : chunk.length <= maxBufferSize) (n : Nat) :
    (deliveredBody (List.replicate n chunk)).length = n * chunk.length := by
  induction n with
  | zero =>
      rw [Nat.zero_mul]
      rfl
  | succ n ih =>
      rw [List.replicate_succ]
      unfold deliveredBody
      rw [if_neg (Nat.not_lt.mpr h), List.length_append, ih, Nat.succ_mul,
        Nat.add_comm]

/-- A successful transfer of 641 chunks of 16 KiB. -/
def manyChunks : Nat -> Attempt := fun _ =>
  ⟨List.replicate 641 (List.replicate defaultBufferSize 32), 200,
    CurlCode.ok⟩

/-- The response grows past the limit, and nothing ends the transfer. -/
theorem many_chunks_exceed_limit :
    (httpBranch {} manyChunks
        (Response.start ⟨defaultBufferSize, fun _ => 0, true⟩)).res.size =
        641 * defaultBufferSize ∧
      (httpBranch {} manyChunks
        (Response.start ⟨defaultBufferSize, fun _ => 0, true⟩)).result =
        CurlCode.ok ∧
      ¬ SizeLimited {} manyChunks ⟨defaultBufferSize, fun _ => 0, true⟩ := by
  have hserved : ¬ (manyChunks 0).Failed := by decide
  have hsmall : (List.replicate defaultBufferSize (32 : UInt8)).length <=
      maxBufferSize := by
    rw [List.length_replicate]
    decide
  have hbody : (deliveredBody (manyChunks 0).chunks).length =
      641 * defaultBufferSize := by
    have hlength := deliveredBody_replicate hsmall 641
    rwa [List.length_replicate] at hlength
  have hlast : lastAttempt manyChunks (StnsConf.retries {}) 0 = 0 := by
    have hfinal : (manyChunks 0).Final := .inl rfl
    have hretries : StnsConf.retries {} = 3 := rfl
    rw [hretries]
    unfold lastAttempt
    exact if_pos hfinal
  have hstart : (responseAfter manyChunks (Response.start
      ⟨defaultBufferSize, fun _ => 0, true⟩) 0).size = 0 := rfl
  rw [httpBranch_eq, hlast]
  refine ⟨?_, rfl, ?_⟩
  · show (innerHttpRequest (manyChunks 0) (responseAfter manyChunks
      (Response.start ⟨defaultBufferSize, fun _ => 0, true⟩) 0)).2.size = _
    rw [(innerHttpRequest_served hserved _).left, hbody, hstart,
      Nat.zero_add]
  · intro h
    have hattempts : 0 < (httpBranch {} manyChunks (Response.start
        ⟨defaultBufferSize, fun _ => 0, true⟩)).attempts := by
      rw [httpBranch_attempts]
      exact Nat.succ_pos _
    have hwithin := h.calls 0 hattempts
    have hsum := (withinLimit_iff (by rw [hstart]; exact Nat.zero_le _)).mp
      hwithin
    rw [hbody, hstart] at hsum
    exact absurd hsum (by decide)

end Stns
