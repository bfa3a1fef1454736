import Stns.Request.Response

/-!
# The HTTP request and its retries

One attempt delivers chunks into the response and ends with an HTTP code and a
curl result.  An attempt that fails without an HTTP error is retried on the
same response.
-/

namespace Stns

/-- {lit}`CURLcode`; the command branch returns 0 and 1 in its place. -/
abbrev CurlCode := Nat

namespace CurlCode

/-- {lit}`CURLE_OK` -/
def ok : CurlCode := 0

/-- {lit}`CURLE_COULDNT_CONNECT` -/
def couldntConnect : CurlCode := 7

/-- {lit}`CURLE_HTTP_RETURNED_ERROR` -/
def httpReturnedError : CurlCode := 22

end CurlCode

/-- What one transfer does: the chunks it delivers, its response code (0 for
none) and its curl result. -/
structure Attempt where
  chunks : List Bytes
  code : Int
  result : CurlCode

namespace Attempt

/-- {lit}`code >= 400 || code == 0` -/
def Failed (a : Attempt) : Prop :=
  a.code >= 400 ∨ a.code = 0

instance (a : Attempt) : Decidable a.Failed :=
  inferInstanceAs (Decidable (_ ∨ _))

/-- The result that {lit}`inner_http_request` returns for the attempt. -/
def finalResult (a : Attempt) : CurlCode :=
  if a.Failed ∧ a.code ≠ 0 then CurlCode.httpReturnedError else a.result

end Attempt

/-- {lit}`inner_http_request`, with the transfer as an argument. -/
def innerHttpRequest (a : Attempt) (res : Response) : CurlCode × Response :=
  let res := deliver res a.chunks
  if a.Failed then
    (a.finalResult, { res with size := 0, statusCode := a.code })
  else
    (a.finalResult, res)

/-- The HTTP branch of {lit}`stns_request` while it runs. -/
structure HttpRun where
  result : CurlCode
  res : Response
  attempts : Nat

/-- The retry loop. -/
def httpRetry (outcomes : Nat -> Attempt) : Nat -> HttpRun -> HttpRun
  | 0, run => run
  | retries + 1, run =>
      if run.result = CurlCode.ok then run
      else if run.result = CurlCode.httpReturnedError then run
      else
        let next := innerHttpRequest (outcomes run.attempts) run.res
        httpRetry outcomes retries ⟨next.1, next.2, run.attempts + 1⟩

/-- {lit}`request_retry` as a number of further attempts. -/
def StnsConf.retries (c : StnsConf) : Nat :=
  c.requestRetry.toInt.toNat

def httpBranch (c : StnsConf) (outcomes : Nat -> Attempt) (res : Response) :
    HttpRun :=
  let first := innerHttpRequest (outcomes 0) res
  httpRetry outcomes c.retries ⟨first.1, first.2, 1⟩

/-- The response as {lit}`stns_request` starts with it. -/
def Response.start (data : Block) : Response :=
  ⟨data, 0, 200⟩

/-!
## Which attempts are made
-/

namespace Attempt

/-- No attempt follows this one. -/
def Final (a : Attempt) : Prop :=
  a.finalResult = CurlCode.ok ∨ a.finalResult = CurlCode.httpReturnedError

instance (a : Attempt) : Decidable a.Final :=
  inferInstanceAs (Decidable (_ ∨ _))

theorem not_final {a : Attempt} (h : ¬ a.Final) :
    a.code < 400 ∧ a.result ≠ CurlCode.ok := by
  have hcode : a.code < 400 := by
    by_contra hlarge
    have herror : a.Failed ∧ a.code ≠ 0 := by
      unfold Failed
      omega
    exact h (.inr (if_pos herror))
  have hkept : ¬ (a.Failed ∧ a.code ≠ 0) := by
    unfold Failed
    omega
  refine ⟨hcode, ?_⟩
  intro hresult
  exact h (.inl ((if_neg hkept).trans hresult))

end Attempt

/-- The last attempt from the one at {lit}`i` on: the first final one, or the
one that uses up the retries. -/
def lastAttempt (outcomes : Nat -> Attempt) : Nat -> Nat -> Nat
  | 0, i => i
  | retries + 1, i =>
      if (outcomes i).Final then i else lastAttempt outcomes retries (i + 1)

/-- The response after the first attempts, if all of them are made. -/
def responseAfter (outcomes : Nat -> Attempt) (res : Response) :
    Nat -> Response
  | 0 => res
  | n + 1 => (innerHttpRequest (outcomes n) (responseAfter outcomes res n)).2

theorem innerHttpRequest_result (a : Attempt) (res : Response) :
    (innerHttpRequest a res).1 = a.finalResult := by
  unfold innerHttpRequest
  dsimp only
  split <;> rfl

theorem httpRetry_eq (outcomes : Nat -> Attempt) (res : Response)
    (retries i : Nat) :
    httpRetry outcomes retries
        ⟨(outcomes i).finalResult, responseAfter outcomes res (i + 1), i + 1⟩ =
      ⟨(outcomes (lastAttempt outcomes retries i)).finalResult,
        responseAfter outcomes res (lastAttempt outcomes retries i + 1),
        lastAttempt outcomes retries i + 1⟩ := by
  induction retries generalizing i with
  | zero => rfl
  | succ retries ih =>
      unfold httpRetry lastAttempt
      dsimp only
      by_cases hfinal : (outcomes i).Final
      · rw [if_pos hfinal]
        rcases hfinal with hok | hreturned
        · rw [if_pos hok]
        · rw [if_pos hreturned, ite_self]
      · rw [if_neg hfinal]
        rw [if_neg (fun hok => hfinal (.inl hok)),
          if_neg (fun hreturned => hfinal (.inr hreturned)),
          innerHttpRequest_result]
        exact ih (i + 1)

theorem httpBranch_eq (c : StnsConf) (outcomes : Nat -> Attempt)
    (res : Response) :
    httpBranch c outcomes res =
      ⟨(outcomes (lastAttempt outcomes c.retries 0)).finalResult,
        responseAfter outcomes res (lastAttempt outcomes c.retries 0 + 1),
        lastAttempt outcomes c.retries 0 + 1⟩ := by
  unfold httpBranch
  dsimp only
  rw [innerHttpRequest_result]
  exact httpRetry_eq outcomes res c.retries 0

theorem lastAttempt_le (outcomes : Nat -> Attempt) (retries i : Nat) :
    lastAttempt outcomes retries i <= i + retries := by
  induction retries generalizing i with
  | zero => exact Nat.le_refl i
  | succ retries ih =>
      unfold lastAttempt
      split
      · exact Nat.le_add_right i _
      · have hle := ih (i + 1)
        omega

theorem not_final_of_lt_last {outcomes : Nat -> Attempt} {retries i k : Nat}
    (hi : i <= k) (hk : k < lastAttempt outcomes retries i) :
    ¬ (outcomes k).Final := by
  induction retries generalizing i with
  | zero =>
      have hle : k < i := hk
      omega
  | succ retries ih =>
      unfold lastAttempt at hk
      by_cases hfinal : (outcomes i).Final
      · rw [if_pos hfinal] at hk
        omega
      · rw [if_neg hfinal] at hk
        rcases Nat.eq_or_lt_of_le hi with heq | hlt
        · rw [← heq]
          exact hfinal
        · exact ih hlt hk

/-!
## What an attempt leaves
-/

theorem innerHttpRequest_failed {a : Attempt} (h : a.Failed)
    (res : Response) :
    (innerHttpRequest a res).2.size = 0 ∧
      (innerHttpRequest a res).2.statusCode = a.code := by
  unfold innerHttpRequest
  dsimp only
  rw [if_pos h]
  exact ⟨rfl, rfl⟩

theorem innerHttpRequest_served {a : Attempt} (h : ¬ a.Failed)
    (res : Response) :
    (innerHttpRequest a res).2.size =
        res.size + (deliveredBody a.chunks).length ∧
      (innerHttpRequest a res).2.statusCode = res.statusCode ∧
      (innerHttpRequest a res).2.body =
        res.body ++ deliveredBody a.chunks := by
  unfold innerHttpRequest
  dsimp only
  rw [if_neg h]
  exact deliver_body res a.chunks

/-- Attempts that are all retried leave no error status behind. -/
theorem responseAfter_statusCode_lt {outcomes : Nat -> Attempt}
    {res : Response} (hres : res.statusCode < 400) {n : Nat}
    (hcode : forall i, i < n -> (outcomes i).code < 400) :
    (responseAfter outcomes res n).statusCode < 400 := by
  induction n with
  | zero => exact hres
  | succ n ih =>
      have hearlier := ih (fun i hi => hcode i (Nat.lt_succ_of_lt hi))
      show (innerHttpRequest (outcomes n) _).2.statusCode < 400
      by_cases hfailed : (outcomes n).Failed
      · rw [(innerHttpRequest_failed hfailed _).right]
        exact hcode n (Nat.lt_succ_self n)
      · rw [(innerHttpRequest_served hfailed _).right.left]
        exact hearlier

/-- A response without a body and with the status that a request starts
with. -/
def Response.Fresh (res : Response) : Prop :=
  res.size = 0 ∧ res.statusCode = 200

/-- The attempt leaves neither a body nor a status behind. -/
def Attempt.Traceless (a : Attempt) : Prop :=
  a.code ≠ 0 ∧ deliveredBody a.chunks = []

theorem innerHttpRequest_fresh_iff {a : Attempt} (h : a.code < 400)
    (res : Response) :
    (innerHttpRequest a res).2.Fresh <-> res.Fresh ∧ a.Traceless := by
  unfold Response.Fresh Attempt.Traceless
  by_cases hzero : a.code = 0
  · rcases innerHttpRequest_failed (a := a) (.inr hzero) res with
      ⟨_, hstatus⟩
    rw [hstatus]
    simp [hzero]
  · have hserved : ¬ a.Failed := by
      unfold Attempt.Failed
      omega
    rcases innerHttpRequest_served hserved res with ⟨hsize, hstatus, _⟩
    rw [hsize, hstatus, ← List.length_eq_zero_iff]
    omega

/-- After attempts that are all retried, the response is as at the start
exactly when none of them left a trace. -/
theorem responseAfter_fresh_iff {outcomes : Nat -> Attempt}
    (res : Response) (hres : res.Fresh) {n : Nat}
    (hcode : forall i, i < n -> (outcomes i).code < 400) :
    (responseAfter outcomes res n).Fresh <->
      forall i, i < n -> (outcomes i).Traceless := by
  induction n with
  | zero => simp [responseAfter, hres]
  | succ n ih =>
      have hstep := innerHttpRequest_fresh_iff
        (hcode n (Nat.lt_succ_self n)) (responseAfter outcomes res n)
      have hearlier := ih (fun i hi => hcode i (Nat.lt_succ_of_lt hi))
      show (innerHttpRequest (outcomes n) _).2.Fresh <-> _
      rw [hstep, hearlier]
      constructor
      · intro hboth i hi
        rcases hboth with ⟨hall, hlast⟩
        rcases Nat.lt_succ_iff_lt_or_eq.mp hi with hlt | heq
        · exact hall i hlt
        · rw [heq]
          exact hlast
      · intro hall
        exact ⟨fun i hi => hall i (Nat.lt_succ_of_lt hi),
          hall n (Nat.lt_succ_self n)⟩

/-!
## The request as its last attempt
-/

/-- What the caller of a request can see of it. -/
structure HttpRun.SameAnswer (run single : HttpRun) : Prop where
  result : run.result = single.result
  size : run.res.size = single.res.size
  body : run.res.body = single.res.body
  statusCode : run.res.statusCode = single.res.statusCode

/-- A request leaves what its last attempt alone would leave, in at most one
attempt more than the retries, none of them after a success or an HTTP
error. -/
structure LastAttemptOnly (c : StnsConf) (outcomes : Nat -> Attempt)
    (data : Block) : Prop where
  answer : exists last,
    (httpBranch c outcomes (Response.start data)).attempts = last + 1 ∧
      (httpBranch c outcomes (Response.start data)).SameAnswer
        (httpBranch { c with requestRetry := 0 } (fun _ => outcomes last)
          (Response.start data))
  bounded : ((httpBranch c outcomes (Response.start data)).attempts : Int) <=
    1 + max 0 c.requestRetry.toInt
  stops : forall i,
    i + 1 < (httpBranch c outcomes (Response.start data)).attempts ->
      (outcomes i).code < 400 ∧ (outcomes i).result ≠ CurlCode.ok

theorem httpBranch_single (c : StnsConf) (a : Attempt) (res : Response) :
    httpBranch { c with requestRetry := 0 } (fun _ => a) res =
      ⟨a.finalResult, (innerHttpRequest a res).2, 1⟩ := by
  rw [httpBranch_eq]
  rfl

/-- The last attempt forgets what was there before exactly when it resets the
response or finds it fresh. -/
theorem sameAnswer_iff {a : Attempt} {before : Response} {data : Block}
    {n : Nat} :
    HttpRun.SameAnswer ⟨a.finalResult, (innerHttpRequest a before).2, n⟩
        ⟨a.finalResult, (innerHttpRequest a (Response.start data)).2, 1⟩ <->
      a.Failed ∨ before.Fresh := by
  by_cases hfailed : a.Failed
  · rcases innerHttpRequest_failed hfailed before with ⟨hsize, hstatus⟩
    rcases innerHttpRequest_failed hfailed (Response.start data) with
      ⟨hsize', hstatus'⟩
    have hsame : HttpRun.SameAnswer
        ⟨a.finalResult, (innerHttpRequest a before).2, n⟩
        ⟨a.finalResult, (innerHttpRequest a (Response.start data)).2, 1⟩ := by
      refine ⟨rfl, hsize.trans hsize'.symm, ?_, hstatus.trans hstatus'.symm⟩
      simp [Response.body, hsize, hsize', Block.load]
    simp [hsame, hfailed]
  · rcases innerHttpRequest_served hfailed before with
      ⟨hsize, hstatus, hbody⟩
    rcases innerHttpRequest_served hfailed (Response.start data) with
      ⟨hsize', hstatus', hbody'⟩
    simp only [hfailed, false_or]
    constructor
    · intro h
      have hequal := h.size
      have hcode := h.statusCode
      dsimp only at hequal hcode
      rw [hsize, hsize'] at hequal
      rw [hstatus, hstatus'] at hcode
      exact ⟨Nat.add_right_cancel hequal, hcode⟩
    · intro hfresh
      rcases hfresh with ⟨hzero, hcode⟩
      have hnone : before.body = [] := by
        simp [Response.body, hzero, Block.load]
      refine ⟨rfl, ?_, ?_, ?_⟩
      · dsimp only
        rw [hsize, hsize', hzero]
        rfl
      · dsimp only
        rw [hbody, hbody', hnone]
        rfl
      · dsimp only
        rw [hstatus, hstatus', hcode]
        rfl

/-- The attempts before the last one are forgotten exactly when the last one
resets the response, or none of them had a response code of 0 or delivered a
part of a body. -/
theorem lastAttemptOnly_iff (c : StnsConf) (outcomes : Nat -> Attempt)
    (data : Block) :
    LastAttemptOnly c outcomes data <->
      (outcomes (lastAttempt outcomes c.retries 0)).Failed ∨
        forall i, i < lastAttempt outcomes c.retries 0 ->
          (outcomes i).Traceless := by
  have hretried : forall i, i < lastAttempt outcomes c.retries 0 ->
      ¬ (outcomes i).Final :=
    fun i hi => not_final_of_lt_last (Nat.zero_le i) hi
  have hfresh := responseAfter_fresh_iff (Response.start data)
    ⟨rfl, rfl⟩ (fun i hi => (Attempt.not_final (hretried i hi)).left)
  rw [← hfresh]
  constructor
  · intro h
    rcases h.answer with ⟨last, hlast, hsame⟩
    rw [httpBranch_eq] at hlast hsame
    have heq : lastAttempt outcomes c.retries 0 = last :=
      Nat.add_right_cancel hlast
    rw [httpBranch_single, ← heq] at hsame
    exact sameAnswer_iff.mp hsame
  · intro h
    constructor
    · refine ⟨lastAttempt outcomes c.retries 0, ?_, ?_⟩
      · rw [httpBranch_eq]
      · rw [httpBranch_eq, httpBranch_single]
        exact sameAnswer_iff.mpr h
    · rw [httpBranch_eq]
      have hle := lastAttempt_le outcomes c.retries 0
      unfold StnsConf.retries at hle
      dsimp only
      unfold StnsConf.retries
      omega
    · intro i hi
      rw [httpBranch_eq] at hi
      exact Attempt.not_final (hretried i (Nat.lt_of_succ_lt_succ hi))

/-- A transfer that times out after two bytes, and then one that succeeds. -/
def timeoutThenSuccess : Nat -> Attempt
  | 0 => ⟨[ascii "[\x7b"], 200, 28⟩
  | _ => ⟨[ascii "[]"], 200, CurlCode.ok⟩

theorem partial_body_becomes_prefix :
    (httpBranch {} timeoutThenSuccess
        (Response.start ⟨16384, fun _ => 0, true⟩)).res.body =
        ascii "[\x7b[]" ∧
      ¬ LastAttemptOnly {} timeoutThenSuccess ⟨16384, fun _ => 0, true⟩ := by
  refine ⟨rfl, ?_⟩
  intro h
  rcases h.answer with ⟨last, hlast, hsame⟩
  have hone : last = 1 := (Nat.succ.inj hlast).symm
  rw [hone] at hsame
  exact absurd hsame.size (by decide)

end Stns
