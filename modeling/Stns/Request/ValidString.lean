import Stns.Request.Accumulation
import Stns.Request.CacheSoundness

/-!
# The string of a successful request

The caller of a request parses {lit}`res->data` as a string.  A cache file, the
query wrapper and the transfers each leave one there in their own way, and some
of them leave none.
-/

namespace Stns

/-- The first {lit}`size` bytes are the text, and a terminator inside the
buffer follows them. -/
structure Response.Holds (res : Response) (text : Bytes) : Prop where
  body : res.body = text
  nulFree : 0 ∉ text
  terminated : res.data.bytes res.size = 0
  inside : res.size < res.data.capacity

/-- What the source of an answer delivered: the file, the output of the query
wrapper, or the bodies of the transfers. -/
def deliveredBytes [CurlEscape] (c : StnsConf) (euid : Nat) (path : CString)
    (backend : Backend) (fs : FileSystem) (answer : Answer) : Bytes :=
  if answer.fromCache = true then
    (fs.readFile (cacheFilePath (cacheDirPath c euid) path)).getD []
  else
    match answer.contact with
    | .none => []
    | .http attempts =>
        (List.range attempts).flatMap (fun i =>
          deliveredBody (backend.transfers i).chunks)
    | .command _ => backend.output.getD []

/-- Whatever a fresh buffer holds, and whatever the machine makes of sums that
do not fit, a request that succeeds leaves the same string in the buffer, and
nothing but delivered bytes. -/
def HandsString [CurlEscape] (c : StnsConf) (euid : Nat) (path : CString)
    (backend : Backend) (w : World) : Prop :=
  exists text, forall (M : Machine) (data : Block),
    data.capacity = defaultBufferSize -> data.inBounds = true ->
      let answer := (stnsRequestCounted M c euid path data backend w).1
      answer.result = CurlCode.ok ->
        answer.res.Holds text ∧
          text.Sublist (deliveredBytes c euid path backend w.fs answer)

/-!
## When a string is handed over
-/

/-- The callback takes a chunk of the transfer. -/
def Attempt.Takes (a : Attempt) : Prop :=
  takenChunks a.chunks ≠ []

/-- The bytes delivered since the last failed attempt before this one. -/
def keptBody (outcomes : Nat -> Attempt) : Nat -> Bytes
  | 0 => []
  | n + 1 =>
      if (outcomes n).Failed then []
      else keptBody outcomes n ++ deliveredBody (outcomes n).chunks

/-- Some attempt took a chunk, and after the last such attempt there was no
failed one, or no byte had been delivered since the failed one before it. -/
def LeavesString (outcomes : Nat -> Attempt) (count : Nat) : Prop :=
  exists i, i < count ∧ (outcomes i).Takes ∧
    (forall j, i < j -> j < count -> ¬ (outcomes j).Takes) ∧
      ((forall j, i <= j -> j < count -> ¬ (outcomes j).Failed) ∨
        keptBody outcomes i ++ deliveredBody (outcomes i).chunks = [])

/-- The conditions for a string, by the source of the answer. -/
structure Feeds [CurlEscape] (c : StnsConf) (euid : Nat) (path : CString)
    (backend : Backend) (w : World) : Prop where
  /-- A fresh file has something to read, and its text can be measured. -/
  file : forall i, CacheUsed c euid w.fs -> Hit c euid w path i ->
    i.size ≠ 0 -> i.content ≠ [] ∧
      (Stdio.text (Stdio.fgets maxbuf i.content)).length <= maxBufferSize
  /-- Transfers that end well leave a string. -/
  transfers : (CacheUsed c euid w.fs -> forall i, ¬ Hit c euid w path i) ->
    (stnsRequestAvailable c w.now w.lock).1 = true -> c.queryWrapper = none ->
      let last := lastAttempt backend.transfers c.retries 0
      (backend.transfers last).finalResult = CurlCode.ok ->
        LeavesString backend.transfers (last + 1)
  /-- What a query wrapper prints can be counted. -/
  command : (CacheUsed c euid w.fs -> forall i, ¬ Hit c euid w path i) ->
    (stnsRequestAvailable c w.now w.lock).1 = true -> c.queryWrapper ≠ none ->
      commandArgument path = true -> OutputFits backend.output

/-!
## The transfers
-/

section Transfers

variable {outcomes : Nat -> Attempt}

theorem Attempt.not_takes {a : Attempt} (h : ¬ a.Takes) :
    deliveredBody a.chunks = [] := by
  rw [deliveredBody_flatten, not_not.mp h]
  rfl

/-- Either no number below the bound satisfies a property or there is a last
one. -/
theorem none_or_last (p : Nat -> Prop) (n : Nat) :
    (forall i, i < n -> ¬ p i) ∨
      exists i, i < n ∧ p i ∧ forall j, i < j -> j < n -> ¬ p j := by
  induction n with
  | zero => exact .inl (fun i hi => absurd hi (Nat.not_lt_zero i))
  | succ n ih =>
      by_cases hlast : p n
      · right
        refine ⟨n, Nat.lt_succ_self n, hlast, ?_⟩
        intro j hlow hhigh
        omega
      · rcases ih with hnone | ⟨i, hi, hp, hafter⟩
        · left
          intro i hi
          rcases Nat.lt_succ_iff_lt_or_eq.mp hi with hlt | heq
          · exact hnone i hlt
          · rwa [heq]
        · right
          refine ⟨i, Nat.lt_succ_of_lt hi, hp, ?_⟩
          intro j hlow hhigh
          rcases Nat.lt_succ_iff_lt_or_eq.mp hhigh with hlt | heq
          · exact hafter j hlow hlt
          · rwa [heq]

theorem keptBody_of_none {n : Nat}
    (h : forall i, i < n -> ¬ (outcomes i).Takes) :
    keptBody outcomes n = [] := by
  induction n with
  | zero => rfl
  | succ n ih =>
      unfold keptBody
      split
      · rfl
      · rw [ih (fun i hi => h i (Nat.lt_succ_of_lt hi)),
          Attempt.not_takes (h n (Nat.lt_succ_self n))]
        rfl

/-- After the last transfer that takes a chunk, its body is kept as it is or
given up. -/
theorem keptBody_of_last {i n : Nat} (hi : i < n)
    (hafter : forall j, i < j -> j < n -> ¬ (outcomes j).Takes) :
    ((forall j, i <= j -> j < n -> ¬ (outcomes j).Failed) ∧
        keptBody outcomes n =
          keptBody outcomes i ++ deliveredBody (outcomes i).chunks) ∨
      ((exists j, i <= j ∧ j < n ∧ (outcomes j).Failed) ∧
        keptBody outcomes n = []) := by
  induction n with
  | zero => exact absurd hi (Nat.not_lt_zero i)
  | succ n ih =>
      by_cases hfailed : (outcomes n).Failed
      · right
        refine ⟨⟨n, Nat.le_of_lt_succ hi, Nat.lt_succ_self n, hfailed⟩, ?_⟩
        exact if_pos hfailed
      · have hkept : keptBody outcomes (n + 1) =
            keptBody outcomes n ++ deliveredBody (outcomes n).chunks :=
          if_neg hfailed
        rw [hkept]
        rcases Nat.lt_succ_iff_lt_or_eq.mp hi with hlt | heq
        · have hnone := Attempt.not_takes
            (hafter n hlt (Nat.lt_succ_self n))
          rw [hnone, List.append_nil]
          rcases ih hlt
            (fun j hlow hhigh => hafter j hlow (Nat.lt_succ_of_lt hhigh)) with
            ⟨hserved, hsame⟩ | ⟨hreset, hgone⟩
          · left
            refine ⟨?_, hsame⟩
            intro j hlow hhigh
            rcases Nat.lt_succ_iff_lt_or_eq.mp hhigh with hlt' | heq'
            · exact hserved j hlow hlt'
            · rwa [heq']
          · right
            rcases hreset with ⟨j, hlow, hhigh, hfailed'⟩
            exact ⟨⟨j, hlow, Nat.lt_succ_of_lt hhigh, hfailed'⟩, hgone⟩
        · left
          rw [heq]
          refine ⟨?_, rfl⟩
          intro j hlow hhigh
          have hj : j = n := by omega
          rwa [hj]

theorem keptBody_sublist (outcomes : Nat -> Attempt) (n : Nat) :
    (keptBody outcomes n).Sublist
      ((List.range n).flatMap (fun i => deliveredBody (outcomes i).chunks)) := by
  induction n with
  | zero => exact List.Sublist.refl _
  | succ n ih =>
      rw [List.range_succ, List.flatMap_append, List.flatMap_singleton]
      unfold keptBody
      split
      · exact List.nil_sublist _
      · exact ih.append (List.Sublist.refl _)

end Transfers

namespace Received

theorem deliver_eq (r : Received) (chunks : List Bytes) :
    r.deliver chunks =
      if takenChunks chunks = [] then r
      else ⟨r.body ++ deliveredBody chunks, r.body ++ deliveredBody chunks⟩ := by
  induction chunks generalizing r with
  | nil => rfl
  | cons chunk rest ih =>
      unfold deliver
      by_cases hsmall : chunk.length <= maxBufferSize
      · have htaken : takenChunks (chunk :: rest) =
            chunk :: takenChunks rest :=
          List.takeWhile_cons_of_pos (by simpa using hsmall)
        rw [if_neg (Nat.not_lt.mpr hsmall), htaken,
          if_neg (List.cons_ne_nil _ _), ih, deliveredBody_flatten,
          deliveredBody_flatten, htaken]
        split
        · rename_i hnone
          rw [hnone]
          simp [take]
        · simp [take]
      · have htaken : takenChunks (chunk :: rest) = [] :=
          List.takeWhile_cons_of_neg (by simpa using hsmall)
        rw [if_pos (Nat.lt_of_not_le hsmall), if_pos htaken]

variable {outcomes : Nat -> Attempt} {text : Bytes}

theorem after_body (outcomes : Nat -> Attempt) (text : Bytes) (n : Nat) :
    (after outcomes ⟨[], text⟩ n).body = keptBody outcomes n := by
  induction n with
  | zero => rfl
  | succ n ih =>
      unfold after attempt keptBody
      split
      · rfl
      · rw [deliver_eq]
        split
        · rename_i hnone
          rw [Attempt.not_takes (not_not_intro hnone), List.append_nil]
          exact ih
        · rw [ih]

/-- The text of transfers that take nothing is the one before them. -/
theorem after_text_of_none {n : Nat}
    (h : forall i, i < n -> ¬ (outcomes i).Takes) :
    (after outcomes ⟨[], text⟩ n).text = text := by
  induction n with
  | zero => rfl
  | succ n ih =>
      have hnone := not_not.mp (h n (Nat.lt_succ_self n))
      unfold after attempt
      rw [deliver_eq, if_pos hnone]
      split
      · exact ih (fun i hi => h i (Nat.lt_succ_of_lt hi))
      · exact ih (fun i hi => h i (Nat.lt_succ_of_lt hi))

/-- The text is what was kept when the last chunk was taken. -/
theorem after_text_of_last {i n : Nat} (hi : i < n)
    (htakes : (outcomes i).Takes)
    (hafter : forall j, i < j -> j < n -> ¬ (outcomes j).Takes) :
    (after outcomes ⟨[], text⟩ n).text =
      keptBody outcomes i ++ deliveredBody (outcomes i).chunks := by
  induction n with
  | zero => exact absurd hi (Nat.not_lt_zero i)
  | succ n ih =>
      unfold after attempt
      rw [deliver_eq]
      rcases Nat.lt_succ_iff_lt_or_eq.mp hi with hlt | heq
      · have hnone := not_not.mp (hafter n hlt (Nat.lt_succ_self n))
        have hearlier := ih hlt
          (fun j hlow hhigh => hafter j hlow (Nat.lt_succ_of_lt hhigh))
        rw [if_pos hnone]
        split
        · exact hearlier
        · exact hearlier
      · rw [← heq, if_neg htakes, after_body]
        split
        · rfl
        · rfl

theorem after_text_of_leavesString {n : Nat} (h : LeavesString outcomes n) :
    (after outcomes ⟨[], text⟩ n).text = keptBody outcomes n := by
  rcases h with ⟨i, hi, htakes, hafter, hkept⟩
  rw [after_text_of_last hi htakes hafter]
  rcases keptBody_of_last hi hafter with ⟨_, hsame⟩ | ⟨hreset, hgone⟩
  · exact hsame.symm
  · rw [hgone]
    rcases hkept with hserved | hempty
    · rcases hreset with ⟨j, hlow, hhigh, hfailed⟩
      exact absurd hfailed (hserved j hlow hhigh)
    · exact hempty

/-- Over a text that is not empty, no other transfers leave their body as the
text. -/
theorem leavesString_of_after_text {n : Nat} (htext : text ≠ [])
    (h : (after outcomes ⟨[], text⟩ n).text = keptBody outcomes n) :
    LeavesString outcomes n := by
  rcases none_or_last (fun i => (outcomes i).Takes) n with
    hnone | ⟨i, hi, htakes, hafter⟩
  · rw [after_text_of_none hnone, keptBody_of_none hnone] at h
    exact absurd h htext
  · refine ⟨i, hi, htakes, hafter, ?_⟩
    rw [after_text_of_last hi htakes hafter] at h
    rcases keptBody_of_last hi hafter with ⟨hserved, _⟩ | ⟨_, hgone⟩
    · exact .inl hserved
    · exact .inr (h.trans hgone)

end Received

/-!
## Holding a string
-/

section Holds

variable {res : Response} {text : Bytes}

theorem Response.Holds.cstring (h : res.Holds text) :
    res.data.cstring.chars = text := by
  have hfree := h.nulFree
  rw [← h.body] at hfree ⊢
  exact Block.cstring_of_terminated h.inside hfree h.terminated

theorem Response.Holds.length (h : res.Holds text) :
    res.data.cstring.length = res.size := by
  unfold CString.length
  rw [h.cstring, ← h.body, Response.body_length]

theorem Response.holds_of_cstring (hbody : res.body = text)
    (htext : res.data.cstring.chars = text)
    (hinside : res.size < res.data.capacity) : res.Holds text := by
  refine ⟨hbody, ?_, ?_, hinside⟩
  · rw [← htext]
    exact res.data.cstring.nulFree
  · exact Block.terminated_of_cstring hinside (htext.trans hbody.symm)

end Holds

/-- A buffer without any NUL. -/
def filledBlock : Block :=
  ⟨defaultBufferSize, fun _ => 255, true⟩

theorem filledBlock_cstring :
    filledBlock.cstring.chars = filledBlock.load defaultBufferSize := by
  apply CString.ofBytes_of_nulFree
  intro hmem
  rcases List.mem_map.mp hmem with ⟨i, _, hzero⟩
  have hfilled : (255 : UInt8) = 0 := hzero
  exact absurd hfilled (by decide)

theorem filledBlock_cstring_length :
    filledBlock.cstring.length = defaultBufferSize := by
  unfold CString.length
  rw [filledBlock_cstring, Block.load_length]

/-!
## The sources
-/

section Sources

variable {c : StnsConf} {euid : Nat} {path : CString} {backend : Backend}
  {w : World} {data : Block}

theorem holds_of_file {content : Bytes} (hcontent : content ≠ [])
    (hlength : (Stdio.text (Stdio.fgets maxbuf content)).length <=
      maxBufferSize) (data : Block) :
    let block := (Stdio.appendPieces growAlways
      (Stdio.fgets maxbuf content) (data, 0)).1
    (Response.mk block (block.cstring.strnlen maxBufferSize) 200).Holds
      (Stdio.text (Stdio.fgets maxbuf content)) := by
  have hpieces : Stdio.fgets maxbuf content ≠ [] :=
    fun h => hcontent (Stdio.fgets_eq_nil_iff.mp h)
  have htext := Stdio.appendPieces_cstring grows_growAlways hpieces
    (Nat.zero_le data.capacity)
  have hload := Stdio.appendPieces_load grows_growAlways
    (Stdio.fgets maxbuf content) data 0
  have hend := Stdio.appendPieces_terminated grows_growAlways hpieces 0
    (Nat.zero_le data.capacity)
  rw [Block.load_zero, List.nil_append, Nat.zero_add] at hload
  rw [Nat.zero_add] at hend
  have hsize : CString.strnlen (Stdio.appendPieces growAlways
      (Stdio.fgets maxbuf content) (data, 0)).1.cstring maxBufferSize =
      (Stdio.text (Stdio.fgets maxbuf content)).length := by
    unfold CString.strnlen CString.length
    rw [htext]
    exact Nat.min_eq_left hlength
  dsimp only
  rw [hsize]
  exact ⟨hload, Stdio.nulFree_text _, hend.left, hend.right⟩

/-- Over a buffer without a NUL, no other file is. -/
theorem file_of_holds {content text : Bytes}
    (h : let block := (Stdio.appendPieces growAlways
        (Stdio.fgets maxbuf content) (filledBlock, 0)).1
      (Response.mk block (block.cstring.strnlen maxBufferSize) 200).Holds
        text) :
    content ≠ [] ∧
      (Stdio.text (Stdio.fgets maxbuf content)).length <= maxBufferSize := by
  have hlength := h.length
  have hinside := h.inside
  dsimp only at hlength hinside
  have hcontent : content ≠ [] := by
    intro hnone
    rw [hnone] at hinside
    have hshort : filledBlock.cstring.strnlen maxBufferSize <
        defaultBufferSize := hinside
    unfold CString.strnlen at hshort
    rw [filledBlock_cstring_length] at hshort
    exact absurd hshort (by decide)
  refine ⟨hcontent, ?_⟩
  have hpieces : Stdio.fgets maxbuf content ≠ [] :=
    fun hnil => hcontent (Stdio.fgets_eq_nil_iff.mp hnil)
  have htext := Stdio.appendPieces_cstring grows_growAlways hpieces
    (Nat.zero_le filledBlock.capacity)
  unfold CString.strnlen at hlength
  rw [← htext]
  show CString.length _ <= maxBufferSize
  rw [hlength]
  exact Nat.min_le_right _ _

theorem holds_of_command {res : Response} {stream : Option Bytes}
    (hdata : data.capacity = defaultBufferSize)
    (h : stnsExecCmd path stream (Response.start data) =
      (CurlCode.ok, res)) :
    res.Holds (Stdio.text (Stdio.fgets maxbuf (stream.getD []))) := by
  rcases stnsExecCmd_ok h with
    ⟨output, houtput, _, hsize, hpositive, hstored⟩
  have hleast : defaultBufferSize <= (Response.start data).data.capacity :=
    Nat.le_of_eq hdata.symm
  have hpieces : Stdio.fgets maxbuf output ≠ [] := by
    intro hnone
    rw [hsize, hnone] at hpositive
    exact Nat.lt_irrefl 0 hpositive
  have hload := Stdio.appendPieces_load grows_growPastDefault
    (Stdio.fgets maxbuf output) (Response.start data).data 0
  have hend := Stdio.appendPieces_terminated grows_growPastDefault hpieces 0
    hleast
  rw [Block.load_zero, List.nil_append, Nat.zero_add] at hload
  rw [Nat.zero_add] at hend
  rw [houtput, Option.getD_some]
  refine ⟨?_, Stdio.nulFree_text _, ?_, ?_⟩
  · unfold Response.body
    rw [hsize, hstored, hload]
  · rw [hsize, hstored]
    exact hend.left
  · rw [hsize, hstored]
    exact hend.right

/-- What the transfers leave for a reader of strings. -/
theorem transfers_hold_iff {text : Bytes}
    (hfree : forall i chunk, chunk ∈ (backend.transfers i).chunks ->
      0 ∉ chunk)
    (hdata : data.capacity = defaultBufferSize)
    (hbounds : data.inBounds = true) (count : Nat) :
    (responseAfter backend.transfers (Response.start data) count).Holds
        text <->
      keptBody backend.transfers count = text ∧
        (Received.after backend.transfers ⟨[], data.cstring.chars⟩
          count).text = text := by
  have hshows := (shows_start (Nat.le_of_eq hdata.symm)).after hfree count
  have hroomy := (roomy_of_default hdata hbounds 200).after backend.transfers
    count
  have hbody := hshows.body
  rw [Received.after_body] at hbody
  constructor
  · intro h
    refine ⟨hbody.symm.trans h.body, ?_⟩
    rw [← hshows.text]
    exact h.cstring
  · intro h
    rcases h with ⟨hkept, htext⟩
    exact Response.holds_of_cstring (hbody.trans hkept)
      (hshows.text.trans htext) hroomy.room

end Sources

/-!
## Requests
-/

section Requests

variable [CurlEscape] {c : StnsConf} {euid : Nat} {path : CString}
  {backend : Backend} {w : World}

theorem readFile_of_hit {i : Inode} (h : Hit c euid w path i)
    (hsize : i.size ≠ 0) :
    w.fs.readFile (cacheFilePath (cacheDirPath c euid) path) =
      some i.content := by
  rcases h with ⟨hstat, _, _, hread⟩
  unfold FileSystem.readFile
  rw [hstat]
  exact if_pos (hread.resolve_left hsize)

theorem handsString_of_hit {i : Inode} (hused : CacheUsed c euid w.fs)
    (hhit : Hit c euid w path i)
    (hfile : i.size ≠ 0 -> i.content ≠ [] ∧
      (Stdio.text (Stdio.fgets maxbuf i.content)).length <= maxBufferSize) :
    HandsString c euid path backend w := by
  refine ⟨Stdio.text (Stdio.fgets maxbuf i.content), ?_⟩
  intro M data _ _
  unfold stnsRequestCounted
  dsimp only
  rw [stnsRequestBy_of_hit _ hused hhit]
  dsimp only
  unfold answerFromFile
  by_cases hsize : i.size = 0
  · rw [if_pos hsize]
    intro hok
    exact absurd hok httpReturnedError_ne_ok
  · rw [if_neg hsize]
    intro _
    rcases hfile hsize with ⟨hcontent, hlength⟩
    refine ⟨holds_of_file hcontent hlength data, ?_⟩
    unfold deliveredBytes
    rw [if_pos rfl, readFile_of_hit hhit hsize, Option.getD_some]
    have hsub := Stdio.text_sublist (Stdio.fgets maxbuf i.content)
    rwa [Stdio.flatten_fgets] at hsub

theorem handsString_of_command
    (hmiss : CacheUsed c euid w.fs -> forall i, ¬ Hit c euid w path i)
    (havailable : (stnsRequestAvailable c w.now w.lock).1 = true)
    {wrapper : CString} (hwrapper : c.queryWrapper = some wrapper)
    (hfits : commandArgument path = true -> OutputFits backend.output) :
    HandsString c euid path backend w := by
  refine ⟨Stdio.text (Stdio.fgets maxbuf (backend.output.getD [])), ?_⟩
  intro M data hdata _
  have hcounted : stnsExecCmdCounted M path backend.output
      (Response.start data) =
        stnsExecCmd path backend.output (Response.start data) := by
    cases harg : commandArgument path with
    | false => exact (if_pos harg).trans (if_pos harg).symm
    | true => exact stnsExecCmdCounted_eq M (hfits harg) _ _
  unfold stnsRequestCounted
  rw [answerBy_of_contact _ hmiss havailable data backend]
  unfold contactBackendBy
  rw [hwrapper]
  dsimp only
  rw [hcounted]
  intro hok
  have hrun : stnsExecCmd path backend.output (Response.start data) =
      (CurlCode.ok, (stnsExecCmd path backend.output
        (Response.start data)).2) := by
    rw [← hok]
  refine ⟨holds_of_command hdata hrun, ?_⟩
  unfold deliveredBytes
  have hsub := Stdio.text_sublist
    (Stdio.fgets maxbuf (backend.output.getD []))
  rwa [Stdio.flatten_fgets] at hsub

/-- From transfers that leave a string if the last one ends well. -/
theorem handsString_of_transfers
    (hfree : forall i chunk, chunk ∈ (backend.transfers i).chunks ->
      0 ∉ chunk)
    (hmiss : CacheUsed c euid w.fs -> forall i, ¬ Hit c euid w path i)
    (havailable : (stnsRequestAvailable c w.now w.lock).1 = true)
    (hwrapper : c.queryWrapper = none)
    (hstring : (backend.transfers
        (lastAttempt backend.transfers c.retries 0)).finalResult =
          CurlCode.ok ->
      LeavesString backend.transfers
        (lastAttempt backend.transfers c.retries 0 + 1)) :
    HandsString c euid path backend w := by
  refine ⟨keptBody backend.transfers
    (lastAttempt backend.transfers c.retries 0 + 1), ?_⟩
  intro M data hdata hbounds
  unfold stnsRequestCounted
  rw [answerBy_of_contact _ hmiss havailable data backend]
  unfold contactBackendBy
  rw [hwrapper]
  dsimp only
  rw [httpBranch_eq]
  dsimp only
  intro hok
  constructor
  · rw [transfers_hold_iff hfree hdata hbounds]
    exact ⟨rfl, Received.after_text_of_leavesString (hstring hok)⟩
  · exact keptBody_sublist _ _

/-- A request that feeds its caller hands over a string. -/
theorem handsString_of_feeds
    (hfree : forall i chunk, chunk ∈ (backend.transfers i).chunks ->
      0 ∉ chunk)
    (h : Feeds c euid path backend w) :
    HandsString c euid path backend w := by
  by_cases hhit : CacheUsed c euid w.fs ∧ exists i, Hit c euid w path i
  · rcases hhit with ⟨hused, i, hhit⟩
    exact handsString_of_hit hused hhit (h.file i hused hhit)
  · have hmiss : CacheUsed c euid w.fs -> forall i, ¬ Hit c euid w path i :=
      fun hused i hfile => hhit ⟨hused, i, hfile⟩
    cases havailable : (stnsRequestAvailable c w.now w.lock).1 with
    | false =>
        refine ⟨[], ?_⟩
        intro M data _ _
        unfold stnsRequestCounted
        rw [answerBy_of_refused _ hmiss havailable data backend]
        dsimp only
        intro hok
        exact absurd hok couldntConnect_ne_ok
    | true =>
        cases hwrapper : c.queryWrapper with
        | some wrapper =>
            have hsome : c.queryWrapper ≠ none := by
              rw [hwrapper]
              exact Option.some_ne_none wrapper
            exact handsString_of_command hmiss havailable hwrapper
              (h.command hmiss havailable hsome)
        | none =>
            exact handsString_of_transfers hfree hmiss havailable hwrapper
              (h.transfers hmiss havailable hwrapper)

theorem file_of_handsString (h : HandsString c euid path backend w)
    {i : Inode} (hused : CacheUsed c euid w.fs) (hhit : Hit c euid w path i)
    (hsize : i.size ≠ 0) :
    i.content ≠ [] ∧
      (Stdio.text (Stdio.fgets maxbuf i.content)).length <= maxBufferSize := by
  rcases h with ⟨text, hstring⟩
  have hfilled := hstring Machine.wrapping filledBlock rfl rfl
  unfold stnsRequestCounted at hfilled
  dsimp only at hfilled
  rw [stnsRequestBy_of_hit _ hused hhit] at hfilled
  dsimp only at hfilled
  unfold answerFromFile at hfilled
  rw [if_neg hsize] at hfilled
  exact file_of_holds (hfilled rfl).left

/-- A buffer without a NUL shows whether a string was left. -/
theorem leavesString_of_handsString
    (hfree : forall i chunk, chunk ∈ (backend.transfers i).chunks ->
      0 ∉ chunk)
    (h : HandsString c euid path backend w)
    (hmiss : CacheUsed c euid w.fs -> forall i, ¬ Hit c euid w path i)
    (havailable : (stnsRequestAvailable c w.now w.lock).1 = true)
    (hwrapper : c.queryWrapper = none)
    (hok : (backend.transfers
      (lastAttempt backend.transfers c.retries 0)).finalResult =
        CurlCode.ok) :
    LeavesString backend.transfers
      (lastAttempt backend.transfers c.retries 0 + 1) := by
  rcases h with ⟨text, hstring⟩
  have hfilled := hstring Machine.wrapping filledBlock rfl rfl
  unfold stnsRequestCounted at hfilled
  rw [answerBy_of_contact _ hmiss havailable filledBlock backend] at hfilled
  unfold contactBackendBy at hfilled
  rw [hwrapper] at hfilled
  dsimp only at hfilled
  rw [httpBranch_eq] at hfilled
  dsimp only at hfilled
  rcases (transfers_hold_iff hfree rfl rfl _).mp (hfilled hok).left with
    ⟨hkept, htext⟩
  refine Received.leavesString_of_after_text ?_ (htext.trans hkept.symm)
  intro hempty
  have hlength := filledBlock_cstring_length
  unfold CString.length at hlength
  rw [hempty] at hlength
  exact absurd hlength (by decide)

/-- On a machine with saturating sums, an output that does not fit leaves no
room for the terminator. -/
theorem outputFits_of_handsString (h : HandsString c euid path backend w)
    (hmiss : CacheUsed c euid w.fs -> forall i, ¬ Hit c euid w path i)
    (havailable : (stnsRequestAvailable c w.now w.lock).1 = true)
    (hwrapper : c.queryWrapper ≠ none)
    (harg : commandArgument path = true) : OutputFits backend.output := by
  rcases h with ⟨text, hstring⟩
  intro stream houtput
  have hfilled := hstring Machine.saturating filledBlock rfl rfl
  rcases Option.ne_none_iff_exists'.mp hwrapper with ⟨wrapper, hwrapper⟩
  unfold stnsRequestCounted at hfilled
  rw [answerBy_of_contact _ hmiss havailable filledBlock backend] at hfilled
  unfold contactBackendBy at hfilled
  rw [hwrapper, houtput] at hfilled
  dsimp only at hfilled
  by_contra hlong
  have hroom : (Response.start filledBlock).data.capacity < 2 ^ 31 := by
    decide
  rcases stnsExecCmdCounted_overflow harg (Nat.le_of_not_lt hlong) hroom with
    ⟨hok, houtside⟩
  have hinside := (hfilled hok).left.inside
  exact absurd houtside (Nat.not_le.mpr hinside)

/-- No other request does. -/
theorem feeds_of_handsString
    (hfree : forall i chunk, chunk ∈ (backend.transfers i).chunks ->
      0 ∉ chunk)
    (h : HandsString c euid path backend w) :
    Feeds c euid path backend w where
  file _ hused hhit hsize := file_of_handsString h hused hhit hsize
  transfers hmiss havailable hwrapper hok :=
    leavesString_of_handsString hfree h hmiss havailable hwrapper hok
  command hmiss havailable hwrapper harg :=
    outputFits_of_handsString h hmiss havailable hwrapper harg

end Requests

/-- A request hands its caller a string, whatever the buffer held before,
exactly under the conditions for one. -/
theorem hands_string_iff [CurlEscape] (c : StnsConf) (euid : Nat)
    (path : CString) (backend : Backend) (w : World)
    (hfree : forall i chunk, chunk ∈ (backend.transfers i).chunks ->
      0 ∉ chunk) :
    HandsString c euid path backend w <-> Feeds c euid path backend w :=
  ⟨feeds_of_handsString hfree, handsString_of_feeds hfree⟩

/-- A server that answers with two chunks. -/
def chunkedBackend : Backend :=
  ⟨fun _ => ⟨[ascii "[", ascii "]"], 200, CurlCode.ok⟩, none, 0⟩

theorem chunkedBackend_nulFree (i : Nat) (chunk : Bytes)
    (h : chunk ∈ (chunkedBackend.transfers i).chunks) : 0 ∉ chunk := by
  have hmem : chunk ∈ [ascii "[", ascii "]"] := h
  simp only [List.mem_cons, List.not_mem_nil, or_false] at hmem
  rcases hmem with hopen | hclose
  · rw [hopen]
    decide
  · rw [hclose]
    decide

theorem hands_string_iff_chunked :
    HandsString {} 1000 (literal "users") chunkedBackend freshWorld <->
      Feeds {} 1000 (literal "users") chunkedBackend freshWorld :=
  hands_string_iff {} 1000 (literal "users") chunkedBackend freshWorld
    chunkedBackend_nulFree

/-- A server that answers with an empty body, so without any chunk. -/
def emptyBackend : Backend :=
  ⟨fun _ => ⟨[], 200, CurlCode.ok⟩, none, 0⟩

/-- The request succeeds with size 0, and no byte of the buffer is written. -/
theorem empty_body_hands_no_string :
    let answer := (stnsRequestCounted Machine.wrapping {} 1000 (literal "users")
      filledBlock emptyBackend freshWorld).1
    answer.result = CurlCode.ok ∧ answer.res.size = 0 ∧
      answer.res.data.bytes 0 = 255 ∧
        ¬ HandsString {} 1000 (literal "users") emptyBackend freshWorld := by
  dsimp only
  have hresult : (stnsRequestCounted Machine.wrapping {} 1000 (literal "users")
      filledBlock emptyBackend freshWorld).1.result = CurlCode.ok := by
    decide +kernel
  have hsize : (stnsRequestCounted Machine.wrapping {} 1000 (literal "users")
      filledBlock emptyBackend freshWorld).1.res.size = 0 := by
    decide +kernel
  have hbyte : (stnsRequestCounted Machine.wrapping {} 1000 (literal "users")
      filledBlock emptyBackend freshWorld).1.res.data.bytes 0 = 255 := by
    decide +kernel
  refine ⟨hresult, hsize, hbyte, ?_⟩
  intro h
  rcases h with ⟨text, hstring⟩
  have hterminated :=
    (hstring Machine.wrapping filledBlock rfl rfl hresult).left.terminated
  rw [hsize, hbyte] at hterminated
  exact absurd hterminated (by decide)

end Stns
