import Stns.Request.CacheFrame

/-!
# A reader and a writer of one cache file

Two processes of one user share the cache directory.  One writes the cache file
of a path, step by step; the other looks the path up, step by step; the steps
interleave.  The writer empties the file before it fills it again.
-/

namespace Stns

/-!
## The steps of the writer
-/

/-- The steps of {lit}`stns_export_file` behind its directory check; stdio
writes the data in pieces. -/
inductive ExportStep where
  | openFile
  | truncate
  | write (piece : Bytes)
  | close
  deriving DecidableEq

/-- The steps from the first piece on. -/
def writeSteps (pieces : List Bytes) : List ExportStep :=
  pieces.map .write ++ [.close]

def exportSteps (pieces : List Bytes) : List ExportStep :=
  .openFile :: .truncate :: writeSteps pieces

/-- What the steps have yet to write. -/
def unwritten (steps : List ExportStep) : Bytes :=
  steps.flatMap (fun step =>
    match step with
    | .write piece => piece
    | _ => [])

@[simp] theorem unwritten_writeSteps (pieces : List Bytes) :
    unwritten (writeSteps pieces) = pieces.flatten := by
  induction pieces with
  | nil => rfl
  | cons piece rest ih =>
      show piece ++ unwritten (writeSteps rest) = _
      rw [ih, List.flatten_cons]

@[simp] theorem truncate_not_mem_writeSteps (pieces : List Bytes) :
    .truncate ∉ writeSteps pieces := by
  simp [writeSteps]

section Writer

variable (euid now : Nat) (file : Bytes)

/-- One step, with the steps that are left: a writer that cannot open the file
as its own gives up. -/
def exportStep (fs : FileSystem) (rest : List ExportStep) :
    ExportStep -> FileSystem × List ExportStep
  | .openFile =>
      match fs.openWrite euid now fileMode file with
      | none => (fs, [])
      | some fs =>
          match fs.stat file with
          | none => (fs, [])
          | some statbuf =>
              if statbuf.uid ≠ euid then (fs, []) else (fs, rest)
  | .truncate => (fs.truncate now file, rest)
  | .write piece => (fs.append now file piece, rest)
  | .close => (fs.chmod fileMode file, rest)

end Writer

/-!
## The steps of the reader
-/

/-- How a lookup can end. -/
inductive LookupAnswer where
  | backend
  | notFound
  | body (bytes : Bytes)
  deriving DecidableEq

/-- Where a lookup stands; {lit}`reading` has what it has read so far. -/
inductive LookupState where
  | start
  | checked
  | reading (bytes : Bytes)
  | done (answer : LookupAnswer)
  deriving DecidableEq

/-- The content a reader of the file finds. -/
def contentOf (fs : FileSystem) (file : Bytes) : Option Bytes :=
  (fs.stat file).map Inode.content

section Reader

variable (c : StnsConf) (euid now : Nat) (dpath file : Bytes)

/-- The check of size and age. -/
def lookupStat (fs : FileSystem) : LookupState :=
  if c.cache ≠ 0 ∧ c.cachedEnable = 0 ∧
      stnsCacheDirIsSafe fs euid dpath = true then
    match fs.stat file with
    | none => .done .backend
    | some statbuf =>
        if statbuf.uid ≠ euid then .done .backend
        else if isFresh c now statbuf = true then
          if statbuf.size = 0 then .done .notFound else .checked
        else .done .backend
  else .done .backend

def lookupOpen (fs : FileSystem) : LookupState :=
  match fs.readFile file with
  | none => .done .backend
  | some _ => .reading []

/-- The next bytes of a file, at most {lit}`count + 1` of them. -/
def nextBytes (fs : FileSystem) (count : Nat) (bytes : Bytes) : Bytes :=
  (((contentOf fs file).getD []).drop bytes.length).take (count + 1)

/-- One {lit}`read`; without further bytes it is the end of the file. -/
def lookupRead (fs : FileSystem) (count : Nat) (bytes : Bytes) :
    LookupState :=
  if nextBytes file fs count bytes = [] then .done (.body bytes)
  else .reading (bytes ++ nextBytes file fs count bytes)

end Reader

/-!
## Interleavings
-/

/-- The two processes and what they share.  {lit}`seen` is what the writer had
left when the lookup checked the file. -/
structure Race where
  now : Nat
  fs : FileSystem
  pending : List ExportStep
  lookup : LookupState
  seen : List ExportStep

inductive RaceEvent where
  | writer
  | reader (count : Nat)
  | tick (seconds : Nat)

namespace Race

variable (c : StnsConf) (euid : Nat) (dpath file : Bytes)

def initial (now : Nat) (fs : FileSystem) (pieces : List Bytes) : Race :=
  ⟨now, fs, exportSteps pieces, .start, []⟩

def step (s : Race) : RaceEvent -> Race
  | .tick seconds => { s with now := s.now + seconds }
  | .writer =>
      match s.pending with
      | [] => s
      | next :: rest =>
          let (fs, pending) := exportStep euid s.now file s.fs rest next
          { s with fs := fs, pending := pending }
  | .reader count =>
      match s.lookup with
      | .start =>
          { s with
            lookup := lookupStat c euid s.now dpath file s.fs
            seen := s.pending }
      | .checked => { s with lookup := lookupOpen file s.fs }
      | .reading bytes =>
          { s with lookup := lookupRead file s.fs count bytes }
      | .done _ => s

def run (s : Race) (events : List RaceEvent) : Race :=
  events.foldl (step c euid dpath file) s

/-- The event keeps the reader away from the writer: the check does not find
the file emptied and fresh with nothing written yet, the end of the file is not
reached before everything is written, and the file is not emptied under a
reader that has read some of it. -/
def apart (s : Race) : RaceEvent -> Bool
  | .tick _ => true
  | .writer =>
      match s.pending, s.lookup with
      | .truncate :: _, .reading bytes => decide (bytes = [])
      | _, _ => true
  | .reader count =>
      match s.lookup with
      | .start =>
          match s.fs.stat file with
          | none => true
          | some statbuf =>
              decide (statbuf.size = 0 -> isFresh c s.now statbuf = true ->
                .openFile ∈ s.pending ∨ unwritten s.pending = [])
      | .reading bytes =>
          decide (nextBytes file s.fs count bytes = [] ->
            .truncate ∈ s.pending ∨ unwritten s.pending = [])
      | _ => true

def allApart : Race -> List RaceEvent -> Bool
  | _, [] => true
  | s, e :: rest =>
      s.apart c file e && allApart (s.step c euid dpath file e) rest

/-- What the lookup may have answered: from the backend, from the complete old
file or the complete new body; and "not found" only from an empty old file,
with the writer not at work. -/
def Untorn (fs : FileSystem) (body : Bytes) (s : Race) : Prop :=
  match s.lookup with
  | .done .notFound =>
      (exists statbuf, fs.stat file = some statbuf ∧ statbuf.size = 0) ∧
        (.openFile ∈ s.seen ∨ s.seen = [])
  | .done (.body bytes) => bytes = body ∨ contentOf fs file = some bytes
  | _ => True

/-!
## The invariant

Where the writer stands decides what the file holds: the old file, nothing, or
a prefix of the new body that the steps left complete.
-/

/-- The file system that the writer has left behind so far. -/
inductive WriterAt (file : Bytes) (old : FileSystem) (pieces : List Bytes) :
    FileSystem -> List ExportStep -> Prop where
  | idle : WriterAt file old pieces old (exportSteps pieces)
  | gaveUp : WriterAt file old pieces old []
  | opened (i : Inode) (h : old.lstat file = some (.inode i))
      (hi : i.isDirectory = false) :
      WriterAt file old pieces old (.truncate :: writeSteps pieces)
  | created (fs : FileSystem) (i : Inode) (h : fs.lstat file = some (.inode i))
      (hi : i.type = .regular []) (hold : old.lstat file = none) :
      WriterAt file old pieces fs (.truncate :: writeSteps pieces)
  | writing (fs : FileSystem) (i : Inode) (written : Bytes)
      (rest : List Bytes) (h : fs.lstat file = some (.inode i))
      (hi : i.type = .regular written)
      (hbody : written ++ rest.flatten = pieces.flatten) :
      WriterAt file old pieces fs (writeSteps rest)
  | finished (fs : FileSystem) (i : Inode) (h : fs.lstat file = some (.inode i))
      (hi : i.type = .regular pieces.flatten) :
      WriterAt file old pieces fs []

/-- What the reader has found so far fits what the file holds. -/
def ReaderAt (file : Bytes) (old : FileSystem) (body : Bytes)
    (s : Race) : Prop :=
  match s.lookup with
  | .start => True
  | .checked => .truncate ∈ s.pending -> old.stat file ≠ none
  | .reading bytes =>
      (.truncate ∈ s.pending -> old.stat file ≠ none) ∧
        exists held, contentOf s.fs file = some held ∧ bytes <+: held
  | .done _ => s.Untorn file old body

section Steps

variable {c : StnsConf} {euid now : Nat} {dpath file : Bytes}
  {old fs : FileSystem} {pieces : List Bytes} {pending : List ExportStep}

theorem content_of_regular {i : Inode} {content : Bytes}
    (hi : i.type = .regular content) : i.content = content := by
  simp [Inode.content, hi]

theorem size_of_regular {i : Inode} {content : Bytes}
    (hi : i.type = .regular content) : i.size = content.length := by
  simp [Inode.size, hi]

theorem isDirectory_of_regular {i : Inode} {content : Bytes}
    (hi : i.type = .regular content) : i.isDirectory = false := by
  simp [Inode.isDirectory, hi]

theorem contentOf_of_lstat {i : Inode}
    (h : fs.lstat file = some (.inode i)) :
    contentOf fs file = some i.content := by
  unfold contentOf
  rw [FileSystem.stat_of_lstat h]
  rfl

/-- The writer keeps its part of the invariant. -/
theorem writerAt_step {next : ExportStep} {rest : List ExportStep}
    (h : WriterAt file old pieces fs (next :: rest)) :
    WriterAt file old pieces (exportStep euid now file fs rest next).1
      (exportStep euid now file fs rest next).2 := by
  generalize hpending : next :: rest = pending at h
  cases h with
  | idle =>
      cases hpending
      simp only [exportStep]
      cases hopen : old.openWrite euid now fileMode file with
      | none => exact .gaveUp
      | some fs' =>
          rcases FileSystem.openWrite_cases hopen with
            ⟨i, hi, hregular, _, rfl⟩ | ⟨hnone, hcreate⟩
          · dsimp only
            rw [FileSystem.stat_of_lstat hi]
            dsimp only
            split
            · exact .gaveUp
            · exact .opened i hi (Inode.isDirectory_of_isRegular hregular)
          · have hnew := FileSystem.lstat_create hcreate
            dsimp only
            rw [FileSystem.stat_of_lstat hnew]
            dsimp only
            rw [if_neg (by simp)]
            exact .created fs' _ hnew rfl hnone
  | gaveUp => cases hpending
  | opened i hi hfile =>
      cases hpending
      exact .writing _ _ [] pieces (FileSystem.lstat_truncate now hi hfile) rfl
        rfl
  | created fs i hi htype hold =>
      cases hpending
      have hempty := FileSystem.lstat_truncate now hi
        (isDirectory_of_regular htype)
      exact .writing _ _ [] pieces hempty rfl rfl
  | writing fs i written rest' hi htype hbody =>
      cases rest' with
      | nil =>
          cases hpending
          have hwritten : written = pieces.flatten := by
            simpa using hbody
          rw [hwritten] at htype
          have hmode := FileSystem.lstat_chmod fileMode hi
            (isDirectory_of_regular htype)
          exact .finished _ _ hmode htype
      | cons piece more =>
          cases hpending
          refine .writing _ _ (written ++ piece) more
            (FileSystem.lstat_append now piece hi
              (isDirectory_of_regular htype)) ?_ ?_
          · rw [content_of_regular htype]
          · rw [← hbody]
            simp
  | finished fs i hi htype => cases hpending

/-- As long as the file has not been emptied, the steps left say what it
holds. -/
theorem held_of_writerAt {held : Bytes}
    (h : WriterAt file old pieces fs pending)
    (hheld : contentOf fs file = some held) :
    (.truncate ∈ pending -> old.stat file ≠ none ->
      contentOf old file = some held) ∧
    (.truncate ∉ pending -> unwritten pending = [] ->
      held = pieces.flatten ∨ contentOf old file = some held) := by
  cases h with
  | idle =>
      exact ⟨fun _ _ => hheld,
        fun habsent => absurd (by simp [exportSteps]) habsent⟩
  | gaveUp => exact ⟨fun hmem => by simp at hmem, fun _ _ => .inr hheld⟩
  | opened i hi hfile =>
      exact ⟨fun _ _ => hheld, fun habsent => absurd (by simp) habsent⟩
  | created _ i hi htype hold =>
      constructor
      · intro _ hstat
        unfold FileSystem.stat at hstat
        rw [hold] at hstat
        exact absurd rfl hstat
      · exact fun habsent => absurd (by simp) habsent
  | writing _ i written rest hi htype hbody =>
      refine ⟨fun hmem => absurd hmem (by simp), fun _ hnone => .inl ?_⟩
      rw [unwritten_writeSteps] at hnone
      rw [contentOf_of_lstat hi, content_of_regular htype,
        Option.some.injEq] at hheld
      rw [← hheld, ← hbody, hnone, List.append_nil]
  | finished _ i hi htype =>
      refine ⟨fun hmem => by simp at hmem, fun _ _ => .inl ?_⟩
      rw [contentOf_of_lstat hi, content_of_regular htype,
        Option.some.injEq] at hheld
      exact hheld.symm

/-- An empty file found while the writer is not at work is the old one. -/
theorem emptyFile_of_writerAt {statbuf : Inode}
    (h : WriterAt file old pieces fs pending) (hbody : pieces.flatten ≠ [])
    (hstat : fs.stat file = some statbuf) (hsize : statbuf.size = 0)
    (hapart : .openFile ∈ pending ∨ unwritten pending = []) :
    old.stat file = some statbuf ∧ (.openFile ∈ pending ∨ pending = []) := by
  have hafter : .openFile ∉ writeSteps pieces := by simp [writeSteps]
  have hleft : ¬ (.openFile ∈ ExportStep.truncate :: writeSteps pieces ∨
      unwritten (.truncate :: writeSteps pieces) = []) := by
    intro hwhere
    rcases hwhere with hopen | hnone
    · simp [hafter] at hopen
    · have hsame : unwritten (.truncate :: writeSteps pieces) =
          pieces.flatten := unwritten_writeSteps pieces
      rw [hsame] at hnone
      exact hbody hnone
  cases h with
  | idle => exact ⟨hstat, .inl (by simp [exportSteps])⟩
  | gaveUp => exact ⟨hstat, .inr rfl⟩
  | opened i hi => exact absurd hapart hleft
  | created _ i hi htype hold => exact absurd hapart hleft
  | writing _ i written rest hi htype hwritten =>
      rw [FileSystem.stat_of_lstat hi, Option.some.injEq] at hstat
      subst hstat
      rw [size_of_regular htype, List.length_eq_zero_iff] at hsize
      rw [hsize, List.nil_append] at hwritten
      rcases hapart with hopen | hnone
      · simp [writeSteps] at hopen
      · rw [unwritten_writeSteps, hwritten] at hnone
        exact absurd hnone hbody
  | finished _ i hi htype =>
      rw [FileSystem.stat_of_lstat hi, Option.some.injEq] at hstat
      subst hstat
      rw [size_of_regular htype, List.length_eq_zero_iff] at hsize
      exact absurd hsize hbody

/-- A file that is there stays there and, unless it is emptied, keeps what a
reader has read at its start. -/
theorem readAt_writerStep {next : ExportStep} {rest : List ExportStep}
    {held bytes : Bytes} (h : WriterAt file old pieces fs (next :: rest))
    (hold : .truncate ∈ next :: rest -> old.stat file ≠ none)
    (hheld : contentOf fs file = some held) (hbytes : bytes <+: held)
    (hapart : next = .truncate -> bytes = []) :
    exists held',
      contentOf (exportStep euid now file fs rest next).1 file =
          some held' ∧ bytes <+: held' := by
  generalize hpending : next :: rest = pending at h hold
  cases h with
  | idle =>
      cases hpending
      have hthere := hold (by simp [exportSteps])
      simp only [exportStep]
      cases hopen : old.openWrite euid now fileMode file with
      | none => exact ⟨held, hheld, hbytes⟩
      | some fs' =>
          rcases FileSystem.openWrite_cases hopen with
            ⟨i, hi, _, _, rfl⟩ | ⟨hnone, _⟩
          · dsimp only
            rw [FileSystem.stat_of_lstat hi]
            dsimp only
            split
            · exact ⟨held, hheld, hbytes⟩
            · exact ⟨held, hheld, hbytes⟩
          · unfold FileSystem.stat at hthere
            rw [hnone] at hthere
            exact absurd rfl hthere
  | gaveUp => cases hpending
  | opened i hi hfile =>
      cases hpending
      rw [hapart rfl]
      have hempty := FileSystem.lstat_truncate now hi hfile
      exact ⟨[], contentOf_of_lstat hempty, List.nil_prefix⟩
  | created _ i hi htype hnone =>
      cases hpending
      rw [hapart rfl]
      have hempty := FileSystem.lstat_truncate now hi
        (isDirectory_of_regular htype)
      exact ⟨[], contentOf_of_lstat hempty, List.nil_prefix⟩
  | writing _ i written rest' hi htype hbody =>
      rw [contentOf_of_lstat hi, content_of_regular htype,
        Option.some.injEq] at hheld
      subst hheld
      cases rest' with
      | nil =>
          cases hpending
          have hcontent := contentOf_of_lstat
            (FileSystem.lstat_chmod fileMode hi (isDirectory_of_regular htype))
          refine ⟨written, ?_, hbytes⟩
          rw [← content_of_regular htype]
          exact hcontent
      | cons piece more =>
          cases hpending
          refine ⟨written ++ piece, ?_,
            hbytes.trans (List.prefix_append written piece)⟩
          rw [← content_of_regular htype]
          exact contentOf_of_lstat
            (FileSystem.lstat_append now piece hi
              (isDirectory_of_regular htype))
  | finished _ i hi htype => cases hpending

/-!
## Every step keeps the invariant
-/

/-- The invariant of the race. -/
structure Invariant (file : Bytes) (old : FileSystem) (pieces : List Bytes)
    (s : Race) : Prop where
  writer : WriterAt file old pieces s.fs s.pending
  reader : ReaderAt file old pieces.flatten s

theorem invariant_initial (now : Nat) (old : FileSystem)
    (pieces : List Bytes) :
    Invariant file old pieces (initial now old pieces) where
  writer := .idle
  reader := trivial

theorem invariant_tick {s : Race} (hinv : Invariant file old pieces s)
    (seconds : Nat) :
    Invariant file old pieces (s.step c euid dpath file (.tick seconds)) where
  writer := hinv.writer
  reader := hinv.reader

/-- Where a step left the steps that stay, it left them as they were. -/
theorem pending_of_exportStep (euid now : Nat) (file : Bytes)
    (fs : FileSystem) (next : ExportStep) (rest : List ExportStep) :
    (exportStep euid now file fs rest next).2 = rest ∨
      (exportStep euid now file fs rest next).2 = [] := by
  cases next with
  | openFile =>
      simp only [exportStep]
      split
      · exact .inr rfl
      · split
        · exact .inr rfl
        · split
          · exact .inr rfl
          · exact .inl rfl
  | truncate => exact .inl rfl
  | write piece => exact .inl rfl
  | close => exact .inl rfl

theorem invariant_writer {s : Race} (hinv : Invariant file old pieces s)
    (hapart : s.apart c file .writer = true) :
    Invariant file old pieces (s.step c euid dpath file .writer) := by
  cases hpending : s.pending with
  | nil =>
      have hsame : s.step c euid dpath file .writer = s := by
        simp only [step, hpending]
      rw [hsame]
      exact hinv
  | cons next rest =>
      have hwriter := hinv.writer
      rw [hpending] at hwriter
      have hstep : s.step c euid dpath file .writer =
          { s with
            fs := (exportStep euid s.now file s.fs rest next).1
            pending := (exportStep euid s.now file s.fs rest next).2 } := by
        simp only [step, hpending]
      have hkept : .truncate ∈ (exportStep euid s.now file s.fs rest next).2 ->
          .truncate ∈ next :: rest := by
        intro hmem
        rcases pending_of_exportStep euid s.now file s.fs next rest with
          hsame | hnone
        · rw [hsame] at hmem
          exact List.mem_cons_of_mem next hmem
        · rw [hnone] at hmem
          cases hmem
      have hreader := hinv.reader
      rw [hstep]
      refine ⟨writerAt_step hwriter, ?_⟩
      unfold ReaderAt at hreader ⊢
      cases hlookup : s.lookup with
      | start => trivial
      | checked =>
          simp only [hlookup, hpending] at hreader ⊢
          exact fun hmem => hreader (hkept hmem)
      | reading bytes =>
          simp only [hlookup, hpending] at hreader ⊢
          rcases hreader with ⟨hthere, held, hheld, hbytes⟩
          refine ⟨fun hmem => hthere (hkept hmem), ?_⟩
          apply readAt_writerStep hwriter hthere hheld hbytes
          intro htruncate
          subst htruncate
          simpa [apart, hpending, hlookup] using hapart
      | done answer =>
          simp only [hlookup] at hreader ⊢
          simpa [Untorn, hlookup] using hreader

/-- A file that is not empty and not emptied yet was there before. -/
theorem there_of_writerAt {statbuf : Inode}
    (h : WriterAt file old pieces fs pending)
    (hstat : fs.stat file = some statbuf) (hsize : statbuf.size ≠ 0)
    (hmem : .truncate ∈ pending) : old.stat file ≠ none := by
  cases h with
  | idle => simp [hstat]
  | gaveUp => cases hmem
  | opened i hi hfile => simp [FileSystem.stat_of_lstat hi]
  | created _ i hi htype hold =>
      rw [FileSystem.stat_of_lstat hi, Option.some.injEq] at hstat
      subst hstat
      exact absurd (size_of_regular htype) hsize
  | writing _ i written rest hi htype hbody =>
      exact absurd hmem (truncate_not_mem_writeSteps rest)
  | finished _ i hi htype => cases hmem

theorem lookupStat_cases (c : StnsConf) (euid now : Nat)
    (dpath file : Bytes) (fs : FileSystem) :
    lookupStat c euid now dpath file fs = .done .backend ∨
    (exists statbuf, fs.stat file = some statbuf ∧
      isFresh c now statbuf = true ∧ statbuf.size = 0 ∧
      lookupStat c euid now dpath file fs = .done .notFound) ∨
    (exists statbuf, fs.stat file = some statbuf ∧ statbuf.size ≠ 0 ∧
      lookupStat c euid now dpath file fs = .checked) := by
  unfold lookupStat
  split
  · cases hstat : fs.stat file with
    | none => exact .inl rfl
    | some statbuf =>
        dsimp only
        split
        · exact .inl rfl
        · split
          · rename_i hfresh
            split
            · rename_i hsize
              exact .inr (.inl ⟨statbuf, rfl, hfresh, hsize, rfl⟩)
            · rename_i hsize
              exact .inr (.inr ⟨statbuf, rfl, hsize, rfl⟩)
          · exact .inl rfl
  · exact .inl rfl

theorem invariant_stat {s : Race} (hbody : pieces.flatten ≠ [])
    (hinv : Invariant file old pieces s) (hlookup : s.lookup = .start)
    {count : Nat} (hapart : s.apart c file (.reader count) = true) :
    Invariant file old pieces
      { s with
        lookup := lookupStat c euid s.now dpath file s.fs
        seen := s.pending } := by
  refine ⟨hinv.writer, ?_⟩
  unfold ReaderAt
  dsimp only
  rcases lookupStat_cases c euid s.now dpath file s.fs with
    hanswer | ⟨statbuf, hstat, hfresh, hsize, hanswer⟩ |
    ⟨statbuf, hstat, hsize, hanswer⟩
  · rw [hanswer]
    trivial
  · simp only [apart, hlookup, hstat, decide_eq_true_eq] at hapart
    rcases emptyFile_of_writerAt hinv.writer hbody hstat hsize
      (hapart hsize hfresh) with ⟨hold, hseen⟩
    rw [hanswer]
    exact ⟨⟨statbuf, hold, hsize⟩, hseen⟩
  · rw [hanswer]
    exact fun hmem => there_of_writerAt hinv.writer hstat hsize hmem

theorem lookupOpen_cases (file : Bytes) (fs : FileSystem) :
    lookupOpen file fs = .done .backend ∨
      (lookupOpen file fs = .reading [] ∧
        exists held, contentOf fs file = some held) := by
  unfold lookupOpen FileSystem.readFile contentOf
  cases fs.stat file with
  | none => exact .inl rfl
  | some statbuf =>
      cases hreadable : statbuf.readable with
      | true => exact .inr ⟨by simp [hreadable], statbuf.content, rfl⟩
      | false => exact .inl (by simp [hreadable])

theorem invariant_open {s : Race} (hinv : Invariant file old pieces s)
    (hlookup : s.lookup = .checked) :
    Invariant file old pieces { s with lookup := lookupOpen file s.fs } := by
  have hreader := hinv.reader
  simp only [ReaderAt, hlookup] at hreader
  refine ⟨hinv.writer, ?_⟩
  unfold ReaderAt
  dsimp only
  rcases lookupOpen_cases file s.fs with
    hanswer | ⟨hanswer, held, hheld⟩
  · rw [hanswer]
    trivial
  · rw [hanswer]
    exact ⟨hreader, held, hheld, List.nil_prefix⟩

theorem invariant_read {s : Race} (hinv : Invariant file old pieces s)
    {bytes : Bytes} (hlookup : s.lookup = .reading bytes) {count : Nat}
    (hapart : s.apart c file (.reader count) = true) :
    Invariant file old pieces
      { s with lookup := lookupRead file s.fs count bytes } := by
  have hreader := hinv.reader
  simp only [ReaderAt, hlookup] at hreader
  rcases hreader with ⟨hthere, held, hheld, hbytes⟩
  have hsplit : bytes ++ held.drop bytes.length = held :=
    List.prefix_iff_eq_append.mp hbytes
  have hnext : nextBytes file s.fs count bytes =
      (held.drop bytes.length).take (count + 1) := by
    unfold nextBytes
    rw [hheld]
    rfl
  refine ⟨hinv.writer, ?_⟩
  unfold ReaderAt lookupRead
  by_cases hend : nextBytes file s.fs count bytes = []
  · simp only [if_pos hend]
    have hdrop : held.drop bytes.length = [] := by
      rw [hnext] at hend
      simpa using hend
    have hall : bytes = held := by
      rw [hdrop, List.append_nil] at hsplit
      exact hsplit
    have hheld' := held_of_writerAt hinv.writer hheld
    simp only [apart, hlookup, decide_eq_true_eq] at hapart
    show bytes = pieces.flatten ∨ contentOf old file = some bytes
    rw [hall]
    rcases hapart hend with htruncate | hwritten
    · exact .inr (hheld'.left htruncate (hthere htruncate))
    · by_cases htruncate : .truncate ∈ s.pending
      · exact .inr (hheld'.left htruncate (hthere htruncate))
      · exact hheld'.right htruncate hwritten
  · simp only [if_neg hend]
    refine ⟨hthere, held, hheld, ?_⟩
    rw [hnext]
    have htake : bytes ++ (held.drop bytes.length).take (count + 1) <+:
        bytes ++ held.drop bytes.length :=
      (List.prefix_append_right_inj bytes).mpr (List.take_prefix _ _)
    rw [hsplit] at htake
    exact htake

theorem invariant_reader {s : Race} (hbody : pieces.flatten ≠ [])
    (hinv : Invariant file old pieces s) {count : Nat}
    (hapart : s.apart c file (.reader count) = true) :
    Invariant file old pieces
      (s.step c euid dpath file (.reader count)) := by
  simp only [step]
  split
  · rename_i hlookup
    exact invariant_stat hbody hinv hlookup hapart
  · rename_i hlookup
    exact invariant_open hinv hlookup
  · rename_i bytes hlookup
    exact invariant_read hinv hlookup hapart
  · exact hinv

theorem invariant_run (hbody : pieces.flatten ≠ []) {s : Race}
    (hinv : Invariant file old pieces s) (events : List RaceEvent)
    (hapart : s.allApart c euid dpath file events = true) :
    Invariant file old pieces (s.run c euid dpath file events) := by
  induction events generalizing s with
  | nil => exact hinv
  | cons e rest ih =>
      simp only [allApart, Bool.and_eq_true] at hapart
      rcases hapart with ⟨hfirst, hrest⟩
      apply ih _ hrest
      cases e with
      | tick seconds => exact invariant_tick hinv seconds
      | writer => exact invariant_writer hinv hfirst
      | reader count => exact invariant_reader hbody hinv hfirst

theorem Invariant.untorn {s : Race} (hinv : Invariant file old pieces s) :
    s.Untorn file old pieces.flatten := by
  have hreader := hinv.reader
  unfold ReaderAt at hreader
  unfold Untorn
  cases hlookup : s.lookup with
  | start => trivial
  | checked => trivial
  | reading bytes => trivial
  | done answer =>
      simp only [hlookup] at hreader
      simpa only [Untorn, hlookup] using hreader

end Steps

/-- In every interleaving that keeps the reader away from the writer, the
lookup answers from a complete file. -/
theorem untorn_of_apart (c : StnsConf) (euid now : Nat) (dpath file : Bytes)
    (old : FileSystem) (pieces : List Bytes) (events : List RaceEvent)
    (hbody : pieces.flatten ≠ [])
    (hapart : (initial now old pieces).allApart c euid dpath file events =
      true) :
    ((initial now old pieces).run c euid dpath file events).Untorn file old
      pieces.flatten :=
  (invariant_run hbody (invariant_initial now old pieces) events
    hapart).untorn

/-- A safe directory for user 1000, with nothing in it. -/
def emptyCache : FileSystem :=
  ⟨AList.singleton (ascii "/c/1000")
    (.inode ⟨.directory 4096, 1000, dirMode, true, true, 0⟩)⟩

/-- The lookup waits for the writer. -/
theorem untorn_of_apart_waiting :
    ((initial 0 emptyCache [ascii "[", ascii "]"]).run {} 1000
        (ascii "/c/1000") (ascii "/c/1000/users")
        [.writer, .writer, .writer, .writer, .reader 0, .reader 0, .writer,
          .reader 0, .reader 7, .reader 7]).Untorn (ascii "/c/1000/users")
      emptyCache (ascii "[]") :=
  untorn_of_apart {} 1000 0 (ascii "/c/1000") (ascii "/c/1000/users")
    emptyCache [ascii "[", ascii "]"] _ (by decide) (by decide)

/-- The lookup checks the file between its creation and its first byte, and
answers that there is no such entry. -/
theorem created_file_answers_not_found :
    ((initial 0 emptyCache [ascii "[]"]).run {} 1000 (ascii "/c/1000")
        (ascii "/c/1000/users") [.writer, .reader 0]).lookup =
      .done .notFound ∧
    ¬ ((initial 0 emptyCache [ascii "[]"]).run {} 1000 (ascii "/c/1000")
        (ascii "/c/1000/users") [.writer, .reader 0]).Untorn
      (ascii "/c/1000/users") emptyCache (ascii "[]") := by
  refine ⟨by decide, ?_⟩
  intro huntorn
  rcases huntorn with ⟨⟨statbuf, hstat, _⟩, _⟩
  have hnone : emptyCache.stat (ascii "/c/1000/users") = none := by decide
  rw [hnone] at hstat
  cases hstat

/-!
## One process alone

Without a second process, the steps are the functions they were cut from.
-/

/-- How a lookup that takes all its steps at once ends. -/
def answerOf (fs : FileSystem) (file : Bytes) : CacheLookup -> LookupAnswer
  | .notFound => .notFound
  | .found _ => .body ((contentOf fs file).getD [])
  | .miss _ => .backend

theorem cacheLookup_of_stat (c : StnsConf) (euid now : Nat)
    (dpath file : Bytes) (data : Block) (fs : FileSystem) :
    (lookupStat c euid now dpath file fs = .done .backend ∧
      exists fs', cacheLookup c euid now fs dpath file data = .miss fs') ∨
    (lookupStat c euid now dpath file fs = .done .notFound ∧
      cacheLookup c euid now fs dpath file data = .notFound) ∨
    (lookupStat c euid now dpath file fs = .checked ∧
      cacheLookup c euid now fs dpath file data =
        match stnsImportFile fs file data with
        | none => .miss fs
        | some data => .found data) := by
  unfold lookupStat cacheLookup
  by_cases hguard : c.cache ≠ 0 ∧ c.cachedEnable = 0 ∧
      stnsCacheDirIsSafe fs euid dpath = true
  · rw [if_pos hguard, if_pos hguard]
    cases fs.stat file with
    | none => exact .inl ⟨rfl, fs, rfl⟩
    | some statbuf =>
        dsimp only
        by_cases huid : statbuf.uid ≠ euid
        · rw [if_pos huid, if_pos huid]
          exact .inl ⟨rfl, fs, rfl⟩
        · rw [if_neg huid, if_neg huid]
          by_cases hfresh : isFresh c now statbuf = true
          · rw [if_pos hfresh, if_pos hfresh]
            by_cases hsize : statbuf.size = 0
            · rw [if_pos hsize, if_pos hsize]
              exact .inr (.inl ⟨rfl, rfl⟩)
            · rw [if_neg hsize, if_neg hsize]
              exact .inr (.inr ⟨rfl, rfl⟩)
          · rw [if_neg hfresh, if_neg hfresh]
            exact .inl ⟨rfl, _, rfl⟩
  · rw [if_neg hguard, if_neg hguard]
    exact .inl ⟨rfl, fs, rfl⟩

section Alone

variable {c : StnsConf} {euid : Nat} {dpath file : Bytes} {s : Race}

theorem run_replicate_succ (n : Nat) (e : RaceEvent) :
    s.run c euid dpath file (List.replicate (n + 1) e) =
      (s.step c euid dpath file e).run c euid dpath file
        (List.replicate n e) := by
  rw [List.replicate_succ]
  rfl

theorem run_done {answer : LookupAnswer} (h : s.lookup = .done answer)
    (n count : Nat) :
    (s.run c euid dpath file (List.replicate n (.reader count))).lookup =
      .done answer := by
  induction n with
  | zero => exact h
  | succ n ih =>
      have hsame : s.step c euid dpath file (.reader count) = s := by
        simp only [step, h]
      rw [run_replicate_succ, hsame]
      exact ih

/-- One long read and the end of the file. -/
theorem run_reading (h : s.lookup = .reading []) {held : Bytes}
    (hheld : (contentOf s.fs file).getD [] = held) {count : Nat}
    (hcount : held.length <= count) :
    (s.run c euid dpath file (List.replicate 2 (.reader count))).lookup =
      .done (.body held) := by
  have hfirst : nextBytes file s.fs count [] = held := by
    unfold nextBytes
    rw [hheld, List.length_nil, List.drop_zero]
    exact List.take_of_length_le (by omega)
  have hlast : nextBytes file s.fs count held = [] := by
    unfold nextBytes
    rw [hheld, List.drop_length, List.take_nil]
  rw [run_replicate_succ]
  by_cases hempty : held = []
  · apply run_done
    simp only [step, h, lookupRead, hfirst]
    rw [if_pos hempty, hempty]
  · have hstep : s.step c euid dpath file (.reader count) =
        { s with lookup := .reading held } := by
      simp only [step, h, lookupRead, hfirst, List.nil_append]
      rw [if_neg hempty]
    rw [hstep, run_replicate_succ]
    apply run_done
    simp only [step, lookupRead]
    rw [if_pos hlast]

/-- Four steps of the reader, with a read that is long enough, make a
lookup. -/
theorem reader_alone (data : Block) (hstart : s.lookup = .start) {count : Nat}
    (hcount : ((contentOf s.fs file).getD []).length <= count) :
    (s.run c euid dpath file (List.replicate 4 (.reader count))).lookup =
      .done (answerOf s.fs file
        (cacheLookup c euid s.now s.fs dpath file data)) := by
  have hstat : s.step c euid dpath file (.reader count) =
      { s with
        lookup := lookupStat c euid s.now dpath file s.fs
        seen := s.pending } := by
    simp only [step, hstart]
  rw [run_replicate_succ, hstat]
  rcases cacheLookup_of_stat c euid s.now dpath file data s.fs with
    ⟨hanswer, fs', hlookup⟩ | ⟨hanswer, hlookup⟩ | ⟨hanswer, hlookup⟩
  · rw [hanswer, hlookup]
    exact run_done rfl 3 count
  · rw [hanswer, hlookup]
    exact run_done rfl 3 count
  · rw [hanswer, hlookup, run_replicate_succ]
    unfold stnsImportFile
    cases hread : s.fs.readFile file with
    | none =>
        apply run_done
        simp only [step, lookupOpen, hread]
        rfl
    | some content =>
        have hopen : Race.step c euid dpath file
            { s with lookup := .checked, seen := s.pending } (.reader count) =
              { s with lookup := .reading [], seen := s.pending } := by
          simp only [step, lookupOpen, hread]
        rw [hopen]
        exact run_reading rfl rfl hcount

theorem run_idle (h : s.pending = []) (n : Nat) :
    s.run c euid dpath file (List.replicate n .writer) = s := by
  induction n with
  | zero => rfl
  | succ n ih =>
      have hsame : s.step c euid dpath file .writer = s := by
        simp only [step, h]
      rw [run_replicate_succ, hsame]
      exact ih

theorem foldl_append (now : Nat) (file : Bytes) (fs : FileSystem)
    (front : Bytes) (pieces : List Bytes) :
    pieces.foldl (fun fs piece => fs.append now file piece)
        (fs.append now file front) =
      fs.append now file (front ++ pieces.flatten) := by
  induction pieces generalizing front with
  | nil => simp
  | cons piece rest ih =>
      rw [List.foldl_cons, FileSystem.append_append, ih, List.flatten_cons,
        List.append_assoc]

theorem run_writeSteps {pieces : List Bytes}
    (h : s.pending = writeSteps pieces) :
    (s.run c euid dpath file
        (List.replicate (pieces.length + 1) .writer)).fs =
      (pieces.foldl (fun fs piece => fs.append s.now file piece) s.fs).chmod
        fileMode file := by
  induction pieces generalizing s with
  | nil =>
      have hclose : s.step c euid dpath file .writer =
          { s with fs := s.fs.chmod fileMode file, pending := [] } := by
        simp only [step, h]
        rfl
      rw [run_replicate_succ, hclose]
      rfl
  | cons piece rest ih =>
      have hwrite : s.step c euid dpath file .writer =
          { s with
            fs := s.fs.append s.now file piece
            pending := writeSteps rest } := by
        simp only [step, h]
        rfl
      rw [List.length_cons, run_replicate_succ, hwrite, ih rfl]
      rfl

/-- The writer's steps, all taken at once over a safe directory, are the
export. -/
theorem writer_alone {pieces : List Bytes} {data : CString} {node : Node}
    (hdata : data.chars = pieces.flatten)
    (hnode : s.fs.lstat dpath = some node) (hsafe : node.Safe euid)
    (h : s.pending = exportSteps pieces) :
    (s.run c euid dpath file
        (List.replicate (pieces.length + 3) .writer)).fs =
      stnsExportFile s.fs euid s.now dpath file data := by
  have hopen : s.step c euid dpath file .writer =
      { s with
        fs := (exportStep euid s.now file s.fs
          (.truncate :: writeSteps pieces) .openFile).1
        pending := (exportStep euid s.now file s.fs
          (.truncate :: writeSteps pieces) .openFile).2 } := by
    simp only [step, h, exportSteps]
  rw [run_replicate_succ, hopen, stnsExportFile_of_safe data hnode hsafe]
  cases hfile : s.fs.openWrite euid s.now fileMode file with
  | none =>
      simp only [exportStep, hfile]
      rw [run_idle rfl]
  | some fs =>
      unfold rewriteFile
      simp only [exportStep, hfile]
      cases hstat : fs.stat file with
      | none =>
          dsimp only
          rw [run_idle rfl]
      | some statbuf =>
          dsimp only
          split
          · rw [run_idle rfl]
          · have hpieces := foldl_append s.now file
              (fs.truncate s.now file) [] pieces
            rw [FileSystem.truncate_append_nil, List.nil_append] at hpieces
            rw [run_replicate_succ]
            show (Race.run c euid dpath file
              { s with
                fs := fs.truncate s.now file
                pending := writeSteps pieces } _).fs = _
            rw [run_writeSteps rfl, hdata, ← hpieces]

end Alone

end Race

end Stns
